import Mathlib.Data.Nat.Digits.Defs
import Mathlib.Order.Defs.LinearOrder

/-!
Dates and times of day in UTC, and their texts.

Both the instant of a date and its text are built from the fields of the date, the most
significant one first. So both comparisons are the comparison of the first field followed by
the comparison of what is left, and each is the comparison of the fields.
-/

namespace GgAgent.Lib

/-! ### Comparisons of compound values -/

theorem compare_append {α : Type} [Ord α] {xs ys : List α} (h : xs.length = ys.length)
    (xs' ys' : List α) :
    compare (xs ++ xs') (ys ++ ys') = (compare xs ys).then (compare xs' ys') := by
  induction xs generalizing ys with
  | nil =>
      obtain rfl := List.eq_nil_of_length_eq_zero h.symm
      rfl
  | cons x xs ih =>
      cases ys with
      | nil => simp at h
      | cons y ys =>
          simp only [List.length_cons, Nat.add_right_cancel_iff] at h
          rw [List.cons_append, List.cons_append, List.compare_cons_cons, List.compare_cons_cons,
            ih h, Ordering.then_assoc]

/-- Two numbers whose leading parts differ compare as these, if a trailing part never makes up
for the difference. -/
theorem compare_lead {f : Nat → Nat} {g : Nat → Nat} {x y r s : Nat}
    (hf : ∀ {x y}, x < y → f x + g x ≤ f y) (hr : r < g x) (hs : s < g y) :
    compare (f x + r) (f y + s) = (compare x y).then (compare r s) := by
  rcases Nat.lt_trichotomy x y with hlt | rfl | hgt
  · have hle := hf hlt
    rw [Nat.compare_eq_lt.mpr hlt, Ordering.lt_then, Nat.compare_eq_lt]
    omega
  · rw [Nat.compare_eq_eq.mpr rfl, Ordering.eq_then]
    rcases Nat.lt_trichotomy r s with hlt | rfl | hgt
    · rw [Nat.compare_eq_lt.mpr hlt, Nat.compare_eq_lt]
      omega
    · exact (Nat.compare_eq_eq.mpr rfl).trans (Nat.compare_eq_eq.mpr rfl).symm
    · rw [Nat.compare_eq_gt.mpr hgt, Nat.compare_eq_gt]
      omega
  · have hle := hf hgt
    rw [Nat.compare_eq_gt.mpr hgt, Ordering.gt_then, Nat.compare_eq_gt]
    omega

theorem compare_radix {m x y r s : Nat} (hr : r < m) (hs : s < m) :
    compare (x * m + r) (y * m + s) = (compare x y).then (compare r s) := by
  refine compare_lead (f := fun x => x * m) (g := fun _ => m) ?_ hr hs
  intro x y hlt
  show x * m + m ≤ y * m
  rw [← Nat.succ_mul]
  exact Nat.mul_le_mul_right m hlt

/-! ### Periods of different lengths -/

/-- Where period `k` begins if `len` are the lengths of the periods. -/
def start (len : Nat → Nat) : Nat → Nat
  | 0 => 0
  | k + 1 => start len k + len k

theorem start_le {g : Nat → Nat} {k l : Nat} (h : k < l) : start g k + g k ≤ start g l := by
  induction l with
  | zero => omega
  | succ l ih =>
      rw [start]
      rcases Nat.lt_succ_iff_lt_or_eq.mp h with hlt | rfl
      · have := ih hlt
        omega
      · exact Nat.le_refl _

theorem compare_start {g : Nat → Nat} {k l r s : Nat} (hr : r < g k) (hs : s < g l) :
    compare (start g k + r) (start g l + s) = (compare k l).then (compare r s) :=
  compare_lead start_le hr hs

/-- The period that position `n` of the periods from `k` on falls into, and the position in it. -/
def locate (len : Nat → Nat) : Nat → Nat → Nat → Nat × Nat
  | 0, k, n => (k, n)
  | fuel + 1, k, n => if n < len k then (k, n) else locate len fuel (k + 1) (n - len k)

theorem locate_spec {g : Nat → Nat} (hpos : ∀ k, 0 < g k) {fuel k n : Nat} (h : n < fuel) :
    (locate g fuel k n).2 < g (locate g fuel k n).1 ∧
      start g (locate g fuel k n).1 + (locate g fuel k n).2 = start g k + n := by
  induction fuel generalizing k n with
  | zero => omega
  | succ fuel ih =>
      rw [locate]
      split
      next hlt => exact ⟨hlt, rfl⟩
      next hge =>
        have := hpos k
        obtain ⟨hlt, heq⟩ := ih (k := k + 1) (n := n - g k) (by omega)
        refine ⟨hlt, heq.trans ?_⟩
        rw [start]
        omega

/-! ### The calendar -/

def isLeap (year : Nat) : Bool := year % 4 = 0 && (year % 100 ≠ 0 || year % 400 = 0)

def daysInMonth (year : Nat) : Nat → Nat
  | 2 => if isLeap year then 29 else 28
  | 4 | 6 | 9 | 11 => 30
  | _ => 31

def daysBeforeMonth (year month : Nat) : Nat := start (fun m => daysInMonth year (m + 1)) (month - 1)

def daysInYear (year : Nat) : Nat := if isLeap year then 366 else 365

def daysBeforeYear (year : Nat) : Nat := start (fun y => daysInYear (y + 1)) (year - 1)

theorem daysBeforeYear_eq (year : Nat) :
    daysBeforeYear (year + 1) = year * 365 + year / 4 - year / 100 + year / 400 := by
  show start (fun y => daysInYear (y + 1)) year = _
  induction year with
  | zero => rfl
  | succ y ih =>
      rw [start, ih, daysInYear, isLeap]
      simp only [Bool.and_eq_true, Bool.or_eq_true, decide_eq_true_eq]
      split <;> omega

theorem daysInMonth_pos (year month : Nat) : 0 < daysInMonth year month := by
  unfold daysInMonth
  split <;> (try split) <;> omega

theorem daysBeforeMonth_thirteen (year : Nat) : daysBeforeMonth year 13 = daysInYear year := by
  cases h : isLeap year <;> simp [daysBeforeMonth, start, daysInMonth, daysInYear, h]

theorem daysInYear_pos (year : Nat) : 0 < daysInYear year := by
  unfold daysInYear
  split <;> omega

/-- A `datetime` with `tzinfo=UTC`. -/
structure DateTime where
  year : Nat
  month : Nat
  day : Nat
  hour : Nat
  minute : Nat
  second : Nat
  microsecond : Nat
  year_mem : 1 ≤ year ∧ year ≤ 9999
  month_mem : 1 ≤ month ∧ month ≤ 12
  day_mem : 1 ≤ day ∧ day ≤ daysInMonth year month
  hour_lt : hour < 24
  minute_lt : minute < 60
  second_lt : second < 60
  microsecond_lt : microsecond < 1000000

namespace DateTime

/-- The comparison of two values with the same `tzinfo`, field by field. -/
def cmp (a b : DateTime) : Ordering :=
  (compare a.year b.year).then <| (compare a.month b.month).then <| (compare a.day b.day).then <|
    (compare a.hour b.hour).then <| (compare a.minute b.minute).then <|
      (compare a.second b.second).then (compare a.microsecond b.microsecond)

/-- The day, counted from the first day of year 1. -/
def days (d : DateTime) : Nat := daysBeforeYear d.year + (daysBeforeMonth d.year d.month + (d.day - 1))

/-- The microseconds since the beginning of year 1. -/
def instant (d : DateTime) : Nat :=
  (((d.days * 24 + d.hour) * 60 + d.minute) * 60 + d.second) * 1000000 + d.microsecond

theorem dayOfYear_lt (d : DateTime) : daysBeforeMonth d.year d.month + (d.day - 1) < daysInYear d.year := by
  have hm := d.month_mem
  have hd := d.day_mem
  have hle : start (fun m => daysInMonth d.year (m + 1)) (d.month - 1) +
      daysInMonth d.year (d.month - 1 + 1) ≤ start (fun m => daysInMonth d.year (m + 1)) 12 :=
    start_le (g := fun m => daysInMonth d.year (m + 1)) (by omega)
  rw [Nat.sub_add_cancel hm.1] at hle
  rw [← daysBeforeMonth_thirteen]
  show start _ _ + _ < start (fun m => daysInMonth d.year (m + 1)) 12
  omega

theorem compare_pred {x y : Nat} (hx : 1 ≤ x) (hy : 1 ≤ y) :
    compare (x - 1) (y - 1) = compare x y := by
  rcases Nat.lt_trichotomy x y with hlt | rfl | hgt
  · rw [Nat.compare_eq_lt.mpr hlt, Nat.compare_eq_lt]
    omega
  · rw [Nat.compare_eq_eq.mpr rfl, Nat.compare_eq_eq.mpr rfl]
  · rw [Nat.compare_eq_gt.mpr hgt, Nat.compare_eq_gt]
    omega

theorem compare_days (a b : DateTime) :
    compare a.days b.days = (compare a.year b.year).then
      ((compare a.month b.month).then (compare a.day b.day)) := by
  have ha := a.dayOfYear_lt
  have hb := b.dayOfYear_lt
  have hyear : compare a.days b.days = (compare a.year b.year).then
      (compare (daysBeforeMonth a.year a.month + (a.day - 1))
        (daysBeforeMonth b.year b.month + (b.day - 1))) := by
    rw [← compare_pred a.year_mem.1 b.year_mem.1]
    apply compare_start
    · rwa [Nat.sub_add_cancel a.year_mem.1]
    · rwa [Nat.sub_add_cancel b.year_mem.1]
  rw [hyear]
  by_cases heq : a.year = b.year
  case neg =>
    -- The years decide.
    rcases Nat.lt_or_gt_of_ne heq with hlt | hgt
    · rw [Nat.compare_eq_lt.mpr hlt]
      rfl
    · rw [Nat.compare_eq_gt.mpr hgt]
      rfl
  case pos =>
    have hday : compare (a.day - 1) (b.day - 1) = compare a.day b.day :=
      compare_pred a.day_mem.1 b.day_mem.1
    have hda := a.day_mem
    have hdb := b.day_mem
    rw [heq, ← compare_pred a.month_mem.1 b.month_mem.1, ← hday]
    rw [heq] at hda
    congr 1
    apply compare_start
    · rw [Nat.sub_add_cancel a.month_mem.1]
      omega
    · rw [Nat.sub_add_cancel b.month_mem.1]
      omega

/-- The order of the fields is the order in time. -/
theorem compare_instant (a b : DateTime) : compare a.instant b.instant = a.cmp b := by
  unfold instant cmp
  rw [compare_radix a.microsecond_lt b.microsecond_lt, compare_radix a.second_lt b.second_lt,
    compare_radix a.minute_lt b.minute_lt, compare_radix a.hour_lt b.hour_lt, compare_days]
  simp only [Ordering.then_assoc]

/-! ### From an instant to its date -/

theorem lt_of_start_lt {g : Nat → Nat} {k l n : Nat} (hn : start g k + n < start g l) :
    k < l := by
  by_contra hle
  rcases Nat.lt_or_eq_of_le (Nat.le_of_not_lt hle) with hlt | rfl
  · have := start_le (g := g) hlt
    omega
  · omega

def yearOf (day : Nat) : Nat × Nat := locate (fun y => daysInYear (y + 1)) (day + 1) 0 day

def monthOf (year day : Nat) : Nat × Nat :=
  locate (fun m => daysInMonth year (m + 1)) (day + 1) 0 day

theorem yearOf_spec (day : Nat) : (yearOf day).2 < daysInYear ((yearOf day).1 + 1) ∧
    start (fun y => daysInYear (y + 1)) (yearOf day).1 + (yearOf day).2 = day := by
  obtain ⟨hlt, heq⟩ := locate_spec (g := fun y => daysInYear (y + 1)) (k := 0)
    (fun _ => daysInYear_pos _) (Nat.lt_succ_self day)
  exact ⟨hlt, heq.trans (Nat.zero_add day)⟩

theorem monthOf_spec (year day : Nat) :
    (monthOf year day).2 < daysInMonth year ((monthOf year day).1 + 1) ∧
      start (fun m => daysInMonth year (m + 1)) (monthOf year day).1 + (monthOf year day).2 = day := by
  obtain ⟨hlt, heq⟩ := locate_spec (g := fun m => daysInMonth year (m + 1)) (k := 0)
    (fun _ => daysInMonth_pos _ _) (Nat.lt_succ_self day)
  exact ⟨hlt, heq.trans (Nat.zero_add day)⟩

theorem monthOf_lt {year day : Nat} (h : day < daysInYear year) : (monthOf year day).1 < 12 := by
  rw [← daysBeforeMonth_thirteen] at h
  obtain ⟨-, heq⟩ := monthOf_spec year day
  rw [← heq] at h
  exact lt_of_start_lt h

/-- The first microsecond after the year 9999. -/
def lastInstant : Nat := daysBeforeYear 10000 * 86400000000

theorem lastInstant_eq : lastInstant = 315537897600000000 := by
  have hyear : daysBeforeYear (9999 + 1) = 3652059 := by rw [daysBeforeYear_eq]
  unfold lastInstant
  rw [show (10000 : Nat) = 9999 + 1 from rfl, hyear]

theorem yearOf_lt {t : Nat} (h : t < lastInstant) : (yearOf (t / 86400000000)).1 < 9999 := by
  have hday : t / 86400000000 < daysBeforeYear 10000 := Nat.div_lt_of_lt_mul (by
    rw [Nat.mul_comm]
    exact h)
  obtain ⟨-, heq⟩ := yearOf_spec (t / 86400000000)
  rw [← heq] at hday
  exact lt_of_start_lt hday

/-- `datetime(1, 1, 1, tzinfo=UTC) + timedelta(microseconds=t)`. -/
def ofInstant (t : Nat) (h : t < lastInstant) : DateTime where
  year := (yearOf (t / 86400000000)).1 + 1
  month := (monthOf ((yearOf (t / 86400000000)).1 + 1) (yearOf (t / 86400000000)).2).1 + 1
  day := (monthOf ((yearOf (t / 86400000000)).1 + 1) (yearOf (t / 86400000000)).2).2 + 1
  hour := t / 3600000000 % 24
  minute := t / 60000000 % 60
  second := t / 1000000 % 60
  microsecond := t % 1000000
  year_mem := ⟨Nat.le_add_left 1 _, yearOf_lt h⟩
  month_mem := ⟨Nat.le_add_left 1 _, monthOf_lt (yearOf_spec _).1⟩
  day_mem := ⟨Nat.le_add_left 1 _, (monthOf_spec _ _).1⟩
  hour_lt := Nat.mod_lt _ (by omega)
  minute_lt := Nat.mod_lt _ (by omega)
  second_lt := Nat.mod_lt _ (by omega)
  microsecond_lt := Nat.mod_lt _ (by omega)

theorem instant_ofInstant (t : Nat) (h : t < lastInstant) : (ofInstant t h).instant = t := by
  have hdays : (ofInstant t h).days = t / 86400000000 := by
    obtain ⟨-, hyear⟩ := yearOf_spec (t / 86400000000)
    obtain ⟨-, hmonth⟩ := monthOf_spec ((yearOf (t / 86400000000)).1 + 1)
      (yearOf (t / 86400000000)).2
    calc (ofInstant t h).days
        = start (fun y => daysInYear (y + 1)) (yearOf (t / 86400000000)).1 +
            (start (fun m => daysInMonth ((yearOf (t / 86400000000)).1 + 1) (m + 1))
                (monthOf ((yearOf (t / 86400000000)).1 + 1) (yearOf (t / 86400000000)).2).1 +
              (monthOf ((yearOf (t / 86400000000)).1 + 1) (yearOf (t / 86400000000)).2).2) := rfl
      _ = t / 86400000000 := by rw [hmonth, hyear]
  rw [instant, hdays]
  show (((t / 86400000000 * 24 + t / 3600000000 % 24) * 60 + t / 60000000 % 60) * 60 +
    t / 1000000 % 60) * 1000000 + t % 1000000 = t
  omega

end DateTime

/-! ### Texts -/

/-- The bytes of a text, as the database has them. -/
def utf8 (s : List Char) : List UInt8 := s.flatMap String.utf8EncodeChar

theorem utf8_append (s t : List Char) : utf8 (s ++ t) = utf8 s ++ utf8 t := List.flatMap_append

theorem utf8_ofList (s : List Char) : (String.ofList s).toByteArray.data.toList = utf8 s := by
  simp [String.toByteArray_ofList, List.utf8Encode, utf8]

/-- `%0Nd` of a number of at most `N` digits. -/
def padded : Nat → Nat → List Char
  | 0, _ => []
  | width + 1, n => padded width (n / 10) ++ [Nat.digitChar (n % 10)]

theorem compare_digit {m n : Nat} (hm : m < 10) (hn : n < 10) :
    compare (utf8 [Nat.digitChar m]) (utf8 [Nat.digitChar n]) = compare m n := by
  have hall : ∀ m n : Fin 10, compare (utf8 [Nat.digitChar m]) (utf8 [Nat.digitChar n]) =
      compare m.val n.val := by decide
  exact hall ⟨m, hm⟩ ⟨n, hn⟩

theorem length_digit {m : Nat} (hm : m < 10) : (utf8 [Nat.digitChar m]).length = 1 := by
  have hall : ∀ m : Fin 10, (utf8 [Nat.digitChar m]).length = 1 := by decide
  exact hall ⟨m, hm⟩

theorem length_padded (width n : Nat) : (utf8 (padded width n)).length = width := by
  induction width generalizing n with
  | zero => rfl
  | succ width ih =>
      rw [padded, utf8_append, List.length_append, ih, length_digit (Nat.mod_lt n (by omega))]

theorem compare_padded {width m n : Nat} (hm : m < 10 ^ width) (hn : n < 10 ^ width) :
    compare (utf8 (padded width m)) (utf8 (padded width n)) = compare m n := by
  induction width generalizing m n with
  | zero =>
      obtain rfl : m = 0 := by simpa using hm
      obtain rfl : n = 0 := by simpa using hn
      rfl
  | succ width ih =>
      have hlen : (utf8 (padded width (m / 10))).length = (utf8 (padded width (n / 10))).length := by
        rw [length_padded, length_padded]
      rw [padded, padded, utf8_append, utf8_append, compare_append hlen,
        ih (by omega) (by omega), compare_digit (Nat.mod_lt m (by omega)) (Nat.mod_lt n (by omega)),
        ← compare_radix (Nat.mod_lt m (by omega)) (Nat.mod_lt n (by omega)),
        Nat.div_add_mod', Nat.div_add_mod']

/-- A field and what follows it. -/
theorem compare_field {width m n : Nat} (hm : m < 10 ^ width) (hn : n < 10 ^ width)
    (s t : List Char) :
    compare (utf8 (padded width m ++ s)) (utf8 (padded width n ++ t)) =
      (compare m n).then (compare (utf8 s) (utf8 t)) := by
  have hlen : (utf8 (padded width m)).length = (utf8 (padded width n)).length := by
    rw [length_padded, length_padded]
  rw [utf8_append, utf8_append, compare_append hlen, compare_padded hm hn]

/-- The same separator in both texts. -/
theorem compare_separator (c : Char) (s t : List Char) :
    compare (utf8 (c :: s)) (utf8 (c :: t)) = compare (utf8 s) (utf8 t) := by
  have hself : ∀ xs : List UInt8, compare xs xs = .eq := by
    intro xs
    induction xs with
    | nil => rfl
    | cons x xs ih =>
        rw [List.compare_cons_cons, ih, Ordering.then_eq]
        exact Std.ReflCmp.compare_self
  show compare (String.utf8EncodeChar c ++ utf8 s) (String.utf8EncodeChar c ++ utf8 t) = _
  rw [compare_append rfl, hself]
  rfl

namespace DateTime

/-- The fraction is left out of a whole second. -/
def fraction (microsecond : Nat) : List Char :=
  if microsecond = 0 then [] else '.' :: padded 6 microsecond

/-- `datetime.isoformat()`. -/
def isoformat (d : DateTime) : String :=
  String.ofList <| padded 4 d.year ++ '-' :: (padded 2 d.month ++ '-' :: (padded 2 d.day ++ 'T' ::
    (padded 2 d.hour ++ ':' :: (padded 2 d.minute ++ ':' :: (padded 2 d.second ++
      (fraction d.microsecond ++ "+00:00".toList))))))

/-- A text without a fraction goes on with the plus sign of the offset, which is before the point
of a fraction. -/
theorem compare_fraction {m n : Nat} (hm : m < 1000000) (hn : n < 1000000) :
    compare (utf8 (fraction m ++ "+00:00".toList)) (utf8 (fraction n ++ "+00:00".toList)) =
      compare m n := by
  by_cases h0 : m = 0 <;> by_cases h1 : n = 0
  · subst h0 h1
    decide
  · subst h0
    rw [fraction, fraction, if_pos rfl, if_neg h1, Nat.compare_eq_lt.mpr (by omega)]
    rfl
  · subst h1
    rw [fraction, fraction, if_neg h0, if_pos rfl, Nat.compare_eq_gt.mpr (by omega)]
    rfl
  · rw [fraction, fraction, if_neg h0, if_neg h1, List.cons_append, List.cons_append,
      compare_separator, compare_field (by simpa using hm) (by simpa using hn)]
    have hsame : compare (utf8 "+00:00".toList) (utf8 "+00:00".toList) = .eq := by decide
    rw [hsame, Ordering.then_eq]

/-- The bytes of the texts compare as the fields. -/
theorem compare_isoformat (a b : DateTime) :
    compare a.isoformat.toByteArray.data.toList b.isoformat.toByteArray.data.toList = a.cmp b := by
  have two : ∀ {n}, n < 60 → n < 10 ^ 2 := by
    intro n hn
    omega
  have hyear : ∀ d : DateTime, d.year < 10 ^ 4 := fun d => Nat.lt_succ_of_le d.year_mem.2
  have hmonth : ∀ d : DateTime, d.month < 10 ^ 2 := fun d => two (by have := d.month_mem; omega)
  have hday : ∀ d : DateTime, d.day < 10 ^ 2 := by
    intro d
    have hle : daysInMonth d.year d.month ≤ 31 := by
      unfold daysInMonth
      split <;> (try split) <;> omega
    have := d.day_mem
    exact two (by omega)
  have hhour : ∀ d : DateTime, d.hour < 10 ^ 2 := fun d => two (by have := d.hour_lt; omega)
  unfold isoformat cmp
  rw [utf8_ofList, utf8_ofList, compare_field (hyear a) (hyear b), compare_separator,
    compare_field (hmonth a) (hmonth b), compare_separator, compare_field (hday a) (hday b),
    compare_separator, compare_field (hhour a) (hhour b), compare_separator,
    compare_field (two a.minute_lt) (two b.minute_lt), compare_separator,
    compare_field (two a.second_lt) (two b.second_lt),
    compare_fraction a.microsecond_lt b.microsecond_lt]

/-- The text of a whole second is shorter than the others. -/
theorem size_isoformat (d : DateTime) :
    d.isoformat.toByteArray.size = if d.microsecond = 0 then 25 else 32 := by
  have hfraction : (utf8 (fraction d.microsecond)).length = if d.microsecond = 0 then 0 else 7 := by
    unfold fraction
    split
    · rfl
    · show (utf8 (['.'] ++ padded 6 d.microsecond)).length = 7
      rw [utf8_append, List.length_append, length_padded]
      rfl
  have hsep : ∀ (c : Char) (s : List Char), c.utf8Size = 1 →
      (utf8 (c :: s)).length = (utf8 s).length + 1 := by
    intro c s hc
    show (String.utf8EncodeChar c ++ utf8 s).length = _
    rw [List.length_append, String.length_utf8EncodeChar, hc, Nat.add_comm]
  have hoffset : (utf8 "+00:00".toList).length = 6 := by decide
  have hsize : d.isoformat.toByteArray.size = d.isoformat.toByteArray.data.toList.length := rfl
  rw [hsize, isoformat, utf8_ofList]
  simp only [utf8_append, List.length_append, length_padded, hfraction, hoffset,
    fun s => hsep '-' s (by decide), fun s => hsep 'T' s (by decide),
    fun s => hsep ':' s (by decide)]
  split <;> rfl

end DateTime

end GgAgent.Lib
