import Mathlib.Data.List.Basic
import Mathlib.Data.List.Nodup
import Mathlib.Data.Finset.Card
import Mathlib.Data.Int.Interval

/-!
Maps that keep the order in which their keys came, and the prefix of the positive numbers
that a set of numbers contains.

Setting a key that is there changes its value in place. A list of pairs in which a key comes
with one value only has itself as the members of its map, in whatever order it is set; that is
all a proof about such a list needs.
-/

namespace GgAgent.Lib

/-! ### Maps -/

namespace OrderedMap

variable {κ ν : Type} [DecidableEq κ]

/-- `map.set(key, value)`. -/
def set (k : κ) (v : ν) : List (κ × ν) → List (κ × ν)
  | [] => [(k, v)]
  | (j, u) :: m => if j = k then (j, v) :: m else (j, u) :: set k v m

/-- One pair after the other. -/
def setAll (m : List (κ × ν)) (pairs : List (κ × ν)) : List (κ × ν) :=
  pairs.foldl (fun m p => set p.1 p.2 m) m

theorem keys_set (k : κ) (v : ν) (m : List (κ × ν)) :
    (set k v m).map Prod.fst =
      if k ∈ m.map Prod.fst then m.map Prod.fst else m.map Prod.fst ++ [k] := by
  induction m with
  | nil => simp [set]
  | cons p m ih =>
      obtain ⟨j, u⟩ := p
      by_cases hjk : j = k
      · simp [set, hjk]
      · simp only [set, hjk, if_false, List.map_cons, ih, List.mem_cons, Ne.symm hjk, false_or]
        split <;> rfl

theorem nodup_set {k : κ} {v : ν} {m : List (κ × ν)} (h : (m.map Prod.fst).Nodup) :
    ((set k v m).map Prod.fst).Nodup := by
  rw [keys_set]
  split
  · exact h
  next hk => exact List.nodup_append_comm.mp (List.nodup_cons.mpr ⟨hk, h⟩)

theorem mem_set {k : κ} {v : ν} {m : List (κ × ν)} (h : (m.map Prod.fst).Nodup) {p : κ × ν} :
    p ∈ set k v m ↔ p = (k, v) ∨ p ∈ m ∧ p.1 ≠ k := by
  induction m with
  | nil => simp [set]
  | cons q m ih =>
      obtain ⟨j, u⟩ := q
      rw [List.map_cons, List.nodup_cons] at h
      by_cases hjk : j = k
      · subst hjk
        have hne : ∀ p ∈ m, p.1 ≠ j := by
          intro p hp heq
          have hmem : p.1 ∈ m.map Prod.fst := List.mem_map_of_mem hp
          exact h.1 (heq ▸ hmem)
        simp only [set, if_true, List.mem_cons]
        constructor
        · rintro (rfl | hp)
          · exact .inl rfl
          · exact .inr ⟨.inr hp, hne p hp⟩
        · rintro (rfl | ⟨rfl | hp, hp'⟩)
          · exact .inl rfl
          · exact absurd rfl hp'
          · exact .inr hp
      · simp only [set, hjk, if_false, List.mem_cons, ih h.2]
        constructor
        · rintro (rfl | rfl | hp)
          · exact .inr ⟨.inl rfl, hjk⟩
          · exact .inl rfl
          · exact .inr ⟨.inr hp.1, hp.2⟩
        · rintro (rfl | ⟨rfl | hp, hp'⟩)
          · exact .inr (.inl rfl)
          · exact .inl rfl
          · exact .inr (.inr ⟨hp, hp'⟩)

/-- A key comes with one value only. -/
def Functional (pairs : List (κ × ν)) : Prop := ∀ p ∈ pairs, ∀ q ∈ pairs, p.1 = q.1 → p = q

theorem nodup_setAll {m pairs : List (κ × ν)} (h : (m.map Prod.fst).Nodup) :
    ((setAll m pairs).map Prod.fst).Nodup := by
  induction pairs generalizing m with
  | nil => exact h
  | cons p pairs ih => exact ih (nodup_set h)

/-- Setting pairs that agree with each other and with the map adds them to it. -/
theorem mem_setAll {m pairs : List (κ × ν)} (h : (m.map Prod.fst).Nodup)
    (hfun : Functional (m ++ pairs)) {p : κ × ν} : p ∈ setAll m pairs ↔ p ∈ m ∨ p ∈ pairs := by
  induction pairs generalizing m with
  | nil => simp [setAll]
  | cons q pairs ih =>
      have hq : q ∈ m ++ q :: pairs := List.mem_append_right _ List.mem_cons_self
      -- The pair is in the map afterwards, and what it replaces is the pair itself.
      have hset : ∀ p, p ∈ set q.1 q.2 m ↔ p ∈ m ∨ p = q := by
        intro p
        rw [mem_set h]
        constructor
        · rintro (rfl | hp)
          · exact .inr rfl
          · exact .inl hp.1
        · rintro (hp | rfl)
          · by_cases hkey : p.1 = q.1
            · exact .inl (hfun p (List.mem_append_left _ hp) q hq hkey)
            · exact .inr ⟨hp, hkey⟩
          · exact .inl rfl
      have hsub : ∀ p, p ∈ set q.1 q.2 m ++ pairs → p ∈ m ++ q :: pairs := by
        intro p hp
        rcases List.mem_append.mp hp with hp | hp
        · rcases (hset p).mp hp with hp | rfl
          · exact List.mem_append_left _ hp
          · exact hq
        · exact List.mem_append_right _ (List.mem_cons_of_mem _ hp)
      have hrest := ih (m := set q.1 q.2 m) (nodup_set h)
        fun a ha b hb => hfun a (hsub a ha) b (hsub b hb)
      rw [setAll, List.foldl_cons, ← setAll, hrest, hset, List.mem_cons, or_assoc]

end OrderedMap

/-! ### Contiguous prefixes -/

/-- `while (has(c + 1)) c += 1`, for at most so many rounds. -/
def advance (has : Int → Bool) : Nat → Int → Int
  | 0, c => c
  | rounds + 1, c => if has (c + 1) then advance has rounds (c + 1) else c

theorem advance_passed (has : Int → Bool) (rounds : Nat) (c : Int) :
    c ≤ advance has rounds c ∧ ∀ k, c < k → k ≤ advance has rounds c → has k = true := by
  induction rounds generalizing c with
  | zero => exact ⟨Int.le_refl c, fun k hk hk' => absurd hk' (by simp only [advance]; omega)⟩
  | succ rounds ih =>
      rw [advance]
      split
      next hnext =>
        obtain ⟨hle, hall⟩ := ih (c + 1)
        refine ⟨by omega, fun k hk hk' => ?_⟩
        by_cases heq : k = c + 1
        · exact heq ▸ hnext
        · exact hall k (by omega) hk'
      next => exact ⟨Int.le_refl c, fun k hk hk' => absurd hk' (by omega)⟩

/-- The loop stops by itself or it has used all its rounds. -/
theorem advance_stopped (has : Int → Bool) (rounds : Nat) (c : Int) :
    has (advance has rounds c + 1) = false ∨ advance has rounds c = c + rounds := by
  induction rounds generalizing c with
  | zero => exact .inr (by simp [advance])
  | succ rounds ih =>
      rw [advance]
      split
      next => exact (ih (c + 1)).imp_right fun h => by rw [h]; push_cast; omega
      next hnext => exact .inl (by simpa using hnext)

/-- With as many rounds as there are numbers, the loop stops by itself. -/
theorem advance_last {keys : List Int} (c : Int) :
    advance (fun k => decide (k ∈ keys)) keys.length c + 1 ∉ keys := by
  intro hmem
  rcases advance_stopped (fun k => decide (k ∈ keys)) keys.length c with h | h
  · exact absurd hmem (by simpa using h)
  · -- Otherwise there are more numbers in a row than there are numbers.
    have hall : Finset.Ioc c (c + keys.length + 1) ⊆ keys.toFinset := by
      intro k hk
      rw [Finset.mem_Ioc] at hk
      rw [List.mem_toFinset]
      by_cases hlast : k = c + keys.length + 1
      · rw [hlast, ← h]
        exact hmem
      · have hpassed := (advance_passed (fun k => decide (k ∈ keys)) keys.length c).2 k hk.1
          (by rw [h]; omega)
        simpa using hpassed
    have hcard := (Finset.card_le_card hall).trans keys.toFinset_card_le
    rw [Int.card_Ioc] at hcard
    omega

/-- The numbers contain 1 to `c` and not the next one. -/
def Contiguous (keys : List Int) (c : Int) : Prop :=
  0 ≤ c ∧ (∀ k, 1 ≤ k → k ≤ c → k ∈ keys) ∧ c + 1 ∉ keys

theorem Contiguous.unique {keys keys' : List Int} {c c' : Int} (hsame : ∀ k, k ∈ keys ↔ k ∈ keys')
    (h : Contiguous keys c) (h' : Contiguous keys' c') : c = c' := by
  rcases Int.lt_trichotomy c c' with hlt | heq | hgt
  · exact absurd ((hsame _).mpr (h'.2.1 (c + 1) (by have := h.1; omega) (by omega))) h.2.2
  · exact heq
  · exact absurd ((hsame _).mp (h.2.1 (c' + 1) (by have := h'.1; omega) (by omega))) h'.2.2

/-- The loop goes on from a prefix that is contained. -/
theorem contiguous_advance {keys : List Int} {c : Int} (hc : 0 ≤ c)
    (hall : ∀ k, 1 ≤ k → k ≤ c → k ∈ keys) :
    Contiguous keys (advance (fun k => decide (k ∈ keys)) keys.length c) := by
  obtain ⟨hle, hpassed⟩ := advance_passed (fun k => decide (k ∈ keys)) keys.length c
  refine ⟨by omega, fun k hk hk' => ?_, advance_last c⟩
  by_cases hkc : k ≤ c
  · exact hall k hk hkc
  · simpa using hpassed k (by omega) hk'

end GgAgent.Lib
