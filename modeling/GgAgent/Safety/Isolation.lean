import GgAgent.Backend.Reads
import GgAgent.Backend.Rows
import GgAgent.Records.Admission
import GgAgent.Safety.Basic

/-!
Requests of one owner among the requests of all others, the scheduler and the supervision
loops. A task is bound to its owner by its row, and by the key that retention keeps of it;
`Owns` and `Foreign` read the bindings.

`Within` says which calls concern the owner's own part of the backend. Every call that a
request makes for an owner is one of them, at every act of every run, whatever the rest of the
backend does in between: the ownership that a route has checked in one transaction is not lost
before the next one, since no transaction takes a binding away. So a request changes no row of
a task that is bound otherwise, holds no lock of it and starts no loop for it, asks for no
sandbox and starts no execution; and what it answers is of tasks of the owner.
-/

namespace GgAgent.Isolation

open GgAgent.Lib GgAgent.Backend GgAgent.Records GgAgent.Safety
open GgAgent.Lib.Co (Safe Keeps Makes)

/-! ### Owners -/

/-- The task is bound to the owner. -/
def Owns (B : OwnerId) (l : Ledger) (t : TaskId) : Prop :=
  ∃ b, Binds l b ∧ b.taskId = t ∧ b.ownerId = some B

/-- The task is bound, and not to the owner. -/
def Foreign (B : OwnerId) (l : Ledger) (t : TaskId) : Prop :=
  ∃ b, Binds l b ∧ b.taskId = t ∧ b.ownerId ≠ some B

/-- Bindings are one to one, and an id that was never drawn has no rows. -/
structure Tidy (ids : List TaskId) (l : Ledger) : Prop where
  admitted : Admitted ids l
  filed : ∀ t, t ∉ ids → l.only t = .empty

section Tidy

variable {ids : List TaskId} {l : Ledger} {t : TaskId} {B : OwnerId}

theorem Tidy.not_foreign (h : Tidy ids l) (hown : Owns B l t) : ¬ Foreign B l t := by
  rintro ⟨b', hb', ht', ho'⟩
  obtain ⟨b, hb, ht, ho⟩ := hown
  obtain rfl : b = b' := h.admitted.task hb hb' (ht.trans ht'.symm)
  exact ho' ho

theorem Tidy.issued (h : Tidy ids l) (hown : Owns B l t) : t ∈ ids := by
  obtain ⟨b, hb, rfl, -⟩ := hown
  exact h.admitted.issued hb

/-- The row of a task of the owner names the owner. -/
theorem Tidy.ownerId (h : Tidy ids l) (hown : Owns B l t) {r : TaskRecord}
    (hr : l.tasks.find? t = some r) : r.ownerId = some B := by
  obtain ⟨b, hb, ht, ho⟩ := hown
  have hid : r.id = t := Table.key_of_find? hr
  have hbr : b = ofTask r := h.admitted.task hb (binds_of_task hr) (ht.trans hid.symm)
  rw [hbr] at ho
  exact ho

theorem owns_of_row {r : TaskRecord} (hr : l.tasks.find? t = some r) (ho : r.ownerId = some B) :
    Owns B l t := by
  have hid : r.id = t := Table.key_of_find? hr
  exact ⟨ofTask r, binds_of_task hr, hid, ho⟩

theorem Owns.mono {l' : Ledger} (h : Owns B l t) (hb : ∀ b, Binds l b → Binds l' b) :
    Owns B l' t := by
  obtain ⟨b, hbl, ht, ho⟩ := h
  exact ⟨b, hb b hbl, ht, ho⟩

theorem Tidy.exec (h : Tidy ids l) (now : Time) (c : LedgerCall) : Tidy ids (c.exec now l).2 where
  admitted := h.admitted.exec now c
  filed t ht := absent_exec (h.filed t ht)

theorem Tidy.mono {ids' : List TaskId} (h : Tidy ids l) (hids : ∀ t, t ∈ ids → t ∈ ids') :
    Tidy ids' l where
  admitted := { h.admitted with issued := fun hb => hids _ (h.admitted.issued hb) }
  filed t ht := h.filed t fun hmem => ht (hids t hmem)

theorem Tidy.weaken (h : Tidy ids l) (id : TaskId) : Tidy (id :: ids) l :=
  h.mono fun _ ht => List.mem_cons_of_mem _ ht

/-- What a submission under a new id does to the rows. -/
theorem submission_spec (h : Tidy ids l) {now : Time} {id : TaskId} (hid : id ∉ ids)
    (q : Submission) :
    Tidy (id :: ids) (submission now id q l).2 ∧
      (∀ b, Binds l b → Binds (submission now id q l).2 b) ∧
      (∀ t, t ≠ id → (submission now id q l).2.only t = l.only t) ∧
      ∃ r created, (submission now id q l).1 = .ok (r, created) ∧ r.ownerId = q.ownerId ∧
        Binds (submission now id q l).2 (ofTask r) := by
  rcases submission_cases l now id q with ⟨r, b, hb, howner, -, hans, hr, hl⟩ |
    ⟨r, hfree, hr, hexp, hans, hl⟩
  · rw [hl]
    have htidy : Tidy (id :: ids) l.commit :=
      ⟨(h.admitted.weaken id).of_binds (fun _ => Iff.rfl) rfl h.admitted.kept,
        (h.weaken id).filed⟩
    refine ⟨htidy, fun _ hb => hb, fun _ _ => rfl, r, false, hans, ?_, ?_⟩
    · rw [← howner, ← hr]
      rfl
    · rw [hr]
      exact hb
  · obtain ⟨howner, hkey, rfl, hseq⟩ := Binding.mk.inj hr
    have hnone := h.admitted.fresh hid
    have hadmitted := h.admitted.insert hid hseq hexp (by rw [howner, hkey]; exact hfree)
    have honly : ∀ t, t ≠ r.id →
        ({ l with taskSeq := l.taskSeq + 1, tasks := l.tasks.insert r } : Ledger).commit.only t =
          l.only t := by
      intro t ht
      simp only [Ledger.only, Ledger.commit, Table.part_insert, key, Ne.symm ht, decide_false,
        Bool.false_eq_true, if_false]
    rw [hl]
    refine ⟨⟨hadmitted, ?_⟩, fun b hb => (binds_insert hnone b).mpr (.inl hb), honly, r, true, hans,
      howner, (binds_insert hnone _).mpr (.inr rfl)⟩
    intro t ht
    rw [List.mem_cons, not_or] at ht
    rw [honly t ht.1]
    exact h.filed t ht.2

end Tidy

/-! ### The invariant of the backend -/

def Inv (s : Shared) : Prop := Everywhere (Tidy s.taskIds) s

theorem inv_init : Inv Shared.init := by
  have hbinds : ∀ b, ¬ Binds Ledger.empty b := by
    rintro b (⟨r, hr, -⟩ | ⟨k, hk, -⟩)
    · simp [Ledger.empty] at hr
    · simp [Ledger.empty] at hk
  refine ⟨⟨⟨?_, ?_, ?_, ?_, ?_, ?_⟩, fun _ _ => rfl⟩, by simp [Shared.init], by simp [Shared.init]⟩
  case refine_6 =>
    intro t r hr
    exact absurd (binds_of_task hr) (hbinds _)
  all_goals
    intro b
    intros
    exact absurd (by assumption) (hbinds b)

/-- A task is submitted under a new id. -/
theorem inv_submitted {s : Shared} (h : Inv s) {id : TaskId} (hid : id ∉ s.taskIds)
    (q : Submission) : Inv (submitted id q s) where
  ledger := (submission_spec h.ledger hid q).1
  published l hl := (h.published l hl).weaken id
  confirmed l hl := (h.confirmed l hl).weaken id

theorem Inv.of_same {s s' : Shared} (h : Inv s) (hs : SameStore s s') : Inv s' := by
  refine ⟨?_, ?_, ?_⟩
  · rw [hs.taskIds, hs.ledger]
    exact h.ledger
  · rw [hs.taskIds, hs.published]
    exact h.published
  · rw [hs.taskIds, hs.confirmed]
    exact h.confirmed

theorem Inv.after {s : Shared} (h : Inv s) (c : LedgerCall) : Inv (after c s) :=
  ⟨h.ledger.exec s.clock c, h.published, h.confirmed⟩

/-- The bindings that stand go on standing. -/
def Lasts (s s' : Shared) : Prop := ∀ b, Binds s.ledger b → Binds s'.ledger b

theorem Lasts.refl (s : Shared) : Lasts s s := fun _ h => h

theorem Lasts.trans {s s' s'' : Shared} (h : Lasts s s') (h' : Lasts s' s'') : Lasts s s'' :=
  fun b hb => h' b (h b hb)

theorem inv_answer {p : Pid} {o : Oracle} {c : Call} {s s' : Shared} {r : c.Out} (h : Inv s)
    (ha : s.answer p o c = some (r, s')) : Inv s' ∧ Lasts s s' := by
  obtain ⟨d, rfl, rfl⟩ | ⟨id, q, rfl, he⟩ | ⟨-, hsame⟩ := answer_cases ha
  · exact ⟨h.after d, fun b hb => (binds_exec h.ledger.admitted s.clock d b).mpr hb⟩
  · have hid := fresh_of_submit he
    obtain rfl := apply_submit he
    exact ⟨inv_submitted h hid q, (submission_spec h.ledger hid q).2.1⟩
  · refine ⟨h.of_same hsame, fun b hb => ?_⟩
    rw [hsame.ledger]
    exact hb

theorem inv_event {e : Happening} {s s' : Shared} (h : Inv s) (he : e.apply s = some s') :
    Inv s' ∧ (e.kills = false → Lasts s s') := by
  constructor
  · refine Everywhere.event (h.mono fun l hl => hl.mono (taskIds_event he)) he ?_ ?_
    · rintro id q rfl hid
      obtain rfl := apply_submit he
      exact (submission_spec h.ledger hid q).1
    · rintro t sha rfl
      obtain rfl := Option.some.inj he
      exact h.ledger.exec s.clock _
  · intro hkills
    rcases event_cases he with ⟨id, q, rfl, hid, rfl⟩ | ⟨t, sha, rfl, rfl⟩ | ⟨l, rfl, -⟩ | hsame
    · exact (submission_spec h.ledger hid q).2.1
    · exact fun b hb => (binds_exec h.ledger.admitted s.clock _ b).mpr hb
    · exact absurd hkills (by decide)
    · intro b hb
      rw [hsame.1]
      exact hb

/-! ### What a request may do -/

/-- The call concerns the owner's own part of the backend. -/
def Within (B : OwnerId) (l : Ledger) : Call → Prop
  | .db .revision | .ext .storagePressure | .now | .awaitConfirmed _ => True
  | .db (.get t ownerId) => ownerId = some B ∨ Owns B l t
  | .db c => ∃ t, c.personal = some t ∧ Owns B l t
  | .submit q => q.ownerId = some B
  | .ext (.repositoryResolve ownerId _ _) => ownerId = B
  | .ext (.providerDeleteWorkspace t) | .acquire (.workspace t) | .release (.workspace t)
  | .ensureLoop t => Owns B l t
  | _ => False

open Classical in
/-- `who n` is the owner that request `n` is made for. -/
noncomputable def duty (cfg : Config) (who : Nat → Option OwnerId) : Cond cfg where
  call p _ c s _ := decide (∀ n B, p = .request n → who n = some B → Within B s.ledger c)

theorem duty_iff {cfg : Config} {who : Nat → Option OwnerId} {p : Pid} {h : Hist} {c : Call}
    {s : Shared} {r : c.Out} : (duty cfg who).call p h c s r = true ↔
      ∀ n B, p = .request n → who n = some B → Within B s.ledger c := by
  classical
  exact decide_eq_true_iff

/-- Nothing happens to the tasks of others. -/
structure Spares (B : OwnerId) (s s' : Shared) : Prop where
  rows : ∀ t, Foreign B s.ledger t → s'.ledger.only t = s.ledger.only t
  loops : ∀ t, Foreign B s.ledger t → s'.loops t = s.loops t
  locks : ∀ t, Foreign B s.ledger t → s'.locks (.workspace t) = s.locks (.workspace t) ∧
    s'.locks (.settlement t) = s.locks (.settlement t)
  outside : s'.live = s.live ∧ s'.creates = s.creates ∧ s'.starts = s.starts

theorem Spares.refl (B : OwnerId) (s : Shared) : Spares B s s :=
  ⟨fun _ _ => rfl, fun _ _ => rfl, fun _ _ => ⟨rfl, rfl⟩, rfl, rfl, rfl⟩

section Call

variable {B : OwnerId} {t : TaskId} {s s' : Shared} {p : Pid} {o : Oracle}

theorem Inv.ne_of_owns (h : Inv s) (hown : Owns B s.ledger t) {u : TaskId}
    (hu : Foreign B s.ledger u) : u ≠ t := by
  rintro rfl
  exact h.ledger.not_foreign hown hu

/-- A look at the database. -/
theorem spares_look {c : LedgerCall} (hc : (c.exec s.clock s.ledger).2 = s.ledger) :
    Spares B s (after c s) where
  rows u _ := by
    show (c.exec s.clock s.ledger).2.only u = _
    rw [hc]
  loops _ _ := rfl
  locks _ _ := ⟨rfl, rfl⟩
  outside := ⟨rfl, rfl, rfl⟩

theorem spares_personal {c : LedgerCall} (h : Inv s) (hown : Owns B s.ledger t)
    (hc : c.personal = some t) : Spares B s (after c s) where
  rows u hu := (local_exec hc).others s.ledger u (h.ne_of_owns hown hu)
  loops _ _ := rfl
  locks _ _ := ⟨rfl, rfl⟩
  outside := ⟨rfl, rfl, rfl⟩

/-- A submission has a task of its own. -/
theorem spares_submitted {id : TaskId} (h : Inv s) (hid : id ∉ s.taskIds) (q : Submission) :
    Spares B s (submitted id q s) where
  rows u hu := by
    have hne : u ≠ id := by
      rintro rfl
      obtain ⟨b, hb, rfl, -⟩ := hu
      exact hid (h.ledger.admitted.issued hb)
    exact (submission_spec h.ledger hid q).2.2.1 u hne
  loops _ _ := rfl
  locks _ _ := ⟨rfl, rfl⟩
  outside := ⟨rfl, rfl, rfl⟩

/-- The calls that concern the owner's part of the backend leave all others alone. -/
theorem spares_within {c : Call} {r : c.Out} (h : Inv s) (hc : Within B s.ledger c)
    (ha : s.answer p o c = some (r, s')) : Spares B s s' := by
  cases c with
  | db c =>
      obtain ⟨-, rfl⟩ := Prod.mk.inj (Option.some.inj ha)
      cases c with
      | revision | get _ _ => exact spares_look rfl
      | _ =>
          obtain ⟨t, ht, hown⟩ := hc
          exact spares_personal h hown ht
  | submit q =>
      have henrol : s.enrol o.uuid q = some (r, s') := ha
      simp only [Shared.enrol] at henrol
      split at henrol
      · simp at henrol
      next hid =>
        obtain ⟨-, rfl⟩ := Prod.mk.inj (Option.some.inj henrol)
        exact spares_submitted h hid q
  | ext c =>
      obtain ⟨s₁, hs₁, heq⟩ := Option.map_eq_some_iff.mp ha
      obtain ⟨-, rfl⟩ := Prod.mk.inj heq
      cases c with
      | repositoryResolve _ _ _ | storagePressure | providerDeleteWorkspace _ =>
          obtain rfl := Option.some.inj hs₁
          exact .refl B s
      | _ => exact hc.elim
  | now =>
      obtain ⟨-, rfl⟩ := Prod.mk.inj (Option.some.inj ha)
      exact .refl B s
  | acquire l =>
      cases l with
      | workspace t =>
          simp only [Shared.answer] at ha
          split at ha
          · obtain ⟨-, rfl⟩ := Prod.mk.inj (Option.some.inj ha)
            refine ⟨fun _ _ => rfl, fun _ _ => rfl, fun u hu => ?_, rfl, rfl, rfl⟩
            simp [Function.update, h.ne_of_owns hc hu]
          · simp at ha
      | _ => exact hc.elim
  | release l =>
      cases l with
      | workspace t =>
          obtain ⟨-, rfl⟩ := Prod.mk.inj (Option.some.inj ha)
          refine ⟨fun _ _ => rfl, fun _ _ => rfl, fun u hu => ?_, rfl, rfl, rfl⟩
          simp [Function.update, h.ne_of_owns hc hu]
      | _ => exact hc.elim
  | ensureLoop t =>
      obtain ⟨-, rfl⟩ := Prod.mk.inj (Option.some.inj ha)
      refine ⟨fun _ _ => rfl, fun u hu => ?_, fun _ _ => ⟨rfl, rfl⟩, rfl, rfl, rfl⟩
      simp [Function.update, h.ne_of_owns hc hu]
  | awaitConfirmed n =>
      simp only [Shared.answer] at ha
      split at ha
      · obtain ⟨-, rfl⟩ := Prod.mk.inj (Option.some.inj ha)
        exact .refl B s
      · split at ha
        · obtain ⟨-, rfl⟩ := Prod.mk.inj (Option.some.inj ha)
          exact .refl B s
        · simp at ha
  | exitLoop _ | recovered | stopIsSet | never => exact hc.elim

end Call

/-! ### The routes -/

/-- The contract of a coroutine of the backend. -/
noncomputable abbrev E (cfg : Config) (who : Nat → Option OwnerId) (p : Pid) :=
  Machine.contract (M := backend cfg) {} Inv (fun _ => Lasts) (fun _ => Lasts) p (duty cfg who)

/-- A transaction about a task of the owner. -/
theorem within_personal {B : OwnerId} {l : Ledger} {t : TaskId} {c : LedgerCall}
    (hc : c.personal = some t) (hown : Owns B l t) : Within B l (.db c) := by
  cases c with
  | get u owner =>
      obtain rfl := Option.some.inj hc
      exact .inr hown
  | revision => trivial
  | _ => exact ⟨t, hc, hown⟩

section Programs

variable {cfg : Config} {who : Nat → Option OwnerId} {n : Nat} {B : OwnerId} {t : TaskId}
  {α β : Type} {w : Shared × Hist}

theorem duty_request (hwho : who n = some B) {h : Hist} {c : Call} {s : Shared} {r : c.Out}
    (hc : Within B s.ledger c) : (duty cfg who).call (.request n) h c s r = true := by
  refine duty_iff.mpr fun m C hm hC => ?_
  obtain rfl := Pid.request.inj hm
  obtain rfl := Option.some.inj (hwho.symm.trans hC)
  exact hc

/-- The calls that an owner may make at any time. -/
def Free (B : OwnerId) (c : Call) : Prop := ∀ l, Within B l c

/-- The calls that an owner may make about a task of its own. -/
def About (B : OwnerId) (t : TaskId) (c : Call) : Prop := ∀ l, Owns B l t → Within B l c

theorem about_db {c : LedgerCall} (hc : c.personal = some t) : About B t (.db c) :=
  fun _ hown => within_personal hc hown

/-- A program goes on from what the bindings decide, with calls that this allows. -/
theorem keeps_within (hwho : who n = some B) {P : Ledger → Prop}
    (hP : ∀ l l', P l → (∀ b, Binds l b → Binds l' b) → P l') {r : Routine α}
    (hr : Makes (fun c => ∀ l, P l → Within B l c) r) :
    Keeps (E cfg who (.request n)) (fun w => P w.1.ledger) r := by
  refine keeps_of_makes_owing hr (fun s s' _ h hl => hP _ _ h hl) ?_
  intro c s o a s' h hc hs hinv _ ha
  obtain ⟨hinv', hlasts⟩ := inv_answer hinv ha
  exact ⟨hinv', hlasts, duty_request hwho (hc _ hs), hP _ _ hs hlasts⟩

/-- Before it knows of a task. -/
theorem keeps_quiet (hwho : who n = some B) {r : Routine α}
    (hr : Makes (Free B) r) :
    Keeps (E cfg who (.request n)) (fun _ => True) r :=
  keeps_within (P := fun _ => True) hwho (fun _ _ h _ => h) (hr.mono fun _ h l _ => h l)

/-- Once it has learnt whose the task is. -/
theorem keeps_personal (hwho : who n = some B) {r : Routine α} (hr : Makes (About B t) r) :
    Keeps (E cfg who (.request n)) (fun w => Owns B w.1.ledger t) r :=
  keeps_within (P := fun l => Owns B l t) hwho (fun _ _ h hb => h.mono hb) hr

/-- One transaction about a task of the owner, and what it answers. -/
theorem safe_personal (hwho : who n = some B) {c : LedgerCall} (hc : c.personal = some t)
    {Q : c.Out → Prop} {exn : Exn → Shared × Hist → Prop}
    (hQ : ∀ ids now l a, Tidy ids l → Owns B l t → (c.exec now l).1 = .ok a → Q a)
    (hexn : ∀ e w, Owns B w.1.ledger t → exn e w) (hw : Owns B w.1.ledger t) :
    Safe (E cfg who (.request n)) (db c) (fun a w => Q a ∧ Owns B w.1.ledger t) exn w := by
  obtain ⟨s, h⟩ := w
  refine safe_db_owing fun s₁ hinv hlasts _ => ?_
  have hown : Owns B s₁.ledger t := hw.mono hlasts
  have hlasts' : Lasts s₁ (after c s₁) :=
    fun b hb => (binds_exec hinv.ledger.admitted s₁.clock c b).mpr hb
  refine ⟨hinv.after c, hlasts', duty_request hwho (within_personal hc hown), ?_⟩
  cases hr : reply c s₁ with
  | ok a => exact ⟨hQ _ s₁.clock s₁.ledger a hinv.ledger hown hr, hown.mono hlasts'⟩
  | error e => exact hexn e _ (hown.mono hlasts')

/-- A task of the owner. -/
def Own (B : OwnerId) (t : TaskId) (r : TaskRecord) : Prop := r.id = t ∧ r.ownerId = some B

theorem own_of_find {ids : List TaskId} {l : Ledger} (h : Tidy ids l) (hown : Owns B l t)
    {r : TaskRecord} (hr : l.tasks.find? t = some r) : Own B t r :=
  ⟨Table.key_of_find? hr, h.ownerId hown hr⟩

/-- The look at a task in the scope of its owner. -/
theorem safe_getScoped (hwho : who n = some B) {exn : Exn → Shared × Hist → Prop} :
    Safe (E cfg who (.request n)) (db (.get t (some B)))
      (fun a w => ∀ r, a = some r → Own B t r ∧ Owns B w.1.ledger t) exn w := by
  obtain ⟨s, h⟩ := w
  refine safe_db_owing fun s₁ hinv _ _ => ?_
  refine ⟨hinv.after _, fun _ hb => hb, duty_request hwho (.inl rfl), ?_⟩
  intro r hr
  obtain ⟨hfind, howner⟩ := Option.filter_eq_some_iff.mp hr
  have hB : r.ownerId = some B := by simpa using howner
  exact ⟨⟨Table.key_of_find? hfind, hB⟩, owns_of_row hfind hB⟩

/-- The look at a task that is known to be of the owner. -/
theorem safe_getKnown (hwho : who n = some B) {exn : Exn → Shared × Hist → Prop}
    (hexn : ∀ e w, Owns B w.1.ledger t → exn e w) (hw : Owns B w.1.ledger t) :
    Safe (E cfg who (.request n)) (db (.get t none))
      (fun a w => (∀ r, a = some r → Own B t r) ∧ Owns B w.1.ledger t) exn w := by
  refine safe_personal hwho rfl ?_ hexn hw
  intro ids now l a htidy hown ha r hr
  obtain rfl := Except.ok.inj ha
  obtain ⟨hfind, -⟩ := Option.filter_eq_some_iff.mp hr
  exact own_of_find htidy hown hfind

theorem makes_ensureDurable_about : Makes (About B t) ensureDurable :=
  makes_ensureDurable (fun _ _ => trivial) fun _ _ _ => trivial

/-- The wait at the end of a route. -/
theorem safe_answered (hwho : who n = some B) {exn : Exn → Shared × Hist → Prop}
    (hexn : ∀ e w, exn e w) (a : Answer) (hw : Owns B w.1.ledger t) :
    Safe (E cfg who (.request n)) (do ensureDurable; pure a)
      (fun x w => x = a ∧ Owns B w.1.ledger t) exn w := by
  have hkeeps : Keeps (E cfg who (.request n)) (fun w => Owns B w.1.ledger t) ensureDurable :=
    keeps_personal hwho makes_ensureDurable_about
  refine Safe.seq (Safe.mono (hkeeps w hw) (fun _ _ h => h) fun e w _ => hexn e w) fun _ w hw => ?_
  exact ⟨rfl, hw⟩

/-! #### Cancel -/

theorem makes_requestTaskCancel :
    Makes (About B t) (Service.requestTaskCancel t) := by
  refine Makes.bind (makes_db (about_db rfl)) fun row? => ?_
  split
  · trivial
  · exact Makes.bind (makes_db (about_db rfl)) fun _ => trivial

theorem safe_cancel (hwho : who n = some B) {exn : Exn → Shared × Hist → Prop}
    (hexn : ∀ e w, exn e w) :
    Safe (E cfg who (.request n)) (Service.cancel t (some B))
      (fun r w => Own B t r ∧ Owns B w.1.ledger t) exn w := by
  refine Safe.seq (safe_getScoped hwho) fun a w ha => ?_
  cases a with
  | none => exact hexn _ w
  | some record =>
      obtain ⟨hrecord, hown⟩ := ha record rfl
      dsimp only
      split
      · exact ⟨hrecord, hown⟩
      · split
        · -- The row is answered as the transaction has left it.
          have hcancelled : Safe (E cfg who (.request n)) (db (.cancelQueuedTask t))
              (fun a w => (∀ r, a = some r → Own B t r) ∧ Owns B w.1.ledger t) exn w := by
            refine safe_personal hwho rfl ?_ (fun e w _ => hexn e w) hown
            intro ids now l a htidy hown ha r hr
            have htidy' := htidy.exec now (.cancelQueuedTask t)
            have hown' : Owns B ((LedgerCall.cancelQueuedTask t).exec now l).2 t :=
              hown.mono fun b hb => (binds_exec htidy.admitted now _ b).mpr hb
            obtain rfl := Except.ok.inj ha
            exact own_of_find htidy' hown' hr
          refine Safe.seq hcancelled fun a w ha => ?_
          cases a with
          | none => exact hexn _ w
          | some r => exact ⟨ha.1 r rfl, ha.2⟩
        · split
          · refine Safe.seq (Safe.mono (keeps_personal hwho makes_requestTaskCancel w hown)
              (fun _ _ h => h) fun e w _ => hexn e w) fun _ w hown => ?_
            refine Safe.seq (safe_getKnown hwho (fun e w _ => hexn e w) hown) fun a w ha => ?_
            cases a with
            | none => exact ⟨hrecord, ha.2⟩
            | some r => exact ⟨ha.1 r rfl, ha.2⟩
          · exact hexn _ w

/-! #### Messages -/

theorem makes_authorizeMessage (cfg : Config) {task : TaskRecord} (ho : task.ownerId = some B) :
    Makes (About B t) (Manager.authorizeMessage cfg task) := by
  unfold Manager.authorizeMessage
  split
  next owner repository howner _ =>
    obtain rfl : owner = B := Option.some.inj (howner.symm.trans ho)
    split
    · trivial
    · refine Makes.bind (makes_ext fun _ _ => rfl) fun r => ?_
      split <;> trivial
  next => trivial

theorem makes_expireSleeping {task : TaskRecord} (hid : task.id = t) :
    Makes (About B t) (Manager.expireSleepingLocked task) := by
  subst hid
  unfold Manager.expireSleepingLocked
  split
  · refine Makes.bind (makes_now fun _ _ => trivial) fun now => ?_
    split
    · refine Makes.bind ?_ fun _ => makes_db (about_db rfl)
      refine Makes.bind makes_ensureDurable_about fun _ => ?_
      exact Makes.bind (makes_ext fun _ hown => hown) fun r => makes_ofReply r
    · trivial
  · trivial

theorem makes_wakeWorkspace :
    Makes (About B t) (Manager.wakeWorkspace t) := by
  refine Makes.bind (makes_db (about_db rfl)) fun task? => ?_
  split
  · trivial
  · split
    · exact makes_db (about_db rfl)
    · trivial

theorem makes_acceptMessage (m : MessageId) (content : String) :
    Makes (About B t) (Manager.acceptMessage t m content) := by
  refine Makes.bind (makes_now fun _ _ => trivial) fun created => ?_
  refine Makes.bind (makes_db (about_db rfl)) fun _ => ?_
  refine Makes.bind (makes_db (about_db rfl)) fun _ => ?_
  refine Makes.bind makes_wakeWorkspace fun _ => ?_
  refine Makes.bind makes_ensureDurable_about fun _ => ?_
  exact Makes.bind (makes_ensureLoop fun _ hown => hown) fun _ => trivial

theorem makes_receive (m : MessageId) (content : String) :
    Makes (About B t) (do
      match ← db (.getTaskMessageReceipt t m) with
      | some existing =>
        if existing.content ≠ content then
          throw (.runtimeError "message id already belongs to another message")
        else
          ensureDurable
          pure existing
      | none => Manager.acceptMessage t m content) := by
  refine Makes.bind (makes_db (about_db rfl)) fun existing? => ?_
  split
  · split
    · trivial
    · exact Makes.bind makes_ensureDurable_about fun _ => trivial
  · exact makes_acceptMessage m content

/-- What is done under the lock of the workspace. -/
theorem keeps_underLock (hwho : who n = some B) (m : MessageId) (content : String) :
    Keeps (E cfg who (.request n)) (fun w => Owns B w.1.ledger t) (do
      match ← db (.get t none) with
      | none => throw (.other "AttributeError" "'NoneType' object has no attribute 'state'")
      | some task =>
        if task.state.terminal then throw (.runtimeError "task is not accepting messages")
        else
          Manager.expireSleepingLocked task
          match ← db (.getTaskMessageReceipt t m) with
          | some existing =>
            if existing.content ≠ content then
              throw (.runtimeError "message id already belongs to another message")
            else
              ensureDurable
              pure existing
          | none => Manager.acceptMessage t m content) := by
  intro w hw
  refine Safe.seq (safe_getKnown hwho (fun _ _ h => h) hw) fun a w ha => ?_
  obtain ⟨htask, hown⟩ := ha
  cases a with
  | none => exact hown
  | some task =>
      dsimp only
      split
      · exact hown
      · have hexpire : Makes (About B t) (Manager.expireSleepingLocked task) :=
          makes_expireSleeping (htask task rfl).1
        exact Keeps.bind (keeps_personal hwho hexpire)
          (fun _ => keeps_personal hwho (makes_receive m content)) w hown

theorem keeps_sendMessage (hwho : who n = some B) (m : MessageId) (content : String) :
    Keeps (E cfg who (.request n)) (fun w => Owns B w.1.ledger t)
      (Manager.sendMessage cfg t m content) := by
  intro w hw
  refine Safe.seq (safe_getKnown hwho (fun _ _ h => h) hw) fun a w ha => ?_
  obtain ⟨htask, hown⟩ := ha
  cases a with
  | none => exact hown
  | some task =>
      have hlocked : Keeps (E cfg who (.request n)) (fun w => Owns B w.1.ledger t) _ :=
        keeps_withLock_owing (l := .workspace t) (fun s s' _ h hl => h.mono hl) ?_
          (keeps_underLock hwho m content)
      · exact Keeps.bind (keeps_personal hwho (makes_authorizeMessage cfg (htask task rfl).2))
          (fun _ => hlocked) w hown
      · intro c s o a s' h hc hs hinv _ ha
        obtain ⟨hinv', hlasts⟩ := inv_answer hinv ha
        have hwithin : Within B s.ledger c := by
          rcases hc with rfl | rfl <;> exact hs
        exact ⟨hinv', hlasts, duty_request hwho hwithin, hs.mono hlasts⟩

/-! #### Submissions -/

/-- A submission answers with a task of the owner that makes it. -/
theorem safe_submission (hwho : who n = some B) {q : Submission} (hq : q.ownerId = some B)
    {exn : Exn → Shared × Hist → Prop} :
    Safe (E cfg who (.request n)) (Backend.submit q)
      (fun a w => a.1.ownerId = some B ∧ Owns B w.1.ledger a.1.id) exn w := by
  obtain ⟨s, h⟩ := w
  refine safe_call_owing fun s₁ o r s₂ hinv _ _ ho => ?_
  obtain ⟨hinv₂, hlasts⟩ := inv_answer hinv ho
  have henrol : s₁.enrol o.uuid q = some (r, s₂) := ho
  simp only [Shared.enrol] at henrol
  split at henrol
  · simp at henrol
  next hid =>
    obtain ⟨hr, hs₂⟩ := Prod.mk.inj (Option.some.inj henrol)
    obtain ⟨-, -, -, record, created, hans, howner, hbound⟩ :=
      @submission_spec _ _ hinv.ledger s₁.clock o.uuid hid q
    refine ⟨hinv₂, hlasts, duty_request hwho hq, ?_⟩
    have hr' : r = .ok (record, created) := hr.symm.trans hans
    have hledger : s₂.ledger = (submission s₁.clock o.uuid q s₁.ledger).2 :=
      (congrArg Shared.ledger hs₂).symm
    rw [hr']
    refine ⟨howner.trans hq, ofTask record, ?_, rfl, howner.trans hq⟩
    rw [hledger]
    exact hbound

theorem makes_resolveBaseSha (cfg : Config) (body : CreateTaskRequest) :
    Makes (Free B) (Service.resolveBaseSha cfg body (some B)) := by
  unfold Service.resolveBaseSha
  split
  next repository owner _ howner =>
    obtain rfl : B = owner := Option.some.inj howner
    split
    · trivial
    · split
      · trivial
      · refine Makes.bind (makes_ext fun _ => rfl) fun r => ?_
        split <;> trivial
  next => trivial

theorem makes_checkRetryOf (body : CreateTaskRequest) :
    Makes (Free B) (Service.checkRetryOf body (some B)) := by
  unfold Service.checkRetryOf
  split
  · trivial
  · refine Makes.bind (makes_db fun _ => .inl rfl) fun r => ?_
    split <;> trivial

theorem makes_checkPressure : Makes (Free B) Service.checkPressure := by
  refine Makes.bind (makes_ext fun _ => trivial) fun r => ?_
  split <;> trivial

theorem safe_settleSubmission (hwho : who n = some B) {exn : Exn → Shared × Hist → Prop}
    (hexn : ∀ e w, exn e w) (body : CreateTaskRequest) (baseSha : Option String)
    {record : TaskRecord} (created : Bool) (howner : record.ownerId = some B)
    (hw : Owns B w.1.ledger record.id) :
    Safe (E cfg who (.request n)) (Service.settleSubmission body baseSha record created)
      (fun a w => a.1.ownerId = some B ∧ Owns B w.1.ledger a.1.id) exn w := by
  unfold Service.settleSubmission
  split
  · exact hexn _ w
  · split
    next sha _ =>
      have hrecorded : Safe (E cfg who (.request n)) (db (.recordBaseSha record.id (some sha)))
          (fun a w => Own B record.id a ∧ Owns B w.1.ledger record.id) exn w := by
        refine safe_personal hwho rfl ?_ (fun e w _ => hexn e w) hw
        intro ids now l a htidy hown ha
        simp only [LedgerCall.exec, Ledger.recordBaseSha] at ha
        split at ha
        · simp at ha
        next r hr =>
          obtain rfl := Except.ok.inj ha
          have hrow := own_of_find htidy hown hr
          exact hrow
      refine Safe.seq hrecorded fun a w ha => ?_
      obtain ⟨⟨hid, ho⟩, hown⟩ := ha
      refine ⟨ho, ?_⟩
      rw [hid]
      exact hown
    next => exact ⟨howner, hw⟩

theorem safe_submit (hwho : who n = some B) {exn : Exn → Shared × Hist → Prop}
    (hexn : ∀ e w, exn e w) (body : CreateTaskRequest) :
    Safe (E cfg who (.request n)) (Service.submit cfg body (some B))
      (fun a w => a.1.ownerId = some B ∧ Owns B w.1.ledger a.1.id) exn w := by
  have hquiet : ∀ {α : Type} {r : Routine α}, Makes (Free B) r →
      ∀ w, Safe (E cfg who (.request n)) r (fun _ _ => True) exn w :=
    fun hr w => Safe.mono (keeps_quiet hwho hr w trivial) (fun _ _ h => h) fun e w _ => hexn e w
  unfold Service.submit
  split
  · exact hexn _ w
  · refine Safe.seq (hquiet (makes_resolveBaseSha cfg body) w) fun sha w _ => ?_
    refine Safe.seq (hquiet (makes_checkRetryOf body) w) fun _ w _ => ?_
    refine Safe.seq (hquiet makes_checkPressure w) fun _ w _ => ?_
    have hsubmission : Safe (E cfg who (.request n)) (Backend.submit (body.submission (some B)))
        (fun a w => a.1.ownerId = some B ∧ Owns B w.1.ledger a.1.id) exn w :=
      safe_submission hwho rfl
    refine Safe.seq hsubmission fun a w ha => ?_
    exact safe_settleSubmission hwho hexn body sha a.2 ha.1 ha.2

theorem safe_retry (hwho : who n = some B) {exn : Exn → Shared × Hist → Prop}
    (hexn : ∀ e w, exn e w) (body : RetryTaskRequest) :
    Safe (E cfg who (.request n)) (Service.retry cfg t body (some B))
      (fun a w => a.1.ownerId = some B ∧ Owns B w.1.ledger a.1.id) exn w := by
  refine Safe.seq (safe_getScoped hwho) fun a w _ => ?_
  cases a with
  | none => exact hexn _ w
  | some predecessor =>
      dsimp only
      split
      · exact hexn _ w
      · split
        · exact hexn _ w
        · split
          · exact hexn _ w
          · exact safe_submit hwho hexn _

/-! #### Answers -/

/-- The answer speaks of tasks of the owner. -/
def AnswerOf (B : OwnerId) (l : Ledger) : Answer → Prop
  | .submitted r | .cancelled r => r.ownerId = some B ∧ Owns B l r.id
  | .sent t _ => Owns B l t

theorem safe_handle (hwho : who n = some B) {exn : Exn → Shared × Hist → Prop}
    (hexn : ∀ e w, exn e w) {r : Route} (hr : r.ownerId = some B) :
    Safe (E cfg who (.request n)) (Routes.handle cfg r) (fun a w => AnswerOf B w.1.ledger a) exn
      w := by
  cases r with
  | submitTask body owner =>
      obtain rfl : owner = some B := hr
      refine Safe.seq (safe_submit hwho hexn body) fun a w ha => ?_
      refine Safe.mono (safe_answered hwho hexn (.submitted a.1) ha.2) ?_ fun _ _ h => h
      rintro x w ⟨rfl, hown⟩
      exact ⟨ha.1, hown⟩
  | retryTask t body owner =>
      obtain rfl : owner = some B := hr
      refine Safe.seq (safe_retry hwho hexn body) fun a w ha => ?_
      refine Safe.mono (safe_answered hwho hexn (.submitted a.1) ha.2) ?_ fun _ _ h => h
      rintro x w ⟨rfl, hown⟩
      exact ⟨ha.1, hown⟩
  | cancelTask t owner =>
      obtain rfl : owner = some B := hr
      refine Safe.seq (safe_cancel hwho hexn) fun a w ha => ?_
      obtain ⟨⟨hid, howner⟩, hown⟩ := ha
      refine Safe.mono (safe_answered hwho hexn (.cancelled a) hown) ?_ fun _ _ h => h
      rintro x w ⟨rfl, hown⟩
      refine ⟨howner, ?_⟩
      rw [hid]
      exact hown
  | sendTaskMessage t m content owner =>
      obtain rfl : owner = some B := hr
      refine Safe.seq (safe_getScoped hwho) fun a w ha => ?_
      cases a with
      | none => exact hexn _ w
      | some record =>
          refine Safe.seq (Safe.mono (keeps_sendMessage hwho m content w (ha record rfl).2)
            (fun _ _ h => h) fun e w _ => hexn e w) fun receipt w hown => ?_
          exact hown

end Programs

/-! ### The service -/

abbrev Log := List (Entry ServiceCall.Out Shared)

/-- The read concerns the owner's tasks. -/
def WithinRead (B : OwnerId) (l : Ledger) : ReadCall → Prop
  | .getView _ ownerId | .list ownerId => ownerId = some B
  | .listTaskEvents t _ | .getTaskMessageReceipt t _ | .getTaskResult t | .getPublication t
  | .getSupervision t => Owns B l t

def WithinService (B : OwnerId) (l : Ledger) : ServiceCall → Prop
  | .task c => Within B l c
  | .read c => WithinRead B l c

open Classical in
noncomputable def serviceDuty (cfg : Config) (who : Nat → Option OwnerId) :
    (service cfg who).Cond where
  call p _ c s _ := decide (∀ n B, p = .request n → who n = some B → WithinService B s.ledger c)

theorem serviceDuty_iff {cfg : Config} {who : Nat → Option OwnerId} {p : Pid} {h : Log}
    {c : ServiceCall} {s : Shared} {r : c.Out} : (serviceDuty cfg who).call p h c s r = true ↔
      ∀ n B, p = .request n → who n = some B → WithinService B s.ledger c := by
  classical
  exact decide_eq_true_iff

/-- The contract of a coroutine of the service. -/
noncomputable abbrev Serves (cfg : Config) (who : Nat → Option OwnerId) (p : Pid) :=
  Machine.contract (M := service cfg who) {} Inv (fun _ => Lasts) (fun _ => Lasts) p
    (serviceDuty cfg who)

/-- The reply speaks of tasks of the owner. -/
def ReplyOf (B : OwnerId) (l : Ledger) : Reply → Prop
  | .tasks views => ∀ v ∈ views, v.record.ownerId = some B ∧ Owns B l v.record.id
  | .task v => v.record.ownerId = some B ∧ Owns B l v.record.id
  | .events t copies => Owns B l t ∧ ∀ c ∈ copies, c.taskId = t
  | .receipt t _ => Owns B l t
  | .result r => Owns B l r.taskId ∧ ∀ p, r.publication = some p → p.taskId = r.taskId

def ResponseOf (B : OwnerId) (l : Ledger) : Response → Prop
  | .answer a => AnswerOf B l a
  | .reply r => ReplyOf B l r

section Service

variable {cfg : Config} {who : Nat → Option OwnerId} {p : Pid} {n : Nat} {B : OwnerId} {t : TaskId}
  {α : Type} {w : Shared × Log}

theorem inv_serve {o : Oracle} {c : ServiceCall} {s s' : Shared} {r : c.Out} (h : Inv s)
    (ha : s.serve p o c = some (r, s')) : Inv s' ∧ Lasts s s' := by
  cases c with
  | task c => exact inv_answer h ha
  | read c =>
      obtain ⟨-, rfl⟩ := Prod.mk.inj (Option.some.inj ha)
      exact ⟨h, .refl s⟩

/-- Nothing is asked of a coroutine that is not a request of an owner. -/
theorem safe_unbound (hp : ∀ n B, p = .request n → who n ≠ some B) (prog : Prog ServiceCall.Out α)
    (w : Shared × Log) : prog.Safe (Serves cfg who p) (fun _ _ => True) w := by
  refine Prog.Safe.of_makes (A := fun _ => True) (Prog.makes_true prog) (fun _ _ h _ => h) ?_
    trivial
  rintro c ⟨s, h⟩ r ⟨s', h'⟩ - - hinv ⟨-, ⟨o, ho⟩, hh⟩
  obtain ⟨hinv', hlasts⟩ := inv_serve hinv ho
  obtain rfl : h' = _ := hh
  exact ⟨hinv', ⟨hlasts, serviceDuty_iff.mpr fun n B hn hB => absurd hB (hp n B hn)⟩, trivial⟩

/-- A program of the control plane keeps its contract among the calls of the service. -/
theorem safe_lift {prog : Prog Call.Out α} {post : α → Shared × Hist → Prop} {s : Shared}
    {h : Hist} {h' : Log} (hsafe : prog.Safe (E cfg who p) post (s, h)) :
    (prog.lift ServiceCall.task (fun _ r => r)).Safe (Serves cfg who p)
      (fun a w => ∃ h, post a (w.1, h)) (s, h') := by
  have hlift : (prog.lift ServiceCall.task (fun _ r => r)).Safe (Serves cfg who p)
      (fun a w => ∃ v : Shared × Hist, v.1 = w.1 ∧ post a v) (s, h') := by
    refine Prog.Safe.lift (R := fun (v : Shared × Hist) (w : Shared × Log) => v.1 = w.1) ?_
      hsafe rfl
    rintro c ⟨s, h⟩ ⟨u, g⟩ ⟨u₁, g₁⟩ r ⟨u₂, g₂⟩ hR hinv ⟨hlasts, hg⟩ ⟨-, ⟨o, ho⟩, hg₂⟩
    obtain rfl : s = u := hR
    refine ⟨(u₁, h), (u₂, ⟨c, r, u₁⟩ :: h), hinv, ⟨hlasts, rfl⟩, ⟨rfl, ⟨o, ho⟩, rfl⟩, ?_⟩
    intro hinv₂ hguar
    obtain rfl : g₂ = _ := hg₂
    exact ⟨hinv₂, ⟨hguar.1, serviceDuty_iff.mpr (duty_iff.mp hguar.2)⟩, rfl⟩
  refine Prog.Safe.mono hlift fun a w hw => ?_
  obtain ⟨⟨u, g⟩, rfl, hpost⟩ := hw
  exact ⟨g, hpost⟩

/-- A query reads one state. -/
theorem safe_read (hwho : who n = some B) {c : ReadCall} {Q : c.Out → Shared × Log → Prop}
    {exn : Exn → Shared × Log → Prop} (hc : ∀ s, Lasts w.1 s → WithinRead B s.ledger c)
    (hQ : ∀ s, Inv s → Lasts w.1 s →
      Q (c.exec s.ledger) (s, ⟨.read c, c.exec s.ledger, s⟩ :: w.2)) :
    Safe (Serves cfg who (.request n)) (read c) Q exn w := by
  obtain ⟨s, h⟩ := w
  rintro ⟨s₁, h₁⟩ hinv ⟨hlasts, hh⟩ r ⟨s₂, h₂⟩ ⟨-, ⟨o, ho⟩, hh₂⟩
  obtain rfl : h₁ = h := hh
  obtain rfl : h₂ = _ := hh₂
  obtain ⟨rfl, rfl⟩ := Prod.mk.inj (Option.some.inj ho)
  refine ⟨hinv, ⟨.refl s₁, serviceDuty_iff.mpr fun m C hm hC => ?_⟩, hQ s₁ hinv hlasts⟩
  obtain rfl := Pid.request.inj hm
  obtain rfl := Option.some.inj (hwho.symm.trans hC)
  exact hc s₁ hlasts

theorem safe_getView (hwho : who n = some B) {exn : Exn → Shared × Log → Prop} :
    Safe (Serves cfg who (.request n)) (read (.getView t (some B)))
      (fun a w => ∀ v, a = some v → Own B t v.record ∧ Owns B w.1.ledger t) exn w := by
  refine safe_read hwho (fun _ _ => rfl) fun s _ _ v hv => ?_
  obtain ⟨r, hr, rfl⟩ := Option.map_eq_some_iff.mp hv
  obtain ⟨hfind, howner⟩ := Option.filter_eq_some_iff.mp hr
  have hB : r.ownerId = some B := by simpa using howner
  exact ⟨⟨Table.key_of_find? hfind, hB⟩, owns_of_row hfind hB⟩

theorem safe_accessible (hwho : who n = some B) {exn : Exn → Shared × Log → Prop}
    (hexn : ∀ e w, exn e w) :
    Safe (Serves cfg who (.request n)) (Queries.accessible t (some B))
      (fun _ w => Owns B w.1.ledger t) exn w := by
  refine Safe.seq (safe_getView hwho) fun a w ha => ?_
  cases a with
  | none => exact hexn _ w
  | some v => exact (ha v rfl).2

theorem safe_query (hwho : who n = some B) {exn : Exn → Shared × Log → Prop}
    (hexn : ∀ e w, exn e w) {q : Query} (hq : q.ownerId = some B) :
    Safe (Serves cfg who (.request n)) (Queries.handle q) (fun r w => ReplyOf B w.1.ledger r) exn
      w := by
  cases q with
  | listTasks owner =>
      obtain rfl : owner = some B := hq
      have hlist : Safe (Serves cfg who (.request n)) (read (.list (some B)))
          (fun a w => ReplyOf B w.1.ledger (.tasks a)) exn w := by
        refine safe_read hwho (fun _ _ => rfl) fun s _ _ v hv => ?_
        obtain ⟨r, hr, rfl⟩ := List.mem_map.mp hv
        obtain ⟨hmem, howner⟩ := List.mem_filter.mp ((List.mem_insertionSort _).mp hr)
        have hB : r.ownerId = some B := by simpa using howner
        exact ⟨hB, owns_of_row (Table.find?_of_mem hmem) hB⟩
      exact Safe.seq hlist fun a w ha => ha
  | getTask t owner =>
      obtain rfl : owner = some B := hq
      refine Safe.seq (safe_getView hwho) fun a w ha => ?_
      cases a with
      | none => exact hexn _ w
      | some v =>
          obtain ⟨⟨hid, howner⟩, hown⟩ := ha v rfl
          refine ⟨howner, ?_⟩
          rw [hid]
          exact hown
  | listTaskEvents t after owner =>
      obtain rfl : owner = some B := hq
      refine Safe.seq (safe_accessible hwho hexn) fun _ w hown => ?_
      have hcopies : Safe (Serves cfg who (.request n)) (read (.listTaskEvents t after))
          (fun a w => ReplyOf B w.1.ledger (.events t a)) exn w := by
        refine safe_read hwho (fun s hlasts => hown.mono hlasts) fun s _ hlasts =>
          ⟨hown.mono hlasts, fun c hc => ?_⟩
        obtain ⟨-, hcopy⟩ := List.mem_filter.mp ((List.mem_insertionSort _).mp hc)
        exact (of_decide_eq_true hcopy).1
      exact Safe.seq hcopies fun a w ha => ha
  | getTaskMessageReceipt t m owner =>
      obtain rfl : owner = some B := hq
      refine Safe.seq (safe_accessible hwho hexn) fun _ w hown => ?_
      have hreceipt : Safe (Serves cfg who (.request n)) (read (.getTaskMessageReceipt t m))
          (fun _ w => Owns B w.1.ledger t) exn w :=
        safe_read hwho (fun s hlasts => hown.mono hlasts) fun s _ hlasts => hown.mono hlasts
      refine Safe.seq hreceipt fun a w hown => ?_
      cases a with
      | none => exact hexn _ w
      | some r => exact hown
  | getTaskResult t owner =>
      obtain rfl : owner = some B := hq
      refine Safe.seq (safe_getView hwho) fun a w ha => ?_
      cases a with
      | none => exact hexn _ w
      | some v =>
          obtain ⟨⟨hid, -⟩, hown⟩ := ha v rfl
          have hkeep : ∀ (c : ReadCall) (w : Shared × Log),
              (∀ l, Owns B l t → WithinRead B l c) → Owns B w.1.ledger t →
              Safe (Serves cfg who (.request n)) (read c) (fun _ w => Owns B w.1.ledger t) exn w :=
            fun c w hc hown => safe_read hwho (fun s hlasts => hc _ (hown.mono hlasts))
              fun s _ hlasts => hown.mono hlasts
          refine Safe.seq (hkeep _ w (fun _ h => h) hown) fun archive w hown => ?_
          have hpublication : Safe (Serves cfg who (.request n)) (read (.getPublication t))
              (fun a w => (∀ p, a = some p → p.taskId = t) ∧ Owns B w.1.ledger t) exn w :=
            safe_read hwho (fun s hlasts => hown.mono hlasts) fun s _ hlasts =>
              ⟨fun p hp => Table.key_of_find? hp, hown.mono hlasts⟩
          refine Safe.seq hpublication fun publication w hp => ?_
          refine Safe.seq (hkeep _ w (fun _ h => h) hp.2) fun supervision w hown => ?_
          show Owns B w.1.ledger v.record.id ∧ _
          rw [hid]
          exact ⟨hown, fun q hq => (hp.1 q hq).trans hid.symm⟩

theorem safe_request (hwho : who n = some B) {exn : Exn → Shared × Log → Prop}
    (hexn : ∀ e w, exn e w) {r : Request} (hr : r.ownerId = some B) :
    Safe (Serves cfg who (.request n)) (r.handle cfg) (fun a w => ResponseOf B w.1.ledger a) exn
      w := by
  cases r with
  | query q => exact Safe.seq (safe_query hwho hexn hr) fun a w ha => ha
  | route r =>
      obtain ⟨s, h⟩ := w
      have hroute : Safe (E cfg who (.request n)) (Routes.handle cfg r)
          (fun a w => AnswerOf B w.1.ledger a) (fun _ _ => True) (s, []) :=
        safe_handle hwho (fun _ _ => trivial) hr
      have hserve : Safe (Serves cfg who (.request n)) (Routes.handle cfg r).serve
          (fun a w => AnswerOf B w.1.ledger a) exn (s, h) := by
        refine Prog.Safe.mono (safe_lift hroute) fun a w hw => ?_
        obtain ⟨g, hg⟩ := hw
        cases a with
        | ok a => exact hg
        | error e => exact hexn e w
      exact Safe.seq hserve fun a w ha => ha

/-- What a request that has been answered knows of the answer. -/
def Answered (who : Nat → Option OwnerId) (p : Pid) (out : Outcome) (w : Shared × Log) : Prop :=
  ∀ n B, p = .request n → who n = some B → ∀ r, out = .answered r → ResponseOf B w.1.ledger r

theorem inv_phase {s : Shared} (h : Inv s) (ph : Phase) : Inv { s with phase := ph } :=
  ⟨h.ledger, h.published, h.confirmed⟩

theorem safe_start {j : ServiceJob} {s s' : Shared} {prog : Prog ServiceCall.Out Outcome}
    (hj : ServiceJob.start cfg who p j s = some (prog, s')) :
    (∃ ph, s' = { s with phase := ph }) ∧
      prog.Safe (Serves cfg who p) (Answered who p) (s', []) := by
  cases p with
  | request n =>
      cases j with
      | upkeep j => simp [ServiceJob.start] at hj
      | request r =>
          simp only [ServiceJob.start] at hj
          split at hj
          next hstart =>
            obtain ⟨rfl, rfl⟩ := Prod.mk.inj (Option.some.inj hj)
            refine ⟨⟨s.phase, rfl⟩, ?_⟩
            cases hB : who n with
            | none =>
                have hp : ∀ m C, Pid.request n = .request m → who m ≠ some C := by
                  intro m C hm
                  obtain rfl := Pid.request.inj hm
                  rw [hB]
                  simp
                refine Prog.Safe.mono (safe_unbound hp _ _) fun a w _ m C hm hC => ?_
                exact absurd hC (hp m C hm)
            | some B =>
                have hr : r.ownerId = some B := hstart.2.trans hB
                have hrequest : Safe (Serves cfg who (.request n)) (r.handle cfg)
                    (fun a w => ResponseOf B w.1.ledger a) (fun _ _ => True) (s, []) :=
                  safe_request hB (fun _ _ => trivial) hr
                refine Prog.Safe.bind (Prog.Safe.mono hrequest fun a w ha => ?_)
                intro m C hm hC x hx
                obtain rfl := Pid.request.inj hm
                obtain rfl := Option.some.inj (hB.symm.trans hC)
                cases a with
                | ok a =>
                    obtain rfl := Outcome.answered.inj hx
                    exact ha
                | error e => simp [Outcome.of] at hx
          next => simp at hj
  | scheduler | loop t =>
      cases j with
      | request r => simp [ServiceJob.start] at hj
      | upkeep j =>
          obtain ⟨⟨prog', s₁⟩, hstart, heq⟩ := Option.map_eq_some_iff.mp hj
          obtain ⟨rfl, rfl⟩ := Prod.mk.inj heq
          obtain ⟨-, ph, hs₁⟩ := start_cases hstart
          refine ⟨⟨ph, hs₁⟩, ?_⟩
          refine Prog.Safe.mono (safe_unbound (fun m C hm => by simp at hm) _ _) ?_
          intro a w _ m C hm
          simp at hm

theorem sound_service : Machine.Sound (M := service cfg who) {} Inv (fun _ => Lasts)
    (fun _ => Lasts) (Answered who) (serviceDuty cfg who) where
  rely_trans _ _ _ _ h h' := h.trans h'
  guar_rely _ _ _ _ _ h := h
  job p j s prog s' h hj := by
    obtain ⟨⟨ph, rfl⟩, hsafe⟩ := safe_start hj
    exact ⟨inv_phase h ph, .refl s, hsafe⟩
  event e s s' h _ he := by
    obtain ⟨hinv, hlasts⟩ := inv_event h he
    exact ⟨hinv, fun hkills _ => hlasts hkills⟩

/-- What holds of the service at any time. -/
abbrev Sane (cfg : Config) (who : Nat → Option OwnerId) (w : Serving) : Prop :=
  Machine.Ok (M := service cfg who) {} Inv (fun _ => Lasts) (fun _ => Lasts) (Answered who) w
    (serviceDuty cfg who)

theorem sane_run {as : List (service cfg who).Act} {w : Serving}
    (hr : (service cfg who).run Serving.init as = some w) : Sane cfg who w := by
  have hinit : Sane cfg who Serving.init := ⟨inv_init, by simp [Serving.init]⟩
  exact sound_service.run (fun _ s => Lasts.refl s) hinit (Machine.keeps_trivial _ _) hr

/-- Every call that a request made for an owner makes, at any time of any run, concerns the
owner's own part of the backend. -/
theorem requests_stay_within {as : List (service cfg who).Act} {w w' : Serving} {o : Oracle}
    {c : ServiceCall} {k : c.Out → Prog ServiceCall.Out Outcome} {h : Log} (hB : who n = some B)
    (hw : (service cfg who).run Serving.init as = some w)
    (hth : w.threads (.request n) = some ⟨.call c k, h⟩)
    (hs : (service cfg who).step w (.call (.request n) o) = some w') :
    WithinService B w.shared.ledger c := by
  simp only [Machine.step, hth] at hs
  obtain ⟨⟨r, s'⟩, ha, -⟩ := Option.map_eq_some_iff.mp hs
  obtain ⟨-, ⟨-, hduty⟩, -⟩ := (sane_run hw).call (fun _ s => Lasts.refl s) hth ha rfl
  exact serviceDuty_iff.mp hduty n B rfl hB

/-- An act of a request that is made for the owner. -/
def madeFor (B : OwnerId) : (service cfg who).Act → Bool
  | .call (.request n) _ | .start (.request n) _ => who n = some B
  | _ => false

theorem Foreign.mono {s s' : Shared} (h : Foreign B s.ledger t) (hl : Lasts s s') :
    Foreign B s'.ledger t := by
  obtain ⟨b, hb, ht, ho⟩ := h
  exact ⟨b, hl b hb, ht, ho⟩

theorem Spares.trans {s s' s'' : Shared} (h : Spares B s s') (hl : Lasts s s')
    (h' : Spares B s' s'') : Spares B s s'' where
  rows t ht := (h'.rows t (ht.mono hl)).trans (h.rows t ht)
  loops t ht := (h'.loops t (ht.mono hl)).trans (h.loops t ht)
  locks t ht := by
    obtain ⟨hw, hs⟩ := h.locks t ht
    obtain ⟨hw', hs'⟩ := h'.locks t (ht.mono hl)
    exact ⟨hw'.trans hw, hs'.trans hs⟩
  outside := by
    obtain ⟨hl, hc, hs⟩ := h.outside
    obtain ⟨hl', hc', hs'⟩ := h'.outside
    exact ⟨hl'.trans hl, hc'.trans hc, hs'.trans hs⟩

/-- The reads leave everything as it is. -/
theorem spares_service {o : Oracle} {c : ServiceCall} {r : c.Out} {s s' : Shared} (h : Inv s)
    (hc : WithinService B s.ledger c) (ha : s.serve p o c = some (r, s')) : Spares B s s' := by
  cases c with
  | task c => exact spares_within h hc ha
  | read c =>
      obtain ⟨-, rfl⟩ := Prod.mk.inj (Option.some.inj ha)
      exact .refl B s

/-- What one act made for an owner does. -/
theorem spares_act {a : (service cfg who).Act} {w w' : Serving} (hw : Sane cfg who w)
    (ha : madeFor B a = true) (hs : (service cfg who).step w a = some w') :
    Lasts w.shared w'.shared ∧ Spares B w.shared w'.shared := by
  cases a with
  | event e => simp [madeFor] at ha
  | call p o =>
      cases p with
      | scheduler | loop _ => simp [madeFor] at ha
      | request n =>
          have hwho : who n = some B := of_decide_eq_true ha
          simp only [Machine.step] at hs
          split at hs
          next c k h hth =>
            obtain ⟨⟨r, s'⟩, hans, rfl⟩ := Option.map_eq_some_iff.mp hs
            obtain ⟨-, ⟨hlasts, hduty⟩, -⟩ := hw.call (fun _ s => Lasts.refl s) hth hans rfl
            exact ⟨hlasts, spares_service hw.1 (serviceDuty_iff.mp hduty n B rfl hwho) hans⟩
          next => simp at hs
  | start p j =>
      cases p with
      | scheduler | loop _ => simp [madeFor] at ha
      | request n =>
          have hwho : who n = some B := of_decide_eq_true ha
          simp only [Machine.step] at hs
          split at hs
          next =>
            obtain ⟨⟨prog, s'⟩, hj, rfl⟩ := Option.map_eq_some_iff.mp hs
            obtain ⟨⟨ph, rfl⟩, -⟩ := safe_start hj
            exact ⟨fun _ hb => hb, fun _ _ => rfl, fun _ _ => rfl, fun _ _ => ⟨rfl, rfl⟩, rfl, rfl,
              rfl⟩
          next => simp at hs

theorem spares_run {bs : List (service cfg who).Act} {w w' : Serving} (hw : Sane cfg who w)
    (hbs : ∀ a ∈ bs, madeFor B a = true) (hr : (service cfg who).run w bs = some w') :
    Lasts w.shared w'.shared ∧ Spares B w.shared w'.shared := by
  induction bs generalizing w with
  | nil =>
      obtain rfl : w = w' := by simpa [Machine.run] using hr
      exact ⟨.refl _, .refl B _⟩
  | cons a bs ih =>
      obtain ⟨w₁, hs, hr⟩ := Option.bind_eq_some_iff.mp hr
      obtain ⟨hl, hsp⟩ := spares_act hw (hbs a List.mem_cons_self) hs
      have hw₁ : Sane cfg who w₁ :=
        (sound_service.step (fun _ s => Lasts.refl s) hw (Machine.meets_trivial _ _) hs).1
      obtain ⟨hl', hsp'⟩ := ih hw₁ (fun b hb => hbs b (List.mem_cons_of_mem a hb)) hr
      exact ⟨hl.trans hl', hsp.trans hl hsp'⟩

/-- From any state of any run, requests made for one owner leave the tasks of all others as
they are. -/
theorem requests_spare_others {as bs : List (service cfg who).Act} {w w' : Serving}
    (hw : (service cfg who).run Serving.init as = some w)
    (hw' : (service cfg who).run w bs = some w') (hbs : ∀ a ∈ bs, madeFor B a = true) :
    Spares B w.shared w'.shared :=
  (spares_run (sane_run hw) hbs hw').2

/-- Whatever the rest of the backend does, what a request made for an owner is answered
speaks of tasks of the owner. -/
theorem answers_speak_of_own {as : List (service cfg who).Act} {w w' : Serving} {o : Oracle}
    {r : Response} {h : Log} (hB : who n = some B)
    (hw : (service cfg who).run Serving.init as = some w)
    (hs : (service cfg who).step w (.call (.request n) o) = some w')
    (hr : w'.threads (.request n) = some ⟨.ret (.answered r), h⟩) :
    ResponseOf B w'.shared.ledger r :=
  (sane_run hw).returned (fun _ s => Lasts.refl s) (Machine.meets_trivial _ _) hs hr n B rfl hB r
    rfl

end Service

/-! ### Two owners -/

/-- Requests of owner 5 and of owner 7. -/
def twoOwners : Nat → Option OwnerId
  | 0 => some 5
  | 1 => some 7
  | _ => none

abbrev ServiceAct := (service demo twoOwners).Act

def ofUpkeep : Backend.Act demo → ServiceAct
  | .call p o => .call p o
  | .start p j => .start p (.upkeep j)
  | .event e => .event e

def turns (n k : Nat) (o : Oracle) : List ServiceAct := (calls (.request n) k o).map ofUpkeep

def asks (n : Nat) (r : Request) : ServiceAct := .start (.request n) (.request r)

def body : CreateTaskRequest := ⟨none, "prompt", "key", none, none, "z-ai/glm-5.3-flashx"⟩

/-- Owner 5 submits task 0. -/
def submits : List ServiceAct :=
  started.map ofUpkeep ++ asks 0 (.route (.submitTask body (some 5))) :: turns 0 3 fine ++
    snapshot.map ofUpkeep ++ turns 0 1 fine

/-- Owner 7 cancels it in vain, and submits a task with the same key. -/
def meddles : List ServiceAct :=
  asks 1 (.route (.cancelTask 0 (some 7))) :: turns 1 1 fine ++
    asks 1 (.route (.submitTask body (some 7))) :: turns 1 3 { fine with uuid := 1 }

theorem requests_stay_within_cancelling :
    ∃ w w' c k h, (service demo twoOwners).run Serving.init
        (submits ++ [asks 1 (.route (.cancelTask 0 (some 7)))]) = some w ∧
      w.threads (.request 1) = some ⟨.call c k, h⟩ ∧
      (service demo twoOwners).step w (.call (.request 1) fine) = some w' ∧
      WithinService 7 w.shared.ledger c := by
  have h : ((service demo twoOwners).run Serving.init
      (submits ++ [asks 1 (.route (.cancelTask 0 (some 7)))] ++ [.call (.request 1) fine])).isSome =
        true := by decide +kernel
  have hwho : twoOwners 1 = some 7 := rfl
  obtain ⟨w', hw'⟩ := Option.isSome_iff_exists.mp h
  obtain ⟨w, hw, hs⟩ := Machine.run_last _ hw'
  have hs' := hs
  simp only [Machine.step] at hs'
  split at hs'
  next c k g hth => exact ⟨w, w', c, k, g, hw, hth, hs, requests_stay_within hwho hw hth hs⟩
  next => simp at hs'

/-- The owners of the tasks, and the ids that the answer to request `n` lists. -/
def served (n : Nat) (w : Serving) : List (TaskId × Option OwnerId) × Option (List TaskId) :=
  (w.shared.ledger.tasks.rows.map fun r => (r.id, r.ownerId),
    match w.threads (.request n) with
    | some ⟨.ret (.answered (.reply (.tasks views))), _⟩ => some (views.map fun v => v.record.id)
    | _ => none)

theorem requests_spare_others_meddled :
    ∃ w w', (service demo twoOwners).run Serving.init submits = some w ∧
      (service demo twoOwners).run w meddles = some w' ∧
      w'.shared.ledger.tasks.rows.map (fun r => (r.id, r.ownerId)) = [(0, some 5), (1, some 7)] ∧
      Foreign 7 w.shared.ledger 0 ∧ Spares 7 w.shared w'.shared := by
  have h : ((service demo twoOwners).run Serving.init submits).map (served 1) =
      some ([(0, some 5)], none) := by decide +kernel
  have h' : ((service demo twoOwners).run Serving.init (submits ++ meddles)).map (served 1) =
      some ([(0, some 5), (1, some 7)], none) := by decide +kernel
  have hmade : ∀ a ∈ meddles, madeFor 7 a = true := by decide +kernel
  obtain ⟨w, hw, hrows⟩ := Option.map_eq_some_iff.mp h
  obtain ⟨w', hw', hrows'⟩ := Option.map_eq_some_iff.mp h'
  have hrest := Machine.run_rest _ hw hw'
  have hspares := requests_spare_others hw hrest hmade
  refine ⟨w, w', hw, hrest, congrArg Prod.fst hrows', ?_, hspares⟩
  have hmem : (0, some 5) ∈ w.shared.ledger.tasks.rows.map (fun r => (r.id, r.ownerId)) := by
    have hrows : w.shared.ledger.tasks.rows.map _ = _ := congrArg Prod.fst hrows
    rw [hrows]
    simp
  obtain ⟨r, hr, heq⟩ := List.mem_map.mp hmem
  obtain ⟨hid, howner⟩ := Prod.mk.inj heq
  exact ⟨ofTask r, binds_of_task (Table.find?_of_mem hr), hid, by simp [ofTask, howner]⟩

/-- Then owner 7 lists its tasks. -/
def lists : List ServiceAct := submits ++ meddles ++ snapshot.map ofUpkeep ++ turns 1 1 fine ++
  [asks 1 (.query (.listTasks (some 7)))]

theorem answers_speak_of_own_listed :
    ∃ w w' views h, (service demo twoOwners).run Serving.init lists = some w ∧
      (service demo twoOwners).step w (.call (.request 1) fine) = some w' ∧
      w'.threads (.request 1) = some ⟨.ret (.answered (.reply (.tasks views))), h⟩ ∧
      views.map (fun v => v.record.id) = [1] ∧
      ResponseOf 7 w'.shared.ledger (.reply (.tasks views)) := by
  have h : ((service demo twoOwners).run Serving.init (lists ++ [.call (.request 1) fine])).map
      (served 1) = some ([(0, some 5), (1, some 7)], some [1]) := by decide +kernel
  have hwho : twoOwners 1 = some 7 := rfl
  obtain ⟨w', hw', hserved⟩ := Option.map_eq_some_iff.mp h
  obtain ⟨w, hw, hs⟩ := Machine.run_last _ hw'
  have hlisted := congrArg Prod.snd hserved
  simp only [served] at hlisted
  split at hlisted
  next views h hret =>
    have hviews := Option.some.inj hlisted
    exact ⟨w, w', views, h, hw, hs, hret, hviews, answers_speak_of_own hwho hw hs hret⟩
  next => simp at hlisted

end GgAgent.Isolation
