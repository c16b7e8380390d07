import GgAgent.Checkpoint.Coordinator

/-!
Safety of the checkpoint coordinator under every schedule.

A coroutine that holds the serialization lock owns the published file, the commit
task and `confirmed_revision`: the others can only end its commit. What it knows
after each step (`Held`, `Copied`, `Awaiting`) is stable for that reason, and it
sets `confirmed_revision` only to the revision of a snapshot that its own commit
has persisted. Waiters that do not hold the lock rely on nothing but the growth of
`confirmed_revision`.
-/

namespace GgAgent.Checkpoint

open GgAgent.Lib GgAgent.Lib.Co

variable {ρ : Type}

/-! ### Writes -/

theorem Statement.exec_unchanged (q : Statement ρ) (rows : List ρ) (h : (q.exec rows).2 = 0) :
    (q.exec rows).1 = rows := by
  cases q with
  | insert r => simp [exec] at h
  | update p f =>
      have hnone : ∀ r ∈ rows, ¬ p r = true := by simpa [exec, List.countP_eq_zero] using h
      simp only [exec]
      calc rows.map (fun r => if p r then f r else r) = rows.map id := by
            apply List.map_congr_left
            intro r hr
            simp [hnone r hr]
        _ = rows := List.map_id rows
  | delete p =>
      have hnone : ∀ r ∈ rows, ¬ p r = true := by simpa [exec, List.countP_eq_zero] using h
      simp only [exec]
      apply List.filter_eq_self.mpr
      intro r hr
      simp [hnone r hr]

/-- Statements that change no row leave the rows as they were. -/
theorem execute_unchanged (body : List (Statement ρ)) (rows : List ρ)
    (h : (execute body rows).2 = 0) : (execute body rows).1 = rows := by
  induction body generalizing rows with
  | nil => rfl
  | cons q body ih =>
      simp only [execute] at h ⊢
      have hq : (q.exec rows).1 = rows := q.exec_unchanged rows (by omega)
      rw [hq] at h ⊢
      exact ih rows (by omega)

/-- A write counts a revision, or leaves the database as it was. -/
theorem Database.write_cases (skip : Bool) (body : List (Statement ρ)) (d : Database ρ) :
    (d.write skip body = d ∧ (execute body d.rows).1 = d.rows) ∨
      d.write skip body = ⟨d.revision + 1, (execute body d.rows).1⟩ := by
  unfold Database.write
  by_cases h : skip = true ∧ (execute body d.rows).2 = 0
  · left
    have hrows := execute_unchanged body d.rows h.2
    simp only [if_pos h, hrows]
    exact ⟨trivial, trivial⟩
  · right
    simp only [if_neg h]

/-- The rows after some writes. -/
def replay (rows : List ρ) (log : List (Write ρ)) : List ρ :=
  log.foldl (fun rows w => (execute w.body rows).1) rows

theorem replay_append (rows : List ρ) (log : List (Write ρ)) (w : Write ρ) :
    replay rows (log ++ [w]) = (execute w.body (replay rows log)).1 := by
  simp [replay]

/-- The writes with an assigned revision of at most `r`. -/
def upTo (r : Nat) (log : List (Write ρ)) : List (Write ρ) :=
  log.filter fun w => w.revision ≤ r

/-- A copy of the database contains exactly the effect of the writes up to its
revision. -/
def Recorded (s : State ρ) (d : Database ρ) : Prop :=
  d.revision ≤ s.db.revision ∧ d.rows = replay s.start.rows (upTo d.revision s.log)

/-! ### What is kept -/

/-- Commit task `i` has status `x`. -/
def Status (s : State ρ) (i : Nat) (x : CommitStatus) : Prop := s.commits[i]? = some x

structure Inv (s : State ρ) : Prop where
  log : ∀ w ∈ s.log, w.revision ≤ s.db.revision
  db : Recorded s s.db
  published : ∀ d, s.published = some d → Recorded s d
  persisted : ∀ d ∈ s.persisted, Recorded s d
  confirmed : s.confirmedRevision = -1 ∨ ∃ d ∈ s.persisted, (d.revision : Int) = s.confirmedRevision
  /-- No two commits overlap, and none runs while the lock is free. -/
  serial : ∀ i j, Status s i .running → Status s j .running → i = j
  free : s.holder .serial = none → ∀ i, ¬ Status s i .running
  failures : ∀ f ∈ s.failures, f.2 = false

/-- What any two states of a process have to do with one another. -/
structure Later (s s' : State ρ) : Prop where
  revision : s.db.revision ≤ s'.db.revision
  rows : s.db.revision = s'.db.revision → s.db.rows = s'.db.rows
  confirmed : s.confirmedRevision ≤ s'.confirmedRevision
  persisted : ∀ d ∈ s.persisted, d ∈ s'.persisted
  start : s'.start = s.start

/-- What the holder of the lock finds as it left it. -/
structure Undisturbed (p : Pid) (s s' : State ρ) : Prop where
  holder : s'.holder .serial = some p
  published : s'.published = s.published
  confirmed : s'.confirmedRevision = s.confirmedRevision
  length : s'.commits.length = s.commits.length
  ended : ∀ i x, Status s i x → x ≠ .running → Status s' i x
  running : ∀ i, Status s' i .running → Status s i .running
  succeeded : ∀ i d, Status s i .running → Status s' i .succeeded →
    s.published = some d → d ∈ s'.persisted

structure Rely (p : Pid) (s s' : State ρ) : Prop where
  later : Later s s'
  moved : s'.moved p = s.moved p
  held : s.holder .serial = some p → Undisturbed p s s'

structure Guar (p : Pid) (s s' : State ρ) : Prop where
  later : Later s s'
  others : ∀ q, q ≠ p → Rely q s s'

theorem Later.refl (s : State ρ) : Later s s :=
  ⟨Nat.le_refl _, fun _ => rfl, Int.le_refl _, fun _ h => h, rfl⟩

theorem Later.trans {a b c : State ρ} (h : Later a b) (h' : Later b c) : Later a c := by
  refine ⟨Nat.le_trans h.revision h'.revision, fun heq => ?_,
    Int.le_trans h.confirmed h'.confirmed, fun d hd => h'.persisted d (h.persisted d hd),
    h'.start.trans h.start⟩
  have hab := h.revision
  have hbc := h'.revision
  rw [h.rows (by omega), h'.rows (by omega)]

theorem Undisturbed.refl {p : Pid} {s : State ρ} (h : s.holder .serial = some p) :
    Undisturbed p s s :=
  ⟨h, rfl, rfl, rfl, fun _ _ hx _ => hx, fun _ hi => hi, fun i d hr hs => by
      simp only [Status] at hr hs
      simp [hr] at hs⟩

theorem Undisturbed.trans {p : Pid} {a b c : State ρ} (h : Undisturbed p a b)
    (h' : Undisturbed p b c) (hlater : Later b c) : Undisturbed p a c := by
  refine ⟨h'.holder, h'.published.trans h.published, h'.confirmed.trans h.confirmed,
    h'.length.trans h.length, fun i x hx hne => h'.ended i x (h.ended i x hx hne) hne,
    fun i hi => h.running i (h'.running i hi), ?_⟩
  intro i d hr hs hd
  -- The commit ended before `b`, or between `b` and `c`.
  cases hb : b.commits[i]? with
  | none =>
      have hlt := (List.getElem?_eq_some_iff.mp hr).1
      have hge := List.getElem?_eq_none_iff.mp hb
      have hlen := h.length
      omega
  | some x =>
      by_cases hx : x = .running
      · subst hx
        exact h'.succeeded i d hb hs (h.published.trans hd)
      · obtain rfl := Option.some.inj (hs.symm.trans (h'.ended i x hb hx))
        exact hlater.persisted d (h.succeeded i d hr hb hd)

theorem Rely.refl (p : Pid) (s : State ρ) : Rely p s s := ⟨.refl s, rfl, .refl⟩

theorem Rely.trans {p : Pid} {a b c : State ρ} (h : Rely p a b) (h' : Rely p b c) : Rely p a c :=
  ⟨h.later.trans h'.later, h'.moved.trans h.moved, fun hp =>
    (h.held hp).trans (h'.held (h.held hp).holder) h'.later⟩

/-! ### Steps that change nothing of this -/

/-- The fields that the invariant speaks of are the same. -/
structure Quiet (p : Pid) (s s' : State ρ) : Prop where
  db : s'.db = s.db
  published : s'.published = s.published
  persisted : s'.persisted = s.persisted
  commits : s'.commits = s.commits
  confirmed : s'.confirmedRevision = s.confirmedRevision
  start : s'.start = s.start
  log : s'.log = s.log
  holder : ∀ q, q ≠ p → (s.holder .serial = some q → s'.holder .serial = some q)
  moved : ∀ q, q ≠ p → s'.moved q = s.moved q

variable {p : Pid} {s s' : State ρ}

theorem Quiet.later (h : Quiet p s s') : Later s s' :=
  ⟨Nat.le_of_eq (by rw [h.db]), fun _ => by rw [h.db], Int.le_of_eq (by rw [h.confirmed]),
    fun d hd => by rw [h.persisted]; exact hd, h.start⟩

theorem Quiet.undisturbed (h : Quiet p s s') {q : Pid} (hq : s'.holder .serial = some q) :
    Undisturbed q s s' := by
  have hst : ∀ i x, Status s' i x ↔ Status s i x := by
    intro i x
    simp only [Status, h.commits]
  refine ⟨hq, h.published, h.confirmed, by rw [h.commits], fun i x hx _ => (hst i x).mpr hx,
    fun i hi => (hst i _).mp hi, fun i d hr hs => ?_⟩
  have hs' := (hst i _).mp hs
  simp only [Status] at hr hs'
  simp [hr] at hs'

theorem Quiet.guar (h : Quiet p s s') : Guar p s s' :=
  ⟨h.later, fun q hq => ⟨h.later, h.moved q hq, fun hheld => h.undisturbed (h.holder q hq hheld)⟩⟩

theorem Quiet.recorded (h : Quiet p s s') {d : Database ρ} (hd : Recorded s d) : Recorded s' d := by
  simpa only [Recorded, h.db, h.start, h.log] using hd

theorem Quiet.inv (h : Quiet p s s') (hs : Inv s) (hfailures : ∀ f ∈ s'.failures, f.2 = false)
    (hfree : s'.holder .serial = none → ∀ i, ¬ Status s i .running) : Inv s' where
  log w hw := by
    rw [h.log] at hw
    rw [h.db]
    exact hs.log w hw
  db := by rw [h.db]; exact h.recorded hs.db
  published d hd := by rw [h.published] at hd; exact h.recorded (hs.published d hd)
  persisted d hd := by rw [h.persisted] at hd; exact h.recorded (hs.persisted d hd)
  confirmed := by rw [h.confirmed, h.persisted]; exact hs.confirmed
  serial i j := by simpa only [Status, h.commits] using hs.serial i j
  free hf i := by simpa only [Status, h.commits] using hfree hf i
  failures := hfailures

/-- A step of the holder of the lock leaves the others what they rely on. -/
theorem guar_of_held (hheld : s.holder .serial = some p) (hlater : Later s s')
    (hmoved : ∀ q, q ≠ p → s'.moved q = s.moved q) : Guar p s s' := by
  refine ⟨hlater, fun q hq => ⟨hlater, hmoved q hq, fun hq' => ?_⟩⟩
  exact absurd (Option.some.inj (hq'.symm.trans hheld)) hq

/-! ### What a coroutine knows -/

/-- The coroutine holds the lock, has confirmed nothing, and no commit runs. -/
structure Held (p : Pid) (s : State ρ) : Prop where
  holder : s.holder .serial = some p
  moved : s.moved p = false
  idle : ∀ i, ¬ Status s i .running

/-- It holds the lock and has published a snapshot of revision `r`. -/
structure Copied (p : Pid) (r : Nat) (s : State ρ) : Prop where
  holder : s.holder .serial = some p
  moved : s.moved p = false
  published : ∃ d, s.published = some d ∧ d.revision = r
  confirmed : s.confirmedRevision ≤ r

/-- Its commit `i` is the only one that may run, and has persisted the snapshot if it
has succeeded. -/
structure Awaiting (p : Pid) (r i : Nat) (s : State ρ) : Prop extends Copied p r s where
  created : i < s.commits.length
  only : ∀ j, Status s j .running → j = i
  succeeded : Status s i .succeeded → ∃ d ∈ s.persisted, d.revision = r

theorem Held.stable (h : Held p s) (hr : Rely p s s') : Held p s' := by
  have hu := hr.held h.holder
  exact ⟨hu.holder, hr.moved.trans h.moved, fun i hi => h.idle i (hu.running i hi)⟩

theorem Copied.stable {r : Nat} (h : Copied p r s) (hr : Rely p s s') : Copied p r s' := by
  have hu := hr.held h.holder
  exact ⟨hu.holder, hr.moved.trans h.moved, by rw [hu.published]; exact h.published,
    by rw [hu.confirmed]; exact h.confirmed⟩

theorem Awaiting.stable {r i : Nat} (h : Awaiting p r i s) (hr : Rely p s s') :
    Awaiting p r i s' := by
  have hu := hr.held h.holder
  refine ⟨h.toCopied.stable hr, by rw [hu.length]; exact h.created,
    fun j hj => h.only j (hu.running j hj), fun hs => ?_⟩
  cases hst : s.commits[i]? with
  | none =>
      have := List.getElem?_eq_none_iff.mp hst
      have := h.created
      omega
  | some x =>
      by_cases hx : x = .running
      · subst hx
        obtain ⟨d, hd, hrev⟩ := h.published
        exact ⟨d, hu.succeeded i d hst hs hd, hrev⟩
      · obtain rfl := Option.some.inj (hs.symm.trans (hu.ended i x hst hx))
        obtain ⟨d, hd, hrev⟩ := h.succeeded hst
        exact ⟨d, hr.later.persisted d hd, hrev⟩

/-- Once its commit has ended, nothing runs. -/
theorem Awaiting.held {r i : Nat} (h : Awaiting p r i s) (hi : ¬ Status s i .running) : Held p s :=
  ⟨h.holder, h.moved, fun j hj => by
    obtain rfl := h.only j hj
    exact hi hj⟩

/-! ### Rules -/

abbrev Hist (ρ : Type) := List (Entry Call.Out (State ρ))

/-- The contract of a coroutine. -/
abbrev contract (ρ : Type) (p : Pid) : Prog.Contract Call.Out (State ρ × Hist ρ) :=
  Machine.contract (M := coordinator ρ) {} Inv Rely Guar p

/-- Safety of a routine, for assertions on the state. -/
def Runs {α : Type} (p : Pid) (r : Routine α) (post : α → State ρ → Prop)
    (exn : Exn → State ρ → Prop) (s : State ρ) : Prop :=
  ∀ h, Co.Safe (contract ρ p) r (fun a w => post a w.1) (fun e w => exn e w.1) (s, h)

/-- An assertion that the others cannot break. -/
def Stable (p : Pid) (A : State ρ → Prop) : Prop := ∀ s s', A s → Rely p s s' → A s'

variable {α β : Type} {A : State ρ → Prop} {post : α → State ρ → Prop} {exn : Exn → State ρ → Prop}

theorem Runs.pure {a : α} (h : post a s) : Runs p (pure a) post exn s := fun _ => h

theorem Runs.throw {e : Exn} (h : exn e s) : Runs p (throw e : Routine α) post exn s := fun _ => h

theorem Runs.seq {r : Routine α} {f : α → Routine β} {post : β → State ρ → Prop}
    {mid : α → State ρ → Prop} (hr : Runs p r mid exn s)
    (hf : ∀ a s, mid a s → Runs p (f a) post exn s) : Runs p (r >>= f) post exn s :=
  fun h => Safe.seq (hr h) fun a w hw => hf a w.1 hw w.2

theorem Runs.mono {r : Routine α} {post' : α → State ρ → Prop} {exn' : Exn → State ρ → Prop}
    (hr : Runs p r post exn s) (hpost : ∀ a s, post a s → post' a s)
    (hexn : ∀ e s, exn e s → exn' e s) : Runs p r post' exn' s :=
  fun h => Safe.mono (hr h) (fun a w => hpost a w.1) fun e w => hexn e w.1

theorem Runs.attempt {r : Routine α} {post : Except Exn α → State ρ → Prop}
    (hr : Runs p r (fun a => post (.ok a)) (fun e => post (.error e)) s) :
    Runs p (attempt r) post exn s :=
  fun h => Safe.attempt (hr h)

/-- One call: what it owes and what it establishes, from a stable assertion. -/
theorem safe_call {c : Call} {k : c.Out → Prog Call.Out β}
    {post : β → State ρ × Hist ρ → Prop} (hA : Stable p A)
    (hstep : ∀ s o r s', A s → Inv s → State.answer p o c s = some (r, s') →
      Inv s' ∧ Guar p s s' ∧ ∀ h, (k r).Safe (contract ρ p) post (s', h)) (hs : A s) (h : Hist ρ) :
    (Prog.call c k).Safe (contract ρ p) post (s, h) := by
  intro w₁ hinv hrely r w₂ hst
  obtain ⟨-, ⟨o, ho⟩, -⟩ := hst
  obtain ⟨hinv₂, hguar, hk⟩ := hstep w₁.1 o r w₂.1 (hA s w₁.1 hs hrely.1) hinv ho
  exact ⟨hinv₂, ⟨hguar, Machine.Cond.last_trivial p w₂.2⟩, hk w₂.2⟩

theorem Runs.ask {c : Call} {post : c.Out → State ρ → Prop} (hA : Stable p A)
    (hstep : ∀ s o r s', A s → Inv s → State.answer p o c s = some (r, s') →
      Inv s' ∧ Guar p s s' ∧ post r s') (hs : A s) : Runs p (ask c) post exn s := by
  refine safe_call hA (fun s o r s' hs hinv ho => ?_) hs
  obtain ⟨hinv', hguar, hpost⟩ := hstep s o r s' hs hinv ho
  exact ⟨hinv', hguar, fun _ => hpost⟩

/-! ### Calls that touch none of it -/

/-- The calls that move no field which the contract speaks of. -/
def Still : Call → Prop
  | .revision | .confirmedRevision | .lastError | .acquire .condition | .release .condition
  | .shield _ | .commitDone _ | .enlist | .notified | .sleep | .rounds | .never => True
  | _ => False

theorem rely_of_quiet (hq : Quiet p s s') (hh : s'.holder .serial = s.holder .serial)
    (hm : s'.moved p = s.moved p) : Rely p s s' :=
  ⟨hq.later, hm, fun hheld => hq.undisturbed (hh.trans hheld)⟩

theorem still_step {c : Call} (hc : Still c) {o : Oracle} {r : c.Out}
    (h : State.answer p o c s = some (r, s')) :
    Quiet p s s' ∧ s'.holder .serial = s.holder .serial ∧ s'.moved = s.moved ∧
      s'.failures = s.failures := by
  cases c
  case acquire l =>
    cases l with
    | serial => exact hc.elim
    | condition =>
        simp only [State.answer] at h
        split at h
        · obtain ⟨-, rfl⟩ := Prod.mk.inj (Option.some.inj h)
          exact ⟨⟨rfl, rfl, rfl, rfl, rfl, rfl, rfl, fun _ _ h => h, fun _ _ => rfl⟩, rfl, rfl, rfl⟩
        · split at h
          · obtain ⟨-, rfl⟩ := Prod.mk.inj (Option.some.inj h)
            exact ⟨⟨rfl, rfl, rfl, rfl, rfl, rfl, rfl, fun _ _ h => h, fun _ _ => rfl⟩, rfl, rfl, rfl⟩
          · simp at h
  case release l =>
    cases l with
    | serial => exact hc.elim
    | condition =>
        obtain ⟨-, rfl⟩ := Prod.mk.inj (Option.some.inj h)
        exact ⟨⟨rfl, rfl, rfl, rfl, rfl, rfl, rfl, fun _ _ h => h, fun _ _ => rfl⟩, rfl, rfl, rfl⟩
  case publish | createCommit | confirm | raised => exact hc.elim
  all_goals
    simp only [State.answer] at h
    repeat' split at h
    all_goals first
      | (obtain ⟨-, rfl⟩ := Prod.mk.inj (Option.some.inj h)
         exact ⟨⟨rfl, rfl, rfl, rfl, rfl, rfl, rfl, fun _ _ h => h, fun _ _ => rfl⟩, rfl, rfl, rfl⟩)
      | simp at h

/-- A quiet call keeps the contract and every stable assertion. -/
theorem still_keeps (hA : Stable p A) {c : Call} (hc : Still c) {o : Oracle} {r : c.Out}
    (hs : A s) (hinv : Inv s) (h : State.answer p o c s = some (r, s')) :
    Inv s' ∧ Guar p s s' ∧ A s' := by
  obtain ⟨hq, hh, hm, hf⟩ := still_step hc h
  refine ⟨hq.inv hinv (by rw [hf]; exact hinv.failures) ?_, hq.guar,
    hA s s' hs (rely_of_quiet hq hh (by rw [hm]))⟩
  rw [hh]
  exact hinv.free

/-- So does a routine that makes only such calls. -/
theorem Runs.still {r : Routine α} (hr : Makes Still r) (hA : Stable p A) (hs : A s) :
    Runs p r (fun _ => A) (fun _ => A) s := by
  intro h
  refine Safe.of_makes (A := fun w : State ρ × Hist ρ => A w.1) hr
    (fun w w' hw hrely => hA _ _ hw hrely.1) ?_ hs
  intro c w r w' hc hw hinv hst
  obtain ⟨-, ⟨o, ho⟩, -⟩ := hst
  obtain ⟨hinv', hguar, hA'⟩ := still_keeps hA hc hw hinv ho
  exact ⟨hinv', ⟨hguar, Machine.Cond.last_trivial p w'.2⟩, hA'⟩

/-- A quiet call, with what is known of its reply. -/
theorem Runs.ask_still {c : Call} (hc : Still c) {post : c.Out → State ρ → Prop} (hA : Stable p A)
    (hpost : ∀ s o r s', A s' → State.answer p o c s = some (r, s') → post r s') (hs : A s) :
    Runs p (Checkpoint.ask c) post exn s := by
  refine Runs.ask hA (fun s o r s' hs hinv ho => ?_) hs
  obtain ⟨hinv', hguar, hA'⟩ := still_keeps hA hc hs hinv ho
  exact ⟨hinv', hguar, hpost s o r s' hA' ho⟩

theorem makes_ask {S : Call → Prop} {c : Call} (hc : S c) : Makes S (ask c) := ⟨hc, fun _ => trivial⟩

theorem makes_acquire {S : Call → Prop} {l : Lock} (hc : S (.acquire l)) : Makes S (acquire l) :=
  ⟨hc, fun _ => trivial⟩

/-- The rule for a loop of the coordinator. -/
theorem Runs.loop {a : α} {body : α → Routine (α ⊕ β)} {I : α → State ρ → Prop}
    {post : β → State ρ → Prop} (hI : ∀ a, Stable p (I a))
    (hbody : ∀ a s, I a s → Runs p (body a) (fun r s => match r with
      | .inl a => I a s
      | .inr b => post b s) exn s) (hs : I a s) : Runs p (Checkpoint.loop a body) post exn s := by
  refine Runs.seq (Runs.ask_still (c := .rounds) trivial (hI a) (fun s o r s' hs' _ => hs') hs) ?_
  intro n s hs h
  refine Safe.loopFrom (I := fun a w => I a w.1) ?_ ?_ n a (s, h) hs
  · intro w w₁ _ _ r
    cases r
  · intro a w hw
    refine Safe.mono (hbody a w.1 hw w.2) (fun r w hr => ?_) fun _ _ h => h
    cases r with
    | inl a => exact hr
    | inr b => exact hr

theorem makes_loop {S : Call → Prop} {a : α} {body : α → Routine (α ⊕ β)} (hr : S .rounds)
    (hn : S .never) (hb : ∀ a, Makes S (body a)) : Makes S (Checkpoint.loop a body) := by
  refine Makes.bind (makes_ask hr) fun n => ?_
  induction n generalizing a with
  | zero => exact ⟨hn, fun r => by cases r⟩
  | succ n ih =>
      refine Makes.bind (hb a) fun x => ?_
      cases x with
      | inl a => exact ih
      | inr b => exact makes_pure _ _

/-! ### The commit -/

/-- What the wait for a commit answers. -/
theorem answer_shield {i : Nat} {o : Oracle} {r : Except Exn Unit}
    (h : State.answer p o (.shield i) s = some (r, s')) :
    s' = s ∧ match r with
      | .ok () => Status s i .succeeded
      | .error .cancelled => True
      | .error _ => ¬ Status s i .running := by
  simp only [State.answer] at h
  split at h
  · obtain ⟨rfl, rfl⟩ := Prod.mk.inj (Option.some.inj h)
    exact ⟨rfl, trivial⟩
  · split at h
    next hst =>
      obtain ⟨rfl, rfl⟩ := Prod.mk.inj (Option.some.inj h)
      exact ⟨rfl, hst⟩
    next hst =>
      obtain ⟨rfl, rfl⟩ := Prod.mk.inj (Option.some.inj h)
      refine ⟨rfl, fun hrun => ?_⟩
      simp [Status, hst] at hrun
    next hst =>
      obtain ⟨rfl, rfl⟩ := Prod.mk.inj (Option.some.inj h)
      exact ⟨rfl, trivial⟩
    next => simp at h

theorem Awaiting.stable' {r i : Nat} : Stable p (Awaiting (ρ := ρ) p r i) :=
  fun _ _ h hr => h.stable hr

/-- The wait for the own commit. -/
theorem runs_shield {r i : Nat} (hs : Awaiting p r i s) :
    Runs p (shield i) (fun _ s => Awaiting p r i s ∧ Status s i .succeeded)
      (fun e s => match e with
        | .cancelled => Awaiting p r i s
        | _ => Held p s) s := by
  refine safe_call Awaiting.stable' (fun s o x s' hs hinv ho => ?_) hs
  obtain ⟨hinv', hguar, -⟩ := still_keeps Awaiting.stable' (by trivial) hs hinv ho
  obtain ⟨rfl, hx⟩ := answer_shield ho
  refine ⟨hinv', hguar, fun h => ?_⟩
  cases x with
  | ok u => exact ⟨hs, hx⟩
  | error e =>
      cases e with
      | cancelled => exact hs
      | valueError => exact hs.held hx
      | failed n => exact hs.held hx

theorem runs_attempt_shield {r i : Nat} (hs : Awaiting p r i s) :
    Runs p (attempt (shield i)) (fun x s => match x with
      | .ok _ => Awaiting p r i s ∧ Status s i .succeeded
      | .error .cancelled => Awaiting p r i s
      | .error _ => Held p s) exn s := by
  refine Runs.attempt (Runs.mono (runs_shield hs) (fun _ _ h => h) ?_)
  intro e s he
  cases e <;> exact he

/-- After a cancellation the lock is kept until the commit has ended. -/
theorem runs_settle {r i : Nat} (hs : Awaiting p r i s) :
    Runs p (settle i) (fun _ s => Held p s) exn s := by
  refine Runs.loop (I := fun _ s => Awaiting p r i s) (fun _ => Awaiting.stable') ?_ hs
  intro _ s hs
  have hdone : Runs p (ask (.commitDone i)) (fun (b : Bool) s => Awaiting p r i s ∧
      (b = true → ¬ Status s i .running)) exn s := by
    refine Runs.ask_still (c := .commitDone i) trivial Awaiting.stable' (fun s o b s' hs' ho => ⟨hs', ?_⟩) hs
    obtain ⟨rfl, rfl⟩ := Prod.mk.inj (Option.some.inj ho)
    intro hb
    simpa [Status] using hb
  refine Runs.seq hdone ?_
  intro b s hb
  cases b with
  | true => exact Runs.pure (hb.1.held (hb.2 rfl))
  | false =>
      refine Runs.seq (runs_attempt_shield hb.1) ?_
      intro x s hx
      cases x with
      | ok u => exact Runs.pure hx.1
      | error e =>
          cases e with
          | cancelled => exact Runs.pure hx
          | valueError => exact Runs.pure hx
          | failed n => exact Runs.pure hx

/-! ### The checkpoint -/

theorem Inv.confirmed_le (hs : Inv s) : s.confirmedRevision ≤ s.db.revision := by
  rcases hs.confirmed with h | ⟨d, hd, hrev⟩
  · omega
  · have := (hs.persisted d hd).1
    omega

theorem Held.stable' : Stable p (Held (ρ := ρ) p) := fun _ _ h hr => h.stable hr

/-- The copy that is published is the database of that moment. -/
theorem runs_publish (hs : Held p s) :
    Runs p publish (fun r s => Held p s ∧ Copied p r s) (fun _ s => Held p s) s := by
  refine safe_call Held.stable' (fun s o x s' hs hinv ho => ?_) hs
  have hmove : ∀ f : Option (Database ρ), (f = s.published ∨ f = some s.db) →
      Inv { s with published := f } ∧ Guar p s { s with published := f } ∧
        Held p { s with published := f } := by
    intro f hf
    refine ⟨{ hinv with published := ?_ }, guar_of_held hs.holder
      ⟨Nat.le_refl _, fun _ => rfl, Int.le_refl _, fun _ h => h, rfl⟩ fun _ _ => rfl,
      ⟨hs.holder, hs.moved, hs.idle⟩⟩
    intro d hd
    rcases hf with rfl | rfl
    · exact hinv.published d hd
    · obtain rfl := Option.some.inj hd
      exact hinv.db
  simp only [State.answer] at ho
  split at ho
  · obtain ⟨rfl, rfl⟩ := Prod.mk.inj (Option.some.inj ho)
    obtain ⟨h₁, h₂, h₃⟩ := hmove (if o.replaced then some s.db else s.published) (by
      by_cases hr : o.replaced <;> simp [hr])
    exact ⟨h₁, h₂, fun _ => h₃⟩
  · obtain ⟨rfl, rfl⟩ := Prod.mk.inj (Option.some.inj ho)
    obtain ⟨h₁, h₂, h₃⟩ := hmove (some s.db) (.inr rfl)
    exact ⟨h₁, h₂, fun _ => ⟨h₃, hs.holder, hs.moved, ⟨s.db, rfl, rfl⟩, hinv.confirmed_le⟩⟩

theorem getElem?_append_running (commits : List CommitStatus) (i : Nat) (x : CommitStatus) :
    (commits ++ [.running])[i]? = some x ↔
      commits[i]? = some x ∨ i = commits.length ∧ x = .running := by
  rw [List.getElem?_append]
  split
  next hlt =>
    constructor
    · exact .inl
    · rintro (h | ⟨h, -⟩)
      · exact h
      · omega
  next hge =>
    have hnone : commits[i]? = none := List.getElem?_eq_none (by omega)
    rw [hnone]
    by_cases hi : i = commits.length
    · subst hi
      simp [eq_comm]
    · have hout : [CommitStatus.running][i - commits.length]? = none :=
        List.getElem?_eq_none (by simp only [List.length_singleton]; omega)
      simp [hi, hout]

/-- The commit task is created while no other runs. -/
theorem runs_createCommit {r : Nat} (hs : Held p s ∧ Copied p r s) :
    Runs p (ask .createCommit) (fun i s => Awaiting p r i s) exn s := by
  have hstable : Stable p fun s : State ρ => Held p s ∧ Copied p r s :=
    fun _ _ h hr => ⟨h.1.stable hr, h.2.stable hr⟩
  refine Runs.ask hstable (fun s o i s' hs hinv ho => ?_) hs
  obtain ⟨rfl, rfl⟩ := Prod.mk.inj (Option.some.inj ho)
  have hrun : ∀ j, Status { s with commits := s.commits ++ [.running] } j .running →
      j = s.commits.length := by
    intro j hj
    rcases (getElem?_append_running s.commits j .running).mp hj with hj | ⟨hj, -⟩
    · exact absurd hj (hs.1.idle j)
    · exact hj
  refine ⟨{ hinv with serial := ?_, free := ?_ }, guar_of_held hs.1.holder
    ⟨Nat.le_refl _, fun _ => rfl, Int.le_refl _, fun _ h => h, rfl⟩ fun _ _ => rfl, ?_⟩
  · intro i j hi hj
    exact (hrun i hi).trans (hrun j hj).symm
  · intro hfree
    exact absurd (hs.1.holder.symm.trans hfree) (by simp)
  · refine ⟨⟨hs.1.holder, hs.1.moved, hs.2.published, hs.2.confirmed⟩, ?_, hrun, fun hst => ?_⟩
    · simp
    · rcases (getElem?_append_running s.commits _ .succeeded).mp hst with hst | ⟨-, hst⟩
      · have := (List.getElem?_eq_some_iff.mp hst).1
        omega
      · simp at hst

/-- The coroutine holds the lock and no commit runs, whether or not it has confirmed. -/
def Owned (p : Pid) (s : State ρ) : Prop :=
  s.holder .serial = some p ∧ ∀ i, ¬ Status s i .running

theorem Owned.stable : Stable p (Owned (ρ := ρ) p) := by
  intro s s' h hr
  have hu := hr.held h.1
  exact ⟨hu.holder, fun i hi => h.2 i (hu.running i hi)⟩

theorem Held.owned (h : Held p s) : Owned p s := ⟨h.holder, h.idle⟩

/-- A block under the lock of the condition, which the contract does not speak of. -/
theorem runs_withCondition {body : Routine α} (hA : Stable p A)
    (hcancel : ∀ s, A s → exn .cancelled s) (hpost : ∀ a, Stable p (post a))
    (hexn : ∀ e, Stable p (exn e)) (hbody : ∀ s, A s → Runs p body post exn s) (hs : A s) :
    Runs p (withLock .condition body) post exn s := by
  have hacquire : Runs p (acquire .condition) (fun _ => A) exn s := by
    refine safe_call hA (fun s o x s' hs hinv ho => ?_) hs
    obtain ⟨hinv', hguar, hA'⟩ := still_keeps (c := .acquire .condition) hA trivial hs hinv ho
    refine ⟨hinv', hguar, fun h => ?_⟩
    cases x with
    | ok u => exact hA'
    | error e =>
        obtain rfl : e = .cancelled := by
          simp only [State.answer] at ho
          split at ho
          · exact (Except.error.inj (Prod.mk.inj (Option.some.inj ho)).1).symm
          · split at ho
            · simp at ho
            · simp at ho
        exact hcancel s' hA'
  refine Runs.seq hacquire fun _ s hs => ?_
  have hended : Runs p (attempt body) (Either post exn) exn s := Runs.attempt (hbody s hs)
  refine Runs.seq hended fun x s hx => ?_
  cases x with
  | ok a =>
      refine Runs.seq (Runs.ask_still (c := .release .condition) trivial (hpost a)
        (fun _ _ _ s' hs' _ => hs') hx) fun _ s hs => ?_
      exact Runs.pure hs
  | error e =>
      refine Runs.seq (Runs.ask_still (c := .release .condition) trivial (hexn e)
        (fun _ _ _ s' hs' _ => hs') hx) fun _ s hs => ?_
      exact Runs.throw hs

/-- The revision that is confirmed is that of the snapshot which the commit persisted. -/
theorem runs_confirm {r i : Nat} (hs : Awaiting p r i s ∧ Status s i .succeeded) :
    Runs p (withLock .condition (ask (.confirm r))) (fun _ s => Owned p s) (fun _ s => Held p s)
      s := by
  have hstable : Stable p fun s : State ρ => Awaiting p r i s ∧ Status s i .succeeded :=
    fun _ _ h hr => ⟨h.1.stable hr, (hr.held h.1.holder).ended i _ h.2 (by simp)⟩
  have hidle : ∀ s : State ρ, Awaiting p r i s ∧ Status s i .succeeded → Held p s := by
    intro s h
    refine h.1.held fun hrun => ?_
    have := h.2
    simp only [Status] at hrun this
    simp [hrun] at this
  refine runs_withCondition hstable hidle (fun _ => Owned.stable) (fun _ => Held.stable') ?_ hs
  intro s hs
  refine Runs.ask hstable (fun s o x s' hs hinv ho => ?_) hs
  obtain ⟨rfl, rfl⟩ := Prod.mk.inj (Option.some.inj ho)
  refine ⟨{ hinv with confirmed := ?_ }, guar_of_held hs.1.holder
    ⟨Nat.le_refl _, fun _ => rfl, hs.1.confirmed, fun _ h => h, rfl⟩ ?_, (hidle s hs).owned⟩
  · obtain ⟨d, hd, hrev⟩ := hs.1.succeeded hs.2
    exact .inr ⟨d, hd, by simp [hrev]⟩
  · intro q hq
    exact Function.update_of_ne hq _ _

theorem runs_checkpointLocked (required : Option Int) (hs : Held p s) :
    Runs p (checkpointLocked required) (fun _ s => Owned p s) (fun _ s => Held p s) s := by
  refine Runs.seq (Runs.ask_still (c := .confirmedRevision) trivial Held.stable'
    (fun _ _ _ s' hs' _ => hs') hs) fun c s hs => ?_
  by_cases hc : required.any (· ≤ c) = true
  · rw [if_pos hc]
    exact Runs.pure hs.owned
  · rw [if_neg hc]
    refine Runs.seq (runs_publish hs) fun r s hs => ?_
    refine Runs.seq (runs_createCommit hs) fun i s hs => ?_
    refine Runs.seq (runs_attempt_shield hs) fun x s hx => ?_
    cases x with
    | ok u => exact Runs.seq (runs_confirm hx) fun _ s hs => Runs.pure hs
    | error e =>
        cases e with
        | cancelled => exact Runs.seq (runs_settle hx) fun _ s hs => Runs.throw hs
        | valueError => exact Runs.throw hx
        | failed n => exact Runs.throw hx

/-- The coroutine's current checkpoint has confirmed nothing. -/
theorem stable_moved : Stable p fun s : State ρ => s.moved p = false :=
  fun _ _ h hr => hr.moved.trans h

/-- The lock is taken when no commit runs, and given back when none does. -/
theorem runs_withSerial {body : Routine α}
    (hbody : ∀ s, Held p s → Runs p body (fun _ s => Owned p s) (fun _ s => Held (ρ := ρ) p s) s) :
    Runs p (withLock .serial body) (fun _ _ => True) (fun _ s => s.moved p = false) s := by
  have htrue : Stable p fun _ : State ρ => True := fun _ _ _ _ => trivial
  have hacquire : Runs p (acquire .serial) (fun _ s => Held p s) (fun _ s => s.moved p = false) s := by
    refine safe_call htrue (fun s o x s' _ hinv ho => ?_) trivial
    simp only [State.answer, if_true] at ho
    split at ho
    · obtain ⟨rfl, rfl⟩ := Prod.mk.inj (Option.some.inj ho)
      have hq : Quiet p s { s with moved := Function.update s.moved p false } :=
        ⟨rfl, rfl, rfl, rfl, rfl, rfl, rfl, fun _ _ h => h, fun _ hq => Function.update_of_ne hq _ _⟩
      exact ⟨hq.inv hinv hinv.failures hinv.free, hq.guar, fun _ => Function.update_self _ _ _⟩
    · split at ho
      next hnone =>
        obtain ⟨rfl, rfl⟩ := Prod.mk.inj (Option.some.inj ho)
        have hfree : s.holder .serial = none := hnone
        have hq : Quiet p s
            { s with
              moved := Function.update s.moved p false
              holder := Function.update s.holder .serial (some p) } :=
          ⟨rfl, rfl, rfl, rfl, rfl, rfl, rfl, fun q _ h => by simp [hfree] at h,
            fun _ hq => Function.update_of_ne hq _ _⟩
        refine ⟨hq.inv hinv hinv.failures fun h => ?_, hq.guar, fun _ => ?_⟩
        · simp at h
        · exact ⟨by simp, by simp, hinv.free hfree⟩
      next => simp at ho
  refine Runs.seq hacquire fun _ s hs => ?_
  have hended : Runs p (attempt body)
      (fun x s => Owned p s ∧ ∀ e, x = .error e → s.moved p = false)
      (fun _ s => s.moved p = false) s := by
    refine Runs.attempt (Runs.mono (hbody s hs) (fun _ _ h => ⟨h, fun e he => ?_⟩)
      fun _ _ h => ⟨h.owned, fun _ _ => h.moved⟩)
    simp at he
  refine Runs.seq hended fun x s hx => ?_
  -- The release is quiet because the lock is the coroutine's own.
  have hrelease : Runs p (ask (.release .serial)) (fun _ s => ∀ e, x = .error e → s.moved p = false)
      (fun _ s => s.moved p = false) s := by
    have hstable : Stable p fun s : State ρ => Owned p s ∧ ∀ e, x = .error e → s.moved p = false :=
      fun s s' h hr => ⟨Owned.stable s s' h.1 hr, fun e he => hr.moved.trans (h.2 e he)⟩
    refine Runs.ask hstable (fun s o y s' hs hinv ho => ?_) hx
    obtain ⟨rfl, rfl⟩ := Prod.mk.inj (Option.some.inj ho)
    have hq : Quiet p s { s with holder := Function.update s.holder .serial none } := by
      refine ⟨rfl, rfl, rfl, rfl, rfl, rfl, rfl, fun q hq h => ?_, fun _ _ => rfl⟩
      exact absurd (Option.some.inj (h.symm.trans hs.1.1)) hq
    exact ⟨hq.inv hinv hinv.failures fun _ => hs.1.2, hq.guar, hs.2⟩
  refine Runs.seq hrelease fun _ s hs => ?_
  cases x with
  | ok a => exact Runs.pure trivial
  | error e => exact Runs.throw (hs e rfl)

theorem runs_checkpoint (required : Option Int) (s : State ρ) :
    Runs p (checkpoint required) (fun _ _ => True) (fun _ _ => True) s := by
  have hended : Runs p (attempt (withLock .serial (checkpointLocked required)))
      (Either (fun _ _ => True) fun _ s => s.moved p = false) (fun _ _ => True) s :=
    Runs.attempt (runs_withSerial fun s hs => runs_checkpointLocked required hs)
  refine Runs.seq hended fun x s hx => ?_
  cases x with
  | ok a => exact Runs.pure trivial
  | error e =>
      have hraised : Runs p (ask (.raised e.typeName)) (fun _ _ => True) (fun _ _ => True) s := by
        refine Runs.ask stable_moved (fun s o y s' hs hinv ho => ?_) hx
        obtain ⟨rfl, rfl⟩ := Prod.mk.inj (Option.some.inj ho)
        have hq : Quiet p s
            { s with
              lastError := some e.typeName
              failures := (p, s.moved p) :: s.failures } :=
          ⟨rfl, rfl, rfl, rfl, rfl, rfl, rfl, fun _ _ h => h, fun _ _ => rfl⟩
        refine ⟨hq.inv hinv ?_ hinv.free, hq.guar, trivial⟩
        intro f hf
        rcases List.mem_cons.mp hf with rfl | hf
        · exact hs
        · exact hinv.failures f hf
      exact Runs.seq hraised fun _ _ _ => Runs.throw trivial

/-! ### The waiters -/

theorem stable_confirmed (r : Int) : Stable p fun s : State ρ => r ≤ s.confirmedRevision :=
  fun _ _ h hr => Int.le_trans h hr.later.confirmed

theorem stable_true : Stable p fun _ : State ρ => True := fun _ _ _ _ => trivial

/-- What is read of `confirmed_revision` stays a lower bound. -/
theorem runs_confirmedRevision (s : State ρ) :
    Runs p (ask .confirmedRevision) (fun (c : Int) s => c ≤ s.confirmedRevision) exn s := by
  refine Runs.ask_still (c := .confirmedRevision) trivial stable_true (fun s o c s' _ ho => ?_) trivial
  obtain ⟨rfl, rfl⟩ := Prod.mk.inj (Option.some.inj ho)
  exact Int.le_refl _

theorem runs_requireCommitted (r : Int) (s : State ρ) :
    Runs p (requireCommitted r) (fun _ _ => True) (fun _ _ => True) s := by
  refine Runs.seq (Runs.ask_still (c := .revision) trivial stable_true
    (fun _ _ _ _ _ _ => trivial) trivial) fun c s _ => ?_
  by_cases h : r < 0 ∨ (c : Int) < r
  · rw [if_pos h]
    exact Runs.throw trivial
  · rw [if_neg h]
    exact Runs.pure trivial

theorem runs_ensureDurable (r : Int) (s : State ρ) :
    Runs p (ensureDurable r) (fun _ s => r ≤ s.confirmedRevision) (fun _ _ => True) s := by
  refine Runs.seq (runs_requireCommitted r s) fun _ s _ => ?_
  refine Runs.loop (I := fun _ _ => True) (fun _ => stable_true) ?_ trivial
  intro _ s _
  refine Runs.seq (runs_confirmedRevision s) fun c s hc => ?_
  by_cases h : c < r
  · rw [if_pos h]
    exact Runs.seq (runs_checkpoint (some r) s) fun _ _ _ => Runs.pure trivial
  · rw [if_neg h]
    exact Runs.pure (Int.le_trans (Int.not_lt.mp h) hc)

theorem makes_conditionWait : Makes Still conditionWait := by
  refine Makes.bind (makes_ask trivial) fun _ => Makes.bind (makes_ask trivial) fun _ => ?_
  refine Makes.bind (Makes.attempt ⟨trivial, fun _ => trivial⟩) fun woken => ?_
  refine Makes.bind (makes_loop trivial trivial fun r => ?_) fun r => ?_
  · refine Makes.bind (Makes.attempt (makes_acquire trivial)) fun x => ?_
    cases x with
    | ok u => exact makes_pure _ _
    | error e => exact makes_pure _ _
  · cases r with
    | ok u => exact makes_pure _ _
    | error e => exact makes_throw _ _

theorem runs_waitUntilConfirmed (r : Int) (s : State ρ) :
    Runs p (waitUntilConfirmed r) (fun _ s => r ≤ s.confirmedRevision) (fun _ _ => True) s := by
  refine Runs.seq (runs_requireCommitted r s) fun _ s _ => ?_
  refine runs_withCondition stable_true (fun _ _ => trivial) (fun _ => stable_confirmed r)
    (fun _ => stable_true) ?_ trivial
  intro s _
  refine Runs.loop (I := fun _ _ => True) (fun _ => stable_true) ?_ trivial
  intro _ s _
  refine Runs.seq (runs_confirmedRevision s) fun c s hc => ?_
  by_cases h : r ≤ c
  · rw [if_pos h]
    exact Runs.pure (Int.le_trans h hc)
  · rw [if_neg h]
    exact Runs.seq (Runs.still makes_conditionWait stable_true trivial) fun _ _ _ => Runs.pure trivial

theorem runs_background (s : State ρ) :
    Runs p background (fun _ _ => True) (fun _ _ => True) s := by
  have hask : ∀ c, Still c → ∀ s : State ρ, Runs p (ask c) (fun _ _ => True) (fun _ _ => True) s :=
    fun c hc s => Runs.ask_still hc stable_true (fun _ _ _ _ _ _ => trivial) trivial
  refine Runs.loop (I := fun _ _ => True) (fun _ => stable_true) ?_ trivial
  intro _ s _
  refine Runs.seq (Runs.still ⟨trivial, fun _ => trivial⟩ stable_true trivial) fun _ s _ => ?_
  refine Runs.seq (hask .revision trivial s) fun revision s _ => ?_
  refine Runs.seq (hask .confirmedRevision trivial s) fun confirmed s _ => ?_
  refine Runs.seq (hask .lastError trivial s) fun failed s _ => ?_
  split
  · have hended : Runs p (attempt (checkpoint none)) (fun _ _ => True) (fun _ _ => True) s :=
      Runs.attempt (runs_checkpoint none s)
    refine Runs.seq hended fun x s _ => ?_
    split
    · exact Runs.throw trivial
    · exact Runs.pure trivial
  · exact Runs.pure trivial

/-! ### Local writes and the ends of commits -/

theorem upTo_append (r : Nat) (log : List (Write ρ)) (w : Write ρ) :
    upTo r (log ++ [w]) = if w.revision ≤ r then upTo r log ++ [w] else upTo r log := by
  unfold upTo
  rw [List.filter_append]
  by_cases h : w.revision ≤ r <;> simp [h]

/-- A write is part of the copies of its revision on, and of no earlier one. -/
theorem inv_write (skip : Bool) (body : List (Statement ρ)) (hs : Inv s)
    (h : (Happening.write skip body).apply s = some s') : Inv s' := by
  obtain rfl := Option.some.inj h
  have hold : ∀ d, Recorded s d →
      Recorded { s with db := s.db.write skip body,
                        log := s.log ++ [⟨(s.db.write skip body).revision, body⟩] } d := by
    intro d hd
    rcases s.db.write_cases skip body with ⟨heq, hrows⟩ | heq
    · refine ⟨by rw [heq]; exact hd.1, ?_⟩
      show d.rows = replay s.start.rows (upTo d.revision (s.log ++ [_]))
      rw [upTo_append, heq]
      by_cases hr : s.db.revision ≤ d.revision
      · -- The copy has the rows of the database, which the write did not change.
        have hsame : d.revision = s.db.revision := Nat.le_antisymm hd.1 hr
        have hdb : d.rows = s.db.rows := by rw [hd.2, hs.db.2, hsame]
        rw [if_pos hr, replay_append, ← hd.2, hdb]
        exact hrows.symm
      · rw [if_neg hr]
        exact hd.2
    · refine ⟨by rw [heq]; exact Nat.le_succ_of_le hd.1, ?_⟩
      show d.rows = replay s.start.rows (upTo d.revision (s.log ++ [_]))
      have hlt : ¬ s.db.revision + 1 ≤ d.revision := by
        have := hd.1
        omega
      rw [upTo_append, heq, if_neg hlt]
      exact hd.2
  have hle : s.db.revision ≤ (s.db.write skip body).revision := by
    rcases s.db.write_cases skip body with ⟨heq, -⟩ | heq
    · exact Nat.le_of_eq (by rw [heq])
    · rw [heq]
      exact Nat.le_succ _
  refine { hs with
    log := ?_
    db := ?_
    published := fun d hd => hold d (hs.published d hd)
    persisted := fun d hd => hold d (hs.persisted d hd) }
  · intro w hw
    rcases List.mem_append.mp hw with hw | hw
    · exact Nat.le_trans (hs.log w hw) hle
    · exact Nat.le_of_eq (by rw [List.mem_singleton.mp hw])
  · rcases s.db.write_cases skip body with ⟨heq, -⟩ | heq
    · have hdb := hold s.db hs.db
      rw [heq] at hdb ⊢
      exact hdb
    · refine ⟨Nat.le_refl _, ?_⟩
      show (s.db.write skip body).rows = replay s.start.rows (upTo _ (s.log ++ [_]))
      have hall : upTo (s.db.revision + 1) s.log = upTo s.db.revision s.log := by
        apply List.filter_congr
        intro w hw
        have := hs.log w hw
        simp only [decide_eq_decide]
        omega
      rw [upTo_append, heq, if_pos (Nat.le_refl _), replay_append, hall, ← hs.db.2]

theorem later_write (skip : Bool) (body : List (Statement ρ))
    (h : (Happening.write skip body).apply s = some s') : Later s s' := by
  obtain rfl := Option.some.inj h
  rcases s.db.write_cases skip body with ⟨heq, -⟩ | heq
  · refine ⟨?_, fun _ => ?_, Int.le_refl _, fun _ h => h, rfl⟩
    · exact Nat.le_of_eq (by rw [heq])
    · show s.db.rows = (s.db.write skip body).rows
      rw [heq]
  · refine ⟨?_, fun hrev => ?_, Int.le_refl _, fun _ h => h, rfl⟩
    · show s.db.revision ≤ (s.db.write skip body).revision
      rw [heq]
      exact Nat.le_succ _
    · have hrev' : s.db.revision = (s.db.write skip body).revision := hrev
      rw [heq] at hrev'
      exact absurd hrev' (by simp)

/-- A commit that ends well has persisted the file at the snapshot's path. -/
theorem commitEnds_cases {i : Nat} {x : CommitStatus}
    (h : (Happening.commitEnds i x).apply s = some s') :
    Status s i .running ∧ x ≠ .running ∧
      (∀ j y, Status s' j y ↔ (j = i ∧ y = x) ∨ (j ≠ i ∧ Status s j y)) ∧
      s'.persisted = (if x = .succeeded then s.published.toList ++ s.persisted else s.persisted) ∧
      s' = { s with commits := s'.commits, persisted := s'.persisted } ∧
      s'.commits.length = s.commits.length := by
  simp only [Happening.apply] at h
  split at h
  next hrun =>
    obtain rfl := Option.some.inj h
    refine ⟨hrun.1, hrun.2, fun j y => ?_, rfl, rfl, by simp⟩
    have hlt := (List.getElem?_eq_some_iff.mp hrun.1).1
    simp only [Status, List.getElem?_set]
    by_cases hj : j = i
    · subst hj
      simp [hlt, eq_comm]
    · have hij : i ≠ j := fun h => hj h.symm
      simp [hj, hij]
  next => simp at h

theorem inv_commitEnds {i : Nat} {x : CommitStatus} (hs : Inv s)
    (h : (Happening.commitEnds i x).apply s = some s') : Inv s' ∧ ∀ p, Rely p s s' := by
  obtain ⟨hrun, hx, hst, hper, hs', hlen⟩ := commitEnds_cases h
  have hrunning : ∀ j, Status s' j .running → Status s j .running := by
    intro j hj
    rcases (hst j _).mp hj with ⟨-, heq⟩ | ⟨-, hj⟩
    · exact absurd heq.symm hx
    · exact hj
  have hmem : ∀ d ∈ s.persisted, d ∈ s'.persisted := by
    intro d hd
    rw [hper]
    split
    · exact List.mem_append_right _ hd
    · exact hd
  have hlater : Later s s' := by
    rw [hs']
    exact ⟨Nat.le_refl _, fun _ => rfl, Int.le_refl _, hmem, rfl⟩
  have hrec : ∀ d, Recorded s d → Recorded s' d := by
    intro d hd
    rw [hs']
    exact hd
  constructor
  · constructor
    case log => rw [hs']; exact hs.log
    case db => exact hrec _ (by rw [hs']; exact hs.db)
    case published =>
      intro d hd
      exact hrec d (hs.published d (by rw [hs'] at hd; exact hd))
    case persisted =>
      intro d hd
      refine hrec d ?_
      rw [hper] at hd
      split at hd
      · rcases List.mem_append.mp hd with hd | hd
        · exact hs.published d (Option.mem_toList.mp hd)
        · exact hs.persisted d hd
      · exact hs.persisted d hd
    case confirmed =>
      rcases hs.confirmed with hc | ⟨d, hd, hrev⟩
      · exact .inl (by rw [hs']; exact hc)
      · exact .inr ⟨d, hmem d hd, by rw [hrev, hs']⟩
    case serial => exact fun i j hi hj => hs.serial i j (hrunning i hi) (hrunning j hj)
    case free =>
      intro hfree j hj
      refine hs.free ?_ j (hrunning j hj)
      rw [hs'] at hfree
      exact hfree
    case failures => rw [hs']; exact hs.failures
  · intro p
    refine ⟨hlater, by rw [hs'], fun hheld => ?_⟩
    refine ⟨by rw [hs']; exact hheld, by rw [hs'], by rw [hs'], hlen, fun j y hy hne => ?_, hrunning,
      fun j d hj hsucc hd => ?_⟩
    · refine (hst j y).mpr (.inr ⟨?_, hy⟩)
      rintro rfl
      exact hne (Option.some.inj (hy.symm.trans hrun))
    · rcases (hst j _).mp hsucc with ⟨-, heq⟩ | ⟨-, hj'⟩
      · rw [hper, ← heq, if_pos rfl, hd]
        exact List.mem_append_left _ (by simp)
      · have := hj.symm.trans hj'
        simp at this

/-! ### Every run -/

/-- What a coroutine that has returned has been promised. -/
def Returned (_ : Pid) : Ending → State ρ × Hist ρ → Prop
  | .durable r, w => r ≤ w.1.confirmedRevision
  | .confirmed r, w => r ≤ w.1.confirmedRevision
  | _, _ => True

theorem runs_ending {r : Routine α} {f : α → Ending}
    (h : Runs p r (fun a s => ∀ hist, Returned p (f a) (s, hist)) (fun _ _ => True) s)
    (hist : Hist ρ) : (r.ending f).Safe (contract ρ p) (Returned p) (s, hist) := by
  refine Prog.Safe.bind (Prog.Safe.mono (h hist) fun a w hw => ?_)
  cases a with
  | ok a => exact hw w.2
  | error e => trivial

theorem sound : Machine.Sound (M := coordinator ρ) {} Inv Rely Guar Returned where
  rely_trans _ _ _ _ h h' := h.trans h'
  guar_rely p q s s' hq h := h.others q hq
  job p j s prog s' hs hj := by
    obtain ⟨rfl, rfl⟩ := Prod.mk.inj (Option.some.inj hj)
    refine ⟨hs, ⟨.refl s, fun q _ => .refl q s⟩, ?_⟩
    cases j with
    | checkpoint r =>
        refine runs_ending ?_ []
        exact Runs.mono (runs_checkpoint r s) (fun _ _ _ _ => trivial) fun _ _ h => h
    | ensureDurable r =>
        refine runs_ending ?_ []
        exact Runs.mono (runs_ensureDurable r s) (fun _ _ h _ => h) fun _ _ h => h
    | waitUntilConfirmed r =>
        refine runs_ending ?_ []
        exact Runs.mono (runs_waitUntilConfirmed r s) (fun _ _ h _ => h) fun _ _ h => h
    | background =>
        refine runs_ending ?_ []
        exact Runs.mono (runs_background s) (fun _ _ _ _ => trivial) fun _ _ h => h
  event e s s' hs _ he := by
    cases e with
    | write skip body =>
        have hlater := later_write skip body he
        refine ⟨inv_write skip body hs he, fun _ p => ?_⟩
        obtain rfl := Option.some.inj he
        exact ⟨hlater, rfl, fun hheld => ⟨hheld, rfl, rfl, rfl, fun _ _ hx _ => hx, fun _ hi => hi,
          (Undisturbed.refl hheld).succeeded⟩⟩
    | commitEnds i x =>
        obtain ⟨hinv, hrely⟩ := inv_commitEnds hs he
        exact ⟨hinv, fun _ => hrely⟩

theorem keeps_true (w : Pool Pid Call.Out Ending (State ρ)) (acts : List (coordinator ρ).Act) :
    Machine.keeps (M := coordinator ρ) {} w acts = true := by
  induction acts generalizing w with
  | nil => rfl
  | cons a acts ih =>
      have hmeets : Machine.meets (M := coordinator ρ) {} w a = true := by
        unfold Machine.meets
        split
        · split
          · split <;> rfl
          · rfl
        · rfl
        · rfl
      simp only [Machine.keeps, hmeets, Bool.true_and]
      cases (coordinator ρ).step w a with
      | none => rfl
      | some w' => exact ih w'

/-- A process that opens the database `d`. -/
def boot (d : Database ρ) : Pool Pid Call.Out Ending (State ρ) := ⟨.init d, fun _ => none⟩

theorem ok_boot (d : Database ρ) :
    Machine.Ok (M := coordinator ρ) {} Inv Rely Guar Returned (boot d) := by
  refine ⟨?_, fun _ _ _ _ h => by simp [boot] at h⟩
  constructor
  case db => exact ⟨Nat.le_refl _, rfl⟩
  case confirmed => exact .inl rfl
  all_goals simp [boot, State.init, Status]

/-- An act that changes `confirmed_revision` is the confirmation of a checkpoint. -/
theorem confirmed_moves {w w' : Pool Pid Call.Out Ending (State ρ)} {a : (coordinator ρ).Act}
    (h : (coordinator ρ).step w a = some w')
    (hne : w'.shared.confirmedRevision ≠ w.shared.confirmedRevision) :
    ∃ p o, a = .call p o ∧ w'.shared.moved p = true := by
  cases a with
  | start p j =>
      simp only [Machine.step] at h
      split at h
      next =>
        obtain ⟨⟨prog, s'⟩, hj, rfl⟩ := Option.map_eq_some_iff.mp h
        obtain ⟨-, rfl⟩ := Prod.mk.inj (Option.some.inj hj)
        exact absurd rfl hne
      next => simp at h
  | event e =>
      simp only [Machine.step] at h
      obtain ⟨s', he, rfl⟩ := Option.map_eq_some_iff.mp h
      cases e with
      | write skip body =>
          obtain rfl := Option.some.inj he
          exact absurd rfl hne
      | commitEnds i x =>
          obtain ⟨-, -, -, -, hs', -⟩ := commitEnds_cases he
          refine absurd ?_ hne
          show s'.confirmedRevision = _
          rw [hs']
  | call p o =>
      refine ⟨p, o, rfl, ?_⟩
      simp only [Machine.step] at h
      split at h
      next c k hist _ =>
        obtain ⟨⟨r, s'⟩, ho, rfl⟩ := Option.map_eq_some_iff.mp h
        cases c
        case confirm n =>
          obtain ⟨-, rfl⟩ := Prod.mk.inj (Option.some.inj ho)
          exact Function.update_self _ _ _
        all_goals
          refine absurd ?_ hne
          simp only [coordinator, State.answer] at ho
          repeat' split at ho
          all_goals first
            | (obtain ⟨-, rfl⟩ := Prod.mk.inj (Option.some.inj ho); rfl)
            | simp at ho
      next => simp at h

/-- Checkpoint safety, along every schedule of writes, checkpoints, waiters, failures
and cancellations. -/
theorem checkpoint_safety {d : Database ρ} {acts later : List (coordinator ρ).Act}
    {w w' : Pool Pid Call.Out Ending (State ρ)} (h : (coordinator ρ).run (boot d) acts = some w)
    (h' : (coordinator ρ).run w later = some w') :
    -- (a) The confirmed revision does not decrease, and a commit has persisted it.
    (w.shared.confirmedRevision ≤ w'.shared.confirmedRevision ∧
      (0 ≤ w.shared.confirmedRevision →
        ∃ snap ∈ w.shared.persisted, (snap.revision : Int) = w.shared.confirmedRevision)) ∧
    -- (b) A revision names one content, that of the writes up to it.
    ((w.shared.db.revision = w'.shared.db.revision → w.shared.db.rows = w'.shared.db.rows) ∧
      (w.shared.db.rows = replay d.rows (upTo w.shared.db.revision w.shared.log)) ∧
      ∀ snap ∈ w.shared.persisted, snap ∈ w'.shared.persisted ∧
        snap.rows = replay d.rows (upTo snap.revision w'.shared.log)) ∧
    -- (c) The waiters return only when their revision is confirmed.
    (∀ p r hist, w.threads p = some ⟨.ret (.durable r), hist⟩ ∨
        w.threads p = some ⟨.ret (.confirmed r), hist⟩ → r ≤ w.shared.confirmedRevision) ∧
    -- (d) Commits do not overlap, and a checkpoint that raised has confirmed nothing.
    (∀ i j, Status w.shared i .running → Status w.shared j .running → i = j) ∧
    (∀ f ∈ w.shared.failures, f.2 = false) ∧
    ∀ a w'', (coordinator ρ).step w a = some w'' →
      w''.shared.confirmedRevision ≠ w.shared.confirmedRevision →
      ∃ p o, a = .call p o ∧ w''.shared.moved p = true := by
  have hok := sound.run Rely.refl (ok_boot d) (keeps_true _ _) h
  have hok' := sound.run Rely.refl hok (keeps_true _ _) h'
  have heff : ∀ s s' : State ρ, Machine.Effect (M := coordinator ρ) {} Inv Guar s s' → Later s s' := by
    intro s s' he
    cases he with
    | thread p hg => exact hg.later
    | event e hinv hK he => exact ((sound.event e s s' hinv hK he).2 rfl 0).later
  have hstart := (sound.run_rel Rely.refl Later.refl (fun _ _ _ => Later.trans) heff (ok_boot d)
    (keeps_true _ _) h).start
  have hlater := sound.run_rel Rely.refl Later.refl (fun _ _ _ => Later.trans) heff hok
    (keeps_true _ _) h'
  have hd : w.shared.start.rows = d.rows := by
    rw [hstart]
    rfl
  refine ⟨⟨hlater.confirmed, fun hr => ?_⟩, ⟨hlater.rows, ?_, ?_⟩, ?_, hok.1.serial, hok.1.failures,
    fun a w'' => confirmed_moves⟩
  · rcases hok.1.confirmed with hc | hc
    · rw [hc] at hr
      exact absurd hr (by decide)
    · exact hc
  · rw [← hd]
    exact hok.1.db.2
  · intro snap hsnap
    have hsnap' := hlater.persisted snap hsnap
    refine ⟨hsnap', ?_⟩
    rw [← hd, ← hlater.start]
    exact (hok'.1.persisted snap hsnap').2
  · have hpost := sound.run_post Rely.refl (fun p e s hist s' hp he => ?_) (ok_boot d)
      (fun p e hist hret => by simp [boot] at hret) (keeps_true _ _) h
    · intro p r hist hret
      rcases hret with hret | hret
      · exact hpost p _ hist hret
      · exact hpost p _ hist hret
    · have hmono := (heff s s' he).confirmed
      cases e with
      | durable r => exact Int.le_trans hp hmono
      | confirmed r => exact Int.le_trans hp hmono
      | _ => trivial

/-! ### A checkpoint that is cancelled, and one that is not -/

/-- The next call of coroutine `p`, not cancelled; loops get `3` rounds. -/
def go (p : Pid) : (coordinator Nat).Act :=
  .call p { cancel := false, failure := none, replaced := false, rounds := 3 }

/-- The next call of coroutine `p` is a wait, and is cancelled. -/
def cancel (p : Pid) : (coordinator Nat).Act :=
  .call p { cancel := true, failure := none, replaced := false, rounds := 3 }

/-- A row is written. Coroutine 0 asks for its durability and is cancelled while the
commit runs; the commit ends well, but confirms nothing. Then coroutine 1 asks. -/
def cancelledThenConfirmed : List (coordinator Nat).Act :=
  [.event (.write false [.insert 7]), .start 0 (.ensureDurable 1)] ++ List.replicate 7 (go 0) ++
    [cancel 0, go 0, go 0, .event (.commitEnds 0 .succeeded)] ++ List.replicate 4 (go 0) ++
    [.start 1 (.ensureDurable 1)] ++ List.replicate 7 (go 1) ++
    [.event (.commitEnds 1 .succeeded)] ++ List.replicate 6 (go 1)

/-- Coroutine `p` was cancelled. -/
def wasCancelled (p : Pid) (w : Pool Pid Call.Out Ending (State Nat)) : Bool :=
  match w.threads p with
  | some ⟨.ret (.raised .cancelled), _⟩ => true
  | _ => false

theorem checkpoint_safety_cancelled :
    ∃ w hist, (coordinator Nat).run (boot ⟨0, []⟩) cancelledThenConfirmed = some w ∧
      w.threads 0 = some ⟨.ret (.raised .cancelled), hist⟩ ∧
      w.shared.confirmedRevision = 1 ∧ w.shared.failures = [(0, false)] ∧
      ∃ snap ∈ w.shared.persisted, (snap.revision : Int) = w.shared.confirmedRevision := by
  have hrun : ((coordinator Nat).run (boot ⟨0, []⟩) cancelledThenConfirmed).any (fun w =>
      wasCancelled 0 w && w.shared.confirmedRevision == 1 &&
        w.shared.failures == [(0, false)]) = true := by decide +kernel
  obtain ⟨w, hw, hp⟩ := (Option.any_eq_true _ _).mp hrun
  simp only [Bool.and_eq_true, beq_iff_eq] at hp
  obtain ⟨⟨hret, hc⟩, hf⟩ := hp
  have hstay : (coordinator Nat).run w [] = some w := rfl
  obtain ⟨⟨-, hsnap⟩, -⟩ := checkpoint_safety hw hstay
  unfold wasCancelled at hret
  split at hret
  next hist hth => exact ⟨w, hist, hw, hth, hc, hf, hsnap (by rw [hc]; decide)⟩
  next => simp at hret

end GgAgent.Checkpoint
