import GgAgent.Sandbox.Stream

/-!
The control state of a conversation over all its calls: which of them may change what, and
what each of them has done when it returns.

The threads are calls of the methods of `LocalConversation`; a restart of the process ends
them all and leaves the database. The fields that are changed under the control lock are
the *face* of the state. Who holds the lock has the face to himself; who set the status to
`running` keeps it until he sets another one himself.
-/

namespace GgAgent.Stream

open GgAgent.Lib
open GgAgent.Lib.Co (attempt Safe)
open GgAgent.Sandbox (ConversationStatus Operation allowedTransition)

/-! ### The machine -/

/-- What a method returns. -/
inductive Value
  | nothing
  | event (e : Event)
  | receipt (r : MessageReceipt)
  deriving DecidableEq, Repr

def Method.program : Method → Routine Value
  | .sendMessage text => do
    let event ← Stream.sendMessage text
    pure (.event event)
  | .steer id text => do
    let receipt ← Stream.steer id text
    pure (.receipt receipt)
  | .cancel => do
    conversationCancel
    pure .nothing
  | .run => do
    conversationRun
    pure .nothing

/-- `LocalConversation.open`, in a new process. -/
def State.reopened (controllable : Bool) (s : State) : State :=
  { State.opened [] (if s.status = .running then .error else s.status) controllable with
    log := s.log
    receipts := s.receipts
    steered := s.steered }

/-- An event is a restart, with the new backend. -/
def conversation : Machine Pid Call.Out (Except Exn Value) State where
  Oracle := Oracle
  Job := Unit
  Event := Bool
  answer := State.answer
  job p _ s :=
    match p with
    | .caller _ method => some (method.program.run, s)
    | _ => none
  event controllable s := some (s.reopened controllable)
  kills _ := true

abbrev Calls := Pool Pid Call.Out (Except Exn Value) State

/-- A new conversation. -/
def Calls.created (controllable : Bool) : Calls := ⟨.opened [] .idle controllable, fun _ => none⟩

abbrev History := List (Entry Call.Out State)

/-! ### What is under the control lock -/

structure Face where
  status : ConversationStatus
  accepting : Bool
  cancelling : Bool
  controllable : Bool
  receipts : List MessageReceipt
  setBy : Option Pid
  cancels : Nat
  closed : Bool
  steered : List String

def State.face (s : State) : Face :=
  ⟨s.status, s.accepting, s.cancelling, s.controllable, s.receipts, s.setBy, s.cancels, s.closed,
    s.steered⟩

/-- The receipt of a message. -/
def Face.receipt (id : String) (f : Face) : Option MessageReceipt :=
  f.receipts.find? fun r => r.id = id

/-- Nobody but the run itself changes this status. -/
def Firm (status : ConversationStatus) : Prop := status = .running ∨ status = .cancelled

instance (status : ConversationStatus) : Decidable (Firm status) :=
  inferInstanceAs (Decidable (_ ∨ _))

structure Face.Inv (f : Face) : Prop where
  nodup : f.steered.Nodup
  stored : ∀ id ∈ f.steered, f.receipt id ≠ none
  accepting : f.accepting = true → f.closed = false
  cancelling : f.cancelling = true ↔ 0 < f.cancels

/-- What stays for the call `p` when others change the face. -/
structure Face.Rely (p : Pid) (f f' : Face) : Prop where
  firm : f.setBy = some p → Firm f.status → f'.setBy = some p
  foreign : f.setBy ≠ some p → f'.setBy ≠ some p
  status : f'.setBy = some p → f'.status = f.status
  accepting : f'.setBy = some p → f.accepting = false → f'.accepting = false

theorem Face.Rely.refl (p : Pid) (f : Face) : f.Rely p f :=
  ⟨fun h _ => h, fun h => h, fun _ => rfl, fun _ h => h⟩

theorem Face.Rely.trans {p : Pid} {f g k : Face} (h₁ : f.Rely p g) (h₂ : g.Rely p k) :
    f.Rely p k := by
  have hback : k.setBy = some p → g.setBy = some p := fun hk =>
    Decidable.byContradiction fun hg => h₂.foreign hg hk
  refine ⟨fun hf hfirm => ?_, fun hf => h₂.foreign (h₁.foreign hf), fun hk => ?_, fun hk hf => ?_⟩
  · have hg := h₁.firm hf hfirm
    exact h₂.firm hg (by rwa [h₁.status hg])
  · exact (h₂.status hk).trans (h₁.status (hback hk))
  · exact h₂.accepting hk (h₁.accepting (hback hk) hf)

/-- Receipts stay, with their messages. -/
def Face.Kept (f f' : Face) : Prop :=
  ∀ id x, f.receipt id = some x → ∃ x', f'.receipt id = some x' ∧ x'.content = x.content

theorem Face.Kept.refl (f : Face) : f.Kept f := fun _ x h => ⟨x, h, rfl⟩

theorem Face.Kept.trans {f g k : Face} (h₁ : f.Kept g) (h₂ : g.Kept k) : f.Kept k := by
  intro id x hx
  obtain ⟨y, hy, hcontent⟩ := h₁ id x hx
  obtain ⟨z, hz, hcontent'⟩ := h₂ id y hy
  exact ⟨z, hz, hcontent'.trans hcontent⟩

/-- The changes of the face. -/
def Face.after (p : Pid) : Call → Face → Face
  | .setStatus status, f =>
    { f with status := status, setBy := some p, closed := f.closed && status ≠ .running }
  | .setAccepting b, f => { f with accepting := b }
  | .settle, f => { f with accepting := false, closed := true }
  | .setCancelling, f =>
    { f with accepting := false, cancelling := true, closed := true, cancels := f.cancels + 1 }
  | .saveReceipt r, f => { f with receipts := r :: f.receipts.filter fun x => x.id ≠ r.id }
  | .backendSteer id _, f => { f with steered := f.steered ++ [id] }
  | _, f => f

theorem face_answer {p : Pid} {o : Oracle} {c : Call} {s s' : State} {a : c.Out}
    (h : State.answer p o c s = some (a, s')) : s'.face = s.face.after p c := by
  cases c <;> simp only [State.answer] at h <;> repeat' split at h
  all_goals first
    | (cases h; rfl)
    | cases h

/-- The lock after a call. -/
theorem control_answer {p : Pid} {o : Oracle} {c : Call} {s s' : State} {a : c.Out}
    (h : State.answer p o c s = some (a, s')) :
    s'.control = match c with
      | .acquire => some p
      | .release => none
      | _ => s.control := by
  cases c <;> simp only [State.answer] at h <;> repeat' split at h
  all_goals first
    | (cases h; rfl)
    | cases h

/-! ### What a call may do -/

/-- When the call is in order. -/
def Permits (p : Pid) : Call → State → Prop
  | .acquire, _ | .look, _ | .loadReceipt _, _ | .persist _ _, _ | .notify _, _ => True
  | .backend, _ | .backendCancel, _ | .rounds, _ | .never, _ => True
  | .release, s | .settle, s | .setCancelling, s => s.control = some p
  | .setStatus _, s => s.control = some p ∧ (Firm s.status → s.setBy = some p)
  | .setAccepting _, s => s.control = some p ∧ s.setBy = some p ∧ s.closed = false
  | .saveReceipt r, s =>
    s.control = some p ∧ ∀ x, s.face.receipt r.id = some x → x.content = r.content
  | .backendSteer id _, s => s.control = some p ∧ s.face.receipt id ≠ none ∧ id ∉ s.steered
  | _, _ => False

/-- What the others leave to the call `p`. -/
structure Rely (p : Pid) (s s' : State) : Prop where
  held : s.control = some p → s'.control = some p ∧ s'.face = s.face
  face : s.face.Rely p s'.face

structure Guar (p : Pid) (s s' : State) : Prop where
  others : ∀ q, q ≠ p → Rely q s s'
  kept : s.face.Kept s'.face

theorem Rely.refl (p : Pid) (s : State) : Rely p s s := ⟨fun h => ⟨h, rfl⟩, .refl p _⟩

theorem Rely.trans {p : Pid} {a b c : State} (h₁ : Rely p a b) (h₂ : Rely p b c) : Rely p a c := by
  refine ⟨fun ha => ?_, h₁.face.trans h₂.face⟩
  obtain ⟨hb, hface⟩ := h₁.held ha
  obtain ⟨hc, hface'⟩ := h₂.held hb
  exact ⟨hc, hface'.trans hface⟩

/-- The receipts after one is saved. -/
theorem receipt_save (p : Pid) (r : MessageReceipt) (f : Face) (id : String) :
    (f.after p (.saveReceipt r)).receipt id = if r.id = id then some r else f.receipt id := by
  simp only [Face.after, Face.receipt, List.find?_cons]
  by_cases hid : r.id = id
  · simp [hid]
  · simp only [hid, decide_false, if_false, List.find?_filter]
    congr 1
    funext x
    by_cases hx : x.id = id
    · simp [hx, Ne.symm hid]
    · simp [hx]

theorem kept_after {p : Pid} {c : Call} {s : State} (hc : Permits p c s) :
    s.face.Kept (s.face.after p c) := by
  intro id x hx
  cases c with
  | saveReceipt r =>
      rw [receipt_save]
      by_cases hid : r.id = id
      · subst hid
        exact ⟨r, by simp, (hc.2 x hx).symm⟩
      · exact ⟨x, by simp [hid, hx], rfl⟩
  | _ => exact ⟨x, hx, rfl⟩

theorem inv_after {p : Pid} {c : Call} {s : State} (hs : s.face.Inv) (hc : Permits p c s) :
    (s.face.after p c).Inv := by
  obtain ⟨hnodup, hstored, haccepting, hcancelling⟩ := hs
  cases c with
  | setStatus status =>
      refine ⟨hnodup, hstored, fun ha => ?_, hcancelling⟩
      simp [Face.after, haccepting ha]
  | setAccepting b => exact ⟨hnodup, hstored, fun _ => hc.2.2, hcancelling⟩
  | settle => exact ⟨hnodup, hstored, fun h => (Bool.false_ne_true h).elim, hcancelling⟩
  | setCancelling =>
      refine ⟨hnodup, hstored, fun h => (Bool.false_ne_true h).elim, ?_⟩
      simp [Face.after]
  | saveReceipt r =>
      refine ⟨hnodup, fun id hid => ?_, haccepting, hcancelling⟩
      rw [receipt_save]
      split
      · simp
      · exact hstored id hid
  | backendSteer id text =>
      obtain ⟨-, hsome, hnew⟩ := hc
      refine ⟨?_, fun j hj => ?_, haccepting, hcancelling⟩
      · exact List.nodup_append.mpr ⟨hnodup, List.nodup_singleton id, fun a ha b hb => by
          rw [List.mem_singleton.mp hb]
          exact fun hab => hnew (hab ▸ ha)⟩
      · rcases List.mem_append.mp hj with hj | hj
        · exact hstored j hj
        · rw [List.mem_singleton.mp hj]
          exact hsome
  | _ => exact ⟨hnodup, hstored, haccepting, hcancelling⟩

/-- What a call in order leaves to another call. -/
theorem rely_after {p q : Pid} {c : Call} {s : State} (hq : q ≠ p) (hc : Permits p c s) :
    s.face.Rely q (s.face.after p c) := by
  have hpq : some p ≠ some q := fun h => hq (Option.some.inj h).symm
  cases c with
  | setStatus status =>
      refine ⟨fun hset hfirm => absurd (hset.symm.trans (hc.2 hfirm)) hpq.symm, fun _ => hpq,
        fun h => absurd h hpq, fun h => absurd h hpq⟩
  | setAccepting b =>
      have hset : s.face.setBy = some p := hc.2.1
      refine ⟨fun h _ => h, fun h => h, fun _ => rfl, fun h => ?_⟩
      exact absurd (hset.symm.trans h) hpq
  | settle | setCancelling => exact ⟨fun h _ => h, fun h => h, fun _ => rfl, fun _ _ => rfl⟩
  | _ => exact ⟨fun h _ => h, fun h => h, fun _ => rfl, fun _ h => h⟩

theorem held_after {p q : Pid} {o : Oracle} {c : Call} {s s' : State} {a : c.Out} (hq : q ≠ p)
    (hc : Permits p c s) (ha : State.answer p o c s = some (a, s')) (hheld : s.control = some q) :
    s'.control = some q ∧ s'.face = s.face := by
  have hne : s.control ≠ some p := fun h => hq (Option.some.inj (hheld.symm.trans h))
  have hcontrol := control_answer ha
  have hface := face_answer ha
  cases c with
  | acquire =>
      simp only [State.answer] at ha
      split at ha
      next hnone => rw [hheld] at hnone; cases hnone
      next => cases ha
  | release | settle | setCancelling => exact absurd hc hne
  | setStatus | setAccepting | saveReceipt | backendSteer => exact absurd hc.1 hne
  | _ => exact ⟨hcontrol.trans hheld, hface⟩

/-- A call in order keeps the invariant and the guarantee. -/
theorem permitted {p : Pid} {o : Oracle} {c : Call} {s s' : State} {a : c.Out} (hs : s.face.Inv)
    (hc : Permits p c s) (ha : State.answer p o c s = some (a, s')) :
    s'.face.Inv ∧ Guar p s s' := by
  refine ⟨?_, fun q hq => ⟨held_after hq hc ha, ?_⟩, ?_⟩
  · rw [face_answer ha]
    exact inv_after hs hc
  · rw [face_answer ha]
    exact rely_after hq hc
  · rw [face_answer ha]
    exact kept_after hc

/-! ### Rules for the programs -/

/-- The contract of a call of a method. -/
abbrev E (p : Pid) := Machine.contract (M := conversation) {} (fun s => s.face.Inv) Rely Guar p

section Rules

variable {p : Pid} {w : State × History} {α : Type}

theorem safe_ask {c : Call} {Q : c.Out → State × History → Prop} {exn : Exn → State × History → Prop}
    (hQ : ∀ o s s' a, s.face.Inv → Rely p w.1 s → State.answer p o c s = some (a, s') →
      Permits p c s ∧ (s'.face.Inv → Q a (s', ⟨c, a, s⟩ :: w.2))) : Safe (E p) (ask c) Q exn w := by
  rintro ⟨s, h⟩ hinv ⟨hrely, hh⟩ a ⟨s', h'⟩ ⟨-, ⟨o, ha⟩, hh'⟩
  obtain rfl : h = w.2 := hh
  obtain rfl : h' = ⟨c, a, s⟩ :: w.2 := hh'
  obtain ⟨hc, hpost⟩ := hQ o s s' a hinv hrely ha
  obtain ⟨hinv', hguar⟩ := permitted hinv hc ha
  exact ⟨hinv', ⟨hguar, Machine.Cond.last_trivial _ _⟩, hpost hinv'⟩

/-- An assertion that the others leave alone. -/
def Stable (p : Pid) (A : State → Prop) : Prop := ∀ s s', A s → Rely p s s' → A s'

/-- The calls that change neither the face nor the lock. -/
def Call.plain : Call → Bool
  | .look | .loadReceipt _ | .persist _ _ | .notify _ | .backend | .backendCancel | .rounds
  | .never => true
  | _ => false

theorem Call.plain_spec {c : Call} (hc : c.plain = true) {o : Oracle} {s s' : State} {a : c.Out}
    (ha : State.answer p o c s = some (a, s')) :
    Permits p c s ∧ s'.control = s.control ∧ s'.face = s.face := by
  have hcontrol := control_answer ha
  have hface := face_answer ha
  cases c <;> first
    | exact ⟨trivial, hcontrol, hface⟩
    | cases hc

/-- The rule for a call that changes neither the face nor the lock. -/
theorem safe_plain {c : Call} {A : State → Prop} (hA : Stable p A) (hc : c.plain = true) (hw : A w.1)
    {Q : c.Out → State × History → Prop} {exn : Exn → State × History → Prop}
    (hQ : ∀ o s s' a, A s → A s' → State.answer p o c s = some (a, s') →
      Q a (s', ⟨c, a, s⟩ :: w.2)) : Safe (E p) (ask c) Q exn w := by
  refine safe_ask fun o s s' a _ hrely ha => ?_
  obtain ⟨hpermits, hcontrol, hface⟩ := Call.plain_spec hc ha
  have hs : A s := hA _ _ hw hrely
  have hs' : A s' := by
    refine hA _ _ hs ⟨fun hp => ⟨hcontrol.trans hp, hface⟩, ?_⟩
    rw [hface]
    exact .refl p _
  exact ⟨hpermits, fun _ => hQ o s s' a hs hs' ha⟩

/-- The call `p` has the lock, and the face is this one. -/
structure Holds (p : Pid) (f : Face) (s : State) : Prop where
  control : s.control = some p
  face : s.face = f

theorem stable_holds (p : Pid) (f : Face) : Stable p (Holds p f) := by
  intro s s' hs hrely
  obtain ⟨hcontrol, hface⟩ := hrely.held hs.control
  exact ⟨hcontrol, hface.trans hs.face⟩

/-- The rule for a change of the face, with the lock. -/
theorem safe_held {c : Call} {f : Face} (hc : c ≠ .acquire ∧ c ≠ .release) (hw : Holds p f w.1)
    {Q : c.Out → State × History → Prop} {exn : Exn → State × History → Prop}
    (hpermits : ∀ s, Holds p f s → s.face.Inv → Permits p c s)
    (hQ : ∀ a s s', Holds p f s → Holds p (f.after p c) s' → Q a (s', ⟨c, a, s⟩ :: w.2)) :
    Safe (E p) (ask c) Q exn w := by
  refine safe_ask fun o s s' a hinv hrely ha => ?_
  have hs := stable_holds p f _ _ hw hrely
  refine ⟨hpermits s hs hinv, fun _ => hQ a s s' hs ⟨?_, ?_⟩⟩
  · have hcontrol := control_answer ha
    rw [hs.control] at hcontrol
    split at hcontrol
    next => exact absurd rfl hc.1
    next => exact absurd rfl hc.2
    next => exact hcontrol
  · rw [face_answer ha, hs.face]

/-- At the end of a critical section, with `Q` after the release. -/
def Released (p : Pid) (Q : State × History → Prop) (w : State × History) : Prop :=
  w.1.control = some p ∧ ∀ s s', s.face = w.1.face → s'.face = w.1.face → s'.face.Inv →
    Q (s', ⟨.release, (), s⟩ :: w.2)

theorem safe_release {Q : State × History → Prop} {exn : Exn → State × History → Prop}
    (hw : Released p Q w) : Safe (E p) (ask .release) (fun _ => Q) exn w := by
  refine safe_ask fun o s s' a hinv hrely ha => ?_
  obtain ⟨hcontrol, hface⟩ := hrely.held hw.1
  refine ⟨hcontrol, fun hinv' => hw.2 s s' hface ?_ hinv'⟩
  rw [face_answer ha]
  exact hface

/-- The rule for `with self._control_lock`. -/
theorem safe_withControl {body : Routine α} {post : α → State × History → Prop}
    {exn : Exn → State × History → Prop}
    (hbody : ∀ s s', Rely p w.1 s → s.face.Inv → Holds p s.face s' →
      Safe (E p) body (fun a => Released p (post a)) (fun e => Released p (exn e))
        (s', ⟨.acquire, .ok (), s⟩ :: w.2)) : Safe (E p) (withControl body) post exn w := by
  refine Safe.bind ?_
  rintro ⟨s, h⟩ hinv ⟨hrely, hh⟩ a ⟨s', h'⟩ ⟨-, ⟨o, ha⟩, hh'⟩
  obtain rfl : h = w.2 := hh
  obtain rfl : h' = ⟨.acquire, a, s⟩ :: w.2 := hh'
  have ha' : State.answer p o .acquire s = some (a, s') := ha
  obtain ⟨hinv', hguar⟩ := permitted (c := .acquire) hinv trivial ha'
  refine ⟨hinv', ⟨hguar, Machine.Cond.last_trivial _ _⟩, ?_⟩
  have hholds : Holds p s.face s' := ⟨control_answer ha', face_answer ha'⟩
  have hok : a = .ok () := by
    simp only [State.answer] at ha'
    split at ha' <;> cases ha'
    rfl
  subst hok
  refine Safe.seq (Q := fun r => Released p (Co.Either post exn r)) (Safe.attempt (hbody s s' hrely hinv hholds)) ?_
  intro r w₁ hw₁
  refine Safe.seq (safe_release hw₁) fun _ w₂ hw₂ => ?_
  cases r with
  | ok a => exact hw₂
  | error e => exact hw₂

theorem safe_appendEvent {kind : EventKind} {payload : Payload} {A : State → Prop}
    (hA : Stable p A) (hw : A w.1) {Q : Event → State × History → Prop}
    {exn : Exn → State × History → Prop}
    (hQ : ∀ e s s₁ s₂, A s →
      Q e (s, ⟨.notify e, (), s₁⟩ :: ⟨.persist kind payload, e, s₂⟩ :: w.2)) :
    Safe (E p) (appendEvent kind payload) Q exn w := by
  refine Safe.bind (safe_plain hA rfl hw fun o s₂ s e _ hs _ => ?_)
  refine Safe.bind (safe_plain hA rfl hs fun o s₁ s' a _ hs' _ => ?_)
  exact hQ e s' s₁ s₂ hs'

theorem safe_transition {op : Operation} {f : Face} (hw : Holds p f w.1)
    {Q : ConversationStatus → State × History → Prop} {exn : Exn → State × History → Prop}
    (hok : ∀ l s s', allowedTransition f.status op ≠ none → Holds p f s' →
      Q f.status (s', ⟨.look, l, s⟩ :: w.2))
    (hno : ∀ l s s', allowedTransition f.status op = none → Holds p f s' →
      exn (.invalidConversationState f.status.value op.value) (s', ⟨.look, l, s⟩ :: w.2)) :
    Safe (E p) (transition op) Q exn w := by
  refine Safe.bind (safe_plain (stable_holds p f) rfl hw fun o s s' l hs hs' ha => ?_)
  have hlook : l.status = f.status := by
    obtain ⟨rfl, -⟩ := Prod.mk.inj (Option.some.inj ha)
    exact congrArg Face.status hs.face
  rw [hlook]
  cases hallowed : allowedTransition f.status op with
  | some next => exact hok l s s' (by simp [hallowed]) hs'
  | none => exact hno l s s' hallowed hs'

theorem safe_applyStatus {status : ConversationStatus} {f : Face} (hw : Holds p f w.1)
    (hfirm : Firm f.status → f.setBy = some p) {Q : Unit → State × History → Prop}
    {exn : Exn → State × History → Prop}
    (hQ : ∀ e s s₁ s₂ s₃, Holds p (f.after p (.setStatus status)) s →
      Q () (s, ⟨.notify e, (), s₁⟩ :: ⟨.persist .status [("status", status.value)], e, s₂⟩ ::
        ⟨.setStatus status, (), s₃⟩ :: w.2)) : Safe (E p) (applyStatus status) Q exn w := by
  refine Safe.bind (safe_held (by simp) hw (fun s hs _ => ⟨hs.control, ?_⟩)
    fun a s₃ s hs₃ hs => ?_)
  · rw [show s.status = f.status from congrArg Face.status hs.face,
      show s.setBy = f.setBy from congrArg Face.setBy hs.face]
    exact hfirm
  · exact Safe.bind (safe_appendEvent (stable_holds p _) hs fun e s' s₁ s₂ hs' => hQ e s' s₁ s₂ s₃ hs')

/-- The rule for `_begin_settling`. -/
theorem safe_beginSettling {A : State → Prop} (hA : Stable p A)
    (hsettle : ∀ s s', A s → s'.face = s.face.after p .settle → A s') (hw : A w.1)
    {Q : Unit → State × History → Prop} {exn : Exn → State × History → Prop}
    (hQ : ∀ s s₁ s₂ s₃, A s → s.accepting = false → s.face.Inv →
      Q () (s, ⟨.release, (), s₁⟩ :: ⟨.settle, (), s₂⟩ :: ⟨.acquire, .ok (), s₃⟩ :: w.2)) :
    Safe (E p) beginSettling Q exn w := by
  refine safe_withControl fun s₃ s hrely _ hholds => ?_
  refine safe_held (by simp) hholds (fun s hs _ => hs.control) fun a s₂ s' hs₂ hs' => ?_
  refine ⟨hs'.control, fun s₁ s'' _ hface hinv => ?_⟩
  have hafter : s''.face = s₃.face.after p .settle := hface.trans hs'.face
  exact hQ s'' s₁ s₂ s₃ (hsettle s₃ s'' (hA _ _ hw hrely) hafter) (congrArg Face.accepting hafter) hinv

end Rules

/-! ### The methods -/

section Methods

variable {p : Pid} {w : State × History}

/-- The status, unless it was changed after the call `p`. -/
def Marked (p : Pid) (status : ConversationStatus) (s : State) : Prop :=
  s.setBy = some p → s.status = status

theorem stable_marked (p : Pid) (status : ConversationStatus) : Stable p (Marked p status) := by
  intro s s' hs hrely hset
  have hset₀ : s.setBy = some p := Decidable.byContradiction fun h => hrely.face.foreign h hset
  exact (hrely.face.status hset).trans (hs hset₀)

/-- The status is the one that the call `p` has set, and nobody else may change it. -/
structure Turn (p : Pid) (status : ConversationStatus) (s : State) : Prop where
  setBy : s.setBy = some p
  status : s.status = status

theorem stable_turn {status : ConversationStatus} (hfirm : Firm status) :
    Stable p (Turn p status) := by
  intro s s' hs hrely
  have hset := hrely.face.firm hs.setBy (by rw [show s.face.status = s.status from rfl, hs.status]; exact hfirm)
  exact ⟨hset, (hrely.face.status hset).trans hs.status⟩

/-- The turn, closed to messages. -/
structure Closed (p : Pid) (s : State) : Prop where
  turn : Turn p .running s
  accepting : s.accepting = false

theorem stable_closed : Stable p (Closed p) := by
  intro s s' hs hrely
  have hturn := stable_turn (.inl rfl) s s' hs.turn hrely
  exact ⟨hturn, hrely.face.accepting hturn.setBy hs.accepting⟩

/-- The last thing the backend did. -/
def ending : History → Option Backend
  | [] => none
  | ⟨.backend, b, _⟩ :: _ => some b
  | _ :: h => ending h

/-- The call has set the status to `running`. -/
def entered (h : History) : Bool :=
  h.any fun
    | ⟨.setStatus .running, _, _⟩ => true
    | _ => false

/-- Control state after a run. -/
structure Settled (s : State) : Prop where
  status : s.status = .finished ∨ s.status = .error ∨ s.status = .cancelled
  accepting : s.accepting = false
  cancelling : s.cancelling = false

/-- What is known when a run that had entered `running` exits. -/
def Exit (p : Pid) (s : State) (h : History) : Prop :=
  (s.setBy = some p →
    (Settled s ↔ (∀ name, ending h ≠ some (.raised name)) ∧ s.cancels = 0)) ∧
  (s.setBy ≠ some p → ∃ payload, ending h = some (.failed payload))

theorem cancelling_false_iff {s : State} (hinv : s.face.Inv) :
    s.cancelling = false ↔ s.cancels = 0 := by
  have hcancelling : s.cancelling = true ↔ 0 < s.cancels := hinv.cancelling
  rw [← Bool.not_eq_true, hcancelling]
  omega

theorem exit_of_marked {status : ConversationStatus} {s : State} {h : History} (hinv : s.face.Inv)
    (hover : status = .finished ∨ status = .error ∨ status = .cancelled)
    (hmark : Marked p status s) (haccepting : s.accepting = false)
    (hraised : ∀ name, ending h ≠ some (.raised name))
    (hleft : s.setBy ≠ some p → ∃ payload, ending h = some (.failed payload)) : Exit p s h := by
  refine ⟨fun hset => ?_, hleft⟩
  rw [← cancelling_false_iff hinv]
  constructor
  · exact fun hs => ⟨hraised, hs.cancelling⟩
  · rintro ⟨-, hcancelling⟩
    exact ⟨by rw [hmark hset]; exact hover, haccepting, hcancelling⟩

theorem safe_beginTurn (hw : w.2 = []) : Safe (E p) (withControl beginTurn)
    (fun _ w => Turn p .running w.1) (fun _ w => entered w.2 = false) w := by
  refine safe_withControl fun s₀ s _ hinv₀ hholds => ?_
  refine Safe.bind (safe_plain (stable_holds p s₀.face) rfl hholds fun o s₁ s l hs₁ hs ha => ?_)
  obtain ⟨rfl, rfl⟩ := Prod.mk.inj (Option.some.inj ha)
  have hstatus : s₁.status = s₀.status := congrArg Face.status hs₁.face
  split
  next =>
    refine ⟨hs.control, fun _ _ _ _ _ => ?_⟩
    simp [entered, hw]
  next hrun =>
    refine Safe.bind (safe_transition hs (fun l s₂ s hallowed hs => ?_) fun l s₂ s _ hs => ?_)
    · have hidle : ¬ Firm s₀.status := by
        rintro (hst | hst)
        · exact hrun (hstatus.trans hst)
        · exact hallowed (by rw [show s₀.face.status = s₀.status from rfl, hst]; rfl)
      refine Safe.bind (safe_applyStatus hs (fun hfirm => absurd hfirm hidle)
        fun e s s₃ s₄ s₅ hs => ?_)
      refine safe_held (by simp) hs (fun s hs _ => ⟨hs.control, ?_, ?_⟩) fun a s₆ s' _ hs' => ?_
      · exact congrArg Face.setBy hs.face
      · have hclosed : s.closed = _ := congrArg Face.closed hs.face
        simpa [Face.after] using hclosed
      · refine ⟨hs'.control, fun s'' s₇ _ hface _ => ?_⟩
        have hface' := hface.trans hs'.face
        exact ⟨congrArg Face.setBy hface', congrArg Face.status hface'⟩
    · refine ⟨hs.control, fun _ _ _ _ _ => ?_⟩
      simp [entered, hw]

/-- The rule for a transition of the run that holds the turn, and its status. -/
theorem safe_moveTo {op : Operation} {status : ConversationStatus} {A : State → Prop}
    (hA : ∀ s, A s → Turn p .running s) (hstable : Stable p A)
    (hallowed : allowedTransition .running op ≠ none) (hw : A w.1)
    {Q : Unit → State × History → Prop} {exn : Exn → State × History → Prop}
    (hQ : ∀ s₀ s h, A s₀ → s.face = s₀.face.after p (.setStatus status) → s.face.Inv →
      ending h = ending w.2 → Q () (s, h)) :
    Safe (E p) (moveTo op status) Q exn w := by
  refine safe_withControl fun s₀ s hrely _ hholds => ?_
  have hs₀ : A s₀ := hstable _ _ hw hrely
  have hrunning : s₀.face.status = .running := (hA s₀ hs₀).status
  refine Safe.bind (safe_transition hholds (fun l s₁ s _ hs => ?_) fun l s₁ s hno _ => ?_)
  · refine safe_applyStatus hs (fun _ => (hA s₀ hs₀).setBy) fun e s s₂ s₃ s₄ hs => ?_
    refine ⟨hs.control, fun s₅ s' _ hface hinv => ?_⟩
    exact hQ s₀ s' _ hs₀ (hface.trans hs.face) hinv rfl
  · rw [hrunning] at hno
    exact absurd hno hallowed

/-- What the backend does keeps the turn. -/
theorem safe_agentRun (hw : Turn p .running w.1) {exn : Exn → State × History → Prop} :
    Safe (E p) agentRun (fun how w => Turn p .running w.1 ∧ ending w.2 = some how) exn w := by
  have hstable : Stable p (Turn p .running) := stable_turn (.inl rfl)
  refine Safe.bind (safe_plain hstable rfl hw fun o s₀ s n _ hs _ => ?_)
  refine Safe.loopFrom (I := fun _ w => Turn p .running w.1) (fun w => ?_) (fun _ w hw => ?_) n () _ hs
  · intro s _ _ r
    cases r
  · refine Safe.bind (safe_plain hstable rfl hw fun o s₁ s how _ hs _ => ?_)
    cases how with
    | emit kind payload =>
        exact Safe.bind (safe_appendEvent hstable hs fun e s s₂ s₃ hs => hs)
    | settling =>
        refine Safe.bind (safe_beginSettling hstable (fun s s' hs hface => ?_) hs
          fun s s₂ s₃ s₄ hs _ _ => hs)
        exact ⟨(congrArg Face.setBy hface).trans hs.setBy,
          (congrArg Face.status hface).trans hs.status⟩
    | settled => exact ⟨hs, rfl⟩
    | cancelled => exact ⟨hs, rfl⟩
    | failed payload => exact ⟨hs, rfl⟩
    | raised name => exact ⟨hs, rfl⟩

/-- The rule for the `finally` clause, with what is known if `body` raises. -/
theorem safe_settling {body : Routine Unit} {A : State → Prop} (raises : Prop) (how : Backend)
    (hA : Stable p A) (hsettle : ∀ s s', A s → s'.face = s.face.after p .settle → A s')
    (hbody : Safe (E p) body (fun _ w => A w.1 ∧ ending w.2 = some how)
      (fun _ w => raises ∧ A w.1 ∧ ending w.2 = some how) w) {B : State × History → Prop}
    (hB : ∀ s h, A s → s.accepting = false → s.face.Inv → ending h = some how → B (s, h)) :
    Safe (E p) (settling body) (fun _ => B) (fun _ w => raises ∧ B w) w := by
  refine Safe.seq (Q := fun r w => (r.isOk = false → raises) ∧ A w.1 ∧ ending w.2 = some how)
    (Safe.attempt (Safe.mono hbody (fun _ _ h => ⟨(fun hr => by cases hr), h⟩)
      fun _ _ h => ⟨fun _ => h.1, h.2⟩)) fun r w hw => ?_
  refine Safe.seq (Q := fun _ => B) (safe_beginSettling hA hsettle hw.2.1
    fun s s₁ s₂ s₃ hs haccepting hinv => hB s _ hs haccepting hinv hw.2.2) fun _ w₁ hw₁ => ?_
  cases r with
  | ok a => exact hw₁
  | error e => exact ⟨hw.1 rfl, hw₁⟩

theorem turn_settle {status : ConversationStatus} (s s' : State) (hs : Turn p status s)
    (hface : s'.face = s.face.after p .settle) : Turn p status s' :=
  ⟨(congrArg Face.setBy hface).trans hs.setBy, (congrArg Face.status hface).trans hs.status⟩

theorem marked_settle {status : ConversationStatus} (s s' : State) (hs : Marked p status s)
    (hface : s'.face = s.face.after p .settle) : Marked p status s' := fun hset =>
  (congrArg Face.status hface).trans (hs ((congrArg Face.setBy hface).symm.trans hset))

theorem turn_setStatus {status : ConversationStatus} {s₀ s : State}
    (hface : s.face = s₀.face.after p (.setStatus status)) : Turn p status s :=
  ⟨congrArg Face.setBy hface, congrArg Face.status hface⟩

/-- Whatever the backend's end was, the run exits as it should, or not. -/
theorem safe_endTurn {how : Backend} (hw : Turn p .running w.1) (hend : ending w.2 = some how) :
    Safe (E p) (endTurn how) (fun _ w => Exit p w.1 w.2) (fun _ w => Exit p w.1 w.2) w := by
  have hrunning : Stable p (Turn p .running) := stable_turn (.inl rfl)
  -- The end of a run that closes the turn before it sets the status.
  have hfinish : (∀ name, how ≠ .raised name) → Safe (E p) (do
      settling (pure ())
      moveTo .finish .finished) (fun _ w => Exit p w.1 w.2) (fun _ w => Exit p w.1 w.2) w := by
    intro hraised
    have hclose : Safe (E p) (settling (pure ()))
        (fun _ w => Closed p w.1 ∧ ending w.2 = some how)
        (fun _ w => False ∧ Closed p w.1 ∧ ending w.2 = some how) w :=
      safe_settling False how hrunning turn_settle ((Co.safe_pure ()).mpr ⟨hw, hend⟩)
        fun s h hs haccepting _ hend => ⟨⟨hs, haccepting⟩, hend⟩
    refine Safe.bind (Safe.mono hclose (fun _ w hw => ?_) fun _ _ h => h.1.elim)
    · refine safe_moveTo (A := Closed p) (fun _ h => h.turn) stable_closed (by decide) hw.1
        fun s₀ s h hs₀ hface hinv hh => ?_
      have hturn := turn_setStatus hface
      refine exit_of_marked hinv (.inl rfl) (fun _ => hturn.status)
        ((congrArg Face.accepting hface).trans hs₀.accepting) (fun name => ?_)
        fun hset => absurd hturn.setBy hset
      rw [hh, hw.2]
      exact fun h => hraised name (Option.some.inj h)
  cases how with
  | cancelled =>
      refine Safe.mono (safe_settling True .cancelled (stable_turn (.inr rfl)) turn_settle ?_
        fun s h hs haccepting hinv hh => ?_) (fun _ _ h => h)
        fun _ _ h => h.2
      · exact safe_moveTo (fun _ h => h) hrunning (by decide) hw
          fun s₀ s h _ hface _ hh => ⟨turn_setStatus hface, hh.trans hend⟩
      · refine exit_of_marked hinv (.inr (.inr rfl)) (fun _ => hs.status) haccepting (fun name => ?_)
          fun hset => absurd hs.setBy hset
        rw [hh]
        simp
  | failed payload =>
      refine Safe.mono (safe_settling True (.failed payload) (stable_marked p .error) marked_settle
        ?_ fun s h hs haccepting hinv hh => ?_) (fun _ _ h => h)
        fun _ _ h => h.2
      · refine Safe.bind (safe_appendEvent hrunning hw fun e s s₁ s₂ hs => ?_)
        refine Safe.bind (safe_moveTo (fun _ h => h) hrunning (by decide) hs
          fun s₀ s h _ hface _ hh => ?_)
        exact ⟨trivial, fun _ => (turn_setStatus hface).status, hh.trans hend⟩
      · refine exit_of_marked hinv (.inr (.inl rfl)) hs haccepting (fun name => ?_)
          fun _ => ⟨payload, hh⟩
        rw [hh]
        simp
  | raised name =>
      refine Safe.mono (safe_settling True (.raised name) hrunning turn_settle
        ((Co.safe_throw _).mpr ⟨trivial, hw, hend⟩) fun s h hs haccepting hinv hh =>
        ⟨fun _ => ?_, fun hset => absurd hs.setBy hset⟩) (fun _ _ h => h) fun _ _ h => h.2
      constructor
      · intro hsettled
        have hover := hsettled.status
        rw [hs.status] at hover
        simp at hover
      · exact fun h => absurd hh (h.1 name)
  | settled => exact hfinish (by simp)
  | emit kind payload => exact hfinish (by simp)
  | settling => exact hfinish (by simp)

theorem safe_conversationRun (hw : w.2 = []) :
    Safe (E p) conversationRun (fun _ w => entered w.2 = true → Exit p w.1 w.2)
      (fun _ w => entered w.2 = true → Exit p w.1 w.2) w := by
  refine Safe.bind (Safe.mono (safe_beginTurn hw) (fun _ w hw => ?_) fun _ w hw hentered => ?_)
  · refine Safe.bind (Safe.mono (safe_agentRun hw) (fun how w hw => ?_) fun _ _ h => h)
    exact Safe.mono (safe_endTurn hw.1 hw.2) (fun _ _ h _ => h) fun _ _ h _ => h
  · rw [hw] at hentered
    cases hentered

theorem safe_sendMessage (text : String) :
    Safe (E p) (sendMessage text) (fun _ _ => True) (fun _ _ => True) w := by
  refine safe_withControl fun s₀ s _ _ hholds => ?_
  have hend : ∀ {f : Face} {w : State × History}, Holds p f w.1 →
      Safe (E p) (appendEvent .message [("role", "user"), ("text", text)])
        (fun _ => Released p fun _ => True) (fun _ => Released p fun _ => True) w :=
    fun {f} _ hw => safe_appendEvent (stable_holds p f) hw
      fun _ s s₁ s₂ hs => ⟨hs.control, fun _ _ _ _ _ => trivial⟩
  refine Safe.bind (safe_transition hholds (fun l s₁ s hallowed hs => ?_)
    fun l s₁ s _ hs => ⟨hs.control, fun _ _ _ _ _ => trivial⟩)
  refine Safe.bind ?_
  unfold becomeIdle
  split
  next => exact hend hs
  next =>
    refine safe_applyStatus hs (fun hfirm => ?_) fun e s s₂ s₃ s₄ hs => hend hs
    rcases hfirm with hst | hst <;> exact absurd (by rw [hst]; rfl) hallowed

/-! ### Cancellation -/

/-- The call has called `cancel` of the backend. -/
def invoked (h : History) : Bool :=
  h.any fun
    | ⟨.backendCancel, _, _⟩ => true
    | _ => false

/-- A cancellation of a running turn was passed on exactly if it was the first. -/
def PassedOn (h : History) : Prop :=
  ∀ l s, ⟨.look, l, s⟩ ∈ h → s.status = .running → (invoked h = true ↔ s.cancels = 0)

theorem safe_cancelLocked (hw : w.2 = []) : Safe (E p) (withControl cancelLocked)
    (fun live w => invoked w.2 = false ∧
      ∀ l s, ⟨.look, l, s⟩ ∈ w.2 → s.status = .running → (live = true ↔ s.cancels = 0))
    (fun _ _ => True) w := by
  refine safe_withControl fun s₀ s _ hinv₀ hholds => ?_
  refine Safe.bind (safe_plain (stable_holds p s₀.face) rfl hholds fun o s₁ s l hs₁ hs ha => ?_)
  obtain ⟨rfl, rfl⟩ := Prod.mk.inj (Option.some.inj ha)
  have hcancels : s₁.cancelling = false ↔ s₁.cancels = 0 :=
    cancelling_false_iff (by rw [hs₁.face]; exact hinv₀)
  split
  next hdone =>
    refine ⟨hs.control, fun s₂ s₃ _ _ _ => ⟨by simp [invoked, hw], fun l s hmem hrun => ?_⟩⟩
    obtain ⟨-, rfl⟩ : _ ∧ s = s₁ := by simpa [hw] using hmem
    have hcancelling : s.cancelling = true := hdone.resolve_left fun hst => by
      rw [show s.status = .cancelled from hst] at hrun
      cases hrun
    simp [← hcancels, hcancelling]
  next hdone =>
    split
    next => exact ⟨hs.control, fun _ _ _ _ _ => trivial⟩
    next =>
      split
      next => exact ⟨hs.control, fun _ _ _ _ _ => trivial⟩
      next =>
        refine Safe.bind (safe_held (by simp) hs (fun s hs _ => hs.control) fun a s₂ s' _ hs' => ?_)
        refine ⟨hs'.control, fun s₃ s₄ _ _ _ => ⟨by simp [invoked, hw], fun l s hmem _ => ?_⟩⟩
        obtain ⟨-, rfl⟩ : _ ∧ s = s₁ := by simpa [hw] using hmem
        simp only [not_or, Bool.not_eq_true] at hdone
        simp [← hcancels, hdone.2]

theorem safe_conversationCancel (hw : w.2 = []) : Safe (E p) conversationCancel
    (fun _ w => PassedOn w.2) (fun _ _ => True) w := by
  refine Safe.bind (Safe.mono (safe_cancelLocked hw) (fun live w hw => ?_) fun _ _ _ => trivial)
  obtain ⟨hnone, hlook⟩ := hw
  unfold abort
  split
  next hlive =>
    rintro ⟨s, h⟩ hinv ⟨-, hh⟩ a ⟨s', h'⟩ ⟨-, ⟨o, ha⟩, hh'⟩
    obtain rfl : h = w.2 := hh
    obtain rfl : h' = ⟨.backendCancel, a, s⟩ :: w.2 := hh'
    have ha' : State.answer p o .backendCancel s = some (a, s') := ha
    obtain ⟨hinv', hguar⟩ := permitted (c := .backendCancel) hinv trivial ha'
    refine ⟨hinv', ⟨hguar, Machine.Cond.last_trivial _ _⟩, ?_⟩
    cases a with
    | error e => trivial
    | ok u =>
        intro l s₁ hmem hrun
        have hmem' : ⟨.look, l, s₁⟩ ∈ w.2 := by simpa using hmem
        rw [← hlook l s₁ hmem' hrun, hlive]
        simp [invoked]
  next hlive =>
    intro l s hmem hrun
    rw [hnone, ← hlook l s hmem hrun]
    simp [hlive]

/-! ### Messages for the running agent -/

/-- Nothing that is stored has changed, and nothing was given to the backend. -/
def Unmoved (s s' : State) : Prop :=
  s'.log = s.log ∧ s'.status = s.status ∧ s'.receipts = s.receipts ∧ s'.steered = s.steered

/-- No call of the history can change what is stored, or give a message to the backend. -/
def Silent (h : History) : Prop :=
  ∀ x ∈ h, ∀ q o s a s', State.answer q o x.call s = some (a, s') → Unmoved s s'

/-- The calls of a message that is not accepted. -/
def Call.asking : Call → Bool
  | .acquire | .release | .look | .loadReceipt _ => true
  | _ => false

theorem Call.asking_spec {c : Call} (hc : c.asking = true) {q : Pid} {o : Oracle} {s s' : State}
    {a : c.Out} (ha : State.answer q o c s = some (a, s')) : Unmoved s s' := by
  cases c <;> cases hc <;> simp only [State.answer] at ha <;> repeat' split at ha
  all_goals first
    | (cases ha; exact ⟨rfl, rfl, rfl, rfl⟩)
    | cases ha

theorem silent_nil : Silent [] := fun _ hx => absurd hx List.not_mem_nil

theorem silent_cons {x : Entry Call.Out State} {h : History} (hx : x.call.asking = true)
    (hh : Silent h) : Silent (x :: h) := by
  intro y hy q o s a s' ha
  rcases List.mem_cons.mp hy with rfl | hy
  · exact Call.asking_spec hx ha
  · exact hh y hy q o s a s' ha

/-- The turn was running and open to messages when the call looked. -/
def Open (h : History) : Prop :=
  ∃ l s, ⟨.look, l, s⟩ ∈ h ∧ s.status = .running ∧ s.closed = false

/-- What a call of `steer` has done, by the receipt that it found. -/
def Answered (id text : String) (e : Except Exn MessageReceipt) (h : History) :
    Option MessageReceipt → Prop
  | some x => Silent h ∧ e = if x.content = text then .ok x else .error (.messageIdConflict id)
  | none => (Silent h ∧ ∃ err, e = .error err) ∨ Open h

def Steered (id text : String) (e : Except Exn MessageReceipt) (h : History) : Prop :=
  ∃ s, ⟨.loadReceipt id, s.face.receipt id, s⟩ ∈ h ∧ Answered id text e h (s.face.receipt id)

/-- What a call knows that is about to accept a message: it has the lock, and the turn is
open. -/
theorem safe_updateReceipt {receipt : MessageReceipt} {status : DeliveryStatus}
    {detail : Option String} {f : Face} (hw : Holds p f w.1)
    (hstored : f.receipt receipt.id = some receipt) {A : History → Prop}
    (hA : ∀ x h, A h → A (x :: h)) (hh : A w.2) {exn : Exn → State × History → Prop} :
    Safe (E p) (updateReceipt receipt status detail) (fun _ => Released p fun w => A w.2) exn w := by
  refine Safe.bind (safe_held (by simp) hw (fun s hs _ => ⟨hs.control, fun x hx => ?_⟩)
    fun a s₁ s _ hs => ?_)
  · rw [hs.face, hstored] at hx
    rw [← Option.some.inj hx]
  · exact ⟨hs.control, fun _ _ _ _ _ => hA _ _ (hA _ _ hh)⟩

/-- A message that was not known is accepted, with what stays of the history. -/
theorem safe_accept {id : String} (text : String) {f : Face} (hw : Holds p f w.1) (hf : f.Inv)
    (hnew : f.receipt id = none) {A : History → Prop} (hA : ∀ x h, A h → A (x :: h)) (hh : A w.2) :
    Safe (E p) (accept ⟨id, text, .accepted, none⟩) (fun _ => Released p fun w => A w.2)
      (fun _ => Released p fun w => A w.2) w := by
  refine Safe.bind (safe_held (by simp) hw (fun s hs _ => ⟨hs.control, fun x hx => ?_⟩)
    fun a s₁ s _ hs => ?_)
  · rw [hs.face, hnew] at hx
    cases hx
  -- The receipt is there before the backend is asked.
  have hstored := receipt_save p ⟨id, text, .accepted, none⟩ f id
  rw [if_pos rfl] at hstored
  refine Safe.bind (safe_appendEvent (stable_holds p _) hs fun e s s₂ s₃ hs => ?_)
  refine Safe.bind (safe_held (by simp) hs (fun s hs _ => ⟨hs.control, ?_, ?_⟩)
    fun reply s₄ s _ hs => ?_)
  · rw [hs.face, hstored]
    simp
  · intro hmem
    rw [show s.steered = f.steered from congrArg Face.steered hs.face] at hmem
    exact hf.stored id hmem hnew
  unfold steered
  split
  next => exact safe_updateReceipt hs hstored hA (hA _ _ (hA _ _ (hA _ _ (hA _ _ hh))))
  next => exact safe_updateReceipt hs hstored hA (hA _ _ (hA _ _ (hA _ _ (hA _ _ hh))))
  next => exact safe_updateReceipt hs hstored hA (hA _ _ (hA _ _ (hA _ _ (hA _ _ hh))))
  next =>
    exact ⟨hs.control, fun _ _ _ _ _ => hA _ _ (hA _ _ (hA _ _ (hA _ _ (hA _ _ hh))))⟩

theorem safe_steer (id text : String) (hw : w.2 = []) : Safe (E p) (steer id text)
    (fun r w => Steered id text (.ok r) w.2) (fun e w => Steered id text (.error e) w.2) w := by
  refine safe_withControl fun s₀ s _ hinv₀ hholds => ?_
  refine Safe.bind (safe_plain (stable_holds p s₀.face) rfl hholds fun o s₁ s r hs₁ hs ha => ?_)
  obtain ⟨hr, rfl⟩ := Prod.mk.inj (Option.some.inj ha)
  have hfound : s₁.face.receipt id = r := hr
  have hload : ∀ {h : History}, ⟨.loadReceipt id, r, s₁⟩ ∈ h →
      (⟨.loadReceipt id, s₁.face.receipt id, s₁⟩ : Entry Call.Out State) ∈ h := fun h => by
    rw [hfound]
    exact h
  have hsilent : Silent (⟨.loadReceipt id, r, s₁⟩ :: ⟨.acquire, .ok (), s₀⟩ :: w.2) := by
    rw [hw]
    exact silent_cons rfl (silent_cons rfl silent_nil)
  cases r with
  | some x =>
      show Safe (E p) (known id text x) _ _ _
      unfold known
      split
      next hne =>
        refine ⟨hs.control, fun s₂ s₃ _ _ _ => ⟨s₁, hload (by simp), ?_⟩⟩
        rw [hfound]
        exact ⟨silent_cons rfl hsilent, by rw [if_neg hne]⟩
      next hsame =>
        refine ⟨hs.control, fun s₂ s₃ _ _ _ => ⟨s₁, hload (by simp), ?_⟩⟩
        rw [hfound]
        exact ⟨silent_cons rfl hsilent, by rw [if_pos (not_not.mp hsame)]⟩
  | none =>
      show Safe (E p) (steerNew id text) _ _ _
      refine Safe.bind (safe_plain (stable_holds p s₀.face) rfl hs fun o s₂ s l hs₂ hs hl => ?_)
      have hreject : ∀ e, Released p (fun w => Steered id text (.error e) w.2)
          (s, ⟨.look, l, s₂⟩ :: ⟨.loadReceipt id, none, s₁⟩ :: ⟨.acquire, .ok (), s₀⟩ :: w.2) := by
        refine fun e => ⟨hs.control, fun s₃ s₄ _ _ _ => ⟨s₁, hload (by simp), ?_⟩⟩
        rw [hfound]
        exact .inl ⟨silent_cons rfl (silent_cons rfl hsilent), e, rfl⟩
      split
      next => exact hreject _
      next hopen =>
        split
        next => exact hreject _
        next =>
          obtain ⟨rfl, rfl⟩ := Prod.mk.inj (Option.some.inj hl)
          simp only [not_or, ne_eq, not_not, Bool.not_eq_false] at hopen
          have hf : s₂.face.Inv := by rw [hs₂.face]; exact hinv₀
          have hnew : s₀.face.receipt id = none := by rw [← hs₁.face]; exact hfound
          refine Safe.mono (safe_accept text (A := fun h =>
            ⟨.loadReceipt id, s₁.face.receipt id, s₁⟩ ∈ h ∧ Open h) hs hinv₀ hnew ?_ ?_) ?_ ?_
          · intro x h hh
            refine ⟨List.mem_cons_of_mem x hh.1, ?_⟩
            obtain ⟨l, s, hlook, hs⟩ := hh.2
            exact ⟨l, s, List.mem_cons_of_mem x hlook, hs⟩
          · exact ⟨hload (by simp), _, s₂, List.mem_cons_self, hopen.1, hf.accepting hopen.2⟩
          · intro r w hw
            refine ⟨hw.1, fun s s' hs hs' hinv => ?_⟩
            obtain ⟨hmem, hlook⟩ := hw.2 s s' hs hs' hinv
            refine ⟨s₁, hmem, ?_⟩
            rw [hfound]
            exact .inr hlook
          · intro e w hw
            refine ⟨hw.1, fun s s' hs hs' hinv => ?_⟩
            obtain ⟨hmem, hlook⟩ := hw.2 s s' hs hs' hinv
            refine ⟨s₁, hmem, ?_⟩
            rw [hfound]
            exact .inr hlook

end Methods

/-! ### Every run of the machine -/

/-- What is known when a call of a method returns. -/
def Post (p : Pid) (e : Except Exn Value) (w : State × History) : Prop :=
  match p with
  | .caller _ .run => entered w.2 = true → Exit p w.1 w.2
  | .caller _ .cancel => e.isOk = true → PassedOn w.2
  | .caller _ (.steer id text) =>
    ∃ r : Except Exn MessageReceipt, e = r.map .receipt ∧ Steered id text r w.2
  | _ => True

theorem inv_opened (status : ConversationStatus) (controllable : Bool) :
    (State.opened [] status controllable).face.Inv where
  nodup := List.nodup_nil
  stored _ h := absurd h List.not_mem_nil
  accepting h := (Bool.false_ne_true h).elim
  cancelling := ⟨fun h => (Bool.false_ne_true h).elim, fun h => absurd h (Nat.lt_irrefl 0)⟩

theorem inv_reopened {controllable : Bool} {s : State} (hs : s.face.Inv) :
    (s.reopened controllable).face.Inv :=
  ⟨hs.nodup, hs.stored, (inv_opened s.status controllable).accepting,
    (inv_opened s.status controllable).cancelling⟩

theorem safe_program (n : Nat) (method : Method) (s : State) :
    Safe (E (.caller n method)) method.program (fun a => Post (.caller n method) (.ok a))
      (fun e => Post (.caller n method) (.error e)) (s, []) := by
  cases method with
  | sendMessage text =>
      refine Safe.bind (Safe.mono (safe_sendMessage text) (fun _ _ _ => ?_) fun _ _ _ => trivial)
      exact (Co.safe_pure _).mpr trivial
  | steer id text =>
      refine Safe.bind (Safe.mono (safe_steer id text rfl) (fun r w hw => ?_) fun e w hw => ?_)
      · exact (Co.safe_pure _).mpr ⟨.ok r, rfl, hw⟩
      · exact ⟨.error e, rfl, hw⟩
  | cancel =>
      refine Safe.bind (Safe.mono (safe_conversationCancel rfl) (fun _ w hw => ?_) fun e w _ => ?_)
      · exact (Co.safe_pure _).mpr fun _ => hw
      · exact fun hok => by cases hok
  | run =>
      refine Safe.bind (Safe.mono (safe_conversationRun rfl) (fun _ w hw => ?_) fun _ _ hw => hw)
      exact (Co.safe_pure _).mpr hw

theorem sound : Machine.Sound (M := conversation) {} (fun s => s.face.Inv) Rely Guar Post where
  rely_trans _ _ _ _ := Rely.trans
  guar_rely _ q _ _ hq h := h.others q hq
  job p _ s prog s' hinv hj := by
    cases p with
    | caller n method =>
        obtain ⟨rfl, rfl⟩ := Prod.mk.inj (Option.some.inj hj)
        refine ⟨hinv, ⟨fun q _ => .refl q s, .refl _⟩, ?_⟩
        refine Prog.Safe.mono (safe_program n method s) fun r w hr => ?_
        cases r with
        | ok a => exact hr
        | error e => exact hr
    | socket n afterSeq => cases hj
    | routine n => cases hj
  event controllable s s' hinv _ he := by
    obtain rfl := Option.some.inj he
    exact ⟨inv_reopened hinv, fun hkills => by cases hkills⟩

theorem ok_created (controllable : Bool) :
    Machine.Ok (M := conversation) {} (fun s => s.face.Inv) Rely Guar Post
      (Calls.created controllable) :=
  ⟨inv_opened .idle controllable, fun _ _ _ _ h => by cases h⟩

/-- What a call has done when it returns, in every run. -/
theorem returned {controllable : Bool} {as : List conversation.Act} {w w' : Calls} {p : Pid}
    {o : Oracle} {e : Except Exn Value} {h : History}
    (hr : conversation.run (Calls.created controllable) as = some w)
    (hs : conversation.step w (.call p o) = some w') (hth : w'.threads p = some ⟨.ret e, h⟩) :
    Post p e (w'.shared, h) :=
  (sound.run Rely.refl (ok_created controllable) (Machine.keeps_trivial _ _) hr).returned Rely.refl
    (Machine.meets_trivial _ _) hs hth

/-- A run leaves the control state settled unless the backend ended with an exception that
is not its own, a cancellation was let through before, or another call has changed the status
after an error; and a cancellation is passed on to the backend only if it is the first. -/
theorem control_settled_iff {controllable : Bool} {as : List conversation.Act} {w w' : Calls}
    {p : Pid} {o : Oracle} {e : Except Exn Value} {h : History} {n : Nat}
    (hr : conversation.run (Calls.created controllable) as = some w)
    (hs : conversation.step w (.call p o) = some w') (hth : w'.threads p = some ⟨.ret e, h⟩) :
    (p = .caller n .run → entered h = true →
      (w'.shared.setBy = some p → (Settled w'.shared ↔
        (∀ name, ending h ≠ some (.raised name)) ∧ w'.shared.cancels = 0)) ∧
      (w'.shared.setBy ≠ some p → ∃ payload, ending h = some (.failed payload))) ∧
    (p = .caller n .cancel → e.isOk = true →
      ∀ l s, ⟨.look, l, s⟩ ∈ h → s.status = .running → (invoked h = true ↔ s.cancels = 0)) := by
  have hpost := returned hr hs hth
  constructor
  · rintro rfl hentered
    exact hpost hentered
  · rintro rfl hok
    exact hpost hok

/-! ### A cancellation that outlives its run -/

/-- A backend that settles at once, and that has nothing to cancel any more. -/
def idleBackend : Oracle where
  cancel := false
  disconnected := false
  backend := .settled
  steered := .ok (true, none)
  aborted := .error (.agentControl "Pi has no active process to cancel")
  admission := .admitted
  takes := false
  notices := false
  incoming := none
  rounds := 1

/-- This many calls of one thread. -/
def calls (p : Pid) (k : Nat) (o : Oracle) : List conversation.Act := List.replicate k (.call p o)

/-- A call of a method, to its end. -/
def whole (p : Pid) (k : Nat) (o : Oracle) : List conversation.Act := .start p () :: calls p k o

/-- The run of one message, up to its last call. -/
def plainTurn : List conversation.Act :=
  whole (.caller 0 (.sendMessage "fix it")) 5 idleBackend ++ whole (.caller 1 .run) 18 idleBackend

/-- The call has returned, having set the status to `running`, as the one who set it last. -/
def exited (w : Calls) (p : Pid) : Bool :=
  match w.threads p with
  | some ⟨.ret _, h⟩ => entered h && w.shared.setBy = some p && ending h = some .settled
  | _ => false

theorem control_settled_iff_plainTurn :
    ∃ w w' e h, conversation.run (Calls.created true) plainTurn = some w ∧
      conversation.step w (.call (.caller 1 .run) idleBackend) = some w' ∧
      w'.threads (.caller 1 .run) = some ⟨.ret e, h⟩ ∧ entered h = true ∧ Settled w'.shared := by
  have hexit : ((conversation.run (Calls.created true) plainTurn).bind fun w =>
      (conversation.step w (.call (.caller 1 .run) idleBackend)).map fun w' =>
        exited w' (.caller 1 .run) && w'.shared.cancels = 0) = some true := by decide +kernel
  obtain ⟨w, hr, hexit⟩ := Option.bind_eq_some_iff.mp hexit
  obtain ⟨w', hs, hexit⟩ := Option.map_eq_some_iff.mp hexit
  rw [Bool.and_eq_true, decide_eq_true_eq] at hexit
  obtain ⟨hexit, hcancels⟩ := hexit
  unfold exited at hexit
  split at hexit
  next e h hth =>
    simp only [Bool.and_eq_true, decide_eq_true_eq] at hexit
    obtain ⟨⟨hentered, hset⟩, hend⟩ := hexit
    refine ⟨w, w', e, h, hr, hs, hth, hentered, ?_⟩
    refine ((control_settled_iff hr hs hth).1 rfl hentered).1 hset |>.mpr ⟨fun name => ?_, hcancels⟩
    rw [hend]
    simp
  next => cases hexit

/-- A cancellation is let through, the run finishes before the backend hears of it, and the
conversation runs again. -/
def overtaken : List conversation.Act :=
  whole (.caller 0 (.sendMessage "fix it")) 5 idleBackend ++
  whole (.caller 1 .run) 9 idleBackend ++
  whole (.caller 2 .cancel) 4 idleBackend ++
  calls (.caller 1 .run) 10 idleBackend ++
  calls (.caller 2 .cancel) 1 idleBackend ++
  whole (.caller 3 (.sendMessage "go on")) 8 idleBackend ++
  whole (.caller 4 .run) 9 idleBackend ++
  whole (.caller 5 .cancel) 2 idleBackend

/-- The call has returned, saw a running turn and did not reach the backend. -/
def ignored (w : Calls) (p : Pid) : Bool :=
  match w.threads p with
  | some ⟨.ret (.ok _), h⟩ => !invoked h && h.any fun
    | ⟨.look, _, s⟩ => s.status = .running
    | _ => false
  | _ => false

/-- The second turn runs on while its cancellation is reported as done. -/
theorem cancel_ignored :
    ¬ ∀ (as : List conversation.Act) (w w' : Calls) (p : Pid) (o : Oracle) (e : Except Exn Value)
      (h : History) (n : Nat),
      conversation.run (Calls.created true) as = some w →
      conversation.step w (.call p o) = some w' → w'.threads p = some ⟨.ret e, h⟩ →
      (p = .caller n .run → entered h = true → Settled w'.shared) ∧
      (p = .caller n .cancel → e.isOk = true →
        ∀ l s, ⟨.look, l, s⟩ ∈ h → s.status = .running → invoked h = true) := by
  intro hall
  have hignored : ((conversation.run (Calls.created true) overtaken).bind fun w =>
      (conversation.step w (.call (.caller 5 .cancel) idleBackend)).map fun w' =>
        ignored w' (.caller 5 .cancel)) = some true := by decide +kernel
  obtain ⟨w, hr, hignored⟩ := Option.bind_eq_some_iff.mp hignored
  obtain ⟨w', hs, hignored⟩ := Option.map_eq_some_iff.mp hignored
  unfold ignored at hignored
  split at hignored
  next v h hth =>
    simp only [Bool.and_eq_true, Bool.not_eq_true', List.any_eq_true] at hignored
    obtain ⟨hnone, ⟨c, r, s⟩, hmem, hrunning⟩ := hignored
    have hpassed := (hall _ w w' _ _ _ h 5 hr hs hth).2 rfl rfl
    split at hrunning
    next l s heq =>
      rw [heq] at hmem
      rw [hpassed l s hmem (of_decide_eq_true hrunning)] at hnone
      cases hnone
    next => cases hrunning
  next => cases hignored

end GgAgent.Stream
