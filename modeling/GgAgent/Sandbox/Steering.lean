import GgAgent.Sandbox.Control

/-!
Messages for the running agent over the life of a conversation, restarts of the process
included: every message is given to the backend at most once, and its receipt decides what
each later call with its id returns.
-/

namespace GgAgent.Stream

open GgAgent.Lib

/-- Every act keeps the receipts. -/
theorem kept_effect {s s' : State}
    (he : Machine.Effect (M := conversation) {} (fun s => s.face.Inv) Guar s s') :
    s.face.Kept s'.face := by
  cases he with
  | thread p h => exact h.kept
  | event controllable _ _ h =>
      obtain rfl := Option.some.inj h
      exact fun _ x hx => ⟨x, hx, rfl⟩

variable {controllable : Bool} {as bs : List conversation.Act} {w w₁ w₂ w₃ : Calls}

theorem ok_run (hr : conversation.run (Calls.created controllable) as = some w) :
    Machine.Ok (M := conversation) {} (fun s => s.face.Inv) Rely Guar Post w :=
  sound.run Rely.refl (ok_created controllable) (Machine.keeps_trivial _ _) hr

/-- A call with a known id that began later has found the receipt of the message. -/
theorem found_kept {p : Pid} {o : Oracle} {e : Except Exn Value} {h : History}
    (hr : conversation.run (Calls.created controllable) as = some w)
    (hstart : conversation.step w (.start p ()) = some w₁)
    (hbs : conversation.run w₁ bs = some w₂) (hs : conversation.step w₂ (.call p o) = some w₃)
    (hth : w₃.threads p = some ⟨.ret e, h⟩) : ∀ x ∈ h, w.shared.face.Kept x.found.face := by
  have hall : conversation.run w₁ (bs ++ [.call p o]) = some w₃ := by
    rw [Machine.run_append, hbs]
    exact (Machine.run_singleton _ _ _).trans hs
  obtain ⟨hw₁, heffect⟩ := sound.step Rely.refl (ok_run hr) (Machine.meets_trivial _ _) hstart
  refine sound.run_found Rely.refl (A := fun s => w.shared.face.Kept s.face)
    (fun s s' hs he => hs.trans (kept_effect he)) hw₁ (kept_effect heffect) ?_
    (Machine.keeps_trivial _ _) hall _ h hth
  -- The call has found nothing before it began.
  intro prog h hnew
  simp only [Machine.step] at hstart
  split at hstart
  next =>
    obtain ⟨⟨prog', s'⟩, -, rfl⟩ := Option.map_eq_some_iff.mp hstart
    simp only [Function.update_self, Option.some.injEq, Thread.mk.injEq] at hnew
    obtain ⟨-, rfl⟩ := hnew
    exact fun x hx => absurd hx List.not_mem_nil
  next => cases hstart

/-- A call that began when its message had a receipt. -/
theorem answered_known {n : Nat} {id text : String} {x : MessageReceipt} {o : Oracle}
    {e : Except Exn Value} {h : History}
    (hr : conversation.run (Calls.created controllable) as = some w)
    (hx : w.shared.face.receipt id = some x)
    (hstart : conversation.step w (.start (.caller n (.steer id text)) ()) = some w₁)
    (hbs : conversation.run w₁ bs = some w₂)
    (hs : conversation.step w₂ (.call (.caller n (.steer id text)) o) = some w₃)
    (hth : w₃.threads (.caller n (.steer id text)) = some ⟨.ret e, h⟩) :
    Silent h ∧ (text = x.content → ∃ s x', ⟨.loadReceipt id, some x', s⟩ ∈ h ∧
      s.face.receipt id = some x' ∧ e = .ok (.receipt x')) ∧
    (text ≠ x.content → e = .error (.messageIdConflict id)) := by
  have hall : conversation.run (Calls.created controllable)
      (as ++ .start (.caller n (.steer id text)) () :: bs) = some w₂ := by
    rw [Machine.run_append, hr, Option.bind_some]
    simp only [Machine.run]
    rw [hstart]
    exact hbs
  obtain ⟨r, rfl, s, hload, hanswered⟩ := returned hall hs hth
  obtain ⟨x', hx', hcontent⟩ := found_kept hr hstart hbs hs hth _ hload id x hx
  rw [hx'] at hanswered
  obtain ⟨hsilent, rfl⟩ := hanswered
  refine ⟨hsilent, fun htext => ?_, fun htext => ?_⟩
  · rw [if_pos (hcontent.trans htext.symm)]
    exact ⟨s, x', hx' ▸ hload, hx', rfl⟩
  · rw [if_neg fun h => htext (h.symm.trans hcontent)]
    rfl

/-- Each message is given to the backend at most once; a message with a receipt is answered
from the receipt; and a new one is turned away unless the turn is running and open. -/
theorem delivered_at_most_once
    (hr : conversation.run (Calls.created controllable) as = some w) :
    w.shared.steered.Nodup ∧
    (∀ n id text x w₁ bs w₂ o w₃ e h, w.shared.face.receipt id = some x →
      conversation.step w (.start (.caller n (.steer id text)) ()) = some w₁ →
      conversation.run w₁ bs = some w₂ →
      conversation.step w₂ (.call (.caller n (.steer id text)) o) = some w₃ →
      w₃.threads (.caller n (.steer id text)) = some ⟨.ret e, h⟩ →
      Silent h ∧ (text = x.content → ∃ s x', ⟨.loadReceipt id, some x', s⟩ ∈ h ∧
        s.face.receipt id = some x' ∧ e = .ok (.receipt x')) ∧
      (text ≠ x.content → e = .error (.messageIdConflict id))) ∧
    (∀ n id text o w' e h, conversation.step w (.call (.caller n (.steer id text)) o) = some w' →
      w'.threads (.caller n (.steer id text)) = some ⟨.ret e, h⟩ →
      (∀ s x, ⟨.loadReceipt id, some x, s⟩ ∉ h) →
      (Silent h ∧ ∃ err, e = .error err) ∨
      ∃ l s, ⟨.look, l, s⟩ ∈ h ∧ s.status = .running ∧ s.closed = false) := by
  refine ⟨(ok_run hr).1.nodup, ?_, ?_⟩
  · intro n id text x w₁ bs w₂ o w₃ e h hx hstart hbs hs hth
    exact answered_known hr hx hstart hbs hs hth
  · intro n id text o w' e h hs hth hnew
    obtain ⟨r, rfl, s, hload, hanswered⟩ := returned hr hs hth
    cases hfound : s.face.receipt id with
    | some x => exact absurd (hfound ▸ hload) (hnew s x)
    | none =>
        rw [hfound] at hanswered
        rcases hanswered with ⟨hsilent, err, rfl⟩ | hopen
        · exact .inl ⟨hsilent, err, rfl⟩
        · exact .inr hopen

/-- A turn is running and was given a message. -/
def hurried : List conversation.Act :=
  whole (.caller 0 (.sendMessage "fix it")) 5 idleBackend ++
  whole (.caller 1 .run) 9 idleBackend ++
  whole (.caller 2 (.steer "m1" "hurry")) 9 idleBackend

/-- The same message once more. -/
def repeated : Pid := .caller 3 (.steer "m1" "hurry")

def hasReturned (p : Pid) (w : Calls) : Bool :=
  match w.threads p with
  | some ⟨.ret _, _⟩ => true
  | _ => false

theorem delivered_at_most_once_repeated :
    ∃ w w₁ w₂ w₃ e h, conversation.run (Calls.created true) hurried = some w ∧
      w.shared.steered = ["m1"] ∧ conversation.step w (.start repeated ()) = some w₁ ∧
      conversation.run w₁ (calls repeated 2 idleBackend) = some w₂ ∧
      conversation.step w₂ (.call repeated idleBackend) = some w₃ ∧
      w₃.threads repeated = some ⟨.ret e, h⟩ ∧ Silent h := by
  have hend : ((conversation.run (Calls.created true) hurried).bind fun w =>
      (conversation.step w (.start repeated ())).bind fun w₁ =>
        (conversation.run w₁ (calls repeated 2 idleBackend)).bind fun w₂ =>
          (conversation.step w₂ (.call repeated idleBackend)).map fun w₃ =>
            w.shared.steered = ["m1"] && (w.shared.face.receipt "m1").isSome &&
              hasReturned repeated w₃) = some true := by decide +kernel
  obtain ⟨w, hr, hend⟩ := Option.bind_eq_some_iff.mp hend
  obtain ⟨w₁, hstart, hend⟩ := Option.bind_eq_some_iff.mp hend
  obtain ⟨w₂, hbs, hend⟩ := Option.bind_eq_some_iff.mp hend
  obtain ⟨w₃, hs, hend⟩ := Option.map_eq_some_iff.mp hend
  simp only [Bool.and_eq_true, decide_eq_true_eq] at hend
  obtain ⟨⟨hsteered, hsome⟩, hend⟩ := hend
  obtain ⟨x, hx⟩ := Option.isSome_iff_exists.mp hsome
  unfold hasReturned at hend
  split at hend
  next e h hth =>
    refine ⟨w, w₁, w₂, w₃, e, h, hr, hsteered, hstart, hbs, hs, hth, ?_⟩
    exact ((delivered_at_most_once hr).2.1 3 "m1" "hurry" x w₁ _ w₂ _ w₃ e h hx hstart hbs hs hth).1
  next => cases hend

end GgAgent.Stream
