import GgAgent.Safety.Rounds

/-!
A sandbox that cannot be reached is not a sandbox that is lost.

A thread looks at the provider, records the state it has seen, and decides. The
history of a thread has the answer of the provider and the state that was recorded
on it, so whether a task may be failed for the loss of its sandbox can be read off
the history of the thread that fails it. `lossConfirmed` says when it may; the
scheduler always keeps it, and a loop keeps it as long as the connect request with
which a finalization begins is answered.
-/

namespace GgAgent.Safety

open GgAgent.Lib GgAgent.Backend
open GgAgent.Lib.Co (Makes Safe Keeps)

/-! ### Looks at the provider -/

/-- By this answer the provider has confirmed that a sandbox is absent or has exited. -/
def confirmsAbsence : Entry Call.Out Shared → Bool
  | ⟨.ext (.providerFromId _), .error .providerNotFound, _⟩ => true
  | ⟨.ext (.providerPoll _), .ok (some _), _⟩ => true
  | ⟨.ext (.providerFind _), .ok [], _⟩ => true
  | _ => false

/-- What a thread has last recorded of the sandbox of `t`, and whether the provider had
confirmed absence in the answer just before. Reading the identity of the sandbox begins
another step. -/
def lastLook (t : TaskId) : Hist → Option (SandboxProviderState × Bool)
  | [] => none
  | e :: h =>
    match e.call with
    | .db (.getSandboxCreation t') => if t' = t then none else lastLook t h
    | .db (.updateSandboxCreation t' _ st _) =>
      if t' = t then some (st, h.head?.any confirmsAbsence) else lastLook t h
    | _ => lastLook t h

/-- The sandbox of `t` was not recorded as `UNKNOWN` in this step. -/
def known (t : TaskId) (h : Hist) : Bool := (lastLook t h).all fun look => look.1 ≠ .unknown

/-- In this step the provider has confirmed that the sandbox of `t` is gone. -/
def confirmed (t : TaskId) (h : Hist) : Bool := lastLook t h = some (.stopped, true)

theorem known_of_confirmed {t : TaskId} {h : Hist} (hc : confirmed t h = true) :
    known t h = true := by
  have hlook : lastLook t h = some (.stopped, true) := of_decide_eq_true hc
  simp [known, hlook]

/-- A finalization is about to ask for a connection. -/
def finalizing : Hist → Bool
  | e₁ :: e₂ :: e₃ :: _ =>
    match e₁.call, e₂.call, e₃.call with
    | .db (.getSupervision _), .db (.get _ _), .acquire (.settlement _) => true
    | _, _, _ => false
  | _ => false

/-- The last look at a sandbox is that of a finalization. -/
def finalLook : Hist → Bool
  | [] => false
  | e :: h =>
    match e.call with
    | .db (.getSandboxCreation _) => finalizing h
    | _ => finalLook h

/-! ### What a write of `FAILED` owes -/

/-- The call fails a task for the loss of its sandbox: `mark_sandbox_lost`, or the write
of `_finalize_locked` behind a failed connect request. -/
def failsForLoss (c : LedgerCall) (h : Hist) : Bool :=
  match c with
  | .markSandboxLost _ _ => true
  | .finishTask _ .failed detail _ =>
    detail = some "sandbox lost before finalization completed" && finalLook h
  | _ => false

/-- The task becomes `FAILED` by the call. -/
def turnsFailed (c : LedgerCall) (s : Shared) (t : TaskId) : Bool :=
  ((s.ledger.tasks.find? t).any fun r => r.state ≠ .failed) &&
    ((after c s).ledger.tasks.find? t).any fun r => r.state = .failed

/-- A task that becomes `FAILED` does not become so in a step that has recorded its
sandbox as `UNKNOWN`; for the loss of its sandbox it does only in a step in which the
provider has confirmed that loss. -/
def lossConfirmed (cfg : Config) : Cond cfg where
  call _ h c s _ :=
    match c with
    | .db c => s.ledger.tasks.rows.all fun r => !turnsFailed c s r.id ||
        known r.id h && (!failsForLoss c h || confirmed r.id h)
    | _ => true

/-! ### The condition -/

/-- The connect request of a finalization finds the identity of the sandbox, gets an
answer from the provider about one sandbox at most, and its token request succeeds. -/
def finalizationAnswered (cfg : Config) : Cond cfg where
  call _ h c _ a :=
    match c, a with
    | .db (.getSandboxCreation _), .ok none => !finalizing h
    | .ext (.providerFromId _), .error e => !finalLook h || e = .providerNotFound
    | .ext (.providerFind _), .error _ => !finalLook h
    | .ext (.providerFind _), .ok (_ :: _ :: _) => !finalLook h
    | .ext (.providerPoll _), .error _ => !finalLook h
    | .ext (.providerConnectToken _), .error _ => !finalLook h
    | .ext (.providerConnectToken _), .ok https => !finalLook h || https
    | _, _ => true

/-! ### Calls that fail no task -/

/-- The task that a call may fail. -/
def failedBy : Call → Option TaskId
  | .db (.markSandboxLost t _) | .db (.finishTask t .failed _ _)
  | .db (.updateReservation t _ _ (some .failed)) => some t
  | _ => none

theorem failedBy_of_turnsFailed {c : LedgerCall} {s : Shared} {t : TaskId}
    (h : turnsFailed c s t = true) : failedBy (.db c) = some t := by
  simp only [turnsFailed, Bool.and_eq_true, Option.any_eq_true] at h
  obtain ⟨⟨r, hr, hstate⟩, r', hr', hfailed⟩ := h
  have hstate : r.state ≠ .failed := of_decide_eq_true hstate
  have hfailed : r'.state = .failed := of_decide_eq_true hfailed
  obtain rfl : r.id = t := Table.key_of_find? hr
  obtain ⟨b, -, -, hnone⟩ | ⟨q, hq, hstep⟩ := exec_task s.clock c hr
  · have hnone : (after c s).ledger.tasks.find? r.id = none := hnone
    rw [hnone] at hr'
    simp at hr'
  · have hq : (after c s).ledger.tasks.find? r.id = some q := hq
    obtain rfl : q = r' := Option.some.inj (hq.symm.trans hr')
    cases hstep with
    | adopt p d st =>
        obtain rfl : st = .failed := hfailed
        rfl
    | finish st o d =>
        have hst : st = .failed := hfailed
        subst hst
        rfl
    | lost d => rfl
    | same | release | baseSha | touch | workspaceExpired | retire => exact absurd hfailed hstate
    | reserve | settle | cancel | wake | sleep => simp at hfailed

theorem duty_of_failedBy {cfg : Config} {p : Pid} {h : Hist} {c : Call} {s : Shared} {a : c.Out}
    (hc : ∀ t d, c = .db d → failedBy c = some t →
      known t h = true ∧ (failsForLoss d h = true → confirmed t h = true)) :
    (lossConfirmed cfg).call p h c s a = true := by
  cases c with
  | db d =>
      simp only [lossConfirmed, List.all_eq_true]
      intro r _
      cases ht : turnsFailed d s r.id with
      | false => rfl
      | true =>
          obtain ⟨hknown, hloss⟩ := hc r.id d rfl (failedBy_of_turnsFailed ht)
          cases hf : failsForLoss d h with
          | false => simp [hknown]
          | true => simp [hknown, hloss hf]
  | _ => rfl

/-- The call fails no task. -/
def Spares (c : Call) : Prop := failedBy c = none

/-- The call fails no task, begins no look and does not record one of the sandbox of `t`. -/
structure Away (t : TaskId) (c : Call) : Prop where
  spares : Spares c
  begins : ∀ t', c ≠ .db (.getSandboxCreation t')
  records : ∀ i st d, c ≠ .db (.updateSandboxCreation t i st d)

theorem spares_of_inert {c : Call} (hc : c.inert = true) : Spares c := by
  unfold Spares failedBy
  split <;> simp_all [Call.inert, LedgerCall.inert]

theorem lastLook_of_away {t : TaskId} {c : Call} {a : c.Out} {s : Shared} {h : Hist}
    (hc : Away t c) : lastLook t (⟨c, a, s⟩ :: h) = lastLook t h := by
  obtain ⟨-, hget, hupd⟩ := hc
  simp only [lastLook]
  split
  next t' => exact absurd rfl (hget t')
  next t' i st d => rw [if_neg (by rintro rfl; exact hupd i st d rfl)]
  next => rfl

theorem finalLook_cons {c : Call} {a : c.Out} {s : Shared} {h : Hist}
    (hc : ∀ t, c ≠ .db (.getSandboxCreation t)) :
    finalLook (⟨c, a, s⟩ :: h) = finalLook h := by
  rw [finalLook]
  split
  next t ht => exact absurd ht (hc t)
  next => rfl

theorem finalizing_cons {c : Call} {a : c.Out} {s : Shared} {h : Hist}
    (hc : ∀ t, c ≠ .db (.getSupervision t)) : finalizing (⟨c, a, s⟩ :: h) = false := by
  unfold finalizing
  split
  next e₁ e₂ e₃ rest heq =>
    obtain ⟨rfl, -⟩ := List.cons.inj heq
    split
    next hget _ _ => exact absurd hget (hc _)
    next => rfl
  next => rfl

/-! ### The contract -/

/-- The threads owe each other nothing but what they owe to the tasks. -/
abbrev lossContract (cfg : Config) (p : Pid) :=
  Machine.contract (finalizationAnswered cfg) (fun _ => True) (fun _ _ _ => True)
    (fun _ _ _ => True) p (lossConfirmed cfg)

section Looks

variable {cfg : Config} {p : Pid} {α : Type} {t : TaskId}

theorem keeps_spares {r : Routine α} (hr : Makes Spares r) :
    Keeps (lossContract cfg p) (fun _ => True) r := by
  refine keeps_of_makes_owing hr (fun _ _ _ _ _ => trivial) fun c s o a s' h hc _ _ _ _ => ?_
  refine ⟨trivial, trivial, duty_of_failedBy fun t d _ ht => ?_, trivial⟩
  rw [show failedBy c = none from hc] at ht
  simp at ht

theorem keeps_spares_db {c : LedgerCall} (hc : failedBy (.db c) = none) :
    Keeps (lossContract cfg p) (fun _ => True) (db c) := keeps_spares (makes_db hc)

theorem keeps_spares_inert {r : Routine α} (hr : Inert r) :
    Keeps (lossContract cfg p) (fun _ => True) r := keeps_spares (hr.mono fun _ => spares_of_inert)

/-- Calls that look elsewhere leave what was seen as it is. -/
theorem keeps_away {r : Routine α} (hr : Makes (Away t) r)
    (P : Option (SandboxProviderState × Bool) → Bool → Prop) :
    Keeps (lossContract cfg p) (fun w => P (lastLook t w.2) (finalLook w.2)) r := by
  refine keeps_of_makes_owing hr (fun _ _ _ hP _ => hP) fun c s o a s' h hc hP _ _ _ => ?_
  refine ⟨trivial, trivial, duty_of_failedBy fun t' d _ ht => ?_, ?_⟩
  · rw [show failedBy c = none from hc.spares] at ht
    simp at ht
  · show P (lastLook t (⟨c, a, s⟩ :: h)) (finalLook (⟨c, a, s⟩ :: h))
    rw [lastLook_of_away hc, finalLook_cons hc.begins]
    exact hP

/-- What is known after a call to the outside. -/
structure Asked (cfg : Config) (p : Pid) (c : ExtCall) (a : c.Out) (h h' : Hist) : Prop where
  look : finalLook h' = finalLook h
  looks : ∀ t, lastLook t h' = lastLook t h
  last : ∃ s, h'.head? = some ⟨.ext c, a, s⟩
  met : ∃ s, (finalizationAnswered cfg).call p h (.ext c) s a = true

theorem safe_ext_look {c : ExtCall} {exn : Exn → Shared × Hist → Prop} {w : Shared × Hist} :
    Safe (lossContract cfg p) (ext c) (fun a w' => Asked cfg p c a w.2 w'.2) exn w := by
  obtain ⟨s, h⟩ := w
  refine safe_call_owing fun s₁ o a s₂ _ _ hK _ => ⟨trivial, trivial, rfl, ?_⟩
  exact ⟨finalLook_cons (by simp), fun t => lastLook_of_away ⟨rfl, by simp, by simp⟩, ⟨s₁, rfl⟩,
    s₁, hK⟩

/-- What a thread knows after a state was recorded: the state, whether the provider
had confirmed absence, and whether it is in a finalization. -/
theorem safe_observe_look {id : Option ProviderId} {st : SandboxProviderState} {d : Option String}
    {w : Shared × Hist} :
    Safe (lossContract cfg p) (db (.updateSandboxCreation t id st d))
      (fun row w' => row.providerState = st ∧ finalLook w'.2 = finalLook w.2 ∧
        lastLook t w'.2 = some (st, w.2.head?.any confirmsAbsence))
      (fun e _ => e.isLifecycle = false) w := by
  obtain ⟨s, h⟩ := w
  refine safe_db_owing fun s₁ _ _ _ => ⟨trivial, trivial, duty_of_failedBy (by simp [failedBy]), ?_⟩
  cases hr : reply (.updateSandboxCreation t id st d) s₁ with
  | error e =>
      simp only [reply, LedgerCall.exec, Ledger.updateSandboxCreation] at hr
      split at hr
      · obtain rfl := Except.error.inj hr
        rfl
      · split at hr <;> simp at hr
  | ok row =>
      obtain ⟨q, -, -, -, hst, -⟩ := updateSandboxCreation_ok hr
      exact ⟨hst, finalLook_cons (by simp), by simp [lastLook]⟩

/-! ### Reconnecting -/

/-- What a thread knows of a sandbox that it has looked at: what it answers is what it
has recorded, and a stop is one that the provider has confirmed. In a finalization
(`final`) the sandbox is known to run or to be gone. -/
structure Inspected (t : TaskId) (final : Bool) (a : SandboxSnapshot × Option ProviderId) (h : Hist) :
    Prop where
  recorded : ∃ b, lastLook t h = some (a.1.state, b)
  stopped : a.1.state = .stopped → confirmed t h = true
  look : finalLook h = final
  settled : final = true → a.1.state = .stopped ∨ a.1.state = .running ∧ a.2.isSome = true

/-- How a look ends without an answer: not by a lifecycle error in a finalization, and
never for want of a credential. -/
structure Unanswered (final : Bool) (e : Exn) : Prop where
  final : e.isLifecycle = true → final = false
  credited : ∀ text, e ≠ .lifecycle .credentialUnavailable text

theorem unanswered_of_not_lifecycle {final : Bool} {e : Exn} (h : e.isLifecycle = false) :
    Unanswered final e := by
  refine ⟨fun he => ?_, ?_⟩
  · rw [h] at he
    simp at he
  · rintro text rfl
    simp [Exn.isLifecycle] at h

/-- A state that is recorded on an answer of the provider and returned. -/
theorem safe_observed_look {id : Option ProviderId} {st : SandboxProviderState}
    {d : Option String} {handle : Option ProviderId} {final : Bool} {w : Shared × Hist}
    (hfinal : finalLook w.2 = final) (hstop : st = .stopped → w.2.head?.any confirmsAbsence = true)
    (hset : final = true → st = .stopped ∨ st = .running ∧ handle.isSome = true) :
    Safe (lossContract cfg p) (do
      let updated ← db (.updateSandboxCreation t id st d)
      pure (Lifecycle.snapshot updated, handle))
      (fun a w => Inspected t final a w.2) (fun e _ => Unanswered final e) w := by
  refine Safe.seq (Safe.mono safe_observe_look (fun _ _ h => h) fun _ _ h =>
    unanswered_of_not_lifecycle h) fun row w' hrow => ?_
  obtain ⟨hst, hlook, hlast⟩ := hrow
  have hstate : (Lifecycle.snapshot row).state = st := hst
  refine ⟨⟨_, by rw [hstate]; exact hlast⟩, fun hs => ?_, hlook.trans hfinal, fun h => ?_⟩
  · rw [hstate] at hs
    rw [hstop hs, hs] at hlast
    simpa [confirmed] using hlast
  · rw [hstate]
    exact hset h

theorem safe_pollHandle_look {id : ProviderId} {final : Bool} {w : Shared × Hist}
    (hfinal : finalLook w.2 = final) :
    Safe (lossContract cfg p) (Lifecycle.pollHandle t id) (fun a w => Inspected t final a w.2)
      (fun e _ => Unanswered final e) w := by
  refine Safe.seq safe_ext_look fun a w' ha => ?_
  obtain ⟨hlook, -, ⟨s₁, hhead⟩, s, hK⟩ := ha
  have hfinal' : finalLook w'.2 = final := hlook.trans hfinal
  split
  next e =>
    -- An error in a finalization is what the condition rules out.
    refine safe_observed_look hfinal' (by simp) fun h => ?_
    rw [← hfinal] at h
    simp [finalizationAnswered, h] at hK
  next => exact safe_observed_look hfinal' (by simp) fun _ => .inr ⟨rfl, rfl⟩
  next code =>
    refine safe_observed_look hfinal' (fun _ => ?_) fun _ => .inl rfl
    simp [hhead, confirmsAbsence]

theorem safe_reconnectRecord_look {r : SandboxCreationRecord} {final : Bool} {w : Shared × Hist}
    (hfinal : finalLook w.2 = final) :
    Safe (lossContract cfg p) (Lifecycle.reconnectRecord r)
      (fun a w => Inspected r.taskId final a w.2) (fun e _ => Unanswered final e)
      w := by
  -- A reply that the condition rules out in a finalization.
  have hout : ∀ {P : Prop}, (finalLook w.2 = true → False) → final = true → P := by
    intro P h hf
    exact absurd (hfinal.trans hf) h
  unfold Lifecycle.reconnectRecord
  dsimp only
  split
  · refine Safe.seq safe_ext_look fun a w' ha => ?_
    obtain ⟨hlook, -, ⟨s₁, hhead⟩, s, hK⟩ := ha
    have hfinal' : finalLook w'.2 = final := hlook.trans hfinal
    split
    next => exact safe_pollHandle_look hfinal'
    next =>
      refine safe_observed_look hfinal' (fun _ => ?_) fun _ => .inl rfl
      simp [hhead, confirmsAbsence]
    next e hne =>
      refine safe_observed_look hfinal' (by simp) (hout fun h => ?_)
      simp only [finalizationAnswered, h, Bool.not_true, Bool.false_or, decide_eq_true_eq] at hK
      exact hne hK
  · refine Safe.seq safe_ext_look fun a w' ha => ?_
    obtain ⟨hlook, -, ⟨s₁, hhead⟩, s, hK⟩ := ha
    have hfinal' : finalLook w'.2 = final := hlook.trans hfinal
    split
    next e =>
      refine safe_observed_look hfinal' (by simp) (hout fun h => ?_)
      simp [finalizationAnswered, h] at hK
    next =>
      refine safe_observed_look hfinal' (fun _ => ?_) fun _ => .inl rfl
      simp [hhead, confirmsAbsence]
    next id =>
      exact Safe.seq (Safe.mono safe_observe_look (fun _ _ h => h) fun _ _ h =>
        unanswered_of_not_lifecycle h) fun row w'' hrow =>
          safe_pollHandle_look (hrow.2.1.trans hfinal')
    next found hempty hone =>
      have htwo : final = false := by
        by_contra hne
        have hf : finalLook w.2 = true := hfinal.trans (by simpa using hne)
        match found, hempty, hone, hK with
        | [], hempty, _, _ => exact hempty rfl
        | [id], _, hone, _ => exact hone id rfl
        | _ :: _ :: _, _, _, hK => simp [finalizationAnswered, hf] at hK
      exact Safe.seq (Safe.mono safe_observe_look (fun _ _ h => h) fun _ _ h =>
        unanswered_of_not_lifecycle h) fun row w'' hrow => ⟨fun _ => htwo, by simp⟩

/-- The identity of the sandbox, which begins a step. -/
theorem safe_record_look {w : Shared × Hist} :
    Safe (lossContract cfg p) (Lifecycle.record t)
      (fun row w' => row.taskId = t ∧ lastLook t w'.2 = none ∧ finalLook w'.2 = finalizing w.2)
      (fun e _ => Unanswered (finalizing w.2) e) w := by
  obtain ⟨s, h⟩ := w
  refine Safe.bind (safe_db_owing fun s₁ _ _ hK =>
    ⟨trivial, trivial, duty_of_failedBy (by simp [failedBy]), ?_⟩)
  have hreply : reply (.getSandboxCreation t) s₁ = .ok (s₁.ledger.creations.find? t) := rfl
  rw [hreply] at hK ⊢
  cases hq : s₁.ledger.creations.find? t with
  | none =>
      rw [hq] at hK
      exact ⟨fun _ => by simpa [finalizationAnswered] using hK, by simp⟩
  | some row => exact ⟨Table.key_of_find? hq, by simp [lastLook], rfl⟩

/-- A look at the sandbox of `t` from the start. -/
theorem safe_look {w : Shared × Hist} {β : Type} {f : SandboxSnapshot × Option ProviderId → Routine β}
    {post : β → Shared × Hist → Prop} {exn : Exn → Shared × Hist → Prop}
    (hexn : ∀ e w', Unanswered (finalizing w.2) e → exn e w')
    (hf : ∀ a w', Inspected t (finalizing w.2) a w'.2 → Safe (lossContract cfg p) (f a) post exn w') :
    Safe (lossContract cfg p) (do f (← Lifecycle.reconnectRecord (← Lifecycle.record t))) post exn
      w := by
  refine Safe.seq (Safe.mono safe_record_look (fun _ _ h => h) fun e w' h => hexn e w' h)
    fun row w₁ hrow => ?_
  obtain ⟨rfl, -, hfinal⟩ := hrow
  exact Safe.seq (Safe.mono (safe_reconnectRecord_look hfinal) (fun _ _ h => h)
    fun e w' h => hexn e w' h) fun a w' ha => hf a w' ha

/-- A connection is to a sandbox that runs. In a finalization there is none only when the
sandbox is gone. -/
theorem safe_connect_look {w : Shared × Hist} :
    Safe (lossContract cfg p) (Lifecycle.connect t)
      (fun _ w' => known t w'.2 = true ∧ finalLook w'.2 = finalizing w.2)
      (fun e w' => e.isLifecycle = true → finalizing w.2 = true → confirmed t w'.2 = true) w := by
  refine safe_look (fun e w' h he hf => ?_) fun a w₁ ha => ?_
  · rw [h.final he] at hf
    simp at hf
  obtain ⟨snapshot, handle⟩ := a
  dsimp only
  split
  next id hstate =>
    obtain ⟨b, hlast⟩ := ha.recorded
    have hrunning : snapshot.state = .running := hstate
    refine Safe.seq safe_ext_look fun reply w₂ hreply => ?_
    obtain ⟨hlook, hlooks, -, s, hK⟩ := hreply
    split
    next e =>
      refine Safe.seq (Safe.mono safe_observe_look (fun _ _ h => h) fun e _ h he => ?_)
        fun _ w' _ _ hf => ?_
      · simp [h] at he
      · have hfinal : finalLook w₁.2 = true := ha.look.trans hf
        simp [finalizationAnswered, hfinal] at hK
    next https =>
      split
      next =>
        have hlast' : lastLook t w₂.2 = some (.running, b) := by rw [hlooks, hlast, hrunning]
        exact ⟨by simp [known, hlast'], hlook.trans ha.look⟩
      next hplain =>
        intro _ hf
        have hfinal : finalLook w₁.2 = true := ha.look.trans hf
        simp [finalizationAnswered, hfinal, hplain] at hK
  next hother =>
    intro _ hf
    obtain hstop | ⟨hrun, hsome⟩ := ha.settled hf
    · exact ha.stopped hstop
    · obtain ⟨id, hid⟩ := Option.isSome_iff_exists.mp hsome
      exact absurd hid (hother id hrun)

theorem safe_inspect_look {w : Shared × Hist} :
    Safe (lossContract cfg p) (Lifecycle.inspect t)
      (fun snapshot w' => snapshot.state = .stopped → confirmed t w'.2 = true) (fun _ _ => True)
      w :=
  safe_look (fun _ _ _ => trivial) fun _ _ ha => ha.stopped

theorem safe_detach_look {w : Shared × Hist} :
    Safe (lossContract cfg p) (Lifecycle.detach t)
      (fun snapshot w' => snapshot.state = .stopped → confirmed t w'.2 = true) (fun _ _ => True)
      w := by
  refine safe_look (fun _ _ _ => trivial) fun a w₁ ha => ?_
  obtain ⟨snapshot, handle⟩ := a
  dsimp only
  split
  · exact ha.stopped
  · refine Safe.seq safe_ext_look fun reply w₂ hreply => ?_
    split
    · intro hstop
      rw [confirmed, hreply.looks]
      exact ha.stopped hstop
    · exact Safe.seq (Safe.mono safe_observe_look (fun _ _ h => h) fun _ _ _ => trivial)
        fun _ _ _ => trivial

/-! ### Creating -/

/-- The thread is in no finalization and has not found the sandbox in an unknown state. -/
def Steady (t : TaskId) (w : Shared × Hist) : Prop := known t w.2 = true ∧ finalLook w.2 = false

/-- The thread is in no finalization and has not recorded anything of the sandbox yet. -/
def Unlooked (t : TaskId) (w : Shared × Hist) : Prop :=
  lastLook t w.2 = none ∧ finalLook w.2 = false

theorem Unlooked.steady {w : Shared × Hist} (h : Unlooked t w) : Steady t w :=
  ⟨by simp [known, h.1], h.2⟩

/-- How a create request fails for want of a credential. -/
def Uncredited (t : TaskId) (e : Exn) (w : Shared × Hist) : Prop :=
  ∀ text, e = .lifecycle .credentialUnavailable text → Steady t w

theorem uncredited_of_not_lifecycle {e : Exn} {w : Shared × Hist} (h : e.isLifecycle = false) :
    Uncredited t e w := by
  rintro text rfl
  simp [Exn.isLifecycle] at h

theorem keeps_unlooked {r : Routine α} (hr : Makes (Away t) r) :
    Keeps (lossContract cfg p) (Unlooked t) r :=
  keeps_away hr fun look final => look = none ∧ final = false

theorem keeps_steady {r : Routine α} (hr : Makes (Away t) r) :
    Keeps (lossContract cfg p) (Steady t) r :=
  keeps_away hr fun look final => (look.all fun look => look.1 ≠ .unknown) = true ∧ final = false

theorem away_ensureDurable : Makes (Away t) ensureDurable :=
  makes_ensureDurable ⟨rfl, by simp, by simp⟩ fun _ => ⟨rfl, by simp, by simp⟩

theorem safe_ensureDurable_look {w : Shared × Hist} :
    Safe (lossContract cfg p) ensureDurable (fun _ _ => True) (fun e _ => e.isLifecycle = false)
      w := by
  obtain ⟨s, h⟩ := w
  refine Safe.bind (safe_db_owing fun s₁ _ _ _ =>
    ⟨trivial, trivial, duty_of_failedBy (by simp [failedBy]), ?_⟩)
  refine safe_call_owing fun s₂ o a s₃ _ _ _ ha => ⟨trivial, trivial, rfl, ?_⟩
  have ha : s₂.answer p o (.awaitConfirmed (Ledger.revision s₁.ledger)) = some (a, s₃) := ha
  simp only [Shared.answer] at ha
  split at ha
  · obtain ⟨rfl, -⟩ := Prod.mk.inj (Option.some.inj ha)
    rfl
  · split at ha
    · obtain ⟨rfl, -⟩ := Prod.mk.inj (Option.some.inj ha)
      trivial
    · simp at ha

theorem safe_requestSandbox_look {row : SandboxCreationRecord} {w : Shared × Hist} :
    Safe (lossContract cfg p) (Lifecycle.requestSandbox t row) (fun _ _ => True) (Uncredited t)
      w := by
  have hdb : ∀ {id st d} {w : Shared × Hist}, Safe (lossContract cfg p)
      (db (.updateSandboxCreation t id st d)) (fun _ _ => True) (Uncredited t) w :=
    Safe.mono safe_observe_look (fun _ _ _ => trivial) fun _ _ h => uncredited_of_not_lifecycle h
  -- What cannot be resolved is never reported as a missing credential.
  have hlost : ∀ {d text} {w : Shared × Hist}, Safe (lossContract cfg p) (do
      let _ ← db (.updateSandboxCreation t none .unknown d)
      throw (.lifecycle .ambiguousProviderState text) : Routine SandboxSnapshot) (fun _ _ => True)
      (Uncredited t) w :=
    Safe.seq hdb fun _ _ _ => by rintro _ ⟨⟩
  refine Safe.seq safe_ext_look fun reply w _ => ?_
  dsimp only
  split
  · exact hlost
  · exact hlost
  · refine Safe.seq hdb fun row w _ => ?_
    refine Safe.seq (Safe.mono safe_ensureDurable_look (fun _ _ h => h) fun _ _ h =>
      uncredited_of_not_lifecycle h) fun _ w _ => ?_
    refine Safe.seq safe_ext_look fun ready w _ => ?_
    split
    · exact hlost
    · exact Safe.seq hdb fun _ _ _ => trivial

theorem safe_createAbsent_look {task : TaskRecord} {existing : Option SandboxCreationRecord}
    (ht : task.id = t) {w : Shared × Hist} (hw : Unlooked t w) :
    Safe (lossContract cfg p) (Lifecycle.createAbsent cfg task existing) (fun _ _ => True)
      (Uncredited t) w := by
  have hstep : ∀ {β γ : Type} {r : Routine β} {f : β → Routine γ} {post : γ → Shared × Hist → Prop}
      {w : Shared × Hist}, Unlooked t w → Makes (Away t) r →
      (∀ a w, Unlooked t w → Safe (lossContract cfg p) (f a) post (Uncredited t) w) →
      Safe (lossContract cfg p) (r >>= f) post (Uncredited t) w :=
    fun hw hr hf => Safe.seq (Safe.mono (keeps_unlooked hr _ hw) (fun _ _ h => h)
      fun _ _ h _ _ => h.steady) hf
  refine hstep hw (Lifecycle.makes_personalCredential cfg task (fun _ => ⟨rfl, by simp, by simp⟩)
    fun _ => ⟨rfl, by simp, by simp⟩) fun credential w hw => ?_
  refine hstep hw (Lifecycle.makes_githubCredential cfg task
    (fun _ _ _ => ⟨rfl, by simp, by simp⟩) fun _ => ⟨rfl, by simp, by simp⟩) fun _ w hw => ?_
  refine hstep hw (Lifecycle.makes_creationIntent _ cfg existing _ ⟨rfl, by simp, by simp⟩
    (fun _ _ _ => ⟨rfl, by simp, by simp⟩) ⟨rfl, by simp, by simp⟩) fun row w hw => ?_
  refine hstep hw away_ensureDurable fun _ w hw => ?_
  subst ht
  exact safe_requestSandbox_look

/-- Reading the identity of the sandbox begins a step. -/
theorem safe_getSandboxCreation_look {exn : Exn → Shared × Hist → Prop} {w : Shared × Hist} :
    Safe (lossContract cfg p) (db (.getSandboxCreation t))
      (fun row? w' => (lastLook t w'.2 = none ∧ finalLook w'.2 = finalizing w.2) ∧
        ∀ row, row? = some row → row.taskId = t) exn w := by
  obtain ⟨s, h⟩ := w
  refine safe_db_owing fun s₁ _ _ hK =>
    ⟨trivial, trivial, duty_of_failedBy (by simp [failedBy]), ?_⟩
  exact ⟨⟨by simp [lastLook], rfl⟩, fun row hrow => Table.key_of_find? hrow⟩

theorem safe_get_look {exn : Exn → Shared × Hist → Prop} {w : Shared × Hist} :
    Safe (lossContract cfg p) (db (.get t none)) (fun task? w => finalizing w.2 = false ∧
      ∀ task, task? = some task → task.id = t) exn w := by
  obtain ⟨s, h⟩ := w
  refine safe_db_owing fun s₁ _ _ hK =>
    ⟨trivial, trivial, duty_of_failedBy (by simp [failedBy]), ?_⟩
  refine ⟨?_, fun task htask => Table.key_of_find? (Option.filter_eq_some_iff.mp htask).1⟩
  exact finalizing_cons (by simp)

theorem safe_reset_look {exn : Exn → Shared × Hist → Prop} {w : Shared × Hist} :
    Safe (lossContract cfg p) (db (.resetSandboxForWake t)) (fun _ w => finalizing w.2 = false)
      exn w := by
  obtain ⟨s, h⟩ := w
  exact safe_db_owing fun s₁ _ _ hK =>
    ⟨trivial, trivial, duty_of_failedBy (by simp [failedBy]), finalizing_cons (by simp)⟩

theorem safe_create_look {w : Shared × Hist} :
    Safe (lossContract cfg p) (Lifecycle.create cfg t) (fun _ _ => True) (Uncredited t) w := by
  refine Safe.seq (Safe.mono safe_ensureDurable_look (fun _ _ h => h) fun _ _ h =>
    uncredited_of_not_lifecycle h) fun _ w _ => ?_
  refine Safe.seq safe_get_look fun task? w htask => ?_
  split
  · rintro _ ⟨⟩
  next task =>
    have ht : task.id = t := htask.2 task rfl
    refine Safe.seq safe_getSandboxCreation_look fun existing? w' hrow => ?_
    obtain ⟨⟨hlast, hfinal⟩, hrow⟩ := hrow
    split
    · exact safe_createAbsent_look ht ⟨hlast, hfinal.trans htask.1⟩
    next existing =>
      obtain rfl : existing.taskId = t := hrow existing rfl
      refine Safe.seq (Safe.mono (safe_reconnectRecord_look rfl) (fun _ _ h => h)
        fun e w h text he => absurd he (h.credited text)) fun a w ha => ?_
      dsimp only
      split
      · trivial
      · split
        · rintro _ ⟨⟩
        · refine Safe.seq safe_reset_look fun _ w hreset => ?_
          refine Safe.seq safe_getSandboxCreation_look fun row? w' hrow => ?_
          exact safe_createAbsent_look ht ⟨hrow.1.1, hrow.1.2.trans hreset⟩

end Looks

/-! ### The writes of `FAILED` -/

section Writes

variable {cfg : Config} {p : Pid} {t : TaskId}

theorem safe_markSandboxLost {d : String} {w : Shared × Hist} (hw : confirmed t w.2 = true) :
    Safe (lossContract cfg p) (db (.markSandboxLost t d)) (fun _ _ => True) (fun _ _ => True)
      w := by
  obtain ⟨s, h⟩ := w
  refine safe_db_owing fun s₁ _ _ _ => ⟨trivial, trivial, duty_of_failedBy ?_, ?_⟩
  · rintro t' d ⟨⟩ ht
    obtain rfl : t = t' := Option.some.inj ht
    exact ⟨known_of_confirmed hw, fun _ => hw⟩
  · cases reply (.markSandboxLost t d) s₁ <;> trivial

theorem safe_finishFailed {o c : Option String} {w : Shared × Hist} (hw : known t w.2 = true)
    (hloss : failsForLoss (.finishTask t .failed o c) w.2 = true → confirmed t w.2 = true) :
    Safe (lossContract cfg p) (db (.finishTask t .failed o c)) (fun _ _ => True) (fun _ _ => True)
      w := by
  obtain ⟨s, h⟩ := w
  refine safe_db_owing fun s₁ _ _ _ => ⟨trivial, trivial, duty_of_failedBy ?_, ?_⟩
  · rintro t' d ⟨⟩ ht
    obtain rfl : t = t' := Option.some.inj ht
    exact ⟨hw, hloss⟩
  · cases reply (.finishTask t .failed o c) s₁ <;> trivial

theorem safe_steadyFailed {o c : Option String} {w : Shared × Hist} (hw : Steady t w) :
    Safe (lossContract cfg p) (db (.finishTask t .failed o c)) (fun _ _ => True) (fun _ _ => True)
      w :=
  safe_finishFailed hw.1 (by simp [failsForLoss, hw.2])

/-- A step that looks elsewhere, and the rest of the program. -/
theorem safe_confirmed_step {β γ : Type} {r : Routine β} {f : β → Routine γ} {w : Shared × Hist}
    (hw : confirmed t w.2 = true) (hr : Makes (Away t) r)
    (hf : ∀ a w, confirmed t w.2 = true →
      Safe (lossContract cfg p) (f a) (fun _ _ => True) (fun _ _ => True) w) :
    Safe (lossContract cfg p) (r >>= f) (fun _ _ => True) (fun _ _ => True) w :=
  Safe.seq (Safe.mono (keeps_away hr (fun look _ => decide (look = some (.stopped, true)) = true) w
    hw) (fun _ _ h => h) fun _ _ _ => trivial) hf

end Writes

/-! ### The scheduler -/

section Scheduler

variable {cfg : Config} {p : Pid}

theorem keeps_loss_terminateReserved (t : TaskId) :
    Keeps (lossContract cfg p) (fun _ => True) (Scheduler.terminateReserved t) := by
  refine Keeps.bind (keeps_spares_inert (Lifecycle.inert_terminate t)).attempt fun r => ?_
  split
  · split
    · exact keeps_spares_db rfl
    · exact Keeps.throw _
  · split
    · exact keeps_spares_db rfl
    · exact keeps_spares_db rfl

theorem safe_reconcileStopped_look {r : ReservationRecord} {creation : SandboxCreationRecord}
    {snapshot : SandboxSnapshot} {w : Shared × Hist} (hw : confirmed r.taskId w.2 = true) :
    Safe (lossContract cfg p) (Scheduler.reconcileStopped r creation snapshot) (fun _ _ => True)
      (fun _ _ => True) w := by
  have hdb : ∀ {c : LedgerCall} {w : Shared × Hist}, failedBy (.db c) = none →
      Safe (lossContract cfg p) (db c) (fun _ _ => True) (fun _ _ => True) w :=
    fun hc => keeps_spares_db hc _ trivial
  refine safe_confirmed_step hw (makes_db ⟨rfl, by simp, by simp⟩) fun task? w hw => ?_
  split
  · exact hdb rfl
  · refine safe_confirmed_step hw ?_ fun again w hw => ?_
    · unfold Scheduler.createAgain
      split
      · trivial
      · split
        · exact Makes.bind (makes_db ⟨rfl, by simp, by simp⟩) fun _ => trivial
        · trivial
    · split
      · exact hdb rfl
      · refine safe_confirmed_step hw (makes_db ⟨rfl, by simp, by simp⟩) fun row? w hw => ?_
        split
        · exact Safe.seq (hdb rfl) fun _ _ _ => hdb rfl
        · exact safe_markSandboxLost hw

theorem failedBy_adopted (t : TaskId) (phase : ReservationPhase) (task? : Option TaskRecord) :
    failedBy (.db (.updateReservation t phase none (some (Scheduler.adoptedState phase task?)))) =
      none := by
  have hstate : Scheduler.adoptedState phase task? ≠ .failed := by
    unfold Scheduler.adoptedState
    split
    · simp
    · split
      · split
        next h => rcases h with h | h <;> simp [h]
        next => simp
      · simp
  unfold failedBy
  split <;> simp_all

theorem keeps_loss_reconcileLive (r : ReservationRecord) :
    Keeps (lossContract cfg p) (fun _ => True) (Scheduler.reconcileLive r) := by
  unfold Scheduler.reconcileLive
  split
  · exact keeps_loss_terminateReserved r.taskId
  · exact Keeps.bind (keeps_spares_db rfl) fun task? => keeps_spares_db (failedBy_adopted _ _ _)

theorem safe_getReservation_look {t : TaskId} {exn : Exn → Shared × Hist → Prop}
    {w : Shared × Hist} :
    Safe (lossContract cfg p) (db (.getReservation t)) (fun q? w' => lastLook t w'.2 = lastLook t w.2 ∧
      ∀ q, q? = some q → q.taskId = t) exn w := by
  obtain ⟨s, h⟩ := w
  refine safe_db_owing fun s₁ _ _ hK =>
    ⟨trivial, trivial, duty_of_failedBy (by simp [failedBy]), ?_⟩
  exact ⟨lastLook_of_away ⟨rfl, by simp, by simp⟩, fun q hq => Table.key_of_find? hq⟩

theorem keeps_loss_reconcileReservation (r : ReservationRecord) :
    Keeps (lossContract cfg p) (fun _ => True) (Scheduler.reconcileReservation r) := by
  refine Keeps.bind (keeps_spares_db rfl) fun creation? => ?_
  split
  · split
    · exact keeps_spares_db rfl
    · exact keeps_spares_db rfl
  next creation =>
    intro w _
    refine Safe.bind (Safe.attempt (Safe.mono safe_inspect_look (fun snapshot w hs => ?_)
      fun e w _ => ?_))
    · refine Safe.seq (safe_getReservation_look (t := r.taskId)) fun current? w' hcur => ?_
      split
      · trivial
      next current =>
        obtain ⟨hlook, hkey⟩ := hcur
        split
        · trivial
        · split
          · exact keeps_spares_db rfl w' trivial
          · split
            next hstop =>
              refine safe_reconcileStopped_look ?_
              rw [hkey current rfl, confirmed, hlook]
              exact hs hstop
            next => exact keeps_loss_reconcileLive current w' trivial
    · split
      next => exact keeps_spares_db rfl w trivial
      next => exact keeps_spares_db rfl w trivial
      next => trivial
      next => trivial

theorem keeps_loss_reconcile : Keeps (lossContract cfg p) (fun _ => True) Scheduler.reconcile := by
  refine Keeps.bind (keeps_spares_db rfl) fun _ => ?_
  refine Keeps.bind (keeps_spares_db rfl) fun rs => ?_
  refine Keeps.bind (Keeps.forM fun r _ => keeps_loss_reconcileReservation r) fun _ => ?_
  exact keeps_spares_inert Lifecycle.inert_ensureDurable

theorem keeps_loss_stop : Keeps (lossContract cfg p) (fun _ => True) Scheduler.stop := by
  refine Keeps.bind (keeps_spares_db rfl) fun rs => Keeps.forM fun r _ => ?_
  refine Keeps.bind (keeps_spares_db rfl) fun creation? => ?_
  split
  · exact Keeps.pure _
  · refine Keeps.tryCatch (fun w _ => ?_) fun e => ?_
    · refine Safe.seq (safe_detach_look (t := r.taskId)) fun snapshot w hs => ?_
      split
      next hstop =>
        split
        · exact keeps_spares_db rfl w trivial
        · exact safe_markSandboxLost (hs hstop)
      next =>
        split
        · exact keeps_spares_db rfl w trivial
        · trivial
    · split
      · exact keeps_spares_db rfl
      · exact Keeps.throw _

theorem keeps_loss_provision (t : TaskId) :
    Keeps (lossContract cfg p) (fun _ => True) (Scheduler.provision cfg t) := by
  refine Keeps.bind (keeps_spares_inert Lifecycle.inert_ensureDurable) fun _ w _ => ?_
  refine Safe.bind (Safe.attempt (Safe.mono safe_create_look (fun snapshot w _ => ?_)
    fun e w hcred => ?_))
  · show Safe _ (if snapshot.state = .running then _ else _) _ _ w
    split
    · exact keeps_spares_db rfl w trivial
    · exact keeps_spares_db rfl w trivial
  · split
    next text heq =>
      obtain rfl := Except.error.inj heq
      exact Safe.seq (safe_steadyFailed (hcred text rfl)) fun _ w _ => keeps_spares_db rfl w trivial
    next => exact keeps_spares_db rfl w trivial
    next => exact keeps_spares_db rfl w trivial
    next => trivial
    next heq => simp at heq

theorem spares_of_upkeepCall {c : Call} (hc : Scheduler.upkeepCall c = true) : Spares c := by
  unfold Spares failedBy
  split <;> simp_all [Scheduler.upkeepCall, Scheduler.tendCall, Call.inert, LedgerCall.inert]

/-- Admission owes nothing but what the creation of a sandbox owes. -/
theorem admits_loss :
    Admits (lossContract cfg p) cfg (fun _ => True) (fun _ _ => True) where
  upkeep hr := keeps_spares (hr.mono fun _ hc =>
    spares_of_upkeepCall (Scheduler.upkeepCall_of_tendCall hc))
  maintain := keeps_spares ((Scheduler.makes_maintenance cfg).mono fun _ => spares_of_upkeepCall)
  list w _ := Safe.mono (keeps_spares_db rfl w trivial) (fun _ _ _ => ⟨trivial, fun _ _ _ => trivial⟩)
    fun _ _ _ => trivial
  reserve _ w _ := Safe.mono (keeps_spares_db rfl w trivial)
    (fun _ _ _ => ⟨trivial, fun _ _ => trivial⟩) fun _ _ _ => trivial
  stop _ w _ _ := Safe.mono (keeps_spares (makes_stopIsSet rfl) w trivial)
    (fun _ _ _ => ⟨trivial, fun _ _ => trivial⟩) fun _ _ _ => trivial
  provision t _ w _ _ _ := Safe.mono (keeps_loss_provision t w trivial)
    (fun _ _ _ => ⟨trivial, fun _ _ => trivial⟩) fun _ _ _ => trivial

end Scheduler

/-! ### The loop -/

section Loop

variable {cfg : Config} {p : Pid} {t : TaskId}

theorem keeps_loss_attemptCleanup (t : TaskId) :
    Keeps (lossContract cfg p) (fun _ => True) (Manager.attemptCleanup t) := by
  refine keeps_spares ((Manager.makes_attemptCleanup t).mono fun c hc => ?_)
  unfold Spares failedBy
  split <;> simp_all [Manager.cleanupCall, Call.inert, LedgerCall.inert]

theorem safe_failExecutionStart_look {detail : String} {w : Shared × Hist} (hw : Steady t w) :
    Safe (lossContract cfg p) (Manager.failExecutionStart t detail) (fun _ _ => True)
      (fun _ _ => True) w := by
  refine Safe.seq (safe_steadyFailed hw) fun _ w _ => ?_
  refine Keeps.bind (keeps_spares_db rfl) (fun _ => ?_) w trivial
  refine Keeps.bind (keeps_spares_inert Lifecycle.inert_ensureDurable) fun _ => ?_
  exact keeps_loss_attemptCleanup t

theorem spares_of_followCall {c : Call} (hc : followCall t c = true) : Spares c := by
  unfold Spares failedBy
  split <;> simp_all [followCall, Manager.followupCall, Manager.recordCall, Manager.saveCall, Manager.sendCall,
    Call.inert, LedgerCall.inert]

theorem keeps_loss_follow {α : Type} {r : Routine α} (hr : Makes (fun c => followCall t c = true) r) :
    Keeps (lossContract cfg p) (fun _ => True) r :=
  keeps_spares (hr.mono fun _ => spares_of_followCall)

theorem safe_startRaised_look {e : Exn} {w : Shared × Hist} (hw : Steady t w) :
    Safe (lossContract cfg p) (Manager.startRaised t e) (fun _ _ => True) (fun _ _ => True) w := by
  unfold Manager.startRaised
  split
  · exact Safe.seq (safe_failExecutionStart_look hw) fun _ _ _ => trivial
  · split
    · trivial
    · split
      · exact Safe.seq (safe_failExecutionStart_look hw) fun _ _ _ => trivial
      · exact Safe.seq (keeps_spares_db rfl w trivial) fun _ _ _ => trivial

/-- A step that looks elsewhere, and the rest of the program. -/
theorem Steady.step {β γ : Type} {r : Routine β} {f : β → Routine γ} {w : Shared × Hist}
    (hw : Steady t w) (hr : Makes (Away t) r)
    (hf : ∀ a w, Steady t w →
      Safe (lossContract cfg p) (f a) (fun _ _ => True) (fun _ _ => True) w) :
    Safe (lossContract cfg p) (r >>= f) (fun _ _ => True) (fun _ _ => True) w :=
  Safe.seq (Safe.mono (keeps_steady hr w hw) (fun _ _ h => h) fun _ _ _ => trivial) hf

theorem safe_startExecution_look {task : TaskRecord} {w : Shared × Hist} (hw : Steady t w) :
    Safe (lossContract cfg p) (Manager.startExecution cfg t task) (fun _ _ => True)
      (fun _ _ => True) w := by
  refine hw.step ?_ fun deadline w hw => ?_
  · refine Makes.bind (makes_db ⟨rfl, by simp, by simp⟩) fun r? => ?_
    split
    · trivial
    · exact Makes.bind (makes_now ⟨rfl, by simp, by simp⟩) fun _ => trivial
  refine hw.step (makes_now ⟨rfl, by simp, by simp⟩) fun moment w hw => ?_
  dsimp only
  split
  · exact Safe.seq (safe_failExecutionStart_look hw) fun _ _ _ => trivial
  · refine hw.step (makes_db ⟨rfl, by simp, by simp⟩) fun _ w hw => ?_
    refine hw.step (Manager.makes_authorizeExecution task _ (fun _ _ => ⟨rfl, by simp, by simp⟩)
      away_ensureDurable) fun _ w hw => ?_
    refine hw.step (Makes.attempt ?_) fun reply w hw => ?_
    · refine Makes.bind (Manager.makes_freshGithubToken cfg task fun _ _ _ =>
        ⟨rfl, by simp, by simp⟩) fun token => ?_
      exact Makes.bind (makes_ext ⟨rfl, by simp, by simp⟩) fun reply => makes_ofReply reply
    · split
      · exact safe_startRaised_look hw
      · exact keeps_loss_follow ((Manager.makes_startAccepted t task _).mono fun _ =>
          Follows.followCall_of_recordCall) w trivial

theorem follows_loss : Follows (lossContract cfg p) t (fun _ => True) (fun _ => True) where
  escape _ _ := trivial
  follow := keeps_loss_follow
  sleep w _ := by
    refine keeps_spares ((Manager.makes_sleepWorkspace t).mono fun c hc => ?_) w trivial
    unfold Spares failedBy
    split <;> simp_all [Manager.sleepCall, Call.inert, LedgerCall.inert]

theorem safe_currentSupervision_look {task : TaskRecord} {w : Shared × Hist} (hw : Steady t w) :
    Safe (lossContract cfg p) (Manager.currentSupervision cfg t task) (fun _ _ => True)
      (fun _ _ => True) w := by
  have hfollow : ∀ receipt w, Safe (lossContract cfg p) (Manager.followupSupervision cfg t receipt)
      (fun _ _ => True) (fun _ _ => True) w := by
    intro receipt w
    refine Safe.seq (keeps_loss_follow ((Manager.makes_startFollowup cfg t receipt).mono fun _ =>
      Follows.followCall_of_followupCall) w trivial) fun _ w _ => ?_
    exact keeps_spares_db rfl w trivial
  refine hw.step (makes_db ⟨rfl, by simp, by simp⟩) fun row? w hw => ?_
  split
  · exact safe_startExecution_look hw
  · split
    · exact safe_startExecution_look hw
    · split
      · split
        · trivial
        · refine Safe.seq (keeps_spares_db rfl w trivial) fun receipt? w _ => ?_
          split
          · trivial
          · exact hfollow _ w
      · refine Safe.seq (keeps_spares_inert (makes_ext rfl) w trivial) fun reply w _ => ?_
        split
        · trivial
        · refine Safe.seq (keeps_spares_db rfl w trivial) fun pending w _ => ?_
          split
          · trivial
          · exact hfollow _ w
        · trivial

theorem safe_ensureExecutionStarted_look {w : Shared × Hist} (hw : Steady t w) :
    Safe (lossContract cfg p) (Manager.ensureExecutionStarted cfg t) (fun _ _ => True)
      (fun _ _ => True) w := by
  refine hw.step (makes_db ⟨rfl, by simp, by simp⟩) fun task? w hw => ?_
  split
  · trivial
  · refine Safe.seq (safe_currentSupervision_look hw) fun row? w _ => ?_
    split
    · trivial
    next row =>
      refine Safe.seq (keeps_spares_inert (Manager.inert_refreshSupervision t row) w trivial)
        fun _ _ _ => trivial

/-- A connection that driving asks for is not that of a finalization. -/
theorem safe_adoptQueued_look {task : TaskRecord} {w : Shared × Hist} (hw : finalizing w.2 = false) :
    Safe (lossContract cfg p) (Manager.adoptQueued t task) (fun _ w => finalizing w.2 = false)
      (fun _ _ => True) w := by
  obtain ⟨s, h⟩ := w
  unfold Manager.adoptQueued
  split
  · refine safe_db_owing fun s₁ _ _ _ =>
      ⟨trivial, trivial, duty_of_failedBy (by simp [failedBy]), ?_⟩
    cases reply (.updateReservation t .running none (some .running)) s₁ with
    | ok a => exact finalizing_cons (by simp)
    | error e => trivial
  · exact hw

theorem keeps_loss_driveRunning :
    Keeps (lossContract cfg p) (fun _ => True) (Manager.driveRunning cfg t) := by
  intro w _
  refine Safe.seq safe_get_look fun task? w htask => ?_
  split
  · trivial
  next task =>
    refine Safe.seq (safe_adoptQueued_look htask.1) fun _ w hw => ?_
    refine Safe.bind (Safe.attempt (Safe.mono safe_connect_look (fun _ w' hconn => ?_)
      fun e w' _ => ?_))
    · refine Safe.seq (safe_ensureExecutionStarted_look ⟨hconn.1, hconn.2.trans hw⟩)
        fun row? w _ => ?_
      split
      · trivial
      · exact follows_loss.driveExecution task _ trivial
    · dsimp only
      split
      · exact keeps_spares_db rfl w' trivial
      · trivial

theorem keeps_loss_finalizeConnected (row : SupervisionRecord) :
    Keeps (lossContract cfg p) (fun _ => True) (Manager.finalizeConnected cfg t row) := by
  refine Keeps.bind (keeps_spares_inert (Manager.inert_refreshSupervision t row)) fun row => ?_
  refine Keeps.bind (keeps_spares_inert (Manager.inert_syncConversation cfg t row
    (Manager.inert_tailGap t))) fun _ => ?_
  refine Keeps.bind (keeps_spares_inert (makes_ext rfl)) fun reply => ?_
  refine Keeps.bind (keeps_spares_inert (makes_ofReply reply)) fun manifest => ?_
  refine Keeps.bind (keeps_spares_db rfl) fun _ => ?_
  dsimp only
  split
  · exact Keeps.bind (keeps_spares_db rfl) fun _ => keeps_spares_db rfl
  · exact Keeps.bind (keeps_spares_db rfl) fun _ => keeps_spares_db rfl

/-- A finalization fails a task only when the provider has confirmed that its sandbox is
gone. -/
theorem safe_finalizeLocked_look {s s₀ : Shared} {h : Hist} :
    Safe (lossContract cfg p) (Manager.finalizeLocked cfg t) (fun _ _ => True) (fun _ _ => True)
      (s, ⟨.acquire (.settlement t), (), s₀⟩ :: h) := by
  refine Safe.bind (safe_db_owing fun s₁ _ _ _ =>
    ⟨trivial, trivial, duty_of_failedBy (by simp [failedBy]), ?_⟩)
  refine Safe.bind (safe_db_owing fun s₂ _ _ _ =>
    ⟨trivial, trivial, duty_of_failedBy (by simp [failedBy]), ?_⟩)
  have hreply : reply (.getSupervision t) s₂ = .ok (Ledger.getSupervision t s₂.ledger) := rfl
  rw [hreply]
  dsimp only
  split
  next task row _ _ =>
    split
    · exact keeps_loss_attemptCleanup t _ trivial
    · refine Safe.bind (Safe.attempt (Safe.mono safe_connect_look (fun _ w _ => ?_)
        fun e w hconn => ?_))
      · exact keeps_loss_finalizeConnected row w trivial
      · dsimp only
        split
        next hlife =>
          have hgone : confirmed t w.2 = true := hconn hlife rfl
          refine safe_confirmed_step hgone (makes_db ⟨rfl, by simp, by simp⟩) fun _ w hgone => ?_
          refine Safe.seq (safe_finishFailed (known_of_confirmed hgone) fun _ => hgone)
            fun _ w _ => ?_
          exact keeps_spares_db rfl w trivial
        next => trivial
  next => trivial

theorem keeps_loss_finalize :
    Keeps (lossContract cfg p) (fun _ => True) (Manager.finalize cfg t) := by
  rintro ⟨s, h⟩ _
  refine Safe.bind (safe_call_owing fun s₁ o a s₂ _ _ _ _ => ⟨trivial, trivial, rfl, ?_⟩)
  refine (Co.safe_pure (E := lossContract cfg p) a).mpr ?_
  refine Safe.seq (Safe.attempt_either safe_finalizeLocked_look) fun r w _ => ?_
  have hrelease : Keeps (lossContract cfg p) (fun _ => True)
      (ExceptT.mk (Prog.call (Call.release (.settlement t)) fun r => .ret (.ok r)) : Routine Unit) :=
    keeps_spares ⟨rfl, fun _ => trivial⟩
  refine Keeps.bind hrelease (fun _ => ?_) w trivial
  cases r with
  | ok a => exact Keeps.pure a
  | error e => exact Keeps.throw e

theorem keeps_loss_activation :
    Keeps (lossContract cfg p) (fun _ => True) (App.activation cfg t) := by
  intro w _
  refine safe_activation (I := fun _ => True) (X := fun _ => True) (fun w _ => ?_) (fun d w _ => ?_)
    (keeps_spares ⟨rfl, fun _ => trivial⟩) trivial
  · refine safe_round (I := fun _ => True) (B := fun _ => True) (F := fun _ => True)
      (A := fun _ => True) (fun w _ => ?_) (keeps_loss_attemptCleanup t) keeps_loss_finalize
      keeps_loss_driveRunning trivial
    exact Safe.mono (keeps_spares_db rfl w trivial)
      (fun _ _ _ _ _ => ⟨fun _ => trivial, fun _ => trivial, fun _ => trivial⟩) fun _ _ _ => trivial
  · exact keeps_spares_db rfl w trivial

end Loop

/-! ### Every run -/

theorem spares_of_cancelCall {t : TaskId} {c : Call} (hc : Service.cancelCall t c = true) :
    Spares c := by
  unfold Spares failedBy
  split <;> simp_all [Service.cancelCall]

theorem spares_of_messageCall {t : TaskId} {c : Call} (hc : Manager.messageCall t c = true) :
    Spares c := by
  unfold Spares failedBy
  split <;> simp_all [Manager.messageCall, Call.inert, LedgerCall.inert]

theorem spares_of_routeCall {q : Route} {c : Call} (hc : Routes.routeCall q c = true) :
    Spares c := by
  unfold Spares failedBy
  split <;> cases q <;> simp_all [Routes.routeCall, Service.submitCall, Manager.messageCall,
    Service.cancelCall, Call.inert, LedgerCall.inert]

theorem sound_loss {cfg : Config} :
    Machine.Sound (finalizationAnswered cfg) (fun _ => True) (fun _ _ _ => True)
      (fun _ _ _ => True) (fun _ _ _ => True) (lossConfirmed cfg) where
  rely_trans _ _ _ _ _ _ := trivial
  guar_rely _ _ _ _ _ _ := trivial
  event _ _ _ _ _ _ := ⟨trivial, fun _ _ => trivial⟩
  job p j s prog s' _ h := by
    obtain ⟨hstart, -⟩ := start_cases h
    refine ⟨trivial, trivial, ?_⟩
    have hrun : ∀ {α : Type} {r : Routine α} {f : α → Ending},
        Keeps (lossContract cfg p) (fun _ => True) r →
        (r.ending f).Safe (lossContract cfg p) (fun _ _ => True) (s', []) :=
      fun hr => safe_ending (hr _ trivial)
    cases hstart with
    | boot =>
        exact hrun (admits_loss.lifespan keeps_loss_reconcile (keeps_spares ⟨rfl, fun _ => trivial⟩))
    | cycle => exact hrun (admits_loss.dispatchOnce keeps_loss_reconcile)
    | shutdown => exact hrun keeps_loss_stop
    | iterate t => exact hrun keeps_loss_activation
    | message n t m content =>
        exact hrun (keeps_spares ((Manager.makes_sendMessage cfg t m content).mono fun _ =>
          spares_of_messageCall))
    | cancel n t owner =>
        exact hrun (keeps_spares ((Service.makes_cancel t owner).mono fun _ => spares_of_cancelCall))
    | route n r =>
        exact hrun (keeps_spares ((Routes.makes_handle cfg r).mono fun _ => spares_of_routeCall))

/-- In every run in which the connect request of a finalization is answered, a task is
failed for the loss of its sandbox only in a step in which the provider has confirmed
that loss, and no task is failed in a step that found its sandbox in an unknown state. -/
theorem failed_only_on_confirmed_loss (cfg : Config) (acts : List (Act cfg))
    (h : Machine.keeps (finalizationAnswered cfg) System.init acts = true) :
    Machine.keeps (lossConfirmed cfg) System.init acts = true :=
  sound_loss.keeps_duty (fun _ _ => trivial) (fun _ _ => rfl) (ok_init trivial) h

/-- The sandbox of task 1 is gone when the next cycle looks at it. -/
def lostRun : List (Act demo) :=
  provisioned ++ [.start .scheduler .cycle] ++ calls .scheduler 1 gone ++ snapshot ++
    calls .scheduler 11 gone

theorem failed_only_on_confirmed_loss_lost :
    taskState 1 ((backend demo).run System.init lostRun) = some .failed ∧
      Machine.keeps (lossConfirmed demo) System.init lostRun = true :=
  ⟨by decide +kernel, failed_only_on_confirmed_loss demo lostRun (by decide +kernel)⟩

/-- The provider does not hand out a connect token in time. -/
def unreachable : Oracle :=
  { fine with ext := fun c =>
      match c with
      | .providerConnectToken _ => .error (.other "TimeoutError" "")
      | c => passed.ext c }

/-- The execution of task 1 has completed. When its loop finalizes it, the provider knows
the sandbox and says that it runs, and the request for a connect token times out. -/
def unreachableRun : List (Act demo) :=
  supervised ++ [.start (.loop 1) .iterate] ++ calls (.loop 1) 13 passed ++ snapshot ++
    calls (.loop 1) 8 passed ++ [.start (.loop 1) .iterate] ++ calls (.loop 1) 12 unreachable

theorem unreachable_sandbox_fails_task :
    taskState 1 ((backend demo).run System.init unreachableRun) = some .failed ∧
      ((backend demo).run System.init unreachableRun).any (fun w => w.shared.live.length = 1) ∧
      Machine.keeps (lossConfirmed demo) System.init unreachableRun = false := by
  decide +kernel

end GgAgent.Safety
