import GgAgent.Lib.Program
import Mathlib.Logic.Function.Basic

/-!
A pool of cooperative programs over one shared state.

A pool has a shared state and, for every name, at most one thread: the residual
program and the calls it has made since it was started, with their replies. One
act of the pool is a call of one thread, the start of a program under a name that
is at rest, or an event from outside, which may kill all threads at once. What an
act may do is a `Machine`; it is executable, so that a run is evaluated and not
only reasoned about.

A `Cond` restricts the acts of a run by what is known just before each of them:
the shared state, and for a call the history of its thread, which also has the
state that each earlier call of the thread found. `Machine.Sound` is
what has to be shown for an invariant of all runs that meet a condition: each
program that can be started is safe for its contract, and events keep the
invariant. The contract of a thread is the rely/guarantee one, with its own
history as private state. It may owe a second condition on the calls it makes; then
every run that meets the first one meets the second.
-/

namespace GgAgent.Lib

/-- A call a program has made, the reply, and the shared state the call found. -/
structure Entry {C : Type} (Out : C → Type) (σ : Type) where
  call : C
  reply : Out call
  found : σ

/-- A running program and its history, the last call first. -/
structure Thread {C : Type} (Out : C → Type) (ρ σ : Type) where
  prog : Prog Out ρ
  hist : List (Entry Out σ)

structure Pool (π : Type) {C : Type} (Out : C → Type) (ρ σ : Type) where
  shared : σ
  threads : π → Option (Thread Out ρ σ)

/-- What calls, starts and events do. `none` is an act that is not possible now:
a lock that is held, a program that may not be started yet. -/
structure Machine (π : Type) {C : Type} (Out : C → Type) (ρ σ : Type) where
  Oracle : Type
  Job : Type
  Event : Type
  answer : π → Oracle → (c : C) → σ → Option (Out c × σ)
  job : π → Job → σ → Option (Prog Out ρ × σ)
  event : Event → σ → Option σ
  kills : Event → Bool

namespace Machine

variable {π C : Type} {Out : C → Type} {ρ σ : Type}

inductive Act (M : Machine π Out ρ σ)
  | call (p : π) (o : M.Oracle)
  | start (p : π) (j : M.Job)
  | event (e : M.Event)

/-- No program of this name is suspended midway. -/
def AtRest (w : Pool π Out ρ σ) (p : π) : Prop :=
  ∀ c k h, w.threads p ≠ some ⟨.call c k, h⟩

/-- The name is free for another start. -/
def free (w : Pool π Out ρ σ) (p : π) : Bool :=
  match w.threads p with
  | some ⟨.call _ _, _⟩ => false
  | _ => true

theorem free_iff {w : Pool π Out ρ σ} {p : π} : free w p = true ↔ AtRest w p := by
  unfold free AtRest
  split
  next c k h heq => simp [heq]
  next hne => exact ⟨fun _ c k h heq => hne c k h heq, fun _ => rfl⟩

instance (w : Pool π Out ρ σ) (p : π) : Decidable (AtRest w p) :=
  decidable_of_iff _ free_iff

variable [DecidableEq π] (M : Machine π Out ρ σ)

def step (w : Pool π Out ρ σ) : M.Act → Option (Pool π Out ρ σ)
  | .call p o =>
    match w.threads p with
    | some ⟨.call c k, h⟩ => (M.answer p o c w.shared).map fun a =>
        ⟨a.2, Function.update w.threads p (some ⟨k a.1, ⟨c, a.1, w.shared⟩ :: h⟩)⟩
    | _ => none
  | .start p j =>
    if free w p then (M.job p j w.shared).map fun a =>
      ⟨a.2, Function.update w.threads p (some ⟨a.1, []⟩)⟩
    else none
  | .event e => (M.event e w.shared).map fun s =>
      ⟨s, if M.kills e then fun _ => none else w.threads⟩

def run : Pool π Out ρ σ → List M.Act → Option (Pool π Out ρ σ)
  | w, [] => some w
  | w, a :: as => (M.step w a).bind fun w' => run w' as

theorem run_append (w : Pool π Out ρ σ) (as bs : List M.Act) :
    M.run w (as ++ bs) = (M.run w as).bind fun w' => M.run w' bs := by
  induction as generalizing w with
  | nil => rfl
  | cons a as ih =>
      simp only [List.cons_append, run]
      cases M.step w a with
      | none => rfl
      | some w' => exact ih w'

/-- The rest of a run. -/
theorem run_rest {w w₁ w₂ : Pool π Out ρ σ} {as bs : List M.Act} (h₁ : M.run w as = some w₁)
    (h₂ : M.run w (as ++ bs) = some w₂) : M.run w₁ bs = some w₂ := by
  rw [run_append, h₁] at h₂
  exact h₂

theorem run_singleton (w : Pool π Out ρ σ) (a : M.Act) : M.run w [a] = M.step w a := by
  simp only [run]
  cases M.step w a <;> rfl

/-- The last act of a run. -/
theorem run_last {w w' : Pool π Out ρ σ} {as : List M.Act} {a : M.Act}
    (h : M.run w (as ++ [a]) = some w') : ∃ w₁, M.run w as = some w₁ ∧ M.step w₁ a = some w' := by
  rw [run_append] at h
  obtain ⟨w₁, h₁, h₂⟩ := Option.bind_eq_some_iff.mp h
  rw [run_singleton] at h₂
  exact ⟨w₁, h₁, h₂⟩

/-! ### Conditions on runs -/

/-- A condition on acts: on a call, by its thread's name and history and by the
shared state before it; on an event, by the shared state before it. -/
structure Cond where
  call : π → List (Entry Out σ) → (c : C) → σ → Out c → Bool := fun _ _ _ _ _ => true
  event : M.Event → σ → Bool := fun _ _ => true

variable {M}

/-- The act meets the condition in `w`. -/
def meets (K : M.Cond) (w : Pool π Out ρ σ) : M.Act → Bool
  | .call p o =>
    match w.threads p with
    | some ⟨.call c _, h⟩ =>
      match M.answer p o c w.shared with
      | some a => K.call p h c w.shared a.1
      | none => true
    | _ => true
  | .start _ _ => true
  | .event e => K.event e w.shared

/-- Every act of a run from `w` meets the condition. -/
def keeps (K : M.Cond) : Pool π Out ρ σ → List M.Act → Bool
  | _, [] => true
  | w, a :: as => meets K w a &&
      match M.step w a with
      | some w' => keeps K w' as
      | none => true

omit [DecidableEq π] in
/-- Every act meets the condition without content. -/
theorem meets_trivial (w : Pool π Out ρ σ) (a : M.Act) : meets {} w a = true := by
  cases a with
  | call p o =>
      simp only [meets]
      split
      · split <;> rfl
      · rfl
  | start p j => rfl
  | event e => rfl

theorem keeps_trivial (w : Pool π Out ρ σ) (as : List M.Act) : keeps {} w as = true := by
  induction as generalizing w with
  | nil => rfl
  | cons a as ih =>
      simp only [keeps, meets_trivial, Bool.true_and]
      split
      · exact ih _
      · rfl

theorem keeps_append {K : M.Cond} {w w' : Pool π Out ρ σ} {as bs : List M.Act}
    (hr : M.run w as = some w') : keeps K w (as ++ bs) = (keeps K w as && keeps K w' bs) := by
  induction as generalizing w with
  | nil =>
      obtain rfl : w = w' := by simpa [run] using hr
      simp [keeps]
  | cons a as ih =>
      simp only [run] at hr
      cases hs : M.step w a with
      | none => simp [hs] at hr
      | some w₁ =>
          rw [hs] at hr
          simp only [List.cons_append, keeps, hs, ih hr, Bool.and_assoc]

/-- Both conditions. -/
def Cond.and (K L : M.Cond) : M.Cond where
  call p h c s r := K.call p h c s r && L.call p h c s r
  event e s := K.event e s && L.event e s

omit [DecidableEq π] in
theorem meets_and (K L : M.Cond) (w : Pool π Out ρ σ) (a : M.Act) :
    meets (K.and L) w a = (meets K w a && meets L w a) := by
  cases a with
  | call p o =>
      simp only [meets]
      split
      · split <;> rfl
      · rfl
  | start p j => rfl
  | event e => rfl

theorem keeps_and (K L : M.Cond) (w : Pool π Out ρ σ) (as : List M.Act) :
    keeps (K.and L) w as = (keeps K w as && keeps L w as) := by
  induction as generalizing w with
  | nil => rfl
  | cons a as ih =>
      simp only [keeps, meets_and]
      cases M.step w a with
      | none => simp
      | some w' =>
          simp only [ih]
          ac_rfl

/-! ### Soundness of the contracts -/

/-- What a condition says of the last call of a history. -/
def Cond.last (D : M.Cond) (p : π) : List (Entry Out σ) → Prop
  | [] => True
  | e :: h => D.call p h e.call e.found e.reply = true

omit [DecidableEq π] in
/-- The condition without content is always met. -/
theorem Cond.last_trivial (p : π) (h : List (Entry Out σ)) : Cond.last (M := M) {} p h := by
  cases h with
  | nil => trivial
  | cons e h => rfl

/-- Every call of a history met the condition. -/
def Cond.along (K : M.Cond) (p : π) : List (Entry Out σ) → Bool
  | [] => true
  | e :: h => K.call p h e.call e.found e.reply && K.along p h

/-- A condition that a run meets is met along the history of every thread. -/
theorem keeps_along {D : M.Cond} {w w' : Pool π Out ρ σ} {as : List M.Act}
    (hw : ∀ p prog h, w.threads p = some ⟨prog, h⟩ → D.along p h = true)
    (hD : keeps D w as = true) (hr : M.run w as = some w') :
    ∀ p prog h, w'.threads p = some ⟨prog, h⟩ → D.along p h = true := by
  induction as generalizing w with
  | nil =>
      obtain rfl : w = w' := by simpa [Machine.run] using hr
      exact hw
  | cons a as ih =>
      simp only [Machine.run] at hr
      cases hs : M.step w a with
      | none => simp [hs] at hr
      | some w₁ =>
          rw [hs] at hr
          simp only [keeps, hs, Bool.and_eq_true] at hD
          refine ih ?_ hD.2 hr
          intro p prog h hth
          cases a with
          | call q o =>
              simp only [Machine.step] at hs
              split at hs
              next c k h₀ hq =>
                obtain ⟨⟨r, s'⟩, ha, rfl⟩ := Option.map_eq_some_iff.mp hs
                by_cases hpq : p = q
                · subst hpq
                  simp only [Function.update_self, Option.some.injEq, Thread.mk.injEq] at hth
                  obtain ⟨-, rfl⟩ := hth
                  have hmet := hD.1
                  simp only [meets, hq, ha] at hmet
                  simp only [Cond.along, hmet, hw p _ h₀ hq, Bool.and_self]
                · simp only [Function.update_of_ne hpq] at hth
                  exact hw p prog h hth
              next => simp at hs
          | start q j =>
              simp only [Machine.step] at hs
              split at hs
              next =>
                obtain ⟨⟨prog', s'⟩, -, rfl⟩ := Option.map_eq_some_iff.mp hs
                by_cases hpq : p = q
                · subst hpq
                  simp only [Function.update_self, Option.some.injEq, Thread.mk.injEq] at hth
                  obtain ⟨-, rfl⟩ := hth
                  rfl
                · simp only [Function.update_of_ne hpq] at hth
                  exact hw p prog h hth
              next => simp at hs
          | event e =>
              simp only [Machine.step] at hs
              obtain ⟨s', -, rfl⟩ := Option.map_eq_some_iff.mp hs
              cases hkill : M.kills e with
              | true => simp [hkill] at hth
              | false =>
                  simp only [hkill, Bool.false_eq_true, if_false] at hth
                  exact hw p prog h hth

/-- The contract of a thread. Its state is the shared one and its own history. The
condition `D` is owed by each of its calls. -/
def contract (K : M.Cond) (inv : σ → Prop) (rely guar : π → σ → σ → Prop) (p : π)
    (D : M.Cond := {}) : Prog.Contract Out (σ × List (Entry Out σ)) where
  step c w r w' := K.call p w.2 c w.1 r = true ∧ (∃ o, M.answer p o c w.1 = some (r, w'.1)) ∧
    w'.2 = ⟨c, r, w.1⟩ :: w.2
  inv w := inv w.1
  rely w w' := rely p w.1 w'.1 ∧ w'.2 = w.2
  guar w w' := guar p w.1 w'.1 ∧ D.last p w'.2

/-- What makes an invariant hold along every run that meets a condition. -/
structure Sound (K : M.Cond) (inv : σ → Prop) (rely guar : π → σ → σ → Prop)
    (post : π → ρ → σ × List (Entry Out σ) → Prop) (D : M.Cond := {}) : Prop where
  rely_trans : ∀ p a b c, rely p a b → rely p b c → rely p a c
  guar_rely : ∀ p q s s', q ≠ p → guar p s s' → rely q s s'
  job : ∀ p j s prog s', inv s → M.job p j s = some (prog, s') →
    inv s' ∧ guar p s s' ∧ prog.Safe (contract K inv rely guar p D) (post p) (s', [])
  event : ∀ e s s', inv s → K.event e s = true → M.event e s = some s' →
    inv s' ∧ (M.kills e = false → ∀ p, rely p s s')

variable {K D : M.Cond} {inv : σ → Prop} {rely guar : π → σ → σ → Prop}
  {post : π → ρ → σ × List (Entry Out σ) → Prop}

/-- The invariant, and the safety of every suspended thread. -/
def Ok (K : M.Cond) (inv : σ → Prop) (rely guar : π → σ → σ → Prop)
    (post : π → ρ → σ × List (Entry Out σ) → Prop) (w : Pool π Out ρ σ) (D : M.Cond := {}) :
    Prop :=
  inv w.shared ∧ ∀ p c k h, w.threads p = some ⟨.call c k, h⟩ →
    (Prog.call c k).Safe (contract K inv rely guar p D) (post p) (w.shared, h)

omit [DecidableEq π] in
/-- What is known of a call that a suspended thread makes. -/
theorem Ok.call {w : Pool π Out ρ σ} (hw : Ok K inv rely guar post w D)
    (hrefl : ∀ p s, rely p s s) {p : π} {o : M.Oracle} {c : C} {k : Out c → Prog Out ρ}
    {h : List (Entry Out σ)} (hth : w.threads p = some ⟨.call c k, h⟩) {r : Out c} {s' : σ}
    (ha : M.answer p o c w.shared = some (r, s')) (hK : K.call p h c w.shared r = true) :
    inv s' ∧ (guar p w.shared s' ∧ D.call p h c w.shared r = true) ∧
      (k r).Safe (contract K inv rely guar p D) (post p) (s', ⟨c, r, w.shared⟩ :: h) := by
  have hsafe := hw.2 p c k h hth
  exact hsafe (w.shared, h) hw.1 ⟨hrefl p _, rfl⟩ r (s', ⟨c, r, w.shared⟩ :: h) ⟨hK, ⟨o, ha⟩, rfl⟩

/-- A program that returns with a call has established its postcondition. -/
theorem Ok.returned {w w' : Pool π Out ρ σ} (hw : Ok K inv rely guar post w D)
    (hrefl : ∀ p s, rely p s s) {p : π} {o : M.Oracle} (hK : meets K w (.call p o) = true)
    (hs : M.step w (.call p o) = some w') {e : ρ} {h : List (Entry Out σ)}
    (hret : w'.threads p = some ⟨.ret e, h⟩) : post p e (w'.shared, h) := by
  simp only [Machine.step] at hs
  split at hs
  next c k h₀ hth =>
    obtain ⟨⟨r, s'⟩, ha, rfl⟩ := Option.map_eq_some_iff.mp hs
    simp only [meets, hth, ha] at hK
    obtain ⟨-, -, hk⟩ := hw.call hrefl hth ha hK
    simp only [Function.update_self, Option.some.injEq, Thread.mk.injEq] at hret
    obtain ⟨hkr, rfl⟩ := hret
    rw [hkr] at hk
    exact hk
  next => simp at hs

/-- What one act of a sound machine does to the shared state: a guarantee of the
thread that acted, or an event. -/
inductive Effect (K : M.Cond) (inv : σ → Prop) (guar : π → σ → σ → Prop) (s s' : σ) : Prop
  | thread (p : π) (h : guar p s s')
  | event (e : M.Event) (hinv : inv s) (hK : K.event e s = true) (h : M.event e s = some s')

theorem Sound.step (hM : Sound K inv rely guar post D) (hrefl : ∀ p s, rely p s s)
    {w w' : Pool π Out ρ σ} {a : M.Act} (hw : Ok K inv rely guar post w D) (hK : meets K w a = true)
    (hs : M.step w a = some w') :
    Ok K inv rely guar post w' D ∧ Effect K inv guar w.shared w'.shared := by
  -- A suspended thread that did not act stays safe, since it relied on what happened.
  have hwait : ∀ {q c k h s'}, w.threads q = some ⟨.call c k, h⟩ → rely q w.shared s' →
      (Prog.call c k).Safe (contract K inv rely guar q D) (post q) (s', h) := by
    intro q c k h s' hq hr
    refine Prog.Safe.wait (hw.2 q c k h hq) ⟨hr, rfl⟩ ?_
    intro a b d hab hbd
    exact ⟨hM.rely_trans q _ _ _ hab.1 hbd.1, hbd.2.trans hab.2⟩
  cases a with
  | call p o =>
      simp only [Machine.step] at hs
      split at hs
      next c k h hth =>
        obtain ⟨⟨r, s'⟩, ha, rfl⟩ := Option.map_eq_some_iff.mp hs
        simp only [meets, hth, ha] at hK
        obtain ⟨hinv, ⟨hguar, -⟩, hk⟩ := hw.call hrefl hth ha hK
        refine ⟨⟨hinv, ?_⟩, .thread p hguar⟩
        intro q c' k' h' hq
        by_cases hqp : q = p
        · subst hqp
          simp only [Function.update_self, Option.some.injEq, Thread.mk.injEq] at hq
          obtain ⟨hkr, rfl⟩ := hq
          simpa only [hkr] using hk
        · simp only [Function.update_of_ne hqp] at hq
          exact hwait hq (hM.guar_rely p q _ _ hqp hguar)
      next => simp at hs
  | start p j =>
      simp only [Machine.step] at hs
      split at hs
      next =>
        obtain ⟨⟨prog, s'⟩, hj, rfl⟩ := Option.map_eq_some_iff.mp hs
        obtain ⟨hinv, hguar, hsafe⟩ := hM.job p j _ _ _ hw.1 hj
        refine ⟨⟨hinv, ?_⟩, .thread p hguar⟩
        intro q c' k' h' hq
        by_cases hqp : q = p
        · subst hqp
          simp only [Function.update_self, Option.some.injEq, Thread.mk.injEq] at hq
          obtain ⟨hkr, rfl⟩ := hq
          simpa only [hkr] using hsafe
        · simp only [Function.update_of_ne hqp] at hq
          exact hwait hq (hM.guar_rely p q _ _ hqp hguar)
      next => simp at hs
  | event e =>
      simp only [Machine.step] at hs
      obtain ⟨s', he, rfl⟩ := Option.map_eq_some_iff.mp hs
      obtain ⟨hinv, hrely⟩ := hM.event e _ _ hw.1 hK he
      refine ⟨⟨hinv, ?_⟩, .event e hw.1 hK he⟩
      intro q c' k' h' hq
      cases hkill : M.kills e with
      | true => simp [hkill] at hq
      | false =>
          simp only [hkill, Bool.false_eq_true, if_false] at hq
          exact hwait hq (hrely hkill q)

/-- Along a run that meets the condition, every state satisfies the invariant. -/
theorem Sound.run (hM : Sound K inv rely guar post D) (hrefl : ∀ p s, rely p s s)
    {w w' : Pool π Out ρ σ} {as : List M.Act} (hw : Ok K inv rely guar post w D)
    (hK : keeps K w as = true) (hr : M.run w as = some w') : Ok K inv rely guar post w' D := by
  induction as generalizing w with
  | nil =>
      obtain rfl : w = w' := by simpa [Machine.run] using hr
      exact hw
  | cons a as ih =>
      simp only [Machine.run] at hr
      cases hs : M.step w a with
      | none => simp [hs] at hr
      | some w₁ =>
          rw [hs] at hr
          simp only [keeps, hs, Bool.and_eq_true] at hK
          exact ih (hM.step hrefl hw hK.1 hs).1 hK.2 hr

/-- What a program has established when it returned holds from then on, if no act
can break it. -/
theorem Sound.run_post (hM : Sound K inv rely guar post D) (hrefl : ∀ p s, rely p s s)
    (hpost : ∀ p e s h s', post p e (s, h) → Effect K inv guar s s' → post p e (s', h))
    {w w' : Pool π Out ρ σ} {as : List M.Act} (hw : Ok K inv rely guar post w D)
    (hw' : ∀ p e h, w.threads p = some ⟨.ret e, h⟩ → post p e (w.shared, h))
    (hK : keeps K w as = true) (hr : M.run w as = some w') :
    ∀ p e h, w'.threads p = some ⟨.ret e, h⟩ → post p e (w'.shared, h) := by
  induction as generalizing w with
  | nil =>
      obtain rfl : w = w' := by simpa [Machine.run] using hr
      exact hw'
  | cons a as ih =>
      simp only [Machine.run] at hr
      cases hs : M.step w a with
      | none => simp [hs] at hr
      | some w₁ =>
          rw [hs] at hr
          simp only [keeps, hs, Bool.and_eq_true] at hK
          obtain ⟨hw₁, heff⟩ := hM.step hrefl hw hK.1 hs
          refine ih hw₁ ?_ hK.2 hr
          intro q e h hq
          -- A thread that did not act had returned before.
          have hold : w.threads q = some ⟨.ret e, h⟩ → post q e (w₁.shared, h) :=
            fun hq => hpost q e _ h _ (hw' q e h hq) heff
          cases a with
          | call p o =>
              by_cases hqp : q = p
              · subst hqp
                exact hw.returned hrefl hK.1 hs hq
              · simp only [Machine.step] at hs
                split at hs
                next c k h₀ hth =>
                  obtain ⟨⟨r, s'⟩, -, rfl⟩ := Option.map_eq_some_iff.mp hs
                  simp only [Function.update_of_ne hqp] at hq
                  exact hold hq
                next => simp at hs
          | start p j =>
              simp only [Machine.step] at hs
              split at hs
              next =>
                obtain ⟨⟨prog, s'⟩, hj, rfl⟩ := Option.map_eq_some_iff.mp hs
                by_cases hqp : q = p
                · subst hqp
                  simp only [Function.update_self, Option.some.injEq, Thread.mk.injEq] at hq
                  obtain ⟨rfl, rfl⟩ := hq
                  exact (hM.job q j _ _ _ hw.1 hj).2.2
                · simp only [Function.update_of_ne hqp] at hq
                  exact hold hq
              next => simp at hs
          | event e' =>
              simp only [Machine.step] at hs
              obtain ⟨s', -, rfl⟩ := Option.map_eq_some_iff.mp hs
              cases hkill : M.kills e' with
              | true => simp [hkill] at hq
              | false =>
                  simp only [hkill, Bool.false_eq_true, if_false] at hq
                  exact hold hq

/-- Along a run that meets the condition, every call meets what its thread owes. -/
theorem Sound.keeps_duty (hM : Sound K inv rely guar post D) (hrefl : ∀ p s, rely p s s)
    (hD : ∀ e s, D.event e s = true) {w : Pool π Out ρ σ} {as : List M.Act}
    (hw : Ok K inv rely guar post w D) (hK : keeps K w as = true) : keeps D w as = true := by
  induction as generalizing w with
  | nil => rfl
  | cons a as ih =>
      simp only [keeps, Bool.and_eq_true] at hK ⊢
      refine ⟨?_, ?_⟩
      · cases a with
        | call p o =>
            simp only [meets]
            split
            next c k h hth =>
              split
              next r hr =>
                have hKc := hK.1
                simp only [meets, hth, hr] at hKc
                exact (hw.call hrefl hth hr hKc).2.1.2
              next => rfl
            next => rfl
        | start p j => rfl
        | event e => exact hD e w.shared
      · cases hs : M.step w a with
        | none => rfl
        | some w₁ =>
            have hrest := hK.2
            rw [hs] at hrest
            exact ih (hM.step hrefl hw hK.1 hs).1 hrest

/-- A preorder that every guarantee and every event is in holds between any two
states of a run. -/
theorem Sound.run_rel (hM : Sound K inv rely guar post D) (hrefl : ∀ p s, rely p s s)
    {G : σ → σ → Prop} (hG : ∀ s, G s s) (htrans : ∀ a b c, G a b → G b c → G a c)
    (heff : ∀ s s', Effect K inv guar s s' → G s s')
    {w w' : Pool π Out ρ σ} {as : List M.Act} (hw : Ok K inv rely guar post w D)
    (hK : keeps K w as = true) (hr : M.run w as = some w') : G w.shared w'.shared := by
  induction as generalizing w with
  | nil =>
      obtain rfl : w = w' := by simpa [Machine.run] using hr
      exact hG _
  | cons a as ih =>
      simp only [Machine.run] at hr
      cases hs : M.step w a with
      | none => simp [hs] at hr
      | some w₁ =>
          rw [hs] at hr
          simp only [keeps, hs, Bool.and_eq_true] at hK
          obtain ⟨hw₁, he⟩ := hM.step hrefl hw hK.1 hs
          exact htrans _ _ _ (heff _ _ he) (ih hw₁ hK.2 hr)

/-- What no act can break holds of every state that a thread has found since. -/
theorem Sound.run_found (hM : Sound K inv rely guar post D) (hrefl : ∀ p s, rely p s s)
    {A : σ → Prop} (heff : ∀ s s', A s → Effect K inv guar s s' → A s')
    {w w' : Pool π Out ρ σ} {as : List M.Act} {p : π} (hw : Ok K inv rely guar post w D)
    (hA : A w.shared) (hfound : ∀ prog h, w.threads p = some ⟨prog, h⟩ → ∀ x ∈ h, A x.found)
    (hK : keeps K w as = true) (hr : M.run w as = some w') :
    ∀ prog h, w'.threads p = some ⟨prog, h⟩ → ∀ x ∈ h, A x.found := by
  induction as generalizing w with
  | nil =>
      obtain rfl : w = w' := by simpa [Machine.run] using hr
      exact hfound
  | cons a as ih =>
      simp only [Machine.run] at hr
      cases hs : M.step w a with
      | none => simp [hs] at hr
      | some w₁ =>
          rw [hs] at hr
          simp only [keeps, hs, Bool.and_eq_true] at hK
          obtain ⟨hw₁, he⟩ := hM.step hrefl hw hK.1 hs
          refine ih hw₁ (heff _ _ hA he) ?_ hK.2 hr
          intro prog h hth
          cases a with
          | call q o =>
              simp only [Machine.step] at hs
              split at hs
              next c k h₀ hq =>
                obtain ⟨⟨r, s'⟩, -, rfl⟩ := Option.map_eq_some_iff.mp hs
                by_cases hpq : p = q
                · subst hpq
                  simp only [Function.update_self, Option.some.injEq, Thread.mk.injEq] at hth
                  obtain ⟨-, rfl⟩ := hth
                  intro x hx
                  rcases List.mem_cons.mp hx with rfl | hx
                  · exact hA
                  · exact hfound _ h₀ hq x hx
                · simp only [Function.update_of_ne hpq] at hth
                  exact hfound prog h hth
              next => simp at hs
          | start q j =>
              simp only [Machine.step] at hs
              split at hs
              next =>
                obtain ⟨⟨prog', s'⟩, -, rfl⟩ := Option.map_eq_some_iff.mp hs
                by_cases hpq : p = q
                · subst hpq
                  simp only [Function.update_self, Option.some.injEq, Thread.mk.injEq] at hth
                  obtain ⟨-, rfl⟩ := hth
                  exact fun x hx => absurd hx List.not_mem_nil
                · simp only [Function.update_of_ne hpq] at hth
                  exact hfound prog h hth
              next => simp at hs
          | event e =>
              simp only [Machine.step] at hs
              obtain ⟨s', -, rfl⟩ := Option.map_eq_some_iff.mp hs
              cases hkill : M.kills e with
              | true => simp [hkill] at hth
              | false =>
                  simp only [hkill, Bool.false_eq_true, if_false] at hth
                  exact hfound prog h hth

end Machine

end GgAgent.Lib
