import GgAgent.Lib.Pool

/-!
Two runs side by side.

`Prog.Like` compares two programs that make their calls in step. A pairing tells which calls
stand for each other and which replies to them; after paired replies what is left of the two
programs is compared again. A program that is like itself makes nothing of the difference
between the replies that are paired.

`Machine.Lockstep` is two runs of one machine in which one thread makes its calls in step,
while the others do what they like in between, as long as each call finds two states that are
alike. If paired calls, made in such states by a thread that does what it owes, have paired
replies and leave such states, then like programs stay like: the one returns when the other
does, with the same result.
-/

namespace GgAgent.Lib

variable {π C : Type} {Out : C → Type} {α β ρ σ : Type}

/-- Which calls stand for each other, and which of their replies. -/
abbrev Pairing (Out : C → Type) : Type := (c d : C) → (Out c → Out d → Prop) → Prop

namespace Prog

def Like (P : Pairing Out) : Prog Out α → Prog Out α → Prop
  | .ret a, .ret b => a = b
  | .call c k, .call d j => ∃ R, P c d R ∧ ∀ r q, R r q → (k r).Like P (j q)
  | _, _ => False

variable {P : Pairing Out}

theorem Like.bind {p q : Prog Out α} {f g : α → Prog Out β} (h : p.Like P q)
    (hfg : ∀ a, (f a).Like P (g a)) : (p >>= f).Like P (q >>= g) := by
  induction p generalizing q with
  | ret a =>
      cases q with
      | ret b =>
          obtain rfl : a = b := h
          exact hfg a
      | call d j => exact h.elim
  | call c k ih =>
      cases q with
      | ret b => exact h.elim
      | call d j =>
          obtain ⟨R, hP, hk⟩ := h
          exact ⟨R, hP, fun r q hr => ih r (hk r q hr)⟩

/-- A program whose calls are all paired with themselves is like itself. -/
theorem Like.of_makes {S : C → Prop} (hS : ∀ c, S c → P c c Eq) {p : Prog Out α}
    (hp : p.Makes S) : p.Like P p := by
  induction p with
  | ret a => rfl
  | call c k ih =>
      refine ⟨Eq, hS c hp.1, ?_⟩
      rintro r _ rfl
      exact ih r (hp.2 r)

/-- Like programs stay like among more calls. -/
theorem Like.lift {C' : Type} {Out' : C' → Type} {P' : Pairing Out'} {f : C → C'}
    {g : (c : C) → Out' (f c) → Out c}
    (hP : ∀ c d R, P c d R → P' (f c) (f d) fun r q => R (g c r) (g d q)) {p q : Prog Out α}
    (h : p.Like P q) : (p.lift f g).Like P' (q.lift f g) := by
  induction p generalizing q with
  | ret a =>
      cases q with
      | ret b => exact h
      | call d j => exact h.elim
  | call c k ih =>
      cases q with
      | ret b => exact h.elim
      | call d j =>
          obtain ⟨R, hR, hk⟩ := h
          exact ⟨_, hP c d R hR, fun r q hr => ih _ (hk _ _ hr)⟩

end Prog

namespace Co

variable {ε : Type} {P : Pairing Out}

/-- The program makes nothing of the difference between paired replies. -/
def Blind (P : Pairing Out) (p : Co Out ε α) : Prop := Prog.Like P p.run p.run

theorem Blind.pure (a : α) : Blind P (pure a : Co Out ε α) := rfl

theorem Blind.throw (e : ε) : Blind P (throw e : Co Out ε α) := rfl

theorem Blind.bind {p : Co Out ε α} {f : α → Co Out ε β} (hp : Blind P p)
    (hf : ∀ a, Blind P (f a)) : Blind P (p >>= f) := by
  refine Prog.Like.bind hp fun r => ?_
  cases r with
  | ok a => exact hf a
  | error e => rfl

theorem Blind.attempt {p : Co Out ε α} (hp : Blind P p) : Blind P (attempt p) :=
  Prog.Like.bind hp fun _ => rfl

end Co

namespace Machine

variable [DecidableEq π] {M : Machine π Out ρ σ}

/-- The act is not one of thread `p`. -/
def Act.others (p : π) : M.Act → Bool
  | .call q _ | .start q _ => q ≠ p
  | .event _ => true

/-- Acts of others let a thread be, or end it. -/
theorem threads_step_others {w w' : Pool π Out ρ σ} {a : M.Act} {p : π} (ha : a.others p = true)
    (hs : M.step w a = some w') : w'.threads p = w.threads p ∨ w'.threads p = none := by
  cases a with
  | call q o =>
      have hqp : p ≠ q := Ne.symm (of_decide_eq_true ha)
      simp only [step] at hs
      split at hs
      next =>
        obtain ⟨x, -, rfl⟩ := Option.map_eq_some_iff.mp hs
        exact .inl (Function.update_of_ne hqp _ _)
      next => simp at hs
  | start q j =>
      have hqp : p ≠ q := Ne.symm (of_decide_eq_true ha)
      simp only [step] at hs
      split at hs
      next =>
        obtain ⟨x, -, rfl⟩ := Option.map_eq_some_iff.mp hs
        exact .inl (Function.update_of_ne hqp _ _)
      next => simp at hs
  | event e =>
      obtain ⟨s, -, rfl⟩ := Option.map_eq_some_iff.mp hs
      dsimp only
      split
      · exact .inr rfl
      · exact .inl rfl

theorem threads_run_others {w w' : Pool π Out ρ σ} {as : List M.Act} {p : π}
    (has : ∀ a ∈ as, a.others p = true) (hr : M.run w as = some w') :
    w'.threads p = w.threads p ∨ w'.threads p = none := by
  induction as generalizing w with
  | nil =>
      obtain rfl : w = w' := by simpa [run] using hr
      exact .inl rfl
  | cons a as ih =>
      obtain ⟨w₁, hs, hr⟩ := Option.bind_eq_some_iff.mp hr
      have hfirst := threads_step_others (has a List.mem_cons_self) hs
      have hrest := ih (fun b hb => has b (List.mem_cons_of_mem a hb)) hr
      rcases hrest with hrest | hrest
      · rw [hrest]
        exact hfirst
      · exact .inr hrest

/-- Two runs, from `w` and from `v`, in which thread `p` makes its calls in step and finds
states that are alike. -/
inductive Lockstep (p : π) (A : σ → σ → Prop) (w v : Pool π Out ρ σ) :
    Pool π Out ρ σ → Pool π Out ρ σ → Prop
  | start : Lockstep p A w v w v
  | round {w₁ v₁ w₂ v₂ w₃ v₃ : Pool π Out ρ σ} {as bs : List M.Act} {o : M.Oracle}
      (before : Lockstep p A w v w₁ v₁)
      (has : ∀ a ∈ as, a.others p = true) (hbs : ∀ b ∈ bs, b.others p = true)
      (hw : M.run w₁ as = some w₂) (hv : M.run v₁ bs = some v₂)
      (alike : A w₂.shared v₂.shared)
      (hw' : M.step w₂ (.call p o) = some w₃) (hv' : M.step v₂ (.call p o) = some v₃) :
      Lockstep p A w v w₃ v₃

/-- The threads of the two runs are at like programs. -/
def Abreast (P : Pairing Out) (p : π) (w v : Pool π Out ρ σ) : Prop :=
  ∃ a b h g, w.threads p = some ⟨a, h⟩ ∧ v.threads p = some ⟨b, g⟩ ∧ a.Like P b

omit [DecidableEq π] in
/-- The one has returned when the other has, with the same result. -/
theorem Abreast.returned {P : Pairing Out} {p : π} {w v : Pool π Out ρ σ} (h : Abreast P p w v)
    (r : ρ) : (∃ h, w.threads p = some ⟨.ret r, h⟩) ↔ ∃ h, v.threads p = some ⟨.ret r, h⟩ := by
  obtain ⟨a, b, h, g, hw, hv, hlike⟩ := h
  simp only [hw, hv, Option.some.injEq, Thread.mk.injEq]
  cases a with
  | ret x =>
      cases b with
      | ret y =>
          obtain rfl : x = y := hlike
          exact ⟨fun ⟨_, hx, _⟩ => ⟨g, hx, rfl⟩, fun ⟨_, hx, _⟩ => ⟨h, hx, rfl⟩⟩
      | call d j => exact hlike.elim
  | call c k =>
      cases b with
      | ret y => exact hlike.elim
      | call d j => simp

variable {K D : M.Cond} {inv : σ → Prop} {rely guar : π → σ → σ → Prop}
  {post : π → ρ → σ × List (Entry Out σ) → Prop}

/-- Like programs stay like in lockstep, and leave states that are alike. -/
theorem Sound.lockstep (hM : Sound {} inv rely guar post D) (hrefl : ∀ p s, rely p s s)
    {P : Pairing Out} {A : σ → σ → Prop} {p : π}
    (hP : ∀ c d R o s t r s' q t' h, P c d R → inv s → inv t → A s t → D.call p h c s r = true →
      M.answer p o c s = some (r, s') → M.answer p o d t = some (q, t') → R r q ∧ A s' t')
    {w v w' v' : Pool π Out ρ σ} (hw : Ok {} inv rely guar post w D)
    (hv : Ok {} inv rely guar post v D) (hA : A w.shared v.shared) (hwv : Abreast P p w v)
    (hL : Lockstep (M := M) p A w v w' v') :
    (Ok {} inv rely guar post w' D ∧ Ok {} inv rely guar post v' D) ∧ A w'.shared v'.shared ∧
      Abreast P p w' v' := by
  induction hL with
  | start => exact ⟨⟨hw, hv⟩, hA, hwv⟩
  | round _ has hbs hr hr' hA₂ hs hs' ih =>
      obtain ⟨⟨hw₁, hv₁⟩, -, a, b, h, g, ha, hb, hlike⟩ := ih
      have hw₂ := hM.run hrefl hw₁ (keeps_trivial _ _) hr
      have hv₂ := hM.run hrefl hv₁ (keeps_trivial _ _) hr'
      have hw₃ := (hM.step hrefl hw₂ (meets_trivial _ _) hs).1
      have hv₃ := (hM.step hrefl hv₂ (meets_trivial _ _) hs').1
      simp only [Machine.step] at hs hs'
      split at hs
      next c k h₂ hth =>
        split at hs'
        next d j g₂ hth' =>
          obtain ⟨⟨r, s⟩, hc, rfl⟩ := Option.map_eq_some_iff.mp hs
          obtain ⟨⟨q, t⟩, hd, rfl⟩ := Option.map_eq_some_iff.mp hs'
          -- The others have left both threads where they were.
          have hka : a = .call c k := by
            rcases threads_run_others has hr with heq | heq
            · rw [hth, ha] at heq
              exact (Thread.mk.inj (Option.some.inj heq)).1.symm
            · rw [hth] at heq
              cases heq
          have hjb : b = .call d j := by
            rcases threads_run_others hbs hr' with heq | heq
            · rw [hth', hb] at heq
              exact (Thread.mk.inj (Option.some.inj heq)).1.symm
            · rw [hth'] at heq
              cases heq
          rw [hka, hjb] at hlike
          obtain ⟨R, hR, hk⟩ := hlike
          obtain ⟨-, ⟨-, hduty⟩, -⟩ := hw₂.call hrefl hth hc rfl
          obtain ⟨hrq, hA₃⟩ := hP c d R _ _ _ r s q t h₂ hR hw₂.1 hv₂.1 hA₂ hduty hc hd
          exact ⟨⟨hw₃, hv₃⟩, hA₃, k r, j q, _, _, Function.update_self _ _ _,
            Function.update_self _ _ _, hk r q hrq⟩
        next => simp at hs'
      next => simp at hs

end Machine

end GgAgent.Lib
