import Mathlib.Init

/-!
Cooperative programs, and what it means for one to be safe among others.

A program is a tree: it has returned, or it makes a call and goes on from the
reply. Control can pass to somebody else at every call and nowhere else, so the
residual tree is all there is to know about a suspended program. Exceptions are
carried by `ExceptT` over these trees; a `try` is a case split on a reply.

`Prog.Safe` is the rely/guarantee judgment. Each call may be delayed by any
change `rely` permits, must keep the invariant and stay inside `guar` whatever
the reply, and leaves a residual program that is safe in turn. Sequencing,
handlers and loops over a list get one rule each; the proof of a program is the
composition of these rules and never a look at an interleaving.

`Prog.Makes` is the coarse version for code that is not supposed to matter: the
calls of a program all lie in a set. `Prog.Safe.of_makes` turns it into safety
when every call of the set keeps an assertion.
-/

namespace GgAgent.Lib

/-- A program over calls `C`, each with its type of replies, that returns an `α`. -/
inductive Prog {C : Type} (Out : C → Type) (α : Type) : Type
  | ret (a : α)
  | call (c : C) (k : Out c → Prog Out α)

/-- A program that may raise an `ε`. -/
abbrev Co {C : Type} (Out : C → Type) (ε α : Type) : Type := ExceptT ε (Prog Out) α

namespace Prog

variable {C : Type} {Out : C → Type} {α β : Type}

def bind : Prog Out α → (α → Prog Out β) → Prog Out β
  | .ret a, f => f a
  | .call c k, f => .call c fun r => (k r).bind f

instance : Monad (Prog Out) where
  pure := .ret
  bind := bind

/-- One call, returning its reply. -/
def perform (c : C) : Prog Out (Out c) := .call c .ret

@[simp] theorem ret_bind (a : α) (f : α → Prog Out β) : (Prog.ret a >>= f) = f a := rfl

@[simp] theorem call_bind (c : C) (k : Out c → Prog Out α) (f : α → Prog Out β) :
    (Prog.call c k >>= f) = .call c fun r => k r >>= f := rfl

/-! ### The calls of a program -/

/-- Every call that the program can come to make lies in `S`. -/
def Makes (S : C → Prop) : Prog Out α → Prop
  | .ret _ => True
  | .call c k => S c ∧ ∀ r, (k r).Makes S

@[simp] theorem makes_ret (S : C → Prop) (a : α) : (Prog.ret a : Prog Out α).Makes S := trivial

theorem makes_true : ∀ p : Prog Out α, p.Makes fun _ => True
  | .ret _ => trivial
  | .call _ k => ⟨trivial, fun r => makes_true (k r)⟩

theorem Makes.bind {S : C → Prop} {p : Prog Out α} {f : α → Prog Out β} (hp : p.Makes S)
    (hf : ∀ a, (f a).Makes S) : (p >>= f).Makes S := by
  induction p with
  | ret a => exact hf a
  | call c k ih => exact ⟨hp.1, fun r => ih r (hp.2 r)⟩

theorem Makes.mono {S S' : C → Prop} {p : Prog Out α} (hp : p.Makes S) (h : ∀ c, S c → S' c) :
    p.Makes S' := by
  induction p with
  | ret a => trivial
  | call c k ih => exact ⟨h c hp.1, fun r => ih r (hp.2 r)⟩

/-! ### Safety under interference -/

/-- The surroundings of a program: how a call moves the state, what every state
satisfies, what the others may do between two calls, and what each call owes
the others. -/
structure Contract (Out : C → Type) (σ : Type) where
  step : (c : C) → σ → Out c → σ → Prop
  inv : σ → Prop
  rely : σ → σ → Prop
  guar : σ → σ → Prop

variable {σ : Type}

/-- Started in `s`, the program keeps the contract at each of its calls and
returns only with `post`. -/
def Safe (E : Contract Out σ) : Prog Out α → (α → σ → Prop) → σ → Prop
  | .ret a, post, s => post a s
  | .call c k, post, s => ∀ s₁, E.inv s₁ → E.rely s s₁ → ∀ r s₂, E.step c s₁ r s₂ →
      E.inv s₂ ∧ E.guar s₁ s₂ ∧ (k r).Safe E post s₂

variable {E : Contract Out σ}

theorem Safe.mono {p : Prog Out α} {post post' : α → σ → Prop} {s : σ} (h : p.Safe E post s)
    (hpost : ∀ a s, post a s → post' a s) : p.Safe E post' s := by
  induction p generalizing s with
  | ret a => exact hpost a s h
  | call c k ih =>
      intro s₁ hinv hrely r s₂ hstep
      obtain ⟨hinv₂, hguar, hk⟩ := h s₁ hinv hrely r s₂ hstep
      exact ⟨hinv₂, hguar, ih r hk⟩

theorem Safe.bind {p : Prog Out α} {f : α → Prog Out β} {post : β → σ → Prop} {s : σ}
    (h : p.Safe E (fun a s => (f a).Safe E post s) s) : (p >>= f).Safe E post s := by
  induction p generalizing s with
  | ret a => exact h
  | call c k ih =>
      intro s₁ hinv hrely r s₂ hstep
      obtain ⟨hinv₂, hguar, hk⟩ := h s₁ hinv hrely r s₂ hstep
      exact ⟨hinv₂, hguar, ih r hk⟩

/-- The frame rule: what neither the others nor the guarantee can break survives. -/
theorem Safe.frame {A : σ → Prop} (hrely : ∀ s s', A s → E.rely s s' → A s')
    (hguar : ∀ s s', A s → E.guar s s' → A s') {p : Prog Out α} {post : α → σ → Prop} {s : σ}
    (h : p.Safe E post s) (hs : A s) : p.Safe E (fun a s => post a s ∧ A s) s := by
  induction p generalizing s with
  | ret a => exact ⟨h, hs⟩
  | call c k ih =>
      intro s₁ hinv hr r s₂ hstep
      obtain ⟨hinv₂, hg, hk⟩ := h s₁ hinv hr r s₂ hstep
      exact ⟨hinv₂, hg, ih r hk (hguar s₁ s₂ (hrely s s₁ hs hr) hg)⟩

/-- The same for an assertion that the calls of the program leave alone. -/
theorem Safe.frame_makes {S : C → Prop} {A : σ → Prop} {p : Prog Out α} (hp : p.Makes S)
    (hrely : ∀ s s', A s → E.rely s s' → A s')
    (hstep : ∀ c s r s', S c → A s → E.step c s r s' → E.guar s s' → A s')
    {post : α → σ → Prop} {s : σ} (h : p.Safe E post s) (hs : A s) :
    p.Safe E (fun a s => post a s ∧ A s) s := by
  induction p generalizing s with
  | ret a => exact ⟨h, hs⟩
  | call c k ih =>
      intro s₁ hinv hr r s₂ hst
      obtain ⟨hinv₂, hg, hk⟩ := h s₁ hinv hr r s₂ hst
      exact ⟨hinv₂, hg, ih r (hp.2 r) hk (hstep c s₁ r s₂ hp.1 (hrely s s₁ hs hr) hst hg)⟩

/-- A program that waits for its next call stays safe while others run. -/
theorem Safe.wait {c : C} {k : Out c → Prog Out α} {post : α → σ → Prop} {s s' : σ}
    (h : (Prog.call c k).Safe E post s) (hrely : E.rely s s')
    (htrans : ∀ {a b d}, E.rely a b → E.rely b d → E.rely a d) :
    (Prog.call c k).Safe E post s' :=
  fun s₁ hinv hr => h s₁ hinv (htrans hrely hr)

/-- Calls that keep an assertion carry it through a whole program. -/
theorem Safe.of_makes {S : C → Prop} {A : σ → Prop} {p : Prog Out α} (hp : p.Makes S)
    (hrely : ∀ s s', A s → E.rely s s' → A s')
    (hstep : ∀ c s r s', S c → A s → E.inv s → E.step c s r s' →
      E.inv s' ∧ E.guar s s' ∧ A s') {s : σ} (hs : A s) :
    p.Safe E (fun _ s => A s) s := by
  induction p generalizing s with
  | ret a => exact hs
  | call c k ih =>
      intro s₁ hinv hr r s₂ hst
      obtain ⟨hinv₂, hguar, hA⟩ := hstep c s₁ r s₂ hp.1 (hrely s s₁ hs hr) hinv hst
      exact ⟨hinv₂, hguar, ih r (hp.2 r) hA⟩

/-- A program that is safe in one surrounding is safe in a stricter one, when its calls keep
the rest as well. -/
theorem Safe.strengthen {E' : Contract Out σ} {S : C → Prop} {A : σ → Prop} {p : Prog Out α}
    (hp : p.Makes S) (hinv : ∀ s, E'.inv s → E.inv s) (hrely : ∀ s s', E'.rely s s' → E.rely s s')
    (hA : ∀ s s', A s → E'.rely s s' → A s')
    (hstep : ∀ c s r s', S c → A s → E'.inv s → E'.step c s r s' →
      E.step c s r s' ∧ (E.inv s' → E.guar s s' → E'.inv s' ∧ E'.guar s s' ∧ A s'))
    {post : α → σ → Prop} {s : σ} (h : p.Safe E post s) (hs : A s) :
    p.Safe E' (fun a s => post a s ∧ A s) s := by
  induction p generalizing s with
  | ret a => exact ⟨h, hs⟩
  | call c k ih =>
      intro s₁ hs₁ hr r s₂ hst
      obtain ⟨hst', hback⟩ := hstep c s₁ r s₂ hp.1 (hA s s₁ hs hr) hs₁ hst
      obtain ⟨hinv₂, hguar, hk⟩ := h s₁ (hinv s₁ hs₁) (hrely s s₁ hr) r s₂ hst'
      obtain ⟨hinv', hguar', hA₂⟩ := hback hinv₂ hguar
      exact ⟨hinv', hguar', ih r (hp.2 r) hk hA₂⟩

/-! ### A program among more calls -/

section Lift

variable {C' : Type} {Out' : C' → Type} {σ' : Type}

/-- The same program, each call made under another name. -/
def lift (f : C → C') (g : (c : C) → Out' (f c) → Out c) : Prog Out α → Prog Out' α
  | .ret a => .ret a
  | .call c k => .call (f c) fun r => (k (g c r)).lift f g

variable {f : C → C'} {g : (c : C) → Out' (f c) → Out c}

theorem makes_lift : ∀ p : Prog Out α, (p.lift f g).Makes fun c' => ∃ c, c' = f c
  | .ret _ => trivial
  | .call c k => ⟨⟨c, rfl⟩, fun r => makes_lift (k (g c r))⟩

/-- Safety carries over to surroundings in which every call is answered as it could have
been in the old ones, for states that are related. -/
theorem Safe.lift {E' : Contract Out' σ'} {R : σ → σ' → Prop}
    (hR : ∀ c s t t₁ r t₂, R s t → E'.inv t₁ → E'.rely t t₁ → E'.step (f c) t₁ r t₂ →
      ∃ s₁ s₂, E.inv s₁ ∧ E.rely s s₁ ∧ E.step c s₁ (g c r) s₂ ∧
        (E.inv s₂ → E.guar s₁ s₂ → E'.inv t₂ ∧ E'.guar t₁ t₂ ∧ R s₂ t₂))
    {p : Prog Out α} {post : α → σ → Prop} {s : σ} {t : σ'} (h : p.Safe E post s) (ht : R s t) :
    (p.lift f g).Safe E' (fun a t => ∃ s, R s t ∧ post a s) t := by
  induction p generalizing s t with
  | ret a => exact ⟨s, ht, h⟩
  | call c k ih =>
      intro t₁ hinv hrely r t₂ hstep
      obtain ⟨s₁, s₂, hinv₁, hrely₁, hstep₁, hback⟩ := hR c s t t₁ r t₂ ht hinv hrely hstep
      obtain ⟨hinv₂, hguar, hk⟩ := h s₁ hinv₁ hrely₁ (g c r) s₂ hstep₁
      obtain ⟨hinv', hguar', ht₂⟩ := hback hinv₂ hguar
      exact ⟨hinv', hguar', ih (g c r) hk ht₂⟩

end Lift

/-! ### A program alone -/

/-- Run a program with nothing else going on, every call answered by `handle`; `none`
when a call is not answered. -/
def alone (handle : (c : C) → σ → Option (Out c × σ)) : Prog Out α → σ → Option (α × σ)
  | .ret a, s => some (a, s)
  | .call c k, s => (handle c s).bind fun r => (k r.1).alone handle r.2

theorem alone_bind (handle : (c : C) → σ → Option (Out c × σ)) (p : Prog Out α) (f : α → Prog Out β) (s : σ) :
    (p >>= f).alone handle s = (p.alone handle s).bind fun a => (f a.1).alone handle a.2 := by
  induction p generalizing s with
  | ret a => rfl
  | call c k ih =>
      show (handle c s).bind _ = ((handle c s).bind _).bind _
      cases handle c s with
      | none => rfl
      | some r => exact ih r.1 r.2

/-- The surroundings of a program that has none. -/
def Contract.solo (handle : (c : C) → σ → Option (Out c × σ)) : Contract Out σ where
  step c s r s' := handle c s = some (r, s')
  inv _ := True
  rely := Eq
  guar _ _ := True

/-- What is shown of a program without surroundings holds of its run alone. -/
theorem Safe.alone {handle : (c : C) → σ → Option (Out c × σ)} {p : Prog Out α}
    {post : α → σ → Prop} {s s' : σ} {a : α} (h : p.Safe (.solo handle) post s)
    (hr : p.alone handle s = some (a, s')) : post a s' := by
  induction p generalizing s with
  | ret b =>
      obtain ⟨rfl, rfl⟩ := Prod.mk.inj (Option.some.inj hr)
      exact h
  | call c k ih =>
      obtain ⟨⟨r, s₁⟩, hc, hk⟩ := Option.bind_eq_some_iff.mp hr
      obtain ⟨-, -, hsafe⟩ := h s trivial rfl r s₁ hc
      exact ih r hsafe hk

/-- What every call of a program keeps, the program keeps. -/
theorem Makes.alone {handle : (c : C) → σ → Option (Out c × σ)} {S : C → Prop} {A : σ → Prop}
    {p : Prog Out α} (hp : p.Makes S)
    (hstep : ∀ c s r s', S c → A s → handle c s = some (r, s') → A s') {s s' : σ} {a : α}
    (hs : A s) (hr : p.alone handle s = some (a, s')) : A s' := by
  induction p generalizing s with
  | ret b =>
      obtain ⟨rfl, rfl⟩ := Prod.mk.inj (Option.some.inj hr)
      exact hs
  | call c k ih =>
      obtain ⟨⟨r, s₁⟩, hc, hk⟩ := Option.bind_eq_some_iff.mp hr
      exact ih r (hp.2 r) (hstep c s r s₁ hp.1 hs hc) hk

end Prog

/-! ### Programs that may raise -/

namespace Co

/-- One assertion for a value, another one for an exception. -/
def Either {ε α σ : Type} (post : α → σ → Prop) (exn : ε → σ → Prop) : Except ε α → σ → Prop
  | .ok a => post a
  | .error e => exn e

variable {C : Type} {Out : C → Type} {ε α β : Type} {σ : Type}

open Prog (Contract)

/-- Run a program to its end and go on from the value or the exception. -/
def attempt (p : Co Out ε α) : Co Out ε (Except ε α) :=
  ExceptT.mk (p.run >>= fun r => Prog.ret (.ok r))

/-- The calls of a program that may raise. -/
def Makes (S : C → Prop) (p : Co Out ε α) : Prop := Prog.Makes S p.run

@[simp] theorem makes_pure (S : C → Prop) (a : α) : Makes S (pure a : Co Out ε α) := trivial

@[simp] theorem makes_throw (S : C → Prop) (e : ε) : Makes S (throw e : Co Out ε α) := trivial

theorem makes_true (p : Co Out ε α) : Makes (fun _ => True) p := Prog.makes_true p.run

theorem Makes.bind {S : C → Prop} {p : Co Out ε α} {f : α → Co Out ε β} (hp : Makes S p)
    (hf : ∀ a, Makes S (f a)) : Makes S (p >>= f) := by
  refine Prog.Makes.bind hp fun r => ?_
  cases r with
  | ok a => exact hf a
  | error e => trivial

theorem Makes.tryCatch {S : C → Prop} {p : Co Out ε α} {h : ε → Co Out ε α} (hp : Makes S p)
    (hh : ∀ e, Makes S (h e)) : Makes S (tryCatch p h) := by
  refine Prog.Makes.bind hp fun r => ?_
  cases r with
  | ok a => trivial
  | error e => exact hh e

theorem Makes.attempt {S : C → Prop} {p : Co Out ε α} (hp : Makes S p) :
    Makes S (attempt p) :=
  Prog.Makes.bind hp fun _ => trivial

theorem Makes.forM {S : C → Prop} {ι : Type} {f : ι → Co Out ε Unit} :
    ∀ {xs : List ι}, (∀ x ∈ xs, Makes S (f x)) → Makes S (xs.forM f)
  | [], _ => trivial
  | x :: xs, hf => Makes.bind (hf x (by simp)) fun _ => Makes.forM fun y hy => hf y (by simp [hy])

theorem Makes.mono {S S' : C → Prop} {p : Co Out ε α} (hp : Makes S p) (h : ∀ c, S c → S' c) :
    Makes S' p := Prog.Makes.mono hp h

/-- Safety of a program that may raise: one postcondition for a value, one for
an exception. -/
def Safe (E : Contract Out σ) (p : Co Out ε α) (post : α → σ → Prop) (exn : ε → σ → Prop)
    (s : σ) : Prop :=
  Prog.Safe E p.run (fun r s => match r with | .ok a => post a s | .error e => exn e s) s

variable {E : Contract Out σ} {post : α → σ → Prop} {exn : ε → σ → Prop} {s : σ}

@[simp] theorem safe_pure (a : α) : Safe E (pure a : Co Out ε α) post exn s ↔ post a s := Iff.rfl

@[simp] theorem safe_throw (e : ε) : Safe E (throw e : Co Out ε α) post exn s ↔ exn e s := Iff.rfl

theorem Safe.mono {p : Co Out ε α} {post' : α → σ → Prop} {exn' : ε → σ → Prop}
    (h : Safe E p post exn s) (hpost : ∀ a s, post a s → post' a s)
    (hexn : ∀ e s, exn e s → exn' e s) : Safe E p post' exn' s := by
  refine Prog.Safe.mono h fun r s hr => ?_
  cases r with
  | ok a => exact hpost a s hr
  | error e => exact hexn e s hr

theorem Safe.frame {A : σ → Prop} (hrely : ∀ s s', A s → E.rely s s' → A s')
    (hguar : ∀ s s', A s → E.guar s s' → A s') {p : Co Out ε α} (h : Safe E p post exn s)
    (hs : A s) : Safe E p (fun a s => post a s ∧ A s) (fun e s => exn e s ∧ A s) s := by
  refine Prog.Safe.mono (Prog.Safe.frame hrely hguar h hs) fun r s hr => ?_
  cases r with
  | ok a => exact hr
  | error e => exact hr

theorem Safe.frame_makes {S : C → Prop} {A : σ → Prop} {p : Co Out ε α} (hp : Makes S p)
    (hrely : ∀ s s', A s → E.rely s s' → A s')
    (hstep : ∀ c s r s', S c → A s → E.step c s r s' → E.guar s s' → A s')
    (h : Safe E p post exn s) (hs : A s) :
    Safe E p (fun a s => post a s ∧ A s) (fun e s => exn e s ∧ A s) s := by
  refine Prog.Safe.mono (Prog.Safe.frame_makes hp hrely hstep h hs) fun r s hr => ?_
  cases r with
  | ok a => exact hr
  | error e => exact hr

theorem Safe.bind {p : Co Out ε α} {f : α → Co Out ε β} {post : β → σ → Prop}
    (h : Safe E p (fun a s => Safe E (f a) post exn s) exn s) : Safe E (p >>= f) post exn s := by
  refine Prog.Safe.bind (Prog.Safe.mono h fun r s hr => ?_)
  cases r with
  | ok a => exact hr
  | error e => exact hr

/-- The rule for a sequence, with an assertion in between. -/
theorem Safe.seq {p : Co Out ε α} {f : α → Co Out ε β} {Q : α → σ → Prop} {post : β → σ → Prop}
    (hp : Safe E p Q exn s) (hf : ∀ a s, Q a s → Safe E (f a) post exn s) :
    Safe E (p >>= f) post exn s :=
  Safe.bind (Safe.mono hp (fun a s h => hf a s h) fun _ _ h => h)

theorem Safe.tryCatch {p : Co Out ε α} {h : ε → Co Out ε α}
    (hp : Safe E p post (fun e s => Safe E (h e) post exn s) s) :
    Safe E (tryCatch p h) post exn s := by
  refine Prog.Safe.bind (Prog.Safe.mono hp fun r s hr => ?_)
  cases r with
  | ok a => exact hr
  | error e => exact hr

theorem Safe.attempt {p : Co Out ε α} {post : Except ε α → σ → Prop}
    (hp : Safe E p (fun a => post (.ok a)) (fun e => post (.error e)) s) :
    Safe E (attempt p) post exn s := by
  refine Prog.Safe.bind (Prog.Safe.mono hp fun r s hr => ?_)
  cases r with
  | ok a => exact hr
  | error e => exact hr

/-- The same, for one assertion that holds however the program ends. -/
theorem Safe.attempt_either {p : Co Out ε α} {A : σ → Prop}
    (hp : Safe E p (fun _ => A) (fun _ => A) s) : Safe E (Co.attempt p) (fun _ => A) exn s :=
  Safe.attempt hp

/-- The loop rule: an assertion that every round keeps. -/
theorem Safe.forM {ι : Type} {f : ι → Co Out ε Unit} {A : σ → Prop} :
    ∀ {xs : List ι} {s : σ}, (∀ x ∈ xs, ∀ s, A s → Safe E (f x) (fun _ => A) exn s) → A s →
      Safe E (xs.forM f) (fun _ => A) exn s
  | [], _, _, hs => hs
  | x :: xs, s, hf, hs =>
      Safe.bind (Safe.mono (hf x (by simp) s hs)
        (fun _ _ hA => Safe.forM (fun y hy => hf y (by simp [hy])) hA) fun _ _ h => h)

theorem Safe.of_makes {S : C → Prop} {A : σ → Prop} {p : Co Out ε α} (hp : Makes S p)
    (hrely : ∀ s s', A s → E.rely s s' → A s')
    (hstep : ∀ c s r s', S c → A s → E.inv s → E.step c s r s' →
      E.inv s' ∧ E.guar s s' ∧ A s') (hs : A s) :
    Safe E p (fun _ => A) (fun _ => A) s := by
  refine Prog.Safe.mono (Prog.Safe.of_makes hp hrely hstep hs) fun r s hr => ?_
  cases r with
  | ok a => exact hr
  | error e => exact hr

/-! ### Loops -/

/-- A `while True` whose rounds go on from a value until one of them leaves with
a result. `never` is a wait without end, where the guess of the number of rounds
was too low. -/
def loopFrom (never : Co Out ε β) (body : α → Co Out ε (α ⊕ β)) : Nat → α → Co Out ε β
  | 0, _ => never
  | n + 1, a => do
    match ← body a with
    | .inl a => loopFrom never body n a
    | .inr b => pure b

/-- The rule for a loop: an assertion on the value it goes on from. -/
theorem Safe.loopFrom {never : Co Out ε β} {body : α → Co Out ε (α ⊕ β)} {I : α → σ → Prop}
    {post : β → σ → Prop} (hnever : ∀ s, Safe E never post exn s)
    (hbody : ∀ a s, I a s → Safe E (body a) (fun r s => match r with
      | .inl a => I a s
      | .inr b => post b s) exn s) :
    ∀ (n : Nat) (a : α) (s : σ), I a s → Safe E (Co.loopFrom never body n a) post exn s
  | 0, _, s, _ => hnever s
  | n + 1, a, s, hs => by
      refine Safe.seq (hbody a s hs) fun r s hr => ?_
      cases r with
      | inl a => exact Safe.loopFrom hnever hbody n a s hr
      | inr b => exact hr

/-! ### Running alone to the end -/

/-- Run alone, the program comes to an end, with `post`. -/
def Ends (handle : (c : C) → σ → Option (Out c × σ)) (p : Co Out ε α)
    (post : Except ε α → σ → Prop) (s : σ) : Prop :=
  ∃ x s', Prog.alone handle p.run s = some (x, s') ∧ post x s'

section Ends

variable {handle : (c : C) → σ → Option (Out c × σ)} {p : Co Out ε α}
  {after : Except ε α → σ → Prop}

theorem Ends.pure {a : α} (h : after (.ok a) s) : Ends handle (pure a) after s :=
  ⟨_, s, rfl, h⟩

theorem Ends.throw {e : ε} (h : after (.error e) s) : Ends handle (throw e : Co Out ε α) after s :=
  ⟨_, s, rfl, h⟩

theorem Ends.mono {after' : Except ε α → σ → Prop} (h : Ends handle p after s)
    (hafter : ∀ x s, after x s → after' x s) : Ends handle p after' s := by
  obtain ⟨x, s', hr, hx⟩ := h
  exact ⟨x, s', hr, hafter x s' hx⟩

/-- The rule for a sequence. -/
theorem Ends.bind {f : α → Co Out ε β} {after' : Except ε β → σ → Prop}
    (hp : Ends handle p after s) (hf : ∀ a s, after (.ok a) s → Ends handle (f a) after' s)
    (he : ∀ e s, after (.error e) s → after' (.error e) s) : Ends handle (p >>= f) after' s := by
  obtain ⟨x, s₁, hr, hx⟩ := hp
  have hbind := Prog.alone_bind handle p.run (fun x => match x with
    | .ok a => (f a).run
    | .error e => Prog.ret (.error e)) s
  rw [hr, Option.bind_some] at hbind
  cases x with
  | ok a =>
      obtain ⟨y, s₂, hr', hy⟩ := hf a s₁ hx
      exact ⟨y, s₂, hbind.trans hr', hy⟩
  | error e => exact ⟨.error e, s₁, hbind, he e s₁ hx⟩

theorem Ends.attempt {after' : Except ε (Except ε α) → σ → Prop}
    (hp : Ends handle p (fun x => after' (.ok x)) s) : Ends handle (Co.attempt p) after' s := by
  obtain ⟨x, s₁, hr, hx⟩ := hp
  have hbind := Prog.alone_bind handle p.run
    (fun x => (Prog.ret (.ok x) : Prog Out (Except ε (Except ε α)))) s
  rw [hr, Option.bind_some] at hbind
  exact ⟨.ok x, s₁, hbind, hx⟩

theorem Ends.tryCatch {h : ε → Co Out ε α} {after' : Except ε α → σ → Prop}
    (hp : Ends handle p after s) (hok : ∀ a s, after (.ok a) s → after' (.ok a) s)
    (hcatch : ∀ e s, after (.error e) s → Ends handle (h e) after' s) :
    Ends handle (tryCatch p h) after' s := by
  obtain ⟨x, s₁, hr, hx⟩ := hp
  have hbind := Prog.alone_bind handle p.run (fun x => match x with
    | .ok a => (Prog.ret (.ok a) : Prog Out (Except ε α))
    | .error e => (h e).run) s
  rw [hr, Option.bind_some] at hbind
  cases x with
  | ok a => exact ⟨.ok a, s₁, hbind, hok a s₁ hx⟩
  | error e =>
      obtain ⟨y, s₂, hr', hy⟩ := hcatch e s₁ hx
      exact ⟨y, s₂, hbind.trans hr', hy⟩

/-- A program whose calls are all answered ends with what they keep. -/
theorem Ends.of_makes {S : C → Prop} {A : σ → Prop} (hp : Makes S p)
    (hstep : ∀ c s, S c → A s → ∃ r s', handle c s = some (r, s') ∧ A s') (hs : A s) :
    Ends handle p (fun _ => A) s := by
  have hrun : ∀ {q : Prog Out (Except ε α)} {s : σ}, q.Makes S → A s →
      ∃ x s', q.alone handle s = some (x, s') ∧ A s' := by
    intro q
    induction q with
    | ret x => exact fun {s} _ hs => ⟨x, s, rfl, hs⟩
    | call c k ih =>
        intro s hq hs
        obtain ⟨r, s₁, hc, hs₁⟩ := hstep c s hq.1 hs
        obtain ⟨x, s₂, hx, hs₂⟩ := ih r (hq.2 r) hs₁
        exact ⟨x, s₂, by rw [Prog.alone, hc, Option.bind_some]; exact hx, hs₂⟩
  exact hrun hp hs

end Ends

/-! ### Assertions that a program keeps -/

/-- Started with `A`, the program is safe and ends with `A`, by a value or by an
exception. -/
def Keeps (E : Contract Out σ) (A : σ → Prop) (p : Co Out ε α) : Prop :=
  ∀ s, A s → Safe E p (fun _ => A) (fun _ => A) s

variable {A : σ → Prop}

theorem Keeps.pure (a : α) : Keeps E A (pure a : Co Out ε α) := fun _ h => h

theorem Keeps.throw (e : ε) : Keeps E A (throw e : Co Out ε α) := fun _ h => h

theorem Keeps.bind {p : Co Out ε α} {f : α → Co Out ε β} (hp : Keeps E A p)
    (hf : ∀ a, Keeps E A (f a)) : Keeps E A (p >>= f) :=
  fun s hs => Safe.bind (Safe.mono (hp s hs) (fun a s hs => hf a s hs) fun _ _ h => h)

theorem Keeps.tryCatch {p : Co Out ε α} {h : ε → Co Out ε α} (hp : Keeps E A p)
    (hh : ∀ e, Keeps E A (h e)) : Keeps E A (tryCatch p h) :=
  fun s hs => Safe.tryCatch (Safe.mono (hp s hs) (fun _ _ h => h) fun e s hs => hh e s hs)

theorem Keeps.attempt {p : Co Out ε α} (hp : Keeps E A p) : Keeps E A (attempt p) :=
  fun s hs => Safe.attempt (hp s hs)

theorem Keeps.forM {ι : Type} {f : ι → Co Out ε Unit} {xs : List ι}
    (hf : ∀ x ∈ xs, Keeps E A (f x)) : Keeps E A (xs.forM f) :=
  fun _ hs => Safe.forM (fun x hx s hs => hf x hx s hs) hs

end Co

end GgAgent.Lib
