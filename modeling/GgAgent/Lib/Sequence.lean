import Mathlib.Init

/-!
Sequences of numbers without a gap.

A receiver that has seen everything up to `n` and takes each number that is larger than
those before misses nothing exactly if no number of the sequence is larger than the
successor of what it has by then. Numbers may repeat and lag behind. `reach` is what it has
at the end.
-/

namespace GgAgent.Lib

/-- The largest of `n` and the numbers of a sequence. -/
def reach (n : Nat) : List Nat → Nat
  | [] => n
  | x :: xs => reach (max n x) xs

/-- Whoever has everything up to `n` gets the sequence without a gap. -/
def NoGap (n : Nat) : List Nat → Prop
  | [] => True
  | x :: xs => x ≤ n + 1 ∧ NoGap (max n x) xs

variable {n m x : Nat} {xs ys : List Nat}

@[simp] theorem reach_append : reach n (xs ++ ys) = reach (reach n xs) ys := by
  induction xs generalizing n with
  | nil => rfl
  | cons x xs ih => exact ih

theorem le_reach : n ≤ reach n xs := by
  induction xs generalizing n with
  | nil => exact Nat.le_refl n
  | cons x xs ih => exact Nat.le_trans (Nat.le_max_left n x) ih

theorem reach_mono (h : n ≤ m) : reach n xs ≤ reach m xs := by
  induction xs generalizing n m with
  | nil => exact h
  | cons x xs ih =>
      apply ih
      omega

theorem le_reach_of_mem (h : x ∈ xs) : x ≤ reach n xs := by
  induction xs generalizing n with
  | nil => cases h
  | cons y xs ih =>
      rcases List.mem_cons.mp h with rfl | h
      · exact Nat.le_trans (Nat.le_max_right n x) le_reach
      · exact ih h

theorem reach_le (hn : n ≤ m) (h : ∀ x ∈ xs, x ≤ m) : reach n xs ≤ m := by
  induction xs generalizing n with
  | nil => exact hn
  | cons x xs ih =>
      apply ih
      · exact Nat.max_le.mpr ⟨hn, h x List.mem_cons_self⟩
      · exact fun y hy => h y (List.mem_cons_of_mem _ hy)

theorem noGap_append : NoGap n (xs ++ ys) ↔ NoGap n xs ∧ NoGap (reach n xs) ys := by
  induction xs generalizing n with
  | nil => exact ⟨fun h => ⟨trivial, h⟩, fun h => h.2⟩
  | cons x xs ih =>
      show x ≤ n + 1 ∧ NoGap (max n x) (xs ++ ys) ↔ _
      rw [ih, ← and_assoc]
      rfl

theorem NoGap.mono (h : NoGap n xs) (hle : n ≤ m) : NoGap m xs := by
  induction xs generalizing n m with
  | nil => trivial
  | cons x xs ih =>
      refine ⟨by have := h.1; omega, ih h.2 ?_⟩
      omega

/-- Nothing new. -/
theorem noGap_of_le (h : ∀ x ∈ xs, x ≤ n) : NoGap n xs := by
  induction xs generalizing n with
  | nil => trivial
  | cons x xs ih =>
      refine ⟨Nat.le_succ_of_le (h x List.mem_cons_self), ih fun y hy => ?_⟩
      exact Nat.le_trans (h y (List.mem_cons_of_mem _ hy)) (Nat.le_max_left n x)

/-- What is added at the end. -/
theorem NoGap.snoc (h : NoGap n xs) (hx : x ≤ reach n xs + 1) : NoGap n (xs ++ [x]) :=
  noGap_append.mpr ⟨h, hx, trivial⟩

/-- What is put before numbers that are not smaller. -/
theorem NoGap.insert (h : NoGap n (xs ++ ys)) (hys : ∀ y ∈ ys, x ≤ y)
    (hx : x ≤ reach n (xs ++ ys)) : NoGap n (xs ++ x :: ys) := by
  obtain ⟨hfirst, hrest⟩ := noGap_append.mp h
  have hle : x ≤ reach n xs + 1 := by
    cases ys with
    | nil =>
        rw [List.append_nil] at hx
        exact Nat.le_succ_of_le hx
    | cons y ys =>
        have hxy := hys y List.mem_cons_self
        have hy := hrest.1
        omega
  exact noGap_append.mpr ⟨hfirst, hle, hrest.mono (Nat.le_max_left _ _)⟩

theorem reach_insert : reach n (xs ++ ys) ≤ reach n (xs ++ x :: ys) := by
  rw [reach_append, reach_append]
  exact reach_mono (Nat.le_max_left _ _)

/-- A number that was passed says nothing new. -/
theorem noGap_filter (h : x ≤ n) : NoGap n (xs.filter (· ≠ x)) ↔ NoGap n xs := by
  induction xs generalizing n with
  | nil => exact Iff.rfl
  | cons y xs ih =>
      by_cases hy : y = x
      · subst hy
        rw [List.filter_cons_of_neg (by simp), ih h]
        constructor
        · intro hrest
          refine ⟨by omega, ?_⟩
          rw [Nat.max_eq_left h]
          exact hrest
        · intro hall
          have hrest := hall.2
          rw [Nat.max_eq_left h] at hrest
          exact hrest
      · rw [List.filter_cons_of_pos (by simpa using hy)]
        show y ≤ n + 1 ∧ NoGap (max n y) (xs.filter (· ≠ x)) ↔ _
        rw [ih (by omega)]
        rfl

theorem reach_filter (h : x ≤ n) : reach n (xs.filter (· ≠ x)) = reach n xs := by
  induction xs generalizing n with
  | nil => rfl
  | cons y xs ih =>
      by_cases hy : y = x
      · subst hy
        rw [List.filter_cons_of_neg (by simp), ih h]
        show reach n xs = reach (max n y) xs
        rw [Nat.max_eq_left h]
      · rw [List.filter_cons_of_pos (by simpa using hy)]
        exact ih (by omega)

end GgAgent.Lib
