import Mathlib.Data.List.Nodup
import Mathlib.Data.List.Basic

/-!
Keyed tables: a finite list of rows, no two of which have the same primary key.
The uniqueness is a field of the type, so a table with a duplicated key cannot
be built and no lemma about a lookup has to ask for it.

The operations are the ones a statement on a table by its key can do: look a row
up, insert one whose key is free, rewrite the row of a key, rewrite the rows that
meet a condition, delete. Each comes with the equation that says what a lookup
sees afterwards; proofs about a store use those and never the list.
-/

namespace GgAgent.Lib

/-- The primary key of a row. -/
class Keyed (ρ : Type) (κ : outParam Type) where
  key : ρ → κ

export Keyed (key)

/-- A table of rows `ρ`, unique in their key. -/
structure Table (ρ : Type) {κ : Type} [Keyed ρ κ] where
  rows : List ρ
  nodup : (rows.map key).Nodup

namespace Table

variable {ρ κ : Type} [Keyed ρ κ] [DecidableEq κ]

omit [DecidableEq κ] in
@[ext] theorem ext {T U : Table ρ} (h : T.rows = U.rows) : T = U := by
  cases T
  cases U
  cases h
  rfl

def empty : Table ρ := ⟨[], List.nodup_nil⟩

def find? (T : Table ρ) (k : κ) : Option ρ := T.rows.find? (fun r => key r = k)

theorem key_of_find? {T : Table ρ} {k : κ} {r : ρ} (h : T.find? k = some r) : key r = k := by
  simpa using List.find?_some h

theorem mem_of_find? {T : Table ρ} {k : κ} {r : ρ} (h : T.find? k = some r) : r ∈ T.rows :=
  List.mem_of_find?_eq_some h

theorem find?_of_mem {T : Table ρ} {r : ρ} (h : r ∈ T.rows) : T.find? (key r) = some r := by
  obtain ⟨rows, hnd⟩ := T
  induction rows with
  | nil => simp at h
  | cons a rows ih =>
      rw [List.map_cons, List.nodup_cons] at hnd
      by_cases hk : key a = key r
      · rcases List.mem_cons.mp h with rfl | hr
        · simp [find?]
        · exact absurd (hk ▸ List.mem_map_of_mem hr) hnd.1
      · have hr : r ∈ rows := by
          rcases List.mem_cons.mp h with rfl | hr
          · exact absurd rfl hk
          · exact hr
        simpa [find?, hk] using ih hnd.2 hr

theorem find?_eq_none {T : Table ρ} {k : κ} :
    T.find? k = none ↔ ∀ r ∈ T.rows, key r ≠ k := by
  simp [find?]

@[simp] theorem find?_empty (k : κ) : (empty : Table ρ).find? k = none := rfl

/-- Insert a row at the end; a row with the same key is left alone. -/
def insert (T : Table ρ) (r : ρ) : Table ρ :=
  if h : T.find? (key r) = none then
    ⟨T.rows ++ [r], by
      rw [List.map_append, List.nodup_append]
      refine ⟨T.nodup, List.nodup_singleton _, ?_⟩
      intro a ha b hb hab
      obtain ⟨r', hr', rfl⟩ := List.mem_map.mp ha
      exact find?_eq_none.mp h r' hr' (by simpa [hab] using hb)⟩
  else T

theorem rows_insert {T : Table ρ} {r : ρ} (h : T.find? (key r) = none) :
    (T.insert r).rows = T.rows ++ [r] := by
  simp only [insert, h, dite_true]

theorem find?_insert {T : Table ρ} {r : ρ} (h : T.find? (key r) = none) (k : κ) :
    (T.insert r).find? k = if key r = k then some r else T.find? k := by
  simp only [insert, h, dite_true]
  by_cases hk : key r = k
  · subst hk
    simp only [find?, List.find?_append] at h ⊢
    simp [h]
  · simp [find?, List.find?_append, hk]

/-- Rewrite every row that meets `p`; the key of a row is not rewritten. -/
def modifyWhere (T : Table ρ) (p : ρ → Bool) (f : ρ → ρ)
    (hf : ∀ r, key (f r) = key r := by intro _; rfl) : Table ρ :=
  ⟨T.rows.map fun r => if p r then f r else r, by
    have hkeys : (T.rows.map fun r => if p r then f r else r).map key = T.rows.map key := by
      rw [List.map_map]
      apply List.map_congr_left
      intro r _
      by_cases hp : p r <;> simp [hp, hf]
    rw [hkeys]
    exact T.nodup⟩

theorem find?_modifyWhere (T : Table ρ) (p : ρ → Bool) (f : ρ → ρ)
    (hf : ∀ r, key (f r) = key r) (k : κ) :
    (T.modifyWhere p f hf).find? k = (T.find? k).map fun r => if p r then f r else r := by
  obtain ⟨rows, hnd⟩ := T
  induction rows with
  | nil => rfl
  | cons a rows ih =>
      rw [List.map_cons, List.nodup_cons] at hnd
      have hka : key (if p a then f a else a) = key a := by by_cases hp : p a <;> simp [hp, hf]
      by_cases hk : key a = k
      · simp [modifyWhere, find?, hka, hk]
      · simpa [modifyWhere, find?, hka, hk] using ih hnd.2

/-- Rewrite the row of key `k`, if there is one and it meets `p`. -/
def modifyIf (T : Table ρ) (k : κ) (p : ρ → Bool) (f : ρ → ρ)
    (hf : ∀ r, key (f r) = key r := by intro _; rfl) : Table ρ :=
  T.modifyWhere (fun r => key r = k && p r) f hf

theorem find?_modifyIf (T : Table ρ) (k : κ) (p : ρ → Bool) (f : ρ → ρ)
    (hf : ∀ r, key (f r) = key r) (j : κ) :
    (T.modifyIf k p f hf).find? j =
      if j = k then (T.find? j).map (fun r => if p r then f r else r) else T.find? j := by
  rw [modifyIf, find?_modifyWhere]
  cases h : T.find? j with
  | none => simp
  | some r =>
      have hr : key r = j := key_of_find? h
      by_cases hk : j = k <;> simp [hr, hk]

/-- Rewrite the row of key `k`, if there is one. -/
def modify (T : Table ρ) (k : κ) (f : ρ → ρ)
    (hf : ∀ r, key (f r) = key r := by intro _; rfl) : Table ρ :=
  T.modifyIf k (fun _ => true) f hf

@[simp] theorem find?_modify (T : Table ρ) (k : κ) (f : ρ → ρ)
    (hf : ∀ r, key (f r) = key r) (j : κ) :
    (T.modify k f hf).find? j = if j = k then (T.find? j).map f else T.find? j := by
  simp [modify, find?_modifyIf]

/-- Keep the rows that meet `p`. -/
def filter (T : Table ρ) (p : ρ → Bool) : Table ρ :=
  ⟨T.rows.filter p, T.nodup.sublist (List.filter_sublist.map key)⟩

theorem find?_filter (T : Table ρ) (p : ρ → Bool) (k : κ) :
    (T.filter p).find? k = (T.find? k).filter p := by
  obtain ⟨rows, hnd⟩ := T
  induction rows with
  | nil => rfl
  | cons a rows ih =>
      rw [List.map_cons, List.nodup_cons] at hnd
      by_cases hk : key a = k
      · subst hk
        by_cases hp : p a
        · simp [filter, find?, Option.filter, hp]
        · have hnone : (⟨rows, hnd.2⟩ : Table ρ).find? (key a) = none :=
            find?_eq_none.mpr fun r hr hrk => hnd.1 (hrk ▸ List.mem_map_of_mem hr)
          have hrest := ih hnd.2
          rw [hnone] at hrest
          simpa only [filter, find?, Option.filter, hp, decide_true, List.filter_cons_of_neg,
            List.find?_cons_of_pos, Bool.false_eq_true, not_false_eq_true, if_false] using hrest
      · by_cases hp : p a <;> simpa [filter, find?, hp, hk] using ih hnd.2

/-- Delete the row of key `k`. -/
def erase (T : Table ρ) (k : κ) : Table ρ := T.filter fun r => !decide (key r = k)

@[simp] theorem find?_erase (T : Table ρ) (k j : κ) :
    (T.erase k).find? j = if j = k then none else T.find? j := by
  rw [erase, find?_filter]
  cases h : T.find? j with
  | none => simp
  | some r =>
      have hr : key r = j := key_of_find? h
      by_cases hk : j = k <;> simp [Option.filter, hr, hk]

/-- Insert a row, or rewrite the row that has its key. -/
def upsert (T : Table ρ) (r : ρ) (f : ρ → ρ)
    (hf : ∀ r, key (f r) = key r := by intro _; rfl) : Table ρ :=
  match T.find? (key r) with
  | none => T.insert r
  | some _ => T.modify (key r) f hf

theorem find?_upsert (T : Table ρ) (r : ρ) (f : ρ → ρ) (hf : ∀ r, key (f r) = key r) (k : κ) :
    (T.upsert r f hf).find? k =
      if k = key r then some ((T.find? k).elim r f) else T.find? k := by
  unfold upsert
  cases h : T.find? (key r) with
  | none =>
      simp only [find?_insert h]
      by_cases hk : k = key r
      · subst hk; simp [h]
      · simp [hk, Ne.symm hk]
  | some r' =>
      simp only [find?_modify]
      by_cases hk : k = key r
      · subst hk; simp [h]
      · simp [hk]

/-- Write a whole row, in the place of the one with its key if there is one. -/
def put (T : Table ρ) (r : ρ) : Table ρ :=
  T.upsert r (fun x => if key x = key r then r else x) (by
    intro x
    by_cases h : key x = key r <;> simp [h])

theorem find?_put (T : Table ρ) (r : ρ) (k : κ) :
    (T.put r).find? k = if k = key r then some r else T.find? k := by
  rw [put, find?_upsert]
  by_cases hk : k = key r
  · subst hk
    cases h : T.find? (key r) with
    | none => simp
    | some x => simp [key_of_find? h]
  · simp [hk]

/-! ### The part of a table with some of its keys -/

/-- The rows whose keys meet `q`. -/
def part (T : Table ρ) (q : κ → Bool) : Table ρ := T.filter fun r => q (key r)

theorem find?_part (T : Table ρ) (q : κ → Bool) (k : κ) :
    (T.part q).find? k = if q k then T.find? k else none := by
  rw [part, find?_filter]
  cases h : T.find? k with
  | none => simp
  | some r =>
      have hr : key r = k := key_of_find? h
      by_cases hq : q k <;> simp [Option.filter, hr, hq]

/-- An inserted row is in the part when its key is. -/
theorem part_insert (T : Table ρ) (r : ρ) (q : κ → Bool) :
    (T.insert r).part q = if q (key r) then (T.part q).insert r else T.part q := by
  have hfind := find?_part T q (key r)
  by_cases hq : q (key r) = true
  · rw [if_pos hq] at hfind ⊢
    cases h : T.find? (key r) with
    | none =>
        have hpart : (T.part q).find? (key r) = none := hfind.trans h
        refine Table.ext ?_
        rw [rows_insert hpart]
        show (T.insert r).rows.filter _ = T.rows.filter _ ++ [r]
        rw [rows_insert h, List.filter_append, List.filter_cons_of_pos (by simpa using hq),
          List.filter_nil]
    | some r' =>
        have hpart : (T.part q).find? (key r) = some r' := hfind.trans h
        simp only [insert, h, hpart, reduceCtorEq, dite_false]
  · rw [if_neg hq]
    cases h : T.find? (key r) with
    | none =>
        refine Table.ext ?_
        show (T.insert r).rows.filter _ = T.rows.filter _
        rw [rows_insert h, List.filter_append, List.filter_cons_of_neg (by simpa using hq),
          List.filter_nil, List.append_nil]
    | some r' => simp only [insert, h, reduceCtorEq, dite_false]

omit [DecidableEq κ] in
/-- Rows keep their keys, so they stay in the part or out of it. -/
theorem part_modifyWhere (T : Table ρ) (p : ρ → Bool) (f : ρ → ρ) (hf : ∀ r, key (f r) = key r)
    (q : κ → Bool) : (T.modifyWhere p f hf).part q = (T.part q).modifyWhere p f hf := by
  refine Table.ext ?_
  show (T.rows.map _).filter _ = (T.rows.filter _).map _
  rw [List.filter_map]
  refine congrArg (List.map _) (List.filter_congr fun r _ => ?_)
  by_cases hp : p r = true
  · simp only [Function.comp, if_pos hp, hf]
  · simp only [Function.comp, if_neg hp]

theorem part_modifyIf (T : Table ρ) (k : κ) (p : ρ → Bool) (f : ρ → ρ)
    (hf : ∀ r, key (f r) = key r) (q : κ → Bool) :
    (T.modifyIf k p f hf).part q = (T.part q).modifyIf k p f hf :=
  part_modifyWhere T _ f hf q

theorem part_modify (T : Table ρ) (k : κ) (f : ρ → ρ) (hf : ∀ r, key (f r) = key r)
    (q : κ → Bool) : (T.modify k f hf).part q = (T.part q).modify k f hf :=
  part_modifyIf T k _ f hf q

/-- No row of the part has a key that is not in it. -/
theorem modifyIf_part_of_not {T : Table ρ} {k : κ} {p : ρ → Bool} {f : ρ → ρ}
    {hf : ∀ r, key (f r) = key r} {q : κ → Bool} (hq : q k = false) :
    (T.part q).modifyIf k p f hf = T.part q := by
  refine Table.ext ?_
  show (T.part q).rows.map _ = (T.part q).rows
  rw [List.map_congr_left, List.map_id]
  intro r hr
  have hkey : q (key r) = true := by simpa using (List.mem_filter.mp hr).2
  have hne : key r ≠ k := by
    rintro rfl
    rw [hq] at hkey
    exact absurd hkey (by decide)
  simp only [hne, decide_false, Bool.false_and, Bool.false_eq_true, if_false, id]

omit [DecidableEq κ] in
theorem part_filter (T : Table ρ) (p : ρ → Bool) (q : κ → Bool) :
    (T.filter p).part q = (T.part q).filter p := by
  refine Table.ext ?_
  show (T.rows.filter p).filter _ = (T.rows.filter _).filter p
  rw [List.filter_filter, List.filter_filter]
  exact List.filter_congr fun r _ => Bool.and_comm _ _

omit [DecidableEq κ] in
theorem part_part (T : Table ρ) (q : κ → Bool) : (T.part q).part q = T.part q := by
  refine Table.ext ?_
  show (T.rows.filter _).filter _ = T.rows.filter _
  rw [List.filter_filter]
  exact List.filter_congr fun r _ => Bool.and_self _


theorem modify_part_of_not {T : Table ρ} {k : κ} {f : ρ → ρ} {hf : ∀ r, key (f r) = key r}
    {q : κ → Bool} (hq : q k = false) : (T.part q).modify k f hf = T.part q :=
  modifyIf_part_of_not hq

omit [DecidableEq κ] in
/-- Every row of the part meets `p`. -/
theorem filter_part_of {T : Table ρ} {p : ρ → Bool} {q : κ → Bool}
    (h : ∀ r, q (key r) = true → p r = true) : (T.part q).filter p = T.part q := by
  refine Table.ext ?_
  show (T.rows.filter _).filter _ = T.rows.filter _
  rw [List.filter_eq_self]
  intro r hr
  exact h r (List.mem_filter.mp hr).2

theorem part_erase (T : Table ρ) (k : κ) (q : κ → Bool) :
    (T.erase k).part q = (T.part q).erase k := part_filter T _ q

theorem erase_part_of_not {T : Table ρ} {k : κ} {q : κ → Bool} (hq : q k = false) :
    (T.part q).erase k = T.part q := by
  refine filter_part_of fun r hr => ?_
  have hne : key r ≠ k := by
    rintro rfl
    rw [hq] at hr
    exact absurd hr (by decide)
  simp only [hne, decide_false, Bool.not_false]

/-- A row whose key is not in the part leaves the part alone. -/
theorem part_upsert_of_not {T : Table ρ} {r : ρ} {f : ρ → ρ} {hf : ∀ r, key (f r) = key r}
    {q : κ → Bool} (hq : q (key r) = false) : (T.upsert r f hf).part q = T.part q := by
  unfold upsert
  split
  · rw [part_insert, if_neg (by simp [hq])]
  · rw [part_modify, modify_part_of_not hq]

omit [DecidableEq κ] in
theorem filter_empty (p : ρ → Bool) : (empty : Table ρ).filter p = empty := rfl

omit [DecidableEq κ] in
theorem modifyWhere_empty (p : ρ → Bool) (f : ρ → ρ) (hf : ∀ r, key (f r) = key r) :
    (empty : Table ρ).modifyWhere p f hf = empty := rfl

/-! ### The keys of a table -/

omit [DecidableEq κ] in
/-- The keys of the rows, in their order. -/
def keys (T : Table ρ) : List κ := T.rows.map key

theorem mem_keys {T : Table ρ} {k : κ} : k ∈ T.keys ↔ T.find? k ≠ none := by
  constructor
  · intro h
    obtain ⟨r, hr, rfl⟩ := List.mem_map.mp h
    rw [find?_of_mem hr]
    simp
  · intro h
    obtain ⟨r, hr⟩ := Option.ne_none_iff_exists'.mp h
    exact List.mem_map.mpr ⟨r, mem_of_find? hr, key_of_find? hr⟩

theorem mem_keys_insert {T : Table ρ} {r : ρ} {k : κ} (h : k ∈ (T.insert r).keys) :
    k ∈ T.keys ∨ k = key r := by
  unfold insert at h
  split at h
  · rw [keys, List.map_append] at h
    exact (List.mem_append.mp h).imp_right List.mem_singleton.mp
  · exact .inl h

omit [DecidableEq κ] in
theorem keys_modifyWhere (T : Table ρ) (p : ρ → Bool) (f : ρ → ρ) (hf : ∀ r, key (f r) = key r) :
    (T.modifyWhere p f hf).keys = T.keys := by
  rw [keys, modifyWhere, keys, List.map_map]
  apply List.map_congr_left
  intro r _
  by_cases hp : p r <;> simp [hp, hf]

theorem mem_keys_modify {T : Table ρ} {k j : κ} {f : ρ → ρ} (hf : ∀ r, key (f r) = key r)
    (h : j ∈ (T.modify k f hf).keys) : j ∈ T.keys := by
  rwa [modify, modifyIf, keys_modifyWhere] at h

theorem mem_keys_modifyIf {T : Table ρ} {k j : κ} {p : ρ → Bool} {f : ρ → ρ}
    (hf : ∀ r, key (f r) = key r) (h : j ∈ (T.modifyIf k p f hf).keys) : j ∈ T.keys := by
  rwa [modifyIf, keys_modifyWhere] at h

omit [DecidableEq κ] in
theorem keys_filter_subset (T : Table ρ) (p : ρ → Bool) : (T.filter p).keys ⊆ T.keys :=
  (List.filter_sublist.map key).subset

theorem mem_keys_upsert {T : Table ρ} {r : ρ} {f : ρ → ρ} {k : κ} (hf : ∀ r, key (f r) = key r)
    (h : k ∈ (T.upsert r f hf).keys) : k ∈ T.keys ∨ k = key r := by
  unfold upsert at h
  split at h
  · exact mem_keys_insert h
  · exact .inl (mem_keys_modify hf h)

/-! ### The number of rows -/

theorem length_insert (T : Table ρ) (r : ρ) :
    (T.insert r).rows.length ≤ T.rows.length + 1 := by
  unfold insert
  split
  · simp
  · exact Nat.le_succ _

theorem length_modify (T : Table ρ) (k : κ) (f : ρ → ρ) (hf : ∀ r, key (f r) = key r) :
    (T.modify k f hf).rows.length = T.rows.length := by
  simp [modify, modifyIf, modifyWhere]

theorem length_erase (T : Table ρ) (k : κ) : (T.erase k).rows.length ≤ T.rows.length :=
  List.length_filter_le _ _

end Table

end GgAgent.Lib
