import GgAgent.Backend.Types

/-!
`redact_secret`: one credential is replaced in every string of a nested value, in the
keys of its dictionaries as well.

The values are those that `model_dump` and `json.loads` give: dictionaries, lists and tuples
of texts, flags, numbers and times. A float is kept as it is printed. A tuple is no `list`
and passes unchanged.

What the callers need to know is which lookups survive. A text that redaction has
changed contains a bracket, so that it can never be taken for the name of a field or
for a word of an enumeration again.
-/

namespace GgAgent.Sandbox

open GgAgent.Backend (Time)

/-! ### Replacement in a text -/

/-- `str.replace(old, new)` on characters, for an `old` that is not empty. `skip` counts
the characters of the current match that are still to be passed over. -/
def replaceFrom (old new : List Char) : Nat → List Char → List Char
  | _, [] => []
  | skip + 1, _ :: cs => replaceFrom old new skip cs
  | 0, c :: cs =>
    if old.isPrefixOf (c :: cs) then new ++ replaceFrom old new (old.length - 1) cs
    else c :: replaceFrom old new 0 cs

def redacted : String := "[REDACTED]"

/-- `text.replace(secret, "[REDACTED]")`. -/
def mask (secret text : String) : String :=
  String.ofList (replaceFrom secret.toList redacted.toList 0 text.toList)

theorem bracket_mem_redacted : '[' ∈ redacted.toList := by decide

/-- A bracket survives, unless it is inside a match, which is replaced by another one. -/
theorem bracket_mem_replaceFrom (old : List Char) :
    ∀ (skip : Nat) (cs : List Char), '[' ∈ cs.drop skip →
      '[' ∈ replaceFrom old redacted.toList skip cs
  | skip, [], h => by simp at h
  | skip + 1, _ :: cs, h => by
      rw [List.drop_succ_cons] at h
      exact bracket_mem_replaceFrom old skip cs h
  | 0, c :: cs, h => by
      rw [replaceFrom]
      split
      · exact List.mem_append_left _ bracket_mem_redacted
      · rw [List.drop_zero, List.mem_cons] at h
        rcases h with rfl | h
        · exact List.mem_cons_self
        · have hcs : '[' ∈ replaceFrom old redacted.toList 0 cs := by
            apply bracket_mem_replaceFrom
            rw [List.drop_zero]
            exact h
          exact List.mem_cons_of_mem _ hcs

theorem replaceFrom_eq_or (old : List Char) (cs : List Char) :
    replaceFrom old redacted.toList 0 cs = cs ∨
      '[' ∈ replaceFrom old redacted.toList 0 cs := by
  induction cs with
  | nil => exact .inl rfl
  | cons c cs ih =>
      rw [replaceFrom]
      split
      · exact .inr (List.mem_append_left _ bracket_mem_redacted)
      · rcases ih with h | h
        · exact .inl (by rw [h])
        · exact .inr (List.mem_cons_of_mem _ h)

/-- The text has a bracket. -/
def Marked (s : String) : Prop := '[' ∈ s.toList

instance (s : String) : Decidable (Marked s) := inferInstanceAs (Decidable ('[' ∈ s.toList))

theorem Marked.mask {s : String} (h : Marked s) (secret : String) : Marked (mask secret s) := by
  show '[' ∈ (String.ofList _).toList
  rw [String.toList_ofList]
  apply bracket_mem_replaceFrom
  rw [List.drop_zero]
  exact h

/-- Redaction leaves a text alone or marks it. -/
theorem mask_eq_or_marked (secret s : String) : mask secret s = s ∨ Marked (mask secret s) := by
  rcases replaceFrom_eq_or secret.toList s.toList with h | h
  · left
    rw [mask, h, String.ofList_toList]
  · right
    show '[' ∈ (String.ofList _).toList
    rw [String.toList_ofList]
    exact h

/-- The only text that redaction takes to an unmarked one is that text itself. -/
theorem eq_of_mask_eq {secret s t : String} (ht : ¬ Marked t) (h : mask secret s = t) : s = t := by
  rcases mask_eq_or_marked secret s with hs | hs
  · exact hs.symm.trans h
  · rw [h] at hs
    exact absurd hs ht

/-- Several secrets, one after the other. -/
def maskAll (secrets : List String) (text : String) : String :=
  secrets.foldl (fun s secret => mask secret s) text

theorem Marked.maskAll {s : String} (h : Marked s) (secrets : List String) :
    Marked (maskAll secrets s) := by
  induction secrets generalizing s with
  | nil => exact h
  | cons secret secrets ih => exact ih (h.mask secret)

theorem maskAll_eq_or_marked (secrets : List String) (s : String) :
    maskAll secrets s = s ∨ Marked (maskAll secrets s) := by
  induction secrets generalizing s with
  | nil => exact .inl rfl
  | cons secret secrets ih =>
      rcases mask_eq_or_marked secret s with h | h
      · have hs := ih s
        rw [maskAll, List.foldl_cons, h]
        exact hs
      · exact .inr (h.maskAll secrets)

theorem eq_of_maskAll_eq {secrets : List String} {s t : String} (ht : ¬ Marked t)
    (h : maskAll secrets s = t) : s = t := by
  rcases maskAll_eq_or_marked secrets s with hs | hs
  · exact hs.symm.trans h
  · rw [h] at hs
    exact absurd hs ht

/-! ### Nested values -/

inductive Value
  | null
  | bool (b : Bool)
  | int (n : Int)
  | float (text : String)
  | datetime (t : Time)
  | str (s : String)
  | list (items : List Value)
  | tuple (items : List Value)
  | dict (items : List (String × Value))
  deriving Repr

namespace Value

/-- `d[k] = v`, in the order of the first insertions. -/
def setItem (k : String) (v : Value) : List (String × Value) → List (String × Value)
  | [] => [(k, v)]
  | (j, u) :: items => if j = k then (j, v) :: items else (j, u) :: setItem k v items

/-- `d.get(k)`. -/
def item? (items : List (String × Value)) (k : String) : Option Value :=
  (items.find? fun kv => kv.1 = k).map fun kv => kv.2

theorem item?_setItem (k : String) (v : Value) (items : List (String × Value)) (j : String) :
    item? (setItem k v items) j = if k = j then some v else item? items j := by
  induction items with
  | nil =>
      by_cases h : k = j <;> simp [setItem, item?, h]
  | cons kv items ih =>
      obtain ⟨i, u⟩ := kv
      by_cases hik : i = k
      · subst hik
        by_cases hij : i = j <;> simp [setItem, item?, hij]
      · by_cases hij : i = j
        · subst hij
          simp [setItem, item?, hik, Ne.symm hik]
        · have hrest := ih
          simp only [item?] at hrest
          simp [setItem, item?, hik, hij, hrest]

end Value

open Value (setItem item?)

mutual

def redactSecret (secret : String) : Value → Value
  | .str s => .str (mask secret s)
  | .list items => .list (redactItems secret items)
  | .dict items => .dict (redactEntries secret items [])
  | .null => .null
  | .bool b => .bool b
  | .int n => .int n
  | .float text => .float text
  | .datetime t => .datetime t
  | .tuple items => .tuple items

def redactItems (secret : String) : List Value → List Value
  | [] => []
  | v :: items => redactSecret secret v :: redactItems secret items

/-- The entries of a dictionary, added to those that the comprehension has made so far. -/
def redactEntries (secret : String) :
    List (String × Value) → List (String × Value) → List (String × Value)
  | [], made => made
  | (k, v) :: items, made =>
    redactEntries secret items (setItem (mask secret k) (redactSecret secret v) made)

end

/-- A lookup that redaction of the name spares. -/
def spared (secret k : String) (v : Option Value) : Option Value :=
  if mask secret k = k then v.map (redactSecret secret) else none

/-- What a lookup under an unmarked name finds in a redacted dictionary. -/
theorem item?_redactEntries {secret k : String} (hk : ¬ Marked k)
    (items made : List (String × Value)) (hnd : (items.map Prod.fst).Nodup) :
    item? (redactEntries secret items made) k =
      if k ∈ items.map Prod.fst ∧ mask secret k = k then
        (item? items k).map (redactSecret secret)
      else item? made k := by
  induction items generalizing made with
  | nil => simp [redactEntries]
  | cons kv items ih =>
      obtain ⟨j, v⟩ := kv
      rw [List.map_cons, List.nodup_cons] at hnd
      rw [redactEntries, ih _ hnd.2, Value.item?_setItem]
      by_cases hjk : j = k
      · -- The name itself: it does not come again, and it is set if redaction spares it.
        subst hjk
        have hfirst : item? ((j, v) :: items) j = some v := by simp [item?]
        by_cases hm : mask secret j = j
        · simp [hnd.1, hm, hfirst]
        · simp [hm]
      · -- Another name is not taken to this one.
        have hne : mask secret j ≠ k := fun h => hjk (eq_of_mask_eq hk h)
        have hrest : item? ((j, v) :: items) k = item? items k := by simp [item?, hjk]
        have hmem : k ∈ ((j, v) :: items).map Prod.fst ↔ k ∈ items.map Prod.fst := by
          rw [List.map_cons, List.mem_cons]
          exact ⟨fun h => h.resolve_left (Ne.symm hjk), Or.inr⟩
        simp only [hne, if_false, hrest, hmem]

theorem keys_setItem (k : String) (v : Value) (items : List (String × Value)) :
    (setItem k v items).map Prod.fst =
      if k ∈ items.map Prod.fst then items.map Prod.fst else items.map Prod.fst ++ [k] := by
  induction items with
  | nil => simp [setItem]
  | cons kv items ih =>
      obtain ⟨j, u⟩ := kv
      by_cases hjk : j = k
      · simp [setItem, hjk]
      · simp only [setItem, hjk, if_false, List.map_cons, ih, List.mem_cons, Ne.symm hjk, false_or]
        split <;> rfl

theorem nodup_setItem {k : String} {v : Value} {items : List (String × Value)}
    (h : (items.map Prod.fst).Nodup) : ((setItem k v items).map Prod.fst).Nodup := by
  rw [keys_setItem]
  split
  · exact h
  next hk =>
    rw [List.nodup_append]
    refine ⟨h, List.nodup_singleton k, ?_⟩
    intro a ha b hb hab
    rw [List.mem_singleton] at hb
    exact hk (hb ▸ hab ▸ ha)

theorem nodup_redactEntries (secret : String) (items made : List (String × Value))
    (h : (made.map Prod.fst).Nodup) : ((redactEntries secret items made).map Prod.fst).Nodup := by
  induction items generalizing made with
  | nil =>
      rw [redactEntries]
      exact h
  | cons kv items ih =>
      rw [redactEntries]
      exact ih _ (nodup_setItem h)

/-- `redact_secret` on a dictionary. -/
def redactDict (secret : String) (items : List (String × Value)) : List (String × Value) :=
  redactEntries secret items []

theorem item?_redactDict {secret k : String} (hk : ¬ Marked k) {items : List (String × Value)}
    (hnd : (items.map Prod.fst).Nodup) :
    item? (redactDict secret items) k = spared secret k (item? items k) := by
  rw [redactDict, item?_redactEntries hk items [] hnd, spared]
  by_cases hm : mask secret k = k
  · by_cases hmem : k ∈ items.map Prod.fst
    · simp [hm, hmem]
    · have hnone : item? items k = none := by
        simp only [item?, Option.map_eq_none_iff, List.find?_eq_none, decide_eq_true_eq]
        intro kv hkv h
        exact hmem (h ▸ List.mem_map_of_mem hkv)
      rw [hnone]
      simp [hmem, hm, item?]
  · simp [hm, item?]

/-! ### Several secrets -/

/-- Redaction of a dictionary by one secret after the other. -/
def redactAll (secrets : List String) (items : List (String × Value)) : List (String × Value) :=
  secrets.foldl (fun d secret => redactDict secret d) items

/-- No secret changes the text. -/
def Untouched (secrets : List String) (s : String) : Prop := ∀ x ∈ secrets, mask x s = s

instance (secrets : List String) (s : String) : Decidable (Untouched secrets s) :=
  inferInstanceAs (Decidable (∀ x ∈ secrets, mask x s = s))

/-- What all secrets together make of a value. -/
def redactValue (secrets : List String) (v : Value) : Value :=
  secrets.foldl (fun v secret => redactSecret secret v) v

/-- A lookup under an unmarked name in what is left of a dictionary: nothing, if a secret
occurs in the name, else the redacted value. -/
theorem item?_redactAll {k : String} (hk : ¬ Marked k) (secrets : List String)
    {items : List (String × Value)} (hnd : (items.map Prod.fst).Nodup) :
    item? (redactAll secrets items) k =
      if Untouched secrets k then (item? items k).map (redactValue secrets) else none := by
  induction secrets generalizing items with
  | nil =>
      have hid : redactValue [] = id := rfl
      simp [redactAll, Untouched, hid]
  | cons secret secrets ih =>
      rw [redactAll, List.foldl_cons]
      have hrest := ih (nodup_redactEntries secret items [] (by simp))
      rw [show redactEntries secret items [] = redactDict secret items from rfl] at hrest
      rw [redactAll] at hrest
      rw [hrest, item?_redactDict hk hnd, spared]
      by_cases hm : mask secret k = k
      · have hun : Untouched (secret :: secrets) k ↔ Untouched secrets k := by
          simp [Untouched, hm]
        simp only [hm, if_true, hun, Option.map_map]
        rfl
      · have hun : ¬ Untouched (secret :: secrets) k := fun h => hm (h secret List.mem_cons_self)
        simp [hm, hun]

theorem redactValue_str (secrets : List String) (s : String) :
    redactValue secrets (.str s) = .str (maskAll secrets s) := by
  induction secrets generalizing s with
  | nil => rfl
  | cons secret secrets ih =>
      show redactValue secrets (redactSecret secret (.str s)) = _
      rw [redactSecret, ih]
      rfl

/-- Values without a text of their own pass. -/
theorem redactValue_of_fixed {secrets : List String} {v : Value}
    (h : ∀ secret, redactSecret secret v = v) : redactValue secrets v = v := by
  induction secrets with
  | nil => rfl
  | cons secret secrets ih =>
      show redactValue secrets (redactSecret secret v) = v
      rw [h, ih]

theorem redactValue_null (secrets : List String) : redactValue secrets .null = .null :=
  redactValue_of_fixed fun _ => by rw [redactSecret]

end GgAgent.Sandbox
