import GgAgent.Sandbox.PiSecrets

/-!
What `redact_secret` does to a whole value.

Every string of the result is a masked string of the value, and a masked string does not
contain the secret. The dictionary comprehension keeps one entry for each masked key, the last
one; as long as no two keys of a dictionary are masked to the same text, nothing is lost and
the strings are those of the value, masked each for itself.

A value without the secret is kept. The redacted value is one, and its dictionaries have
distinct keys like every dictionary, so that the second redaction finds nothing to do.
-/

namespace GgAgent.Sandbox

open GgAgent.Sandbox.Pi (Dict loaded loadedItems loadedEntries strings stringsItems stringsEntries
  mem_stringsEntries_setItem masked_strings)
open Value (setItem)

/-! ### Keys that stay apart -/

mutual

/-- No two keys of a dictionary in the value have the same image. -/
def Apart (f : String → String) : Value → Prop
  | .dict items => (items.map fun kv => f kv.1).Nodup ∧ ApartEntries f items
  | .list items => ApartItems f items
  | .tuple items => ApartItems f items
  | .null => True
  | .bool _ => True
  | .int _ => True
  | .float _ => True
  | .datetime _ => True
  | .str _ => True

def ApartItems (f : String → String) : List Value → Prop
  | [] => True
  | v :: items => Apart f v ∧ ApartItems f items

def ApartEntries (f : String → String) : List (String × Value) → Prop
  | [] => True
  | (_, v) :: items => Apart f v ∧ ApartEntries f items

end

/-- The entries of a dictionary, redacted each for itself. -/
def maskEntries (secret : String) (items : Dict) : Dict :=
  items.map fun kv => (mask secret kv.1, redactSecret secret kv.2)

theorem setItem_fresh {k : String} {v : Value} {items : Dict} (h : k ∉ items.map Prod.fst) :
    setItem k v items = items ++ [(k, v)] := by
  induction items with
  | nil => rfl
  | cons kv items ih =>
      obtain ⟨j, u⟩ := kv
      rw [List.map_cons, List.mem_cons, not_or] at h
      rw [setItem, if_neg (fun hjk => h.1 hjk.symm), ih h.2, List.cons_append]

/-- While the masked keys are distinct, the comprehension makes one entry out of each. -/
theorem redactEntries_apart {secret : String} {items made : Dict}
    (h : (made.map Prod.fst ++ items.map fun kv => mask secret kv.1).Nodup) :
    redactEntries secret items made = made ++ maskEntries secret items := by
  induction items generalizing made with
  | nil => rw [redactEntries, maskEntries, List.map_nil, List.append_nil]
  | cons kv items ih =>
      obtain ⟨k, v⟩ := kv
      rw [List.map_cons] at h
      have hfresh : mask secret k ∉ made.map Prod.fst := fun hk =>
        (List.nodup_append.mp h).2.2 _ hk _ List.mem_cons_self rfl
      rw [redactEntries, setItem_fresh hfresh, ih]
      · rw [maskEntries, maskEntries, List.map_cons, List.append_assoc, List.singleton_append]
      · rw [List.map_append, List.map_singleton, List.append_assoc, List.singleton_append]
        exact h

/-! ### The strings of a redacted value -/

theorem stringsEntries_append (items items' : Dict) :
    stringsEntries (items ++ items') = stringsEntries items ++ stringsEntries items' := by
  induction items with
  | nil => rfl
  | cons kv items ih =>
      obtain ⟨k, v⟩ := kv
      rw [List.cons_append, stringsEntries, stringsEntries, ih, List.cons_append, List.append_assoc]

mutual

/-- Where no keys fall together, every string is masked in its place. -/
theorem strings_redactSecret (secret : String) :
    ∀ v : Value, loaded v = true → Apart (mask secret) v →
      strings (redactSecret secret v) = (strings v).map (mask secret)
  | .str s, _, _ => by rw [redactSecret, strings, strings, List.map_singleton]
  | .list items, h, hapart => strings_redactItems secret items h hapart
  | .dict items, h, hapart => by
      rw [redactSecret, redactEntries_apart (by simpa using hapart.1), List.nil_append]
      exact strings_maskEntries secret items h hapart.2
  | .null, _, _ => rfl
  | .bool _, _, _ => rfl
  | .int _, _, _ => rfl
  | .float _, _, _ => rfl
  | .datetime _, h, _ => by cases h
  | .tuple _, h, _ => by cases h

theorem strings_redactItems (secret : String) :
    ∀ items : List Value, loadedItems items = true → ApartItems (mask secret) items →
      stringsItems (redactItems secret items) = (stringsItems items).map (mask secret)
  | [], _, _ => rfl
  | v :: items, h, hapart => by
      rw [loadedItems, Bool.and_eq_true] at h
      rw [redactItems, stringsItems, stringsItems, List.map_append,
        strings_redactSecret secret v h.1 hapart.1, strings_redactItems secret items h.2 hapart.2]

theorem strings_maskEntries (secret : String) :
    ∀ items : Dict, loadedEntries items = true → ApartEntries (mask secret) items →
      stringsEntries (maskEntries secret items) = (stringsEntries items).map (mask secret)
  | [], _, _ => rfl
  | (k, v) :: items, h, hapart => by
      rw [loadedEntries, Bool.and_eq_true] at h
      have hrest := strings_maskEntries secret items h.2 hapart.2
      rw [maskEntries] at hrest
      rw [maskEntries, List.map_cons, stringsEntries, stringsEntries, List.map_cons,
        List.map_append, strings_redactSecret secret v h.1 hapart.1, hrest]

end

/-! ### Values without the secret -/

mutual

theorem redactSecret_of_free (secret : String) :
    ∀ v : Value, Apart id v → (∀ s ∈ strings v, ¬ Occurs secret s) → redactSecret secret v = v
  | .str s, _, hfree => by
      rw [redactSecret, mask_of_not_occurs (hfree s (List.mem_singleton_self s))]
  | .list items, hapart, hfree => by
      rw [redactSecret, redactItems_of_free secret items hapart hfree]
  | .dict items, hapart, hfree => by
      have hsame : maskEntries secret items = items :=
        maskEntries_of_free secret items hapart.2 hfree
      have hkeys : (items.map fun kv => mask secret kv.1) = items.map Prod.fst := by
        have := congrArg (List.map Prod.fst) hsame
        rwa [maskEntries, List.map_map] at this
      rw [redactSecret, redactEntries_apart (by simpa [hkeys] using hapart.1), List.nil_append,
        hsame]
  | .null, _, _ => rfl
  | .bool _, _, _ => rfl
  | .int _, _, _ => rfl
  | .float _, _, _ => rfl
  | .datetime _, _, _ => rfl
  | .tuple _, _, _ => rfl

theorem redactItems_of_free (secret : String) :
    ∀ items : List Value, ApartItems id items →
      (∀ s ∈ stringsItems items, ¬ Occurs secret s) → redactItems secret items = items
  | [], _, _ => rfl
  | v :: items, hapart, hfree => by
      rw [redactItems,
        redactSecret_of_free secret v hapart.1 fun s hs => hfree s (List.mem_append_left _ hs),
        redactItems_of_free secret items hapart.2 fun s hs => hfree s (List.mem_append_right _ hs)]

theorem maskEntries_of_free (secret : String) :
    ∀ items : Dict, ApartEntries id items →
      (∀ s ∈ stringsEntries items, ¬ Occurs secret s) → maskEntries secret items = items
  | [], _, _ => rfl
  | (k, v) :: items, hapart, hfree => by
      have hkey : mask secret k = k := mask_of_not_occurs (hfree k List.mem_cons_self)
      have hvalue := redactSecret_of_free secret v hapart.1 fun s hs =>
        hfree s (List.mem_cons_of_mem _ (List.mem_append_left _ hs))
      have hrest := maskEntries_of_free secret items hapart.2 fun s hs =>
        hfree s (List.mem_cons_of_mem _ (List.mem_append_right _ hs))
      rw [maskEntries] at hrest
      rw [maskEntries, List.map_cons, hkey, hvalue, hrest]

end

/-! ### Redacted dictionaries -/

theorem apartEntries_setItem {f : String → String} {k : String} {v : Value} {items : Dict}
    (hv : Apart f v) (h : ApartEntries f items) : ApartEntries f (setItem k v items) := by
  induction items with
  | nil => exact ⟨hv, trivial⟩
  | cons kv items ih =>
      obtain ⟨j, u⟩ := kv
      rw [setItem]
      split
      · exact ⟨hv, h.2⟩
      · exact ⟨h.1, ih h.2⟩

mutual

/-- The dictionaries of a redacted value have distinct keys. -/
theorem apart_redactSecret (secret : String) :
    ∀ v : Value, loaded v = true → Apart id (redactSecret secret v)
  | .str _, _ => trivial
  | .list items, h => apart_redactItems secret items h
  | .dict items, h => by
      constructor
      · exact nodup_redactEntries secret items [] List.nodup_nil
      · exact apart_redactEntries secret items [] h trivial
  | .null, _ => trivial
  | .bool _, _ => trivial
  | .int _, _ => trivial
  | .float _, _ => trivial
  | .datetime _, h => by cases h
  | .tuple _, h => by cases h

theorem apart_redactItems (secret : String) :
    ∀ items : List Value, loadedItems items = true → ApartItems id (redactItems secret items)
  | [], _ => trivial
  | v :: items, h => by
      rw [loadedItems, Bool.and_eq_true] at h
      exact ⟨apart_redactSecret secret v h.1, apart_redactItems secret items h.2⟩

theorem apart_redactEntries (secret : String) :
    ∀ items made : Dict, loadedEntries items = true → ApartEntries id made →
      ApartEntries id (redactEntries secret items made)
  | [], _, _, hmade => hmade
  | (_, v) :: items, made, h, hmade => by
      rw [loadedEntries, Bool.and_eq_true] at h
      rw [redactEntries]
      exact apart_redactEntries secret items _ h.2
        (apartEntries_setItem (apart_redactSecret secret v h.1) hmade)

end

/-- Redaction is complete. No string of the result contains the secret. A string without it is
kept, and so is a value whose strings are all without it; where no keys of a dictionary fall
together, every other string is masked in its place, and in any case no string comes from
anywhere else. The second redaction changes nothing. -/
theorem redactSecret_complete {secret : String} (hsecret : Unbracketed secret.toList) {v : Value}
    (hv : loaded v = true) :
    (∀ s ∈ strings (redactSecret secret v), ¬ Occurs secret s) ∧
    (∀ s, ¬ Occurs secret s → redactSecret secret (.str s) = .str s) ∧
    (∀ s ∈ strings (redactSecret secret v), ∃ t ∈ strings v, s = mask secret t) ∧
    (Apart (mask secret) v →
      strings (redactSecret secret v) = (strings v).map (mask secret)) ∧
    (Apart id v → (∀ s ∈ strings v, ¬ Occurs secret s) → redactSecret secret v = v) ∧
    redactSecret secret (redactSecret secret v) = redactSecret secret v := by
  have hfree : ∀ s ∈ strings (redactSecret secret v), ¬ Occurs secret s := by
    intro s hs
    obtain ⟨t, -, rfl⟩ := masked_strings secret v hv s hs
    exact not_occurs_mask_self hsecret t
  refine ⟨hfree, fun s hs => ?_, masked_strings secret v hv, strings_redactSecret secret v hv,
    redactSecret_of_free secret v, ?_⟩
  · rw [redactSecret, mask_of_not_occurs hs]
  · exact redactSecret_of_free secret _ (apart_redactSecret secret v hv) hfree

/-- A dictionary with the key in a name, in a list and in a nested dictionary. -/
def nested : Value :=
  .dict [("env sk-1", .list [.str "sk-1sk-1", .int 3]), ("model", .dict [("sk-1", .null)])]

theorem redactSecret_complete_nested :
    strings (redactSecret "sk-1" nested) =
      ["env [REDACTED]", "[REDACTED][REDACTED]", "model", "[REDACTED]"] ∧
    redactSecret "sk-1" (redactSecret "sk-1" nested) = redactSecret "sk-1" nested := by
  have hsecret : Unbracketed "sk-1".toList := ⟨by decide, by decide, by decide⟩
  obtain ⟨-, -, -, -, -, htwice⟩ := redactSecret_complete hsecret (v := nested) rfl
  exact ⟨by decide +kernel, htwice⟩

end GgAgent.Sandbox
