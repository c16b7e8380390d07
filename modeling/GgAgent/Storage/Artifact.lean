import GgAgent.Events.Mirror
import GgAgent.Lib.Json
import GgAgent.Sandbox.Execution

/-!
How large an archived result is.

`truncate_manifest` shortens the patch, and nothing else, to a number of bytes that is
counted before the patch is printed as JSON and that has a floor of its own. Printing a
manifest puts its fields next to each other, so that the size of what is archived is the
size of the other fields and of the escaped patch.
-/

namespace GgAgent.Storage

open GgAgent.Lib
open GgAgent.Lib.Json (bytes bytes_append quote escaped escape fieldBytes)
open GgAgent.Backend (Time)
open GgAgent.Events (takeBytes truncateText truncationSuffix)
open GgAgent.Sandbox (Value TaskResultManifest CommandCapture)

section

-- The text of a `datetime` in JSON.
variable (iso : Time → String)

mutual

def toJson : Value → Json
  | .null => .null
  | .bool b => .bool b
  | .int n => .num n
  -- No manifest has a float.
  | .float text => .str text
  | .datetime t => .str (iso t)
  | .str s => .str s
  | .list items => .arr (toItems items)
  | .tuple items => .arr (toItems items)
  | .dict items => .obj (toFields items)

def toItems : List Value → List Json
  | [] => []
  | v :: items => toJson v :: toItems items

def toFields : List (String × Value) → List (String × Json)
  | [] => []
  | (k, v) :: items => (k, toJson v) :: toFields items

end

/-- `manifest.model_dump_json()`. -/
def modelDumpJson (m : TaskResultManifest) : String :=
  String.ofList (Json.print (.obj (toFields iso m.dump)))

end

/-- `truncate_manifest`: the manifest with a shortened patch, and whether it was shortened. -/
def truncateManifest (m : TaskResultManifest) (maxBytes : Nat) : TaskResultManifest × Bool :=
  match m.patch with
  | some patch =>
    let short := truncateText patch (max 4096 (maxBytes / 2))
    ({ m with patch := some short.1, patchTruncated := short.2 }, short.2)
  | none => (m, false)

/-! ### The size of a manifest -/

section Size

variable (iso : Time → String)

/-- The fields that `truncate_manifest` does not write: those before and those after
`patch` and `patch_truncated`. -/
def otherFields (m : TaskResultManifest) : List (String × Json) :=
  toFields iso (m.dump.take 8) ++ toFields iso (m.dump.drop 10)

/-- The bytes of a printed manifest without the values of these two fields. -/
def otherBytes (m : TaskResultManifest) : Nat :=
  29 + ((otherFields iso m).map fun kv => 1 + fieldBytes kv).sum

def patchBytes : Option String → Nat
  | none => 4
  | some patch => 2 + bytes (escaped patch.toList)

def flagBytes : Bool → Nat
  | true => 4
  | false => 5

variable {iso}

theorem bytes_quote (s : String) : bytes (quote s) = 2 + bytes (escaped s.toList) := by
  have hquote : Char.utf8Size '"' = 1 := rfl
  rw [quote, Json.bytes_cons, bytes_append, Json.bytes_cons, Json.bytes_nil, hquote]
  omega

theorem toFields_append (kvs kvs' : List (String × Value)) :
    toFields iso (kvs ++ kvs') = toFields iso kvs ++ toFields iso kvs' := by
  induction kvs with
  | nil => rfl
  | cons kv kvs ih =>
      obtain ⟨k, v⟩ := kv
      rw [List.cons_append, toFields, toFields, ih, List.cons_append]

theorem dump_eq (m : TaskResultManifest) :
    m.dump = m.dump.take 8 ++ (("patch", .ofStr? m.patch) ::
      ("patch_truncated", .bool m.patchTruncated) :: m.dump.drop 10) := rfl

theorem utf8ByteSize_modelDumpJson (m : TaskResultManifest) :
    (modelDumpJson iso m).utf8ByteSize =
      otherBytes iso m + patchBytes m.patch + flagBytes m.patchTruncated := by
  have hne : toFields iso m.dump ≠ [] := fun h => by cases h
  have hobj := Json.bytes_print_obj hne
  have hpatch : fieldBytes ("patch", toJson iso (.ofStr? m.patch)) = 8 + patchBytes m.patch := by
    have hname : bytes (quote "patch") = 7 := by decide
    cases m.patch with
    | none =>
        rw [fieldBytes, hname, Value.ofStr?, toJson]
        rfl
    | some p =>
        rw [fieldBytes, hname, Value.ofStr?, toJson, Json.print, bytes_quote, patchBytes]
  have hflag : fieldBytes ("patch_truncated", toJson iso (.bool m.patchTruncated)) =
      18 + flagBytes m.patchTruncated := by
    have hname : bytes (quote "patch_truncated") = 17 := by decide
    rw [fieldBytes, hname, toJson]
    cases m.patchTruncated <;> rfl
  have hsum : ((toFields iso m.dump).map fun kv => 1 + fieldBytes kv).sum =
      ((otherFields iso m).map fun kv => 1 + fieldBytes kv).sum +
        (1 + fieldBytes ("patch", toJson iso (.ofStr? m.patch))) +
        (1 + fieldBytes ("patch_truncated", toJson iso (.bool m.patchTruncated))) := by
    rw [dump_eq m, toFields_append, toFields, toFields]
    simp only [otherFields, List.map_append, List.map_cons, List.sum_append, List.sum_cons]
    omega
  rw [modelDumpJson, Json.utf8ByteSize_ofList, otherBytes]
  rw [hpatch, hflag] at hsum
  omega

/-! ### The cap -/

variable (iso) in
/-- When an archived manifest stays within the cap: the other fields leave room for what is
kept of the patch, counted with its escapes. A patch of at most `max(4096, max_bytes // 2)`
bytes is kept as it is, a longer one up to 64 bytes less than that. -/
def Fits (m : TaskResultManifest) (maxBytes : Nat) : Prop :=
  match m.patch with
  | none => otherBytes iso m + 4 + flagBytes m.patchTruncated ≤ maxBytes
  | some patch =>
    let limit := max 4096 (maxBytes / 2)
    if patch.utf8ByteSize ≤ limit then
      otherBytes iso m + (2 + bytes (escaped patch.toList)) + 5 ≤ maxBytes
    else
      otherBytes iso m + (2 + bytes (escaped (takeBytes (limit - 64) patch.toList)) + 31) + 4 ≤
        maxBytes

theorem otherBytes_patch (m : TaskResultManifest) (patch : Option String) (flag : Bool) :
    otherBytes iso { m with patch := patch, patchTruncated := flag } = otherBytes iso m := rfl

theorem bytes_escaped_suffix : bytes (escaped truncationSuffix.toList) = 31 := by decide

/-- What is archived stays within the cap exactly if it fits. -/
theorem archived_within_iff (m : TaskResultManifest) (maxBytes : Nat) :
    (modelDumpJson iso (truncateManifest m maxBytes).1).utf8ByteSize ≤ maxBytes ↔
      Fits iso m maxBytes := by
  rw [utf8ByteSize_modelDumpJson, truncateManifest, Fits]
  cases hpatch : m.patch with
  | none => simp only [hpatch, patchBytes]
  | some patch =>
      simp only [otherBytes_patch, truncateText]
      by_cases hshort : patch.utf8ByteSize ≤ max 4096 (maxBytes / 2)
      · simp only [hshort, if_true, patchBytes, flagBytes]
      · have hkept : patchBytes (some (String.ofList
            (takeBytes (max 4096 (maxBytes / 2) - 64) patch.toList) ++ truncationSuffix)) =
            2 + bytes (escaped (takeBytes (max 4096 (maxBytes / 2) - 64) patch.toList)) + 31 := by
          rw [patchBytes, String.toList_append, String.toList_ofList, escaped, List.flatMap_append,
            bytes_append, ← escaped, ← escaped, bytes_escaped_suffix]
          omega
        simp only [hshort, if_false, hkept, flagBytes]

end Size

/-! ### A patch below the floor -/

/-- A patch of as many letters. -/
def letters (n : Nat) : String := String.ofList (List.replicate n 'a')

theorem bytes_letters (n : Nat) : bytes (List.replicate n 'a') = n := by
  have hsize : Char.utf8Size 'a' = 1 := rfl
  simp [bytes, hsize]

theorem escaped_letters (n : Nat) : escaped (List.replicate n 'a') = List.replicate n 'a' := by
  induction n with
  | zero => rfl
  | succ n ih =>
      rw [List.replicate_succ, escaped, List.flatMap_cons, ← escaped, ih]
      rfl

def lettered : TaskResultManifest :=
  { taskId := "t", executionId := "73", patch := some (letters 2000) }

def midnight (_ : Time) : String := "2026-01-01T00:00:00Z"

/-- A patch of 2000 letters is not shortened under a cap of 1024 bytes. -/
theorem patch_exceeds_cap :
    ¬ ∀ (iso : Time → String) (m : TaskResultManifest) (maxBytes : Nat), 1024 ≤ maxBytes →
      (modelDumpJson iso (truncateManifest m maxBytes).1).utf8ByteSize ≤ maxBytes := by
  intro hclaim
  have hfits := hclaim midnight lettered 1024 (by decide)
  rw [archived_within_iff] at hfits
  have hsize : (letters 2000).utf8ByteSize = 2000 := by
    rw [letters, Json.utf8ByteSize_ofList, bytes_letters]
  have hescaped : bytes (escaped (letters 2000).toList) = 2000 := by
    rw [letters, String.toList_ofList, escaped_letters, bytes_letters]
  have hpatch : lettered.patch = some (letters 2000) := rfl
  rw [Fits, hpatch] at hfits
  simp only [hsize, hescaped] at hfits
  rw [if_pos (by decide)] at hfits
  omega

end GgAgent.Storage
