import Mathlib.Data.List.Basic
import Mathlib.Algebra.Order.Ring.Nat

/-!
JSON texts: compact printing, the number of bytes of a printed text, and reading.

Numbers are integers. A text is printed with the short escapes where JSON has them and with
`\u00..` for the other control characters; everything else is printed as it is. Reading is
by fuel, of which the length of the text is always enough: what was printed is read back.
-/

namespace GgAgent.Lib

inductive Json
  | null
  | bool (b : Bool)
  | num (n : Int)
  | str (s : String)
  | arr (items : List Json)
  | obj (fields : List (String × Json))

namespace Json

/-! ### Bytes -/

/-- The number of bytes of a text in UTF-8. -/
def bytes (cs : List Char) : Nat := (cs.map Char.utf8Size).sum

@[simp] theorem bytes_nil : bytes [] = 0 := rfl

@[simp] theorem bytes_cons (c : Char) (cs : List Char) : bytes (c :: cs) = c.utf8Size + bytes cs := rfl

@[simp] theorem bytes_append (cs ds : List Char) : bytes (cs ++ ds) = bytes cs + bytes ds := by
  simp [bytes]

theorem utf8ByteSize_ofList (cs : List Char) : (String.ofList cs).utf8ByteSize = bytes cs := by
  induction cs with
  | nil => rfl
  | cons c cs ih =>
      have happ : String.ofList (c :: cs) = String.singleton c ++ String.ofList cs := by
        apply String.toList_inj.mp
        simp
      rw [happ, String.utf8ByteSize_append, String.utf8ByteSize_singleton, ih, bytes_cons]

theorem utf8ByteSize_eq (s : String) : s.utf8ByteSize = bytes s.toList := by
  rw [← utf8ByteSize_ofList, String.ofList_toList]

/-! ### Printing -/

def hexDigit (n : Nat) : Char :=
  ['0', '1', '2', '3', '4', '5', '6', '7', '8', '9', 'a', 'b', 'c', 'd', 'e', 'f'].getD n '0'

/-- The characters that are printed for one character of a text. -/
def escape (c : Char) : List Char :=
  if c = '"' then ['\\', '"']
  else if c = '\\' then ['\\', '\\']
  else if c = '\x08' then ['\\', 'b']
  else if c = '\x0c' then ['\\', 'f']
  else if c = '\n' then ['\\', 'n']
  else if c = '\r' then ['\\', 'r']
  else if c = '\t' then ['\\', 't']
  else if c.toNat < 32 then ['\\', 'u', '0', '0', hexDigit (c.toNat / 16), hexDigit (c.toNat % 16)]
  else [c]

/-- A text without its quotes. -/
def escaped (cs : List Char) : List Char := cs.flatMap escape

def quote (s : String) : List Char := '"' :: (escaped s.toList ++ ['"'])

def printInt : Int → List Char
  | .ofNat n => Nat.toDigits 10 n
  | .negSucc n => '-' :: Nat.toDigits 10 (n + 1)

mutual

def print : Json → List Char
  | .null => ['n', 'u', 'l', 'l']
  | .bool true => ['t', 'r', 'u', 'e']
  | .bool false => ['f', 'a', 'l', 's', 'e']
  | .num n => printInt n
  | .str s => quote s
  | .arr [] => ['[', ']']
  | .arr (x :: xs) => '[' :: (print x ++ printItems xs)
  | .obj [] => ['{', '}']
  | .obj ((k, v) :: kvs) => '{' :: (quote k ++ ':' :: (print v ++ printFields kvs))

/-- The items after the first one. -/
def printItems : List Json → List Char
  | [] => [']']
  | x :: xs => ',' :: (print x ++ printItems xs)

/-- The fields after the first one. -/
def printFields : List (String × Json) → List Char
  | [] => ['}']
  | (k, v) :: kvs => ',' :: (quote k ++ ':' :: (print v ++ printFields kvs))

end

/-- The bytes of a field: its name, the colon and its value. -/
def fieldBytes (kv : String × Json) : Nat := bytes (quote kv.1) + 1 + bytes (print kv.2)

theorem bytes_printFields (kvs : List (String × Json)) :
    bytes (printFields kvs) = 1 + (kvs.map fun kv => 1 + fieldBytes kv).sum := by
  induction kvs with
  | nil =>
      rw [printFields]
      rfl
  | cons kv kvs ih =>
      obtain ⟨k, v⟩ := kv
      have hcomma : Char.utf8Size ',' = 1 := rfl
      have hcolon : Char.utf8Size ':' = 1 := rfl
      have hfield : fieldBytes (k, v) = bytes (quote k) + 1 + bytes (print v) := rfl
      rw [printFields, bytes_cons, bytes_append, bytes_cons, bytes_append, ih, List.map_cons,
        List.sum_cons, hfield, hcomma, hcolon]
      omega

/-- An object that is not empty has its braces, a comma between two fields, and the fields. -/
theorem bytes_print_obj {kvs : List (String × Json)} (h : kvs ≠ []) :
    bytes (print (.obj kvs)) + 1 = 2 + (kvs.map fun kv => 1 + fieldBytes kv).sum := by
  cases kvs with
  | nil => exact absurd rfl h
  | cons kv kvs =>
      obtain ⟨k, v⟩ := kv
      have hbrace : Char.utf8Size '{' = 1 := rfl
      have hcolon : Char.utf8Size ':' = 1 := rfl
      have hfield : fieldBytes (k, v) = bytes (quote k) + 1 + bytes (print v) := rfl
      rw [print, bytes_cons, bytes_append, bytes_cons, bytes_append, bytes_printFields,
        List.map_cons, List.sum_cons, hfield, hbrace, hcolon]
      omega

/-! ### Reading -/

def hexValue? (c : Char) : Option Nat :=
  ['0', '1', '2', '3', '4', '5', '6', '7', '8', '9', 'a', 'b', 'c', 'd', 'e', 'f'].idxOf? c

/-- The character of a short escape. -/
def unescape? : Char → Option Char
  | '"' => some '"'
  | '\\' => some '\\'
  | 'b' => some '\x08'
  | 'f' => some '\x0c'
  | 'n' => some '\n'
  | 'r' => some '\r'
  | 't' => some '\t'
  | _ => none

/-- A text up to its closing quote, and what follows. -/
def readText : List Char → Option (List Char × List Char)
  | [] => none
  | '"' :: rest => some ([], rest)
  | '\\' :: 'u' :: '0' :: '0' :: a :: b :: rest =>
    match hexValue? a, hexValue? b with
    | some m, some n => (readText rest).map fun r => (Char.ofNat (16 * m + n) :: r.1, r.2)
    | _, _ => none
  | '\\' :: c :: rest =>
    match unescape? c with
    | some c => (readText rest).map fun r => (c :: r.1, r.2)
    | none => none
  | c :: rest => (readText rest).map fun r => (c :: r.1, r.2)

theorem hexValue?_hexDigit : ∀ n < 16, hexValue? (hexDigit n) = some n := by decide

theorem readText_plain {c : Char} (hquote : c ≠ '"') (hslash : c ≠ '\\') (rest : List Char) :
    readText (c :: rest) = (readText rest).map fun r => (c :: r.1, r.2) := by
  rw [readText.eq_def]
  split <;> simp_all

/-- A printed character is read back. -/
theorem readText_escape (c : Char) (rest : List Char) :
    readText (escape c ++ rest) = (readText rest).map fun r => (c :: r.1, r.2) := by
  unfold escape
  split
  next h => subst h; rfl
  split
  next h => subst h; rfl
  split
  next h => subst h; rfl
  split
  next h => subst h; rfl
  split
  next h => subst h; rfl
  split
  next h => subst h; rfl
  split
  next h => subst h; rfl
  split
  next hcontrol =>
    have hhi := hexValue?_hexDigit (c.toNat / 16) (by omega)
    have hlo := hexValue?_hexDigit (c.toNat % 16) (by omega)
    have hback : Char.ofNat (16 * (c.toNat / 16) + c.toNat % 16) = c := by
      rw [Nat.div_add_mod, Char.ofNat_toNat]
    simp only [List.cons_append, List.nil_append, readText, hhi, hlo, hback]
  next hquote hslash _ _ _ _ _ _ => exact readText_plain hquote hslash rest

theorem readText_escaped (cs rest : List Char) :
    readText (escaped cs ++ '"' :: rest) = some (cs, rest) := by
  induction cs with
  | nil => rfl
  | cons c cs ih =>
      rw [escaped, List.flatMap_cons, List.append_assoc, readText_escape]
      rw [show cs.flatMap escape = escaped cs from rfl, ih]
      rfl

def readDigits (cs : List Char) : Option (Nat × List Char) :=
  match cs.takeWhile Char.isDigit with
  | [] => none
  | d :: ds => some (Nat.ofDigitChars 10 (d :: ds) 0, cs.dropWhile Char.isDigit)

mutual

/-- A value at the beginning of a text, and what follows. -/
def readValue : Nat → List Char → Option (Json × List Char)
  | 0, _ => none
  | n + 1, cs =>
    match cs with
    | 'n' :: 'u' :: 'l' :: 'l' :: rest => some (.null, rest)
    | 't' :: 'r' :: 'u' :: 'e' :: rest => some (.bool true, rest)
    | 'f' :: 'a' :: 'l' :: 's' :: 'e' :: rest => some (.bool false, rest)
    | '"' :: rest => (readText rest).map fun r => (.str (String.ofList r.1), r.2)
    | '[' :: ']' :: rest => some (.arr [], rest)
    | '[' :: rest =>
      (readValue n rest).bind fun x => (readItems n x.2).map fun xs => (.arr (x.1 :: xs.1), xs.2)
    | '{' :: '}' :: rest => some (.obj [], rest)
    | '{' :: '"' :: rest => (readField n rest).map fun kvs => (.obj kvs.1, kvs.2)
    | '-' :: rest => (readDigits rest).map fun r => (.num (-(r.1 : Int)), r.2)
    | rest => (readDigits rest).map fun r => (.num r.1, r.2)

def readItems : Nat → List Char → Option (List Json × List Char)
  | 0, _ => none
  | n + 1, cs =>
    match cs with
    | ']' :: rest => some ([], rest)
    | ',' :: rest => (readValue n rest).bind fun x => (readItems n x.2).map fun xs => (x.1 :: xs.1, xs.2)
    | _ => none

/-- A field whose name has begun, and the fields after it. -/
def readField : Nat → List Char → Option (List (String × Json) × List Char)
  | 0, _ => none
  | n + 1, cs =>
    match readText cs with
    | some (k, ':' :: rest) =>
      (readValue n rest).bind fun v =>
        (readFields n v.2).map fun kvs => ((String.ofList k, v.1) :: kvs.1, kvs.2)
    | _ => none

def readFields : Nat → List Char → Option (List (String × Json) × List Char)
  | 0, _ => none
  | n + 1, cs =>
    match cs with
    | '}' :: rest => some ([], rest)
    | ',' :: '"' :: rest => readField n rest
    | _ => none

end

/-- No number goes on here. -/
def Ends (rest : List Char) : Prop := ∀ c ∈ rest.head?, c.isDigit = false

theorem readDigits_toDigits (n : Nat) {rest : List Char} (h : Ends rest) :
    readDigits (Nat.toDigits 10 n ++ rest) = some (n, rest) := by
  have hdigits : ∀ c ∈ Nat.toDigits 10 n, c.isDigit = true :=
    fun c hc => Nat.isDigit_of_mem_toDigits (by omega) (by omega) hc
  have hrest : rest.takeWhile Char.isDigit = [] ∧ rest.dropWhile Char.isDigit = rest := by
    cases rest with
    | nil => exact ⟨rfl, rfl⟩
    | cons c rest =>
        have hc := h c rfl
        simp [hc]
  have htake : (Nat.toDigits 10 n ++ rest).takeWhile Char.isDigit = Nat.toDigits 10 n := by
    rw [List.takeWhile_append_of_pos hdigits, hrest.1, List.append_nil]
  have hdrop : (Nat.toDigits 10 n ++ rest).dropWhile Char.isDigit = rest := by
    rw [List.dropWhile_append_of_pos hdigits, hrest.2]
  unfold readDigits
  rw [htake, hdrop]
  cases hcs : Nat.toDigits 10 n with
  | nil => exact absurd hcs Nat.toDigits_ne_nil
  | cons d ds =>
      have hback := Nat.ofDigitChars_toDigits (b := 10) (n := n) (by omega) (by omega)
      rw [hcs] at hback
      simp only [hback]

/-- What is printed for a number does not begin like another value. -/
theorem toDigits_append_ne {n : Nat} {c : Char} {rest cs : List Char} (hc : c.isDigit = false) :
    Nat.toDigits 10 n ++ rest ≠ c :: cs := by
  intro heq
  cases hds : Nat.toDigits 10 n with
  | nil => exact absurd hds Nat.toDigits_ne_nil
  | cons d ds =>
      rw [hds, List.cons_append] at heq
      have hd : d.isDigit = true :=
        Nat.isDigit_of_mem_toDigits (b := 10) (n := n) (by omega) (by omega) (by rw [hds]; simp)
      rw [(List.cons.inj heq).1, hc] at hd
      cases hd

theorem readValue_printInt (n : Int) (fuel : Nat) {rest : List Char} (h : Ends rest) :
    readValue (fuel + 1) (printInt n ++ rest) = some (.num n, rest) := by
  cases n with
  | ofNat n =>
      rw [printInt, readValue, readDigits_toDigits n h]
      · rfl
      all_goals exact fun cs heq => absurd heq (toDigits_append_ne (by decide))
  | negSucc n =>
      rw [printInt, List.cons_append, readValue, readDigits_toDigits (n + 1) h]
      rfl

theorem length_print_pos (j : Json) : 0 < (print j).length := by
  cases j with
  | null => simp [print]
  | bool b => cases b <;> simp [print]
  | num n =>
      cases n with
      | ofNat n =>
          rw [print, printInt]
          exact List.length_pos_iff.mpr Nat.toDigits_ne_nil
      | negSucc n => simp [print, printInt]
  | str s => simp [print, quote]
  | arr xs => cases xs <;> simp [print]
  | obj kvs => cases kvs <;> simp [print]

theorem ends_printItems (xs : List Json) (rest : List Char) : Ends (printItems xs ++ rest) := by
  intro c hc
  cases xs with
  | nil =>
      obtain rfl : ']' = c := by simpa [printItems] using hc
      decide
  | cons x xs =>
      obtain rfl : ',' = c := by simpa [printItems] using hc
      decide

theorem ends_printFields (kvs : List (String × Json)) (rest : List Char) :
    Ends (printFields kvs ++ rest) := by
  intro c hc
  cases kvs with
  | nil =>
      obtain rfl : '}' = c := by simpa [printFields] using hc
      decide
  | cons kv kvs =>
      obtain rfl : ',' = c := by simpa [printFields] using hc
      decide

/-- A value does not begin like the end of an array. -/
theorem print_append_ne (j : Json) (rest cs : List Char) : print j ++ rest ≠ ']' :: cs := by
  intro heq
  cases j with
  | null => simp [print] at heq
  | bool b => cases b <;> simp [print] at heq
  | num n =>
      cases n with
      | ofNat n =>
          rw [print, printInt] at heq
          exact toDigits_append_ne (by decide) heq
      | negSucc n => simp [print, printInt] at heq
  | str s => simp [print, quote] at heq
  | arr xs => cases xs <;> simp [print] at heq
  | obj kvs => cases kvs <;> simp [print] at heq

/-- A field is read if its value and the fields after it are. -/
theorem readField_print {n : Nat} {k : String} {v : Json} {kvs : List (String × Json)}
    {rest : List Char}
    (hv : readValue n (print v ++ (printFields kvs ++ rest)) = some (v, printFields kvs ++ rest))
    (hkvs : readFields n (printFields kvs ++ rest) = some (kvs, rest)) :
    readField (n + 1) (escaped k.toList ++ '"' :: ':' :: (print v ++ (printFields kvs ++ rest))) =
      some ((k, v) :: kvs, rest) := by
  rw [readField, readText_escaped]
  simp only [hv, Option.bind_some, hkvs, Option.map_some, String.ofList_toList]

theorem quote_append (k : String) (rest : List Char) :
    quote k ++ rest = '"' :: (escaped k.toList ++ '"' :: rest) := by
  rw [quote, List.cons_append, List.append_assoc, List.singleton_append]

theorem length_quote (k : String) : 2 ≤ (quote k).length := by
  rw [quote, List.length_cons, List.length_append, List.length_singleton]
  omega

mutual

theorem readValue_print : ∀ (j : Json) (n : Nat) (rest : List Char), (print j).length ≤ n → Ends rest →
    readValue n (print j ++ rest) = some (j, rest)
  | j, 0, rest, hn, _ => by
      have := length_print_pos j
      omega
  | .null, n + 1, rest, _, _ => by simp [print, readValue]
  | .bool true, n + 1, rest, _, _ => by simp [print, readValue]
  | .bool false, n + 1, rest, _, _ => by simp [print, readValue]
  | .num i, n + 1, rest, _, he => by
      rw [print]
      exact readValue_printInt i n he
  | .str s, n + 1, rest, _, _ => by
      rw [print, quote, List.cons_append, List.append_assoc, List.singleton_append, readValue,
        readText_escaped]
      simp
  | .arr [], n + 1, rest, _, _ => by simp [print, readValue]
  | .arr (x :: xs), n + 1, rest, hn, _ => by
      rw [print, List.length_cons, List.length_append] at hn
      have hx := readValue_print x n (printItems xs ++ rest) (by omega) (ends_printItems xs rest)
      have hxs := readItems_print xs n rest (by omega)
      rw [print, List.cons_append, List.append_assoc, readValue, hx, Option.bind_some, hxs]
      · rfl
      · exact fun cs heq => print_append_ne x _ cs heq
  | .obj [], n + 1, rest, _, _ => by simp [print, readValue]
  | .obj ((k, v) :: kvs), n + 1, rest, hn, _ => by
      have hquote := length_quote k
      rw [print, List.length_cons, List.length_append, List.length_cons, List.length_append] at hn
      obtain ⟨m, rfl⟩ : ∃ m, n = m + 1 := ⟨n - 1, by omega⟩
      have hv := readValue_print v m (printFields kvs ++ rest) (by omega) (ends_printFields kvs rest)
      have hkvs := readFields_print kvs m rest (by omega)
      rw [print, List.cons_append, List.append_assoc, List.cons_append, List.append_assoc,
        quote_append, readValue, readField_print hv hkvs]
      rfl

theorem readItems_print : ∀ (xs : List Json) (n : Nat) (rest : List Char),
    (printItems xs).length ≤ n → readItems n (printItems xs ++ rest) = some (xs, rest)
  | [], 0, rest, hn => by simp [printItems] at hn
  | x :: xs, 0, rest, hn => by simp [printItems] at hn
  | [], n + 1, rest, _ => by simp [printItems, readItems]
  | x :: xs, n + 1, rest, hn => by
      rw [printItems, List.length_cons, List.length_append] at hn
      have hx := readValue_print x n (printItems xs ++ rest) (by omega) (ends_printItems xs rest)
      have hxs := readItems_print xs n rest (by omega)
      rw [printItems, List.cons_append, List.append_assoc, readItems, hx, Option.bind_some, hxs]
      rfl

theorem readFields_print : ∀ (kvs : List (String × Json)) (n : Nat) (rest : List Char),
    (printFields kvs).length ≤ n → readFields n (printFields kvs ++ rest) = some (kvs, rest)
  | [], 0, rest, hn => by simp [printFields] at hn
  | (k, v) :: kvs, 0, rest, hn => by simp [printFields] at hn
  | [], n + 1, rest, _ => by simp [printFields, readFields]
  | (k, v) :: kvs, n + 1, rest, hn => by
      have hquote := length_quote k
      rw [printFields, List.length_cons, List.length_append, List.length_cons, List.length_append] at hn
      obtain ⟨m, rfl⟩ : ∃ m, n = m + 1 := ⟨n - 1, by omega⟩
      have hv := readValue_print v m (printFields kvs ++ rest) (by omega) (ends_printFields kvs rest)
      have hkvs := readFields_print kvs m rest (by omega)
      rw [printFields, List.cons_append, List.append_assoc, List.cons_append, List.append_assoc,
        quote_append, readFields, readField_print hv hkvs]

end

/-- A text that is one value. -/
def read (s : String) : Option Json :=
  match readValue (s.toList.length + 1) s.toList with
  | some (j, []) => some j
  | _ => none

/-- What was printed is read back. -/
theorem read_print (j : Json) : read (String.ofList (print j)) = some j := by
  have h := readValue_print j ((print j).length + 1) [] (by omega) (fun c hc => by cases hc)
  rw [List.append_nil] at h
  rw [read, String.toList_ofList, h]

end Json

end GgAgent.Lib
