import GgAgent.Sandbox.Restart
import Mathlib.Data.List.Infix

/-!
Which credentials the stored evidence is free of.

`_redact_manifest` masks three secrets, one after the other, in every text of a manifest
except the names of the changed files, which are a tuple. `_finalize_failure` masks the
two GitHub tokens in the detail that goes into the execution record, and not the key of
the model provider.

A secret without brackets cannot lie across the brackets of `[REDACTED]`. So masking one
secret never puts another one together, and what masking has removed stays removed.
-/

namespace GgAgent.Sandbox

open GgAgent.Lib
open GgAgent.Lib.Co (Safe attempt)
open GgAgent.Backend (Time TaskExecutionPhase AgentOutcome CheckOutcome)
open Value (item?)

/-! ### Occurrences -/

/-- The text contains the secret. -/
def Occurs (secret text : String) : Prop := secret.toList <:+: text.toList

instance (secret text : String) : Decidable (Occurs secret text) :=
  inferInstanceAs (Decidable (secret.toList <:+: text.toList))

section Infix

variable {x y : List Char}

/-- What has no `c` lies on one side of it. -/
theorem infix_of_append_cons {c : Char} (hc : c ∉ x) {a b : List Char} (h : x <:+: a ++ c :: b) :
    x <:+: a ∨ x <:+: b := by
  obtain ⟨s, t, hst⟩ := h
  rw [List.append_assoc, List.append_eq_append_iff] at hst
  rcases hst with ⟨u, rfl, hu⟩ | ⟨u, rfl, hu⟩
  · -- The occurrence begins in `a`; it ends there or it goes over `c`.
    rw [List.append_eq_append_iff] at hu
    rcases hu with ⟨v, rfl, -⟩ | ⟨v, rfl, hv⟩
    · exact .inl ⟨s, v, by simp⟩
    · cases v with
      | nil => exact .inl ⟨s, [], by simp⟩
      | cons d v =>
          rw [List.cons_append, List.cons.injEq] at hv
          exact absurd (by simp [hv.1]) hc
  · cases u with
    | nil =>
        cases x with
        | nil => exact .inl (List.nil_infix)
        | cons d x =>
            rw [List.nil_append, List.cons_append, List.cons.injEq] at hu
            exact absurd (by simp [hu.1]) hc
    | cons d u =>
        rw [List.cons_append, List.cons.injEq] at hu
        exact .inr ⟨u, t, by rw [List.append_assoc]; exact hu.2.symm⟩

/-- The word between the brackets. -/
def redactedWord : List Char := "REDACTED".toList

/-- A text that no mask can be taken for a part of. -/
structure Unbracketed (x : List Char) : Prop where
  opening : '[' ∉ x
  closing : ']' ∉ x
  word : ¬ x <:+: redactedWord

theorem Unbracketed.ne_nil (h : Unbracketed x) : x ≠ [] := fun hnil =>
  h.word (hnil ▸ List.nil_infix)

/-- An occurrence next to a mask is on one side of it. -/
theorem Unbracketed.infix_mask (h : Unbracketed x) {a b : List Char}
    (hx : x <:+: a ++ (redacted.toList ++ b)) : x <:+: a ∨ x <:+: b := by
  have hmask : redacted.toList ++ b = '[' :: (redactedWord ++ ']' :: b) := by
    rw [show redacted.toList = '[' :: (redactedWord ++ [']']) by decide]
    simp
  rw [hmask] at hx
  rcases infix_of_append_cons h.opening hx with hx | hx
  · exact .inl hx
  · rcases infix_of_append_cons h.closing hx with hx | hx
    · exact absurd hx h.word
    · exact .inr hx

/-- Replacing does not put another secret together. `pre` is what has been passed. -/
theorem Unbracketed.infix_replaceFrom (h : Unbracketed y) (old : List Char) :
    ∀ (skip : Nat) (cs pre : List Char), y <:+: pre ++ replaceFrom old redacted.toList skip cs →
      y <:+: pre ++ cs.drop skip
  | skip, [], pre, hy => by simpa [replaceFrom] using hy
  | skip + 1, c :: cs, pre, hy => h.infix_replaceFrom old skip cs pre hy
  | 0, c :: cs, pre, hy => by
      rw [replaceFrom] at hy
      split at hy
      · rcases h.infix_mask hy with hpre | hrest
        · exact hpre.trans (List.prefix_append _ _).isInfix
        · have hdrop := h.infix_replaceFrom old (old.length - 1) cs [] hrest
          rw [List.nil_append] at hdrop
          have hcs : y <:+: c :: cs :=
            hdrop.trans ((List.drop_suffix _ _).isInfix.trans (List.suffix_cons _ _).isInfix)
          exact hcs.trans (List.suffix_append _ _).isInfix
      · have hnext := h.infix_replaceFrom old 0 cs (pre ++ [c]) (by simpa using hy)
        simpa using hnext

/-- Nothing of a secret is left where it was replaced. No occurrence begins in `pre`, which
has been passed. -/
theorem Unbracketed.not_infix_replaceFrom (h : Unbracketed x) :
    ∀ (skip : Nat) (cs pre : List Char),
      (∀ a b, pre = a ++ b → b ≠ [] → ¬ x <+: b ++ cs.drop skip) →
      ¬ x <:+: pre ++ replaceFrom x redacted.toList skip cs := by
  -- An occurrence inside `pre` begins there.
  have hinside : ∀ {pre rest : List Char}, (∀ a b, pre = a ++ b → b ≠ [] → ¬ x <+: b ++ rest) →
      ¬ x <:+: pre := by
    rintro pre rest hpre ⟨s, t, rfl⟩
    refine hpre s (x ++ t) (by simp) ?_ ⟨t ++ rest, by simp⟩
    intro hnil
    exact h.ne_nil (List.append_eq_nil_iff.mp hnil).1
  intro skip cs
  induction cs generalizing skip with
  | nil =>
      intro pre hpre
      simpa [replaceFrom] using hinside hpre
  | cons c cs ih =>
      intro pre hpre
      cases skip with
      | succ skip => exact ih skip pre hpre
      | zero =>
          rw [List.drop_zero] at hpre
          rw [replaceFrom]
          split
          next =>
            intro hx
            rcases h.infix_mask hx with hx | hx
            · exact hinside hpre hx
            · refine ih (x.length - 1) [] ?_ (by simpa using hx)
              intro a b hab hb
              exact absurd (List.append_eq_nil_iff.mp hab.symm).2 hb
          next hmatch =>
            have hnext := ih 0 (pre ++ [c]) ?_
            · simpa using hnext
            · intro a b hab hb
              -- The part after the split ends with `c`.
              obtain ⟨b, rfl⟩ : ∃ b', b = b' ++ [c] := by
                have hlast := congrArg List.getLast? hab
                rw [List.getLast?_append_of_ne_nil _ hb] at hlast
                simp only [List.getLast?_append, List.getLast?_singleton, Option.some_or] at hlast
                exact ⟨b.dropLast, (List.dropLast_append_getLast? c hlast.symm).symm⟩
              rw [← List.append_assoc, List.append_left_inj] at hab
              rw [List.drop_zero, List.append_assoc, List.singleton_append]
              by_cases hnil : b = []
              · subst hnil
                simpa using hmatch
              · exact hpre a b hab hnil

end Infix

/-! ### Masked texts -/

/-- The texts that a manifest and a record have of their own: the names of the fields, the
words of the enumerations, and the details that the code writes. -/
def fixedTexts : List String :=
  ["task_id", "execution_id", "repository", "task_branch", "base_ref", "base_sha", "head_sha",
    "changed_files", "patch", "patch_truncated", "bootstrap", "check", "check_outcome",
    "agent_outcome", "conversation_id", "outcome_detail", "completed_at", "command", "exit_code",
    "duration_ms", "stdout", "stderr", "stdout_truncated", "stderr_truncated", "timed_out",
    "succeeded", "failed", "cancelled", "timeout", "no_changes", "not_run", "passed",
    "checks_failed", "agent_failed", "supervisor ownership lost on process restart"]

/-- A secret without brackets that is no part of `REDACTED` or of a fixed text. -/
structure Ordinary (secret : String) : Prop where
  unbracketed : Unbracketed secret.toList
  unfixed : ∀ text ∈ fixedTexts, ¬ Occurs secret text

/-- None of the secrets is in the text. -/
def Free (secrets : List String) (text : String) : Prop := ∀ x ∈ secrets, ¬ Occurs x text

instance (secrets : List String) (text : String) : Decidable (Free secrets text) :=
  inferInstanceAs (Decidable (∀ x ∈ secrets, ¬ Occurs x text))

theorem not_occurs_mask_self {secret : String} (h : Unbracketed secret.toList) (text : String) :
    ¬ Occurs secret (mask secret text) := by
  intro hoccurs
  rw [Occurs, mask, String.toList_ofList] at hoccurs
  refine h.not_infix_replaceFrom 0 text.toList [] ?_ hoccurs
  intro a b hab hb
  exact absurd (List.append_eq_nil_iff.mp hab.symm).2 hb

theorem occurs_of_mask {secret other text : String} (h : Unbracketed secret.toList)
    (hoccurs : Occurs secret (mask other text)) : Occurs secret text := by
  rw [Occurs, mask, String.toList_ofList] at hoccurs
  have := h.infix_replaceFrom other.toList 0 text.toList [] hoccurs
  rwa [List.nil_append, List.drop_zero] at this

theorem occurs_of_maskAll {secret text : String} {others : List String}
    (h : Unbracketed secret.toList) (hoccurs : Occurs secret (maskAll others text)) :
    Occurs secret text := by
  induction others generalizing text with
  | nil => exact hoccurs
  | cons other others ih => exact occurs_of_mask h (ih hoccurs)

/-- After all secrets were masked, none is left. -/
theorem free_maskAll {secrets : List String} (h : ∀ x ∈ secrets, Ordinary x) (text : String) :
    Free secrets (maskAll secrets text) := by
  induction secrets generalizing text with
  | nil => exact fun x hx => by cases hx
  | cons secret secrets ih =>
      intro x hx hoccurs
      rcases List.mem_cons.mp hx with rfl | hx
      · exact not_occurs_mask_self (h x hx).unbracketed text
          (occurs_of_maskAll (h x hx).unbracketed hoccurs)
      · exact ih (fun y hy => h y (List.mem_cons_of_mem _ hy)) (mask secret text) x hx hoccurs

/-- Replacing what does not occur changes nothing. -/
theorem replaceFrom_of_not_infix {old : List Char} (new : List Char) :
    ∀ {cs : List Char}, ¬ old <:+: cs → replaceFrom old new 0 cs = cs
  | [], _ => rfl
  | c :: cs, h => by
      have hprefix : ¬ old <+: c :: cs := fun hp => h hp.isInfix
      have hrest : ¬ old <:+: cs := fun hi => h (hi.trans (List.suffix_cons c cs).isInfix)
      rw [replaceFrom, if_neg (by simpa using hprefix), replaceFrom_of_not_infix new hrest]

theorem mask_of_not_occurs {secret text : String} (h : ¬ Occurs secret text) :
    mask secret text = text := by
  rw [mask, replaceFrom_of_not_infix _ h, String.ofList_toList]

theorem maskAll_of_free {secrets : List String} {text : String} (h : Free secrets text) :
    maskAll secrets text = text := by
  induction secrets with
  | nil => rfl
  | cons secret secrets ih =>
      rw [maskAll, List.foldl_cons, mask_of_not_occurs (h secret List.mem_cons_self)]
      exact ih fun x hx => h x (List.mem_cons_of_mem _ hx)

section Fixed

variable {secrets : List String} (h : ∀ x ∈ secrets, Ordinary x)

include h

theorem free_fixed {text : String} (ht : text ∈ fixedTexts) : Free secrets text :=
  fun x hx => (h x hx).unfixed text ht

theorem untouched_fixed {text : String} (ht : text ∈ fixedTexts) : Untouched secrets text :=
  fun x hx => mask_of_not_occurs (free_fixed h ht x hx)

end Fixed

/-! ### Redacted manifests -/

def CommandCapture.strings (c : CommandCapture) : List String := [c.command, c.stdout, c.stderr]

/-- Every text of a manifest. -/
def TaskResultManifest.strings (m : TaskResultManifest) : List String :=
  [m.taskId, m.executionId, m.checkOutcome.value, m.agentOutcome.value] ++
    [m.repository, m.taskBranch, m.baseRef, m.baseSha, m.headSha, m.patch, m.conversationId,
      m.outcomeDetail].filterMap id ++
    [m.bootstrap, m.check].flatMap (fun c => c.elim [] CommandCapture.strings) ++
    m.changedFiles

/-- None of the secrets is in a text of the manifest. -/
def FreeOf (secrets : List String) (m : TaskResultManifest) : Prop := ∀ s ∈ m.strings, Free secrets s

instance (secrets : List String) (m : TaskResultManifest) : Decidable (FreeOf secrets m) :=
  inferInstanceAs (Decidable (∀ s ∈ m.strings, Free secrets s))

section Redacted

variable {secrets : List String} (h : ∀ x ∈ secrets, Ordinary x)

theorem redactValue_list (secrets : List String) (items : List Value) :
    ∃ items', redactValue secrets (.list items) = .list items' := by
  induction secrets generalizing items with
  | nil => exact ⟨items, rfl⟩
  | cons secret secrets ih =>
      show ∃ items', redactValue secrets (redactSecret secret (.list items)) = .list items'
      rw [redactSecret]
      exact ih _

theorem redactValue_dict (items : List (String × Value)) :
    redactValue secrets (.dict items) = .dict (redactAll secrets items) := by
  induction secrets generalizing items with
  | nil => rfl
  | cons secret secrets ih =>
      show redactValue secrets (redactSecret secret (.dict items)) = _
      rw [redactSecret, ih]
      rfl

theorem redactValue_tuple (items : List Value) :
    redactValue secrets (.tuple items) = .tuple items :=
  redactValue_of_fixed fun _ => by rw [redactSecret]

include h

/-- A text that redaction has left is free of the secrets. -/
theorem free_of_redactValue {v : Value} {s : String} (hv : redactValue secrets v = .str s) :
    Free secrets s := by
  cases v with
  | str t =>
      rw [redactValue_str, Value.str.injEq] at hv
      exact hv ▸ free_maskAll h t
  | list items =>
      obtain ⟨items', hitems⟩ := redactValue_list secrets items
      rw [hitems] at hv
      cases hv
  | dict items =>
      rw [redactValue_dict] at hv
      cases hv
  | tuple items =>
      rw [redactValue_tuple] at hv
      cases hv
  | null | bool _ | int _ | float _ | datetime _ =>
      rw [redactValue_of_fixed fun _ => by rw [redactSecret]] at hv
      cases hv

variable {d : List (String × Value)} (hnd : (d.map Prod.fst).Nodup) {k : String} (hk : ¬ Marked k)

include hnd hk

omit h in
/-- What a lookup in a redacted dictionary finds. -/
theorem found_redactAll {v : Value} (hv : item? (redactAll secrets d) k = some v) :
    ∃ u, item? d k = some u ∧ v = redactValue secrets u := by
  rw [item?_redactAll hk secrets hnd] at hv
  split at hv
  · obtain ⟨u, hu, rfl⟩ := Option.map_eq_some_iff.mp hv
    exact ⟨u, hu, rfl⟩
  · cases hv

theorem free_requiredStr {s : String}
    (hs : Field.requiredStr (item? (redactAll secrets d) k) = some s) : Free secrets s := by
  cases hv : item? (redactAll secrets d) k with
  | none =>
      rw [hv] at hs
      cases hs
  | some v =>
      obtain ⟨u, -, rfl⟩ := found_redactAll hnd hk hv
      rw [hv] at hs
      unfold Field.requiredStr at hs
      split at hs
      next t ht =>
        obtain rfl := Option.some.inj hs
        exact free_of_redactValue h (Option.some.inj ht)
      next => cases hs

theorem free_optionalStr {o : Option String}
    (ho : Field.optionalStr (item? (redactAll secrets d) k) = some o) : ∀ s ∈ o, Free secrets s := by
  intro s hs
  obtain rfl : o = some s := hs
  cases hv : item? (redactAll secrets d) k with
  | none =>
      rw [hv] at ho
      cases ho
  | some v =>
      obtain ⟨u, -, rfl⟩ := found_redactAll hnd hk hv
      rw [hv] at ho
      unfold Field.optionalStr at ho
      split at ho
      next => cases ho
      next => cases ho
      next t ht =>
        obtain rfl := Option.some.inj (Option.some.inj ho)
        exact free_of_redactValue h (Option.some.inj ht)
      next => cases ho

omit hnd hk in
theorem free_capture {c : CommandCapture} {o : Option CommandCapture}
    (ho : Field.capture (some (redactValue secrets c.dump)) = some o) :
    ∀ c' ∈ o, ∀ s ∈ c'.strings, Free secrets s := by
  intro c' hc' s hs
  obtain rfl : o = some c' := hc'
  have hnd : ∀ code, (([("command", .str c.command), ("exit_code", code),
    ("duration_ms", .int c.durationMs), ("stdout", .str c.stdout), ("stderr", .str c.stderr),
    ("stdout_truncated", .bool c.stdoutTruncated), ("stderr_truncated", .bool c.stderrTruncated),
    ("timed_out", .bool c.timedOut)] : List (String × Value)).map Prod.fst).Nodup := by
    intro code
    simp only [List.map_cons, List.map_nil]
    decide
  rw [CommandCapture.dump, redactValue_dict] at ho
  unfold Field.capture at ho
  obtain ⟨_, hcommand, ho⟩ := Option.bind_eq_some_iff.mp ho
  obtain ⟨_, -, ho⟩ := Option.bind_eq_some_iff.mp ho
  obtain ⟨_, -, ho⟩ := Option.bind_eq_some_iff.mp ho
  obtain ⟨_, hstdout, ho⟩ := Option.bind_eq_some_iff.mp ho
  obtain ⟨_, hstderr, ho⟩ := Option.bind_eq_some_iff.mp ho
  obtain ⟨_, -, ho⟩ := Option.bind_eq_some_iff.mp ho
  obtain ⟨_, -, ho⟩ := Option.bind_eq_some_iff.mp ho
  obtain ⟨_, -, ho⟩ := Option.bind_eq_some_iff.mp ho
  obtain rfl := Option.some.inj (Option.some.inj ho)
  simp only [CommandCapture.strings, List.mem_cons, List.not_mem_nil, or_false] at hs
  rcases hs with rfl | rfl | rfl
  · exact free_requiredStr h (hnd _) unmarked_field hcommand
  · exact free_requiredStr h (hnd _) unmarked_field hstdout
  · exact free_requiredStr h (hnd _) unmarked_field hstderr

end Redacted

theorem value_mem_fixedTexts (o : AgentOutcome) : o.value ∈ fixedTexts := by
  cases o <;> decide

theorem check_value_mem_fixedTexts (o : CheckOutcome) : o.value ∈ fixedTexts := by
  cases o <;> decide

theorem mapM_str {f : Value → Option String} (hf : ∀ s, f (.str s) = some s) (texts : List String) :
    (texts.map Value.str).mapM f = some texts := by
  induction texts with
  | nil => rfl
  | cons text texts ih => simp [ih, hf]

/-- The field of a capture in `TaskResultManifest.dump`. -/
def dumpCapture : Option CommandCapture → Value
  | none => .null
  | some c => c.dump

/-- The manifest that is left by redaction: every text is free of the secrets, except that
the names of the changed files are as they were. -/
theorem freeOf_validate {secrets : List String} (h : ∀ x ∈ secrets, Ordinary x)
    {m m' : TaskResultManifest}
    (hm : TaskResultManifest.validate (redactAll secrets m.dump) = some m') :
    FreeOf secrets m' ↔ ∀ file ∈ m.changedFiles, Free secrets file := by
  have hv := validated hm
  have hnd := nodup_dump m
  have hfiles : m'.changedFiles = m.changedFiles := by
    have hfound := hv.changedFiles
    rw [field_redactAll secrets m (v := .tuple (m.changedFiles.map .str)) unmarked_field rfl,
      if_pos (untouched_fixed h (by decide)), redactValue_tuple] at hfound
    exact (Option.some.inj ((mapM_str (fun _ => rfl) m.changedFiles).symm.trans hfound)).symm
  have hcapture : ∀ {k : String} {c o : Option CommandCapture}, k ∈ fixedTexts → ¬ Marked k →
      item? m.dump k = some (dumpCapture c) →
      Field.capture (item? (redactAll secrets m.dump) k) = some o →
      ∀ c' ∈ o, ∀ s ∈ c'.strings, Free secrets s := by
    intro k c o hk hmark hitem ho
    rw [field_redactAll secrets m hmark hitem, if_pos (untouched_fixed h hk)] at ho
    cases c with
    | none =>
        rw [dumpCapture, redactValue_null] at ho
        obtain rfl := Option.some.inj ho
        exact fun c' hc' => by cases hc'
    | some c => exact free_capture h ho
  constructor
  · intro hfree file hfile
    apply hfree
    rw [← hfiles] at hfile
    exact List.mem_append_right _ hfile
  · intro hfree s hs
    simp only [TaskResultManifest.strings, List.mem_append, List.mem_cons, List.not_mem_nil,
      or_false, List.mem_filterMap, List.mem_flatMap, id] at hs
    rcases hs with ((hs | ⟨o, ho, hs⟩) | ⟨c, hc, hs⟩) | hs
    · rcases hs with rfl | rfl | rfl | rfl
      · exact free_requiredStr h hnd unmarked_field hv.taskId
      · exact free_requiredStr h hnd unmarked_field hv.executionId
      · exact free_fixed h (check_value_mem_fixedTexts _)
      · exact free_fixed h (value_mem_fixedTexts _)
    · rcases ho with rfl | rfl | rfl | rfl | rfl | rfl | rfl | rfl
      · exact free_optionalStr h hnd unmarked_field hv.repository s hs
      · exact free_optionalStr h hnd unmarked_field hv.taskBranch s hs
      · exact free_optionalStr h hnd unmarked_field hv.baseRef s hs
      · exact free_optionalStr h hnd unmarked_field hv.baseSha s hs
      · exact free_optionalStr h hnd unmarked_field hv.headSha s hs
      · exact free_optionalStr h hnd unmarked_field hv.patch s hs
      · exact free_optionalStr h hnd unmarked_field hv.conversationId s hs
      · exact free_optionalStr h hnd unmarked_field hv.outcomeDetail s hs
    · rcases hc with rfl | rfl
      · cases hc : m'.bootstrap with
        | none => simp [hc] at hs
        | some c =>
            rw [hc] at hs
            exact hcapture (c := m.bootstrap) (by decide) unmarked_field rfl hv.bootstrap c hc s hs
      · cases hc : m'.check with
        | none => simp [hc] at hs
        | some c =>
            rw [hc] at hs
            exact hcapture (c := m.check) (by decide) unmarked_field rfl hv.check c hc s hs
    · rw [hfiles] at hs
      exact hfree s hs

theorem freeOf_redactManifest {cfg : Settings} {token : Option String}
    (h : ∀ x ∈ cfg.secrets token, Ordinary x) {m m' : TaskResultManifest}
    (hm : redactManifest cfg token m = some m') :
    FreeOf (cfg.secrets token) m' ↔ ∀ file ∈ m.changedFiles, Free (cfg.secrets token) file := by
  unfold redactManifest at hm
  simp only at hm
  split at hm
  next hnil =>
    rw [hnil]
    exact ⟨fun _ _ _ x hx => (by cases hx), fun _ _ _ x hx => (by cases hx)⟩
  next => exact freeOf_validate h hm

/-! ### What a run saves -/

section Conditions

variable (cfg : Settings)

/-- `OPENROUTER_API_KEY`, if there is one. -/
def Settings.providerKeys : List String :=
  [cfg.openrouterApiKey].filterMap fun s => if truthy s then s else none

instance (x : List Char) : Decidable (Unbracketed x) :=
  decidable_of_iff ('[' ∉ x ∧ ']' ∉ x ∧ ¬ x <:+: redactedWord)
    ⟨fun h => ⟨h.1, h.2.1, h.2.2⟩, fun h => ⟨h.opening, h.closing, h.word⟩⟩

instance (secret : String) : Decidable (Ordinary secret) :=
  decidable_of_iff (Unbracketed secret.toList ∧ ∀ text ∈ fixedTexts, ¬ Occurs secret text)
    ⟨fun h => ⟨h.1, h.2⟩, fun h => ⟨h.unbracketed, h.unfixed⟩⟩

/-- The secrets of every save are ordinary ones. -/
def ordinary : (supervisor cfg).Cond where
  call _ _ c _ _ := match c with
    | .saveManifest _ token => decide (∀ x ∈ cfg.secrets token, Ordinary x)
    | _ => true

/-- What is handed in for a save: no secret is in the name of a changed file, and the key of
the provider is not in the detail. -/
def handsFree : (supervisor cfg).Cond where
  call _ _ c _ _ := match c with
    | .saveManifest m token => decide ((∀ file ∈ m.changedFiles, Free (cfg.secrets token) file) ∧
        ∀ detail ∈ m.outcomeDetail, Free cfg.providerKeys detail)
    | _ => true

/-- The token with which a party has last handed in a manifest. -/
def lastToken? (h : History) : Option (Option String) :=
  h.findSome? fun e => match e.call with
    | .saveManifest _ token => some token
    | _ => none

/-- A detail that a party may save: no secret is in it. Before it has handed in a manifest, a
pipeline saves no detail at all. -/
def Fits (p : Pid) (token : Option (Option String)) (detail : Option String) : Prop :=
  match token, p with
  | none, .pipeline _ => detail = none
  | none, .startup => ∀ d ∈ detail, Free (cfg.secrets none) d
  | some token, _ => ∀ d ∈ detail, Free (cfg.secrets token) d

instance (p : Pid) (token : Option (Option String)) (detail : Option String) :
    Decidable (Fits cfg p token detail) :=
  match token, p with
  | none, .pipeline _ => inferInstanceAs (Decidable (detail = none))
  | none, .startup => inferInstanceAs (Decidable (∀ d ∈ detail, Free (cfg.secrets none) d))
  | some token, _ => inferInstanceAs (Decidable (∀ d ∈ detail, Free (cfg.secrets token) d))

/-- What is saved: no secret is in a text of a manifest or in the detail of a record. -/
def savesFree : (supervisor cfg).Cond where
  call p h c _ _ := match c with
    | .saveManifest m token => decide (∀ m' ∈ redactManifest cfg token m, FreeOf (cfg.secrets token) m')
    | .updatePhase record _ _ detail =>
      decide (Fits cfg p (lastToken? h) (orElse detail record.outcomeDetail))
    | .saveExecution record => decide (Fits cfg p (lastToken? h) record.outcomeDetail)
    | _ => true

end Conditions

section Saves

variable {cfg : Settings}

theorem secrets_subset (cfg : Settings) (token : Option String) :
    cfg.secrets none ⊆ cfg.secrets token := by
  intro x hx
  simp only [Settings.secrets, List.mem_filterMap, List.mem_cons, List.not_mem_nil, or_false] at hx ⊢
  obtain ⟨s, hs | hs | hs, ht⟩ := hx
  · exact ⟨s, .inl hs, ht⟩
  · exact ⟨s, .inr (.inl hs), ht⟩
  · subst hs
    cases ht

theorem Free.mono {xs ys : List String} {text : String} (h : Free ys text) (hsub : xs ⊆ ys) :
    Free xs text := fun x hx => h x (hsub hx)

theorem Fits.free {p : Pid} {token : Option (Option String)} {detail : Option String}
    (h : Fits cfg p token detail) : ∀ d ∈ detail, Free (cfg.secrets none) d := by
  intro d hd
  unfold Fits at h
  split at h
  · rw [h] at hd
    cases hd
  · exact h d hd
  · exact (h d hd).mono (secrets_subset cfg _)

/-- A detail without text fits. -/
theorem fits_none (p : Pid) (token : Option (Option String)) : Fits cfg p token none := by
  unfold Fits
  split
  · rfl
  · exact fun d hd => by cases hd
  · exact fun d hd => by cases hd

/-- Both GitHub tokens are masked in the detail of a failure. -/
theorem free_masked {f : Failure} (h : ∀ x ∈ cfg.secrets f.githubToken, Ordinary x)
    (hkey : Free cfg.providerKeys (f.masked cfg)) :
    Free (cfg.secrets f.githubToken) (f.masked cfg) := by
  have hmask : ∀ {token : Option String} {x : String}, (if truthy token then token else none) = some x →
      ∀ detail, maskToken token detail = mask x detail := by
    intro token x hx detail
    cases token with
    | none => cases hx
    | some s =>
        by_cases hs : s = ""
        · subst hs
          cases hx
        · simp only [truthy, hs, decide_not, decide_false, Bool.not_false, if_true,
            Option.some.injEq, ne_eq] at hx
          subst hx
          simp [maskToken, hs]
  -- What a mask has removed, no other mask brings back.
  have hkeep : ∀ {token : Option String} {x detail : String}, Unbracketed x.toList →
      ¬ Occurs x detail → ¬ Occurs x (maskToken token detail) := by
    intro token x detail hx hnot hoccurs
    unfold maskToken at hoccurs
    split at hoccurs
    · split at hoccurs
      · exact hnot hoccurs
      · exact hnot (occurs_of_mask hx hoccurs)
    · exact hnot hoccurs
  intro x hx
  have hord := (h x hx).unbracketed
  simp only [Settings.secrets, List.mem_filterMap, List.mem_cons, List.not_mem_nil, or_false] at hx
  obtain ⟨s, hs | hs | hs, ht⟩ := hx
  · apply hkey
    simp only [Settings.providerKeys, List.mem_filterMap, List.mem_singleton]
    exact ⟨s, hs, ht⟩
  · subst hs
    rw [Failure.masked, hmask ht]
    exact not_occurs_mask_self hord _
  · subst hs
    apply hkeep hord
    rw [hmask ht]
    exact not_occurs_mask_self hord _

/-- The details in the store are free of the secrets of the sandbox. -/
structure Unleaked (cfg : Settings) (s : State) : Prop where
  records : ∀ id r, s.store.executions.find? id = some r →
    ∀ d ∈ r.outcomeDetail, Free (cfg.secrets none) d
  manifests : ∀ id m, s.store.manifests.find? id = some m →
    ∀ d ∈ m.outcomeDetail, Free (cfg.secrets none) d

theorem Unleaked.of_store {s s' : State} (h : Unleaked cfg s) (hs : s'.store = s.store) :
    Unleaked cfg s' := by
  refine ⟨?_, ?_⟩
  · rw [hs]
    exact h.records
  · rw [hs]
    exact h.manifests

theorem Unleaked.saveExecution {s s' : State} {r : TaskExecutionRecord} {a : Except Exn Unit}
    (h : Unleaked cfg s) (hr : ∀ d ∈ r.outcomeDetail, Free (cfg.secrets none) d)
    (hs : s.saveExecution r = (a, s')) : Unleaked cfg s' := by
  obtain ⟨-, rfl⟩ := Prod.mk.inj hs
  unfold Store.saveExecution
  split
  · exact h
  · split
    · exact h
    · refine ⟨fun id r' hr' => ?_, h.manifests⟩
      simp only [Table.find?_put] at hr'
      split at hr'
      · obtain rfl := Option.some.inj hr'
        exact hr
      · exact h.records id r' hr'

theorem Unleaked.saveManifest {p : Pid} {m : TaskResultManifest} {token : Option String}
    {s s' : State} {a : Except Exn String} (h : Unleaked cfg s)
    (hm : ∀ m' ∈ redactManifest cfg token m, FreeOf (cfg.secrets token) m')
    (hs : s.saveManifest cfg p m token = (a, s')) : Unleaked cfg s' := by
  unfold State.saveManifest at hs
  split at hs
  · obtain ⟨-, rfl⟩ := Prod.mk.inj hs
    exact h
  next m' hred =>
    unfold Store.saveManifest at hs
    split at hs
    next heq =>
      obtain ⟨-, rfl⟩ := Prod.mk.inj hs
      exact h
    next reference store heq =>
      obtain ⟨-, rfl⟩ := Prod.mk.inj hs
      split at heq
      · cases (Prod.mk.inj heq).1
      · obtain ⟨-, rfl⟩ := Prod.mk.inj heq
        refine ⟨h.records, fun id m'' hm'' => ?_⟩
        simp only [Table.find?_put] at hm''
        split at hm''
        · obtain rfl := Option.some.inj hm''
          intro d hd
          refine (hm m' hred d ?_).mono (secrets_subset cfg token)
          simp only [TaskResultManifest.strings, List.mem_append, List.mem_filterMap, List.mem_cons]
          exact .inl (.inl (.inr ⟨m'.outcomeDetail, by simp, hd⟩))
        · exact h.manifests id m'' hm''

/-! ### The parties -/

/-- The contract of a party, which may count on nothing but the store. -/
abbrev saving (cfg : Settings) (p : Pid) : Prog.Contract Call.Out (State × History) :=
  Machine.contract (M := supervisor cfg) ((ordinary cfg).and (handsFree cfg)) (Unleaked cfg)
    (fun _ _ _ => True) (fun _ _ _ => True) p (savesFree cfg)

variable {p : Pid} {w : State × History} {token : Option String}

/-- The rule for a call. -/
theorem saves_call {c : Call} {Q : Call.Out c → State × History → Prop}
    {exn : Exn → State × History → Prop}
    (hQ : ∀ o s s' a, Unleaked cfg s → ((ordinary cfg).and (handsFree cfg)).call p w.2 c s a = true →
      State.answer cfg p o c s = some (a, s') →
      Unleaked cfg s' ∧ (savesFree cfg).call p w.2 c s a = true ∧ Q a (s', ⟨c, a, s⟩ :: w.2)) :
    Safe (saving cfg p) (ask c) Q exn w := by
  rintro ⟨s, h⟩ hinv ⟨-, hh⟩ a ⟨s', h'⟩ ⟨hK, ⟨o, ha⟩, hh'⟩
  obtain rfl : h = w.2 := hh
  obtain rfl : h' = ⟨c, a, s⟩ :: w.2 := hh'
  obtain ⟨hinv', hD, hpost⟩ := hQ o s s' a hinv hK ha
  exact ⟨hinv', ⟨trivial, hD⟩, hpost⟩

/-- Nothing has been handed in yet, or a manifest with this token. -/
def Turn (token : Option String) (w : State × History) : Prop :=
  lastToken? w.2 = none ∨ lastToken? w.2 = some token

/-- Calls that save nothing. -/
def Call.idle : Call → Bool
  | .updatePhase _ _ _ _ | .saveExecution _ | .saveManifest _ _ => false
  | _ => true

theorem store_of_idle {o : Oracle} {c : Call} {s s' : State} {a : Call.Out c} (hc : c.idle = true)
    (h : State.answer cfg p o c s = some (a, s')) : s'.store = s.store := by
  by_cases hw : c.writes = false
  · exact (quiet_answer hw h).store
  · cases c <;> first | exact absurd rfl hw | cases hc
    obtain ⟨-, rfl⟩ := Prod.mk.inj (Option.some.inj h)
    rfl

theorem lastToken?_idle {c : Call} {a : Call.Out c} {s : State} {h : History} (hc : c.idle = true) :
    lastToken? (⟨c, a, s⟩ :: h) = lastToken? h := by
  cases c <;> first | rfl | cases hc

theorem savesFree_idle {c : Call} {a : Call.Out c} {s : State} {h : History} (hc : c.idle = true) :
    (savesFree cfg).call p h c s a = true := by
  cases c <;> first | rfl | cases hc

/-- A program that saves nothing. -/
theorem saves_idle {α : Type} {ε : Type} {r : Co Call.Out ε α} (hr : Co.Makes (fun c => c.idle = true) r)
    (hw : Turn token w) : Safe (saving cfg p) r (fun _ => Turn token) (fun _ => Turn token) w := by
  apply Safe.of_makes hr ?_ ?_ hw
  · rintro w w' hturn ⟨-, hh⟩
    rw [Turn, hh]
    exact hturn
  · rintro c w a w' hc hturn hinv ⟨-, ⟨o, ha⟩, hh⟩
    refine ⟨hinv.of_store (store_of_idle hc ha), ⟨trivial, ?_⟩, ?_⟩
    · rw [hh]
      exact savesFree_idle hc
    · rw [Turn, hh, lastToken?_idle hc]
      exact hturn

theorem idle_reply {α : Type} (c : Call) (hc : c.idle = true) (f : Call.Out c → Except Exn α) :
    Co.Makes (fun c => c.idle = true) (ask c >>= fun a => ofReply (f a)) := by
  refine Co.Makes.bind ⟨hc, fun _ => trivial⟩ fun a => ?_
  cases f a with
  | ok x => trivial
  | error e => trivial

theorem idle_runAgent (request : StartTaskExecutionRequest) (dir id : String)
    (githubToken : Option String) :
    Co.Makes (fun c => c.idle = true) (runAgent request dir id githubToken) := by
  have hopen : Co.Makes (fun c => c.idle = true)
      (openConversation id dir request.model githubToken) := by
    refine Co.Makes.bind (Co.Makes.attempt (Co.Makes.bind (idle_reply _ rfl _) fun _ =>
      idle_reply _ rfl _)) fun r => ?_
    cases r with
    | ok _ => trivial
    | error e => cases e <;> first | trivial | exact ⟨rfl, fun _ => trivial⟩
  refine Co.Makes.bind hopen fun _ => ?_
  refine Co.Makes.bind (idle_reply _ rfl _) fun _ => ?_
  refine Co.Makes.bind (Co.Makes.attempt ?_) fun r => ?_
  · refine Co.Makes.bind (idle_reply _ rfl _) fun i => ?_
    exact Co.Makes.bind (idle_reply _ rfl _) fun _ => idle_reply _ rfl _
  · have hcancel : Co.Makes (fun c => c.idle = true) (cancelConversation id) := by
      refine Co.Makes.bind (idle_reply _ rfl _) fun _ => ?_
      exact Co.Makes.bind (idle_reply _ rfl _) fun _ => idle_reply _ rfl _
    cases r with
    | ok status => trivial
    | error e => cases e <;> first | trivial | exact Co.Makes.bind hcancel fun _ => trivial

/-- `_update_phase` with a detail that fits. -/
theorem saves_updatePhase {record : TaskExecutionRecord} {phase : TaskExecutionPhase}
    {path detail : Option String} (hw : Turn token w)
    (hfits : Fits cfg p (lastToken? w.2) (orElse detail record.outcomeDetail)) :
    Safe (saving cfg p) (updatePhase record phase path detail) (fun _ => Turn token)
      (fun _ => Turn token) w := by
  refine Safe.seq (Q := fun _ => Turn token) ?_ fun a w hw => ?_
  · apply saves_call
    intro o s s' a hinv _ ha
    refine ⟨hinv.saveExecution hfits.free (Option.some.inj ha), decide_eq_true hfits, ?_⟩
    exact hw
  · cases a with
    | ok _ => exact hw
    | error e => exact hw

theorem saves_saveExecution {record : TaskExecutionRecord} (hdetail : record.outcomeDetail = none)
    (hw : Turn token w) :
    Safe (saving cfg p) (saveExecution record) (fun _ => Turn token) (fun _ => Turn token) w := by
  have hfits : Fits cfg p (lastToken? w.2) record.outcomeDetail := hdetail ▸ fits_none p _
  refine Safe.seq (Q := fun _ => Turn token) ?_ fun a w hw => ?_
  · apply saves_call
    intro o s s' a hinv _ ha
    exact ⟨hinv.saveExecution hfits.free (Option.some.inj ha), decide_eq_true hfits, hw⟩
  · cases a with
    | ok _ => exact hw
    | error e => exact hw

/-- A save, and what is known of what was handed in for it. -/
theorem saves_saveManifest {m : TaskResultManifest} :
    Safe (saving cfg p) (saveManifest m token)
      (fun _ w => lastToken? w.2 = some token ∧ (∀ x ∈ cfg.secrets token, Ordinary x) ∧
        ∀ d ∈ m.outcomeDetail, Free cfg.providerKeys d)
      (fun _ => Turn token) w := by
  refine Safe.seq (Q := fun _ w => lastToken? w.2 = some token ∧
    (∀ x ∈ cfg.secrets token, Ordinary x) ∧ ∀ d ∈ m.outcomeDetail, Free cfg.providerKeys d) ?_ ?_
  · apply saves_call
    intro o s s' a hinv hK ha
    obtain ⟨hord, hhands⟩ := (Bool.and_eq_true _ _).mp hK
    have hord := of_decide_eq_true hord
    obtain ⟨hfiles, hdetail⟩ := of_decide_eq_true hhands
    have hfree : ∀ m' ∈ redactManifest cfg token m, FreeOf (cfg.secrets token) m' :=
      fun m' hm' => (freeOf_redactManifest hord hm').mpr hfiles
    exact ⟨hinv.saveManifest hfree (Option.some.inj ha), decide_eq_true hfree, rfl, hord, hdetail⟩
  · intro a w hw
    cases a with
    | ok _ => exact hw
    | error e => exact .inr hw.1

/-- The text of a detail, if it is one. -/
theorem mem_orElse {a b : Option String} {d : String} (h : d ∈ orElse a b) : d ∈ a ∨ d ∈ b := by
  unfold orElse at h
  split at h
  · split at h
    · exact .inr h
    · exact .inl h
  · exact .inr h

theorem saves_finalizeFailure {record : TaskExecutionRecord} {f : Failure}
    (hrecord : ∀ d ∈ record.outcomeDetail, Free (cfg.secrets f.githubToken) d)
    (hw : Turn f.githubToken w) :
    Safe (saving cfg p) (finalizeFailure cfg record f) (fun _ => Turn f.githubToken)
      (fun _ => Turn f.githubToken) w := by
  refine Safe.seq (Safe.mono (saves_idle (r := ask .now) ⟨rfl, fun _ => trivial⟩ hw)
    (fun _ _ h => h) fun _ _ h => h) fun t w hw => ?_
  refine Safe.seq saves_saveManifest fun reference w hw => ?_
  obtain ⟨htoken, hord, hdetail⟩ := hw
  apply saves_updatePhase (.inr htoken)
  rw [htoken]
  intro d hd
  rcases mem_orElse hd with hd | hd
  · obtain rfl := Option.some.inj hd
    exact free_masked hord (hdetail _ rfl)
  · exact hrecord d hd

theorem idle_git (c : GitCall) : Co.Makes (fun c => c.idle = true) (git c) :=
  idle_reply (.git c) rfl fun a => a

/-- The body has raised, with a record that has no detail. -/
def Dropped (token : Option String) (r : Raised) (w : State × History) : Prop :=
  r.locals.record.outcomeDetail = none ∧ Turn token w

theorem saves_git {c : GitCall} {l : Locals} (hl : l.record.outcomeDetail = none)
    (hw : Turn token w) :
    Safe (saving cfg p) (within l (git c)) (fun _ => Turn token) (Dropped token) w :=
  safe_within (Safe.mono (saves_idle (idle_git c) hw) (fun _ _ h => h) fun _ _ h => ⟨hl, h⟩)

theorem saves_prepareRepository {dir repository baseRef taskBranch gitToken : String}
    {requested : Option String} {l : Locals} (hl : l.record.outcomeDetail = none)
    (hw : Turn token w) :
    Safe (saving cfg p) (prepareRepository dir repository baseRef taskBranch gitToken requested l)
      (fun l' w => l'.record = l.record ∧ Turn token w) (Dropped token) w := by
  refine Safe.seq (Q := fun _ => Turn token) ?_ fun _ w hw => ?_
  · refine Safe.seq (saves_git hl hw) fun cloned w hw => ?_
    cases cloned with
    | true => exact hw
    | false => exact saves_git hl hw
  refine Safe.seq (Q := fun _ => Turn token) ?_ fun baseSha w hw => ?_
  · unfold chooseBaseSha
    split
    · exact hw
    · exact saves_git hl hw
  refine Safe.seq (Q := fun _ => Turn token) ?_ fun _ w hw => ?_
  · refine Safe.seq (saves_git hl hw) fun complete w hw => ?_
    cases complete with
    | true => exact hw
    | false => exact ⟨hl, hw⟩
  refine Safe.seq (Q := fun _ => Turn token) ?_ fun _ w hw => ⟨rfl, hw⟩
  refine Safe.seq (saves_git hl hw) fun branch w hw => ?_
  split
  · exact saves_git hl hw
  · exact hw

theorem saves_prepare {request : StartTaskExecutionRequest} {l : Locals}
    (hl : l.record.outcomeDetail = none) (hw : Turn token w) :
    Safe (saving cfg p) (prepare cfg request token l)
      (fun l' w => l'.record = l.record ∧ Turn token w) (Dropped token) w := by
  unfold prepare
  simp only
  split
  · split
    · exact saves_prepareRepository hl hw
    · exact ⟨hl, hw⟩
  · exact Safe.seq (saves_git hl hw) fun _ w hw => ⟨rfl, hw⟩

theorem free_resultDetail {secrets : List String} (h : ∀ x ∈ secrets, Ordinary x)
    (a : AgentOutcome) (c : CheckOutcome) : ∀ d ∈ resultDetail a c, Free secrets d := by
  intro d hd
  apply free_fixed h
  cases a <;> cases c <;> first
    | (obtain rfl := Option.some.inj hd; decide)
    | cases hd

theorem saves_conclude {request : StartTaskExecutionRequest} {outcome : AgentOutcome} {l : Locals}
    (hl : l.record.outcomeDetail = none) (hw : Turn token w) :
    Safe (saving cfg p) (conclude cfg request token outcome l) (fun _ => Turn token)
      (Dropped token) w := by
  refine Safe.seq (Q := fun _ => Turn token) ?_ fun evidence w hw => ?_
  · unfold gatherEvidence
    split
    · exact saves_git hl hw
    · exact hw
  refine Safe.seq (Q := fun _ => Turn token) (safe_within (Safe.mono (saves_idle (r := ask .now)
    ⟨rfl, fun _ => trivial⟩ hw) (fun _ _ h => h) fun _ _ h => ⟨hl, h⟩)) fun t w hw => ?_
  refine Safe.seq (safe_within (Safe.mono saves_saveManifest (fun _ _ h => h) fun _ _ h => ⟨hl, h⟩))
    fun reference w hw => ?_
  obtain ⟨htoken, hord, -⟩ := hw
  refine safe_within (Safe.mono (saves_updatePhase (.inr htoken) ?_) (fun _ _ h => h)
    fun _ _ h => ⟨hl, h⟩)
  rw [htoken, hl]
  intro d hd
  rcases mem_orElse hd with hd | hd
  · exact free_resultDetail hord _ _ d hd
  · cases hd

theorem saves_pipelineBody {request : StartTaskExecutionRequest} {record : TaskExecutionRecord}
    (hrecord : record.outcomeDetail = none) (hw : Turn token w) :
    Safe (saving cfg p) (pipelineBody cfg request record token) (fun _ => Turn token)
      (Dropped token) w := by
  have hupdate : ∀ {phase : TaskExecutionPhase} {l : Locals} {w : State × History},
      l.record.outcomeDetail = none → Turn token w →
      Safe (saving cfg p) (within l (updatePhase record phase)) (fun _ => Turn token)
        (Dropped token) w := by
    intro phase l w hl hw
    refine safe_within (Safe.mono (saves_updatePhase hw ?_) (fun _ _ h => h) fun _ _ h => ⟨hl, h⟩)
    rw [hrecord]
    exact fits_none p _
  refine Safe.seq (hupdate hrecord hw) fun _ w hw => ?_
  refine Safe.seq (saves_prepare hrecord hw) fun l w hw => ?_
  have hl : l.record.outcomeDetail = none := by
    rw [hw.1]
    exact hrecord
  refine Safe.seq (hupdate hl hw.2) fun _ w hw => ?_
  refine Safe.seq (Q := fun _ => Turn token) (safe_within (Safe.mono (saves_idle (r := ask .conversationId)
    ⟨rfl, fun _ => trivial⟩ hw) (fun _ _ h => h) fun _ _ h => ⟨hl, h⟩)) fun id w hw => ?_
  refine Safe.seq (Q := fun _ => Turn token) (safe_within (Safe.mono (saves_saveExecution hrecord hw)
    (fun _ _ h => h) fun _ _ h => ⟨hrecord, h⟩)) fun _ w hw => ?_
  refine Safe.seq (Q := fun _ => Turn token) (safe_within (Safe.mono (saves_idle (idle_runAgent _ _ _ _) hw)
    (fun _ _ h => h) fun _ _ h => ⟨hrecord, h⟩)) fun outcome w hw => ?_
  exact saves_conclude hrecord hw

theorem saves_runPipeline {request : StartTaskExecutionRequest} {record : TaskExecutionRecord}
    {githubToken : Option String} (hrecord : record.outcomeDetail = none)
    (hw : Turn (orElse githubToken cfg.githubToken) w) :
    Prog.Safe (saving cfg p) (runPipeline cfg request record githubToken).run (fun _ _ => True) w := by
  refine Prog.Safe.bind (Prog.Safe.mono (saves_pipelineBody hrecord hw) ?_)
  intro r w hr
  cases r with
  | ok u => trivial
  | error e =>
      obtain ⟨hdetail, hturn⟩ := hr
      show Prog.Safe _ (handle cfg request _ e).run _ _
      unfold handle
      cases hlisted : e.exn.listed with
      | none => trivial
      | some outcome =>
          refine Prog.Safe.mono (saves_finalizeFailure (f := e.failure request _ outcome) ?_ hturn)
            fun _ _ _ => trivial
          rw [hdetail]
          exact fun d hd => by cases hd

/-! ### Recovery -/

/-- Recovery, for records and manifests whose details are free of the sandbox's secrets. -/
theorem saves_recover {record : TaskExecutionRecord}
    (hrecord : ∀ d ∈ record.outcomeDetail, Free (cfg.secrets none) d) (hw : Turn none w) :
    Safe (saving cfg .startup) (recover cfg record) (fun _ => Turn none) (fun _ => Turn none) w := by
  refine Safe.seq (Q := fun a w => Turn none w ∧ ∀ m, a = .ok m →
    ∀ d ∈ m.outcomeDetail, Free (cfg.secrets none) d) ?_ fun a w hw => ?_
  · apply saves_call
    intro o s s' a hinv _ ha
    obtain ⟨rfl, rfl⟩ := Prod.mk.inj (Option.some.inj ha)
    refine ⟨hinv, rfl, hw, ?_⟩
    intro m hm d hd
    unfold Store.loadManifest at hm
    split at hm
    · cases hm
    next m' hfound =>
      obtain rfl := Except.ok.inj hm
      exact hinv.manifests _ m' hfound d hd
  · have hstop : ∀ (_ : Unit) w, Turn none w → Safe (saving cfg .startup)
        (ask (.stopOrphanProcesses record.executionId)) (fun _ => Turn none) (fun _ => Turn none) w :=
      fun _ w hw => saves_idle (r := ask (.stopOrphanProcesses _)) ⟨rfl, fun _ => trivial⟩ hw
    cases a with
    | error e =>
        exact Safe.seq (saves_finalizeFailure (f := ownershipLost record) hrecord hw.1) hstop
    | ok m =>
        refine Safe.seq (saves_updatePhase hw.1 ?_) hstop
        have hfree : ∀ d ∈ orElse m.outcomeDetail record.outcomeDetail, Free (cfg.secrets none) d := by
          intro d hd
          rcases mem_orElse hd with hd | hd
          · exact hw.2 m rfl d hd
          · exact hrecord d hd
        rcases hw.1 with hnone | hsome
        · rw [hnone]
          exact hfree
        · rw [hsome]
          exact hfree

theorem saves_startup (hw : Turn none w) :
    Prog.Safe (saving cfg .startup) (startup cfg).run (fun _ _ => True) w := by
  have hsafe : Safe (saving cfg .startup) (startup cfg) (fun _ => Turn none) (fun _ => Turn none) w := by
    refine Safe.seq (Q := fun (records : List TaskExecutionRecord) w => Turn none w ∧
      ∀ r ∈ records, ∀ d ∈ r.outcomeDetail, Free (cfg.secrets none) d) ?_ fun records w hw => ?_
    · apply saves_call
      intro o s s' a hinv _ ha
      obtain ⟨rfl, rfl⟩ := Prod.mk.inj (Option.some.inj ha)
      refine ⟨hinv, rfl, hw, fun r hr => ?_⟩
      obtain ⟨hmem, -⟩ := mem_listNonTerminal_iff.mp hr
      exact hinv.records _ r (Table.find?_of_mem hmem)
    · refine Safe.seq (Safe.forM (fun r hr w hw' => saves_recover (hw.2 r hr) hw') hw.1) fun _ w hw => ?_
      exact saves_idle (r := ask .markReady) ⟨rfl, fun _ => trivial⟩ hw
  exact Prog.Safe.mono hsafe fun _ _ _ => trivial

/-! ### Runs -/

theorem sound_saves (cfg : Settings) :
    Machine.Sound (M := supervisor cfg) ((ordinary cfg).and (handsFree cfg)) (Unleaked cfg)
      (fun _ _ _ => True) (fun _ _ _ => True) (fun _ _ _ => True) (savesFree cfg) where
  rely_trans _ _ _ _ _ _ := trivial
  guar_rely _ _ _ _ _ _ := trivial
  job := by
    intro p j s prog s' hinv h
    cases p with
    | startup =>
        cases j with
        | start _ _ _ => cases h
        | startup =>
            simp only [supervisor, Job.program] at h
            split at h
            · obtain ⟨rfl, rfl⟩ := Prod.mk.inj (Option.some.inj h)
              exact ⟨⟨hinv.records, hinv.manifests⟩, trivial, saves_startup (.inl rfl)⟩
            · cases h
    | pipeline id =>
        cases j with
        | startup => cases h
        | start request githubToken now =>
            simp only [supervisor, Job.program] at h
            split at h
            · split at h
              next record store hadmit =>
                split at h
                · obtain ⟨rfl, rfl⟩ := Prod.mk.inj (Option.some.inj h)
                  obtain ⟨hnew, hfree, rfl⟩ := admitOrGet_created hadmit
                  have hdetail : record.outcomeDetail = none := by
                    rw [hnew]
                    rfl
                  refine ⟨⟨fun k r hr => ?_, hinv.manifests⟩, trivial,
                    saves_runPipeline hdetail (.inl rfl)⟩
                  simp only [Table.find?_insert hfree] at hr
                  split at hr
                  · obtain rfl := Option.some.inj hr
                    rw [hdetail]
                    exact fun d hd => by cases hd
                  · exact hinv.records k r hr
                · cases h
              next => cases h
            · cases h
  event := by
    intro e s s' hinv _ h
    refine ⟨?_, fun _ _ => trivial⟩
    cases e with
    | talk e => exact hinv.of_store (quiet_talkEvent h).store
    | crash =>
        obtain rfl := Option.some.inj h
        exact ⟨hinv.records, hinv.manifests⟩

/-- In a run in which nothing is handed in with a secret in the name of a changed file or with
the key of the provider in its detail, nothing is saved with a secret in it. -/
theorem evidence_free {as : List (Act cfg)} (hord : Machine.keeps (ordinary cfg) System.init as = true)
    (hhands : Machine.keeps (handsFree cfg) System.init as = true) :
    Machine.keeps (savesFree cfg) System.init as = true := by
  apply (sound_saves cfg).keeps_duty (fun _ _ => trivial) (fun _ _ => rfl)
  · refine ⟨⟨?_, ?_⟩, ?_⟩
    · intro id r h
      cases h
    · intro id m h
      cases h
    · intro p c k h hth
      cases hth
  · rw [Machine.keeps_and, hord, hhands]
    rfl

end Saves

/-! ### Two runs -/

/-- A sandbox with both credentials. -/
def keyed : Settings := { tokened with openrouterApiKey := some "sk-or-k" }

/-- The clone fails, and git prints the address with the token in it. -/
def talkative : Oracle :=
  { usual with git := fun c =>
      match c with
      | .isGitDir _ => .ok false
      | .cloneRepository _ _ _ => .error (.gitPrep "clone of https://ghs_x@github.com/o/r failed")
      | c => quietGit c }

def cloneFails : List (Act keyed) := started change ++ calls only 6 talkative

/-- The agent has written a file that is named after the key. -/
def revealing : Oracle :=
  { usual with git := fun c =>
      match c with
      | .collectGitEvidence _ _ _ => .ok ⟨some "main", ["sk-or-k.txt"], some "", false⟩
      | c => quietGit c }

def fileNamed : List (Act keyed) :=
  started change ++ calls only 13 usual ++
    [.event (.talk (.enter 0)), .event (.talk (.leave 0 .settled))] ++ calls only 6 revealing

/-- The detail of the only execution. -/
def detailIn (w : System) : Option String :=
  (w.shared.store.executions.find? "73").bind TaskExecutionRecord.outcomeDetail

/-- The token that git prints is masked where it is saved. -/
theorem evidence_free_cloneFails :
    ((supervisor keyed).run System.init cloneFails).map detailIn =
        some (some "clone of https://[REDACTED]@github.com/o/r failed") ∧
      Machine.keeps (ordinary keyed) System.init cloneFails = true ∧
      Machine.keeps (handsFree keyed) System.init cloneFails = true ∧
      Machine.keeps (savesFree keyed) System.init cloneFails = true := by
  have hord : Machine.keeps (ordinary keyed) System.init cloneFails = true := by decide +kernel
  have hhands : Machine.keeps (handsFree keyed) System.init cloneFails = true := by decide +kernel
  exact ⟨by decide +kernel, hord, hhands, evidence_free hord hhands⟩

/-- The name of a changed file is saved as it is, with the key in it. -/
theorem changed_file_leaks :
    ¬ ∀ (cfg : Settings) (as : List (Act cfg)),
      Machine.keeps (ordinary cfg) System.init as = true →
      Machine.keeps (savesFree cfg) System.init as = true := by
  intro hclaim
  have hord : Machine.keeps (ordinary keyed) System.init fileNamed = true := by decide +kernel
  have hleak : Machine.keeps (savesFree keyed) System.init fileNamed = false := by decide +kernel
  rw [hclaim keyed fileNamed hord] at hleak
  cases hleak

end GgAgent.Sandbox
