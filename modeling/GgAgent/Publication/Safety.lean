import GgAgent.Publication.Publisher
import GgAgent.Records.Admission

/-!
What holds in every run of publication attempts.

No two pull requests have the same repository, head and base: one is opened only after a listing
without any, and nobody else opens one. A row that says `PUBLISHED` mirrors what GitHub has
answered. As long as nobody else changes a pull request or pushes, every pull request is an open
draft with the commit of the journal as its head.
-/

namespace GgAgent.Publication

open GgAgent.Lib GgAgent.Backend

/-! ### The invariant -/

/-- Repository, head and base. -/
def place (x : String × RemotePullRequest) : String × String × String := (x.1, x.2.headRef, x.2.baseRef)

/-- The row has what GitHub said of the pull request. -/
structure Mirrors (row : PublicationRecord) (pr : RemotePullRequest) : Prop where
  number : row.prNumber = some pr.number
  url : row.prUrl = some pr.htmlUrl
  draft : row.prDraft = some pr.draft
  author : row.prAuthor = some pr.author
  state : row.prState = some pr.state

/-- The last exchange gave the pull request of the row: it was the only one of a listing with the
task marker, or it was made as a draft. Without a durable journal before the listing, the pull
request was open and its head was the commit of the row, which was the head of the branch. -/
def Backed (p : DraftPublisher) (row : PublicationRecord) : List Exchange → Prop
  | .listed repository head base prs :: rest =>
    repository = row.repository ∧ head = row.taskBranch ∧ base = row.baseRef ∧
      ∃ pr, prs.filter (p.marked row.taskMarker) = [pr] ∧ Mirrors row pr ∧
        (.durable ∉ rest → pr.state = "open" ∧ row.commitSha = some pr.headSha ∧
          .branch repository head (some pr.headSha) ∈ rest)
  | .made repository pr :: _ =>
    repository = row.repository ∧ pr.headRef = row.taskBranch ∧ pr.baseRef = row.baseRef ∧
      pr.draft = true ∧ Mirrors row pr
  | _ => False

/-- An open draft from the place of the row, with the commit of the row. -/
structure Current (row : PublicationRecord) (x : String × RemotePullRequest) : Prop where
  place : place x = (row.repository, row.taskBranch, row.baseRef)
  commit : row.commitSha = some x.2.headSha
  state : x.2.state = "open"
  draft : x.2.draft = true

/-- The journal and GitHub when nobody else has changed anything. -/
structure Quiet (t : TaskId) (w : World) : Prop where
  pulls : ∀ x ∈ w.github.pulls, ∃ row, w.ledger.publications.find? t = some row ∧ Current row x
  commit : ∀ row, w.ledger.publications.find? t = some row → row.state ≠ .skipped →
    ∃ sha, row.commitSha = some sha
  pushed : ∀ row, w.ledger.publications.find? t = some row →
    row.state = .pushed ∨ row.state = .creating →
      ∃ sha, row.commitSha = some sha ∧ w.github.branches row.repository row.taskBranch = some sha
  published : ∀ row, w.ledger.publications.find? t = some row → row.state = .published →
    ∃ pr, (row.repository, pr) ∈ w.github.pulls ∧ Mirrors row pr

/-- Nobody else has interfered, and GitHub makes drafts. -/
def World.undisturbed (w : World) : Prop := w.touched = false ∧ w.github.supportsDrafts = true

structure Inv (p : DraftPublisher) (t : TaskId) (w : World) : Prop where
  unique : (w.github.pulls.map place).Nodup
  backed : ∀ row, w.ledger.publications.find? t = some row → row.state = .published →
    Backed p row w.evidence
  quiet : w.undisturbed → Quiet t w

/-- What the others leave alone. -/
structure Rely (w w' : World) : Prop where
  ledger : w'.ledger = w.ledger
  asked : w'.asked = w.asked
  evidence : w'.evidence = w.evidence
  places : w'.github.pulls.map place = w.github.pulls.map place
  still : w'.undisturbed → w' = w

theorem Rely.refl (w : World) : Rely w w := ⟨rfl, rfl, rfl, rfl, fun _ => rfl⟩

theorem Rely.trans {a b c : World} (h : Rely a b) (h' : Rely b c) : Rely a c where
  ledger := h'.ledger.trans h.ledger
  asked := h'.asked.trans h.asked
  evidence := h'.evidence.trans h.evidence
  places := h'.places.trans h.places
  still hu := by
    have heq := h'.still hu
    rw [heq] at hu ⊢
    exact h.still hu

variable {p : DraftPublisher} {t : TaskId} {w w' : World}

theorem places_moved (r b sha : String) (g : GitHub) :
    (g.moved r b sha).pulls.map place = g.pulls.map place := by
  show (g.pulls.map _).map place = _
  rw [List.map_map]
  apply List.map_congr_left
  intro x _
  show place (if _ then _ else _) = _
  split <;> rfl

theorem places_edited (r : String) (n : Nat) (d : Bool) (st title body : String) (g : GitHub) :
    (g.edited r n d st title body).pulls.map place = g.pulls.map place := by
  show (g.pulls.map _).map place = _
  rw [List.map_map]
  apply List.map_congr_left
  intro x _
  show place (if _ then _ else _) = _
  split <;> rfl

theorem rely_event {e : Event} (he : e ≠ .crash) : Rely w (e.apply w) := by
  cases e with
  | crash => exact absurd rfl he
  | edit r n d st title body =>
      exact ⟨rfl, rfl, rfl, places_edited r n d st title body w.github, fun h => (by cases h.1)⟩
  | push r b sha =>
      exact ⟨rfl, rfl, rfl, places_moved r b sha w.github, fun h => (by cases h.1)⟩

theorem Inv.rely (hw : Inv p t w) (h : Rely w w') : Inv p t w' where
  unique := by
    rw [h.places]
    exact hw.unique
  backed := by
    rw [h.ledger, h.evidence]
    exact hw.backed
  quiet hu := by
    have heq := h.still hu
    rw [heq] at hu ⊢
    exact hw.quiet hu

theorem inv_fresh (hw : Fresh t w) : Inv p t w where
  unique := by rw [hw.pulls]; exact List.nodup_nil
  backed row hrow := by rw [hw.journal] at hrow; cases hrow
  quiet _ := by
    constructor
    case pulls => simp [hw.pulls]
    all_goals
      intro row hrow
      rw [hw.journal] at hrow
      cases hrow

/-! ### The journal -/

/-- The row has the identity of the request. -/
structure Identity (request : PublicationRequest) (row : PublicationRecord) : Prop where
  repository : row.repository = request.repository
  taskBranch : row.taskBranch = request.taskBranch
  baseRef : row.baseRef = request.baseRef
  taskMarker : row.taskMarker = request.taskMarker

/-- What `begin_publication` answers and leaves in the journal. -/
inductive Begun (request : PublicationRequest) (commitSha : Option String) (st : PublicationState)
    (w : World) : Except Exn (PublicationRecord × Bool) → World → Prop
  | refused (e : Exn) : Begun request commitSha st w (.error e) w
  | found (row : PublicationRecord) (l : Ledger) (hl : l.publications = w.ledger.publications)
      (hrow : w.ledger.publications.find? request.taskId = some row) (hid : Identity request row)
      (hsha : ∀ a b, row.commitSha = some a → commitSha = some b → a = b) :
      Begun request commitSha st w (.ok (row, false)) { w with ledger := l }
  | inserted (row : PublicationRecord) (l : Ledger)
      (hl : ∀ u, l.publications.find? u =
        if row.taskId = u then some row else w.ledger.publications.find? u)
      (hnone : w.ledger.publications.find? request.taskId = none)
      (htask : row.taskId = request.taskId) (hid : Identity request row)
      (hsha : row.commitSha = commitSha) (hst : row.state = st) :
      Begun request commitSha st w (.ok (row, true)) { w with ledger := l }

theorem begins_begun (now : Time) (request : PublicationRequest) (commitSha : Option String)
    (st : PublicationState) (detail : Option String) (w : World) :
    Begun request commitSha st w
      (w.begins now request.taskId request.repository request.taskBranch request.baseRef
        request.taskMarker commitSha request.checkOutcome request.agentOutcome st detail).1
      (w.begins now request.taskId request.repository request.taskBranch request.baseRef
        request.taskMarker commitSha request.checkOutcome request.agentOutcome st detail).2 := by
  simp only [World.begins, Ledger.beginPublication]
  split
  case isFalse => exact .refused _
  case isTrue =>
    cases hfind : w.ledger.publications.find? request.taskId with
    | some row =>
        simp only
        split
        next => exact .refused _
        next hid =>
          simp only [ne_eq, not_or, not_not] at hid
          split
          next => exact .refused _
          next hsha =>
            refine .found row _ rfl hfind ⟨hid.1, hid.2.1, hid.2.2.1, hid.2.2.2⟩ ?_
            intro a b ha hb
            rw [ha, hb] at hsha
            simpa using hsha
    | none =>
        refine .inserted _ _ (fun u => ?_) hfind rfl ⟨rfl, rfl, rfl, rfl⟩ rfl rfl
        exact Table.find?_insert hfind u

/-- What `update_publication` answers and leaves in the journal. -/
inductive Updated (t : TaskId) (patch : Ledger.PublicationPatch) (w : World) :
    Except Exn PublicationRecord → World → Prop
  | missing (e : Exn) (ev : List Exchange) (hnone : w.ledger.publications.find? t = none) :
      Updated t patch w (.error e) { w with evidence := ev }
  | patched (now : Time) (row : PublicationRecord) (l : Ledger)
      (hrow : w.ledger.publications.find? t = some row)
      (hl : l.publications.find? t = some (patch.apply now row)) :
      Updated t patch w (.ok (patch.apply now row))
        { w with
          ledger := l, evidence := if patch.state = .published then w.asked else w.evidence }

theorem updates_updated (now : Time) (t : TaskId) (patch : Ledger.PublicationPatch) (w : World) :
    Updated t patch w (w.updates now t patch).1 (w.updates now t patch).2 := by
  simp only [World.updates, Ledger.updatePublication]
  cases hfind : w.ledger.publications.find? t with
  | none => exact .missing _ _ hfind
  | some row =>
      have hrow : (w.ledger.publications.modify t (patch.apply now) (patch.key_apply now)).find? t =
          some (patch.apply now row) := by
        rw [Table.find?_modify, if_pos rfl, hfind, Option.map_some]
      simp only
      split
      · exact .patched now row _ hfind hrow
      · exact .patched now row _ hfind hrow

/-! ### What the calls keep -/

/-- Calls that leave the journal and GitHub as they were. -/
theorem Inv.same (hw : Inv p t w)
    (hjournal : w'.ledger.publications.find? t = w.ledger.publications.find? t)
    (hgithub : w'.github = w.github) (hevidence : w'.evidence = w.evidence)
    (htouched : w'.touched = w.touched) : Inv p t w' where
  unique := by
    rw [hgithub]
    exact hw.unique
  backed := by
    rw [hjournal, hevidence]
    exact hw.backed
  quiet hu := by
    have hq := hw.quiet (by
      unfold World.undisturbed at hu
      rwa [htouched, hgithub] at hu)
    constructor
    case pulls =>
      rw [hjournal, hgithub]
      exact hq.pulls
    case commit =>
      rw [hjournal]
      exact hq.commit
    case pushed =>
      rw [hjournal, hgithub]
      exact hq.pushed
    case published =>
      rw [hjournal, hgithub]
      exact hq.published

/-- The commit of the journal is pushed. -/
theorem Inv.pushes (hw : Inv p t w) {repository sha branch : String}
    (hjournal : w.undisturbed → ∃ row, w.ledger.publications.find? t = some row ∧
      row.repository = repository ∧ row.taskBranch = branch ∧ row.commitSha = some sha) :
    Inv p t (w.pushes repository sha branch) where
  unique := by
    show ((w.github.moved repository branch sha).pulls.map place).Nodup
    rw [places_moved]
    exact hw.unique
  backed := hw.backed
  quiet hu := by
    have hq := hw.quiet hu
    obtain ⟨row, hrow, hrepo, hbranch, hsha⟩ := hjournal hu
    have honly : ∀ row', w.ledger.publications.find? t = some row' → row' = row :=
      fun row' h => Option.some.inj (h.symm.trans hrow)
    constructor
    case pulls =>
      intro x hx
      obtain ⟨y, hy, rfl⟩ := List.mem_map.mp (show x ∈ w.github.pulls.map _ from hx)
      obtain ⟨row', hrow', hcur⟩ := hq.pulls y hy
      obtain rfl := honly row' hrow'
      refine ⟨row', hrow, ?_⟩
      show Current row' (if _ then _ else _)
      split
      · exact ⟨hcur.place, hsha, hcur.state, hcur.draft⟩
      · exact hcur
    case commit => exact hq.commit
    case pushed =>
      intro row' hrow' _
      obtain rfl := honly row' hrow'
      refine ⟨sha, hsha, ?_⟩
      show (if row'.repository = repository ∧ row'.taskBranch = branch then _ else _) = _
      rw [if_pos ⟨hrepo, hbranch⟩]
    case published =>
      intro row' hrow' hst
      obtain ⟨pr, hpr, hmir⟩ := hq.published row' hrow' hst
      have hmem := List.mem_map_of_mem (f := fun x : String × RemotePullRequest =>
        if x.1 = repository ∧ x.2.headRef = branch ∧ x.2.state = "open" then
          (x.1, { x.2 with headSha := sha }) else x) hpr
      split at hmem
      · exact ⟨_, hmem, ⟨hmir.number, hmir.url, hmir.draft, hmir.author, hmir.state⟩⟩
      · exact ⟨pr, hmem, hmir⟩

/-- A pull request is opened where there is none, from a branch that the journal knows. -/
theorem Inv.opened (hw : Inv p t w) {repository title body head base : String}
    {x : RemotePullRequest × GitHub}
    (hx : w.github.opened repository title body head base = some x)
    (hfree : (repository, head, base) ∉ w.github.pulls.map place)
    (hjournal : w.undisturbed → ∃ row, w.ledger.publications.find? t = some row ∧
      row.repository = repository ∧ row.taskBranch = head ∧ row.baseRef = base ∧
      (row.state = .pushed ∨ row.state = .creating)) :
    Inv p t { w with github := x.2 } := by
  obtain ⟨sha, hsha, rfl⟩ := Option.map_eq_some_iff.mp hx
  constructor
  case unique =>
    show ((w.github.pulls ++ [_]).map place).Nodup
    rw [List.map_append, List.nodup_append]
    refine ⟨hw.unique, List.nodup_singleton _, ?_⟩
    intro a ha b hb hab
    rw [List.map_singleton, List.mem_singleton] at hb
    subst hab hb
    exact hfree ha
  case backed => exact hw.backed
  case quiet =>
    intro hu
    have hq := hw.quiet hu
    obtain ⟨row, hrow, hrepo, hhead, hbase, hst⟩ := hjournal hu
    constructor
    case pulls =>
      intro y hy
      rcases List.mem_append.mp (show y ∈ w.github.pulls ++ [_] from hy) with hy | hy
      · exact hq.pulls y hy
      · rw [List.mem_singleton] at hy
        obtain ⟨c, hc, hbranch⟩ := hq.pushed row hrow hst
        rw [hrepo, hhead] at hbranch
        obtain rfl := Option.some.inj (hbranch.symm.trans hsha)
        refine ⟨row, hrow, ?_⟩
        rw [hy]
        refine ⟨?_, hc, rfl, hu.2⟩
        show (repository, head, base) = _
        rw [hrepo, hhead, hbase]
    case commit => exact hq.commit
    case pushed => exact hq.pushed
    case published =>
      intro row' hrow' hpub
      obtain ⟨pr, hpr, hmir⟩ := hq.published row' hrow' hpub
      exact ⟨pr, List.mem_append_left _ hpr, hmir⟩

theorem Inv.begun {request : PublicationRequest} {commitSha : Option String} {st : PublicationState}
    {r : Except Exn (PublicationRecord × Bool)} (hw : Inv p t w) (ht : request.taskId = t)
    (hst : st = .skipped ∨ st = .pending ∧ commitSha.isSome)
    (h : Begun request commitSha st w r w') : Inv p t w' := by
  cases h with
  | refused e => exact hw
  | found row l hl hrow hid hsha => exact hw.same (by rw [hl]) rfl rfl rfl
  | inserted row l hl hnone htask hid hsha hrowst =>
      subst ht
      have hrow : l.publications.find? request.taskId = some row := by
        rw [hl, if_pos htask]
      have honly : ∀ row', l.publications.find? request.taskId = some row' → row' = row :=
        fun row' h => Option.some.inj (h.symm.trans hrow)
      have hnew : row.state = .skipped ∨ row.state = .pending ∧ row.commitSha.isSome := by
        rw [hrowst, hsha]
        exact hst
      constructor
      case unique => exact hw.unique
      case backed =>
        intro row' hrow' hpub
        obtain rfl := honly row' hrow'
        rcases hnew with hs | ⟨hs, -⟩ <;> rw [hs] at hpub <;> cases hpub
      case quiet =>
        intro hu
        have hq := hw.quiet hu
        constructor
        case pulls =>
          intro x hx
          obtain ⟨row', hrow', -⟩ := hq.pulls x hx
          rw [hnone] at hrow'
          cases hrow'
        case commit =>
          intro row' hrow' hne
          obtain rfl := honly row' hrow'
          rcases hnew with hs | ⟨-, hsome⟩
          · exact absurd hs hne
          · exact Option.isSome_iff_exists.mp hsome
        case pushed =>
          intro row' hrow' hor
          obtain rfl := honly row' hrow'
          rcases hnew with hs | ⟨hs, -⟩ <;> rw [hs] at hor <;> simp at hor
        case published =>
          intro row' hrow' hpub
          obtain rfl := honly row' hrow'
          rcases hnew with hs | ⟨hs, -⟩ <;> rw [hs] at hpub <;> cases hpub

/-- What an update of the row needs. -/
structure Allowed (p : DraftPublisher) (row : PublicationRecord) (patch : Ledger.PublicationPatch)
    (w : World) : Prop where
  backed : patch.state = .published → ∀ now, Backed p (patch.apply now row) w.asked
  mirrored : patch.state = .published → w.undisturbed →
    ∃ pr, (row.repository, pr) ∈ w.github.pulls ∧ ∀ now, Mirrors (patch.apply now row) pr
  commit : w.undisturbed → ∀ sha, patch.commitSha = some sha → row.commitSha = some sha
  known : w.undisturbed → patch.state ≠ .skipped → ∃ sha, row.commitSha = some sha
  pushed : w.undisturbed → patch.state = .pushed ∨ patch.state = .creating →
    ∃ sha, row.commitSha = some sha ∧ w.github.branches row.repository row.taskBranch = some sha

theorem Inv.updated {patch : Ledger.PublicationPatch} {r : Except Exn PublicationRecord}
    (hw : Inv p t w)
    (hallowed : ∀ row, w.ledger.publications.find? t = some row → Allowed p row patch w)
    (h : Updated t patch w r w') : Inv p t w' := by
  cases h with
  | missing e ev hnone =>
      refine ⟨hw.unique, fun row hrow _ => ?_, fun hu => ?_⟩
      · rw [hnone] at hrow
        cases hrow
      · have hq := hw.quiet hu
        exact ⟨hq.pulls, hq.commit, hq.pushed, hq.published⟩
  | patched now row l hrow hl =>
      have hal := hallowed row hrow
      have honly : ∀ row', l.publications.find? t = some row' → row' = patch.apply now row :=
        fun row' h => Option.some.inj (h.symm.trans hl)
      constructor
      case unique => exact hw.unique
      case backed =>
        intro row' hrow' hpub
        obtain rfl := honly row' hrow'
        have hpub : patch.state = .published := hpub
        show Backed p _ (if patch.state = .published then w.asked else w.evidence)
        rw [if_pos hpub]
        exact hal.backed hpub now
      case quiet =>
        intro hu
        have hq := hw.quiet hu
        -- The commit stays what it was.
        have hcommit : (patch.apply now row).commitSha = row.commitSha := by
          show (patch.commitSha <|> row.commitSha) = row.commitSha
          cases hp : patch.commitSha with
          | none => rfl
          | some sha => exact (hal.commit hu sha hp).symm
        constructor
        case pulls =>
          intro x hx
          obtain ⟨row', hrow', hcur⟩ := hq.pulls x hx
          obtain rfl := Option.some.inj (hrow'.symm.trans hrow)
          exact ⟨_, hl, hcur.place, hcommit.trans hcur.commit, hcur.state, hcur.draft⟩
        case commit =>
          intro row' hrow' hne
          obtain rfl := honly row' hrow'
          rw [hcommit]
          exact hal.known hu hne
        case pushed =>
          intro row' hrow' hor
          obtain rfl := honly row' hrow'
          rw [hcommit]
          exact hal.pushed hu hor
        case published =>
          intro row' hrow' hpub
          obtain rfl := honly row' hrow'
          obtain ⟨pr, hpr, hmir⟩ := hal.mirrored hpub hu
          exact ⟨pr, hpr, hmir now⟩

/-! ### Programs -/

/-- The program keeps the invariant at each of its calls, and ends with one of the two. -/
def Safely {α : Type} (p : DraftPublisher) (t : TaskId) (r : Routine α) (post : α → World → Prop)
    (exn : PublisherExn → World → Prop) (w : World) : Prop :=
  ∀ h, Co.Safe (Machine.contract (M := publisher p t) {} (Inv p t) (fun _ => Rely)
    (fun _ _ _ => True) ()) r (fun a s => post a s.1) (fun e s => exn e s.1) (w, h)

section

variable {α β : Type} {post : α → World → Prop} {exn : PublisherExn → World → Prop}

theorem safely_pure {a : α} (h : post a w) : Safely p t (pure a) post exn w := fun _ => h

theorem safely_throw {e : PublisherExn} (h : exn e w) :
    Safely p t (throw e : Routine α) post exn w := fun _ => h

theorem Safely.mono {r : Routine α} {post' : α → World → Prop} {exn' : PublisherExn → World → Prop}
    (h : Safely p t r post exn w) (hpost : ∀ a w, post a w → post' a w)
    (hexn : ∀ e w, exn e w → exn' e w) : Safely p t r post' exn' w :=
  fun hist => (h hist).mono (fun a s => hpost a s.1) fun e s => hexn e s.1

theorem Safely.bind {r : Routine α} {f : α → Routine β} {post : β → World → Prop}
    (h : Safely p t r (fun a w => Safely p t (f a) post exn w) exn w) :
    Safely p t (r >>= f) post exn w := by
  intro hist
  exact Co.Safe.bind ((h hist).mono (fun a s hs => hs s.2) fun _ _ he => he)

theorem Safely.seq {r : Routine α} {f : α → Routine β} {Q : α → World → Prop}
    {post : β → World → Prop} (h : Safely p t r Q exn w)
    (hf : ∀ a w, Q a w → Safely p t (f a) post exn w) : Safely p t (r >>= f) post exn w :=
  Safely.bind (h.mono hf fun _ _ he => he)

theorem Safely.tryCatch {r : Routine α} {f : PublisherExn → Routine α}
    (h : Safely p t r post (fun e w => Safely p t (f e) post exn w) w) :
    Safely p t (tryCatch r f) post exn w := by
  intro hist
  exact Co.Safe.tryCatch ((h hist).mono (fun _ _ ha => ha) fun e s he => he s.2)

theorem Safely.attempt {r : Routine α} {post : Except PublisherExn α → World → Prop}
    (h : Safely p t r (fun a w => post (.ok a) w) (fun e w => post (.error e) w) w) :
    Safely p t (Co.attempt r) post exn w :=
  fun hist => Co.Safe.attempt (h hist)

/-- The rule of a call: the others act, and then the call is answered. -/
theorem safely_call {ε : Type} {c : Call} {h : c.Out = Except ε α} {raised : ε → PublisherExn}
    (hcall : ∀ w₁, Inv p t w₁ → Rely w w₁ → ∀ o r w₂, World.answer o c w₁ = some (r, w₂) →
      Inv p t w₂ ∧ match cast h r with
        | .ok a => post a w₂
        | .error e => exn (raised e) w₂) :
    Safely p t (call c h raised) post exn w := by
  intro hist
  show Prog.Safe _ (Prog.call c _) _ _
  rintro ⟨w₁, h₁⟩ hinv ⟨hrely, rfl⟩ r ⟨w₂, h₂⟩ ⟨-, ⟨o, ho⟩, rfl⟩
  obtain ⟨hinv₂, hend⟩ := hcall w₁ hinv hrely o r w₂ ho
  refine ⟨hinv₂, ⟨trivial, Machine.Cond.last_trivial () _⟩, ?_⟩
  show Prog.Safe _ (Prog.ret ((cast h r).mapError raised)) _ _
  cases hr : cast h r with
  | ok a =>
      rw [hr] at hend
      exact hend
  | error e =>
      rw [hr] at hend
      exact hend

end

/-! ### Single calls -/

/-- Nothing but exchanges lies between the two worlds. -/
structure After (w w' : World) : Prop where
  ledger : w'.ledger = w.ledger
  asked : w.asked <:+ w'.asked
  places : w'.github.pulls.map place = w.github.pulls.map place
  still : w'.undisturbed → w.undisturbed ∧ w'.github = w.github

theorem After.refl (w : World) : After w w := ⟨rfl, List.suffix_refl _, rfl, fun h => ⟨h, rfl⟩⟩

theorem After.trans {a b c : World} (h : After a b) (h' : After b c) : After a c := by
  refine ⟨h'.ledger.trans h.ledger, h.asked.trans h'.asked, h'.places.trans h.places, fun hu => ?_⟩
  obtain ⟨hb, hg⟩ := h'.still hu
  obtain ⟨ha, hg'⟩ := h.still hb
  exact ⟨ha, hg.trans hg'⟩

theorem Rely.after (h : Rely w w') : After w w' := by
  refine ⟨h.ledger, h.asked ▸ List.suffix_refl _, h.places, fun hu => ?_⟩
  have heq := h.still hu
  rw [heq] at hu ⊢
  exact ⟨hu, rfl⟩

theorem after_ask (w : World) (e : Exchange) : After w (w.ask e) :=
  ⟨rfl, List.suffix_cons _ _, rfl, fun h => ⟨h, rfl⟩⟩

theorem Inv.ask (hw : Inv p t w) (e : Exchange) : Inv p t (w.ask e) := hw.same rfl rfl rfl rfl

theorem safely_getPublication (w : World) :
    Safely p t (getPublication t)
      (fun r w' => After w w' ∧ r = w'.ledger.publications.find? t) (fun _ _ => True) w := by
  apply safely_call
  intro w₁ hinv hrely o r w₂ ho
  simp only [World.answer] at ho
  split at ho <;> obtain ⟨rfl, rfl⟩ := Prod.mk.inj (Option.some.inj ho)
  · exact ⟨hinv, hrely.after, rfl⟩
  · exact ⟨hinv, trivial⟩

theorem safely_ensureDurable (w : World) :
    Safely p t ensureDurable (fun _ w' => After w w' ∧ .durable ∈ w'.asked)
      (fun e w' => After w w' ∧ ∀ s, e ≠ .uncertain s) w := by
  apply safely_call
  intro w₁ hinv hrely o r w₂ ho
  simp only [World.answer] at ho
  split at ho <;> obtain ⟨rfl, rfl⟩ := Prod.mk.inj (Option.some.inj ho)
  · exact ⟨hinv.ask _, hrely.after.trans (after_ask _ _), List.mem_cons_self⟩
  · exact ⟨hinv, hrely.after, fun _ h => by cases h⟩
  · exact ⟨hinv, hrely.after, fun _ h => by cases h⟩

theorem safely_getBranchSha (w : World) (repository branch : String)
    (raised : GitHubFailure → PublisherExn) (hraised : ∀ e s, raised e ≠ .uncertain s) :
    Safely p t (call (.getBranchSha repository branch) rfl raised)
      (fun sha w' => After w w' ∧ .branch repository branch sha ∈ w'.asked ∧
        (w'.undisturbed → w'.github.branches repository branch = sha))
      (fun e w' => After w w' ∧ ∀ s, e ≠ .uncertain s) w := by
  apply safely_call
  intro w₁ hinv hrely o r w₂ ho
  simp only [World.answer] at ho
  split at ho <;> obtain ⟨rfl, rfl⟩ := Prod.mk.inj (Option.some.inj ho)
  · exact ⟨hinv.ask _, hrely.after.trans (after_ask _ _), List.mem_cons_self, fun _ => rfl⟩
  · exact ⟨hinv, hrely.after, hraised _⟩
  · exact ⟨hinv, hrely.after, hraised _⟩

/-- What a listing tells. -/
structure Listed (request : PublicationRequest) (prs : List RemotePullRequest) (w w' : World) :
    Prop where
  after : After w w'
  asked : ∃ rest, w'.asked = .listed request.repository request.taskBranch request.baseRef prs :: rest ∧
    w.asked <:+ rest
  none_of_nil : prs = [] →
    (request.repository, request.taskBranch, request.baseRef) ∉ w'.github.pulls.map place
  present : w'.undisturbed → ∀ pr ∈ prs, (request.repository, pr) ∈ w'.github.pulls

theorem mem_listed {g : GitHub} {r h b : String} {pr : RemotePullRequest} :
    pr ∈ g.listed r h b ↔ (r, pr) ∈ g.pulls ∧ pr.headRef = h ∧ pr.baseRef = b := by
  simp only [GitHub.listed, List.mem_map, List.mem_filter, decide_eq_true_eq]
  constructor
  · rintro ⟨⟨r', pr'⟩, ⟨hx, rfl, rfl, rfl⟩, rfl⟩
    exact ⟨hx, rfl, rfl⟩
  · rintro ⟨hx, rfl, rfl⟩
    exact ⟨(r, pr), ⟨hx, rfl, rfl, rfl⟩, rfl⟩

theorem safely_headBasePullRequests (w : World) (request : PublicationRequest) :
    Safely p t (p.headBasePullRequests request) (fun prs w' => Listed request prs w w')
      (fun _ w' => After w w') w := by
  apply safely_call
  intro w₁ hinv hrely o r w₂ ho
  simp only [World.answer] at ho
  split at ho <;> obtain ⟨rfl, rfl⟩ := Prod.mk.inj (Option.some.inj ho)
  · refine ⟨hinv.ask _, hrely.after.trans (after_ask _ _), ⟨w₁.asked, rfl, hrely.asked ▸ List.suffix_refl _⟩,
      fun hnil hmem => ?_, fun _ pr hpr => (mem_listed.mp hpr).1⟩
    obtain ⟨⟨r, pr⟩, hx, hplace⟩ := List.mem_map.mp hmem
    obtain ⟨hr, hplace⟩ := Prod.mk.inj hplace
    obtain ⟨hh, hb⟩ := Prod.mk.inj hplace
    have hpr : pr ∈ w₁.github.listed request.repository request.taskBranch request.baseRef :=
      mem_listed.mpr ⟨hr ▸ hx, hh, hb⟩
    rw [hnil] at hpr
    cases hpr
  · exact ⟨hinv, hrely.after⟩
  · exact ⟨hinv, hrely.after⟩

theorem safely_matchingPullRequests (w : World) (request : PublicationRequest) :
    Safely p t (p.matchingPullRequests request)
      (fun m w' => ∃ prs, m = prs.filter (p.marked request.taskMarker) ∧ Listed request prs w w')
      (fun _ w' => After w w') w :=
  Safely.bind ((safely_headBasePullRequests w request).mono
    (fun prs _ h => safely_pure ⟨prs, rfl, h⟩) fun _ _ h => h)

/-- The journal has the row, with the identity of the request and, if nobody else has
interfered, the commit. -/
structure Held (request : PublicationRequest) (sha : String) (row : PublicationRecord) (w : World) :
    Prop where
  journal : w.ledger.publications.find? request.taskId = some row
  identity : Identity request row
  commit : w.undisturbed → row.commitSha = some sha

theorem Held.after {request : PublicationRequest} {sha : String} {row : PublicationRecord}
    (h : Held request sha row w) (ha : After w w') : Held request sha row w' where
  journal := by
    rw [ha.ledger]
    exact h.journal
  identity := h.identity
  commit hu := h.commit (ha.still hu).1

/-- The journal has no row that is skipped. -/
def Open (request : PublicationRequest) (w : World) : Prop :=
  ∀ row, w.ledger.publications.find? request.taskId = some row → row.state ≠ .skipped

theorem Open.after {request : PublicationRequest} (h : Open request w) (ha : After w w') :
    Open request w' := by
  intro row hrow
  rw [ha.ledger] at hrow
  exact h row hrow

/-- Persist the identity of the publication with its commit. -/
theorem safely_beginPublication {request : PublicationRequest} {sha : String}
    (ht : request.taskId = t) (hopen : Open request w) :
    Safely p t (beginPublication request (some sha) .pending none)
      (fun r w' => Held request sha r.1 w' ∧ r.1.state ≠ .skipped ∧ w'.asked = w.asked ∧
        (w'.undisturbed → w.undisturbed ∧ w'.github = w.github)) (fun _ _ => True) w := by
  apply safely_call
  intro w₁ hinv hrely o r w₂ ho
  have hafter := hrely.after
  simp only [World.answer] at ho
  split at ho
  next =>
    have hb := begins_begun o.clock request (some sha) .pending none w₁
    rw [Option.some.inj ho] at hb
    have hinv₂ := hinv.begun ht (.inr ⟨rfl, rfl⟩) hb
    refine ⟨hinv₂, ?_⟩
    cases hb with
    | refused e => trivial
    | found row l hl hrow hid hsha =>
        have hne := hopen.after hafter row hrow
        refine ⟨⟨by rw [hl]; exact hrow, hid, fun hu => ?_⟩, hne, hrely.asked,
          fun hu => hafter.still hu⟩
        obtain ⟨c, hc⟩ := (hinv.quiet hu).commit row (ht ▸ hrow) hne
        rw [hc, hsha c sha hc rfl]
    | inserted row l hl hnone htask hid hsha hst =>
        exact ⟨⟨by rw [hl, if_pos htask], hid, fun _ => hsha⟩, (by rw [hst]; intro h; cases h), hrely.asked,
          fun hu => hafter.still hu⟩
  next =>
    obtain ⟨rfl, rfl⟩ := Prod.mk.inj (Option.some.inj ho)
    exact ⟨hinv, trivial⟩

/-- An update of the row that the invariant allows. -/
theorem safely_updatePublication {request : PublicationRequest} {sha : String}
    {row : PublicationRecord} {patch : Ledger.PublicationPatch} (ht : request.taskId = t)
    (hheld : Held request sha row w)
    (hallowed : ∀ w', Inv p t w' → Rely w w' → Allowed p row patch w') :
    Safely p t (updatePublication request.taskId patch)
      (fun r w' => ∃ now, r = patch.apply now row ∧
        w'.ledger.publications.find? request.taskId = some r ∧ w'.asked = w.asked ∧
        (w'.undisturbed → w.undisturbed ∧ w'.github = w.github))
      (fun e w' => After w w' ∧ ∀ s, e ≠ .uncertain s) w := by
  apply safely_call
  intro w₁ hinv hrely o r w₂ ho
  have hheld₁ := hheld.after hrely.after
  simp only [World.answer] at ho
  split at ho
  next =>
    have hup := updates_updated o.clock request.taskId patch w₁
    rw [Option.some.inj ho] at hup
    have hinv₂ : Inv p t w₂ := by
      refine Inv.updated hinv (fun row' hrow' => ?_) (ht ▸ hup)
      rw [← ht] at hrow'
      obtain rfl := Option.some.inj (hheld₁.journal.symm.trans hrow')
      exact hallowed w₁ hinv hrely
    refine ⟨hinv₂, ?_⟩
    cases hup with
    | missing e ev hnone =>
        rw [hheld₁.journal] at hnone
        cases hnone
    | patched now row' l hrow hl =>
        obtain rfl := Option.some.inj (hheld₁.journal.symm.trans hrow)
        exact ⟨now, rfl, hl, hrely.asked, fun hu => hrely.after.still hu⟩
  next =>
    obtain ⟨rfl, rfl⟩ := Prod.mk.inj (Option.some.inj ho)
    exact ⟨hinv, hrely.after, fun _ h => by cases h⟩

/-- Git commands that concern the clone only. -/
theorem safely_git {α : Type} {r : Routine α}
    (hr : Co.Makes (fun c => ∃ repo args, c = .git repo args) r) (w : World) :
    Safely p t r (fun _ w' => After w w') (fun _ w' => After w w') w := by
  intro hist
  refine Co.Safe.of_makes (A := fun (s : World × List (Entry Call.Out World)) => After w s.1) hr ?_ ?_ (After.refl w)
  · intro s s' ha hrely
    exact ha.trans hrely.1.after
  · rintro c ⟨w₁, h₁⟩ r ⟨w₂, h₂⟩ ⟨repo, args, rfl⟩ ha hinv ⟨-, ⟨o, ho⟩, rfl⟩
    have heq : w₂ = w₁ := by
      have ho : World.answer o (.git repo args) w₁ = some (r, w₂) := ho
      simp only [World.answer] at ho
      split at ho <;> exact (Prod.mk.inj (Option.some.inj ho)).2.symm
    subst heq
    exact ⟨hinv, ⟨trivial, Machine.Cond.last_trivial () _⟩, ha⟩

theorem makes_runGit (repo : RepoDir) (args : List String) :
    Co.Makes (fun c => ∃ repo args, c = .git repo args) (p.runGit repo args) := by
  unfold DraftPublisher.runGit
  split
  · trivial
  · exact ⟨⟨repo, args, rfl⟩, fun _ => trivial⟩

theorem makes_commitTaskBranch (request : PublicationRequest) (repo : RepoDir) :
    Co.Makes (fun c => ∃ repo args, c = .git repo args) (p.commitTaskBranch request repo) := by
  unfold DraftPublisher.commitTaskBranch
  refine (makes_runGit _ _).bind fun branch => ?_
  have hrest : Co.Makes (fun c => ∃ repo args, c = .git repo args) (do
      let sha ← p.runGit repo ["git", "rev-parse", "HEAD"]
      if sha = request.baseSha then
        throw (PublisherExn.publication "no commit to publish on the task branch")
      else pure sha) := by
    refine (makes_runGit _ _).bind fun sha => ?_
    split <;> trivial
  have hcommit : Co.Makes (fun c => ∃ repo args, c = .git repo args) (do
      let _ ← p.runGit repo ["git", "add", "-A"]
      let status ← p.runGit repo ["git", "status", "--porcelain"]
      if status ≠ "" then
        let message := "gg-task " ++ p.idText request.taskId ++ "\n\n" ++
          p.markerToken request.taskMarker ++ "\n"
        let _ ← p.runGit repo ["git", "-c", "commit.gpgsign=false", "commit", "-m", message]
      let sha ← p.runGit repo ["git", "rev-parse", "HEAD"]
      if sha = request.baseSha then
        throw (PublisherExn.publication "no commit to publish on the task branch")
      else pure sha) := by
    refine (makes_runGit _ _).bind fun _ => (makes_runGit _ _).bind fun status => ?_
    split
    · exact (makes_runGit _ _).bind fun _ => hrest
    · exact hrest
  split
  · exact (makes_runGit _ _).bind fun _ => hcommit
  · exact hcommit

theorem safely_assertOriginHasNoSecret (repo : RepoDir) (w : World) :
    Safely p t (p.assertOriginHasNoSecret repo) (fun _ w' => After w w')
      (fun e w' => After w w' ∧ ∀ s, e ≠ .uncertain s) w := by
  have hgit : ∀ (args : List String) (w : World) (exn : PublisherExn → World → Prop),
      Safely p t (Co.attempt (p.runGit repo args)) (fun _ w' => After w w') exn w :=
    fun args w _ => Safely.attempt (safely_git (makes_runGit repo args) w)
  unfold DraftPublisher.assertOriginHasNoSecret
  refine Safely.seq (hgit _ w _) fun shown w₁ hafter => ?_
  dsimp only
  split
  · exact safely_throw ⟨hafter, fun _ h => by cases h⟩
  · split
    · exact Safely.seq (hgit _ w₁ _) fun _ w₂ hafter₂ => safely_pure (hafter.trans hafter₂)
    · exact safely_pure hafter

/-! ### The parts of an attempt -/

theorem safely_lsRemote (w : World) (repo : RepoDir) (branch : String)
    (raised : String → PublisherExn) (hraised : ∀ e s, raised e ≠ .uncertain s) :
    Safely p t (call (.lsRemote repo branch) rfl raised)
      (fun sha w' => After w w' ∧ (w'.undisturbed → w'.github.branches repo.origin branch = sha))
      (fun e w' => After w w' ∧ ∀ s, e ≠ .uncertain s) w := by
  apply safely_call
  intro w₁ hinv hrely o r w₂ ho
  simp only [World.answer] at ho
  split at ho <;> obtain ⟨rfl, rfl⟩ := Prod.mk.inj (Option.some.inj ho)
  · exact ⟨hinv, hrely.after, fun _ => rfl⟩
  · exact ⟨hinv, hrely.after, hraised _⟩
  · exact ⟨hinv, hrely.after, hraised _⟩

section

variable {request : PublicationRequest} {sha : String} {row : PublicationRecord} {repo : RepoDir}

theorem Held.pushes (h : Held request sha row w) (repository branch : String) :
    Held request sha row (w.pushes repository sha branch) := ⟨h.journal, h.identity, h.commit⟩

theorem safely_push (ht : request.taskId = t) (hheld : Held request sha row w)
    (horigin : repo.origin = request.repository) (raised : String → PublisherExn)
    (hraised : ∀ e s, raised e ≠ .uncertain s) :
    Safely p t (call (.push repo sha request.taskBranch) rfl raised)
      (fun _ w' => Held request sha row w' ∧
        w'.github.branches request.repository request.taskBranch = some sha)
      (fun e w' => Held request sha row w' ∧ ∀ s, e ≠ .uncertain s) w := by
  apply safely_call
  intro w₁ hinv hrely o r w₂ ho
  have hheld₁ := hheld.after hrely.after
  have hpushed : Inv p t (w₁.pushes repo.origin sha request.taskBranch) := by
    apply hinv.pushes
    intro hu
    exact ⟨row, ht ▸ hheld₁.journal, by rw [hheld₁.identity.repository, horigin],
      hheld₁.identity.taskBranch, hheld₁.commit hu⟩
  have hat : (w₁.pushes repo.origin sha request.taskBranch).github.branches request.repository
      request.taskBranch = some sha := by
    show (if request.repository = repo.origin ∧ request.taskBranch = request.taskBranch then _
      else _) = _
    rw [if_pos ⟨horigin.symm, rfl⟩]
  simp only [World.answer] at ho
  split at ho <;> obtain ⟨rfl, rfl⟩ := Prod.mk.inj (Option.some.inj ho)
  · exact ⟨hpushed, hheld₁.pushes _ _, hat⟩
  · split
    · exact ⟨hpushed, hheld₁.pushes _ _, hraised _⟩
    · exact ⟨hinv, hheld₁, hraised _⟩
  · split
    · exact ⟨hpushed, hheld₁.pushes _ _, hraised _⟩
    · exact ⟨hinv, hheld₁, hraised _⟩

/-- After the push the branch is at the commit. -/
theorem safely_pushBranch (ht : request.taskId = t) (hheld : Held request sha row w)
    (horigin : repo.origin = request.repository) :
    Safely p t (p.pushBranch request repo sha)
      (fun _ w' => Held request sha row w' ∧ (w'.undisturbed →
        w'.github.branches request.repository request.taskBranch = some sha))
      (fun e w' => Held request sha row w' ∧ ∀ s, e ≠ .uncertain s) w := by
  unfold DraftPublisher.pushBranch
  refine Safely.bind ((safely_lsRemote w repo request.taskBranch _
    (by intros; intro h; cases h)).mono ?_
    fun e w₁ h => ⟨hheld.after h.1, h.2⟩)
  rintro remoteSha w₁ ⟨hafter₁, hremote⟩
  refine Safely.bind ((safely_getBranchSha w₁ request.repository request.taskBranch _
    (by intros; intro h; cases h)).mono ?_ fun e w₂ h => ⟨hheld.after (hafter₁.trans h.1), h.2⟩)
  rintro apiSha w₂ ⟨hafter₂, -, hapi⟩
  have hheld₂ := hheld.after (hafter₁.trans hafter₂)
  have hend : Safely p t (do
      if (remoteSha.filter (· ≠ "") <|> apiSha) = some sha then pure ()
      else do
        let _ ← call (.push repo sha request.taskBranch) rfl
          fun detail => PublisherExn.publication ("git push failed: " ++ p.redact detail)
        p.assertOriginHasNoSecret repo)
      (fun _ w' => Held request sha row w' ∧ (w'.undisturbed →
        w'.github.branches request.repository request.taskBranch = some sha))
      (fun e w' => Held request sha row w' ∧ ∀ s, e ≠ .uncertain s) w₂ := by
    split
    next hexisting =>
      refine safely_pure ⟨hheld₂, fun hu => ?_⟩
      -- Both answers were the head of the branch, which has not moved since.
      have hremote₂ := hremote (hafter₂.still hu).1
      rw [← (hafter₂.still hu).2, horigin] at hremote₂
      cases hfilter : remoteSha.filter (· ≠ "") with
      | none =>
          rw [hfilter] at hexisting
          exact (hapi hu).trans hexisting
      | some c =>
          rw [hfilter] at hexisting
          have hc : remoteSha = some c := (Option.filter_eq_some_iff.mp hfilter).1
          exact hremote₂.trans (hc.trans hexisting)
    next =>
      refine Safely.bind ((safely_push ht hheld₂ horigin _ (by intros; intro h; cases h)).mono ?_
        fun _ _ h => h)
      rintro - w₃ ⟨hheld₃, hat⟩
      refine (safely_assertOriginHasNoSecret repo w₃).mono ?_ ?_
      · intro _ w₄ hafter
        exact ⟨hheld₃.after hafter, fun hu => by rw [(hafter.still hu).2]; exact hat⟩
      · rintro e w₄ ⟨hafter, hne⟩
        exact ⟨hheld₃.after hafter, hne⟩
  dsimp only
  split
  · exact safely_throw ⟨hheld₂, fun _ h => by cases h⟩
  · split
    · exact safely_throw ⟨hheld₂, fun _ h => by cases h⟩
    · exact hend

/-- A pull request that the publisher has got from GitHub and may record. -/
structure Found (p : DraftPublisher) (request : PublicationRequest) (sha : String)
    (pr : RemotePullRequest) (w : World) : Prop where
  backed : ∀ row, Identity request row → row.commitSha = some sha → Mirrors row pr →
    Backed p row w.asked
  present : w.undisturbed → (request.repository, pr) ∈ w.github.pulls

/-- The only pull request of a listing with the marker, in an attempt with a durable journal. -/
theorem Listed.found {prs : List RemotePullRequest} {pr : RemotePullRequest}
    (h : Listed request prs w w') (hm : prs.filter (p.marked request.taskMarker) = [pr])
    (hdurable : .durable ∈ w.asked) : Found p request sha pr w' := by
  obtain ⟨rest, hasked, hsuffix⟩ := h.asked
  have hpr : pr ∈ prs := by
    have hmem : pr ∈ prs.filter (p.marked request.taskMarker) := by simp [hm]
    exact List.mem_of_mem_filter hmem
  refine ⟨fun row hid _ hmir => ?_, fun hu => h.present hu pr hpr⟩
  rw [hasked]
  refine ⟨hid.repository.symm, hid.taskBranch.symm, hid.baseRef.symm, pr, ?_, hmir, ?_⟩
  · rw [hid.taskMarker]
    exact hm
  · exact fun hnot => absurd (hsuffix.subset hdurable) hnot

/-- A pull request that the publisher opens has the marker of the task. -/
theorem marked_prBody (pr : RemotePullRequest) (hbody : pr.body = p.prBody request sha) :
    p.marked request.taskMarker pr = true := by
  have hinfix : (p.markerToken request.taskMarker).toList <:+: pr.body.toList := by
    rw [hbody, DraftPublisher.prBody, String.toList_append, String.toList_append,
      String.toList_append]
    exact (List.infix_append _ _ _).trans (List.prefix_append _ _).isInfix
  unfold DraftPublisher.marked
  rw [decide_eq_true hinfix, Bool.true_or]

theorem safely_createDraftPullRequest {title body : String}
    {exn : PublisherExn → World → Prop} (ht : request.taskId = t) (hheld : Held request sha row w)
    (hst : row.state = .creating) (hdurable : .durable ∈ w.asked)
    (hfree : (request.repository, request.taskBranch, request.baseRef) ∉
      w.github.pulls.map place) :
    Safely p t (ExceptT.mk (Prog.call (Call.createDraftPullRequest request.repository title body
        request.taskBranch request.baseRef) fun r => .ret (.ok r)))
      (fun r w' => Held request sha row w' ∧ .durable ∈ w'.asked ∧
        ∀ pr, r = .ok pr → pr.draft = true → Found p request sha pr w') exn w := by
  intro hist
  show Prog.Safe _ (Prog.call _ _) _ _
  rintro ⟨w₁, h₁⟩ hinv ⟨hrely, rfl⟩ r ⟨w₂, h₂⟩ ⟨-, ⟨o, ho⟩, rfl⟩
  have hrely : Rely w w₁ := hrely
  have hinv : Inv p t w₁ := hinv
  have ho : World.answer o _ w₁ = some (r, w₂) := ho
  have hheld₁ := hheld.after hrely.after
  have hdurable₁ : .durable ∈ w₁.asked := hrely.asked ▸ hdurable
  have hopened : ∀ x, w₁.github.opened request.repository title body request.taskBranch
      request.baseRef = some x → Inv p t { w₁ with github := x.2 } := by
    intro x hx
    apply hinv.opened hx
    · rw [hrely.places]
      exact hfree
    · exact fun _ => ⟨row, ht ▸ hheld₁.journal, hheld₁.identity.repository,
        hheld₁.identity.taskBranch, hheld₁.identity.baseRef, .inr hst⟩
  -- A request that arrives leaves the journal alone.
  have hcreates : Inv p t (w₁.creates request.repository title body request.taskBranch
        request.baseRef) ∧
      Held request sha row (w₁.creates request.repository title body request.taskBranch
        request.baseRef) ∧
      .durable ∈ (w₁.creates request.repository title body request.taskBranch
        request.baseRef).asked := by
    unfold World.creates
    split
    next x hx =>
      obtain ⟨c, hc, rfl⟩ := Option.map_eq_some_iff.mp hx
      exact ⟨hopened _ hx, ⟨hheld₁.journal, hheld₁.identity, hheld₁.commit⟩, hdurable₁⟩
    next => exact ⟨hinv, hheld₁, hdurable₁⟩
  have hlost : ∀ effect : Bool, Inv p t (if effect then w₁.creates request.repository title body
        request.taskBranch request.baseRef else w₁) ∧
      Held request sha row (if effect then w₁.creates request.repository title body
        request.taskBranch request.baseRef else w₁) ∧
      .durable ∈ (if effect then w₁.creates request.repository title body
        request.taskBranch request.baseRef else w₁).asked := by
    intro effect
    cases effect with
    | true => exact hcreates
    | false => exact ⟨hinv, hheld₁, hdurable₁⟩
  have hend : Inv p t w₂ ∧ Held request sha row w₂ ∧ .durable ∈ w₂.asked ∧
      ∀ pr, r = .ok pr → pr.draft = true → Found p request sha pr w₂ := by
    simp only [World.answer] at ho
    split at ho
    next =>
      split at ho
      next x hx =>
        obtain ⟨rfl, rfl⟩ := Prod.mk.inj (Option.some.inj ho)
        have hinv₂ : Inv p t { w₁ with
            github := x.2, asked := .made request.repository x.1 :: w₁.asked } :=
          (hopened x hx).same rfl rfl rfl rfl
        obtain ⟨c, hc, rfl⟩ := Option.map_eq_some_iff.mp hx
        refine ⟨hinv₂, ⟨hheld₁.journal, hheld₁.identity, hheld₁.commit⟩,
          List.mem_cons_of_mem _ hdurable₁, ?_⟩
        rintro pr hpr hdraft
        obtain rfl := Except.ok.inj hpr
        refine ⟨fun row' hid _ hmir => ?_, fun _ => ?_⟩
        · exact ⟨hid.repository.symm, hid.taskBranch.symm, hid.baseRef.symm, hdraft, hmir⟩
        · exact List.mem_append_right _ (List.mem_singleton.mpr rfl)
      next =>
        obtain ⟨rfl, rfl⟩ := Prod.mk.inj (Option.some.inj ho)
        exact ⟨hinv, hheld₁, hdurable₁, fun _ h => (by cases h)⟩
    next s effect _ =>
      obtain ⟨rfl, rfl⟩ := Prod.mk.inj (Option.some.inj ho)
      obtain ⟨hi, hh, hd⟩ := hlost effect
      exact ⟨hi, hh, hd, fun _ h => (by cases h)⟩
    next s effect _ =>
      obtain ⟨rfl, rfl⟩ := Prod.mk.inj (Option.some.inj ho)
      obtain ⟨hi, hh, hd⟩ := hlost effect
      exact ⟨hi, hh, hd, fun _ h => (by cases h)⟩
  exact ⟨hend.1, ⟨trivial, Machine.Cond.last_trivial () _⟩, hend.2⟩

theorem safely_reconcileOrCreate (ht : request.taskId = t) (hheld : Held request sha row w)
    (hst : row.state = .creating) (hdurable : .durable ∈ w.asked) :
    Safely p t (p.reconcileOrCreate request sha)
      (fun pr w' => Held request sha row w' ∧ Found p request sha pr w')
      (fun _ w' => Held request sha row w') w := by
  unfold DraftPublisher.reconcileOrCreate
  refine Safely.bind ((safely_matchingPullRequests w request).mono ?_
    fun _ _ h => hheld.after h)
  rintro m w₁ ⟨prs, hm, hlisted⟩
  have hheld₁ := hheld.after hlisted.after
  have hdurable₁ := hlisted.after.asked.subset hdurable
  split
  next pr => exact safely_pure ⟨hheld₁, hlisted.found hm.symm hdurable⟩
  next => exact safely_throw hheld₁
  next =>
    refine Safely.bind ((safely_headBasePullRequests w₁ request).mono ?_
      fun _ _ h => hheld₁.after h)
    intro others w₂ hlisted₂
    have hheld₂ := hheld₁.after hlisted₂.after
    have hdurable₂ := hlisted₂.after.asked.subset hdurable₁
    split
    next => exact safely_throw hheld₂
    next hnil =>
      have hfree := hlisted₂.none_of_nil (by simpa using hnil)
      refine Safely.seq (safely_createDraftPullRequest ht hheld₂ hst hdurable₂ hfree) ?_
      rintro made w₃ ⟨hheld₃, hdurable₃, hmade⟩
      -- What is listed after a lost answer.
      have hrecover : ∀ (f : List RemotePullRequest → Routine RemotePullRequest),
          (∀ m w₄, Held request sha row w₄ →
            (∀ pr, m = [pr] → Found p request sha pr w₄) → Safely p t (f m)
              (fun pr w' => Held request sha row w' ∧ Found p request sha pr w')
              (fun _ w' => Held request sha row w') w₄) →
          Safely p t (p.matchingPullRequests request >>= f)
            (fun pr w' => Held request sha row w' ∧ Found p request sha pr w')
            (fun _ w' => Held request sha row w') w₃ := by
        intro f hf
        refine Safely.bind ((safely_matchingPullRequests w₃ request).mono ?_
          fun _ _ h => hheld₃.after h)
        rintro m w₄ ⟨prs, hm, hlisted⟩
        exact hf m w₄ (hheld₃.after hlisted.after) fun pr hpr =>
          hlisted.found (hm.symm.trans hpr) hdurable₃
      split
      next =>
        apply hrecover
        intro m w₄ hheld₄ hfound
        split
        next pr => exact safely_pure ⟨hheld₄, hfound pr rfl⟩
        next => exact safely_throw hheld₄
        next => exact safely_throw hheld₄
      next =>
        apply hrecover
        intro m w₄ hheld₄ hfound
        split
        next pr => exact safely_pure ⟨hheld₄, hfound pr rfl⟩
        next => exact safely_throw hheld₄
      next created =>
        split
        next hdraft => exact safely_pure ⟨hheld₃, hmade created rfl hdraft⟩
        next => exact safely_throw hheld₃

theorem safely_recordPublished {pr : RemotePullRequest} (ht : request.taskId = t)
    (hheld : Held request sha row w) (hfound : Found p request sha pr w) :
    Safely p t (recordPublished request pr sha) (fun _ _ => True)
      (fun e w' => After w w' ∧ ∀ s, e ≠ .uncertain s) w := by
  refine (safely_updatePublication ht hheld ?_).mono (fun _ _ _ => trivial) fun _ _ h => h
  intro w₁ _ hrely
  have hmirrors : ∀ now, Mirrors (Ledger.PublicationPatch.apply
      { state := .published, commitSha := some sha, prNumber := some pr.number,
        prUrl := some pr.htmlUrl, prDraft := some pr.draft, prAuthor := some pr.author,
        prState := some pr.state, detail := some (publishedOutcomeDetail request),
        checkStatus := some request.checkOutcome.value,
        outcomeDetail := some (publishedOutcomeDetail request),
        checkOutcome := some request.checkOutcome,
        agentOutcome := some request.agentOutcome } now row) pr :=
    fun _ => ⟨rfl, rfl, rfl, rfl, rfl⟩
  have hheld₁ := hheld.after hrely.after
  constructor
  case backed =>
    intro _ now
    rw [hrely.asked]
    exact hfound.backed _ ⟨hheld.identity.repository, hheld.identity.taskBranch,
      hheld.identity.baseRef, hheld.identity.taskMarker⟩ rfl (hmirrors now)
  case mirrored =>
    intro _ hu
    obtain ⟨hu', hg⟩ := hrely.after.still hu
    exact ⟨pr, by rw [hg, hheld.identity.repository]; exact hfound.present hu', hmirrors⟩
  case commit =>
    intro hu sha' hsha
    obtain rfl := Option.some.inj hsha
    exact hheld₁.commit hu
  case known => exact fun hu _ => ⟨sha, hheld₁.commit hu⟩
  case pushed => exact fun _ h => by rcases h with h | h <;> cases h

theorem safely_assertNotBaseBranch :
    Safely p t (assertNotBaseBranch request) (fun _ w' => w' = w) (fun _ w' => w' = w) w := by
  unfold assertNotBaseBranch
  split
  · exact safely_throw rfl
  · split
    · exact safely_throw rfl
    · split
      · exact safely_throw rfl
      · exact safely_pure rfl

/-- A pull request is adopted only if it is open and its head is the commit. -/
theorem safely_adoptExisting (ht : request.taskId = t) (hopen : Open request w) :
    Safely p t (p.adoptExisting request) (fun r w' => r = none → After w w') (fun _ _ => True) w := by
  unfold DraftPublisher.adoptExisting
  split
  next headSha _ _ =>
    refine Safely.bind (safely_assertNotBaseBranch.mono ?_ fun _ _ _ => trivial)
    rintro - w₀ rfl
    refine Safely.bind ((safely_getBranchSha w₀ request.repository request.taskBranch _
      (by intros; intro h; cases h)).mono ?_ fun _ _ _ => trivial)
    rintro remoteSha w₁ ⟨hafter₁, hbranch, -⟩
    split
    next => exact safely_pure fun _ => hafter₁
    next hremote =>
      rw [not_not] at hremote
      refine Safely.bind ((safely_matchingPullRequests w₁ request).mono ?_
        fun _ _ _ => trivial)
      rintro m w₂ ⟨prs, hm, hlisted⟩
      have hafter₂ := hafter₁.trans hlisted.after
      split
      next => exact safely_pure fun _ => hafter₂
      next pr =>
        split
        next => exact safely_throw trivial
        next hcurrent =>
          rw [not_or, not_not, not_not] at hcurrent
          refine Safely.seq (safely_beginPublication ht (hopen.after hafter₂)) ?_
          rintro ⟨row, created⟩ w₃ ⟨hheld, -, hasked, hstill⟩
          have hfound : Found p request headSha pr w₃ := by
            obtain ⟨rest, hrest, hsuffix⟩ := hlisted.asked
            refine ⟨fun row hid hsha hmir => ?_, fun hu => ?_⟩
            · rw [hasked, hrest]
              refine ⟨hid.repository.symm, hid.taskBranch.symm, hid.baseRef.symm, pr, ?_, hmir, ?_⟩
              · rw [hid.taskMarker]
                exact hm.symm
              · intro _
                rw [hcurrent.2]
                refine ⟨hcurrent.1, hsha, hsuffix.subset ?_⟩
                rw [← hremote]
                exact hbranch
            · rw [(hstill hu).2]
              have hmem : pr ∈ prs.filter (p.marked request.taskMarker) := by simp [← hm]
              exact hlisted.present (hstill hu).1 pr (List.mem_of_mem_filter hmem)
          refine Safely.bind ((safely_recordPublished ht hheld hfound).mono ?_
            fun _ _ _ => trivial)
          exact fun _ _ _ => safely_pure fun h => (by cases h)
      next => exact safely_throw trivial
  next => exact safely_pure fun _ => After.refl w

theorem Held.patched {patch : Ledger.PublicationPatch} {now : Time} (h : Held request sha row w)
    (hsha : patch.commitSha = none)
    (hjournal : w'.ledger.publications.find? request.taskId = some (patch.apply now row))
    (hstill : w'.undisturbed → w.undisturbed ∧ w'.github = w.github) :
    Held request sha (patch.apply now row) w' where
  journal := hjournal
  identity := ⟨h.identity.repository, h.identity.taskBranch, h.identity.baseRef,
    h.identity.taskMarker⟩
  commit hu := by
    show (patch.commitSha <|> row.commitSha) = _
    rw [hsha]
    exact h.commit (hstill hu).1

/-- What is known when an attempt that has begun fails. -/
def Failing (request : PublicationRequest) (sha : String) (e : PublisherExn) (w : World) : Prop :=
  ∃ row, Held request sha row w ∧ ∀ s, e = .uncertain s → row.state = .creating

theorem Held.failing {e : PublisherExn} (h : Held request sha row w) (he : ∀ s, e ≠ .uncertain s) :
    Failing request sha e w := ⟨row, h, fun s hs => absurd hs (he s)⟩

/-- Progress without an answer from GitHub that has to be recorded. -/
theorem safely_progress {state : PublicationState} {detail : Option String}
    (ht : request.taskId = t) (hheld : Held request sha row w)
    (hst : state = .pushed ∨ state = .creating ∨ state = .failed)
    (hat : ∀ w₁, Inv p t w₁ → Rely w w₁ → w₁.undisturbed → state = .pushed ∨ state = .creating →
      w₁.github.branches request.repository request.taskBranch = some sha) :
    Safely p t (updatePublication request.taskId { state, detail })
      (fun r w' => Held request sha r w' ∧ r.state = state)
      (fun e w' => Failing request sha e w') w := by
  refine (safely_updatePublication ht hheld ?_).mono ?_ ?_
  · intro w₁ hinv₁ hrely
    have hheld₁ := hheld.after hrely.after
    constructor
    case backed => rintro rfl; rcases hst with h | h | h <;> cases h
    case mirrored => rintro rfl; rcases hst with h | h | h <;> cases h
    case commit => exact fun _ _ h => (by cases h)
    case known => exact fun hu _ => ⟨sha, hheld₁.commit hu⟩
    case pushed =>
      intro hu hor
      refine ⟨sha, hheld₁.commit hu, ?_⟩
      rw [hheld.identity.repository, hheld.identity.taskBranch]
      exact hat w₁ hinv₁ hrely hu hor
  · rintro r w' ⟨now, rfl, hjournal, -, hstill⟩
    exact ⟨hheld.patched rfl hjournal hstill, rfl⟩
  · rintro e w' ⟨hafter, hne⟩
    exact (hheld.after hafter).failing hne

/-- A row that is pushed or being created has its commit on the branch. -/
theorem Held.branch (ht : request.taskId = t) (hinv : Inv p t w) (hheld : Held request sha row w)
    (hst : row.state = .pushed ∨ row.state = .creating) (hu : w.undisturbed) :
    w.github.branches request.repository request.taskBranch = some sha := by
  obtain ⟨c, hc, hat⟩ := (hinv.quiet hu).pushed row (ht ▸ hheld.journal) hst
  rw [hheld.commit hu] at hc
  obtain rfl := Option.some.inj hc
  rwa [hheld.identity.repository, hheld.identity.taskBranch] at hat

theorem safely_publishCommit (ht : request.taskId = t) (hheld : Held request sha row w)
    (hskip : row.state ≠ .skipped) (hpub : row.state ≠ .published)
    (horigin : repo.origin = request.repository) :
    Safely p t (p.publishCommit request repo sha row) (fun _ _ => True)
      (fun e w' => Failing request sha e w') w := by
  -- Creating or recovering, once the journal says so.
  have hcreate : ∀ {row : PublicationRecord} {w : World}, Held request sha row w →
      row.state = .creating → Safely p t (do
        ensureDurable
        let pr ← p.reconcileOrCreate request sha
        recordPublished request pr sha) (fun _ _ => True)
        (fun e w' => Failing request sha e w') w := by
    intro row w hheld hst
    refine Safely.bind ((safely_ensureDurable w).mono ?_
      fun e w' h => (hheld.after h.1).failing h.2)
    rintro - w₁ ⟨hafter₁, hdurable⟩
    refine Safely.bind ((safely_reconcileOrCreate ht (hheld.after hafter₁) hst hdurable).mono ?_
      fun e w' h => ⟨row, h, fun _ _ => hst⟩)
    rintro pr w₂ ⟨hheld₂, hfound⟩
    exact (safely_recordPublished ht hheld₂ hfound).mono (fun _ _ _ => trivial)
      fun e w' h => (hheld₂.after h.1).failing h.2
  have hpushed : ∀ {row : PublicationRecord} {w : World}, Held request sha row w →
      row.state = .pushed ∨ row.state = .creating → Safely p t (do
        if row.state = .pushed then
          let _ ← updatePublication request.taskId { state := .creating }
        ensureDurable
        let pr ← p.reconcileOrCreate request sha
        recordPublished request pr sha) (fun _ _ => True)
        (fun e w' => Failing request sha e w') w := by
    intro row w hheld hst
    dsimp only
    split
    next hrow =>
      refine Safely.bind ((safely_progress ht hheld (.inr (.inl rfl)) ?_).mono ?_
        fun _ _ h => h)
      · intro w₁ hinv₁ hrely hu _
        exact (hheld.after hrely.after).branch ht hinv₁ hst hu
      · rintro r w₁ ⟨hheld₁, hst₁⟩
        exact hcreate hheld₁ hst₁
    next hrow => exact hcreate hheld (hst.resolve_left hrow)
  unfold DraftPublisher.publishCommit
  dsimp only
  split
  next =>
    refine Safely.bind ((safely_ensureDurable w).mono ?_
      fun e w' h => (hheld.after h.1).failing h.2)
    rintro - w₁ ⟨hafter₁, -⟩
    refine Safely.bind ((safely_pushBranch ht (hheld.after hafter₁) horigin).mono ?_
      fun e w' h => h.1.failing h.2)
    rintro - w₂ ⟨hheld₂, hat⟩
    refine Safely.bind ((safely_progress ht hheld₂ (.inl rfl) ?_).mono ?_ fun _ _ h => h)
    · intro w₃ _ hrely hu _
      obtain ⟨hu', hg⟩ := hrely.after.still hu
      rw [hg]
      exact hat hu'
    · rintro r w₃ ⟨hheld₃, hst₃⟩
      exact hpushed hheld₃ (.inl hst₃)
  next hst =>
    apply hpushed hheld
    cases h : row.state <;> simp_all

theorem safely_journalFailure {α : Type} {e : PublisherExn} {post : α → World → Prop}
    (ht : request.taskId = t) (h : Failing request sha e w) :
    Safely p t (DraftPublisher.journalFailure request e) post (fun _ _ => True) w := by
  obtain ⟨row, hheld, hcreating⟩ := h
  unfold DraftPublisher.journalFailure
  split
  next s =>
    refine Safely.bind ((safely_progress ht hheld (.inr (.inr rfl)) ?_).mono
      (fun _ _ _ => safely_throw trivial) fun _ _ _ => trivial)
    exact fun _ _ _ _ h => by rcases h with h | h <;> cases h
  next s =>
    refine Safely.bind ((safely_progress ht hheld (.inr (.inl rfl)) ?_).mono
      (fun _ _ _ => safely_throw trivial) fun _ _ _ => trivial)
    intro w₁ hinv₁ hrely hu _
    exact (hheld.after hrely.after).branch ht hinv₁ (.inr (hcreating s rfl)) hu
  next => exact safely_throw trivial

theorem safely_recordSkip (ht : request.taskId = t) (existing : Option PublicationRecord) :
    Safely p t (recordSkip request existing) (fun _ _ => True) (fun _ _ => True) w := by
  -- Skipping needs nothing of the row.
  have hskip : ∀ (w : World) (detail outcome check : Option String),
      Safely p t (updatePublication request.taskId
        { state := .skipped, detail, outcomeDetail := outcome, checkStatus := check })
        (fun _ _ => True) (fun _ _ => True) w := by
    intro w detail outcome check
    apply safely_call
    intro w₁ hinv hrely o r w₂ ho
    simp only [World.answer] at ho
    split at ho
    next =>
      have hup := updates_updated o.clock request.taskId
        { state := .skipped, detail, outcomeDetail := outcome, checkStatus := check } w₁
      rw [Option.some.inj ho] at hup
      refine ⟨hinv.updated (fun row _ => ?_) (ht ▸ hup), ?_⟩
      · exact ⟨fun h => (by cases h), fun h => (by cases h), fun _ _ h => (by cases h),
          fun _ h => absurd rfl h,
          fun _ h => by rcases h with h | h <;> cases h⟩
      · split <;> trivial
    next =>
      obtain ⟨rfl, rfl⟩ := Prod.mk.inj (Option.some.inj ho)
      exact ⟨hinv, trivial⟩
  unfold recordSkip
  split
  next => exact safely_pure trivial
  next =>
    have hbegin : Safely p t (beginPublication request none .skipped (some (skipDetail request)))
        (fun _ _ => True) (fun _ _ => True) w := by
      apply safely_call
      intro w₁ hinv hrely o r w₂ ho
      simp only [World.answer] at ho
      split at ho
      next =>
        have hb := begins_begun o.clock request none .skipped (some (skipDetail request)) w₁
        rw [Option.some.inj ho] at hb
        refine ⟨hinv.begun ht (.inl rfl) hb, ?_⟩
        split <;> trivial
      next =>
        obtain ⟨rfl, rfl⟩ := Prod.mk.inj (Option.some.inj ho)
        exact ⟨hinv, trivial⟩
    refine Safely.seq hbegin ?_
    rintro ⟨record, created⟩ w₁ -
    dsimp only
    split
    · exact hskip w₁ _ _ _
    · split
      · exact safely_pure trivial
      · split
        · exact safely_pure trivial
        · exact hskip w₁ _ _ _

/-- An attempt keeps the invariant. -/
theorem safely_publish (ht : request.taskId = t) (repoDir : Option RepoDir)
    (horigin : ∀ repo, repoDir = some repo → repo.origin = request.repository) :
    Safely p t (p.publish request repoDir) (fun _ _ => True) (fun _ _ => True) w := by
  unfold DraftPublisher.publish
  subst ht
  refine Safely.seq (safely_getPublication w) ?_
  rintro existing w₁ ⟨-, hexisting⟩
  split
  next => exact safely_pure trivial
  next => exact safely_throw trivial
  next hsettled =>
    split
    next => exact safely_recordSkip rfl existing
    next =>
      have hstate : ∀ row, w₁.ledger.publications.find? request.taskId = some row →
          row.state ≠ .skipped ∧ row.state ≠ .published := by
        intro row hrow
        rw [hexisting, hrow] at hsettled
        have hnot : ¬ (row.state = .published ∨ row.state = .skipped) := by
          intro hor
          simp [DraftPublisher.settled, hor] at hsettled
        rw [not_or] at hnot
        exact ⟨hnot.2, hnot.1⟩
      have hopen : Open request w₁ := fun row hrow => (hstate row hrow).1
      refine Safely.seq (safely_adoptExisting rfl hopen) ?_
      intro adopted w₂ hadopted
      split
      next => exact safely_pure trivial
      next =>
        have hafter₂ := hadopted rfl
        split
        next => exact safely_throw trivial
        next repo =>
          refine Safely.bind (safely_assertNotBaseBranch.mono ?_ fun _ _ _ => trivial)
          rintro - w₂' rfl
          refine Safely.bind ((safely_git (makes_commitTaskBranch request repo) w₂').mono ?_
            fun _ _ _ => trivial)
          intro sha w₃ hafter₃
          have hopen₃ := (hopen.after hafter₂).after hafter₃
          refine Safely.seq (safely_beginPublication rfl hopen₃) ?_
          rintro ⟨record, created⟩ w₄ ⟨hheld, hskip, -, -⟩
          dsimp only
          split
          next => exact safely_pure trivial
          next hpub =>
            apply Safely.tryCatch
            exact (safely_publishCommit rfl hheld hskip hpub (horigin repo rfl)).mono
              (fun _ _ _ => trivial) fun e w₅ hfail => safely_journalFailure rfl hfail

end

/-! ### Runs -/

theorem sound (p : DraftPublisher) (t : TaskId) :
    Machine.Sound (M := publisher p t) {} (Inv p t) (fun _ => Rely) (fun _ _ _ => True)
      (fun _ _ _ => True) where
  rely_trans _ _ _ _ := Rely.trans
  guar_rely _ _ _ _ hne := absurd rfl hne
  job := by
    rintro ⟨⟩ j w prog w' hinv hjob
    obtain ⟨rfl, rfl⟩ := Prod.mk.inj (Option.some.inj hjob)
    refine ⟨hinv.same rfl rfl rfl rfl, trivial, ?_⟩
    refine Prog.Safe.mono (safely_publish j.task j.repoDir j.origin []) ?_
    exact fun _ _ _ => trivial
  event := by
    intro e w w' hinv _ he
    obtain rfl := Option.some.inj he
    cases e with
    | crash => exact ⟨hinv, fun h => (by cases h)⟩
    | edit r n d st title body =>
        have hrely := rely_event (w := w) (e := .edit r n d st title body)
          (by intro h; cases h)
        exact ⟨hinv.rely hrely, fun _ _ => hrely⟩
    | push r b sha =>
        have hrely := rely_event (w := w) (e := .push r b sha) (by intro h; cases h)
        exact ⟨hinv.rely hrely, fun _ _ => hrely⟩

/-- In every run of attempts to publish a task: no two pull requests are opened with the same
repository, head and base; a row is `PUBLISHED` only with what GitHub answered of a pull request
that it listed as the only one with the marker or that it made as a draft; and if nobody else
changes a pull request or pushes, that is an open draft with the commit of the row as its head. -/
theorem publication_unique {p : DraftPublisher} {t : TaskId} {w : World} {w' : Pool Unit Call.Out
      (Except PublisherExn PublicationRecord) World} {acts : List (publisher p t).Act}
    (hfresh : Fresh t w) (hrun : (publisher p t).run ⟨w, fun _ => none⟩ acts = some w') :
    (w'.shared.github.pulls.map place).Nodup ∧
    ∀ row, w'.shared.ledger.publications.find? t = some row → row.state = .published →
      Backed p row w'.shared.evidence ∧
      (w'.shared.touched = false → w'.shared.github.supportsDrafts = true →
        ∃ pr, (row.repository, pr) ∈ w'.shared.github.pulls ∧ Mirrors row pr ∧
          Current row (row.repository, pr)) := by
  have hok := (sound p t).run (fun _ w => Rely.refl w) (w := ⟨w, fun _ => none⟩)
    ⟨inv_fresh hfresh, fun _ _ _ _ h => by cases h⟩ (Machine.keeps_trivial _ acts) hrun
  have hinv := hok.1
  refine ⟨hinv.unique, fun row hrow hpub => ⟨hinv.backed row hrow hpub, fun hu hd => ?_⟩⟩
  have hq := hinv.quiet ⟨hu, hd⟩
  obtain ⟨pr, hpr, hmir⟩ := hq.published row hrow hpub
  obtain ⟨row', hrow', hcur⟩ := hq.pulls _ hpr
  obtain rfl := Option.some.inj (hrow.symm.trans hrow')
  exact ⟨pr, hpr, hmir, hcur⟩

/-! ### Two runs -/

def bot : DraftPublisher := ⟨"token", fun _ => "1"⟩

/-- Task 1 is submitted, and `b` has no pull request yet. -/
def beforeAttempts : World where
  ledger := (Records.submission 1 1 Records.keyed Records.initialized.ledger).2
  github := ⟨"gg-bot", true, fun _ _ => none, []⟩
  asked := []
  evidence := []
  touched := false

def change : PublicationRequest where
  taskId := 1
  repository := "owner/repo"
  taskBranch := "b"
  baseRef := "main"
  baseSha := "c0"
  headSha := none
  taskMarker := 1
  agentOutcome := .succeeded
  checkOutcome := .notRun
  check := none
  changedFiles := ["a.py"]

def attempt : Attempt 1 where
  request := change
  repoDir := some ⟨"owner/repo"⟩
  task := rfl
  origin _ h := by rw [← Option.some.inj h]; rfl

def done (output : String) : (publisher bot 1).Act := .call () ⟨2, .done output⟩

/-- The commit `c1` on branch `b` is pushed, and the journal is at `CREATING`. -/
def pushed : List (publisher bot 1).Act :=
  [.start () attempt, done "", done "b", done "", done "", done "c1", done "", done "", done "",
   done "", done "", done "https://github.com/owner/repo", done "", done ""]

/-- Another attempt until the journal has been found durable. -/
def again : List (publisher bot 1).Act :=
  [.start () attempt, done "", done "b", done "", done "", done "c1", done "", done ""]

theorem fresh_beforeAttempts : Fresh 1 beforeAttempts := ⟨rfl, rfl, rfl⟩

/-- The pull request is created. -/
theorem publication_unique_created :
    ∃ w', (publisher bot 1).run ⟨beforeAttempts, fun _ => none⟩
        (pushed ++ [done "", done "", done "", done "", done ""]) = some w' ∧
      ∃ row pr, w'.shared.ledger.publications.find? 1 = some row ∧ row.state = .published ∧
        Current row (row.repository, pr) := by
  have hall : ((publisher bot 1).run ⟨beforeAttempts, fun _ => none⟩
      (pushed ++ [done "", done "", done "", done "", done ""])).any (fun w' =>
        !w'.shared.touched && w'.shared.github.supportsDrafts &&
          (w'.shared.ledger.publications.find? 1).any fun row => row.state = .published) = true := by
    decide +kernel
  obtain ⟨w', hrun, hrest⟩ := (Option.any_eq_true _ _).mp hall
  simp only [Bool.and_eq_true, Bool.not_eq_true'] at hrest
  obtain ⟨⟨huntouched, hdrafts⟩, hrow⟩ := hrest
  obtain ⟨row, hrow, hpub⟩ := (Option.any_eq_true _ _).mp hrow
  rw [decide_eq_true_eq] at hpub
  obtain ⟨-, hcur⟩ := (publication_unique fresh_beforeAttempts hrun).2 row hrow hpub
  obtain ⟨pr, -, -, hcur⟩ := hcur huntouched hdrafts
  exact ⟨w', hrun, row, pr, hrow, hpub, hcur⟩

/-- The process ends after the push, somebody pushes `c2` on the branch, the pull request is
created and its answer lost with the process, and somebody closes it. -/
def interrupted : List (publisher bot 1).Act :=
  pushed ++ [.event .crash, .event (.push "owner/repo" "b" "c2")] ++
    again ++ [done "", done "", done "", .event .crash,
      .event (.edit "owner/repo" 1 true "closed" (bot.prTitle change) (bot.prBody change "c1"))] ++
    again ++ [done "", done ""]

/-- The journal is at `PUBLISHED` with the commit `c1` and a closed pull request with another
head. -/
theorem published_closed :
    ∃ w', (publisher bot 1).run ⟨beforeAttempts, fun _ => none⟩ interrupted = some w' ∧
      ∃ row, w'.shared.ledger.publications.find? 1 = some row ∧ row.state = .published ∧
        row.commitSha = some "c1" ∧ row.prNumber = some 1 ∧ row.prState = some "closed" ∧
        ∀ x ∈ w'.shared.github.pulls, x.2.state = "closed" ∧ x.2.headSha = "c2" := by
  have hall : ((publisher bot 1).run ⟨beforeAttempts, fun _ => none⟩ interrupted).any (fun w' =>
      (w'.shared.ledger.publications.find? 1).any (fun row => row.state = .published ∧
        row.commitSha = some "c1" ∧ row.prNumber = some 1 ∧ row.prState = some "closed") &&
        w'.shared.github.pulls.all fun x => x.2.state = "closed" ∧ x.2.headSha = "c2") = true := by
    decide +kernel
  obtain ⟨w', hrun, hrest⟩ := (Option.any_eq_true _ _).mp hall
  rw [Bool.and_eq_true] at hrest
  obtain ⟨row, hrow, hfields⟩ := (Option.any_eq_true _ _).mp hrest.1
  rw [decide_eq_true_eq] at hfields
  refine ⟨w', hrun, row, hrow, hfields.1, hfields.2.1, hfields.2.2.1, hfields.2.2.2, ?_⟩
  intro x hx
  simpa using List.all_eq_true.mp hrest.2 x hx

end GgAgent.Publication
