import Mathlib.Algebra.Order.BigOperators.Group.List
import Mathlib.Algebra.Order.Ring.Nat
import GgAgent.Records.Admission
import GgAgent.Backend.Footprint

/-!
A request that is submitted again.

`TaskService.submit` looks its key up at the end: it first validates the request, asks
GitHub, looks for the task that is retried and asks for the pressure on the storage.
Only then the ledger answers with the task that the key is bound to. The other threads
may change the database before each of its calls.
-/

namespace GgAgent.Records

open GgAgent.Lib GgAgent.Backend
open GgAgent.Lib.Co (Ends)

/-! ### The surroundings of a call -/

/-- What goes on around a run of `TaskService.submit`, which makes each of its calls at
most once. -/
structure Surroundings where
  /-- What the others do to the file just before a call. -/
  others : Call → Store → Store
  reaches : ∀ c s, ∃ ops, run s ops = some (others c s)
  clock : Call → Time
  uuid : Store → TaskId
  fresh : ∀ s, uuid s ∉ s.issued
  resolve : OwnerId → String → String → Except Exn String
  pressure : Option String

/-- The file, and whether the calls of the program itself have changed a task row. -/
structure Desk where
  store : Store
  wrote : Bool

namespace Surroundings

variable (env : Surroundings)

/-- A transaction of the program on the file `s`. -/
def commit {α : Type} (d : Desk) (s : Store) (x : Except Exn α × Ledger) :
    Except Exn α × Desk :=
  (x.1, ⟨{ s with ledger := x.2 }, d.wrote || decide (x.2.tasks.rows ≠ s.ledger.tasks.rows)⟩)

/-- The calls of `TaskService.submit`. -/
def handle : (c : Call) → Desk → Option (c.Out × Desk)
  | .db c, d =>
    let s := env.others (.db c) d.store
    some (commit d s (c.exec (env.clock (.db c)) s.ledger))
  | .submit q, d =>
    let s := env.others (.submit q) d.store
    let id := env.uuid s
    some (commit d { s with issued := id :: s.issued }
      (submission (env.clock (.submit q)) id q s.ledger))
  | .ext (.repositoryResolve owner repository baseRef), d =>
    some (env.resolve owner repository baseRef,
      { d with store := env.others (.ext (.repositoryResolve owner repository baseRef)) d.store })
  | .ext .storagePressure, d =>
    some (env.pressure, { d with store := env.others (.ext .storagePressure) d.store })
  | _, _ => none

/-- A run of `submit`. -/
def served (cfg : Config) (request : CreateTaskRequest) (owner : Option OwnerId) (s : Store) :
    Option (Except Exn (TaskRecord × Bool) × Desk) :=
  (Service.submit cfg request owner).run.alone env.handle ⟨s, false⟩

/-! ### What `submit` passes on its way -/

/-- The repository is accessible to the owner of the task. -/
def Authorized (cfg : Config) (request : CreateTaskRequest) (owner : Option OwnerId) : Prop :=
  match request.repository, owner with
  | some repository, some owner => cfg.hasAuthorization = true ∧ cfg.hasPrivateKey = true ∧
      ∃ sha, env.resolve owner repository (request.baseRef.getD "") = .ok sha
  | _, _ => True

/-- The file after the authorization. -/
def afterAuthorization (request : CreateTaskRequest) (owner : Option OwnerId) (s : Store) : Store :=
  match request.repository, owner with
  | some repository, some owner =>
    env.others (.ext (.repositoryResolve owner repository (request.baseRef.getD ""))) s
  | _, _ => s

/-- The file after the lookup of the task that is retried. -/
def afterLookup (request : CreateTaskRequest) (owner : Option OwnerId) (s : Store) : Store :=
  match request.retryOf with
  | none => env.afterAuthorization request owner s
  | some t => env.others (.db (.get t owner)) (env.afterAuthorization request owner s)

/-- The file that the submission meets. -/
def atSubmission (request : CreateTaskRequest) (owner : Option OwnerId) (s : Store) : Store :=
  env.others (.submit (request.submission owner))
    (env.others (.ext .storagePressure) (env.afterLookup request owner s))

/-- The task that is retried is stored and visible to the owner when `submit` looks for
it, and the storage is not under pressure. -/
def Admissible (request : CreateTaskRequest) (owner : Option OwnerId) (s : Store) : Prop :=
  (∀ t, request.retryOf = some t → (env.afterLookup request owner s).ledger.get t owner ≠ none) ∧
    env.pressure = none

end Surroundings

/-! ### What a bound key answers -/

/-- The key of the request stands for the task, and what is stored of the task is the
request unless its payload has expired. -/
structure Kept (request : CreateTaskRequest) (b : Binding) (l : Ledger) : Prop where
  key : b.idempotencyKey = request.idempotencyKey
  binds : Binds l b
  row : ∀ r, l.tasks.find? b.taskId = some r →
    r.payloadExpired = true ∨ Service.matchesExisting r request = true

/-- A ledger call rewrites no field of a request, but may retire all of them. -/
theorem matches_step {now : Time} {l : Ledger} {r r' : TaskRecord} {c : LedgerCall}
    (h : TaskStep now l r c r') {request : CreateTaskRequest}
    (hr : r.payloadExpired = true ∨ Service.matchesExisting r request = true) :
    r'.payloadExpired = true ∨ Service.matchesExisting r' request = true := by
  cases h with
  | retire => exact .inl rfl
  | _ => exact hr

theorem Kept.exec {issued : List TaskId} {l : Ledger} (hl : Admitted issued l)
    {request : CreateTaskRequest} {b : Binding} (h : Kept request b l) (now : Time)
    (c : LedgerCall) : Kept request b (c.exec now l).2 := by
  refine ⟨h.key, (binds_exec hl now c b).mpr h.binds, fun r' hr' => ?_⟩
  cases hr : l.tasks.find? b.taskId with
  | none => rw [exec_task_none now c hr] at hr'; simp at hr'
  | some r =>
      have hid : r.id = b.taskId := Table.key_of_find? hr
      rw [← hid] at hr hr'
      obtain ⟨-, -, -, hnone⟩ | ⟨r'', hr'', hstep⟩ := exec_task now c hr
      · rw [hnone] at hr'
        simp at hr'
      · obtain rfl : r'' = r' := Option.some.inj (hr''.symm.trans hr')
        exact matches_step hstep (h.row r (by rw [← hid]; exact hr))

/-- A submission of anything under a new id. -/
theorem Kept.submission {issued : List TaskId} {l : Ledger} (hl : Admitted issued l)
    {request : CreateTaskRequest} {b : Binding} (h : Kept request b l) (now : Time) {id : TaskId}
    (hid : id ∉ issued) (q : Submission) : Kept request b (submission now id q l).2 := by
  rcases submission_cases l now id q with ⟨r, b', -, -, -, -, -, hl'⟩ | ⟨r, -, hr, -, -, hl'⟩
  · rw [hl']
    exact ⟨h.key, h.binds, h.row⟩
  · have hrid : r.id = id := congrArg Binding.taskId hr
    have hnone : l.tasks.find? r.id = none := by
      rw [hrid]
      exact hl.fresh hid
    have hne : r.id ≠ b.taskId := by
      rw [hrid]
      rintro rfl
      exact hid (hl.issued h.binds)
    rw [hl']
    refine ⟨h.key, (binds_insert hnone b).mpr (.inl h.binds), fun q hq => h.row q ?_⟩
    have hins : (l.tasks.insert r).find? b.taskId = some q := hq
    rwa [Table.find?_insert (by exact hnone), if_neg (by exact hne)] at hins

theorem Kept.apply {now : Time} {op : Op} {s s' : Store} (hs : s.Sound)
    {request : CreateTaskRequest} {b : Binding} (h : Kept request b s.ledger)
    (hop : op.apply now s = some s') : Kept request b s'.ledger := by
  rcases apply_cases hs.1 hop with rfl | ⟨id, q, rfl, hid, rfl⟩ | ⟨c, rfl, rfl⟩
  · exact h
  · exact h.submission hs.2 now hid q
  · exact h.exec hs.2 now c

theorem Kept.run {request : CreateTaskRequest} {b : Binding} :
    ∀ {ops : List (Time × Op)} {s s' : Store}, s.Sound → Kept request b s.ledger →
      Records.run s ops = some s' → Kept request b s'.ledger
  | [], s, s', _, h, hrun => by
      obtain rfl : s = s' := by simpa [Records.run] using hrun
      exact h
  | (now, op) :: ops, s, s', hs, h, hrun => by
      obtain ⟨s₁, hop, hrest⟩ := Option.bind_eq_some_iff.mp hrun
      exact Kept.run (hs.apply hop).1 (h.apply hs hop) hrest

/-- A bound key is answered with its task: with its row as long as there is one. -/
theorem submission_bound {issued : List TaskId} {l : Ledger} (hl : Admitted issued l)
    {b : Binding} (hb : Binds l b) {q : Submission} (howner : q.ownerId = b.ownerId) (hkey : q.idempotencyKey = b.idempotencyKey) (now : Time)
    (id : TaskId) :
    ∃ r, Records.submission now id q l = (.ok (r, false), l.commit) ∧ ofTask r = b ∧
      (l.tasks.find? b.taskId = some r ∨
        l.tasks.find? b.taskId = none ∧ r.payloadExpired = true) := by
  simp only [Records.submission, Ledger.submit]
  cases htask : l.tasks.rows.find? fun r => r.idempotencyKey = q.idempotencyKey ∧
      r.ownerId = q.ownerId with
  | some r =>
      have hp := List.find?_some htask
      simp only [decide_eq_true_eq] at hp
      have hfind := Table.find?_of_mem (List.mem_of_find?_eq_some htask)
      have hr : ofTask r = b := hl.pair (binds_of_task hfind) hb (hp.2.trans howner)
        (hp.1.trans hkey)
      exact ⟨r, rfl, hr, .inl (by rw [← hr]; exact hfind)⟩
  | none =>
      have hrow : l.tasks.find? b.taskId = none := by
        cases hr : l.tasks.find? b.taskId with
        | none => rfl
        | some r =>
            have hrb : ofTask r = b := hl.task (binds_of_task hr) hb (Table.key_of_find? hr)
            have hno := List.find?_eq_none.mp htask r (Table.mem_of_find? hr)
            simp only [decide_eq_true_eq, not_and] at hno
            exact absurd ((congrArg Binding.ownerId hrb).trans howner.symm)
              (hno ((congrArg Binding.idempotencyKey hrb).trans hkey.symm))
      cases hret : l.retiredKeys.rows.find? fun r => r.idempotencyKey = q.idempotencyKey ∧
          r.ownerId = q.ownerId with
      | some k =>
          have hp := List.find?_some hret
          simp only [decide_eq_true_eq] at hp
          have hfind := Table.find?_of_mem (List.mem_of_find?_eq_some hret)
          have hkb : ofRetired k = b := hl.pair (binds_of_retired hfind) hb
            (hp.2.trans howner) (hp.1.trans hkey)
          exact ⟨_, rfl, hkb, .inr ⟨hrow, rfl⟩⟩
      | none =>
          rcases hb with ⟨r, hr, -⟩ | ⟨k, hk, hkb⟩
          · rw [hrow] at hr
            simp at hr
          · have hno := List.find?_eq_none.mp hret k (Table.mem_of_find? hk)
            simp only [decide_eq_true_eq, not_and] at hno
            exact absurd ((congrArg Binding.ownerId hkb).trans howner.symm)
              (hno ((congrArg Binding.idempotencyKey hkb).trans hkey.symm))

/-! ### The course of `submit` -/

section Course

variable {env : Surroundings} {cfg : Config} {request : CreateTaskRequest} {owner : Option OwnerId}
  {s : Store} {d : Desk}

theorem ends_db {c : LedgerCall} {post : Except Exn c.Out → Desk → Prop}
    (h : let s := env.others (.db c) d.store
      let x := Surroundings.commit d s (c.exec (env.clock (.db c)) s.ledger)
      post x.1 x.2) : Ends env.handle (db c) post d :=
  ⟨_, _, rfl, h⟩

theorem ends_resolveBaseSha (h : env.Authorized cfg request owner) :
    Ends env.handle (Service.resolveBaseSha cfg request owner)
      (fun x d' => (∃ sha?, x = .ok sha?) ∧
        d' = { d with store := env.afterAuthorization request owner d.store }) d := by
  unfold Service.resolveBaseSha Surroundings.afterAuthorization
  unfold Surroundings.Authorized at h
  cases hrepo : request.repository with
  | none => exact Ends.pure ⟨⟨none, rfl⟩, rfl⟩
  | some repository =>
      cases owner with
      | none => exact Ends.pure ⟨⟨none, rfl⟩, rfl⟩
      | some owner =>
          simp only [hrepo] at h
          obtain ⟨hauth, hkey, sha, hsha⟩ := h
          simp only [hauth, hkey, Bool.not_true, Bool.false_eq_true, if_false]
          have hresolve : Ends env.handle
              (ext (.repositoryResolve owner repository (request.baseRef.getD "")))
              (fun x d' => x = .ok (.ok sha) ∧ d' = { d with store := env.others (.ext
                (.repositoryResolve owner repository (request.baseRef.getD ""))) d.store }) d :=
            ⟨_, _, rfl, congrArg Except.ok hsha, rfl⟩
          refine hresolve.bind ?_ ?_
          · rintro a d' ⟨heq, rfl⟩
            obtain rfl := Except.ok.inj heq
            exact Ends.pure ⟨⟨some sha, rfl⟩, rfl⟩
          · rintro e d' ⟨heq, -⟩
            simp at heq

/-- The lookup of the task that is retried reads the file. -/
theorem ends_checkRetryOf :
    Ends env.handle (Service.checkRetryOf request owner)
      (fun x d' => d' = { d with store := match request.retryOf with
          | none => d.store
          | some t => env.others (.db (.get t owner)) d.store } ∧
        (x = .ok () ∧ (∀ t, request.retryOf = some t → d'.store.ledger.get t owner ≠ none) ∨
          x = .error (.taskValidation .retryOfInaccessible) ∧
            ∃ t, request.retryOf = some t ∧ d'.store.ledger.get t owner = none)) d := by
  unfold Service.checkRetryOf
  cases hret : request.retryOf with
  | none => exact Ends.pure ⟨rfl, .inl ⟨rfl, by simp⟩⟩
  | some t =>
      have hget : Ends env.handle (db (.get t owner)) (fun x d' =>
          x = .ok ((env.others (.db (.get t owner)) d.store).ledger.get t owner) ∧
            d' = { d with store := env.others (.db (.get t owner)) d.store }) d := by
        refine ends_db ⟨rfl, ?_⟩
        simp [Surroundings.commit, LedgerCall.exec, Ledger.read]
      refine hget.bind ?_ ?_
      · rintro found d' ⟨heq, rfl⟩
        obtain rfl := Except.ok.inj heq
        cases hfound : (env.others (.db (.get t owner)) d.store).ledger.get t owner with
        | none => exact Ends.throw ⟨rfl, .inr ⟨rfl, t, rfl, hfound⟩⟩
        | some r =>
            refine Ends.pure ⟨rfl, .inl ⟨rfl, fun u hu => ?_⟩⟩
            obtain rfl := Option.some.inj hu
            simp [hfound]
      · rintro e d' ⟨heq, -⟩
        simp at heq

theorem ends_checkPressure :
    Ends env.handle Service.checkPressure
      (fun x d' => d' = { d with store := env.others (.ext .storagePressure) d.store } ∧
        (x = .ok () ∧ env.pressure = none ∨
          ∃ reason, x = .error (.storagePressure reason) ∧ env.pressure = some reason)) d := by
  have hask : Ends env.handle (ext .storagePressure) (fun x d' => x = .ok env.pressure ∧
      d' = { d with store := env.others (.ext .storagePressure) d.store }) d :=
    ⟨_, _, rfl, rfl, rfl⟩
  refine hask.bind ?_ ?_
  · rintro pressure d' ⟨heq, rfl⟩
    obtain rfl := Except.ok.inj heq
    cases hp : env.pressure with
    | none => exact Ends.pure ⟨rfl, .inl ⟨rfl, rfl⟩⟩
    | some reason => exact Ends.throw ⟨rfl, .inr ⟨reason, rfl, rfl⟩⟩
  · rintro e d' ⟨heq, -⟩
    simp at heq

/-- What `submit` makes of the task that its key is bound to. -/
def settled (request : CreateTaskRequest) (r : TaskRecord) : Except Exn (TaskRecord × Bool) :=
  if !r.payloadExpired && !Service.matchesExisting r request then
    .error (.taskConflict r.idempotencyKey r.id)
  else .ok (r, false)

/-- How a submission under a bound key ends. -/
inductive Course (env : Surroundings) (cfg : Config) (request : CreateTaskRequest)
    (owner : Option OwnerId) (b : Binding) (s : Store) : Except Exn (TaskRecord × Bool) → Prop
  | refused (e : Exn) (hno : ¬ (Service.validate cfg request = .ok () ∧
      env.Admissible request owner s)) (he : ∀ key t, e ≠ .taskConflict key t) :
      Course env cfg request owner b s (.error e)
  | found (r : TaskRecord) (hvalid : Service.validate cfg request = .ok ())
      (hadm : env.Admissible request owner s) (hr : ofTask r = b)
      (hrow : (env.atSubmission request owner s).ledger.tasks.find? b.taskId = some r ∨
        (env.atSubmission request owner s).ledger.tasks.find? b.taskId = none ∧
          r.payloadExpired = true) :
      Course env cfg request owner b s (settled request r)

theorem ends_settleSubmission {post : Except Exn (TaskRecord × Bool) → Desk → Prop}
    {sha? : Option String} {r : TaskRecord} (h : post (settled request r) d) :
    Ends env.handle (Service.settleSubmission request sha? r false) post d := by
  unfold Service.settleSubmission
  unfold settled at h
  split
  next hno =>
    rw [if_pos (by simpa using hno)] at h
    exact Ends.throw h
  next hyes =>
    rw [if_neg (by simpa using hyes)] at h
    exact Ends.pure h

theorem ends_enrol_kept {issued : List TaskId} {original : CreateTaskRequest} {b : Binding}
    (hl : Admitted issued
      (env.others (.submit (request.submission owner)) d.store).ledger)
    (hkept : Kept original b (env.others (.submit (request.submission owner)) d.store).ledger)
    (howner : owner = b.ownerId) (hkey : request.idempotencyKey = b.idempotencyKey) :
    Ends env.handle (Backend.submit (request.submission owner)) (fun x d' => d'.wrote = d.wrote ∧
      ∃ r, x = .ok (r, false) ∧ ofTask r = b ∧
        ((env.others (.submit (request.submission owner)) d.store).ledger.tasks.find? b.taskId =
            some r ∨
          (env.others (.submit (request.submission owner)) d.store).ledger.tasks.find? b.taskId =
            none ∧ r.payloadExpired = true)) d := by
  obtain ⟨r, hsub, hr, hrow⟩ := submission_bound hl hkept.binds (q := request.submission owner) howner hkey
    (env.clock (.submit (request.submission owner)))
    (env.uuid (env.others (.submit (request.submission owner)) d.store))
  refine ⟨_, _, rfl, ?_, r, ?_, hr, hrow⟩
  · simp only [Surroundings.commit, hsub]
    simp [Ledger.commit]
  · simp only [Surroundings.commit, hsub]

/-- The course of a submission under a bound key. It changes no task. -/
theorem ends_submit_kept {issued : List TaskId} {original : CreateTaskRequest} {b : Binding}
    (hauth : env.Authorized cfg request owner)
    (hl : Admitted issued (env.atSubmission request owner d.store).ledger)
    (hkept : Kept original b (env.atSubmission request owner d.store).ledger)
    (howner : owner = b.ownerId) (hkey : request.idempotencyKey = b.idempotencyKey) :
    Ends env.handle (Service.submit cfg request owner)
      (fun x d' => d'.wrote = d.wrote ∧ Course env cfg request owner b d.store x) d := by
  unfold Service.submit
  cases hvalid : Service.validate cfg request with
  | error f =>
      exact Ends.throw ⟨rfl, .refused _ (by simp [hvalid]) (by simp)⟩
  | ok u =>
      refine (ends_resolveBaseSha hauth).bind ?_ ?_
      case refine_2 =>
        rintro e d' ⟨⟨sha, heq⟩, -⟩
        simp at heq
      rintro sha d' ⟨-, rfl⟩
      refine ends_checkRetryOf.bind ?_ ?_
      case refine_2 =>
        rintro e d' ⟨rfl, ⟨heq, -⟩ | ⟨heq, t, ht, hnone⟩⟩
        · simp at heq
        · obtain rfl := Except.error.inj heq
          exact ⟨rfl, .refused _ (fun h => h.2.1 t ht hnone) (by simp)⟩
      rintro _ d' ⟨rfl, ⟨-, hsome⟩ | ⟨heq, -⟩⟩
      case inr => simp at heq
      refine ends_checkPressure.bind ?_ ?_
      case refine_2 =>
        rintro e d' ⟨rfl, ⟨heq, -⟩ | ⟨reason, heq, hp⟩⟩
        · simp at heq
        · obtain rfl := Except.error.inj heq
          exact ⟨rfl, .refused _ (fun h => by rw [h.2.2] at hp; simp at hp) (by simp)⟩
      rintro _ d' ⟨rfl, ⟨-, hp⟩ | ⟨reason, heq, -⟩⟩
      case inr => simp at heq
      refine (ends_enrol_kept hl hkept howner hkey).bind ?_ ?_
      case refine_2 =>
        rintro e d' ⟨-, r, heq, -⟩
        simp at heq
      rintro x d' ⟨hwrote, r, heq, hr, hrow⟩
      obtain rfl := Except.ok.inj heq
      exact ends_settleSubmission ⟨hwrote, .found r hvalid ⟨hsome, hp⟩ hr hrow⟩

/-! ### The first admission -/

theorem Surroundings.sound_others (env : Surroundings) (c : Call) (hs : s.Sound) :
    (env.others c s).Sound := by
  obtain ⟨ops, hops⟩ := env.reaches c s
  exact (hs.run hops).1

theorem sound_call (now : Time) (c : LedgerCall) (hs : s.Sound) :
    Store.Sound { s with ledger := (c.exec now s.ledger).2 } := by
  have hop : (Op.call c).apply now s = some { s with ledger := (c.exec now s.ledger).2 } := rfl
  exact (hs.apply hop).1

theorem Kept.others (env : Surroundings) (c : Call) (hs : s.Sound) {b : Binding}
    (h : Kept request b s.ledger) : Kept request b (env.others c s).ledger := by
  obtain ⟨ops, hops⟩ := env.reaches c s
  exact Kept.run hs h hops

/-- A call of the program that reads the file, or asks outside. -/
def Asks (c : Call) : Prop :=
  (∃ t o, c = .db (.get t o)) ∨ (∃ o r b, c = .ext (.repositoryResolve o r b)) ∨
    c = .ext .storagePressure

theorem ends_asks {α : Type} {r : Routine α} (hr : Co.Makes Asks r) (hs : d.store.Sound) :
    Ends env.handle r (fun _ d' => d'.store.Sound) d := by
  refine Ends.of_makes hr ?_ hs
  rintro c d (⟨t, o, rfl⟩ | ⟨o, r, b, rfl⟩ | rfl) hs
  · exact ⟨_, _, rfl, env.sound_others _ hs⟩
  · exact ⟨_, _, rfl, env.sound_others _ hs⟩
  · exact ⟨_, _, rfl, env.sound_others _ hs⟩

/-- A valid repository is not the empty text, under which the ledger stores none. -/
theorem repository_of_valid (h : Service.validate cfg request = .ok ()) :
    request.repository ≠ some "" := by
  intro hrepo
  have hno : Service.matchesRepository "" = false := by decide
  unfold Service.validate at h
  rw [hrepo] at h
  cases hm : Service.piModelCatalog.contains request.model with
  | false =>
      rw [hm] at h
      cases h
  | true =>
      rw [hm] at h
      dsimp only at h
      rw [hno] at h
      cases h

/-- What is stored of a new task is the request. -/
theorem matches_new (hrepo : request.repository ≠ some "") {r : TaskRecord}
    (htext : r.repositoryText = request.repository.getD "") (hprompt : r.prompt = request.prompt)
    (hbase : r.baseRef = request.baseRef) (hretry : r.retryOf = request.retryOf)
    (hmodel : r.model = request.model) : Service.matchesExisting r request = true := by
  have hr : r.repository = request.repository := by
    unfold TaskRecord.repository
    rw [htext]
    cases h : request.repository with
    | none => rfl
    | some x =>
        have hx : x ≠ "" := by
          rintro rfl
          exact hrepo h
        simp [hx]
  simp [Service.matchesExisting, hr, hprompt, hbase, hretry, hmodel]

/-- The ledger's answer to a submission: the row of a new task, or what the key is bound
to. -/
theorem submission_answer {issued : List TaskId} {l : Ledger} (hl : Admitted issued l)
    (owner : Option OwnerId) (hrepo : request.repository ≠ some "") (now : Time) {id : TaskId} (hid : id ∉ issued) :
    ∃ r created, (Records.submission now id (request.submission owner) l).1 = .ok (r, created) ∧
      ((Records.submission now id (request.submission owner) l).2.tasks.find? r.id = some r ∧
          (created = true → Service.matchesExisting r request = true) ∨
        (Records.submission now id (request.submission owner) l).2.tasks.find? r.id = none ∧
          created = false ∧ r.payloadExpired = true) := by
  rcases submission_cases l now id (request.submission owner) with
    ⟨r, b, hb, howner, hkey, -, -, hl'⟩ | ⟨r, -, hr, -, hans, hl'⟩
  · obtain ⟨r', hsub, hr', hrow⟩ := submission_bound hl hb (q := request.submission owner)
      howner.symm hkey.symm now id
    have hid' : r'.id = b.taskId := congrArg Binding.taskId hr'
    rw [← hid'] at hrow
    rw [hsub]
    refine ⟨r', false, rfl, ?_⟩
    rcases hrow with hsome | ⟨hnone, hexp⟩
    · exact .inl ⟨hsome, by simp⟩
    · exact .inr ⟨hnone, rfl, hexp⟩
  · have hrid : r.id = id := congrArg Binding.taskId hr
    have hnone : l.tasks.find? r.id = none := by
      rw [hrid]
      exact hl.fresh hid
    refine ⟨r, true, hans, .inl ⟨?_, fun _ => ?_⟩⟩
    · rw [hl']
      show (l.tasks.insert r).find? r.id = some r
      rw [Table.find?_insert (by exact hnone)]
      exact if_pos rfl
    · -- The row is the one that `submit` inserts.
      simp only [Records.submission, Ledger.submit] at hans
      split at hans
      · simp at hans
      · split at hans
        · simp at hans
        · obtain ⟨rfl, -⟩ := Prod.mk.inj (Except.ok.inj hans)
          exact matches_new hrepo rfl rfl rfl rfl rfl

/-- What an admitted request leaves behind. -/
def Leaves (cfg : Config) (request : CreateTaskRequest) (owner : Option OwnerId)
    (x : Except Exn (TaskRecord × Bool)) (s : Store) : Prop :=
  ∀ r created, x = .ok (r, created) → Service.validate cfg request = .ok () ∧
    Kept request ⟨owner, request.idempotencyKey, r.id, r.seq⟩ s.ledger

theorem ends_enrol (hs : d.store.Sound) (hrepo : request.repository ≠ some "") :
    Ends env.handle (Backend.submit (request.submission owner)) (fun x d' => d'.store.Sound ∧
      ∃ r created, x = .ok (r, created) ∧
        Binds d'.store.ledger ⟨owner, request.idempotencyKey, r.id, r.seq⟩ ∧
        (d'.store.ledger.tasks.find? r.id = some r ∧
            (created = true → Service.matchesExisting r request = true) ∨
          d'.store.ledger.tasks.find? r.id = none ∧ created = false ∧ r.payloadExpired = true)) d := by
  have hothers := env.sound_others (.submit (request.submission owner)) hs
  have hid := env.fresh (env.others (.submit (request.submission owner)) d.store)
  obtain ⟨r, created, hans, hrow⟩ := submission_answer hothers.2 owner hrepo
    (env.clock (.submit (request.submission owner))) hid
  have hop : (Op.submit (env.uuid (env.others (.submit (request.submission owner)) d.store))
      (request.submission owner)).apply (env.clock (.submit (request.submission owner)))
      (env.others (.submit (request.submission owner)) d.store) = some _ := if_neg hid
  refine ⟨_, _, rfl, (hothers.apply hop).1, r, created, hans, ?_, hrow⟩
  exact hothers.submitted hop hans

theorem ends_settle_admitted (hs : d.store.Sound) (hvalid : Service.validate cfg request = .ok ())
    {sha? : Option String} {r : TaskRecord} {created : Bool}
    (hbinds : Binds d.store.ledger ⟨owner, request.idempotencyKey, r.id, r.seq⟩)
    (hrow : d.store.ledger.tasks.find? r.id = some r ∧
        (created = true → Service.matchesExisting r request = true) ∨
      d.store.ledger.tasks.find? r.id = none ∧ created = false ∧ r.payloadExpired = true) :
    Ends env.handle (Service.settleSubmission request sha? r created)
      (fun x d' => d'.store.Sound ∧ Leaves cfg request owner x d'.store) d := by
  unfold Service.settleSubmission
  split
  · exact Ends.throw ⟨hs, by simp [Leaves]⟩
  next hmatch =>
    have hkept : Kept request ⟨owner, request.idempotencyKey, r.id, r.seq⟩ d.store.ledger := by
      refine ⟨rfl, hbinds, fun q hq => ?_⟩
      rcases hrow with ⟨hsome, hnew⟩ | ⟨hnone, -⟩
      · obtain rfl : r = q := Option.some.inj (hsome.symm.trans hq)
        cases created with
        | true => exact .inr (hnew rfl)
        | false =>
            cases hexp : r.payloadExpired with
            | true => exact .inl rfl
            | false => exact .inr (by simpa [hexp] using hmatch)
      · rw [hnone] at hq
        simp at hq
    split
    next sha =>
      have hothers := env.sound_others (.db (.recordBaseSha r.id (some sha))) hs
      have hkept' := hkept.others env (.db (.recordBaseSha r.id (some sha))) hs
      have hrecord : Ends env.handle (db (.recordBaseSha r.id (some sha)))
          (fun x d' => d'.store.Sound ∧ ∀ q, x = .ok q → Kept request
            ⟨owner, request.idempotencyKey, q.id, q.seq⟩ d'.store.ledger) d := by
        refine ends_db ⟨sound_call _ _ hothers, fun q hq => ?_⟩
        have hq : (Ledger.recordBaseSha _ r.id (some sha) _).1 = .ok q := hq
        simp only [Ledger.recordBaseSha] at hq
        split at hq
        next => simp at hq
        next row hrow' =>
          have hb := hothers.2.task (binds_of_task hrow') hkept'.binds (Table.key_of_find? hrow')
          obtain rfl := Except.ok.inj hq
          show Kept request ⟨owner, request.idempotencyKey, row.id, row.seq⟩ _
          rw [show row.id = r.id from congrArg Binding.taskId hb,
            show row.seq = r.seq from congrArg Binding.seq hb]
          exact hkept'.exec hothers.2 _ (.recordBaseSha r.id (some sha))
      refine hrecord.bind ?_ fun e d' h => ⟨h.1, by simp [Leaves]⟩
      rintro q d' ⟨hs', hq⟩
      refine Ends.pure ⟨hs', fun r' c heq => ⟨hvalid, ?_⟩⟩
      obtain ⟨rfl, -⟩ := Prod.mk.inj (Except.ok.inj heq)
      exact hq q rfl
    next =>
      refine Ends.pure ⟨hs, fun r' c heq => ⟨hvalid, ?_⟩⟩
      obtain ⟨rfl, -⟩ := Prod.mk.inj (Except.ok.inj heq)
      exact hkept

/-- A request that `submit` admits is kept under its key. -/
theorem ends_submit_admits (hs : d.store.Sound) :
    Ends env.handle (Service.submit cfg request owner)
      (fun x d' => d'.store.Sound ∧ Leaves cfg request owner x d'.store) d := by
  unfold Service.submit
  cases hvalid : Service.validate cfg request with
  | error f => exact Ends.throw ⟨hs, by simp [Leaves]⟩
  | ok u =>
      have hrepo := repository_of_valid hvalid
      have hfail : ∀ (e : Exn) (d' : Desk), d'.store.Sound →
          d'.store.Sound ∧ Leaves cfg request owner (.error e) d'.store :=
        fun e d' hs => ⟨hs, by simp [Leaves]⟩
      have hasks₁ : Co.Makes Asks (Service.resolveBaseSha cfg request owner) := by
        unfold Service.resolveBaseSha
        split
        · split
          · trivial
          · split
            · trivial
            · refine Co.Makes.bind (makes_ext (.inr (.inl ⟨_, _, _, rfl⟩))) fun r => ?_
              split <;> trivial
        · trivial
      have hasks₂ : Co.Makes Asks (Service.checkRetryOf request owner) := by
        unfold Service.checkRetryOf
        split
        · trivial
        · refine Co.Makes.bind (makes_db (.inl ⟨_, _, rfl⟩)) fun r => ?_
          split <;> trivial
      have hasks₃ : Co.Makes Asks Service.checkPressure := by
        refine Co.Makes.bind (makes_ext (.inr (.inr rfl))) fun r => ?_
        split <;> trivial
      refine (ends_asks hasks₁ hs).bind (fun sha d' hs => ?_) hfail
      refine (ends_asks hasks₂ hs).bind (fun _ d' hs => ?_) hfail
      refine (ends_asks hasks₃ hs).bind (fun _ d' hs => ?_) hfail
      refine (ends_enrol hs hrepo).bind ?_ fun e d' h => hfail e d' h.1
      rintro ⟨r, created⟩ d' ⟨hs, r', created', heq, hbinds, hrow⟩
      obtain ⟨rfl, rfl⟩ := Prod.mk.inj (Except.ok.inj heq)
      exact ends_settle_admitted hs hvalid hbinds hrow

theorem kept_atSubmission (env : Surroundings) (request : CreateTaskRequest)
    (owner : Option OwnerId) {b : Binding}
    {original : CreateTaskRequest} (hs : s.Sound) (h : Kept original b s.ledger) :
    (env.atSubmission request owner s).Sound ∧
      Kept original b (env.atSubmission request owner s).ledger := by
  have hstep : ∀ {s : Store} (c : Call), s.Sound ∧ Kept original b s.ledger →
      (env.others c s).Sound ∧ Kept original b (env.others c s).ledger :=
    fun c hs => ⟨env.sound_others c hs.1, hs.2.others env c hs.1⟩
  refine hstep _ (hstep _ ?_)
  have hauth : (env.afterAuthorization request owner s).Sound ∧
      Kept original b (env.afterAuthorization request owner s).ledger := by
    unfold Surroundings.afterAuthorization
    split
    · exact hstep _ ⟨hs, h⟩
    · exact ⟨hs, h⟩
  unfold Surroundings.afterLookup
  split
  · exact hauth
  · exact hstep _ hauth

end Course

/-! ### Replays -/

theorem eq_of_matches {r : TaskRecord} {request request' : CreateTaskRequest}
    (h : Service.matchesExisting r request = true) (h' : Service.matchesExisting r request' = true)
    (hkey : request'.idempotencyKey = request.idempotencyKey) : request' = request := by
  simp only [Service.matchesExisting, decide_eq_true_eq] at h h'
  obtain ⟨hrepo, hprompt, hbase, hretry, hmodel⟩ := h
  obtain ⟨hrepo', hprompt', hbase', hretry', hmodel'⟩ := h'
  cases request
  cases request'
  simp only [CreateTaskRequest.mk.injEq]
  exact ⟨hrepo'.symm.trans hrepo, hprompt'.symm.trans hprompt, hkey, hbase'.symm.trans hbase,
    hretry'.symm.trans hretry, hmodel'.symm.trans hmodel⟩

/-- A request was admitted, and its key is used again, whatever happened since. The same
request is answered with its task exactly if `submit` finds the storage without pressure
and the task that it retries. Another one is a conflict while the payload is stored,
exactly if it is also valid. No task row is changed. -/
theorem replay_answered {cfg : Config} {before : List (Time × Op)} {s₀ : Store}
    (hbefore : run initialized before = some s₀) {env : Surroundings} {request : CreateTaskRequest}
    {owner : Option OwnerId} {record : TaskRecord} {created : Bool} {d : Desk}
    (hadmitted : env.served cfg request owner s₀ = some (.ok (record, created), d))
    {later : List (Time × Op)} {s : Store} (hlater : run d.store later = some s)
    (env' : Surroundings) {request' : CreateTaskRequest}
    (hkey : request'.idempotencyKey = request.idempotencyKey)
    (hauth : env'.Authorized cfg request' owner) :
    ∃ x d', env'.served cfg request' owner s = some (x, d') ∧ d'.wrote = false ∧
      (request' = request →
        ((∃ r, x = .ok (r, false) ∧ r.id = record.id ∧ r.seq = record.seq) ↔
          env'.Admissible request owner s)) ∧
      (request' ≠ request →
        (∃ row, (env'.atSubmission request' owner s).ledger.tasks.find? record.id = some row ∧
          row.payloadExpired = false) →
        (x = .error (.taskConflict request.idempotencyKey record.id) ↔
          Service.validate cfg request' = .ok () ∧ env'.Admissible request' owner s)) := by
  -- The first run has left the request under its key, where it stays.
  have hs₀ : s₀.Sound := (sound_initialized.run hbefore).1
  have hfirst : Ends env.handle (Service.submit cfg request owner)
      (fun x d' => d'.store.Sound ∧ Leaves cfg request owner x d'.store) ⟨s₀, false⟩ :=
    ends_submit_admits hs₀
  obtain ⟨x₀, d₀, hrun₀, hsound, hleaves⟩ := hfirst
  obtain ⟨rfl, rfl⟩ := Prod.mk.inj (Option.some.inj (hrun₀.symm.trans hadmitted))
  obtain ⟨hvalid, hkept⟩ := hleaves record created rfl
  obtain ⟨hsound', hkept'⟩ := kept_atSubmission env' request' owner (hsound.run hlater).1
    (Kept.run hsound hkept hlater)
  obtain ⟨x, d', hrun, hwrote, hcourse⟩ := ends_submit_kept (d := ⟨s, false⟩) hauth hsound'.2 hkept'
    rfl hkey
  refine ⟨x, d', hrun, hwrote, ?_, ?_⟩
  · rintro rfl
    cases hcourse with
    | refused e hno he =>
        refine ⟨?_, fun h => absurd ⟨hvalid, h⟩ hno⟩
        rintro ⟨r, heq, -⟩
        simp at heq
    | found r _ hadm hr hrow =>
        refine ⟨fun _ => hadm, fun _ => ⟨r, ?_, congrArg Binding.taskId hr, congrArg Binding.seq hr⟩⟩
        have hmatch : r.payloadExpired = true ∨ Service.matchesExisting r request' = true := by
          rcases hrow with hsome | ⟨-, hexp⟩
          · exact hkept'.row r hsome
          · exact .inl hexp
        unfold settled
        rcases hmatch with h | h <;> simp [h]
  · rintro hne ⟨row, hrow', hret⟩
    cases hcourse with
    | refused e hno he =>
        refine ⟨fun heq => ?_, fun h => absurd h hno⟩
        exact absurd (Except.error.inj heq) (he _ _)
    | found r hvalid' hadm hr hrow =>
        refine ⟨fun _ => ⟨hvalid', hadm⟩, fun _ => ?_⟩
        obtain rfl : r = row := by
          rcases hrow with hsome | ⟨hnone, -⟩
          · exact Option.some.inj (hsome.symm.trans hrow')
          · rw [hnone] at hrow'
            simp at hrow'
        have hmatch : Service.matchesExisting r request = true :=
          (hkept'.row r hrow').resolve_left (by simp [hret])
        have hdiff : Service.matchesExisting r request' = false := by
          cases hm : Service.matchesExisting r request' with
          | false => rfl
          | true => exact absurd (eq_of_matches hmatch hm hkey) hne
        simp only [settled, hret, hdiff, Bool.not_false, Bool.and_self, if_true]
        rw [show r.idempotencyKey = request.idempotencyKey from congrArg Binding.idempotencyKey hr,
          show r.id = record.id from congrArg Binding.taskId hr]

/-- Nobody else does anything, and the storage has room. -/
def calm : Surroundings where
  others _ s := s
  reaches _ _ := ⟨[], rfl⟩
  clock _ := 1
  uuid s := s.issued.sum + 1
  fresh _ h := absurd (List.single_le_sum (fun _ _ => Nat.zero_le _) _ h) (Nat.not_succ_le_self _)
  resolve _ _ _ := .ok "sha"
  pressure := none

def sample : Config where
  deployment := "sample"
  sandboxName := fun _ => "gg-sample"
  capacity := 1
  admissionEnabled := true
  hasVault := false
  hasVerifier := false
  hasAuthorization := false
  eventPayload := fun e _ => e.kind
  terminalRetention := days 30
  tombstoneRetention := days 90

def sampleRequest : CreateTaskRequest :=
  { repository := none, prompt := "p", idempotencyKey := "k", baseRef := none, retryOf := none,
    model := "z-ai/glm-5.3-flashx" }

/-- The task and whether it is new. -/
def answer? (o : Option (Except Exn (TaskRecord × Bool) × Desk)) : Option (TaskId × Nat × Bool) :=
  o.bind fun x =>
    match x.1 with
    | .ok (r, created) => some (r.id, r.seq, created)
    | .error _ => none

theorem of_answer? {o : Option (Except Exn (TaskRecord × Bool) × Desk)} {t : TaskId} {n : Nat}
    {created : Bool} (h : answer? o = some (t, n, created)) :
    ∃ r d, o = some (.ok (r, created), d) ∧ r.id = t ∧ r.seq = n := by
  obtain ⟨⟨x, d⟩, rfl, hx⟩ := Option.bind_eq_some_iff.mp h
  dsimp only at hx
  split at hx
  next r c =>
    obtain ⟨rfl, rfl, rfl⟩ := by simpa using hx
    exact ⟨r, d, rfl, rfl, rfl⟩
  next => simp at hx

/-- The task ends, and its payload is retired and purged before the request comes again. -/
theorem replay_answered_purged :
    ∃ record d s r d', calm.served sample sampleRequest none initialized =
        some (.ok (record, true), d) ∧ run d.store retention = some s ∧
      s.ledger.tasks.find? record.id = none ∧
      calm.served sample sampleRequest none s = some (.ok (r, false), d') ∧ d'.wrote = false ∧
      r.id = record.id ∧ r.seq = record.seq := by
  have hfirst : answer? (calm.served sample sampleRequest none initialized) = some (1, 1, true) := by
    decide +kernel
  obtain ⟨record, d, hrun, hid, hseq⟩ := of_answer? hfirst
  have hpurged : ((calm.served sample sampleRequest none initialized).bind fun x =>
      (run x.2.store retention).map fun s => (s.ledger.tasks.find? 1).isNone) = some true := by
    decide +kernel
  rw [hrun, Option.bind_some] at hpurged
  obtain ⟨s, hlater, hnone⟩ := Option.map_eq_some_iff.mp hpurged
  have hinit : run initialized [] = some initialized := rfl
  have hauth : calm.Authorized sample sampleRequest none := trivial
  obtain ⟨x, d', hserved, hwrote, hsame, -⟩ := replay_answered hinit hrun hlater calm rfl hauth
  obtain ⟨r, rfl, hr⟩ := (hsame rfl).mpr ⟨by simp [sampleRequest], rfl⟩
  exact ⟨record, d, s, r, d', hrun, hlater, by rw [hid]; simpa using hnone, hserved, hwrote, hr⟩

/-- The storage is under pressure when the request comes again. -/
def pressed : Surroundings := { calm with pressure := some "storage pressure" }

/-- A replay is refused for want of storage that it does not need. -/
theorem replay_refused :
    ¬ ∀ (before later : List (Time × Op)) (s₀ s : Store) (env env' : Surroundings)
      (request : CreateTaskRequest) (owner : Option OwnerId) (record : TaskRecord) (created : Bool)
      (d : Desk), run initialized before = some s₀ →
      env.served sample request owner s₀ = some (.ok (record, created), d) →
      run d.store later = some s → env'.Authorized sample request owner →
      ∃ r d', env'.served sample request owner s = some (.ok (r, false), d') ∧
        r.id = record.id ∧ r.seq = record.seq := by
  intro hclaim
  have hfirst : answer? (calm.served sample sampleRequest none initialized) = some (1, 1, true) := by
    decide +kernel
  obtain ⟨record, d, hrun, -, -⟩ := of_answer? hfirst
  obtain ⟨r, d', hserved, -⟩ := hclaim [] [] _ _ calm pressed sampleRequest none record true d rfl
    hrun rfl trivial
  have hrefused : ((calm.served sample sampleRequest none initialized).bind fun x =>
      answer? (pressed.served sample sampleRequest none x.2.store)) = none := by decide +kernel
  rw [hrun, Option.bind_some, hserved] at hrefused
  simp [answer?] at hrefused

end GgAgent.Records
