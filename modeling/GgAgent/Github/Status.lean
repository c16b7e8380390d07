import GgAgent.Github.Connections
import GgAgent.Lib.Pool

/-!
The status route of a GitHub connection, among everything else that happens to it.

The route reads the token, asks GitHub with it, and writes what the answer says in another
transaction. Everything that other routes do to the store can come in between; each of
those is one event here. `connects` records for which owners a connect has committed.
-/

namespace GgAgent.Github

open GgAgent.Lib
open Store (Report Consistent listed statusFor rowOf)

/-! ### The route -/

/-- What `identity_and_installations` gives. -/
inductive Answer
  | unauthorized
  | pending
  | unavailable
  | identity (githubId : Int) (login : String) (items : List Item)
  deriving DecidableEq, Repr

inductive Call
  | barrier
  | current (ownerId : String)
  | identify (token : String)
  | markRevoked (ownerId : String)
  | refresh (ownerId : String) (githubId : Int) (items : List Item)
  deriving DecidableEq, Repr

@[reducible] def Call.Out : Call → Type
  | .barrier => Except Exn Unit
  | .current _ => Except Exn (Option (Int × String × Option String × ConnectionStatus))
  | .identify _ => Answer
  | .markRevoked _ => Except Exn Unit
  | .refresh _ _ _ => Except Exn Report

abbrev Routine (α : Type) := Co Call.Out Exn α

def barrier : Routine Unit := ExceptT.mk (Prog.perform Call.barrier)

def current (ownerId : String) :
    Routine (Option (Int × String × Option String × ConnectionStatus)) :=
  ExceptT.mk (Prog.perform (Call.current ownerId))

def identify (token : String) : Routine Answer :=
  ExceptT.mk (Prog.call (Call.identify token) fun r => .ret (.ok r))

def markRevoked (ownerId : String) : Routine Unit :=
  ExceptT.mk (Prog.perform (Call.markRevoked ownerId))

def refresh (ownerId : String) (githubId : Int) (items : List Item) : Routine Report :=
  ExceptT.mk (Prog.perform (Call.refresh ownerId githubId items))

/-- The authorization is gone. -/
def lost (ownerId login : String) : Routine Report := do
  markRevoked ownerId
  barrier
  pure ⟨"revoked", some login, []⟩

/-- The answer of GitHub is written. -/
def settleAnswer (ownerId : String) (githubId : Int) (login : String) : Answer → Routine Report
  | .unauthorized | .pending => lost ownerId login
  | .unavailable => throw (.http 503 "GitHub unavailable")
  | .identity verifiedId _ items =>
    if verifiedId ≠ githubId then lost ownerId login
    else do
      let result ← refresh ownerId githubId items
      barrier
      pure result

/-- `GET /auth/github`, for a user who is signed in. -/
def status (ownerId : String) : Routine Report := do
  barrier
  match ← current ownerId with
  | none => pure ⟨"disconnected", none, []⟩
  | some (githubId, login, token, connectionStatus) =>
    match token with
    | none => pure ⟨"revoked", some login, []⟩
    | some token =>
      if connectionStatus = .revoked then pure ⟨"revoked", some login, []⟩
      else do
        let answer ← identify token
        settleAnswer ownerId githubId login answer

/-! ### The machine -/

structure State where
  store : Store
  /-- The owners of the connects that have committed. -/
  connects : List String

/-- A call of the route. -/
structure Pid where
  number : Nat
  ownerId : String
  deriving DecidableEq, Repr

/-- What the outside decides of a call: whether SQLite or the checkpoint fails, and the
answer of GitHub. -/
structure Oracle where
  fails : Bool
  answer : Answer

def unavailable : Exn := .http 503 "GitHub connection unavailable"

/-- A transaction of the store, which SQLite may refuse. -/
def State.transact {α : Type} (o : Oracle) (f : Store → Except Exn α × Store) (s : State) :
    Except Exn α × State :=
  if o.fails then (.error unavailable, s) else ((f s.store).1, { s with store := (f s.store).2 })

def State.answer (o : Oracle) : (c : Call) → State → Option (c.Out × State)
  | .barrier, s =>
    some (if o.fails then .error (.http 503 "state persistence unavailable") else .ok (), s)
  | .current ownerId, s =>
    some (if o.fails then .error unavailable else .ok (s.store.current ownerId), s)
  | .identify _, s => some (o.answer, s)
  | .markRevoked ownerId, s => some (s.transact o (Store.markRevoked ownerId))
  | .refresh ownerId githubId items, s => some (s.transact o (Store.refresh ownerId githubId items))

/-- A connect that goes through is recorded. -/
def State.happen (op : Operation) (s : State) : State where
  store := op.apply s.store
  connects := match op with
    | .connect ownerId githubId login token items =>
      match (s.store.connect ownerId githubId login token items).1 with
      | .ok _ => s.connects ++ [ownerId]
      | .error _ => s.connects
    | _ => s.connects

def server : Machine Pid Call.Out (Except Exn Report) State where
  Oracle := Oracle
  Job := Unit
  Event := Operation
  answer _ := State.answer
  job p _ s := some ((status p.ownerId).run, s)
  event op s := some (s.happen op)
  kills _ := false

abbrev System := Pool Pid Call.Out (Except Exn Report) State

def System.init : System := ⟨⟨.init, []⟩, fun _ => none⟩

abbrev History := List (Entry Call.Out State)

/-! ### What the route changes -/

/-- The call writes for this owner only. -/
def Call.Of (ownerId : String) : Call → Prop
  | .current o | .markRevoked o | .refresh o _ _ => o = ownerId
  | _ => True

instance (ownerId : String) (c : Call) : Decidable (c.Of ownerId) := by
  cases c <;> unfold Call.Of <;> infer_instance

/-- Every call of the route is one for its owner. -/
def own : server.Cond where
  call p _ c _ _ := c.Of p.ownerId

theorem makes_status (ownerId : String) : Co.Makes (Call.Of ownerId) (status ownerId) := by
  have hbarrier : Co.Makes (Call.Of ownerId) barrier := ⟨trivial, fun _ => trivial⟩
  have hlost : ∀ login, Co.Makes (Call.Of ownerId) (lost ownerId login) := fun login =>
    Co.Makes.bind ⟨rfl, fun _ => trivial⟩ fun _ => Co.Makes.bind hbarrier fun _ => trivial
  refine Co.Makes.bind hbarrier fun _ => Co.Makes.bind ⟨rfl, fun _ => trivial⟩ fun row => ?_
  split
  next => trivial
  next githubId login token connectionStatus =>
    split
    next => trivial
    next token =>
      split
      next => trivial
      next =>
        refine Co.Makes.bind ⟨trivial, fun _ => trivial⟩ fun answer => ?_
        cases answer with
        | unauthorized => exact hlost login
        | pending => exact hlost login
        | unavailable => trivial
        | identity verifiedId _ items =>
            simp only [settleAnswer]
            split
            next => exact hlost login
            next =>
              exact Co.Makes.bind ⟨rfl, fun _ => trivial⟩ fun _ =>
                Co.Makes.bind hbarrier fun _ => trivial

theorem consistent_transact {α : Type} {o : Oracle} {f : Store → Except Exn α × Store} {s : State}
    (hs : s.store.Consistent) (hf : (f s.store).2.Consistent) : (s.transact o f).2.store.Consistent := by
  unfold State.transact
  split
  next => exact hs
  next => exact hf

theorem consistent_answer {o : Oracle} {c : Call} {s s' : State} {a : c.Out}
    (hs : s.store.Consistent) (ha : s.answer o c = some (a, s')) : s'.store.Consistent := by
  cases c with
  | barrier | current | identify =>
      obtain ⟨-, rfl⟩ := Prod.mk.inj (Option.some.inj ha)
      exact hs
  | markRevoked ownerId =>
      have hpair := Option.some.inj ha
      rw [show s' = (s.transact o (Store.markRevoked ownerId)).2 by rw [hpair]]
      exact consistent_transact hs (Store.consistent_markRevoked hs)
  | refresh ownerId githubId items =>
      have hpair := Option.some.inj ha
      rw [show s' = (s.transact o (Store.refresh ownerId githubId items)).2 by rw [hpair]]
      exact consistent_transact hs (Store.consistent_refresh hs)

theorem sound : Machine.Sound (M := server) {} (fun s => s.store.Consistent) (fun _ _ _ => True)
    (fun _ _ _ => True) (fun _ _ _ => True) own where
  rely_trans _ _ _ _ _ _ := trivial
  guar_rely _ _ _ _ _ _ := trivial
  job p _ s prog s' hinv hj := by
    obtain ⟨rfl, rfl⟩ := Prod.mk.inj (Option.some.inj hj)
    refine ⟨hinv, trivial, ?_⟩
    refine Prog.Safe.mono (Prog.Safe.of_makes (A := fun _ => True) (makes_status p.ownerId)
      (fun _ _ _ _ => trivial) ?_ trivial) fun _ _ _ => trivial
    rintro c ⟨s, h⟩ a ⟨s', h'⟩ hc - hs ⟨-, ⟨o, ha⟩, rfl⟩
    exact ⟨consistent_answer hs ha, ⟨trivial, decide_eq_true hc⟩, trivial⟩
  event op s s' hinv _ he := by
    obtain rfl := Option.some.inj he
    exact ⟨consistent_apply hinv op, fun _ _ => trivial⟩

/-! ### An answer for an earlier token -/

/-- The connection of the owner and its active installations are what they were. -/
def Untouched (ownerId : String) (s s' : Store) : Prop :=
  s'.connections.find? ownerId = s.connections.find? ownerId ∧
    ∀ id, s'.activeItem ownerId id = s.activeItem ownerId id

/-- SQLite takes all rows of the list. -/
def storable (items : List Item) : Bool := items.all fun x => Store.fits x.id && 0 < x.id

/-- The write says what is there already, or nothing at all: no connection is left to
revoke, the account is another one, or the list is the one the connection has. -/
def Harmless (o : Oracle) (s : Store) : Call → Prop
  | .markRevoked ownerId =>
    o.fails = true ∨ ∀ r, s.connections.find? ownerId = some r → r.status = .revoked
  | .refresh ownerId githubId items =>
    o.fails = true ∨ s.refreshable ownerId githubId = none ∨ storable items = false ∨
      ∀ id, s.activeItem ownerId id = listed items id
  | _ => True

theorem activeItem_markRevoked {ownerId : String} {s : Store} (id : Int) :
    (s.markRevoked ownerId).2.activeItem ownerId id = none :=
  (Store.activeItem_remove (fun o => o = ownerId) (s.revoke fun r => r.ownerId = ownerId)
    ownerId id).trans (if_pos (decide_eq_true rfl))

theorem untouched_markRevoked {ownerId : String} {s : Store} (hs : s.Consistent) :
    Untouched ownerId s (s.markRevoked ownerId).2 ↔
      ∀ r, s.connections.find? ownerId = some r → r.status = .revoked := by
  have hfind : (s.markRevoked ownerId).2.connections.find? ownerId =
      (s.connections.find? ownerId).map fun r => if r.ownerId = ownerId then
        { r with status := .revoked, tokenCiphertext := none } else r := by
    have hrevoke := Table.find?_modifyWhere s.connections (fun r => r.ownerId = ownerId)
      (fun r => { r with status := .revoked, tokenCiphertext := none }) (fun _ => rfl) ownerId
    simp only [decide_eq_true_eq] at hrevoke
    exact hrevoke
  constructor
  · intro h r hr
    have howner : r.ownerId = ownerId := Table.key_of_find? hr
    have hsame := hfind.symm.trans h.1
    rw [hr, Option.map_some, if_pos howner] at hsame
    exact (congrArg Connection.status (Option.some.inj hsame)).symm
  · intro h
    have hnone : ∀ id, s.activeItem ownerId id = none := by
      intro id
      by_contra hne
      obtain ⟨x, hx⟩ := Option.ne_none_iff_exists'.mp hne
      have hactive : s.hasActive ownerId = true := Store.hasActive_iff.mpr ⟨id, x, hx⟩
      obtain ⟨i, hi, -⟩ := Option.map_eq_some_iff.mp hx
      have hfound := (Option.filter_eq_some_iff.mp hi).1
      obtain ⟨r, hr⟩ := Option.ne_none_iff_exists'.mp
        (hs.foreign ownerId id (by rw [hfound]; simp))
      have hconnected := (hs.active ownerId r hr).mpr hactive
      rw [h r hr] at hconnected
      cases hconnected
    refine ⟨?_, fun id => (activeItem_markRevoked id).trans (hnone id).symm⟩
    rw [hfind]
    cases hr : s.connections.find? ownerId with
    | none => rfl
    | some r =>
        have howner : r.ownerId = ownerId := Table.key_of_find? hr
        have hstatus := h r hr
        have htoken := (hs.token ownerId r hr).mpr hstatus
        obtain ⟨ownerId', githubUserId, login, tokenCiphertext, status⟩ := r
        obtain rfl : status = .revoked := hstatus
        obtain rfl : tokenCiphertext = none := htoken
        simp

/-- The transaction goes through for a list that SQLite takes. -/
theorem putAll_ok {ownerId : String} (items : List Item) {s : Store}
    (hsome : s.connections.find? ownerId ≠ none) :
    (∃ s', items.foldlM (Store.putInstallation ownerId) s = .ok s') ↔ storable items = true := by
  induction items generalizing s with
  | nil => exact ⟨fun _ => rfl, fun _ => ⟨s, rfl⟩⟩
  | cons x items ih =>
      have hput : (∃ s₁, s.putInstallation ownerId x = .ok s₁) ↔
          (Store.fits x.id && 0 < x.id) = true := by
        unfold Store.putInstallation
        obtain ⟨r, hr⟩ := Option.ne_none_iff_exists'.mp hsome
        by_cases hfits : Store.fits x.id <;> by_cases hpos : x.id ≤ 0 <;> simp [hfits, hpos, hr]
        all_goals omega
      rw [List.foldlM_cons]
      cases hx : s.putInstallation ownerId x with
      | error e =>
          rw [hx] at hput
          have hbad : ¬ (Store.fits x.id && 0 < x.id) = true := fun h => by
            obtain ⟨s₁, hs₁⟩ := hput.mpr h
            cases hs₁
          have hno : storable (x :: items) ≠ true := by
            simp only [storable, List.all_cons, ne_eq, Bool.and_eq_true]
            exact fun h => hbad (by simpa using h.1)
          constructor
          · rintro ⟨s', hs'⟩
            cases hs'
          · exact fun h => absurd h hno
      | ok s₁ =>
          rw [hx] at hput
          obtain ⟨-, rfl⟩ := Store.putInstallation_eq hx
          have hgood := hput.mp ⟨_, rfl⟩
          have hall : storable (x :: items) = storable items := by
            simp only [storable, List.all_cons, hgood, Bool.true_and]
          rw [hall]
          exact ih hsome

theorem untouched_refresh {ownerId : String} {githubId : Int} {items : List Item} {s : Store}
    (hs : s.Consistent) : Untouched ownerId s (s.refresh ownerId githubId items).2 ↔
      s.refreshable ownerId githubId = none ∨ storable items = false ∨
        ∀ id, s.activeItem ownerId id = listed items id := by
  cases hrow : s.refreshable ownerId githubId with
  | none =>
      have hsame : (s.refresh ownerId githubId items).2 = s := by
        simp [Store.refresh, Store.write, hrow]
      rw [hsame]
      exact ⟨fun _ => .inl rfl, fun _ => ⟨rfl, fun _ => rfl⟩⟩
  | some r =>
      obtain ⟨hr, hgood⟩ := Option.filter_eq_some_iff.mp hrow
      simp only [Bool.and_eq_true, decide_eq_true_eq] at hgood
      have hconn : (s.removeInstallations fun o => o = ownerId).connections.find? ownerId ≠ none :=
        fun hnone => by cases hr.symm.trans hnone
      have hstorable := putAll_ok items hconn
      cases hrep : s.replaceInstallations ownerId items with
      | error e =>
          have hbad : storable items = false := by
            rw [← Bool.not_eq_true, ← hstorable]
            rintro ⟨s', hs'⟩
            cases hrep.symm.trans hs'
          have hsame : (s.refresh ownerId githubId items).2 = s := by
            simp only [Store.refresh, Store.write, hrow, hrep]
            rfl
          rw [hsame]
          exact ⟨fun _ => .inr (.inl hbad), fun _ => ⟨rfl, fun _ => rfl⟩⟩
      | ok s₁ =>
          have hgoes : storable items = true := hstorable.mp ⟨s₁, hrep⟩
          have hafter : (s.refresh ownerId githubId items).2 = { s₁ with
              connections := s₁.connections.modify ownerId fun r =>
                { r with status := statusFor items } } := by
            simp only [Store.refresh, Store.write, hrow, hrep]
            rfl
          obtain ⟨⟨installations, rfl⟩, -, -⟩ := Store.replace_spec hrep
          have hactive : ∀ id, (s.refresh ownerId githubId items).2.activeItem ownerId id =
              listed items id := by
            intro id
            rw [hafter]
            exact (Store.activeItem_replace hrep ownerId id).trans (if_pos rfl)
          have hfind : (s.refresh ownerId githubId items).2.connections.find? ownerId =
              some { r with status := statusFor items } := by
            rw [hafter]
            show (s.connections.modify ownerId _).find? ownerId = _
            rw [Table.find?_modify, if_pos rfl, hr]
            rfl
          constructor
          · rintro ⟨-, h⟩
            exact .inr (.inr fun id => (h id).symm.trans (hactive id))
          · rintro (h | h | h)
            · cases h
            · rw [hgoes] at h
              cases h
            · refine ⟨?_, fun id => (hactive id).trans (h id).symm⟩
              have hstatus : r.status = statusFor items := by
                have hsame : r.status = .connected ↔ statusFor items = .connected :=
                  (hs.active ownerId r hr).trans (Store.hasActive_listed h)
                have hrevoked := hgood.2
                by_cases hempty : items = []
                · have hpending : statusFor items = .pending := if_pos hempty
                  rw [hpending] at hsame ⊢
                  cases hst : r.status with
                  | pending => rfl
                  | connected => cases hsame.mp hst
                  | revoked => exact absurd hst hrevoked
                · have hconnected : statusFor items = .connected := if_neg hempty
                  rw [hconnected] at hsame ⊢
                  exact hsame.mpr rfl
              rw [hfind, hr, ← hstatus]

/-- A transaction that SQLite refuses changes nothing. -/
theorem untouched_transact {α : Type} {ownerId : String} {o : Oracle}
    {f : Store → Except Exn α × Store} {s : State} :
    Untouched ownerId s.store (s.transact o f).2.store ↔
      o.fails = true ∨ Untouched ownerId s.store (f s.store).2 := by
  unfold State.transact
  split
  next h => exact ⟨fun _ => .inl h, fun _ => ⟨rfl, fun _ => rfl⟩⟩
  next h => exact ⟨.inr, fun hor => hor.resolve_left h⟩

/-- The call has read the token before a connect of its owner committed. -/
def Stale (p : Pid) (h : History) (s : State) : Prop :=
  ∃ r s₀, ⟨.current p.ownerId, r, s₀⟩ ∈ h ∧ s₀.connects.count p.ownerId ≠ s.connects.count p.ownerId

/-- A status call that has read the token before a connect of its owner leaves the new
connection alone exactly if its write is harmless. -/
theorem stale_answer_iff {as : List server.Act} {w w' : System} {p : Pid} {o : Oracle} {c : Call}
    {k : c.Out → Prog Call.Out (Except Exn Report)} {h : History}
    (hr : server.run System.init as = some w) (hth : w.threads p = some ⟨.call c k, h⟩)
    (hs : server.step w (.call p o) = some w') :
    (Stale p h w.shared → Untouched p.ownerId w.shared.store w'.shared.store) ↔
      (Stale p h w.shared → Harmless o w.shared.store c) := by
  have hw := sound.run (fun _ _ => trivial) (w := System.init)
    ⟨Store.consistent_init, fun _ _ _ _ hth => by cases hth⟩ (Machine.keeps_trivial _ _) hr
  refine imp_congr_right fun _ => ?_
  simp only [Machine.step, hth] at hs
  obtain ⟨⟨a, s'⟩, ha, rfl⟩ := Option.map_eq_some_iff.mp hs
  have hown : c.Of p.ownerId :=
    of_decide_eq_true (hw.call (fun _ _ => trivial) hth ha rfl).2.1.2
  have ha' : w.shared.answer o c = some (a, s') := ha
  cases c with
  | barrier | current | identify =>
      obtain ⟨-, rfl⟩ := Prod.mk.inj (Option.some.inj ha')
      exact ⟨fun _ => trivial, fun _ => ⟨rfl, fun _ => rfl⟩⟩
  | markRevoked ownerId =>
      obtain rfl : ownerId = p.ownerId := hown
      rw [show s' = (w.shared.transact o (Store.markRevoked p.ownerId)).2 by rw [Option.some.inj ha']]
      exact untouched_transact.trans (or_congr_right (untouched_markRevoked hw.1))
  | refresh ownerId githubId items =>
      obtain rfl : ownerId = p.ownerId := hown
      rw [show s' = (w.shared.transact o (Store.refresh p.ownerId githubId items)).2 by
        rw [Option.some.inj ha']]
      exact untouched_transact.trans (or_congr_right (untouched_refresh hw.1))

/-! ### Two answers that come too late -/

def replying (answer : Answer) : Oracle := ⟨false, answer⟩

/-- The call for the user "u". -/
def page : Pid := ⟨0, "u"⟩

/-- A user connects, the route reads the token, and the user connects again. -/
def reconnected (githubId : Int) (login : String) : List server.Act :=
  [.event (.register "u"), .event (.connect "u" 1 "a" "old" [⟨7, "a", "User"⟩]),
    .start page (), .call page (replying .unavailable), .call page (replying .unavailable),
    .event (.connect "u" githubId login "new" [⟨8, login, "User"⟩])]

/-- The call is about to write, and a connect has committed since it read the token. -/
def late (w : System) : Bool :=
  match w.threads page with
  | some ⟨.call _ _, h⟩ => h.any fun
    | ⟨.current o, _, s⟩ => o = "u" && s.connects.count "u" ≠ w.shared.connects.count "u"
    | _ => false
  | _ => false

theorem stale_of_late {w : System} (h : late w = true) :
    ∃ c k hist, w.threads page = some ⟨.call c k, hist⟩ ∧ Stale page hist w.shared := by
  unfold late at h
  split at h
  next c k hist hth =>
    obtain ⟨⟨c', r, s⟩, hmem, hlate⟩ := List.any_eq_true.mp h
    split at hlate
    next o r s heq =>
      rw [heq] at hmem
      simp only [ne_eq, decide_not, Bool.and_eq_true, decide_eq_true_eq, Bool.not_eq_true',
        decide_eq_false_iff_not] at hlate
      obtain ⟨rfl, hcount⟩ := hlate
      exact ⟨c, k, hist, hth, r, s, hmem, hcount⟩
    next => cases hlate
  next => cases h

/-- The page is about to refresh the installations of an identity. -/
def refreshing (owner : String) (identity : Nat) (w : System) : Bool :=
  match w.threads page with
  | some ⟨.call (.refresh o id _) _, _⟩ => o = owner && id = identity
  | _ => false

/-- GitHub's answer for the account of the old token, after the user has linked another one. -/
theorem stale_answer_iff_otherAccount :
    ∃ w w' c k h, server.run System.init (reconnected 2 "b" ++
        [.call page (replying (.identity 1 "a" [⟨7, "a", "User"⟩]))]) = some w ∧
      w.threads page = some ⟨.call c k, h⟩ ∧
      server.step w (.call page (replying .unavailable)) = some w' ∧ Stale page h w.shared ∧
      Untouched "u" w.shared.store w'.shared.store := by
  have hrun : ((server.run System.init (reconnected 2 "b" ++
      [.call page (replying (.identity 1 "a" [⟨7, "a", "User"⟩]))])).bind fun w =>
        (server.step w (.call page (replying .unavailable))).map fun _ => late w &&
          w.shared.store.refreshable "u" 1 = none && refreshing "u" 1 w) = some true := by
    decide +kernel
  obtain ⟨w, hr, hrun⟩ := Option.bind_eq_some_iff.mp hrun
  obtain ⟨w', hs, hrun⟩ := Option.map_eq_some_iff.mp hrun
  simp only [Bool.and_eq_true, decide_eq_true_eq] at hrun
  obtain ⟨⟨hlate, hnone⟩, hcall⟩ := hrun
  obtain ⟨c, k, h, hth, hstale⟩ := stale_of_late hlate
  refine ⟨w, w', c, k, h, hr, hth, hs, hstale, ?_⟩
  refine (stale_answer_iff hr hth hs).mpr (fun _ => ?_) hstale
  rw [refreshing, hth] at hcall
  split at hcall
  next o id items k' h' heq =>
    obtain ⟨rfl, -⟩ := Prog.call.inj (Thread.mk.inj (Option.some.inj heq)).1
    simp only [Bool.and_eq_true, decide_eq_true_eq] at hcall
    obtain ⟨rfl, rfl⟩ := hcall
    exact .inr (.inl hnone)
  next => cases hcall

/-- GitHub rejects the old token, and the new one is revoked. -/
theorem stale_answer_revokes :
    ¬ ∀ (as : List server.Act) (w w' : System) (p : Pid) (o : Oracle) (c : Call)
      (k : c.Out → Prog Call.Out (Except Exn Report)) (h : History),
      server.run System.init as = some w → w.threads p = some ⟨.call c k, h⟩ →
      server.step w (.call p o) = some w' → Stale p h w.shared →
      Untouched p.ownerId w.shared.store w'.shared.store := by
  intro hall
  have hrun : ((server.run System.init (reconnected 1 "a" ++
      [.call page (replying .unauthorized)])).bind fun w =>
        (server.step w (.call page (replying .unavailable))).map fun w' => late w &&
          (w.shared.store.current "u").isSome &&
          w'.shared.store.current "u" ≠ w.shared.store.current "u") = some true := by decide +kernel
  obtain ⟨w, hr, hrun⟩ := Option.bind_eq_some_iff.mp hrun
  obtain ⟨w', hs, hrun⟩ := Option.map_eq_some_iff.mp hrun
  simp only [ne_eq, decide_not, Bool.and_eq_true, Bool.not_eq_true',
    decide_eq_false_iff_not] at hrun
  obtain ⟨⟨hlate, -⟩, hchanged⟩ := hrun
  obtain ⟨c, k, h, hth, hstale⟩ := stale_of_late hlate
  have hsame := (hall _ w w' page _ c k h hr hth hs hstale).1
  refine hchanged ?_
  unfold Store.current
  rw [show w'.shared.store.connections.find? "u" = w.shared.store.connections.find? "u" from hsame]

end GgAgent.Github
