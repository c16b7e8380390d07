import GgAgent.Checkpoint.Safety
import GgAgent.Sessions.Local

/-!
Sessions are durable both ways, under every schedule and every crash.

What the tables have to keep is that a session stays and that a revoked one stays revoked
(`Grows`). A property that every write keeps is followed through the revisions of the
database: from one revision on it holds (`Since`), and once that revision is confirmed no
crash can take it away (`Lasting`). A session that is not lasting yet has a candidate among
the identity revisions of its owner, which `user` waits for.
-/

namespace GgAgent.Sessions

open GgAgent.Lib GgAgent.Lib.Co
open GgAgent.Checkpoint (Database Statement Pid execute replay upTo Recorded)

/-! ### The revisions of a database -/

section Revisions

variable {ρ : Type} {s s' : Checkpoint.State ρ} {P : List ρ → Prop} {r : Nat}

/-- The rows with the writes up to a revision. -/
def rowsAt (s : Checkpoint.State ρ) (r : Nat) : List ρ := replay s.start.rows (upTo r s.log)

/-- From revision `r` on the rows satisfy `P`. -/
def Since (r : Nat) (P : List ρ → Prop) (s : Checkpoint.State ρ) : Prop :=
  ∀ r', r ≤ r' → P (rowsAt s r')

theorem rowsAt_of_le (hs : Checkpoint.Inv s) (hr : s.db.revision ≤ r) : rowsAt s r = s.db.rows := by
  have hall : upTo r s.log = upTo s.db.revision s.log := by
    apply List.filter_congr
    intro w hw
    have hle := hs.log w hw
    simp only [decide_eq_decide]
    omega
  rw [rowsAt, hall]
  exact hs.db.2.symm

theorem Since.db (hs : Checkpoint.Inv s) (h : Since r P s) : P s.db.rows := by
  rw [← rowsAt_of_le hs (Nat.le_max_right r s.db.revision)]
  exact h _ (Nat.le_max_left _ _)

/-- What holds now has held since this revision. -/
theorem since_now (hs : Checkpoint.Inv s) (h : P s.db.rows) : Since s.db.revision P s := by
  intro r' hr'
  rw [rowsAt_of_le hs hr']
  exact h

theorem Since.recorded (h : Since r P s) {d : Database ρ} (hd : Recorded s d)
    (hr : r ≤ d.revision) : P d.rows := by
  rw [hd.2]
  exact h _ hr

theorem Since.of_log (h : Since r P s) (hlog : s'.log = s.log) (hstart : s'.start = s.start) :
    Since r P s' := by
  intro r' hr'
  rw [rowsAt, hlog, hstart]
  exact h r' hr'

/-- A write that keeps the property. -/
theorem Since.write (h : Since r P s) (hs : Checkpoint.Inv s) {skip : Bool}
    {body : List (Statement ρ)} (ha : (Checkpoint.Happening.write skip body).apply s = some s')
    (hP : P s.db.rows → P s'.db.rows) : Since r P s' := by
  have hs' := Checkpoint.inv_write skip body hs ha
  intro r' hr'
  by_cases hle : s'.db.revision ≤ r'
  · rw [rowsAt_of_le hs' hle]
    exact hP (h.db hs)
  · -- The copies of the earlier revisions are the same.
    have hsame : rowsAt s' r' = rowsAt s r' := by
      obtain rfl := Option.some.inj ha
      rw [rowsAt, Checkpoint.upTo_append, if_neg hle]
      rfl
    rw [hsame]
    exact h r' hr'

end Revisions

/-! ### Tables that grow -/

variable {ω : Type}

/-- The session was inserted, for this owner. -/
def Has (hash owner : String) (rows : List (Row ω)) : Prop :=
  ∃ x ∈ sessions rows, x.tokenHash = hash ∧ x.ownerId = owner

/-- The session was inserted and is revoked. -/
def Withdrawn (hash : String) (rows : List (Row ω)) : Prop :=
  hasSession rows hash = true ∧ ∀ x ∈ sessions rows, x.tokenHash = hash → x.revoked = true

structure Grows (rows rows' : List (Row ω)) : Prop where
  has : ∀ hash owner, Has hash owner rows → Has hash owner rows'
  withdrawn : ∀ hash, Withdrawn hash rows → Withdrawn hash rows'

section Tables

variable {rows rows' : List (Row ω)}

theorem hasSession_iff {hash : String} :
    hasSession rows hash = true ↔ ∃ x ∈ sessions rows, x.tokenHash = hash := by
  simp [hasSession]

theorem Grows.of_eq (h : sessions rows' = sessions rows) : Grows rows rows' := by
  refine ⟨fun hash owner hx => ?_, fun hash hx => ?_⟩
  · unfold Has
    rw [h]
    exact hx
  · unfold Withdrawn hasSession
    rw [h]
    exact hx

/-- A statement that leaves the sessions alone. -/
def Aside (q : Statement (Row ω)) : Prop := ∀ rows, sessions (q.exec rows).1 = sessions rows

theorem sessions_update {p : Row ω → Bool} {f : Row ω → Row ω}
    (hf : ∀ r, sessions [if p r then f r else r] = sessions [r]) :
    Aside (Statement.update p f) := by
  intro rows
  simp only [Statement.exec]
  induction rows with
  | nil => rfl
  | cons r rows ih =>
      have happend : ∀ (a : Row ω) (l : List (Row ω)),
          sessions (a :: l) = sessions [a] ++ sessions l := by
        intro a l
        exact List.filterMap_append (l := [a])
      rw [List.map_cons, happend, happend r, ih, hf]

theorem aside_setEmail (sub email : String) : Aside (setEmail sub email : Statement (Row ω)) := by
  apply sessions_update
  intro r
  cases r <;> simp only [] <;> split <;> rfl

theorem aside_setFlow (state : String) (p : GoogleFlow → Bool) (f : GoogleFlow → GoogleFlow) :
    Aside (setFlow state p f : Statement (Row ω)) := by
  apply sessions_update
  intro r
  cases r <;> simp only [] <;> split <;> rfl

theorem sessions_append (a b : List (Row ω)) : sessions (a ++ b) = sessions a ++ sessions b :=
  List.filterMap_append

theorem aside_insertUser (u : LocalUser) : Aside (.insert (.user u) : Statement (Row ω)) := by
  intro rows
  simp only [Statement.exec, sessions_append]
  exact List.append_nil _

theorem aside_insertFlow (f : GoogleFlow) : Aside (.insert (.flow f) : Statement (Row ω)) := by
  intro rows
  simp only [Statement.exec, sessions_append]
  exact List.append_nil _

theorem aside_foreign (q : Statement ω) : Aside (foreign q) := by
  cases q with
  | insert o =>
      intro rows
      simp only [foreign, Statement.exec, sessions_append]
      exact List.append_nil _
  | update p f =>
      apply sessions_update
      intro r
      cases r <;> simp only [] <;> split <;> rfl
  | delete p =>
      intro rows
      simp only [foreign, Statement.exec]
      induction rows with
      | nil => rfl
      | cons r rows ih =>
          cases r <;> simp_all [sessions, List.filter_cons]
          split <;> simp_all

theorem sessions_execute {body : List (Statement (Row ω))} (hbody : ∀ q ∈ body, Aside q)
    (rows : List (Row ω)) : sessions (execute body rows).1 = sessions rows := by
  induction body generalizing rows with
  | nil => rfl
  | cons q body ih =>
      simp only [execute]
      rw [ih (fun q' hq' => hbody q' (List.mem_cons_of_mem _ hq')),
        hbody q List.mem_cons_self rows]

theorem execute_append (a b : List (Statement (Row ω))) (rows : List (Row ω)) :
    (execute (a ++ b) rows).1 = (execute b (execute a rows).1).1 := by
  induction a generalizing rows with
  | nil => rfl
  | cons q a ih =>
      simp only [List.cons_append, execute]
      exact ih _

/-- The sessions after a revocation. -/
theorem sessions_setRevoked (hash : String) (rows : List (Row ω)) :
    sessions (execute [setRevoked hash] rows).1 =
      (sessions rows).map fun x => if x.tokenHash = hash then { x with revoked := true } else x := by
  simp only [execute, setRevoked, Statement.exec]
  induction rows with
  | nil => rfl
  | cons r rows ih =>
      cases r with
      | session x =>
          simp only [sessions, List.map_cons, List.filterMap_cons] at ih ⊢
          by_cases hx : x.tokenHash = hash
          · simp only [hx, decide_true, if_true, ih]
          · simp only [hx, decide_false, if_false, Bool.false_eq_true, ih]
      | user u => exact ih
      | flow f => exact ih
      | other o => exact ih

/-- A revocation, of any session. -/
theorem grows_setRevoked (hash : String) (rows : List (Row ω)) :
    Grows rows (execute [setRevoked hash] rows).1 := by
  refine ⟨?_, ?_⟩
  · rintro h owner ⟨x, hx, hhash, howner⟩
    refine ⟨if x.tokenHash = hash then { x with revoked := true } else x, ?_, ?_, ?_⟩
    · rw [sessions_setRevoked]
      exact List.mem_map_of_mem hx
    · split <;> exact hhash
    · split <;> exact howner
  · rintro h ⟨hhas, hrevoked⟩
    obtain ⟨x, hx, hhash⟩ := hasSession_iff.mp hhas
    refine ⟨hasSession_iff.mpr ⟨if x.tokenHash = hash then { x with revoked := true } else x, ?_, ?_⟩,
      ?_⟩
    · rw [sessions_setRevoked]
      exact List.mem_map_of_mem hx
    · split <;> exact hhash
    · intro y hy hyhash
      rw [sessions_setRevoked] at hy
      obtain ⟨z, hz, rfl⟩ := List.mem_map.mp hy
      by_cases heq : z.tokenHash = hash
      · rw [if_pos heq]
      · rw [if_neg heq] at hyhash ⊢
        exact hrevoked z hz hyhash

/-- The session that is revoked, if there is one. -/
theorem withdrawn_setRevoked {hash : String} (h : hasSession rows hash = true) :
    Withdrawn hash (execute [setRevoked hash] rows).1 := by
  obtain ⟨x, hx, hhash⟩ := hasSession_iff.mp h
  refine ⟨hasSession_iff.mpr ⟨{ x with revoked := true }, ?_, hhash⟩, ?_⟩
  · rw [sessions_setRevoked]
    refine List.mem_map.mpr ⟨x, hx, ?_⟩
    rw [if_pos hhash]
  · intro y hy hyhash
    rw [sessions_setRevoked] at hy
    obtain ⟨z, hz, rfl⟩ := List.mem_map.mp hy
    by_cases heq : z.tokenHash = hash
    · rw [if_pos heq]
    · rw [if_neg heq] at hyhash
      exact absurd hyhash heq

/-- A new session, whose hash is not taken. -/
theorem Grows.of_new {x : LocalSession} (h : sessions rows' = sessions rows ++ [x])
    (hnew : hasSession rows x.tokenHash = false) : Grows rows rows' := by
  refine ⟨?_, ?_⟩
  · rintro hash owner ⟨y, hy, hx⟩
    refine ⟨y, ?_, hx⟩
    rw [h]
    exact List.mem_append_left _ hy
  · rintro hash ⟨hhas, hrevoked⟩
    obtain ⟨y, hy, hhash⟩ := hasSession_iff.mp hhas
    refine ⟨hasSession_iff.mpr ⟨y, ?_, hhash⟩, ?_⟩
    · rw [h]
      exact List.mem_append_left _ hy
    · intro z hz hzhash
      rw [h] at hz
      rcases List.mem_append.mp hz with hz | hz
      · exact hrevoked z hz hzhash
      · obtain rfl := List.mem_singleton.mp hz
        rw [hzhash, hhas] at hnew
        cases hnew

/-- What the statements of `insert` do to the sessions. -/
theorem sessions_insert {cfg : Settings} {o : Oracle} {user : GoogleUser} {token owner : String}
    {body rest : List (Statement (Row ω))}
    (h : insertStatements cfg o user token rows = .ok (owner, body))
    (hrest : ∀ q ∈ rest, Aside q) :
    hasSession rows (cfg.tokenHash token) = false ∧
      sessions (execute (body ++ rest) rows).1 = sessions rows ++
        [⟨cfg.tokenHash token, owner, o.now + sessionSeconds, false⟩] := by
  -- One statement about the user, then the insertion.
  have hbody : ∀ q : Statement (Row ω), Aside q → ∀ x,
      sessions (execute ([q, .insert (.session x)] ++ rest) rows).1 = sessions rows ++ [x] := by
    intro q hq x
    rw [execute_append, sessions_execute hrest]
    show sessions ((q.exec rows).1 ++ [.session x]) = _
    rw [sessions_append, hq rows]
    rfl
  unfold insertStatements at h
  simp only at h
  split at h
  next => cases h
  next =>
    split at h
    next => cases h
    next hnew =>
      refine ⟨Bool.eq_false_iff.mpr hnew, ?_⟩
      split at h
      next u hu =>
        obtain ⟨rfl, rfl⟩ := Prod.mk.inj (Except.ok.inj h)
        exact hbody _ (aside_setEmail _ _) _
      next =>
        split at h
        next => cases h
        next =>
          obtain ⟨rfl, rfl⟩ := Prod.mk.inj (Except.ok.inj h)
          exact hbody _ (aside_insertUser _) _

end Tables

/-! ### What is kept -/

/-- `P` holds now and in every database that a crash can restore. -/
def Lasting (P : List (Row ω) → Prop) (s : State ω) : Prop :=
  ∃ r, Since r P s.coord ∧ ((r : Int) ≤ s.coord.confirmedRevision ∨ r = 0)

structure Inv (s : State ω) : Prop where
  coord : Checkpoint.Inv s.coord
  /-- A session is lasting, or a candidate of its owner says when it will be. -/
  tracked : ∀ x ∈ sessions s.coord.db.rows,
    Lasting (Has x.tokenHash x.ownerId) s ∨
      ∃ r, (x.tokenHash, r) ∈ s.identityRevisions x.ownerId ∧
        Since r (Has x.tokenHash x.ownerId) s.coord

/-- Every property that grows with the tables holds from the same revision on. -/
def Follows (s s' : State ω) : Prop :=
  ∀ P : List (Row ω) → Prop, (∀ rows rows', Grows rows rows' → P rows → P rows') →
    ∀ r, Since r P s.coord → Since r P s'.coord

structure Rely (p : Pid) (s s' : State ω) : Prop where
  coord : Checkpoint.Rely p s.coord s'.coord
  follows : Follows s s'

structure Guar (p : Pid) (s s' : State ω) : Prop where
  coord : Checkpoint.Guar p s.coord s'.coord
  follows : Follows s s'

section Steps

variable {cfg : Settings} {p : Pid} {s s' : State ω}

theorem Follows.refl (s : State ω) : Follows s s := fun _ _ _ h => h

theorem Follows.trans {a b c : State ω} (hab : Follows a b) (hbc : Follows b c) : Follows a c :=
  fun P hP r h => hbc P hP r (hab P hP r h)

theorem Follows.of_log (hlog : s'.coord.log = s.coord.log) (hstart : s'.coord.start = s.coord.start) :
    Follows s s' := fun _ _ _ h => h.of_log hlog hstart

theorem Rely.refl (p : Pid) (s : State ω) : Rely p s s := ⟨.refl p _, .refl s⟩

theorem Guar.refl (p : Pid) (s : State ω) : Guar p s s :=
  ⟨⟨.refl _, fun q _ => .refl q _⟩, .refl s⟩

theorem Follows.has (h : Follows s s') {hash owner : String} {r : Nat}
    (hr : Since r (Has hash owner) s.coord) : Since r (Has hash owner) s'.coord :=
  h _ (fun _ _ hg => hg.has hash owner) r hr

theorem Follows.lasting (h : Follows s s')
    (hc : s.coord.confirmedRevision ≤ s'.coord.confirmedRevision) {P : List (Row ω) → Prop}
    (hP : ∀ rows rows', Grows rows rows' → P rows → P rows') (hl : Lasting P s) : Lasting P s' := by
  obtain ⟨r, hr, hcases⟩ := hl
  refine ⟨r, h P hP r hr, ?_⟩
  rcases hcases with hle | hzero
  · exact .inl (Int.le_trans hle hc)
  · exact .inr hzero

/-- A step that leaves the sessions and the candidates alone. -/
theorem Inv.of_follows (hs : Inv s) (hcoord : Checkpoint.Inv s'.coord) (h : Follows s s')
    (hc : s.coord.confirmedRevision ≤ s'.coord.confirmedRevision)
    (hsame : sessions s'.coord.db.rows = sessions s.coord.db.rows)
    (hid : s'.identityRevisions = s.identityRevisions) : Inv s' := by
  refine ⟨hcoord, fun x hx => ?_⟩
  rw [hsame] at hx
  rcases hs.tracked x hx with hl | ⟨r, hmem, hr⟩
  · exact .inl (h.lasting hc (fun _ _ hg => hg.has _ _) hl)
  · refine .inr ⟨r, ?_, h.has hr⟩
    rw [hid]
    exact hmem

theorem follows_write {skip : Bool} {body : List (Statement (Row ω))} (hs : Inv s)
    (ha : (Checkpoint.Happening.write skip body).apply s.coord = some s'.coord)
    (hg : Grows s.coord.db.rows s'.coord.db.rows) : Follows s s' :=
  fun _ hP _ hr => hr.write hs.coord ha (hP _ _ hg)

theorem rely_write {skip : Bool} {body : List (Statement (Row ω))} (hs : Inv s)
    (ha : (Checkpoint.Happening.write skip body).apply s.coord = some s'.coord) (q : Pid) :
    Checkpoint.Rely q s.coord s'.coord :=
  (Checkpoint.sound.event (.write skip body) s.coord s'.coord hs.coord rfl ha).2 rfl q

/-- A transaction of this component. -/
theorem commit_spec {body : List (Statement (Row ω))} (hs : Inv s)
    (hg : Grows s.coord.db.rows (execute body s.coord.db.rows).1)
    (hnew : ∀ x ∈ sessions (execute body s.coord.db.rows).1,
      (∃ y ∈ sessions s.coord.db.rows, y.tokenHash = x.tokenHash ∧ y.ownerId = x.ownerId) ∨
        (x.tokenHash, s.coord.db.revision + 1) ∈ s.identityRevisions x.ownerId) :
    Inv (s.commit body) ∧ Guar p s (s.commit body) := by
  have ha : (Checkpoint.Happening.write false body).apply s.coord = some (s.commit body).coord := rfl
  have hrows : (s.commit body).coord.db = ⟨s.coord.db.revision + 1, (execute body s.coord.db.rows).1⟩ := by
    show s.coord.db.write false body = _
    simp [Database.write]
  have hinv := Checkpoint.inv_write false body hs.coord ha
  have hfollows : Follows s (s.commit body) := by
    apply follows_write hs ha
    rw [hrows]
    exact hg
  refine ⟨⟨hinv, fun x hx => ?_⟩,
    ⟨⟨Checkpoint.later_write false body ha, fun q _ => rely_write hs ha q⟩, hfollows⟩⟩
  rw [hrows] at hx
  rcases hnew x hx with ⟨y, hy, hhash, howner⟩ | hmem
  · -- It was there before.
    rcases hs.tracked y hy with hl | ⟨r, hmem, hr⟩
    · left
      rw [← hhash, ← howner]
      exact hfollows.lasting (Int.le_refl _) (fun _ _ hg => hg.has _ _) hl
    · right
      rw [← hhash, ← howner]
      exact ⟨r, hmem, hfollows.has hr⟩
  · right
    refine ⟨s.coord.db.revision + 1, hmem, ?_⟩
    have hnow : Since (s.commit body).coord.db.revision (Has x.tokenHash x.ownerId)
        (s.commit body).coord := by
      refine since_now hinv ?_
      rw [hrows]
      exact ⟨x, hx, rfl, rfl⟩
    rw [hrows] at hnow
    exact hnow

/-- A candidate for a session that does not exist yet. -/
theorem record_inv (owner : String) {hash : String} (hs : Inv s)
    (hnew : hasSession s.coord.db.rows hash = false) : Inv (s.record owner hash) := by
  refine ⟨hs.coord, fun x hx => ?_⟩
  rcases hs.tracked x hx with hl | ⟨r, hmem, hr⟩
  · exact .inl hl
  · refine .inr ⟨r, ?_, hr⟩
    have hne : x.tokenHash ≠ hash := by
      rintro rfl
      have hhas : hasSession s.coord.db.rows x.tokenHash = true := hasSession_iff.mpr ⟨x, hx, rfl⟩
      rw [hhas] at hnew
      cases hnew
    show _ ∈ Function.update s.identityRevisions owner _ x.ownerId
    by_cases howner : x.ownerId = owner
    · rw [howner, Function.update_self]
      rw [howner] at hmem
      exact List.mem_append_left _ (List.mem_filter.mpr ⟨hmem, by simpa using hne⟩)
    · rw [Function.update_of_ne howner]
      exact hmem

theorem transact_spec {o : Oracle} {body : List (Statement (Row ω))} {r : Except Exn Nat}
    (hs : Inv s) (h : transact o body s = (r, s'))
    (hg : Grows s.coord.db.rows (execute body s.coord.db.rows).1)
    (hnew : ∀ x ∈ sessions (execute body s.coord.db.rows).1,
      ∃ y ∈ sessions s.coord.db.rows, y.tokenHash = x.tokenHash ∧ y.ownerId = x.ownerId) :
    Inv s' ∧ Guar p s s' := by
  unfold transact at h
  split at h
  next =>
    obtain ⟨-, rfl⟩ := Prod.mk.inj h
    exact commit_spec hs hg fun x hx => .inl (hnew x hx)
  next =>
    obtain ⟨-, rfl⟩ := Prod.mk.inj h
    exact ⟨hs, .refl p s⟩

/-- A transaction that leaves the sessions alone. -/
theorem transact_aside {o : Oracle} {body : List (Statement (Row ω))} {r : Except Exn Nat}
    (hs : Inv s) (h : transact o body s = (r, s')) (hbody : ∀ q ∈ body, Aside q) :
    Inv s' ∧ Guar p s s' := by
  have hsame := sessions_execute hbody s.coord.db.rows
  refine transact_spec hs h (.of_eq hsame) fun x hx => ?_
  rw [hsame] at hx
  exact ⟨x, hx, rfl, rfl⟩

theorem insert_spec {o : Oracle} {user : GoogleUser} {token : String}
    {rest : List (Statement (Row ω))} {r : Except Exn Nat} (hs : Inv s)
    (h : insert cfg o user token rest s = (r, s')) (hrest : ∀ q ∈ rest, Aside q) :
    Inv s' ∧ Guar p s s' := by
  unfold insert at h
  split at h
  next =>
    obtain ⟨-, rfl⟩ := Prod.mk.inj h
    exact ⟨hs, .refl p s⟩
  next owner body hbody =>
    obtain ⟨hnew, hsessions⟩ := sessions_insert hbody hrest
    have hrecord := record_inv owner hs hnew
    have hguar : Guar p s (s.record owner (cfg.tokenHash token)) :=
      ⟨⟨.refl _, fun q _ => .refl q _⟩, .refl s⟩
    simp only at h
    split at h
    next =>
      obtain ⟨-, rfl⟩ := Prod.mk.inj h
      exact ⟨hrecord, hguar⟩
    next =>
      obtain ⟨-, rfl⟩ := Prod.mk.inj h
      have hcandidate : ∀ x ∈ sessions (execute (body ++ rest) s.coord.db.rows).1,
          (∃ y ∈ sessions s.coord.db.rows, y.tokenHash = x.tokenHash ∧ y.ownerId = x.ownerId) ∨
            (x.tokenHash, s.coord.db.revision + 1) ∈
              (s.record owner (cfg.tokenHash token)).identityRevisions x.ownerId := by
        intro x hx
        rw [hsessions] at hx
        rcases List.mem_append.mp hx with hx | hx
        · exact .inl ⟨x, hx, rfl, rfl⟩
        · right
          obtain rfl := List.mem_singleton.mp hx
          show _ ∈ Function.update s.identityRevisions owner _ owner
          rw [Function.update_self]
          exact List.mem_append_right _ (List.mem_singleton.mpr rfl)
      obtain ⟨hinv, hcommit⟩ :=
        commit_spec (p := p) hrecord (.of_new hsessions hnew) hcandidate
      exact ⟨hinv, ⟨hcommit.coord, hcommit.follows⟩⟩

/-! ### The reading of a session -/

/-- The session is part of every snapshot from one on that is confirmed. -/
def Confirmed (hash owner : String) (s : State ω) : Prop :=
  ∃ r, Since r (Has hash owner) s.coord ∧ (r : Int) ≤ s.coord.confirmedRevision

/-- The session is there and not revoked. -/
def Active (hash owner : String) (s : State ω) : Prop :=
  ∃ x ∈ sessions s.coord.db.rows, x.tokenHash = hash ∧ x.ownerId = owner ∧ x.revoked = false

theorem sessionUser_spec {rows : List (Row ω)} {hash : String} {now : Time} {u : LocalUser}
    (h : sessionUser rows hash now = some u) :
    ∃ x ∈ sessions rows, x.tokenHash = hash ∧ x.ownerId = u.id ∧ x.revoked = false := by
  obtain ⟨x, hx, hu⟩ := Option.bind_eq_some_iff.mp h
  have hcond := List.find?_some hx
  have howner := List.find?_some hu
  simp only [Bool.and_eq_true, decide_eq_true_eq, Bool.not_eq_true'] at hcond howner
  exact ⟨x, List.mem_of_find?_eq_some hx, hcond.1.1, howner.symm, hcond.1.2⟩

theorem le_foldl_max (l : List (String × Nat)) (a : Nat) :
    a ≤ l.foldl (fun r x => max r x.2) a ∧
      ∀ x ∈ l, x.2 ≤ l.foldl (fun r x => max r x.2) a := by
  induction l generalizing a with
  | nil => exact ⟨Nat.le_refl _, fun x hx => by cases hx⟩
  | cons y l ih =>
      obtain ⟨hinit, hmem⟩ := ih (max a y.2)
      rw [List.foldl_cons]
      refine ⟨by omega, fun x hx => ?_⟩
      rcases List.mem_cons.mp hx with rfl | hx
      · omega
      · exact hmem x hx

/-- Only candidates that are settled are forgotten. -/
theorem prune_inv {owner : String} (hs : Inv s) :
    Inv { s with identityRevisions := Function.update s.identityRevisions owner
                   (s.unconfirmed owner) } := by
  refine ⟨hs.coord, fun x hx => ?_⟩
  rcases hs.tracked x hx with hl | ⟨r, hmem, hr⟩
  · exact .inl hl
  · by_cases howner : x.ownerId = owner
    · by_cases hc : s.coord.confirmedRevision < (r : Int)
      · refine .inr ⟨r, ?_, hr⟩
        have hhas : hasSession s.coord.db.rows x.tokenHash = true := hasSession_iff.mpr ⟨x, hx, rfl⟩
        show _ ∈ Function.update s.identityRevisions owner _ x.ownerId
        rw [howner, Function.update_self]
        rw [howner] at hmem
        exact List.mem_filter.mpr ⟨hmem, by simp [hc, hhas]⟩
      · exact .inl ⟨r, hr, .inl (Int.not_lt.mp hc)⟩
    · refine .inr ⟨r, ?_, hr⟩
      show _ ∈ Function.update s.identityRevisions owner _ x.ownerId
      rw [Function.update_of_ne howner]
      exact hmem

theorem lookup_spec {now : Time} {token : String} {f : Found} (hs : Inv s)
    (h : lookup cfg now token s = (f, s')) :
    Inv s' ∧ Guar p s s' ∧ ∀ id email, f = .user id email →
      Confirmed (cfg.tokenHash token) id s' ∧ Active (cfg.tokenHash token) id s' := by
  unfold lookup at h
  split at h
  next =>
    obtain ⟨rfl, rfl⟩ := Prod.mk.inj h
    exact ⟨hs, .refl p s, fun _ _ h => by cases h⟩
  next u hu =>
    obtain ⟨x, hx, hhash, howner, hactive⟩ := sessionUser_spec hu
    simp only at h
    split at h
    next =>
      obtain ⟨rfl, rfl⟩ := Prod.mk.inj h
      exact ⟨prune_inv hs, ⟨⟨.refl _, fun q _ => .refl q _⟩, .refl s⟩, fun _ _ h => by cases h⟩
    next hconfirmed =>
      obtain ⟨rfl, rfl⟩ := Prod.mk.inj h
      refine ⟨prune_inv hs, ⟨⟨.refl _, fun q _ => .refl q _⟩, .refl s⟩, ?_⟩
      rintro id email heq
      obtain ⟨rfl, -⟩ := Found.user.inj heq
      obtain ⟨hstart, hpending⟩ := le_foldl_max (s.unconfirmed u.id) s.startupRevision
      refine ⟨?_, x, hx, hhash, howner, hactive⟩
      rcases hs.tracked x hx with ⟨r, hr, hle | rfl⟩ | ⟨r, hmem, hr⟩
      · rw [hhash, howner] at hr
        exact ⟨r, hr, hle⟩
      · rw [hhash, howner] at hr
        refine ⟨0, hr, ?_⟩
        show ((0 : Nat) : Int) ≤ s.coord.confirmedRevision
        have hle := Int.not_lt.mp hconfirmed
        omega
      · -- The candidate was waited for.
        rw [hhash, howner] at hr hmem
        refine ⟨r, hr, ?_⟩
        show (r : Int) ≤ s.coord.confirmedRevision
        by_contra hlt
        have hhas : hasSession s.coord.db.rows (cfg.tokenHash token) = true :=
          hasSession_iff.mpr ⟨x, hx, hhash⟩
        have hin : (cfg.tokenHash token, r) ∈ s.unconfirmed u.id :=
          List.mem_filter.mpr ⟨hmem, by simp [Int.not_le.mp hlt, hhas]⟩
        have hle := hpending _ hin
        have hle' := Int.not_lt.mp hconfirmed
        simp only at hle
        omega

/-! ### The calls -/

/-- Calls of the coordinator leave the tables and their log alone. -/
theorem answer_log {ρ : Type} {s s' : Checkpoint.State ρ} {o : Checkpoint.Oracle}
    {c : Checkpoint.Call} {r : c.Out} (h : Checkpoint.State.answer p o c s = some (r, s')) :
    s'.db = s.db ∧ s'.log = s.log ∧ s'.start = s.start := by
  cases c with
  | acquire l =>
      simp only [Checkpoint.State.answer] at h
      split at h
      · obtain ⟨-, rfl⟩ := Prod.mk.inj (Option.some.inj h)
        exact ⟨rfl, rfl, rfl⟩
      · split at h
        · obtain ⟨-, rfl⟩ := Prod.mk.inj (Option.some.inj h)
          exact ⟨rfl, rfl, rfl⟩
        · cases h
  | publish =>
      simp only [Checkpoint.State.answer] at h
      split at h <;> obtain ⟨-, rfl⟩ := Prod.mk.inj (Option.some.inj h) <;> exact ⟨rfl, rfl, rfl⟩
  | shield i =>
      simp only [Checkpoint.State.answer] at h
      split at h
      · obtain ⟨-, rfl⟩ := Prod.mk.inj (Option.some.inj h)
        exact ⟨rfl, rfl, rfl⟩
      · split at h
        all_goals first
          | cases h
            done
          | obtain ⟨-, rfl⟩ := Prod.mk.inj (Option.some.inj h)
            exact ⟨rfl, rfl, rfl⟩
  | notified =>
      simp only [Checkpoint.State.answer] at h
      split at h
      · obtain ⟨-, rfl⟩ := Prod.mk.inj (Option.some.inj h)
        exact ⟨rfl, rfl, rfl⟩
      · split at h
        · cases h
        · obtain ⟨-, rfl⟩ := Prod.mk.inj (Option.some.inj h)
          exact ⟨rfl, rfl, rfl⟩
  | sleep =>
      simp only [Checkpoint.State.answer] at h
      split at h <;> obtain ⟨-, rfl⟩ := Prod.mk.inj (Option.some.inj h) <;> exact ⟨rfl, rfl, rfl⟩
  | never => cases h
  | revision | confirmedRevision | lastError | release _ | createCommit | commitDone _ | confirm _
  | raised _ | enlist | rounds =>
      obtain ⟨-, rfl⟩ := Prod.mk.inj (Option.some.inj h)
      exact ⟨rfl, rfl, rfl⟩

/-- A call outside the coordinator. -/
def Outer : Call → Prop
  | .checkpoint _ => False
  | _ => True

theorem answer_spec {o : Oracle} {c : Call} {r : c.Out} (hc : Outer c) (hs : Inv s)
    (h : State.answer cfg p o c s = some (r, s')) : Inv s' ∧ Guar p s s' := by
  have hsame : ∀ {s₁ : State ω}, s₁.coord = s.coord → s₁.identityRevisions = s.identityRevisions →
      Inv s₁ ∧ Guar p s s₁ := by
    intro s₁ hcoord hid
    refine ⟨hs.of_follows ?_ ?_ ?_ ?_ hid, ⟨?_, ?_⟩⟩
    · rw [hcoord]
      exact hs.coord
    · exact .of_log (by rw [hcoord]) (by rw [hcoord])
    · exact Int.le_of_eq (by rw [hcoord])
    · rw [hcoord]
    · rw [hcoord]
      exact ⟨.refl _, fun q _ => .refl q _⟩
    · exact .of_log (by rw [hcoord]) (by rw [hcoord])
  cases c with
  | checkpoint c => exact hc.elim
  | createSession user =>
      simp only [State.answer] at h
      split at h <;> obtain ⟨-, rfl⟩ := Prod.mk.inj (Option.some.inj h)
      · exact hsame rfl rfl
      · exact insert_spec hs rfl fun q hq => by cases hq
  | lookup token =>
      simp only [State.answer] at h
      split at h <;> obtain ⟨-, rfl⟩ := Prod.mk.inj (Option.some.inj h)
      · obtain ⟨hinv, hguar, -⟩ := lookup_spec (p := p) hs (show lookup cfg o.now token s = (_, _) from rfl)
        exact ⟨hinv, hguar⟩
      · exact hsame rfl rfl
  | revoke token =>
      refine transact_spec hs (Option.some.inj h) (grows_setRevoked _ _) fun x hx => ?_
      rw [sessions_setRevoked] at hx
      obtain ⟨y, hy, rfl⟩ := List.mem_map.mp hx
      refine ⟨y, hy, ?_, ?_⟩ <;> split <;> rfl
  | startFlow returnTo =>
      simp only [State.answer] at h
      split at h <;> obtain ⟨-, rfl⟩ := Prod.mk.inj (Option.some.inj h)
      · exact hsame rfl rfl
      · apply transact_aside hs rfl
        intro q hq
        obtain rfl := List.mem_singleton.mp hq
        exact aside_insertFlow _
  | acquireCallback =>
      simp only [State.answer] at h
      split at h
      · obtain ⟨-, rfl⟩ := Prod.mk.inj (Option.some.inj h)
        exact hsame rfl rfl
      · split at h
        · obtain ⟨-, rfl⟩ := Prod.mk.inj (Option.some.inj h)
          exact hsame rfl rfl
        · cases h
  | releaseCallback =>
      obtain ⟨-, rfl⟩ := Prod.mk.inj (Option.some.inj h)
      exact hsame rfl rfl
  | readFlow state browser =>
      simp only [State.answer] at h
      split at h <;> obtain ⟨-, rfl⟩ := Prod.mk.inj (Option.some.inj h) <;> exact hsame rfl rfl
  | claimFlow state =>
      obtain ⟨-, rfl⟩ := Prod.mk.inj (Option.some.inj h)
      apply transact_aside hs rfl
      intro q hq
      obtain rfl := List.mem_singleton.mp hq
      exact aside_setFlow _ _ _
  | exchange state code verifier nonce =>
      simp only [State.answer] at h
      split at h <;> obtain ⟨-, rfl⟩ := Prod.mk.inj (Option.some.inj h) <;> exact hsame rfl rfl
  | completeFlow state token user =>
      have hrest : ∀ q ∈ [(finishFlow cfg state token user (s.coord.db.revision + 1) :
          Statement (Row ω))], Aside q := by
        intro q hq
        obtain rfl := List.mem_singleton.mp hq
        exact aside_setFlow _ _ _
      cases user with
      | none => exact transact_aside hs (Option.some.inj h) hrest
      | some u =>
          simp only [State.answer] at h
          split at h
          · obtain ⟨-, rfl⟩ := Prod.mk.inj (Option.some.inj h)
            exact hsame rfl rfl
          · obtain ⟨hinv, hguar⟩ := insert_spec (p := p) hs
              (show insert cfg o u token _ s = (_, _) from rfl) hrest
            split at h <;> obtain ⟨-, rfl⟩ := Prod.mk.inj (Option.some.inj h)
            · exact ⟨⟨hinv.coord, hinv.tracked⟩, ⟨hguar.coord, hguar.follows⟩⟩
            · exact ⟨hinv, hguar⟩

end Steps

/-! ### The programs -/

abbrev Hist (ω : Type) := List (Entry Call.Out (State ω))

/-- The contract of a coroutine. -/
abbrev contract (cfg : Settings) (ω : Type) (p : Pid) :
    Prog.Contract Call.Out (State ω × Hist ω) :=
  Machine.contract (M := process cfg ω) {} Inv Rely Guar p

/-- Safe from every state, with nothing to establish. -/
def Fine (cfg : Settings) (ω : Type) (p : Pid) {α : Type} (r : Routine α) : Prop :=
  ∀ w, Safe (contract cfg ω p) r (fun _ _ => True) (fun _ _ => True) w

section Programs

variable {cfg : Settings} {p : Pid} {α β : Type} {s : State ω} {hist : Hist ω}

theorem follows_answer {s₁ : Checkpoint.State (Row ω)} {o : Checkpoint.Oracle}
    {c : Checkpoint.Call} {r : c.Out}
    (h : Checkpoint.State.answer p o c s.coord = some (r, s₁)) : Follows s { s with coord := s₁ } := by
  obtain ⟨-, hlog, hstart⟩ := answer_log h
  exact .of_log hlog hstart

/-- A program of the coordinator, among the others of this process. -/
theorem safe_coordinated {prog : Prog Checkpoint.Call.Out α}
    (post : α → Checkpoint.State (Row ω) → Prop)
    (h : prog.Safe (Checkpoint.contract (Row ω) p) (fun a w => post a w.1) (s.coord, [])) :
    (coordinated prog).Safe (contract cfg ω p) (fun a w => post a w.1.coord) (s, hist) := by
  refine Prog.Safe.mono (Prog.Safe.lift (R := fun a b => a.1 = b.1.coord) ?_ h rfl) ?_
  · intro c a t t₁ r t₂ hR hinv hrely hstep
    obtain ⟨-, ⟨o, ho⟩, -⟩ := hstep
    obtain ⟨⟨r', s₂⟩, ha, heq⟩ := Option.map_eq_some_iff.mp ho
    obtain ⟨rfl, ht₂⟩ := Prod.mk.inj heq
    have hrely' : Checkpoint.Rely p a.1 t₁.1.coord := by
      rw [hR]
      exact hrely.1.coord
    refine ⟨(t₁.1.coord, a.2), (s₂, ⟨c, r', t₁.1.coord⟩ :: a.2), hinv.coord, ⟨hrely', rfl⟩,
      ⟨rfl, ⟨o.coord, ha⟩, rfl⟩, ?_⟩
    intro hinv₂ hguar
    have hfollows := follows_answer ha
    rw [ht₂] at hfollows
    obtain ⟨hdb, -, -⟩ := answer_log ha
    refine ⟨Inv.of_follows hinv ?_ hfollows ?_ ?_ ?_, ⟨⟨?_, hfollows⟩, ?_⟩, ?_⟩
    · rw [← ht₂]
      exact hinv₂
    · rw [← ht₂]
      exact hguar.1.later.confirmed
    · rw [← ht₂]
      show sessions s₂.db.rows = _
      rw [hdb]
    · rw [← ht₂]
    · rw [← ht₂]
      exact hguar.1
    · exact Machine.Cond.last_trivial p _
    · rw [← ht₂]
  · rintro a w ⟨b, hb, hpost⟩
    rw [← hb]
    exact hpost

/-- A wait for a revision that returns has seen it confirmed. -/
theorem safe_durable (revision : Nat) :
    Safe (contract cfg ω p) (durable revision)
      (fun _ w => (revision : Int) ≤ w.1.coord.confirmedRevision) (fun _ _ => True) (s, hist) := by
  have hsafe : Prog.Safe (Checkpoint.contract (Row ω) p) (Checkpoint.ensureDurable revision).run
      (fun a w => a.isOk = true → (revision : Int) ≤ w.1.confirmedRevision) (s.coord, []) := by
    refine Prog.Safe.mono (Checkpoint.runs_ensureDurable (p := p) (revision : Int) s.coord []) ?_
    intro a w hw
    cases a with
    | ok u => exact fun _ => hw
    | error e => exact fun h => by cases h
  refine Prog.Safe.bind (Prog.Safe.mono (safe_coordinated
    (fun a s => a.isOk = true → (revision : Int) ≤ s.confirmedRevision) hsafe) ?_)
  intro a w hw
  cases a with
  | ok u => exact hw rfl
  | error e => cases e <;> trivial

theorem makes_durable (revision : Nat) :
    Makes (fun c => ∃ c', c = Call.checkpoint c') (durable revision) := by
  refine Prog.Makes.bind (Prog.makes_lift _) fun r => ?_
  cases r with
  | ok u => trivial
  | error e => cases e <;> trivial

/-- One call outside the coordinator. -/
theorem safe_call {c : Call} {k : c.Out → Prog Call.Out β} {post : β → State ω × Hist ω → Prop}
    (hc : Outer c)
    (hk : ∀ s₁ o r s₂, Inv s₁ → State.answer cfg p o c s₁ = some (r, s₂) →
      (k r).Safe (contract cfg ω p) post (s₂, ⟨c, r, s₁⟩ :: hist)) :
    (Prog.call c k).Safe (contract cfg ω p) post (s, hist) := by
  rintro ⟨s₁, h₁⟩ hinv ⟨-, hh⟩ r ⟨s₂, h₂⟩ ⟨-, ⟨o, ho⟩, hh₂⟩
  obtain rfl : h₁ = hist := hh
  obtain rfl : h₂ = ⟨c, r, s₁⟩ :: h₁ := hh₂
  obtain ⟨hinv₂, hguar⟩ := answer_spec hc hinv ho
  exact ⟨hinv₂, ⟨hguar, Machine.Cond.last_trivial p _⟩, hk s₁ o r s₂ hinv ho⟩

theorem Fine.pure (a : α) : Fine cfg ω p (pure a) := fun _ => trivial

theorem Fine.throw (e : Exn) : Fine cfg ω p (throw e : Routine α) := fun _ => trivial

theorem Fine.bind {r : Routine α} {f : α → Routine β} (hr : Fine cfg ω p r)
    (hf : ∀ a, Fine cfg ω p (f a)) : Fine cfg ω p (r >>= f) :=
  fun w => Safe.seq (hr w) fun a w _ => hf a w

theorem Fine.attempt {r : Routine α} (hr : Fine cfg ω p r) : Fine cfg ω p (attempt r) :=
  fun w => Safe.attempt (hr w)

theorem Fine.call (c : Call) (hc : Outer c) (f : c.Out → Except Exn α) :
    Fine cfg ω p (ExceptT.mk (Prog.call c fun r => .ret (f r))) := by
  intro w
  refine safe_call hc fun s₁ o r s₂ _ _ => ?_
  generalize f r = x
  cases x <;> trivial

theorem Fine.durable (revision : Nat) : Fine cfg ω p (durable revision) :=
  fun _ => Safe.mono (safe_durable revision) (fun _ _ _ => trivial) fun _ _ h => h

/-- The loop rule, for an assertion at its end. -/
theorem safe_loop {body : Unit → Routine (Unit ⊕ β)} {post : β → State ω × Hist ω → Prop}
    (hbody : ∀ w, Safe (contract cfg ω p) (body ()) (fun r w => match r with
      | .inl _ => True
      | .inr b => post b w) (fun _ _ => True) w) :
    Safe (contract cfg ω p) (loop () body) post (fun _ _ => True) (s, hist) := by
  have hrounds : Safe (contract cfg ω p) (ask (.checkpoint .rounds)) (fun _ _ => True)
      (fun _ _ => True) (s, hist) := by
    have hask : (Prog.perform Checkpoint.Call.rounds).Safe (Checkpoint.contract (Row ω) p)
        (fun _ _ => True) (s.coord, []) := by
      refine Checkpoint.safe_call Checkpoint.stable_true (fun s o r s' _ hinv ha => ?_) trivial []
      obtain ⟨hinv', hguar, -⟩ :=
        Checkpoint.still_keeps (c := .rounds) Checkpoint.stable_true trivial trivial hinv ha
      exact ⟨hinv', hguar, fun _ => trivial⟩
    show Prog.Safe _ (coordinated (Prog.perform Checkpoint.Call.rounds) >>= fun r =>
      Prog.ret (Except.ok r)) _ _
    refine Prog.Safe.bind (Prog.Safe.mono (safe_coordinated (fun _ _ => True) hask) ?_)
    intro _ _ _
    trivial
  refine Safe.seq hrounds fun n w _ => ?_
  refine Safe.loopFrom (I := fun _ _ => True) (fun _ => ?_) (fun _ w _ => ?_) n () w trivial
  · intro w₁ _ _ r
    cases r
  · exact Safe.mono (hbody w) (fun r w hr => by cases r <;> exact hr) fun _ _ h => h

/-- `user` answers only for a session that is confirmed and not revoked. -/
theorem safe_user (token : String) : Safe (contract cfg ω p) (user token)
    (fun u w => Confirmed (cfg.tokenHash token) u.1 w.1 ∧ Active (cfg.tokenHash token) u.1 w.1)
    (fun _ _ => True) (s, hist) := by
  refine safe_loop fun w => ?_
  refine Safe.seq (Q := fun f w => ∀ id email, f = Found.user id email →
    Confirmed (cfg.tokenHash token) id w.1 ∧ Active (cfg.tokenHash token) id w.1) ?_ ?_
  · refine safe_call (c := .lookup token) trivial fun s₁ o r s₂ hinv ha => ?_
    simp only [State.answer] at ha
    split at ha
    · obtain ⟨rfl, rfl⟩ := Prod.mk.inj (Option.some.inj ha)
      exact (lookup_spec (p := p) hinv rfl).2.2
    · obtain ⟨rfl, rfl⟩ := Prod.mk.inj (Option.some.inj ha)
      trivial
  · intro f w hf
    cases f with
    | absent => trivial
    | pending revision =>
        exact Safe.seq (safe_durable revision) fun _ _ _ => trivial
    | user id email => exact hf id email rfl

theorem Fine.user (token : String) : Fine cfg ω p (user token) :=
  fun _ => Safe.mono (safe_user token) (fun _ _ _ => trivial) fun _ _ h => h

/-- The call has revoked a session that was there. -/
def Revoking (cfg : Settings) (token : String) (e : Entry Call.Out (State ω)) : Prop :=
  e.call = .revoke token ∧ hasSession e.found.coord.db.rows (cfg.tokenHash token) = true

/-- A revocation that returns is lasting, if the session was there. -/
theorem safe_revoke (token : String) : Safe (contract cfg ω p) (revoke token)
    (fun _ w => (∃ e ∈ w.2, Revoking cfg token e) → Lasting (Withdrawn (cfg.tokenHash token)) w.1)
    (fun _ _ => True) (s, []) := by
  refine Safe.seq (Q := fun n w => (∃ e ∈ w.2, Revoking cfg token e) →
    Since n (Withdrawn (cfg.tokenHash token)) w.1.coord) ?_ fun n w hw => ?_
  · refine safe_call (c := .revoke token) trivial fun s₁ o r s₂ hinv ha => ?_
    cases r with
    | error e => trivial
    | ok n =>
        rintro ⟨e, he, -, hhas⟩
        obtain rfl := List.mem_singleton.mp he
        have htransact : transact o [setRevoked (cfg.tokenHash token)] s₁ = (.ok n, s₂) :=
          Option.some.inj ha
        have hinv₂ := (answer_spec (p := p) (c := .revoke token) trivial hinv ha).1
        unfold transact at htransact
        split at htransact
        next =>
          obtain ⟨hn, rfl⟩ := Prod.mk.inj htransact
          obtain rfl := Except.ok.inj hn
          have hnow : Since (s₁.commit [setRevoked (cfg.tokenHash token)]).coord.db.revision
              (Withdrawn (cfg.tokenHash token))
              (s₁.commit [setRevoked (cfg.tokenHash token)]).coord := by
            refine since_now hinv₂.coord ?_
            exact withdrawn_setRevoked hhas
          exact hnow
        next => cases (Prod.mk.inj htransact).1
  · refine Safe.mono (Safe.frame_makes (A := fun w => (∃ e ∈ w.2, Revoking cfg token e) →
      Since n (Withdrawn (cfg.tokenHash token)) w.1.coord) (makes_durable n) ?_ ?_
      (@safe_durable _ cfg p w.1 w.2 n) hw) ?_ ?_
    · rintro w w' hA ⟨hrely, hh⟩ he
      rw [hh] at he
      exact hrely.follows _ (fun _ _ hg => hg.withdrawn _) n (hA he)
    · rintro c w r w' ⟨c', rfl⟩ hA ⟨-, -, hh⟩ ⟨hguar, -⟩ ⟨e, he, hrevoking⟩
      rw [hh] at he
      rcases List.mem_cons.mp he with rfl | he
      · cases hrevoking.1
      · exact hguar.follows _ (fun _ _ hg => hg.withdrawn _) n (hA ⟨e, he, hrevoking⟩)
    · rintro _ w ⟨hconfirmed, hA⟩ he
      exact ⟨n, hA he, .inl hconfirmed⟩
    · intro _ _ _
      trivial

theorem Fine.create (sub email : String) : Fine cfg ω p (create sub email) := by
  refine Fine.bind (Fine.call (.createSession ⟨sub, email⟩) trivial id) fun created => ?_
  exact Fine.bind (Fine.durable created.2) fun _ => Fine.pure _

theorem Fine.configured : Fine cfg ω p (configured cfg) := by
  unfold Sessions.configured
  split
  · exact Fine.pure ()
  · exact Fine.throw _

theorem Fine.start (returnTo : String) : Fine cfg ω p (start cfg returnTo) := by
  refine Fine.bind Fine.configured fun _ => ?_
  refine Fine.bind (Fine.call (.startFlow returnTo) trivial id) fun started => ?_
  exact Fine.bind (Fine.durable started.2) fun _ => Fine.pure _

theorem Fine.exchange (flow : GoogleFlow) (code error : Option String) :
    Fine cfg ω p (exchange flow code error) := by
  unfold Sessions.exchange
  split
  · exact Fine.call (.exchange _ _ _ _) trivial id
  · exact Fine.pure none

theorem Fine.login (flow : GoogleFlow) (token : String) (code error : Option String)
    (claim : Bool × Nat) : Fine cfg ω p (login flow token code error claim) := by
  unfold Sessions.login
  split
  · refine Fine.bind (Fine.durable _) fun _ => ?_
    refine Fine.bind (Fine.exchange flow code error) fun user => ?_
    refine Fine.bind (Fine.call (.completeFlow flow.state token user) trivial id) fun revision => ?_
    exact Fine.bind (Fine.durable revision) fun _ => Fine.pure _
  · exact Fine.throw _

theorem Fine.callbackLocked (state browser : String) (code error : Option String) :
    Fine cfg ω p (callbackLocked state browser code error) := by
  refine Fine.bind (Fine.call (.readFlow state browser) trivial id) fun decision => ?_
  cases decision with
  | recover returnTo token revision =>
      refine Fine.bind (Fine.durable revision) fun _ => ?_
      exact Fine.bind (Fine.user token) fun _ => Fine.pure _
  | consumed revision => exact Fine.bind (Fine.durable revision) fun _ => Fine.throw _
  | fresh flow token =>
      refine Fine.bind (Fine.call (.claimFlow state) trivial id) fun claim => ?_
      exact Fine.login flow token code error claim

theorem Fine.callback (state browser : String) (code error : Option String) :
    Fine cfg ω p (callback cfg state browser code error) := by
  refine Fine.bind Fine.configured fun _ => ?_
  refine Fine.bind (Fine.call .acquireCallback trivial id) fun _ => ?_
  refine Fine.bind (Fine.attempt (Fine.callbackLocked state browser code error)) fun r => ?_
  refine Fine.bind (Fine.call .releaseCallback trivial Except.ok) fun _ => ?_
  cases r with
  | ok a => exact Fine.pure a
  | error e => exact Fine.throw e

end Programs

/-! ### Every run -/

/-- What a coroutine that has returned has been promised. -/
def Returned (cfg : Settings) (_ : Pid) : Ending → State ω × Hist ω → Prop
  | .user token id _, w =>
    Confirmed (cfg.tokenHash token) id w.1 ∧ Active (cfg.tokenHash token) id w.1
  | .revoked token, w =>
    (∃ e ∈ w.2, Revoking cfg token e) → Lasting (Withdrawn (cfg.tokenHash token)) w.1
  | _, _ => True

section Runs

variable {cfg : Settings} {p : Pid} {s s' : State ω}

theorem safe_ending {α : Type} {r : Routine α} {f : α → Ending} {w : State ω × Hist ω}
    (h : Safe (contract cfg ω p) r (fun a w => Returned cfg p (f a) w) (fun _ _ => True) w) :
    (r.ending f).Safe (contract cfg ω p) (Returned cfg p) w := by
  refine Prog.Safe.bind (Prog.Safe.mono h fun a w hw => ?_)
  cases a with
  | ok a => exact hw
  | error e => trivial

theorem Fine.ending {α : Type} {r : Routine α} {f : α → Ending} (h : Fine cfg ω p r)
    (w : State ω × Hist ω) (hf : ∀ a (w : State ω × Hist ω), Returned cfg p (f a) w) :
    (r.ending f).Safe (contract cfg ω p) (Returned cfg p) w :=
  safe_ending (Safe.mono (h w) (fun a w _ => hf a w) fun _ _ h => h)

theorem safe_job (j : Job) (hs : Inv s) :
    (j.program cfg).Safe (contract cfg ω p) (Returned cfg p) (s, []) := by
  cases j with
  | coordinator j =>
      refine Prog.Safe.bind (Prog.Safe.mono (safe_coordinated (fun _ _ => True) ?_) ?_)
      · have hsafe := (Checkpoint.sound.job p j s.coord _ _ hs.coord rfl).2.2
        exact Prog.Safe.mono hsafe fun _ _ _ => trivial
      · intro _ _ _
        trivial
  | create sub email => exact (Fine.create sub email).ending _ fun _ _ => trivial
  | user token => exact safe_ending (safe_user token)
  | revoke token => exact safe_ending (safe_revoke token)
  | start returnTo => exact (Fine.start returnTo).ending _ fun _ _ => trivial
  | callback state browser code error =>
      exact (Fine.callback state browser code error).ending _ fun _ _ => trivial

theorem write_rows {ρ : Type} {skip : Bool} {body : List (Statement ρ)} {d : Database ρ} :
    (d.write skip body).rows = (execute body d.rows).1 := by
  unfold Database.write
  simp only
  split <;> rfl

/-- In a process that has just opened a snapshot all of it is lasting. -/
theorem lasting_boot {P : List (Row ω) → Prop} {d : Database (Row ω)} (h : P d.rows) :
    Lasting P (.boot d) :=
  ⟨0, fun _ _ => h, .inr rfl⟩

theorem inv_boot (d : Database (Row ω)) : Inv (.boot d) := by
  refine ⟨?_, fun x hx => .inl (lasting_boot ⟨x, hx, rfl, rfl⟩)⟩
  have hinit := (Checkpoint.ok_boot d).1
  refine { hinit with persisted := ?_, confirmed := .inl rfl }
  intro d' hd'
  obtain rfl := List.mem_singleton.mp hd'
  exact ⟨Nat.le_refl _, rfl⟩

/-- Events in the process: writes of other components and the ends of commits. -/
theorem event_spec {e : Happening ω} (hs : Inv s) (he : e.kills = false)
    (h : e.apply s = some s') : Inv s' ∧ ∀ p, Rely p s s' := by
  cases e with
  | write skip body =>
      simp only [Happening.apply] at h
      obtain ⟨coord, ha, rfl⟩ := Option.map_eq_some_iff.mp h
      have hsame : sessions coord.db.rows = sessions s.coord.db.rows := by
        obtain rfl := Option.some.inj ha
        show sessions (s.coord.db.write skip _).rows = _
        rw [write_rows]
        apply sessions_execute
        intro q hq
        obtain ⟨q', -, rfl⟩ := List.mem_map.mp hq
        exact aside_foreign q'
      have hfollows : Follows s { s with coord := coord } := follows_write hs ha (.of_eq hsame)
      have hlater := Checkpoint.later_write skip _ ha
      exact ⟨hs.of_follows (Checkpoint.inv_write skip _ hs.coord ha) hfollows hlater.confirmed hsame
        rfl, fun q => ⟨@rely_write _ s { s with coord := coord } _ _ hs ha q, hfollows⟩⟩
  | commitEnds i result =>
      simp only [Happening.apply] at h
      obtain ⟨coord, ha, rfl⟩ := Option.map_eq_some_iff.mp h
      obtain ⟨hinv, hrely⟩ := Checkpoint.inv_commitEnds hs.coord ha
      obtain ⟨-, -, -, -, hcoord, -⟩ := Checkpoint.commitEnds_cases ha
      have hfollows : Follows s { s with coord := coord } := by
        apply Follows.of_log
        · show coord.log = _
          rw [hcoord]
        · show coord.start = _
          rw [hcoord]
      refine ⟨hs.of_follows hinv hfollows (hrely 0).later.confirmed ?_ rfl,
        fun q => ⟨hrely q, hfollows⟩⟩
      show sessions coord.db.rows = _
      rw [hcoord]
  | crash i => cases he

theorem crash_cases {i : Nat} (h : (Happening.crash i : Happening ω).apply s = some s') :
    ∃ d ∈ s.coord.persisted, s.coord.confirmedRevision ≤ (d.revision : Int) ∧
      s' = { State.boot d with asked := s.asked, opened := s.opened } := by
  simp only [Happening.apply] at h
  split at h
  next d hd =>
    split at h
    next hle =>
      exact ⟨d, List.mem_of_getElem? hd, hle, (Option.some.inj h).symm⟩
    next => cases h
  next => cases h

theorem sound_process : Machine.Sound (M := process cfg ω) {} Inv Rely Guar (Returned cfg) where
  rely_trans _ _ _ _ h h' := ⟨h.coord.trans h'.coord, h.follows.trans h'.follows⟩
  guar_rely p q s s' hq h := ⟨h.coord.others q hq, h.follows⟩
  job p j s prog s' hs hj := by
    obtain ⟨rfl, rfl⟩ := Prod.mk.inj (Option.some.inj hj)
    exact ⟨hs, .refl p s, safe_job j hs⟩
  event e s s' hs _ he := by
    cases hkill : e.kills with
    | false =>
        obtain ⟨hinv, hrely⟩ := event_spec hs hkill he
        exact ⟨hinv, fun _ => hrely⟩
    | true =>
        cases e with
        | crash i =>
            obtain ⟨d, -, -, rfl⟩ := crash_cases he
            have hboot := inv_boot d
            exact ⟨⟨hboot.coord, hboot.tracked⟩, fun hfalse => by cases hfalse.symm.trans hkill⟩
        | write skip body => cases hkill
        | commitEnds i result => cases hkill

abbrev Known (cfg : Settings) (w : System ω) : Prop :=
  Machine.Ok (M := process cfg ω) {} Inv Rely Guar (Returned cfg) w

theorem known_boot (d : Database (Row ω)) : Known cfg (System.boot d) :=
  ⟨inv_boot d, fun _ _ _ _ h => by cases h⟩

theorem known_run {d : Database (Row ω)} {acts : List (process cfg ω).Act} {w : System ω}
    (hr : (process cfg ω).run (System.boot d) acts = some w) : Known cfg w :=
  sound_process.run Rely.refl (known_boot d) (Machine.keeps_trivial _ _) hr

/-- No act and no crash takes away what is lasting. -/
theorem lasting_effect (h : Machine.Effect (M := process cfg ω) {} Inv Guar s s')
    {P : List (Row ω) → Prop} (hP : ∀ rows rows', Grows rows rows' → P rows → P rows')
    (hl : Lasting P s) : Lasting P s' := by
  cases h with
  | thread p hguar => exact hguar.follows.lasting hguar.coord.later.confirmed hP hl
  | event e hs _ he =>
      cases hkill : e.kills with
      | false =>
          have hrely := (event_spec hs hkill he).2 0
          exact hrely.follows.lasting hrely.coord.later.confirmed hP hl
      | true =>
          cases e with
          | crash i =>
              obtain ⟨d, hd, hle, rfl⟩ := crash_cases he
              obtain ⟨r, hr, hcases⟩ := hl
              refine lasting_boot (hr.recorded (hs.coord.persisted d hd) ?_)
              rcases hcases with hc | rfl
              · omega
              · exact Nat.zero_le _
          | write skip body => cases hkill
          | commitEnds i result => cases hkill

theorem lasting_run {w w' : System ω} {acts : List (process cfg ω).Act} (hw : Known cfg w)
    (hr : (process cfg ω).run w acts = some w') {P : List (Row ω) → Prop}
    (hP : ∀ rows rows', Grows rows rows' → P rows → P rows') (hl : Lasting P w.shared) :
    Lasting P w'.shared :=
  sound_process.run_rel Rely.refl (G := fun s s' => Lasting P s → Lasting P s') (fun _ h => h)
    (fun _ _ _ hab hbc h => hbc (hab h)) (fun _ _ he => lasting_effect he hP) hw
    (Machine.keeps_trivial _ _) hr hl

theorem Lasting.now {P : List (Row ω) → Prop} (hs : Inv s) (h : Lasting P s) :
    P s.coord.db.rows := by
  obtain ⟨r, hr, -⟩ := h
  exact hr.db hs.coord

/-- A confirmed snapshot contains the session. -/
theorem Confirmed.snapshot {hash owner : String} (hs : Inv s) (h : Confirmed hash owner s) :
    ∃ d ∈ s.coord.persisted, (d.revision : Int) = s.coord.confirmedRevision ∧
      Has hash owner d.rows := by
  obtain ⟨r, hr, hle⟩ := h
  rcases hs.coord.confirmed with hnone | ⟨d, hd, hrev⟩
  · omega
  · exact ⟨d, hd, hrev, hr.recorded (hs.coord.persisted d hd) (by omega)⟩

/-- Sessions are durable both ways. When `user` answers, a confirmed snapshot contains the
session, and it is in the database after every further run and every crash. When `revoke`
has returned and the session was there for it to revoke, no `user` answers any more. -/
theorem sessions_durable {d : Database (Row ω)} {acts : List (process cfg ω).Act}
    {w w' : System ω} {p : Pid} {o : Oracle}
    (hr : (process cfg ω).run (System.boot d) acts = some w)
    (hs : (process cfg ω).step w (.call p o) = some w') :
    (∀ token id email h, w'.threads p = some ⟨.ret (.user token id email), h⟩ →
      (∃ d ∈ w'.shared.coord.persisted, (d.revision : Int) = w'.shared.coord.confirmedRevision ∧
        Has (cfg.tokenHash token) id d.rows) ∧
      ∀ later w'', (process cfg ω).run w' later = some w'' →
        Has (cfg.tokenHash token) id w''.shared.coord.db.rows) ∧
    (∀ token h, w'.threads p = some ⟨.ret (.revoked token), h⟩ →
      (∃ e ∈ h, Revoking cfg token e) →
      ∀ later w₁ w₂ q o', (process cfg ω).run w' later = some w₁ →
        (process cfg ω).step w₁ (.call q o') = some w₂ →
        ∀ id email h, w₂.threads q ≠ some ⟨.ret (.user token id email), h⟩) := by
  have hw := known_run hr
  have hstep := sound_process.step Rely.refl hw (Machine.meets_trivial _ _) hs
  have hw' : Known cfg w' := hstep.1
  constructor
  · intro token id email h hret
    obtain ⟨hconfirmed, -⟩ := hw.returned Rely.refl (Machine.meets_trivial _ _) hs hret
    refine ⟨hconfirmed.snapshot hw'.1, fun later w'' hlater => ?_⟩
    obtain ⟨r, hr, hle⟩ := hconfirmed
    have hlasting := lasting_run hw' hlater (fun _ _ hg => hg.has _ _) ⟨r, hr, .inl hle⟩
    exact hlasting.now (sound_process.run Rely.refl hw' (Machine.keeps_trivial _ _) hlater).1
  · intro token h hret hrevoking later w₁ w₂ q o' hlater hq id email h' hret'
    have hlasting := hw.returned Rely.refl (Machine.meets_trivial _ _) hs hret hrevoking
    have hw₁ := sound_process.run Rely.refl hw' (Machine.keeps_trivial _ _) hlater
    have hstep₂ := sound_process.step Rely.refl hw₁ (Machine.meets_trivial _ _) hq
    -- The answer comes from a session that is not revoked.
    obtain ⟨-, x, hx, hhash, -, hactive⟩ :=
      hw₁.returned Rely.refl (Machine.meets_trivial _ _) hq hret'
    have hlasting₁ := lasting_run hw' hlater (fun _ _ hg => hg.withdrawn _) hlasting
    have hlasting₂ := lasting_effect hstep₂.2 (fun _ _ hg => hg.withdrawn _) hlasting₁
    have hrevoked := (hlasting₂.now hstep₂.1.1).2 x hx hhash
    rw [hactive] at hrevoked
    cases hrevoked

end Runs

/-! ### Three logins -/

section Logins

/-- The session of the browser `b` in the login `s`: the digest of `gg-session:s`. -/
def browserToken : String := "6d5d73af865ce669d1ad008c14af89c8081f1fa1cd0007d2e3f570f6f83a936f"

/-- The digests that the logins below come to. -/
def digests : List (String × String) :=
  [("t", "e3b98a4da31a127d4bde6e43033f66ba274cab0eb7eb1c70ec41402bf6273dd8"),
   ("b", "3e23e8160039594a33894f6564e1b1348bbd7a0088d42c4acb73eeaed59c009d"),
   (browserToken, "f700fabe1c76d7fe0d353e6bb29c34df51c6566b075b2458fe5e35e20f0c02c7")]

def plain : Settings where
  tokenHash := fun t => (digests.lookup t).getD t
  hmac := fun key text => if key = "b" ∧ text = "gg-session:s" then browserToken else text
  configured := true

def usual : Oracle where
  coord := ⟨false, none, false, 2⟩
  now := 1
  uuid := "u"
  token := "t"
  state := "s"
  browser := "b"
  nonce := "n"
  verifier := "v"
  failure := .never
  exchanged := some ⟨"sub", "a@b"⟩

abbrev Act := (process plain Unit).Act

def calls (p : Pid) (n : Nat) : List Act := List.replicate n (.call p usual)

/-- A wait that publishes a snapshot, for commit `i`. -/
def waits (p : Pid) (i : Nat) : List Act :=
  calls p 7 ++ [.event (.commitEnds i .succeeded)] ++ calls p 6

def empty : System Unit := .boot ⟨0, []⟩

/-- A session is created. -/
def created : List Act := [.start 0 (.create "sub" "a@b")] ++ calls 0 1 ++ waits 0 0

/-- Its user is asked for; all but the last call. -/
def asked : List Act := created ++ [.start 1 (.user "t")] ++ calls 1 1

/-- It is revoked; all but the last call. -/
def revoked : List Act :=
  created ++ [.start 1 (.revoke "t")] ++ calls 1 8 ++ [.event (.commitEnds 1 .succeeded)] ++ calls 1 5

/-- A login waits for the identity provider, and its browser revokes the session that it is
going to get; all but the last call. -/
def hasty : List Act :=
  [.start 0 (.start "/")] ++ calls 0 1 ++ waits 0 0 ++
    [.start 1 (.callback "s" "b" (some "code") none)] ++ calls 1 3 ++ waits 1 1 ++
    [.start 2 (.revoke browserToken)] ++ calls 2 8 ++ [.event (.commitEnds 2 .succeeded)] ++ calls 2 5

/-- The login is completed, and the user of the session is asked for; all but the last call. -/
def completed : List Act :=
  calls 1 2 ++ waits 1 3 ++ calls 1 1 ++ [.start 3 (.user browserToken)] ++ calls 3 1

/-- How a coroutine has ended. -/
def endingIn (p : Pid) (w : System Unit) : Option Ending :=
  match w.threads p with
  | some ⟨.ret e, _⟩ => some e
  | _ => none

/-- Whether it has revoked a session that was there. -/
def revokingIn (p : Pid) (token : String) (w : System Unit) : Bool :=
  match w.threads p with
  | some ⟨_, h⟩ => h.any fun e =>
      e.call = .revoke token && hasSession e.found.coord.db.rows (plain.tokenHash token)
  | none => false

theorem of_endingIn {p : Pid} {w : System Unit} {e : Ending} (h : endingIn p w = some e) :
    ∃ h, w.threads p = some ⟨.ret e, h⟩ := by
  unfold endingIn at h
  split at h
  next e' h' hth =>
    obtain rfl := Option.some.inj h
    exact ⟨h', hth⟩
  next => cases h

theorem of_revokingIn {p : Pid} {token : String} {w : System Unit} {e : Ending} {h : Hist Unit}
    (hth : w.threads p = some ⟨.ret e, h⟩) (hr : revokingIn p token w = true) :
    ∃ e ∈ h, Revoking plain token e := by
  unfold revokingIn at hr
  rw [hth] at hr
  obtain ⟨e, he, hcall⟩ := List.any_eq_true.mp hr
  rw [Bool.and_eq_true, decide_eq_true_eq] at hcall
  exact ⟨e, he, hcall⟩

/-- The session that was created is asked for, and one like it is revoked. -/
theorem sessions_durable_created :
    (∃ w w', (process plain Unit).run empty asked = some w ∧
      (process plain Unit).step w (.call 1 usual) = some w' ∧
      endingIn 1 w' = some (.user "t" "u" "a@b") ∧
      ∃ d ∈ w'.shared.coord.persisted,
        (d.revision : Int) = w'.shared.coord.confirmedRevision ∧
        Has (plain.tokenHash "t") "u" d.rows) ∧
    (∃ w w', (process plain Unit).run empty revoked = some w ∧
      (process plain Unit).step w (.call 1 usual) = some w' ∧
      endingIn 1 w' = some (.revoked "t") ∧ revokingIn 1 "t" w' = true ∧
      ∀ later w₁ w₂ q o', (process plain Unit).run w' later = some w₁ →
        (process plain Unit).step w₁ (.call q o') = some w₂ →
        ∀ id email h, w₂.threads q ≠ some ⟨.ret (.user "t" id email), h⟩) := by
  have hasked : ((process plain Unit).run empty (asked ++ calls 1 1)).map (endingIn 1) =
      some (some (.user "t" "u" "a@b")) := by decide +kernel
  have hrevoked : ((process plain Unit).run empty (revoked ++ calls 1 1)).map
      (fun w => (endingIn 1 w, revokingIn 1 "t" w)) = some (some (.revoked "t"), true) := by
    decide +kernel
  constructor
  · obtain ⟨w', hw', hend⟩ := Option.map_eq_some_iff.mp hasked
    obtain ⟨w, hw, hs⟩ := Machine.run_last _ hw'
    obtain ⟨h, hth⟩ := of_endingIn hend
    exact ⟨w, w', hw, hs, hend, ((sessions_durable hw hs).1 "t" "u" "a@b" h hth).1⟩
  · obtain ⟨w', hw', hpair⟩ := Option.map_eq_some_iff.mp hrevoked
    obtain ⟨hend, hrevoking⟩ := Prod.mk.inj hpair
    obtain ⟨w, hw, hs⟩ := Machine.run_last _ hw'
    obtain ⟨h, hth⟩ := of_endingIn hend
    exact ⟨w, w', hw, hs, hend, hrevoking,
      (sessions_durable hw hs).2 "t" h hth (of_revokingIn hth hrevoking)⟩

/-- A session that is revoked before the login has inserted it is not revoked. -/
theorem revoked_before_login :
    ¬ ∀ (acts later : List Act) (w w' w₁ w₂ : System Unit) (p q : Pid) (o o' : Oracle)
      (token id email : String) (h h' : Hist Unit),
      (process plain Unit).run empty acts = some w →
      (process plain Unit).step w (.call p o) = some w' →
      w'.threads p = some ⟨.ret (.revoked token), h⟩ →
      (process plain Unit).run w' later = some w₁ →
      (process plain Unit).step w₁ (.call q o') = some w₂ →
      w₂.threads q ≠ some ⟨.ret (.user token id email), h'⟩ := by
  intro hclaim
  have hhasty : ((process plain Unit).run empty (hasty ++ calls 2 1)).map (endingIn 2) =
      some (some (.revoked browserToken)) := by decide +kernel
  have hlogin : ((process plain Unit).run empty ((hasty ++ calls 2 1) ++ (completed ++ calls 3 1))).map
      (endingIn 3) = some (some (.user browserToken "u" "a@b")) := by decide +kernel
  obtain ⟨w', hw', hend⟩ := Option.map_eq_some_iff.mp hhasty
  obtain ⟨w₂, hw₂, hend₂⟩ := Option.map_eq_some_iff.mp hlogin
  obtain ⟨w, hw, hs⟩ := Machine.run_last _ hw'
  obtain ⟨w₁, hw₁, hs₁⟩ := Machine.run_last _ (Machine.run_rest _ hw' hw₂)
  obtain ⟨h, hth⟩ := of_endingIn hend
  obtain ⟨h', hth'⟩ := of_endingIn hend₂
  exact hclaim hasty completed w w' w₁ w₂ 2 3 usual usual browserToken "u" "a@b" h h' hw hs hth hw₁
    hs₁ hth'

end Logins

end GgAgent.Sessions
