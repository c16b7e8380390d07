import GgAgent.Lib.OrderedMap

/-!
`useTaskDetail`: the events of one task as the page keeps them.

Copies come from the history requests and from the frames of the socket, in any order and any
number of times. `merge` puts them into a map by cursor, sorts it, and moves the cursor on over
the numbers that are there without a gap. The next history request and the next connection ask
for what is after that cursor.
-/

namespace GgAgent.Frontend

open GgAgent.Lib
open GgAgent.Lib.OrderedMap (setAll Functional)

structure TaskEventCopy (ε : Type) where
  cursor : Int
  event : ε
  deriving DecidableEq

@[ext] structure TaskDetail (τ ρ ε : Type) where
  task : Option τ := none
  events : List (TaskEventCopy ε) := []
  result : Option ρ := none
  cursor : Int := 0
  deriving DecidableEq

variable {τ ρ ε : Type}

/-! ### merge -/

/-- The entry of `events` for a copy. -/
def TaskEventCopy.entry (copy : TaskEventCopy ε) : Int × TaskEventCopy ε := (copy.cursor, copy)

def byCursor (a b : TaskEventCopy ε) : Bool := decide (a.cursor - b.cursor ≤ 0)

/-- The map of the events of a detail and the copies. -/
def eventMap (events copies : List (TaskEventCopy ε)) : List (Int × TaskEventCopy ε) :=
  setAll (setAll [] (events.map TaskEventCopy.entry)) (copies.map TaskEventCopy.entry)

def TaskDetail.merge (current : TaskDetail τ ρ ε) (copies : List (TaskEventCopy ε)) :
    TaskDetail τ ρ ε :=
  if copies.isEmpty then current
  else
    let events := eventMap current.events copies
    let keys := events.map Prod.fst
    { current with
      events := (events.map Prod.snd).mergeSort byCursor
      cursor := advance (fun k => decide (k ∈ keys)) keys.length current.cursor }

/-- One merge after the other. -/
def TaskDetail.mergeAll (current : TaskDetail τ ρ ε) (batches : List (List (TaskEventCopy ε))) :
    TaskDetail τ ρ ε :=
  batches.foldl TaskDetail.merge current

/-! ### What a detail has received -/

/-- Copies with the same cursor are the same. -/
def Consistent (copies : List (TaskEventCopy ε)) : Prop :=
  ∀ a ∈ copies, ∀ b ∈ copies, a.cursor = b.cursor → a = b

theorem Consistent.subset {copies copies' : List (TaskEventCopy ε)} (h : Consistent copies)
    (hsub : copies' ⊆ copies) : Consistent copies' :=
  fun a ha b hb => h a (hsub ha) b (hsub hb)

theorem Consistent.functional {copies : List (TaskEventCopy ε)} (h : Consistent copies) :
    Functional (copies.map TaskEventCopy.entry) := by
  intro p hp q hq hkey
  obtain ⟨a, ha, rfl⟩ := List.mem_map.mp hp
  obtain ⟨b, hb, rfl⟩ := List.mem_map.mp hq
  rw [h a ha b hb hkey]

/-- The events are the received copies, sorted by cursor, each cursor once; the cursor is the
end of what was received without a gap. -/
structure Received (copies : List (TaskEventCopy ε)) (d : TaskDetail τ ρ ε) : Prop where
  mem : ∀ copy, copy ∈ d.events ↔ copy ∈ copies
  sorted : d.events.Pairwise fun a b => a.cursor < b.cursor
  contiguous : Contiguous (copies.map TaskEventCopy.cursor) d.cursor

theorem received_empty : Received [] ({} : TaskDetail τ ρ ε) where
  mem _ := Iff.rfl
  sorted := List.Pairwise.nil
  contiguous := ⟨Int.le_refl 0, fun k hk hk' => absurd hk' (by simp only; omega), by simp⟩

theorem nodup_eventMap (events copies : List (TaskEventCopy ε)) :
    ((eventMap events copies).map Prod.fst).Nodup :=
  OrderedMap.nodup_setAll (OrderedMap.nodup_setAll (by simp))

theorem mem_eventMap {events copies : List (TaskEventCopy ε)} (h : Consistent (events ++ copies))
    {p : Int × TaskEventCopy ε} :
    p ∈ eventMap events copies ↔ ∃ copy, (copy ∈ events ∨ copy ∈ copies) ∧ copy.entry = p := by
  have hfun := h.functional
  rw [List.map_append] at hfun
  have hold : ∀ p, p ∈ setAll [] (events.map TaskEventCopy.entry) ↔
      p ∈ events.map TaskEventCopy.entry := by
    intro p
    have hevents : Functional ([] ++ events.map TaskEventCopy.entry) := fun a ha b hb =>
      hfun a (List.mem_append_left _ ha) b (List.mem_append_left _ hb)
    rw [OrderedMap.mem_setAll (by simp) hevents]
    simp
  have hboth : Functional (setAll [] (events.map TaskEventCopy.entry) ++
      copies.map TaskEventCopy.entry) := by
    intro a ha b hb
    rw [List.mem_append, hold, ← List.mem_append] at ha hb
    exact hfun a ha b hb
  have hnodup : ((setAll [] (events.map TaskEventCopy.entry)).map Prod.fst).Nodup :=
    OrderedMap.nodup_setAll (by simp)
  rw [eventMap, OrderedMap.mem_setAll hnodup hboth, hold,
    List.mem_map, List.mem_map]
  constructor
  · rintro (⟨copy, hcopy, rfl⟩ | ⟨copy, hcopy, rfl⟩)
    · exact ⟨copy, .inl hcopy, rfl⟩
    · exact ⟨copy, .inr hcopy, rfl⟩
  · rintro ⟨copy, hcopy | hcopy, rfl⟩
    · exact .inl ⟨copy, hcopy, rfl⟩
    · exact .inr ⟨copy, hcopy, rfl⟩

/-- The values of a map under distinct keys, sorted by key. -/
theorem pairwise_mergeSort_byCursor {events : List (TaskEventCopy ε)}
    (h : (events.map TaskEventCopy.cursor).Nodup) :
    (events.mergeSort byCursor).Pairwise fun a b => a.cursor < b.cursor := by
  have hsorted : (events.mergeSort byCursor).Pairwise fun a b => byCursor a b = true :=
    List.pairwise_mergeSort (by simp only [byCursor, decide_eq_true_eq]; omega)
      (by simp only [byCursor, Bool.or_eq_true, decide_eq_true_eq]; omega) events
  have hnodup : ((events.mergeSort byCursor).map TaskEventCopy.cursor).Nodup :=
    ((List.mergeSort_perm events byCursor).map _).nodup_iff.mpr h
  rw [List.Nodup, List.pairwise_map] at hnodup
  refine (hsorted.and hnodup).imp fun {a b} hab => ?_
  have hle : a.cursor - b.cursor ≤ 0 := by simpa [byCursor] using hab.1
  have hne := hab.2
  omega

/-- One merge. -/
theorem Received.merge {received copies : List (TaskEventCopy ε)} {d : TaskDetail τ ρ ε}
    (h : Received received d) (hc : Consistent (received ++ copies)) :
    Received (received ++ copies) (d.merge copies) := by
  rw [TaskDetail.merge]
  split
  next hempty =>
    rw [List.isEmpty_iff] at hempty
    rw [hempty, List.append_nil]
    exact h
  next =>
    have hsame : d.events ++ copies ⊆ received ++ copies := by
      intro copy hcopy
      rwa [List.mem_append, h.mem, ← List.mem_append] at hcopy
    have hmem := fun p => mem_eventMap (hc.subset hsame) (p := p)
    have hkeys : ∀ k, k ∈ (eventMap d.events copies).map Prod.fst ↔
        k ∈ (received ++ copies).map TaskEventCopy.cursor := by
      intro k
      simp only [List.mem_map, hmem, ← h.mem, List.mem_append]
      constructor
      · rintro ⟨p, ⟨copy, hcopy, rfl⟩, rfl⟩
        exact ⟨copy, hcopy, rfl⟩
      · rintro ⟨copy, hcopy, rfl⟩
        exact ⟨copy.entry, ⟨copy, hcopy, rfl⟩, rfl⟩
    constructor
    case mem =>
      intro copy
      simp only [List.mem_mergeSort, List.mem_map, hmem, List.mem_append, ← h.mem]
      constructor
      · rintro ⟨p, ⟨copy, hcopy, rfl⟩, rfl⟩
        exact hcopy
      · intro hcopy
        exact ⟨copy.entry, ⟨copy, hcopy, rfl⟩, rfl⟩
    case sorted =>
      apply pairwise_mergeSort_byCursor
      have hcursor : ((eventMap d.events copies).map Prod.snd).map TaskEventCopy.cursor =
          (eventMap d.events copies).map Prod.fst := by
        rw [List.map_map, List.map_inj_left]
        intro p hp
        obtain ⟨copy, -, rfl⟩ := (hmem p).mp hp
        rfl
      rw [hcursor]
      exact nodup_eventMap d.events copies
    case contiguous =>
      have hprefix : ∀ k, 1 ≤ k → k ≤ d.cursor →
          k ∈ (eventMap d.events copies).map Prod.fst := by
        intro k hk hk'
        rw [hkeys, List.map_append]
        exact List.mem_append_left _ (h.contiguous.2.1 k hk hk')
      obtain ⟨hpos, hall, hlast⟩ := contiguous_advance h.contiguous.1 hprefix
      exact ⟨hpos, fun k hk hk' => (hkeys k).mp (hall k hk hk'), fun hk => hlast ((hkeys _).mpr hk)⟩

/-- Any number of merges. -/
theorem Received.mergeAll {batches : List (List (TaskEventCopy ε))} :
    ∀ {received : List (TaskEventCopy ε)} {d : TaskDetail τ ρ ε}, Received received d →
      Consistent (received ++ batches.flatten) →
      Received (received ++ batches.flatten) (d.mergeAll batches) := by
  induction batches with
  | nil =>
      intro received d h _
      rw [List.flatten_nil, List.append_nil]
      exact h
  | cons copies batches ih =>
      intro received d h hc
      rw [List.flatten_cons, ← List.append_assoc] at hc ⊢
      exact ih (h.merge (hc.subset (List.subset_append_left _ _))) hc

/-- Merging is about the events and the cursor. -/
theorem mergeAll_rest {d : TaskDetail τ ρ ε} (batches : List (List (TaskEventCopy ε))) :
    (d.mergeAll batches).task = d.task ∧ (d.mergeAll batches).result = d.result := by
  have hone : ∀ (d : TaskDetail τ ρ ε) copies,
      (d.merge copies).task = d.task ∧ (d.merge copies).result = d.result := by
    intro d copies
    rw [TaskDetail.merge]
    split <;> exact ⟨rfl, rfl⟩
  induction batches generalizing d with
  | nil => exact ⟨rfl, rfl⟩
  | cons copies batches ih =>
      obtain ⟨htask, hresult⟩ := ih (d := d.merge copies)
      exact ⟨htask.trans (hone d copies).1, hresult.trans (hone d copies).2⟩

/-- What was received determines the events and the cursor. -/
theorem Received.determines {copies copies' : List (TaskEventCopy ε)} {d d' : TaskDetail τ ρ ε}
    (hsame : ∀ copy, copy ∈ copies ↔ copy ∈ copies') (h : Received copies d)
    (h' : Received copies' d') : d.events = d'.events ∧ d.cursor = d'.cursor := by
  constructor
  · have hnodup : ∀ {d : TaskDetail τ ρ ε} {copies}, Received copies d → d.events.Nodup :=
      fun h => h.sorted.imp fun hlt heq => by rw [heq] at hlt; omega
    have hperm : d.events.Perm d'.events := by
      rw [List.perm_ext_iff_of_nodup (hnodup h) (hnodup h')]
      intro copy
      rw [h.mem, h'.mem, hsame]
    exact hperm.eq_of_pairwise (fun a b _ _ hab hba => by omega) h.sorted h'.sorted
  · refine h.contiguous.unique (fun k => ?_) h'.contiguous
    simp only [List.mem_map, hsame]

/-! ### The hook -/

/-- What a frame of the socket holds: no event copy (it is not JSON, its cursor is no integer,
or it has no event), or one. -/
inductive Frame (ε : Type)
  | invalid
  | copy (c : TaskEventCopy ε)

/-- The hook for one task over the life of one cache. -/
structure View (τ ρ ε : Type) where
  /-- `cache.valid` and `cache.details.get(id)`. -/
  valid : Bool := true
  details : Option (TaskDetail τ ρ ε) := none
  /-- The effect that is mounted last. -/
  active : Bool := false
  current : TaskDetail τ ρ ε := {}
  /-- The cursors of the connections that were made, and the number of the current one. -/
  connections : List Int := []
  socket : Option Nat := none
  /-- The cursor of the history request in flight, and whether another one is wanted. -/
  loading : Option Int := none
  again : Bool := false
  /-- The copies that `merge` has taken. -/
  received : List (TaskEventCopy ε) := []

inductive Act (τ ρ ε : Type)
  | mount
  | unmount
  /-- The session ends: the cache is cleared. -/
  | expire
  | task (task : τ)
  | result (result : ρ)
  | history
  | responded (copies : Option (List (TaskEventCopy ε)))
  | connect
  | frame (connection : Nat) (f : Frame ε)

namespace View

def isActive (v : View τ ρ ε) : Bool := v.active && v.valid

def save (v : View τ ρ ε) (detail : TaskDetail τ ρ ε) : View τ ρ ε :=
  if v.isActive then { v with current := detail, details := some detail } else v

def merge (v : View τ ρ ε) (copies : List (TaskEventCopy ε)) : View τ ρ ε :=
  if !v.isActive || copies.isEmpty then v
  else { v.save (v.current.merge copies) with received := v.received ++ copies }

/-- `load("events", …)`. -/
def history (v : View τ ρ ε) : View τ ρ ε :=
  if !v.isActive then v
  else if v.loading.isSome then { v with again := true }
  else { v with loading := some v.current.cursor }

/-- The request ends; `load` starts the one that is wanted. -/
def responded (v : View τ ρ ε) (copies : Option (List (TaskEventCopy ε))) : View τ ρ ε :=
  if v.loading.isNone then v
  else
    let v := { v.merge (copies.getD []) with loading := none }
    if v.isActive && v.again then { v with again := false }.history else v

def connect (v : View τ ρ ε) : View τ ρ ε :=
  if !v.isActive then v
  else
    { v with
      connections := v.connections ++ [v.current.cursor]
      socket := some v.connections.length }

/-- A frame of another connection than the current one is dropped, and so is one without a
valid copy, which closes the connection. -/
def frame (v : View τ ρ ε) (connection : Nat) : Frame ε → View τ ρ ε
  | .invalid => v
  | .copy c => if v.socket = some connection ∧ 0 < c.cursor then v.merge [c] else v

def step (v : View τ ρ ε) : Act τ ρ ε → View τ ρ ε
  | .mount =>
    { v with
      active := true, current := v.details.getD {}, socket := none, loading := none,
      again := false }
  | .unmount => { v with active := false, socket := none, loading := none, again := false }
  | .expire => { v with valid := false, details := none }
  | .task task => v.save { v.current with task := some task }
  | .result result => v.save { v.current with result := some result }
  | .history => v.history
  | .responded copies => v.responded copies
  | .connect => v.connect
  | .frame connection f => v.frame connection f

def run (v : View τ ρ ε) (acts : List (Act τ ρ ε)) : View τ ρ ε := acts.foldl step v

end View

/-- No cursor that was asked with lies behind a missing event. -/
def Reached (received : List (TaskEventCopy ε)) (after : Int) : Prop :=
  0 ≤ after ∧ ∀ k, 1 ≤ k → k ≤ after → k ∈ received.map TaskEventCopy.cursor

theorem Reached.append {received : List (TaskEventCopy ε)} {after : Int} (h : Reached received after)
    (copies : List (TaskEventCopy ε)) : Reached (received ++ copies) after := by
  refine ⟨h.1, fun k hk hk' => ?_⟩
  rw [List.map_append]
  exact List.mem_append_left _ (h.2 k hk hk')

theorem Received.reached {received : List (TaskEventCopy ε)} {d : TaskDetail τ ρ ε}
    (h : Received received d) : Reached received d.cursor :=
  ⟨h.contiguous.1, h.contiguous.2.1⟩

/-- While the cache is valid, what it holds and what the mounted effect shows is what was
received, and every request asks for what comes after a prefix of it. -/
structure Synced (v : View τ ρ ε) : Prop where
  details : v.valid = true → Received v.received (v.details.getD {})
  current : v.isActive = true → Received v.received v.current
  connections : ∀ after ∈ v.connections, Reached v.received after
  loading : ∀ after ∈ v.loading, Reached v.received after

section Synced

variable {v : View τ ρ ε}

theorem View.isActive_valid (h : v.isActive = true) : v.valid = true :=
  (Bool.and_eq_true_iff.mp h).2

/-- A detail with the events and the cursor of the current one is saved. -/
theorem Synced.save (h : Synced v) {detail : TaskDetail τ ρ ε}
    (hdetail : v.isActive = true → Received v.received detail) : Synced (v.save detail) := by
  rw [View.save]
  split
  next hactive =>
    exact ⟨fun _ => hdetail hactive, fun _ => hdetail hactive, h.connections, h.loading⟩
  next => exact h

theorem Synced.merge (h : Synced v) {copies : List (TaskEventCopy ε)}
    (hc : Consistent (v.merge copies).received) :
    Synced (v.merge copies) := by
  by_cases hidle : (!v.isActive || copies.isEmpty) = true
  · rw [View.merge, if_pos hidle]
    exact h
  · rw [View.merge, if_neg hidle] at hc ⊢
    rw [Bool.or_eq_true, not_or] at hidle
    have hon : v.isActive = true := by simpa using hidle.1
    have hmerged : Received (v.received ++ copies) (v.current.merge copies) :=
      (h.current hon).merge hc
    rw [View.save, if_pos hon]
    exact ⟨fun _ => hmerged, fun _ => hmerged,
      fun after hafter => (h.connections after hafter).append copies,
      fun after hafter => (h.loading after hafter).append copies⟩

theorem Synced.history (h : Synced v) : Synced v.history := by
  rw [View.history]
  split
  next => exact h
  next hactive =>
    have hon : v.isActive = true := by simpa using hactive
    split
    next => exact ⟨h.details, h.current, h.connections, h.loading⟩
    next =>
      refine ⟨h.details, h.current, h.connections, fun after hafter => ?_⟩
      obtain rfl : v.current.cursor = after := by simpa using hafter
      exact (h.current hon).reached

theorem View.received_history : v.history.received = v.received := by
  rw [View.history]
  repeat' split
  all_goals rfl

/-- The view after the request has ended, before the next one starts. -/
def View.ended (v : View τ ρ ε) (copies : Option (List (TaskEventCopy ε))) : View τ ρ ε :=
  { v.merge (copies.getD []) with loading := none }

/-- A response without a request is none; after another one the next request may start. -/
theorem View.responded_cases (copies : Option (List (TaskEventCopy ε))) :
    v.responded copies = v ∨ v.responded copies = v.ended copies ∨
      v.responded copies = { v.ended copies with again := false }.history := by
  by_cases hloading : v.loading.isNone = true
  · exact .inl (by rw [View.responded, if_pos hloading])
  · by_cases hagain : ((v.ended copies).isActive && (v.ended copies).again) = true
    · exact .inr (.inr (by rw [View.responded, if_neg hloading]; exact if_pos hagain))
    · exact .inr (.inl (by rw [View.responded, if_neg hloading]; exact if_neg hagain))

theorem Synced.ended (h : Synced v) {copies : Option (List (TaskEventCopy ε))}
    (hc : Consistent (v.ended copies).received) : Synced (v.ended copies) := by
  have hmerged : Synced (v.merge (copies.getD [])) := h.merge hc
  exact ⟨hmerged.details, hmerged.current, hmerged.connections, fun after hafter => by cases hafter⟩

theorem Synced.responded (h : Synced v) {copies : Option (List (TaskEventCopy ε))}
    (hc : Consistent (v.responded copies).received) : Synced (v.responded copies) := by
  rcases View.responded_cases (v := v) copies with heq | heq | heq <;> rw [heq] at hc ⊢
  · exact h
  · exact h.ended hc
  · rw [View.received_history] at hc
    have hended := h.ended hc
    exact Synced.history ⟨hended.details, hended.current, hended.connections, hended.loading⟩

theorem Synced.connect (h : Synced v) : Synced v.connect := by
  rw [View.connect]
  split
  next => exact h
  next hactive =>
    have hon : v.isActive = true := by simpa using hactive
    refine ⟨h.details, h.current, fun after hafter => ?_, h.loading⟩
    rcases List.mem_append.mp hafter with hafter | hafter
    · exact h.connections after hafter
    · rw [List.mem_singleton.mp hafter]
      exact (h.current hon).reached

/-- One step of the hook. -/
theorem Synced.step (h : Synced v) (a : Act τ ρ ε) (hc : Consistent (v.step a).received) :
    Synced (v.step a) := by
  cases a with
  | mount =>
      have hvalid : (v.step .mount).isActive = true → v.valid = true := fun hactive =>
        View.isActive_valid (v := v.step .mount) hactive
      exact ⟨h.details, fun hactive => h.details (hvalid hactive), h.connections,
        fun after hafter => by cases hafter⟩
  | unmount =>
      exact ⟨h.details, fun hactive => (by cases hactive), h.connections,
        fun after hafter => by cases hafter⟩
  | expire =>
      refine ⟨fun hvalid => (by cases hvalid), fun hactive => ?_, h.connections, h.loading⟩
      have hvalid := View.isActive_valid hactive
      cases hvalid
  | task task =>
      exact h.save fun hactive => ⟨(h.current hactive).mem, (h.current hactive).sorted,
        (h.current hactive).contiguous⟩
  | result result =>
      exact h.save fun hactive => ⟨(h.current hactive).mem, (h.current hactive).sorted,
        (h.current hactive).contiguous⟩
  | history => exact h.history
  | responded copies => exact h.responded hc
  | connect => exact h.connect
  | frame connection f =>
      cases f with
      | invalid => exact h
      | copy c =>
          rw [View.step, View.frame] at hc ⊢
          by_cases hcurrent : v.socket = some connection ∧ 0 < c.cursor
          · rw [if_pos hcurrent] at hc ⊢
            exact h.merge hc
          · rw [if_neg hcurrent]
            exact h

/-- What was received stays received. -/
theorem View.received_step (a : Act τ ρ ε) : v.received ⊆ (v.step a).received := by
  have hmerge : ∀ copies, v.received ⊆ (v.merge copies).received := by
    intro copies
    rw [View.merge]
    split
    · exact List.Subset.refl _
    · exact List.subset_append_left _ _
  have hsave : ∀ detail, (v.save detail).received = v.received := by
    intro detail
    rw [View.save]
    split <;> rfl
  cases a with
  | mount => exact List.Subset.refl _
  | unmount => exact List.Subset.refl _
  | expire => exact List.Subset.refl _
  | task task => exact (hsave _) ▸ List.Subset.refl _
  | result result => exact (hsave _) ▸ List.Subset.refl _
  | history =>
      show v.received ⊆ v.history.received
      rw [View.received_history]
      exact List.Subset.refl _
  | responded copies =>
      show v.received ⊆ (v.responded copies).received
      rcases View.responded_cases (v := v) copies with h | h | h <;> rw [h]
      · exact List.Subset.refl _
      · exact hmerge _
      · rw [View.received_history]
        exact hmerge _
  | connect =>
      show v.received ⊆ v.connect.received
      rw [View.connect]
      split <;> exact List.Subset.refl _
  | frame connection f =>
      cases f with
      | invalid => exact List.Subset.refl _
      | copy c =>
          show v.received ⊆ (v.frame connection (.copy c)).received
          rw [View.frame]
          split
          · exact hmerge _
          · exact List.Subset.refl _

theorem View.received_run {acts : List (Act τ ρ ε)} :
    ∀ {v : View τ ρ ε}, v.received ⊆ (v.run acts).received := by
  induction acts with
  | nil => exact fun {v} => List.Subset.refl _
  | cons a acts ih => exact fun {v} => List.Subset.trans (View.received_step a) ih

theorem Synced.run {acts : List (Act τ ρ ε)} :
    ∀ {v : View τ ρ ε}, Synced v → Consistent (v.run acts).received → Synced (v.run acts) := by
  induction acts with
  | nil => exact fun h _ => h
  | cons a acts ih =>
      intro v h hc
      exact ih (h.step a (hc.subset View.received_run)) hc

end Synced

theorem synced_start : Synced ({} : View τ ρ ε) where
  details _ := received_empty
  current hactive := by cases hactive
  connections _ hafter := by cases hafter
  loading _ hafter := by cases hafter

/-- The merge does not depend on the order. Whatever batches the copies come in, the events are
the received copies, each cursor once and sorted, and the cursor is the end of their contiguous
prefix; batches of the same copies give the same detail. In a run of the hook this holds at
every point for the copies that came until then, and every history request and every
connection was made with a cursor up to which nothing was missing. -/
theorem merge_order_independent {batches : List (List (TaskEventCopy ε))}
    (hc : Consistent batches.flatten) :
    Received batches.flatten (({} : TaskDetail τ ρ ε).mergeAll batches) ∧
    (∀ batches' : List (List (TaskEventCopy ε)),
      (∀ copy, copy ∈ batches'.flatten ↔ copy ∈ batches.flatten) →
      ({} : TaskDetail τ ρ ε).mergeAll batches' = ({} : TaskDetail τ ρ ε).mergeAll batches) ∧
    (∀ acts : List (Act τ ρ ε), Consistent (View.run {} acts).received →
      Synced (View.run {} acts)) := by
  have hreceived : ∀ batches : List (List (TaskEventCopy ε)), Consistent batches.flatten →
      Received batches.flatten (({} : TaskDetail τ ρ ε).mergeAll batches) := by
    intro batches hc
    exact received_empty.mergeAll hc
  refine ⟨hreceived batches hc, fun batches' hsame => ?_, fun acts hacts => synced_start.run hacts⟩
  have hc' : Consistent batches'.flatten := hc.subset fun copy hcopy => (hsame copy).mp hcopy
  obtain ⟨hevents, hcursor⟩ := (hreceived batches' hc').determines hsame (hreceived batches hc)
  obtain ⟨htask, hresult⟩ := mergeAll_rest (d := ({} : TaskDetail τ ρ ε)) batches'
  obtain ⟨htask', hresult'⟩ := mergeAll_rest (d := ({} : TaskDetail τ ρ ε)) batches
  exact TaskDetail.ext (htask.trans htask'.symm) hevents (hresult.trans hresult'.symm) hcursor

/-- Frame 3 comes first, then the history from 1, then what was missing. -/
def overlapping : List (List (TaskEventCopy Unit)) :=
  [[⟨3, ()⟩], [⟨1, ()⟩, ⟨1, ()⟩], [⟨2, ()⟩, ⟨3, ()⟩]]

theorem merge_order_independent_overlapping :
    (({} : TaskDetail Unit Unit Unit).mergeAll overlapping).cursor = 3 ∧
    ({} : TaskDetail Unit Unit Unit).mergeAll [[⟨1, ()⟩, ⟨2, ()⟩, ⟨3, ()⟩]] =
      ({} : TaskDetail Unit Unit Unit).mergeAll overlapping := by
  have hc : Consistent overlapping.flatten := by
    intro a _ b _ hcursor
    cases a
    cases b
    exact congrArg (fun c => TaskEventCopy.mk c ()) hcursor
  obtain ⟨hreceived, hsame, -⟩ := merge_order_independent (τ := Unit) (ρ := Unit) hc
  constructor
  · have hthree : Contiguous [3, 1, 1, 2, 3] 3 := by
      refine ⟨by decide, fun k hk hk' => ?_, by decide⟩
      obtain rfl | rfl | rfl : k = 1 ∨ k = 2 ∨ k = 3 := by omega
      all_goals decide
    exact hreceived.contiguous.unique (fun k => Iff.rfl) hthree
  · apply hsame
    intro copy
    simp only [overlapping, List.flatten_cons, List.flatten_nil, List.mem_append, List.mem_cons,
      List.not_mem_nil]
    tauto

end GgAgent.Frontend
