import GgAgent.Lib.Sequence
import GgAgent.Sandbox.Stream
import Mathlib.Data.List.Nodup
import Mathlib.Data.List.Range

/-!
What an event socket of the sandbox sends.

The frames of a socket are the events of the log after the number of the request, each at most
once and in order, and a close for an overflow names the last of them: this holds in every run.
None is left out as long as events are handed to the loop in their order: at each hand-over no
earlier event is still on its way. The code does not see to that. An event that is appended
while no listener is installed is handed over by nobody, and two threads that have stored
their events may call the listener the other way round. A run in which it happens is one in
which the duty of the sockets is only the weaker one.

A queue, the deliveries under way and the events that the loop and the threads still hold are
one sequence for a socket. The other coroutines move events along it or add new ones at its
end, and the socket takes them from its front.
-/

namespace GgAgent.Socket

open GgAgent.Lib GgAgent.Stream
open GgAgent.Lib.Co (Safe Keeps attempt)

abbrev Hist := List (Entry Call.Out State)

/-! ### The duty of a socket -/

/-- A frame that went out. -/
def sentBy : Entry Call.Out State → Option Event
  | ⟨.send e, .ok _, _⟩ => some e
  | _ => none

/-- The frames of a coroutine, in order. -/
def frames (h : Hist) : List Event := h.reverse.filterMap sentBy

/-- `last_sent`, as the client knows it. -/
def lastSent (after : Nat) (h : Hist) : Nat := ((frames h).getLast?.map Event.seq).getD after

/-- A frame is an event of the log, after those before; and the next one, if `τ`. A close
names the last frame, or it comes before any. -/
def duty (τ : Bool) : server.Cond where
  call p h c s _ := match p, c with
    | .socket _ after, .send e =>
      decide (lastSent after h < e.seq) && (!τ || decide (e.seq = lastSent after h + 1)) &&
        decide (e ∈ s.log)
    | .socket _ after, .close _ reason =>
      decide (reason = "") || decide (reason = "resume_after=" ++ toString (lastSent after h))
    | _, _ => true

/-- An event is handed over only when no earlier one is on its way behind it. -/
def inOrder : server.Cond where
  call _ _ c s _ := match c with
    | .notify e => !s.listener || s.handing.all fun x => e.seq ≤ x.seq
    | .publish e => (s.fanouts ++ s.callbacks ++ s.handing).all fun x => e.seq ≤ x.seq
    | _ => true

/-- The runs that are looked at: those in order, if `τ`, or else all. -/
def watched (τ : Bool) : server.Cond where
  call p h c s r := !τ || inOrder.call p h c s r

/-! ### The state -/

def queueOf (k : Nat) (s : State) : List Event := ((s.subscriptions[k]?).map (·.queue)).getD []

def overflowed (k : Nat) (s : State) : Bool := (s.subscriptions[k]?).any (·.overflowed)

def deliveriesOf (k : Nat) (s : State) : List Event :=
  (s.deliveries.filter fun d => d.1 = k).map (·.2)

/-- The numbers of the events between the front of a queue and the log. -/
def pipe (k : Nat) (s : State) : List Nat :=
  (queueOf k s ++ deliveriesOf k s ++ (s.fanouts ++ s.callbacks ++ s.handing)).map Event.seq

/-- Whoever has everything up to `m` gets the rest of the log from there without a gap. -/
def Ahead (m k : Nat) (s : State) : Prop :=
  NoGap m (pipe k s) ∧ s.log.length ≤ reach m (pipe k s)

/-- What a socket has before a round that has sent everything up to `m`. -/
def Open (m k : Nat) (s : State) : Prop := overflowed k s = false → Ahead m k s

/-- What it has in a round that began without an overflow: by now events may be lost, but not
the one at the front. -/
def Mid (m k : Nat) (s : State) : Prop :=
  Ahead m k s ∨ overflowed k s = true ∧ ∃ e, (queueOf k s).head? = some e ∧ e.seq ≤ m + 1

/-- The subscription is the coroutine's own, and still among the subscribers. -/
def Mine (p : Pid) (k : Nat) (s : State) : Prop :=
  ∃ x, s.subscriptions[k]? = some x ∧ x.owner = p ∧ x.subscribed = true

structure Inv (s : State) : Prop where
  numbered : s.log.map Event.seq = List.range' 1 s.log.length
  moving : ∀ e ∈ s.fanouts ++ s.callbacks ++ s.handing, e ∈ s.log
  delivered : ∀ d ∈ s.deliveries, d.2 ∈ s.log ∧ d.1 < s.subscriptions.length
  queued : ∀ k, ∀ e ∈ queueOf k s, e ∈ s.log

section

variable (τ : Bool)

/-- What the coroutine `p` relies on. -/
structure Rely (p : Pid) (s s' : State) : Prop where
  log : ∀ e ∈ s.log, e ∈ s'.log
  mine : ∀ k, Mine p k s → Mine p k s' ∧
    (τ = true → ∀ m, (Open m k s → Open m k s') ∧ (Mid m k s → Mid m k s'))

def Guar (p : Pid) (s s' : State) : Prop := ∀ q, q ≠ p → Rely τ q s s'

end

variable {τ : Bool} {p q : Pid} {s s' s'' : State} {k m n : Nat} {e : Event}

theorem Rely.refl (p : Pid) (s : State) : Rely τ p s s :=
  ⟨fun _ he => he, fun _ hk => ⟨hk, fun _ _ => ⟨id, id⟩⟩⟩

theorem Rely.trans (h : Rely τ p s s') (h' : Rely τ p s' s'') : Rely τ p s s'' where
  log e he := h'.log e (h.log e he)
  mine k hk := by
    obtain ⟨hk', hahead⟩ := h.mine k hk
    obtain ⟨hk'', hahead'⟩ := h'.mine k hk'
    refine ⟨hk'', fun ht m => ⟨fun hopen => ?_, fun hmid => ?_⟩⟩
    · exact (hahead' ht m).1 ((hahead ht m).1 hopen)
    · exact (hahead' ht m).2 ((hahead ht m).2 hmid)

theorem Inv.length (hs : Inv s) (he : e ∈ s.log) : e.seq ≤ s.log.length := by
  have hmem : e.seq ∈ s.log.map Event.seq := List.mem_map_of_mem he
  rw [hs.numbered, List.mem_range'_1] at hmem
  omega

theorem Inv.nextSeq (hs : Inv s) : s.nextSeq = s.log.length + 1 := by
  have hfold : ∀ n a, (List.range' 1 n).foldl max a = max a n := by
    intro n a
    induction n with
    | zero => simp
    | succ n ih =>
        rw [List.range'_1_concat, List.foldl_append, ih]
        simp only [List.foldl_cons, List.foldl_nil]
        omega
  unfold State.nextSeq
  rw [hs.numbered, hfold]
  omega

/-! ### Steps that leave the sequences alone -/

/-- The log and the events on their way are the same. -/
structure Flow (s s' : State) : Prop where
  log : s'.log = s.log
  handing : s'.handing = s.handing
  callbacks : s'.callbacks = s.callbacks
  fanouts : s'.fanouts = s.fanouts
  deliveries : s'.deliveries = s.deliveries

/-- And so are the subscriptions. -/
structure Same (s s' : State) : Prop extends Flow s s' where
  subscriptions : s'.subscriptions = s.subscriptions

/-- The calls that change none of it. -/
def quiet : Call → Bool
  | .persist _ _ | .notify _ | .publish _ | .subscribe | .unsubscribe _ | .send _
  | .endRound _ _ | .close _ _ => false
  | _ => true

theorem same_of_quiet {c : Call} (hc : quiet c = true) {o : Oracle} {r : c.Out}
    (ha : State.answer p o c s = some (r, s')) : Same s s' := by
  cases c <;> cases hc
  all_goals
    simp only [State.answer] at ha
    try split at ha
    all_goals
      try split at ha
      all_goals
        first
          | (obtain ⟨-, rfl⟩ := Prod.mk.inj (Option.some.inj ha)
             exact ⟨⟨rfl, rfl, rfl, rfl, rfl⟩, rfl⟩)
          | cases ha

theorem Same.inv (h : Same s s') (hs : Inv s) : Inv s' where
  numbered := by rw [h.log]; exact hs.numbered
  moving := by
    rw [h.log, h.fanouts, h.callbacks, h.handing]
    exact hs.moving
  delivered := by
    rw [h.log, h.deliveries, h.subscriptions]
    exact hs.delivered
  queued k := by
    rw [h.log, queueOf, h.subscriptions]
    exact hs.queued k

/-- An overflow is as it was, the front of the queue too, and the sequence goes on. -/
theorem open_mid (hover : overflowed k s' = overflowed k s)
    (hhead : ∀ e, (queueOf k s).head? = some e → (queueOf k s').head? = some e)
    (hahead : ∀ m, Ahead m k s → Ahead m k s') (m : Nat) :
    (Open m k s → Open m k s') ∧ (Mid m k s → Mid m k s') := by
  constructor
  · intro hopen hfalse
    rw [hover] at hfalse
    exact hahead m (hopen hfalse)
  · rintro (hmid | ⟨htrue, e, he, hle⟩)
    · exact .inl (hahead m hmid)
    · rw [← hover] at htrue
      exact .inr ⟨htrue, e, hhead e he, hle⟩

/-- A coroutine whose subscriptions are as they were. -/
theorem Flow.rely (h : Flow s s')
    (hsub : ∀ k, Mine q k s → s'.subscriptions[k]? = s.subscriptions[k]?) : Rely τ q s s' := by
  refine ⟨by rw [h.log]; exact fun _ he => he, fun k hk => ⟨?_, fun _ => ?_⟩⟩
  · unfold Mine
    rw [hsub k hk]
    exact hk
  · have hqueue : queueOf k s' = queueOf k s := by
      unfold queueOf
      rw [hsub k hk]
    have hpipe : pipe k s' = pipe k s := by
      unfold pipe deliveriesOf
      rw [hqueue, h.deliveries, h.fanouts, h.callbacks, h.handing]
    refine open_mid ?_ (fun e he => by rw [hqueue]; exact he) fun m hm => ?_
    · unfold overflowed
      rw [hsub k hk]
    · unfold Ahead
      rw [hpipe, h.log]
      exact hm

theorem Same.rely (h : Same s s') (q : Pid) : Rely τ q s s' :=
  h.toFlow.rely fun _ _ => by rw [h.subscriptions]

/-! ### Steps that move events along -/

/-- `s'` differs from `s` in the log and in the events on their way, but not in the
subscriptions. -/
theorem rely_of_pipe (hsub : s'.subscriptions = s.subscriptions) (hlog : ∀ e ∈ s.log, e ∈ s'.log)
    (hahead : τ = true → ∀ k m, Mine q k s → Ahead m k s → Ahead m k s') :
    Rely τ q s s' := by
  refine ⟨hlog, fun k hk => ⟨?_, fun ht => open_mid ?_ (fun e he => ?_)
    fun m => hahead ht k m hk⟩⟩
  · unfold Mine
    rw [hsub]
    exact hk
  · unfold overflowed
    rw [hsub]
  · unfold queueOf
    rw [hsub]
    exact he

theorem Inv.persist {o : Oracle} {kind : EventKind} {payload : Payload} (hs : Inv s)
    (ha : State.answer p o (.persist kind payload) s = some (e, s')) :
    Inv s' ∧ e ∈ s'.log ∧ ∀ q, Rely τ q s s' := by
  obtain ⟨rfl, rfl⟩ := Prod.mk.inj (Option.some.inj ha)
  refine ⟨?_, List.mem_append_right _ List.mem_cons_self, fun q => ?_⟩
  · constructor
    · dsimp only
      rw [List.map_append, hs.numbered, List.length_append, List.length_singleton,
        List.range'_1_concat, List.map_singleton, hs.nextSeq, Nat.add_comm 1]
    · intro x hx
      rw [← List.append_assoc, List.mem_append, List.mem_singleton] at hx
      rcases hx with hx | rfl
      · exact List.mem_append_left _ (hs.moving x hx)
      · exact List.mem_append_right _ List.mem_cons_self
    · intro d hd
      exact ⟨List.mem_append_left _ (hs.delivered d hd).1, (hs.delivered d hd).2⟩
    · intro k x hx
      exact List.mem_append_left _ (hs.queued k x hx)
  · refine rely_of_pipe rfl (fun x hx => List.mem_append_left _ hx) fun _ k m _ hm => ?_
    have hpipe : pipe k { s with
        log := s.log ++ [⟨s.nextSeq, kind, payload⟩]
        handing := s.handing ++ [⟨s.nextSeq, kind, payload⟩] } = pipe k s ++ [s.nextSeq] := by
      unfold pipe queueOf deliveriesOf
      simp only [List.map_append, List.append_assoc, List.map_cons, List.map_nil]
    unfold Ahead
    rw [hpipe, reach_append, hs.nextSeq]
    refine ⟨hm.1.snoc (by have hle := hm.2; omega), ?_⟩
    show (s.log ++ [_]).length ≤ max _ _
    rw [List.length_append, List.length_singleton]
    omega

/-- An event is put before those that come later, and the thread that had it lets go of it. -/
theorem noGap_handed {xs ys : List Nat} {handing : List Event} {e : Event}
    (h : NoGap m (xs ++ (ys ++ handing.map Event.seq)))
    (hys : ∀ y ∈ ys ++ handing.map Event.seq, e.seq ≤ y)
    (hx : e.seq ≤ reach m (xs ++ (ys ++ handing.map Event.seq))) :
    let rest := (handing.filter fun x => x.seq ≠ e.seq).map Event.seq
    NoGap m (xs ++ e.seq :: (ys ++ rest)) ∧
      reach m (xs ++ (ys ++ handing.map Event.seq)) ≤ reach m (xs ++ e.seq :: (ys ++ rest)) := by
  have hrest : (handing.filter fun x => x.seq ≠ e.seq).map Event.seq =
      (handing.map Event.seq).filter (· ≠ e.seq) := by
    rw [List.filter_map]
    rfl
  have hput := h.insert hys hx
  have hreach : reach m (xs ++ (ys ++ handing.map Event.seq)) ≤
      reach m (xs ++ e.seq :: (ys ++ handing.map Event.seq)) := reach_insert
  have hassoc : ∀ zs : List Nat, xs ++ e.seq :: (ys ++ zs) = (xs ++ e.seq :: ys) ++ zs := by
    intro zs
    rw [List.append_assoc]
    rfl
  have hpassed : e.seq ≤ reach m (xs ++ e.seq :: ys) :=
    le_reach_of_mem (List.mem_append_right _ List.mem_cons_self)
  have hsplit : ∀ zs : List Nat,
      reach m ((xs ++ e.seq :: ys) ++ zs) = reach (reach m (xs ++ e.seq :: ys)) zs := by
    intro zs
    exact reach_append
  dsimp only
  rw [hrest, hassoc]
  rw [hassoc] at hput hreach
  obtain ⟨hfront, hback⟩ := noGap_append.mp hput
  refine ⟨noGap_append.mpr ⟨hfront, (noGap_filter hpassed).mpr hback⟩, ?_⟩
  rw [hsplit, reach_filter hpassed, ← hsplit]
  exact hreach

/-- `handed` and what is added to the loop. -/
theorem Inv.hand {f : State → State} (hs : Inv s) (he : e ∈ s.log)
    (hsame : (f (s.handed e)).log = s.log ∧ (f (s.handed e)).handing = (s.handed e).handing ∧
      (f (s.handed e)).subscriptions = s.subscriptions)
    (hmoving : ∀ x ∈ (f (s.handed e)).fanouts ++ (f (s.handed e)).callbacks,
      x ∈ s.fanouts ++ s.callbacks ∨ x = e)
    (hdeliveries : ∀ d ∈ (f (s.handed e)).deliveries, d ∈ s.deliveries ∨
      d.2 = e ∧ d.1 < s.subscriptions.length) : Inv (f (s.handed e)) := by
  obtain ⟨hlog, hhanding, hsub⟩ := hsame
  constructor
  · rw [hlog]
    exact hs.numbered
  · intro x hx
    rw [hlog]
    rcases List.mem_append.mp hx with hx | hx
    · rcases hmoving x hx with hx | rfl
      · exact hs.moving x (List.mem_append_left _ hx)
      · exact he
    · rw [hhanding] at hx
      exact hs.moving x (List.mem_append_right _ (List.mem_of_mem_filter hx))
  · intro d hd
    rw [hlog, hsub]
    rcases hdeliveries d hd with hd | ⟨rfl, hlt⟩
    · exact hs.delivered d hd
    · exact ⟨he, hlt⟩
  · intro k
    rw [hlog, queueOf, hsub]
    exact hs.queued k

theorem Inv.notify {o : Oracle} {r : Unit} (hs : Inv s) (he : e ∈ s.log)
    (ha : State.answer p o (.notify e) s = some (r, s'))
    (hK : τ = true → s.listener = true → ∀ x ∈ s.handing, e.seq ≤ x.seq) :
    Inv s' ∧ ∀ q, Rely τ q s s' := by
  simp only [State.answer] at ha
  split at ha
  next hlistener =>
    obtain ⟨-, rfl⟩ := Prod.mk.inj (Option.some.inj ha)
    refine ⟨hs.hand (f := State.schedule e) he ⟨rfl, rfl, rfl⟩ ?_ fun d hd => .inl hd, fun q => ?_⟩
    · intro x hx
      change x ∈ s.fanouts ++ (s.callbacks ++ [e]) at hx
      rw [← List.append_assoc, List.mem_append, List.mem_singleton] at hx
      exact hx
    · refine rely_of_pipe rfl (fun _ hx => hx) fun ht k m _ hm => ?_
      have hold : pipe k s = (queueOf k s ++ deliveriesOf k s ++ s.fanouts ++ s.callbacks).map
          Event.seq ++ ([] ++ s.handing.map Event.seq) := by
        unfold pipe
        simp only [List.map_append, List.append_assoc, List.nil_append]
      have hnew : pipe k (State.schedule e (s.handed e)) =
          (queueOf k s ++ deliveriesOf k s ++ s.fanouts ++ s.callbacks).map Event.seq ++
            e.seq :: ([] ++ (s.handing.filter fun x => x.seq ≠ e.seq).map Event.seq) := by
        unfold pipe State.schedule State.handed
        simp only [List.map_append, List.append_assoc, List.nil_append, List.map_cons,
          List.cons_append]
        rfl
      unfold Ahead at hm ⊢
      rw [hold] at hm
      rw [hnew]
      have hle : e.seq ≤ s.log.length := hs.length he
      obtain ⟨hgap, hreach⟩ := noGap_handed hm.1 (e := e) (by
        intro y hy
        obtain ⟨x, hx, rfl⟩ := List.mem_map.mp hy
        exact hK ht hlistener x hx) (hle.trans hm.2)
      exact ⟨hgap, hm.2.trans hreach⟩
  next =>
    obtain ⟨-, rfl⟩ := Prod.mk.inj (Option.some.inj ha)
    exact ⟨hs, fun q => .refl q s⟩

theorem mem_subscribers : k ∈ s.subscribers ↔ (s.subscriptions[k]?).any (·.subscribed) = true := by
  unfold State.subscribers
  rw [List.mem_filter, List.mem_range, and_iff_right_iff_imp]
  intro h
  by_contra hlt
  rw [List.getElem?_eq_none (Nat.le_of_not_lt hlt)] at h
  cases h

/-- A subscriber gets one delivery. -/
theorem deliveriesOf_fanOut (hk : Mine q k s) :
    deliveriesOf k (s.fanOut e) = deliveriesOf k s ++ [e] := by
  obtain ⟨x, hx, -, hsubscribed⟩ := hk
  have hmem : k ∈ s.subscribers := by
    rw [mem_subscribers, hx]
    exact hsubscribed
  have hnodup : s.subscribers.Nodup := List.nodup_range.filter _
  have hone : s.subscribers.filter (fun j => j = k) = [k] := by
    rw [List.filter_eq, List.count_eq_one_of_mem hnodup hmem, List.replicate_one]
  unfold deliveriesOf State.fanOut
  rw [List.filter_append, List.map_append, List.filter_map, List.map_map]
  congr 1
  show (s.subscribers.filter fun j => j = k).map _ = _
  rw [hone]
  rfl

theorem Inv.publish {o : Oracle} {r : Unit} (hs : Inv s) (he : e ∈ s.log)
    (ha : State.answer p o (.publish e) s = some (r, s'))
    (hK : τ = true → ∀ x ∈ s.fanouts ++ s.callbacks ++ s.handing, e.seq ≤ x.seq) :
    Inv s' ∧ ∀ q, Rely τ q s s' := by
  obtain ⟨-, rfl⟩ := Prod.mk.inj (Option.some.inj ha)
  refine ⟨hs.hand (f := State.fanOut e) he ⟨rfl, rfl, rfl⟩ (fun x hx => .inl hx) ?_, fun q => ?_⟩
  · intro d hd
    rcases List.mem_append.mp hd with hd | hd
    · exact .inl hd
    · obtain ⟨k, hk, rfl⟩ := List.mem_map.mp hd
      have hlt : k < s.subscriptions.length := List.mem_range.mp (List.mem_of_mem_filter hk)
      exact .inr ⟨rfl, hlt⟩
  · refine rely_of_pipe rfl (fun _ hx => hx) fun ht k m hk hm => ?_
    have hold : pipe k s = (queueOf k s ++ deliveriesOf k s).map Event.seq ++
        ((s.fanouts ++ s.callbacks).map Event.seq ++ s.handing.map Event.seq) := by
      unfold pipe
      simp only [List.map_append, List.append_assoc]
    have hdeliveries : deliveriesOf k (State.fanOut e (s.handed e)) = deliveriesOf k s ++ [e] :=
      deliveriesOf_fanOut (s := s.handed e) hk
    have hnew : pipe k (State.fanOut e (s.handed e)) =
        (queueOf k s ++ deliveriesOf k s).map Event.seq ++ e.seq ::
          ((s.fanouts ++ s.callbacks).map Event.seq ++
            (s.handing.filter fun x => x.seq ≠ e.seq).map Event.seq) := by
      unfold pipe
      rw [hdeliveries]
      unfold State.fanOut State.handed
      simp only [List.map_append, List.append_assoc, List.map_cons, List.cons_append,
        List.nil_append]
      rfl
    unfold Ahead at hm ⊢
    rw [hold] at hm
    rw [hnew]
    have hle : e.seq ≤ s.log.length := hs.length he
    obtain ⟨hgap, hreach⟩ := noGap_handed hm.1 (e := e) (by
      intro y hy
      rw [← List.map_append] at hy
      obtain ⟨x, hx, rfl⟩ := List.mem_map.mp hy
      exact hK ht x hx) (hle.trans hm.2)
    exact ⟨hgap, hm.2.trans hreach⟩

/-! ### Subscriptions -/

theorem Inv.subscribe {o : Oracle} {r : Option (Nat × List Event)} (hs : Inv s)
    (ha : State.answer p o .subscribe s = some (r, s')) :
    Inv s' ∧ (∀ q, Rely τ q s s') ∧ ∀ k snapshot, r = some (k, snapshot) →
      snapshot = s.log ∧ s'.log = s.log ∧ Mine p k s' ∧ ∀ m, s.log.length ≤ m → Ahead m k s' := by
  simp only [State.answer] at ha
  split at ha
  next =>
    obtain ⟨rfl, rfl⟩ := Prod.mk.inj (Option.some.inj ha)
    exact ⟨hs, fun q => .refl q s, fun _ _ h => by cases h⟩
  next =>
    obtain ⟨rfl, rfl⟩ := Prod.mk.inj (Option.some.inj ha)
    have hold : ∀ k, k < s.subscriptions.length →
        (s.subscriptions ++ [⟨p, [], false, true⟩])[k]? = s.subscriptions[k]? :=
      fun k hk => List.getElem?_append_left hk
    have hnew : (s.subscriptions ++ [(⟨p, [], false, true⟩ : Subscription)])[
        s.subscriptions.length]? = some ⟨p, [], false, true⟩ := List.getElem?_concat_length
    refine ⟨⟨hs.numbered, hs.moving, ?_, ?_⟩, fun q => ?_, ?_⟩
    · intro d hd
      refine ⟨(hs.delivered d hd).1, ?_⟩
      rw [List.length_append]
      exact Nat.lt_add_right _ (hs.delivered d hd).2
    · intro k e he
      unfold queueOf at he
      dsimp only at he
      rcases Nat.lt_trichotomy k s.subscriptions.length with hk | rfl | hk
      · rw [hold k hk] at he
        exact hs.queued k e he
      · rw [hnew] at he
        cases he
      · rw [List.getElem?_eq_none (by rw [List.length_append, List.length_singleton]; omega)] at he
        cases he
    · refine Flow.rely ⟨rfl, rfl, rfl, rfl, rfl⟩ fun k hk => hold k ?_
      obtain ⟨x, hx, -⟩ := hk
      exact (List.getElem?_eq_some_iff.mp hx).1
    · intro k snapshot h
      obtain ⟨rfl, rfl⟩ := Prod.mk.inj (Option.some.inj h)
      refine ⟨rfl, rfl, ⟨_, hnew, rfl, rfl⟩, fun m hm => ?_⟩
      have hnone : deliveriesOf s.subscriptions.length s = [] := by
        unfold deliveriesOf
        rw [List.filter_eq_nil_iff.mpr, List.map_nil]
        intro d hd
        have hlt := (hs.delivered d hd).2
        simp only [decide_eq_true_eq]
        omega
      have hle : ∀ x ∈ pipe s.subscriptions.length { s with
          subscriptions := s.subscriptions ++ [⟨p, [], false, true⟩] }, x ≤ m := by
        intro x hx
        unfold pipe queueOf at hx
        dsimp only at hx
        rw [hnew] at hx
        change x ∈ ([] ++ deliveriesOf s.subscriptions.length s ++ _).map Event.seq at hx
        rw [hnone, List.append_nil, List.nil_append] at hx
        obtain ⟨e, he, rfl⟩ := List.mem_map.mp hx
        exact (hs.length (hs.moving e he)).trans hm
      exact ⟨noGap_of_le hle, hm.trans le_reach⟩

/-- A coroutine changes one of its own subscriptions. -/
theorem Inv.modify {f : Subscription → Subscription} (hs : Inv s) (hk : Mine p k s)
    (hf : ∀ x, ∀ e ∈ (f x).queue, e ∈ x.queue) :
    Inv (s.modify k f) ∧ Guar τ p s (s.modify k f) := by
  refine ⟨⟨hs.numbered, hs.moving, ?_, ?_⟩, fun q hq => ?_⟩
  · intro d hd
    refine ⟨(hs.delivered d hd).1, ?_⟩
    unfold State.modify
    rw [List.length_modify]
    exact (hs.delivered d hd).2
  · intro j e he
    apply hs.queued j e
    unfold queueOf State.modify at he
    dsimp only at he
    rw [List.getElem?_modify] at he
    unfold queueOf
    cases hx : s.subscriptions[j]? with
    | none =>
        rw [hx] at he
        cases he
    | some x =>
        rw [hx, Option.map_eq_map, Option.map_some] at he
        by_cases hj : k = j
        · rw [if_pos hj] at he
          exact hf x e he
        · rw [if_neg hj] at he
          exact he
  · refine Flow.rely ⟨rfl, rfl, rfl, rfl, rfl⟩ fun j hj => ?_
    have hne : k ≠ j := by
      rintro rfl
      obtain ⟨x, hx, hp, -⟩ := hk
      obtain ⟨y, hy, hq', -⟩ := hj
      rw [hx] at hy
      obtain rfl := Option.some.inj hy
      exact hq (hq'.symm.trans hp)
    exact List.getElem?_modify_ne _ _ hne

theorem mine_tail (hk : Mine p k s) :
    Mine p k (s.modify k fun x => { x with queue := x.queue.tail }) := by
  obtain ⟨x, hx, hp, hsub⟩ := hk
  refine ⟨{ x with queue := x.queue.tail }, ?_, hp, hsub⟩
  unfold State.modify
  dsimp only
  rw [List.getElem?_modify_eq, hx]
  rfl

theorem queueOf_tail (hk : Mine p k s) :
    queueOf k (s.modify k fun x => { x with queue := x.queue.tail }) = (queueOf k s).tail := by
  obtain ⟨x, hx, -, -⟩ := hk
  unfold queueOf State.modify
  dsimp only
  rw [List.getElem?_modify_eq, hx]
  rfl

theorem overflowed_tail (hk : Mine p k s) :
    overflowed k (s.modify k fun x => { x with queue := x.queue.tail }) = overflowed k s := by
  obtain ⟨x, hx, -, -⟩ := hk
  unfold overflowed State.modify
  dsimp only
  rw [List.getElem?_modify_eq, hx]
  rfl

theorem pipe_tail (hk : Mine p k s) (he : (queueOf k s).head? = some e) :
    pipe k s = e.seq :: pipe k (s.modify k fun x => { x with queue := x.queue.tail }) := by
  have hqueue := queueOf_tail hk
  obtain ⟨rest, hrest⟩ := List.head?_eq_some_iff.mp he
  unfold pipe
  rw [hqueue, hrest]
  rfl

theorem Mid.open (h : Mid m k s) : Open m k s := by
  intro hfalse
  rcases h with hahead | ⟨htrue, -⟩
  · exact hahead
  · rw [hfalse] at htrue
    cases htrue

/-- What a round has taken, for the coroutine itself; `flag` is what it knew of an overflow. -/
structure Taken (τ : Bool) (p : Pid) (k m : Nat) (flag : Bool) (r : Round) (s : State) :
    Prop where
  mine : Mine p k s
  flagged : flag = true → r.overflow = true
  known : ∀ e, r.event = some e → e ∈ s.log
  next : τ = true → flag = false → ∀ e, r.event = some e →
    e.seq ≤ m + 1 ∧ Open (max m e.seq) k s
  none : τ = true → flag = false → r.event = none → Open m k s

theorem Inv.endRound {o : Oracle} {flag : Bool} {r : Round} (hs : Inv s) (hk : Mine p k s)
    (hmid : τ = true → flag = false → Mid m k s)
    (ha : State.answer p o (.endRound k flag) s = some (r, s')) :
    Inv s' ∧ Guar τ p s s' ∧ Taken τ p k m flag r s' := by
  obtain ⟨x, hx, hp, hsub⟩ := hk
  have hk : Mine p k s := ⟨x, hx, hp, hsub⟩
  have hqueue : queueOf k s = x.queue := by
    unfold queueOf
    rw [hx]
    rfl
  have hflagged : ∀ b, flag = true → (flag || b) = true := by
    rintro b rfl
    rfl
  cases htakes : o.takes with
  | false =>
      simp only [State.answer, htakes, Bool.false_eq_true, if_false] at ha
      split at ha
      next =>
        obtain ⟨rfl, rfl⟩ := Prod.mk.inj (Option.some.inj ha)
        refine ⟨hs, fun q _ => .refl q s, hk, hflagged _, fun _ h => ?_, fun _ _ _ h => ?_,
          fun ht hflag _ => (hmid ht hflag).open⟩
        · cases h
        · cases h
      next => cases ha
  | true =>
      simp only [State.answer, htakes, hx, if_true, Option.bind_some] at ha
      split at ha
      next =>
        obtain ⟨rfl, rfl⟩ := Prod.mk.inj (Option.some.inj ha)
        obtain ⟨hs', hguar⟩ := hs.modify (τ := τ) hk
          (f := fun y => { y with queue := y.queue.tail }) fun y e he => List.mem_of_mem_tail he
        refine ⟨hs', hguar, mine_tail hk, hflagged _, fun e he => ?_, fun ht hflag e he => ?_,
          fun ht hflag he => ?_⟩
        · apply hs.queued k e
          rw [hqueue]
          exact List.mem_of_mem_head? he
        · have hhead : (queueOf k s).head? = some e := by
            rw [hqueue]
            exact he
          rcases hmid ht hflag with ⟨hgap, hreach⟩ | ⟨htrue, e', he', hle⟩
          · rw [pipe_tail hk hhead] at hgap hreach
            exact ⟨hgap.1, fun _ => ⟨hgap.2, hreach⟩⟩
          · rw [hhead] at he'
            obtain rfl := Option.some.inj he'
            refine ⟨hle, fun hfalse => ?_⟩
            rw [overflowed_tail hk, htrue] at hfalse
            cases hfalse
        · have hempty : x.queue = [] := List.head?_eq_none_iff.mp he
          have hsame :
              pipe k (s.modify k fun x => { x with queue := x.queue.tail }) = pipe k s := by
            have htail := queueOf_tail hk
            rw [hqueue, hempty] at htail
            unfold pipe
            rw [htail, hqueue, hempty]
            rfl
          have hopen := (hmid ht hflag).open
          intro hfalse
          rw [overflowed_tail hk] at hfalse
          unfold Ahead
          rw [hsame]
          exact hopen hfalse
      next => cases ha

/-! ### The loop by itself -/

theorem Inv.callback (hs : Inv s) (h : Happening.apply .callback s = some s') :
    Inv s' ∧ ∀ q, Rely τ q s s' := by
  simp only [Happening.apply] at h
  split at h
  next e rest hcallbacks =>
    obtain rfl := Option.some.inj h
    refine ⟨⟨hs.numbered, ?_, hs.delivered, hs.queued⟩, fun q => ?_⟩
    · intro x hx
      apply hs.moving x
      rw [hcallbacks]
      simpa [or_assoc, or_comm, or_left_comm] using hx
    · refine rely_of_pipe rfl (fun _ hx => hx) fun _ k m _ hm => ?_
      have hpipe : pipe k { s with callbacks := rest, fanouts := s.fanouts ++ [e] } = pipe k s := by
        unfold pipe queueOf deliveriesOf
        rw [hcallbacks]
        simp only [List.append_assoc, List.cons_append, List.nil_append]
      unfold Ahead
      rw [hpipe]
      exact hm
  next => cases h

theorem Inv.fanOut (hs : Inv s) (h : Happening.apply .fanOut s = some s') :
    Inv s' ∧ ∀ q, Rely τ q s s' := by
  simp only [Happening.apply] at h
  split at h
  next e rest hfanouts =>
    obtain rfl := Option.some.inj h
    have he : e ∈ s.log := by
      apply hs.moving
      rw [hfanouts]
      simp
    refine ⟨⟨hs.numbered, ?_, ?_, hs.queued⟩, fun q => ?_⟩
    · intro x hx
      apply hs.moving x
      rw [hfanouts]
      exact List.mem_cons_of_mem _ hx
    · intro d hd
      rcases List.mem_append.mp hd with hd | hd
      · exact hs.delivered d hd
      · obtain ⟨k, hk, rfl⟩ := List.mem_map.mp hd
        exact ⟨he, List.mem_range.mp (List.mem_of_mem_filter hk)⟩
    · refine rely_of_pipe rfl (fun _ hx => hx) fun _ k m hk hm => ?_
      have hdeliveries : deliveriesOf k (State.fanOut e { s with fanouts := rest }) =
          deliveriesOf k s ++ [e] := deliveriesOf_fanOut (s := { s with fanouts := rest }) hk
      have hpipe : pipe k (State.fanOut e { s with fanouts := rest }) = pipe k s := by
        unfold pipe
        rw [hdeliveries, hfanouts]
        simp only [List.append_assoc, List.cons_append, List.nil_append]
        rfl
      unfold Ahead
      rw [hpipe]
      exact hm
  next => cases h

/-- A delivery to a queue with room, or to one that overflows. -/
theorem receive_cases (e : Event) (x : Subscription) :
    State.receive e x = { x with queue := x.queue ++ [e] } ∨
      State.receive e x = { x with overflowed := true } ∧ x.queue ≠ [] := by
  unfold State.receive
  split
  next => exact .inl rfl
  next hfull =>
    right
    refine ⟨rfl, ?_⟩
    intro hempty
    rw [hempty] at hfull
    exact hfull (by decide)

/-- The first delivery has reached its subscription. -/
structure Delivered (j : Nat) (e : Event) (rest : List (Nat × Event)) (s s' : State) : Prop where
  log : s'.log = s.log
  moving : s'.fanouts ++ s'.callbacks ++ s'.handing = s.fanouts ++ s.callbacks ++ s.handing
  before : s.deliveries = (j, e) :: rest
  after : s'.deliveries = rest
  subscriptions : ∀ k, s'.subscriptions[k]? =
    (s.subscriptions[k]?).map fun x => if j = k then State.receive e x else x

section Delivered

variable {j : Nat} {rest : List (Nat × Event)} {x : Subscription}

theorem Delivered.other (h : Delivered j e rest s s') (hne : j ≠ k) (m : Nat) :
    (Open m k s → Open m k s') ∧ (Mid m k s → Mid m k s') := by
  have hsub : s'.subscriptions[k]? = s.subscriptions[k]? := by
    rw [h.subscriptions]
    cases s.subscriptions[k]? with
    | none => rfl
    | some x => exact congrArg some (if_neg hne)
  have hqueue : queueOf k s' = queueOf k s := by
    unfold queueOf
    rw [hsub]
  have hpipe : pipe k s' = pipe k s := by
    unfold pipe deliveriesOf
    rw [hqueue, h.moving, h.before, h.after, List.filter_cons_of_neg (by simpa using hne)]
  refine open_mid ?_ (fun e he => by rw [hqueue]; exact he) (fun m hm => ?_) m
  · unfold overflowed
    rw [hsub]
  · unfold Ahead
    rw [hpipe, h.log]
    exact hm

theorem Delivered.queueOf (h : Delivered j e rest s s') (hx : s.subscriptions[j]? = some x) :
    queueOf j s = x.queue ∧ queueOf j s' = (State.receive e x).queue := by
  unfold Socket.queueOf
  rw [h.subscriptions, hx]
  exact ⟨rfl, congrArg Subscription.queue (if_pos rfl)⟩

theorem Delivered.overflowed (h : Delivered j e rest s s') (hx : s.subscriptions[j]? = some x) :
    overflowed j s = x.overflowed ∧ overflowed j s' = (State.receive e x).overflowed := by
  unfold Socket.overflowed
  rw [h.subscriptions, hx]
  exact ⟨rfl, congrArg Subscription.overflowed (if_pos rfl)⟩

theorem Delivered.room (h : Delivered j e rest s s') (hx : s.subscriptions[j]? = some x)
    (hroom : State.receive e x = { x with queue := x.queue ++ [e] }) (m : Nat) :
    (Open m j s → Open m j s') ∧ (Mid m j s → Mid m j s') := by
  obtain ⟨hqueue, hqueue'⟩ := h.queueOf hx
  obtain ⟨hover, hover'⟩ := h.overflowed hx
  rw [hroom] at hqueue' hover'
  have hpipe : pipe j s' = pipe j s := by
    unfold pipe deliveriesOf
    rw [hqueue, hqueue', h.moving, h.before, h.after, List.filter_cons_of_pos (by simp)]
    simp only [List.append_assoc, List.map_cons, List.cons_append, List.nil_append]
  refine open_mid (hover'.trans hover.symm) (fun e' he' => ?_) (fun m hm => ?_) m
  · rw [hqueue] at he'
    rw [hqueue', List.head?_append, he']
    rfl
  · unfold Ahead
    rw [hpipe, h.log]
    exact hm

/-- With a full queue the event is lost, and the front is still there. -/
theorem Delivered.full (h : Delivered j e rest s s') (hx : s.subscriptions[j]? = some x)
    (hfull : State.receive e x = { x with overflowed := true }) (hne : x.queue ≠ []) (m : Nat) :
    (Open m j s → Open m j s') ∧ (Mid m j s → Mid m j s') := by
  obtain ⟨hqueue, hqueue'⟩ := h.queueOf hx
  obtain ⟨-, hover'⟩ := h.overflowed hx
  rw [hfull] at hqueue' hover'
  constructor
  · intro _ hfalse
    rw [hover'] at hfalse
    cases hfalse
  · intro hmid
    refine .inr ⟨hover', ?_⟩
    rw [hqueue', ← hqueue]
    rcases hmid with ⟨hgap, -⟩ | ⟨-, hhead⟩
    · obtain ⟨y, ys, hys⟩ := List.exists_cons_of_ne_nil hne
      unfold pipe at hgap
      rw [hqueue, hys] at hgap ⊢
      exact ⟨y, rfl, hgap.1⟩
    · exact hhead

theorem mem_receive {e' : Event} (hx : e' ∈ (State.receive e x).queue) :
    e' ∈ x.queue ∨ e' = e := by
  rcases receive_cases e x with hroom | ⟨hfull, -⟩
  · rw [hroom] at hx
    exact (List.mem_append.mp hx).imp id List.mem_singleton.mp
  · rw [hfull] at hx
    exact .inl hx

end Delivered

theorem Inv.deliver (hs : Inv s) (h : Happening.apply .deliver s = some s') :
    Inv s' ∧ ∀ q, Rely τ q s s' := by
  simp only [Happening.apply] at h
  split at h
  next j e rest hdeliveries =>
    obtain rfl := Option.some.inj h
    have hfirst := hs.delivered (j, e) (by rw [hdeliveries]; exact List.mem_cons_self)
    have hd : Delivered j e rest s
        (State.modify j (State.receive e) { s with deliveries := rest }) :=
      ⟨rfl, rfl, hdeliveries, rfl, fun k => List.getElem?_modify _ _ _ _⟩
    refine ⟨⟨hs.numbered, hs.moving, ?_, ?_⟩, fun q => ⟨fun _ hx => hx, fun k hk => ?_⟩⟩
    · intro d hd
      have hold := hs.delivered d (by rw [hdeliveries]; exact List.mem_cons_of_mem _ hd)
      refine ⟨hold.1, ?_⟩
      unfold State.modify
      rw [List.length_modify]
      exact hold.2
    · intro k x hx
      unfold queueOf at hx
      rw [hd.subscriptions] at hx
      have hold := hs.queued k
      unfold queueOf at hold
      cases hy : s.subscriptions[k]? with
      | none =>
          rw [hy] at hx
          cases hx
      | some y =>
          rw [hy] at hx hold
          simp only [Option.map_some, Option.getD_some] at hx hold
          split at hx
          next =>
            rcases mem_receive hx with hx | rfl
            · exact hold x hx
            · exact hfirst.1
          next => exact hold x hx
    · obtain ⟨y, hy, hp, hsub⟩ := hk
      have hthere := hd.subscriptions k
      rw [hy, Option.map_some] at hthere
      refine ⟨⟨_, hthere, ?_⟩, fun _ => ?_⟩
      · split
        next =>
          rcases receive_cases e y with hroom | ⟨hfull, -⟩
          · rw [hroom]
            exact ⟨hp, hsub⟩
          · rw [hfull]
            exact ⟨hp, hsub⟩
        next => exact ⟨hp, hsub⟩
      · by_cases hjk : j = k
        · subst hjk
          rcases receive_cases e y with hroom | ⟨hfull, hne⟩
          · exact hd.room hy hroom
          · exact hd.full hy hfull hne
        · exact hd.other hjk
  next => cases h

/-! ### The programs of the conversation -/

/-- The contract of a coroutine. -/
abbrev E (τ : Bool) (p : Pid) :=
  Machine.contract (M := server) (watched τ) Inv (Rely τ) (Guar τ) p (duty τ)

section Rules

variable {w : State × Hist} {α β : Type}

theorem safe_ask {c : Call} {Q : c.Out → State × Hist → Prop} {exn : Exn → State × Hist → Prop}
    (hQ : ∀ o s s' r, Inv s → Rely τ p w.1 s → (watched τ).call p w.2 c s r = true →
      State.answer p o c s = some (r, s') → Inv s' ∧ Guar τ p s s' ∧
        (duty τ).call p w.2 c s r = true ∧ Q r (s', ⟨c, r, s⟩ :: w.2)) :
    Safe (E τ p) (ask c) Q exn w := by
  rintro ⟨s, h⟩ hinv ⟨hrely, hh⟩ r ⟨s', h'⟩ ⟨hK, ⟨o, ha⟩, hh'⟩
  obtain rfl : h = w.2 := hh
  obtain rfl : h' = ⟨c, r, s⟩ :: w.2 := hh'
  obtain ⟨hinv', hguar, hduty, hpost⟩ := hQ o s s' r hinv hrely hK ha
  exact ⟨hinv', ⟨hguar, hduty⟩, hpost⟩

/-- The calls of which a socket owes something. -/
def owing : Call → Bool
  | .send _ | .close _ _ => true
  | _ => false

theorem duty_of_owing {c : Call} (hc : owing c = false) (h : Hist) (s : State) (r : c.Out) :
    (duty τ).call p h c s r = true := by
  cases p <;> cases c <;> first | rfl | cases hc

theorem sentBy_of_owing {c : Call} (hc : owing c = false) (r : c.Out) (s : State) :
    sentBy ⟨c, r, s⟩ = none := by
  cases c <;> first | rfl | cases hc

theorem owing_of_quiet {c : Call} (hc : quiet c = true) : owing c = false := by
  cases c <;> first | rfl | cases hc

/-- An assertion that neither the others nor the conversation's own calls can break. -/
structure Steady (τ : Bool) (p : Pid) (A : State × Hist → Prop) : Prop where
  rely : ∀ s s' h, Rely τ p s s' → A (s, h) → A (s', h)
  cons : ∀ s h x, sentBy x = none → A (s, h) → A (s, x :: h)

variable {A : State × Hist → Prop}

theorem keeps_quiet (hA : Steady τ p A) {c : Call} (hc : quiet c = true) :
    Keeps (E τ p) A (ask c) := by
  intro w hw
  refine safe_ask fun o s s' r hinv hrely _ ha => ?_
  have hsame := same_of_quiet hc ha
  have howing := owing_of_quiet hc
  refine ⟨hsame.inv hinv, fun q _ => hsame.rely q, duty_of_owing howing _ _ _, ?_⟩
  exact hA.cons _ _ _ (sentBy_of_owing howing r s)
    (hA.rely _ _ _ (hrely.trans (hsame.rely p)) hw)

/-- The same for a call that may raise. -/
theorem keeps_raising (hA : Steady τ p A) {c : Call} (hc : quiet c = true)
    {f : c.Out → Except Exn α} :
    Keeps (E τ p) A (ExceptT.mk (Prog.call c fun r => .ret (f r)) : Routine α) := by
  rintro w hw ⟨s, h⟩ hinv ⟨hrely, hh⟩ r ⟨s', h'⟩ ⟨-, ⟨o, ha⟩, hh'⟩
  obtain rfl : h = w.2 := hh
  obtain rfl : h' = ⟨c, r, s⟩ :: w.2 := hh'
  have hsame := same_of_quiet hc ha
  have howing := owing_of_quiet hc
  have hnext : A (s', ⟨c, r, s⟩ :: w.2) := hA.cons _ _ _ (sentBy_of_owing howing r s)
    (hA.rely _ _ _ (hrely.trans (hsame.rely p)) hw)
  refine ⟨hsame.inv hinv, ⟨fun q _ => hsame.rely q, duty_of_owing howing _ _ _⟩, ?_⟩
  show Prog.Safe _ (.ret (f r)) _ _
  cases hf : f r with
  | ok a => exact hnext
  | error e => exact hnext

theorem keeps_loop {a : α} {body : α → Routine (α ⊕ β)} (hA : Steady τ p A)
    (hbody : ∀ a, Keeps (E τ p) A (body a)) : Keeps (E τ p) A (loop a body) := by
  refine Keeps.bind (keeps_quiet hA rfl) fun n w hw => ?_
  refine Safe.loopFrom (I := fun _ => A) (fun w => ?_) (fun a w hw => ?_) n a w hw
  · intro w₁ _ _ r
    cases r
  · refine Safe.mono (hbody a w hw) (fun r w hr => ?_) fun _ _ h => h
    cases r with
    | inl a => exact hr
    | inr b => exact hr

theorem keeps_result (r : Except Exn α) : Keeps (E τ p) A (result r) := by
  cases r with
  | ok a => exact Keeps.pure a
  | error e => exact Keeps.throw e

/-- An event is in the log from the moment it is stored. -/
theorem safe_persist (hA : Steady τ p A) (hw : A w) (kind : EventKind) (payload : Payload) :
    Safe (E τ p) (ask (.persist kind payload)) (fun e w => e ∈ w.1.log ∧ A w)
      (fun _ => A) w := by
  refine safe_ask (c := .persist kind payload) fun o s s' e hinv hrely _ ha => ?_
  obtain ⟨hinv', he, hothers⟩ := hinv.persist (τ := τ) ha
  refine ⟨hinv', fun q _ => hothers q, duty_of_owing rfl _ _ _, he, ?_⟩
  exact hA.cons _ _ _ (sentBy_of_owing rfl e s) (hA.rely _ _ _ (hrely.trans (hothers p)) hw)

theorem safe_notify (hA : Steady τ p A) {e : Event} (hw : e ∈ w.1.log ∧ A w) :
    Safe (E τ p) (ask (.notify e)) (fun _ w => e ∈ w.1.log ∧ A w) (fun _ => A) w := by
  refine safe_ask (c := .notify e) fun o s s' r hinv hrely hK ha => ?_
  have he := hrely.log e hw.1
  obtain ⟨hinv', hothers⟩ := hinv.notify (τ := τ) he ha (by
    rintro rfl hlistener x hx
    have horder : (!s.listener || s.handing.all fun x => decide (e.seq ≤ x.seq)) = true := hK
    rw [hlistener, Bool.not_true, Bool.false_or, List.all_eq_true] at horder
    exact of_decide_eq_true (horder x hx))
  refine ⟨hinv', fun q _ => hothers q, duty_of_owing rfl _ _ _, (hothers p).log e he, ?_⟩
  exact hA.cons _ _ _ (sentBy_of_owing rfl r s)
    (hA.rely _ _ _ (hrely.trans (hothers p)) hw.2)

theorem safe_appendEvent (hA : Steady τ p A) (hw : A w) (kind : EventKind)
    (payload : Payload) : Safe (E τ p) (appendEvent kind payload)
      (fun e w => e ∈ w.1.log ∧ A w) (fun _ => A) w := by
  refine Safe.seq (safe_persist hA hw kind payload) fun e w₁ hw₁ => ?_
  exact Safe.seq (safe_notify hA hw₁) fun _ w₂ hw₂ => hw₂

theorem keeps_appendEvent (hA : Steady τ p A) (kind : EventKind) (payload : Payload) :
    Keeps (E τ p) A (appendEvent kind payload) := fun _ hw =>
  Safe.mono (safe_appendEvent hA hw kind payload) (fun _ _ h => h.2) fun _ _ h => h

theorem safe_publish (hA : Steady τ p A) {e : Event} (hw : e ∈ w.1.log ∧ A w) :
    Safe (E τ p) (ask (.publish e)) (fun _ => A) (fun _ => A) w := by
  refine safe_ask (c := .publish e) fun o s s' r hinv hrely hK ha => ?_
  obtain ⟨hinv', hothers⟩ := hinv.publish (τ := τ) (hrely.log e hw.1) ha (by
    rintro rfl x hx
    have horder : ((s.fanouts ++ s.callbacks ++ s.handing).all fun x =>
      decide (e.seq ≤ x.seq)) = true := hK
    exact of_decide_eq_true (List.all_eq_true.mp horder x hx))
  refine ⟨hinv', fun q _ => hothers q, duty_of_owing rfl _ _ _, ?_⟩
  exact hA.cons _ _ _ (sentBy_of_owing rfl r s)
    (hA.rely _ _ _ (hrely.trans (hothers p)) hw.2)

end Rules

section Programs

variable {α : Type} {A : State × Hist → Prop} (hA : Steady τ p A)
include hA

theorem keeps_acquire : Keeps (E τ p) A acquire :=
  keeps_raising hA (c := .acquire) (f := fun r => r) rfl

theorem keeps_awaitTask : Keeps (E τ p) A awaitTask :=
  keeps_raising hA (c := .awaitTask) (f := fun r => r) rfl

theorem keeps_acquireRun : Keeps (E τ p) A acquireRun :=
  keeps_raising hA (c := .acquireRun) (f := fun r => r) rfl

theorem keeps_sendFrame : Keeps (E τ p) A sendFrame :=
  keeps_raising hA (c := .sendFrame) (f := fun r => r) rfl

theorem keeps_abort (live : Bool) : Keeps (E τ p) A (abort live) := by
  unfold abort
  split
  next => exact keeps_raising hA (c := .backendCancel) (f := fun r => r) rfl
  next => exact Keeps.pure ()

theorem keeps_withControl {body : Routine α} (hbody : Keeps (E τ p) A body) :
    Keeps (E τ p) A (withControl body) := by
  refine Keeps.bind (keeps_acquire hA) fun _ => ?_
  refine Keeps.bind (Keeps.attempt hbody) fun r => ?_
  exact Keeps.bind (keeps_quiet hA rfl) fun _ => keeps_result r

theorem keeps_applyStatus (status : Sandbox.ConversationStatus) :
    Keeps (E τ p) A (applyStatus status) := by
  refine Keeps.bind (keeps_quiet hA rfl) fun _ => ?_
  exact Keeps.bind (keeps_appendEvent hA _ _) fun _ => Keeps.pure ()

theorem keeps_transition (op : Sandbox.Operation) : Keeps (E τ p) A (transition op) := by
  refine Keeps.bind (keeps_quiet hA rfl) fun look => ?_
  split
  next => exact Keeps.pure _
  next => exact Keeps.throw _

theorem keeps_becomeIdle (status : Sandbox.ConversationStatus) :
    Keeps (E τ p) A (becomeIdle status) := by
  unfold becomeIdle
  split
  next => exact Keeps.pure ()
  next => exact keeps_applyStatus hA .idle

theorem safe_sendMessage {w : State × Hist} (hw : A w) (text : String) :
    Safe (E τ p) (sendMessage text) (fun e w => e ∈ w.1.log ∧ A w) (fun _ => A) w := by
  have hlocked : ∀ w, A w → Safe (E τ p) (do
      let current ← transition .sendMessage
      becomeIdle current
      appendEvent .message [("role", "user"), ("text", text)])
      (fun e w => e ∈ w.1.log ∧ A w) (fun _ => A) w := by
    intro w hw
    refine Safe.seq (keeps_transition hA _ w hw) fun current w₁ hw₁ => ?_
    refine Safe.seq (keeps_becomeIdle hA current w₁ hw₁) fun _ w₂ hw₂ => ?_
    exact safe_appendEvent hA hw₂ _ _
  refine Safe.seq (keeps_acquire hA w hw) fun _ w₁ hw₁ => ?_
  let ended : Except Exn Event → State × Hist → Prop :=
    Co.Either (fun (e : Event) (w : State × Hist) => e ∈ w.1.log ∧ A w) fun _ => A
  have hbody : Safe (E τ p) (attempt _) ended (fun _ => A) w₁ :=
    Safe.attempt (hlocked w₁ hw₁)
  refine Safe.seq hbody fun r w₂ hw₂ => ?_
  have hboth : Steady τ p (ended r) := by
    cases r with
    | ok e =>
        exact ⟨fun s s' h hr hs => ⟨hr.log e hs.1, hA.rely s s' h hr hs.2⟩,
          fun s h x hx hs => ⟨hs.1, hA.cons s h x hx hs.2⟩⟩
    | error e => exact hA
  refine Safe.seq (Safe.mono (keeps_quiet hboth (c := .release) rfl w₂ hw₂) (fun _ _ h => h) ?_)
    fun _ w₃ hw₃ => ?_
  · intro e w h
    cases r with
    | ok e => exact h.2
    | error e => exact h
  · cases r with
    | ok e => exact hw₃
    | error e => exact hw₃

theorem keeps_sendMessage (text : String) : Keeps (E τ p) A (sendMessage text) :=
  fun _ hw => Safe.mono (safe_sendMessage hA hw text) (fun _ _ h => h.2) fun _ _ h => h

theorem keeps_sendMessageAndPublish (text : String) :
    Keeps (E τ p) A (sendMessageAndPublish text) := by
  intro w hw
  refine Safe.seq (safe_sendMessage hA hw text) fun e w₁ hw₁ => ?_
  exact Safe.seq (safe_publish hA hw₁) fun _ w₂ hw₂ => hw₂

theorem keeps_updateReceipt (receipt : MessageReceipt) (status : DeliveryStatus)
    (detail : Option String) : Keeps (E τ p) A (updateReceipt receipt status detail) :=
  Keeps.bind (keeps_quiet hA rfl) fun _ => Keeps.pure _

theorem keeps_steered (receipt : MessageReceipt) (r : Except Exn (Bool × Option String)) :
    Keeps (E τ p) A (steered receipt r) := by
  unfold steered
  split
  next => exact keeps_updateReceipt hA _ _ _
  next => exact keeps_updateReceipt hA _ _ _
  next => exact keeps_updateReceipt hA _ _ _
  next => exact Keeps.throw _

theorem keeps_steer (id text : String) : Keeps (E τ p) A (steer id text) := by
  refine keeps_withControl hA (Keeps.bind (keeps_quiet hA rfl) fun known => ?_)
  split
  next =>
    unfold Stream.known
    split
    next => exact Keeps.throw _
    next => exact Keeps.pure _
  next =>
    refine Keeps.bind (keeps_quiet hA rfl) fun current => ?_
    split
    next => exact Keeps.throw _
    next =>
      split
      next => exact Keeps.throw _
      next =>
        refine Keeps.bind (keeps_quiet hA rfl) fun _ => ?_
        refine Keeps.bind (keeps_appendEvent hA _ _) fun _ => ?_
        exact Keeps.bind (keeps_quiet hA rfl) fun r => keeps_steered hA _ r

theorem keeps_cancel : Keeps (E τ p) A cancel := by
  refine Keeps.bind (Keeps.bind (keeps_withControl hA ?_) fun live => keeps_abort hA live)
    fun _ => keeps_awaitTask hA
  · refine Keeps.bind (keeps_quiet hA rfl) fun current => ?_
    split
    next => exact Keeps.pure _
    next =>
      split
      next => exact Keeps.throw _
      next =>
        split
        next => exact Keeps.throw _
        next => exact Keeps.bind (keeps_quiet hA rfl) fun _ => Keeps.pure _

theorem keeps_beginTurn : Keeps (E τ p) A beginTurn := by
  refine Keeps.bind (keeps_quiet hA rfl) fun current => ?_
  split
  next => exact Keeps.throw _
  next =>
    refine Keeps.bind (keeps_transition hA _) fun _ => ?_
    exact Keeps.bind (keeps_applyStatus hA _) fun _ => keeps_quiet hA rfl

theorem keeps_moveTo (op : Sandbox.Operation) (status : Sandbox.ConversationStatus) :
    Keeps (E τ p) A (moveTo op status) :=
  keeps_withControl hA (Keeps.bind (keeps_transition hA op) fun _ => keeps_applyStatus hA status)

theorem keeps_beginSettling : Keeps (E τ p) A beginSettling :=
  keeps_withControl hA (keeps_quiet hA rfl)

theorem keeps_settling {body : Routine Unit} (hbody : Keeps (E τ p) A body) :
    Keeps (E τ p) A (settling body) :=
  Keeps.bind (Keeps.attempt hbody) fun r =>
    Keeps.bind (keeps_beginSettling hA) fun _ => keeps_result r

theorem keeps_agentRun : Keeps (E τ p) A agentRun := by
  refine keeps_loop hA fun _ => Keeps.bind (keeps_quiet hA rfl) fun how => ?_
  split
  next => exact Keeps.bind (keeps_appendEvent hA _ _) fun _ => Keeps.pure _
  next => exact Keeps.bind (keeps_beginSettling hA) fun _ => Keeps.pure _
  next => exact Keeps.pure _

theorem keeps_endTurn (how : Backend) : Keeps (E τ p) A (endTurn how) := by
  unfold endTurn
  split
  next => exact keeps_settling hA (keeps_moveTo hA _ _)
  next =>
    refine keeps_settling hA (Keeps.bind (keeps_appendEvent hA _ _) fun _ => ?_)
    exact Keeps.bind (keeps_moveTo hA _ _) fun _ => Keeps.throw _
  next => exact keeps_settling hA (Keeps.throw _)
  next => exact Keeps.bind (keeps_settling hA (Keeps.pure ())) fun _ => keeps_moveTo hA _ _

theorem keeps_worker : Keeps (E τ p) A worker := by
  refine Keeps.bind (Keeps.attempt ?_) fun r => keeps_quiet hA rfl
  refine Keeps.bind (keeps_withControl hA (keeps_beginTurn hA)) fun _ => ?_
  exact Keeps.bind (keeps_agentRun hA) fun how => keeps_endTurn hA how

theorem keeps_run : Keeps (E τ p) A run := by
  refine Keeps.bind (keeps_acquireRun hA) fun _ => ?_
  refine Keeps.bind (keeps_quiet hA rfl) fun inFlight => Keeps.bind ?_ fun _ => ?_
  · unfold startRun
    split
    next => exact Keeps.bind (keeps_quiet hA rfl) fun _ => Keeps.throw _
    next =>
      refine Keeps.bind (keeps_quiet hA rfl) fun _ => ?_
      exact Keeps.bind (keeps_quiet hA rfl) fun _ => keeps_quiet hA rfl
  · refine Keeps.bind (Keeps.attempt (keeps_awaitTask hA)) fun r => ?_
    exact Keeps.bind (keeps_quiet hA rfl) fun _ => keeps_result r

theorem keeps_reply (r : Except Exn α) : Keeps (E τ p) A (reply r) := by
  unfold reply
  split
  next => exact keeps_sendFrame hA
  next =>
    split
    next => exact keeps_sendFrame hA
    next => exact Keeps.throw _

theorem keeps_handleMessage (frame : Frame) : Keeps (E τ p) A (handleMessage frame) := by
  unfold handleMessage
  split
  next => exact Keeps.bind (Keeps.attempt (keeps_steer hA _ _)) fun r => keeps_reply hA r
  next => exact Keeps.bind (Keeps.attempt (keeps_cancel hA)) fun r => keeps_reply hA r
  next => exact Keeps.bind (keeps_sendMessageAndPublish hA _) fun _ => Keeps.pure ()
  next => exact Keeps.throw _

theorem keeps_handleIncoming (incoming : Option (Except Exn Frame)) :
    Keeps (E τ p) A (handleIncoming incoming) := by
  unfold handleIncoming
  split
  next => exact Keeps.pure ()
  next => exact Keeps.throw _
  next => exact keeps_handleMessage hA _

end Programs

/-! ### The socket -/

section Serving

variable {w : State × Hist} {after : Nat}

theorem frames_cons (x : Entry Call.Out State) (h : Hist) :
    frames (x :: h) = frames h ++ (sentBy x).toList := by
  unfold frames
  rw [List.reverse_cons, List.filterMap_append]
  cases hx : sentBy x with
  | none => rw [List.filterMap_cons_none hx]; rfl
  | some e => rw [List.filterMap_cons_some hx]; rfl

theorem lastSent_quiet {x : Entry Call.Out State} (hx : sentBy x = none) (h : Hist) :
    lastSent after (x :: h) = lastSent after h := by
  unfold lastSent
  rw [frames_cons, hx]
  exact congrArg (fun l => ((List.getLast? l).map Event.seq).getD after) (List.append_nil _)

theorem lastSent_sent (e : Event) (s : State) (h : Hist) :
    lastSent after (⟨.send e, .ok (), s⟩ :: h) = e.seq := by
  unfold lastSent
  rw [frames_cons]
  show ((frames h ++ [e]).getLast?.map Event.seq).getD after = e.seq
  rw [List.getLast?_concat]
  rfl

/-- The coroutine has sent everything up to `m`, and its subscription goes on from there. -/
structure Serving (τ : Bool) (p : Pid) (k after m : Nat) (w : State × Hist) : Prop where
  mine : Mine p k w.1
  sent : lastSent after w.2 = m
  ahead : τ = true → Open m k w.1

theorem steady_serving : Steady τ p (Serving τ p k after m) where
  rely _ _ _ hr hs :=
    ⟨(hr.mine k hs.mine).1, hs.sent, fun ht => (((hr.mine k hs.mine).2 ht m).1 (hs.ahead ht))⟩
  cons _ h _ hx hs := ⟨hs.mine, (lastSent_quiet hx h).trans hs.sent, hs.ahead⟩

/-- The rule for a frame. -/
theorem safe_sendEvent {n : Nat} {Q : State × Hist → Prop}
    {exn : Exn → State × Hist → Prop} {e : Event}
    (hQ : ∀ s, Inv s → Rely τ (.socket n after) w.1 s →
      e ∈ s.log ∧ lastSent after w.2 < e.seq ∧
        (τ = true → e.seq = lastSent after w.2 + 1) ∧
        Q (s, ⟨.send e, .ok (), s⟩ :: w.2) ∧ ∀ x, exn x (s, ⟨.send e, .error x, s⟩ :: w.2)) :
    Safe (E τ (.socket n after)) (sendEvent e) (fun _ => Q) exn w := by
  rintro ⟨s, h⟩ hinv ⟨hrely, hh⟩ r ⟨s', h'⟩ ⟨-, ⟨o, ha⟩, hh'⟩
  obtain rfl : h = w.2 := hh
  obtain rfl : h' = ⟨.send e, r, s⟩ :: w.2 := hh'
  obtain rfl : s' = s := (Prod.mk.inj (Option.some.inj ha)).2.symm
  obtain ⟨hlog, hlt, hnext, hok, herror⟩ := hQ s' hinv hrely
  have hduty : (duty τ).call (.socket n after) w.2 (.send e) s' r = true := by
    show (decide (lastSent after w.2 < e.seq) &&
      (!τ || decide (e.seq = lastSent after w.2 + 1)) && decide (e ∈ s'.log)) = true
    rw [decide_eq_true hlt, decide_eq_true hlog, Bool.true_and, Bool.and_true]
    cases htight : τ with
    | false => rfl
    | true => exact decide_eq_true (hnext htight)
  refine ⟨hinv, ⟨fun q _ => .refl q s', hduty⟩, ?_⟩
  show Prog.Safe _ (.ret r) _ _
  cases r with
  | ok u => exact hok
  | error x => exact herror x

theorem safe_close {n code : Nat} {reason : String} {Q : State × Hist → Prop}
    {exn : Exn → State × Hist → Prop}
    (hreason : reason = "" ∨ reason = "resume_after=" ++ toString (lastSent after w.2))
    (hQ : ∀ s, Rely τ (.socket n after) w.1 s → Q (s, ⟨.close code reason, (), s⟩ :: w.2)) :
    Safe (E τ (.socket n after)) (ask (.close code reason)) (fun _ => Q) exn w := by
  refine safe_ask (c := .close code reason) fun o s s' r hinv hrely _ ha => ?_
  obtain ⟨-, rfl⟩ := Prod.mk.inj (Option.some.inj ha)
  refine ⟨hinv, fun q _ => .refl q s, ?_, hQ s hrely⟩
  show (decide (reason = "") ||
    decide (reason = "resume_after=" ++ toString (lastSent after w.2))) =
    true
  rcases hreason with hempty | hresume
  · rw [decide_eq_true hempty, Bool.true_or]
  · rw [decide_eq_true hresume, Bool.or_true]

/-- What is left of a replay that is to end at the number `last`. -/
structure Replaying (τ : Bool) (p : Pid) (k after m last : Nat) (left : List Event)
    (w : State × Hist) : Prop where
  mine : Mine p k w.1
  sent : lastSent after w.2 = m
  stored : ∀ e ∈ left, e ∈ w.1.log
  range : ∃ j, left.map Event.seq = List.range' j left.length ∧ j ≤ m + 1 ∧
    last + 1 = j + left.length
  ahead : τ = true → ∀ n, last ≤ n → Open n k w.1

theorem Replaying.rely {last : Nat} {left : List Event} {s : State}
    (h : Replaying τ p k after m last left w) (hr : Rely τ p w.1 s) :
    Replaying τ p k after m last left (s, w.2) where
  mine := (hr.mine k h.mine).1
  sent := h.sent
  stored e he := hr.log e (h.stored e he)
  range := h.range
  ahead ht n hn := ((hr.mine k h.mine).2 ht n).1 (h.ahead ht n hn)

theorem safe_replay {n last : Nat} {left : List Event}
    (hw : Replaying τ (.socket n after) k after m last left w) :
    Safe (E τ (.socket n after)) (replay left m)
      (fun m w => Serving τ (.socket n after) k after m w)
      (fun _ w => Mine (.socket n after) k w.1) w := by
  induction left generalizing m w with
  | nil =>
      obtain ⟨j, -, hj, hlast⟩ := hw.range
      refine ⟨hw.mine, hw.sent, fun ht => hw.ahead ht m ?_⟩
      rw [List.length_nil] at hlast
      omega
  | cons e left ih =>
      obtain ⟨j, hrange, hj, hlast⟩ := hw.range
      rw [List.map_cons, List.length_cons, List.range'_succ, List.cons.injEq] at hrange
      rw [List.length_cons] at hlast
      unfold replay
      split
      next hle =>
        refine ih ⟨hw.mine, hw.sent, fun x hx => hw.stored x (List.mem_cons_of_mem _ hx), ?_,
          hw.ahead⟩
        exact ⟨j + 1, hrange.2, by omega, by omega⟩
      next hlt =>
        refine Safe.seq (Q := fun _ => Replaying τ (.socket n after) k after e.seq last left)
          (safe_sendEvent fun s hinv hr => ?_) fun _ w₁ hw₁ => ih hw₁
        have hw' := hw.rely hr
        have hsent := hw.sent
        refine ⟨hw'.stored e List.mem_cons_self, by omega, fun _ => by omega, ?_, fun x => hw'.mine⟩
        refine ⟨hw'.mine, lastSent_sent e s w.2,
          fun x hx => hw'.stored x (List.mem_cons_of_mem _ hx),
          ⟨j + 1, hrange.2, by omega, by omega⟩, hw'.ahead⟩

/-- After a round. -/
def Served (τ : Bool) (p : Pid) (k after : Nat) : Nat ⊕ Unit → State × Hist → Prop
  | .inl m, w => Serving τ p k after m w
  | .inr _, w => Mine p k w.1

theorem safe_served {n : Nat} {flag : Bool} {round : Round}
    (hsent : lastSent after w.2 = m)
    (hw : Taken τ (.socket n after) k m flag round w.1) :
    Safe (E τ (.socket n after)) (served m round) (Served τ (.socket n after) k after)
      (fun _ w => Mine (.socket n after) k w.1) w := by
  unfold served
  split
  next =>
    refine Safe.seq (Q := fun _ (w : State × Hist) => Mine (.socket n after) k w.1)
      (safe_close (.inr (by rw [hsent])) fun s hr => (hr.mine k hw.mine).1) fun _ w₁ hw₁ => hw₁
  next hoverflow =>
    have hflag : flag = false := by
      cases hflag : flag with
      | false => rfl
      | true => exact absurd (hw.flagged hflag) hoverflow
    have hforward : Safe (E τ (.socket n after)) (forward m round.event)
        (fun m w => Serving τ (.socket n after) k after m w)
        (fun _ w => Mine (.socket n after) k w.1) w := by
      unfold forward
      split
      next hevent => exact ⟨hw.mine, hsent, fun ht => hw.none ht hflag hevent⟩
      next e hevent =>
        split
        next hlt =>
          refine Safe.seq (Q := fun _ => Serving τ (.socket n after) k after e.seq)
            (safe_sendEvent fun s hinv hr => ?_) fun _ w₁ hw₁ => hw₁
          have hmine := hr.mine k hw.mine
          refine ⟨hr.log e (hw.known e hevent), by omega, fun ht => ?_, ?_, fun x => hmine.1⟩
          · have hle := (hw.next ht hflag e hevent).1
            omega
          · refine ⟨hmine.1, lastSent_sent e s w.2, fun ht => ?_⟩
            have hopen := (hw.next ht hflag e hevent).2
            rw [Nat.max_eq_right (Nat.le_of_lt hlt)] at hopen
            exact (hmine.2 ht e.seq).1 hopen
        next hle =>
          refine ⟨hw.mine, hsent, fun ht => ?_⟩
          have hopen := (hw.next ht hflag e hevent).2
          rw [Nat.max_eq_left (Nat.le_of_not_lt hle)] at hopen
          exact hopen
    refine Safe.seq hforward fun m' w₁ hw₁ => ?_
    refine Safe.seq (Safe.mono (keeps_handleIncoming steady_serving round.incoming w₁ hw₁)
      (fun _ _ h => h) fun _ _ h => h.mine) fun _ w₂ hw₂ => hw₂

theorem safe_serveConnection {n : Nat} (hw : Serving τ (.socket n after) k after m w) :
    Safe (E τ (.socket n after)) (serveConnection k m)
      (fun _ w => Mine (.socket n after) k w.1) (fun _ w => Mine (.socket n after) k w.1) w := by
  refine Safe.seq (Q := fun _ => Serving τ (.socket n after) k after m)
    (Safe.mono (keeps_quiet steady_serving (c := .rounds) rfl w hw) (fun _ _ h => h)
      fun _ _ h => h.mine) fun rounds w₁ hw₁ => ?_
  refine Safe.loopFrom (I := fun m => Serving τ (.socket n after) k after m)
    (fun w => ?_) (fun m w hw => ?_) rounds m w₁ hw₁
  · intro w₁ _ _ r
    cases r
  · have hbegin : Safe (E τ (.socket n after)) (ask (.beginRound k))
        (fun flag w => lastSent after w.2 = m ∧ Mine (.socket n after) k w.1 ∧
          (τ = true → flag = false → Mid m k w.1))
        (fun _ w => Mine (.socket n after) k w.1) w := by
      refine safe_ask (c := .beginRound k) fun o s s' flag hinv hrely _ ha => ?_
      obtain ⟨rfl, rfl⟩ := Prod.mk.inj (Option.some.inj ha)
      have hs := steady_serving.rely _ _ w.2 hrely hw
      refine ⟨hinv, fun q _ => .refl q s, rfl, ?_, hs.mine, fun ht hflag => ?_⟩
      · exact (lastSent_quiet rfl w.2).trans hs.sent
      · exact .inl (hs.ahead ht hflag)
    refine Safe.seq hbegin fun flag w₁ hw₁ => ?_
    obtain ⟨hsent, hmine, hmid⟩ := hw₁
    have hend : Safe (E τ (.socket n after)) (ask (.endRound k flag))
        (fun round w => lastSent after w.2 = m ∧ Taken τ (.socket n after) k m flag round w.1)
        (fun _ w => Mine (.socket n after) k w.1) w₁ := by
      refine safe_ask (c := .endRound k flag) fun o s s' round hinv hrely _ ha => ?_
      have hmine' := hrely.mine k hmine
      obtain ⟨hinv', hguar, htaken⟩ := hinv.endRound (τ := τ) (m := m) hmine'.1
        (fun ht hflag => (hmine'.2 ht m).2 (hmid ht hflag)) ha
      exact ⟨hinv', hguar, rfl, (lastSent_quiet rfl w₁.2).trans hsent, htaken⟩
    refine Safe.seq hend fun round w₂ hw₂ => ?_
    refine Safe.mono (safe_served hw₂.1 hw₂.2) (fun r w₃ hw₃ => ?_) fun _ _ h => h
    cases r with
    | inl m => exact hw₃
    | inr u => exact hw₃

theorem safe_unsubscribe {n : Nat} {exn : Exn → State × Hist → Prop}
    (hw : Mine (.socket n after) k w.1) :
    Safe (E τ (.socket n after)) (ask (.unsubscribe k)) (fun _ _ => True) exn w := by
  refine safe_ask (c := .unsubscribe k) fun o s s' r hinv hrely _ ha => ?_
  obtain ⟨-, rfl⟩ := Prod.mk.inj (Option.some.inj ha)
  obtain ⟨hinv', hguar⟩ := hinv.modify (τ := τ) ((hrely.mine k hw).1)
    (f := fun x => { x with subscribed := false }) fun x e he => he
  exact ⟨hinv', hguar, rfl, trivial⟩

/-- After `subscribe`. -/
def Subscribed (τ : Bool) (p : Pid) (after : Nat) :
    Option (Nat × List Event) → State × Hist → Prop
  | none, _ => True
  | some (k, snapshot), w => Replaying τ p k after after snapshot.length snapshot w

theorem safe_listen {n : Nat} (hw : lastSent after w.2 = after) :
    Safe (E τ (.socket n after)) (listen after) (fun _ _ => True) (fun _ _ => True) w := by
  have hsubscribe : Safe (E τ (.socket n after)) (ask .subscribe)
      (Subscribed τ (.socket n after) after) (fun _ _ => True) w := by
    refine safe_ask (c := .subscribe) fun o s s' r hinv hrely _ ha => ?_
    obtain ⟨hinv', hothers, hmade⟩ := hinv.subscribe (τ := τ) ha
    refine ⟨hinv', fun q _ => hothers q, rfl, ?_⟩
    cases r with
    | none => trivial
    | some x =>
        obtain ⟨k, snapshot⟩ := x
        obtain ⟨rfl, hlog, hmine, hahead⟩ := hmade k snapshot rfl
        refine ⟨hmine, (lastSent_quiet rfl w.2).trans hw, fun e he => ?_, ?_, fun _ m hm _ => ?_⟩
        · rw [hlog]
          exact he
        · exact ⟨1, hinv.numbered, by omega, by omega⟩
        · exact hahead m hm
  refine Safe.seq hsubscribe fun r w₁ hw₁ => ?_
  cases r with
  | none => exact safe_close (.inl rfl) fun _ _ => trivial
  | some x =>
      obtain ⟨k, snapshot⟩ := x
      have hconnected : Safe (E τ (.socket n after)) (attempt (connected k after snapshot))
          (fun _ w => Mine (.socket n after) k w.1) (fun _ _ => True) w₁ := by
        refine Safe.attempt_either (Safe.seq (safe_replay hw₁) fun m w₂ hw₂ => ?_)
        exact safe_serveConnection hw₂
      refine Safe.seq hconnected fun r w₂ hw₂ => ?_
      refine Safe.seq (safe_unsubscribe hw₂) fun _ w₃ _ => ?_
      split
      next => trivial
      next =>
        unfold result
        split
        next => trivial
        next => trivial

theorem safe_streamEvents (n : Nat) (s : State) :
    Safe (E τ (.socket n after)) (streamEvents after) (fun _ _ => True) (fun _ _ => True)
      (s, []) := by
  have hadmission : Safe (E τ (.socket n after)) (ask .admission)
      (fun _ w => lastSent after w.2 = after) (fun _ _ => True) (s, []) := by
    refine safe_ask (c := .admission) fun o s₁ s₂ r hinv _ _ ha => ?_
    have hsame := same_of_quiet (c := .admission) rfl ha
    exact ⟨hsame.inv hinv, fun q _ => hsame.rely q, rfl, rfl⟩
  refine Safe.seq hadmission fun r w hw => ?_
  cases r with
  | unavailable => exact safe_close (.inl rfl) fun _ _ => trivial
  | unauthenticated => exact safe_close (.inl rfl) fun _ _ => trivial
  | notFound => exact safe_close (.inl rfl) fun _ _ => trivial
  | admitted => exact safe_listen hw

end Serving

/-! ### Every run -/

theorem steady_true : Steady τ p fun _ => True := ⟨fun _ _ _ _ h => h, fun _ _ _ _ h => h⟩

theorem keeps_forget {α : Type} {A : State × Hist → Prop} {r : Routine α}
    (hr : Keeps (E τ p) A r) : Keeps (E τ p) A r.forget :=
  Keeps.bind hr fun _ => Keeps.pure ()

theorem safe_program {j : Job} {prog : Prog Call.Out (Except Exn Unit)}
    (hj : j.program p s = some (prog, s')) :
    Same s s' ∧ prog.Safe (E τ p) (fun _ _ => True) (s', []) := by
  have hroutine : ∀ {r : Routine Unit}, Keeps (E τ p) (fun _ => True) r →
      r.run.Safe (E τ p) (fun _ _ => True) (s', []) := fun hr =>
    Prog.Safe.mono (hr (s', []) trivial) fun _ _ _ => trivial
  have hA : Steady τ p fun _ => True := steady_true
  unfold Job.program at hj
  split at hj
  next =>
    obtain ⟨rfl, rfl⟩ := Prod.mk.inj (Option.some.inj hj)
    exact ⟨⟨⟨rfl, rfl, rfl, rfl, rfl⟩, rfl⟩, hroutine (keeps_forget (keeps_sendMessage hA _))⟩
  next =>
    obtain ⟨rfl, rfl⟩ := Prod.mk.inj (Option.some.inj hj)
    exact ⟨⟨⟨rfl, rfl, rfl, rfl, rfl⟩, rfl⟩,
      hroutine (keeps_forget (keeps_sendMessageAndPublish hA _))⟩
  next =>
    obtain ⟨rfl, rfl⟩ := Prod.mk.inj (Option.some.inj hj)
    exact ⟨⟨⟨rfl, rfl, rfl, rfl, rfl⟩, rfl⟩, hroutine (keeps_forget (keeps_steer hA _ _))⟩
  next =>
    obtain ⟨rfl, rfl⟩ := Prod.mk.inj (Option.some.inj hj)
    exact ⟨⟨⟨rfl, rfl, rfl, rfl, rfl⟩, rfl⟩, hroutine (keeps_cancel hA)⟩
  next =>
    obtain ⟨rfl, rfl⟩ := Prod.mk.inj (Option.some.inj hj)
    exact ⟨⟨⟨rfl, rfl, rfl, rfl, rfl⟩, rfl⟩, hroutine (keeps_run hA)⟩
  next =>
    split at hj
    next =>
      obtain ⟨rfl, rfl⟩ := Prod.mk.inj (Option.some.inj hj)
      exact ⟨⟨⟨rfl, rfl, rfl, rfl, rfl⟩, rfl⟩, hroutine (keeps_worker hA)⟩
    next => cases hj
  next n after =>
    obtain ⟨rfl, rfl⟩ := Prod.mk.inj (Option.some.inj hj)
    refine ⟨⟨⟨rfl, rfl, rfl, rfl, rfl⟩, rfl⟩, ?_⟩
    exact Prog.Safe.mono (safe_streamEvents n s) fun _ _ _ => trivial
  next => cases hj

theorem sound_server (τ : Bool) :
    Machine.Sound (M := server) (watched τ) Inv (Rely τ) (Guar τ)
      (fun _ _ _ => True) (duty τ) where
  rely_trans _ _ _ _ h h' := h.trans h'
  guar_rely _ q _ _ hne h := h q hne
  job p j s prog s' hinv hj := by
    obtain ⟨hsame, hsafe⟩ := safe_program (τ := τ) (j := j) hj
    exact ⟨hsame.inv hinv, fun q _ => hsame.rely q, hsafe⟩
  event e s s' hinv _ h := by
    have hboth : Inv s' ∧ ∀ q, Rely τ q s s' := by
      cases e with
      | callback => exact hinv.callback h
      | fanOut => exact hinv.fanOut h
      | deliver => exact hinv.deliver h
    exact ⟨hboth.1, fun _ => hboth.2⟩

theorem inv_opened (events : List (EventKind × Payload)) (status : Sandbox.ConversationStatus)
    (controllable : Bool) : Inv (.opened events status controllable) where
  numbered := by
    unfold State.opened
    dsimp only
    rw [List.length_map, List.length_zipIdx, List.map_map]
    apply List.ext_getElem
    · rw [List.length_map, List.length_zipIdx, List.length_range']
    · intro i h h'
      rw [List.getElem_map, List.getElem_zipIdx, List.getElem_range']
      simp only [Function.comp]
      omega
  moving _ he := by cases he
  delivered _ hd := by cases hd
  queued k e he := by cases he

theorem ok_opened (τ : Bool) (events : List (EventKind × Payload))
    (status : Sandbox.ConversationStatus) (controllable : Bool) :
    Machine.Ok (M := server) (watched τ) Inv (Rely τ) (Guar τ) (fun _ _ _ => True)
      (System.opened events status controllable) (duty τ) :=
  ⟨inv_opened events status controllable, fun _ _ _ _ h => by cases h⟩

/-- What a client sees of a socket that it asked for with the number `after`. -/
structure Orderly (after : Nat) (h : Hist) : Prop where
  increasing : ((frames h).map Event.seq).Pairwise (· < ·)
  later : ∀ e ∈ frames h, after < e.seq ∧ e.seq ≤ lastSent after h
  /-- A frame was in the log when it was sent. -/
  stored : ∀ x ∈ h, ∀ e, sentBy x = some e → e ∈ x.found.log
  /-- A close that asks the client to come back names the last frame before it. -/
  resume : ∀ newer code reason r s older, h = newer ++ ⟨.close code reason, r, s⟩ :: older →
    reason = "" ∨ reason = "resume_after=" ++ toString (lastSent after older)

theorem sentBy_eq_some {x : Entry Call.Out State} {e : Event} (hx : sentBy x = some e) :
    ∃ s, x = ⟨.send e, .ok (), s⟩ := by
  unfold sentBy at hx
  split at hx
  next e' u s =>
    obtain rfl := Option.some.inj hx
    exact ⟨s, rfl⟩
  next => cases hx

theorem duty_send {number after : Nat} {h : Hist} {e : Event} {s : State} {r : Except Exn Unit}
    (hd : (duty τ).call (.socket number after) h (.send e) s r = true) :
    lastSent after h < e.seq ∧ (τ = true → e.seq = lastSent after h + 1) ∧ e ∈ s.log := by
  have hall : (decide (lastSent after h < e.seq) &&
      (!τ || decide (e.seq = lastSent after h + 1)) && decide (e ∈ s.log)) = true := hd
  rw [Bool.and_eq_true, Bool.and_eq_true, decide_eq_true_eq, decide_eq_true_eq] at hall
  refine ⟨hall.1.1, fun ht => ?_, hall.2⟩
  have hnext := hall.1.2
  rw [ht, Bool.not_true, Bool.false_or, decide_eq_true_eq] at hnext
  exact hnext

theorem orderly_of_along {number after : Nat} {h : Hist}
    (hd : (duty τ).along (.socket number after) h = true) : Orderly after h := by
  induction h with
  | nil =>
      refine ⟨List.Pairwise.nil, fun _ he => (by cases he), fun _ hx => (by cases hx), ?_⟩
      intro newer code reason r s older hsplit
      cases newer <;> cases hsplit
  | cons x h ih =>
      obtain ⟨hx, hrest⟩ := Bool.and_eq_true_iff.mp hd
      have hold := ih hrest
      have hresume : ∀ newer code reason r s older,
          x :: h = newer ++ ⟨.close code reason, r, s⟩ :: older →
          reason = "" ∨ reason = "resume_after=" ++ toString (lastSent after older) := by
        intro newer code reason r s older hsplit
        cases newer with
        | nil =>
            obtain ⟨rfl, rfl⟩ := List.cons.inj hsplit
            have hclose : (decide (reason = "") ||
              decide (reason = "resume_after=" ++ toString (lastSent after h))) = true := hx
            rw [Bool.or_eq_true, decide_eq_true_eq, decide_eq_true_eq] at hclose
            exact hclose
        | cons y newer =>
            obtain ⟨-, hsplit⟩ := List.cons.inj hsplit
            exact hold.resume newer code reason r s older hsplit
      cases hsent : sentBy x with
      | none =>
          have hframes : frames (x :: h) = frames h := by
            rw [frames_cons, hsent]
            exact List.append_nil _
          refine ⟨by rw [hframes]; exact hold.increasing, fun e he => ?_, fun y hy e he => ?_,
            hresume⟩
          · rw [lastSent_quiet hsent]
            rw [hframes] at he
            exact hold.later e he
          · rcases List.mem_cons.mp hy with rfl | hy
            · rw [hsent] at he
              cases he
            · exact hold.stored y hy e he
      | some e =>
          obtain ⟨s, rfl⟩ := sentBy_eq_some hsent
          obtain ⟨hlt, -, hlog⟩ := duty_send hx
          have hframes : frames (⟨.send e, .ok (), s⟩ :: h) = frames h ++ [e] := frames_cons _ h
          have hafter : after ≤ lastSent after h := by
            unfold lastSent
            cases hlast : (frames h).getLast? with
            | none => exact Nat.le_refl _
            | some e' => exact Nat.le_of_lt (hold.later e' (List.mem_of_getLast? hlast)).1
          refine ⟨?_, fun e' he' => ?_, fun y hy e' he' => ?_, hresume⟩
          · rw [hframes, List.map_append, List.pairwise_append]
            refine ⟨hold.increasing, List.pairwise_singleton _ _, fun a ha b hb => ?_⟩
            obtain ⟨e', he', rfl⟩ := List.mem_map.mp ha
            obtain rfl := List.mem_singleton.mp hb
            exact Nat.lt_of_le_of_lt (hold.later e' he').2 hlt
          · rw [lastSent_sent]
            rw [hframes] at he'
            rcases List.mem_append.mp he' with he' | he'
            · have hle := hold.later e' he'
              omega
            · obtain rfl := List.mem_singleton.mp he'
              omega
          · rcases List.mem_cons.mp hy with rfl | hy
            · obtain rfl := Option.some.inj he'
              exact hlog
            · exact hold.stored y hy e' he'

theorem gapless_of_along {number after : Nat} {h : Hist}
    (hd : (duty true).along (.socket number after) h = true) :
    (frames h).map Event.seq = List.range' (after + 1) (frames h).length ∧
      lastSent after h = after + (frames h).length := by
  induction h with
  | nil => exact ⟨rfl, rfl⟩
  | cons x h ih =>
      obtain ⟨hx, hrest⟩ := Bool.and_eq_true_iff.mp hd
      obtain ⟨hframes, hlast⟩ := ih hrest
      cases hsent : sentBy x with
      | none =>
          have hsame : frames (x :: h) = frames h := by
            rw [frames_cons, hsent]
            exact List.append_nil _
          rw [lastSent_quiet hsent, hsame]
          exact ⟨hframes, hlast⟩
      | some e =>
          obtain ⟨s, rfl⟩ := sentBy_eq_some hsent
          obtain ⟨-, hnext, -⟩ := duty_send hx
          have hsame : frames (⟨.send e, .ok (), s⟩ :: h) = frames h ++ [e] := frames_cons _ h
          have heq : e.seq = after + (frames h).length + 1 := by
            rw [hnext rfl, hlast]
          rw [lastSent_sent, hsame, List.length_append, List.length_singleton]
          refine ⟨?_, by omega⟩
          rw [List.map_append, hframes, List.map_singleton, heq, List.range'_1_concat]
          congr 2
          omega

section Runs

variable {events : List (EventKind × Payload)} {status : Sandbox.ConversationStatus}
  {controllable : Bool} {as : List server.Act} {w : System}

theorem along_opened (hr : server.run (System.opened events status controllable) as = some w)
    (hK : Machine.keeps (watched τ) (System.opened events status controllable) as = true)
    {prog : Prog Call.Out (Except Exn Unit)} {h : Hist} (hth : w.threads p = some ⟨prog, h⟩) :
    (duty τ).along p h = true := by
  have hduty := (sound_server τ).keeps_duty (fun p s => .refl p s) (fun _ _ => rfl)
    (ok_opened τ events status controllable) hK
  exact Machine.keeps_along (fun _ _ _ hp => by cases hp) hduty hr p prog h hth

/-- **In every run a socket is orderly.** Whatever the agent, the messages and the other
sockets do, and in whatever order events arrive: no frame twice, none out of order, none that
was not stored, and the way back after an overflow is from the last frame. -/
theorem socket_orderly
    (hr : server.run (System.opened events status controllable) as = some w)
    {number after : Nat} {prog : Prog Call.Out (Except Exn Unit)} {h : Hist}
    (hth : w.threads (.socket number after) = some ⟨prog, h⟩) : Orderly after h :=
  orderly_of_along (along_opened (τ := false) hr (Machine.keeps_trivial _ _) hth)

/-- **A run in which events are handed over in order leaves no frame out.** -/
theorem socket_gapless
    (hr : server.run (System.opened events status controllable) as = some w)
    (hK : Machine.keeps inOrder (System.opened events status controllable) as = true)
    {number after : Nat} {prog : Prog Call.Out (Except Exn Unit)} {h : Hist}
    (hth : w.threads (.socket number after) = some ⟨prog, h⟩) :
    (frames h).map Event.seq = List.range' (after + 1) (frames h).length :=
  (gapless_of_along (along_opened (τ := true) hr hK hth)).1

/-- A socket, and a message that is sent while it is open. -/
def messaged : List server.Act :=
  let calm : Oracle :=
    { cancel := false, disconnected := false, backend := .settled, steered := .ok (true, none),
      aborted := .ok (), admission := .admitted, takes := true, notices := false,
      incoming := none, rounds := 2 }
  let socket : Pid := .socket 0 0
  let sender : Pid := .routine 1
  [.start socket .stream, .call socket calm, .call socket calm, .call socket calm,
   .call socket calm, .start sender (.sendMessageAndPublish "hello"), .call sender calm,
   .call sender calm, .call sender calm, .call sender calm, .call sender calm,
   .call sender calm, .event .deliver, .call socket calm, .call socket calm]

theorem messaged_frames : ((server.run (System.opened [] .idle true) messaged).any fun w =>
    (w.threads (.socket 0 0)).any fun th =>
      decide ((frames th.hist).map Event.seq = [1])) = true := by
  decide +kernel

theorem socket_orderly_messaged : ∃ w prog h,
    server.run (System.opened [] .idle true) messaged = some w ∧
      w.threads (.socket 0 0) = some ⟨prog, h⟩ ∧ (frames h).map Event.seq = [1] ∧
      Orderly 0 h := by
  obtain ⟨w, hw, hany⟩ := (Option.any_eq_true _ _).mp messaged_frames
  obtain ⟨⟨prog, h⟩, hth, hframes⟩ := (Option.any_eq_true _ _).mp hany
  exact ⟨w, prog, h, hw, hth, of_decide_eq_true hframes, socket_orderly hw hth⟩

theorem socket_gapless_messaged : ∃ w prog h,
    server.run (System.opened [] .idle true) messaged = some w ∧
      w.threads (.socket 0 0) = some ⟨prog, h⟩ ∧ (frames h).length = 1 ∧
      (frames h).map Event.seq = List.range' 1 (frames h).length := by
  have horder : Machine.keeps inOrder (System.opened [] .idle true) messaged = true := by
    decide +kernel
  obtain ⟨w, hw, hany⟩ := (Option.any_eq_true _ _).mp messaged_frames
  obtain ⟨⟨prog, h⟩, hth, hframes⟩ := (Option.any_eq_true _ _).mp hany
  have hone : (frames h).length = 1 := by
    have hlength := congrArg List.length (of_decide_eq_true hframes)
    rw [List.length_map] at hlength
    exact hlength
  exact ⟨w, prog, h, hw, hth, hone, socket_gapless hw horder hth⟩

end Runs

end GgAgent.Socket
