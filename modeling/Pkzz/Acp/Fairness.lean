import Pkzz.Acp.Exclusive

/-!
# The oldest event goes first, across channels

`flush_next` compares the heads of the queues. That serves the oldest event of all if every queue is
in order of `received_at`, and events that are pushed in order of arrival make it so.

The other way into a queue is its front: batches that come back, events that are released from a
native steer, and those that are recovered when a deadline has passed. All of it keeps its
`received_at`. A batch is in order of `created_at` though, and a withheld event may have been taken
from behind others. Whether the order survives is decided by what is put in front of what
(`KeepsArrivalOrder`), and by nothing else.
-/

namespace Pkzz.Acp

open Pkzz.Core Pkzz.Lib

/-- In non-decreasing order of `received_at`. -/
def ArrivedInOrder (l : List QueuedEvent) : Prop := l.Pairwise fun a b =>
    a.receivedAt ≤ b.receivedAt

instance (l : List QueuedEvent) : Decidable (ArrivedInOrder l) :=
  inferInstanceAs (Decidable (l.Pairwise _))

/-- Put in front of a queue, as far as the cap keeps it. -/
def FrontInOrder (front queue : List QueuedEvent) : Prop :=
  ArrivedInOrder (enforceCap (front ++ queue))

namespace EventQueue

variable {q q' : EventQueue} {now : Instant}

/-- Every queue is in order of arrival. -/
def Ordered (q : EventQueue) : Prop := ∀ c, ArrivedInOrder (Map.bucket q.queues c)

/-- The channel that is drained has the oldest event of all channels that may be flushed. -/
def ServesOldest (q : EventQueue) (order : HashOrder Uuid) (now : Instant) : Prop :=
  ∀ c, q.nextQueued order now = some c → ∃ e ∈ Map.bucket q.queues c,
    ∀ d, q.Flushable now d → ∀ e' ∈ Map.bucket q.queues d, e.receivedAt ≤ e'.receivedAt

theorem headReceivedAt_of_cons {c : Uuid} {qe : QueuedEvent} {l : List QueuedEvent}
    (h : Map.bucket q.queues c = qe :: l) : q.headReceivedAt c = qe.receivedAt := by
  unfold headReceivedAt
  rw [h]

theorem Ordered.head_le (hq : q.Ordered) (c : Uuid) :
    ∀ e ∈ Map.bucket q.queues c, q.headReceivedAt c ≤ e.receivedAt := by
  intro e he
  have horder := hq c
  cases hl : Map.bucket q.queues c with
  | nil =>
    rw [hl] at he
    cases he
  | cons qe l =>
    rw [headReceivedAt_of_cons hl]
    rw [hl] at he horder
    rcases List.mem_cons.mp he with he | he
    · rw [he]
    · exact (List.pairwise_cons.mp horder).1 e he

/-- **The oldest head is the oldest event**, where the queues are in order. -/
theorem Ordered.servesOldest (hq : q.Ordered) (order : HashOrder Uuid) :
    q.ServesOldest order now := by
  intro c hnext
  have hc := flushable_of_nextQueued hnext
  cases hl : Map.bucket q.queues c with
  | nil => exact absurd hl hc.1
  | cons qe l =>
    refine ⟨qe, List.mem_cons_self, ?_⟩
    intro d hd e' he'
    have hmem : d ∈ (order.keys q.queues).filter fun id => q.Flushable now id :=
      List.mem_filter.mpr ⟨(order.mem_keys _ d).mpr (mem_queues_of_flushable hd), decide_eq_true hd⟩
    have hleast : q.headReceivedAt c ≤ q.headReceivedAt d := List.le_of_mem_argmin hmem hnext
    rw [headReceivedAt_of_cons hl] at hleast
    exact Nat.le_trans hleast (hq.head_le d e' he')

/-! ## What the calls do to the order of a queue -/

/-- A call that leaves every queue in order, but for one that it replaces. -/
theorem Ordered.replace_iff (hq : q.Ordered) {d : Uuid} {l : List QueuedEvent}
    (h : ∀ c, Map.bucket q'.queues c = if c = d then l else Map.bucket q.queues c) : q'.Ordered ↔
    ArrivedInOrder l := by
  constructor
  · intro hq'
    have hd := hq' d
    rwa [h d, if_pos rfl] at hd
  · intro hl c
    rw [h c]
    split
    · exact hl
    · exact hq c

theorem Ordered.congr (hq : q.Ordered) (h : ∀ c, Map.bucket q'.queues c = Map.bucket q.queues c) :
    q'.Ordered := by
  intro c
  rw [h c]
  exact hq c

/-- What is taken from a queue leaves the rest in order. -/
theorem Ordered.take_away (hq : q.Ordered)
    (h : ∀ c, (Map.bucket q'.queues c).Sublist (Map.bucket q.queues c)) : q'.Ordered :=
  fun c => (hq c).sublist (h c)

theorem ordered_pushFront_iff (hq : q.Ordered) (batch : FlushBatch) : (q.pushFront batch).Ordered
    ↔ FrontInOrder (batch.events.map (BatchEvent.toQueuedEvent batch.channelId))
      (Map.bucket q.queues batch.channelId) :=
  hq.replace_iff fun _ => Map.bucket_insert _ _ _ _

theorem ordered_requeue_iff (hq : q.Ordered) (jitter : Nat → Duration) (batch : FlushBatch) :
    (q.requeue now jitter batch).1.Ordered ↔ (q.attempts batch.channelId < maxRetries →
      FrontInOrder (batch.events.map (BatchEvent.toQueuedEvent batch.channelId))
        (Map.bucket q.queues batch.channelId)) := by
  rcases Nat.lt_or_ge (q.attempts batch.channelId) maxRetries with h | h
  · rw [requeue_of_retry h, ← ordered_pushFront_iff hq batch]
    exact ⟨fun hordered _ => hordered, fun hordered => hordered h⟩
  · -- the batch is given up, and the queue stays as it was
    rw [requeue_of_exhausted h]
    exact ⟨fun _ hlt => absurd hlt (Nat.not_lt.mpr h), fun _ => hq⟩

theorem ordered_releaseNativeSteer_iff (hq : q.Ordered) (d : Uuid) (eventId : String) :
    (q.releaseNativeSteer d eventId).Ordered
      ↔ ∀ qe, (Map.bucket q.withheldNativeSteer d).find? (QueuedEvent.hasId eventId) = some qe →
          FrontInOrder [qe] (Map.bucket q.queues d) := by
  cases hfind : (Map.bucket q.withheldNativeSteer d).find? (QueuedEvent.hasId eventId) with
  | none =>
    rw [releaseNativeSteer_of_none hfind]
    exact ⟨fun _ => nofun, fun _ => hq⟩
  | some qe =>
    rw [releaseNativeSteer_of_some hfind]
    have hiff : Ordered { q with
          withheldNativeSteer := Map.setBucket q.withheldNativeSteer d
            ((Map.bucket q.withheldNativeSteer d).eraseP (QueuedEvent.hasId eventId))
          queues := q.queues.insert d (enforceCap (qe :: Map.bucket q.queues d)) }
        ↔ FrontInOrder [qe] (Map.bucket q.queues d) := hq.replace_iff fun c =>
          Map.bucket_insert _ _ _ _
    rw [hiff]
    constructor
    · intro h qe' hqe'
      cases hqe'
      exact h
    · intro h
      exact h qe rfl

/-- The queue of a channel after the expiry. -/
def recovered (q : EventQueue) (c : Uuid) : List QueuedEvent :=
  match q.withheldNativeSteer.lookup c with
  | none => Map.bucket q.queues c
  | some entries => enforceCap (entries ++ Map.bucket q.queues c)

theorem bucket_foldl_releaseExpired {c : Uuid} : ∀ {l : List Uuid} {q : EventQueue}, l.Nodup →
    Map.bucket (l.foldl releaseExpired q).queues c = if c ∈ l then
      q.recovered c else Map.bucket q.queues c
  | [], q, _ => by simp
  | d :: l, q, hnd => by
    obtain ⟨hd, hl⟩ := List.nodup_cons.mp hnd
    rw [List.foldl_cons, bucket_foldl_releaseExpired hl]
    by_cases hc : c = d
    · -- its own round, and no later one
      subst hc
      rw [if_neg hd, if_pos List.mem_cons_self]
      unfold releaseExpired recoverWithheldForExpiredChannel recovered
      dsimp only
      cases q.withheldNativeSteer.lookup c with
      | none => rfl
      | some entries => exact (Map.bucket_insert _ _ _ _).trans (if_pos rfl)
    · obtain ⟨hqueue, hwithheld⟩ := @releaseExpired_frame q c d hc
      have hmem : (c ∈ d :: l) ↔ c ∈ l := by
        rw [List.mem_cons]
        exact or_iff_right hc
      unfold recovered
      simp only [hmem, hqueue, hwithheld]

theorem mem_expiredChannels {order : HashOrder Uuid} {c : Uuid} :
    c ∈ q.expiredChannels order now ↔ q.Expired now c := by
  unfold expiredChannels
  rw [List.mem_filter, order.mem_keys, decide_eq_true_iff]
  constructor
  · exact And.right
  · rintro ⟨deadline, hlookup, hpassed⟩
    exact ⟨Finmap.mem_of_lookup_eq_some hlookup, deadline, hlookup, hpassed⟩

theorem bucket_expireInFlight (order : HashOrder Uuid) (c : Uuid) :
    Map.bucket (q.expireInFlight order now).queues c
      = if q.Expired now c then q.recovered c else Map.bucket q.queues c := by
  unfold expireInFlight
  rw [bucket_foldl_releaseExpired (q.nodup_expiredChannels order now)]
  simp only [mem_expiredChannels]

/-- What was withheld for the expired channels goes in front of their queues in order. -/
def RecoversInOrder (q : EventQueue) (now : Instant) : Prop :=
  ∀ c entries, q.Expired now c → q.withheldNativeSteer.lookup c = some entries →
    FrontInOrder entries (Map.bucket q.queues c)

theorem ordered_expireInFlight_iff (hq : q.Ordered) (order : HashOrder Uuid) :
    (q.expireInFlight order now).Ordered ↔ q.RecoversInOrder now := by
  constructor
  · intro hordered c entries hexpired hentries
    have hc := hordered c
    rw [bucket_expireInFlight, if_pos hexpired, recovered, hentries] at hc
    exact hc
  · intro hrecovers c
    rw [bucket_expireInFlight]
    split
    next hexpired =>
      unfold recovered
      cases hl : q.withheldNativeSteer.lookup c with
      | none => exact hq c
      | some entries => exact hrecovers c entries hexpired hl
    next => exact hq c

theorem ordered_flushNext (orders : IterOrders)
    (hq : (q.expireInFlight orders.deadlines now).Ordered) :
    (q.flushNext orders now).1.Ordered := by
  rcases flushNext_cases q orders now with ⟨d, _, hflush⟩ | ⟨d, _, _, hflush⟩ | ⟨_, _, hflush⟩
  · rw [hflush]
    refine hq.take_away fun c => ?_
    show (Map.bucket (Map.setBucket _ _ _) c).Sublist _
    rw [Map.bucket_setBucket]
    split
    next hcd =>
      rw [hcd]
      exact List.drop_sublist _ _
    next => exact List.Sublist.refl _
  · rw [hflush]
    exact hq.congr fun _ => rfl
  · rw [hflush]
    exact hq

/-- A channel whose head is older than all the others. -/
theorem nextQueued_of_oldest {order : HashOrder Uuid} {c : Uuid} (hc : q.Flushable now c)
    (holdest : ∀ id, q.Flushable now id → id ≠ c → q.headReceivedAt c < q.headReceivedAt id) :
    q.nextQueued order now = some c := by
  have hmem : c ∈ (order.keys q.queues).filter fun id => q.Flushable now id :=
    List.mem_filter.mpr ⟨(order.mem_keys _ c).mpr (mem_queues_of_flushable hc), decide_eq_true hc⟩
  cases hnext : q.nextQueued order now with
  | none =>
    unfold nextQueued at hnext
    rw [List.argmin_eq_none.mp hnext] at hmem
    cases hmem
  | some d =>
    by_cases hdc : d = c
    · rw [hdc]
    · have hleast : q.headReceivedAt d ≤ q.headReceivedAt c := List.le_of_mem_argmin hmem hnext
      exact absurd (holdest d (flushable_of_nextQueued hnext) hdc) (Nat.not_lt.mpr hleast)

end EventQueue

namespace World

variable {w w' : World} {op : Op} {mode : DedupMode} {secs : Nat} {ops : List Op}

/-- What is pushed arrives after what was pushed before. -/
def ArrivesLast (w : World) : Op → Prop
  | .push event => ∀ qe ∈ w.accepted, qe.receivedAt ≤ event.receivedAt
  | _ => True

/-- What a step puts in front of a queue is in order of arrival, also with what is behind it. -/
def KeepsArrivalOrder (w : World) : Op → Prop
  | .requeue batch _ => w.queue.attempts batch.channelId < maxRetries →
      FrontInOrder (batch.events.map (BatchEvent.toQueuedEvent batch.channelId))
        (Map.bucket w.queue.queues batch.channelId)
  | .requeuePreserveTimestamps batch =>
    FrontInOrder (batch.events.map (BatchEvent.toQueuedEvent batch.channelId))
      (Map.bucket w.queue.queues batch.channelId)
  | .releaseNativeSteer c eventId =>
    ∀ qe, (Map.bucket w.queue.withheldNativeSteer c).find? (QueuedEvent.hasId eventId) = some qe →
      FrontInOrder [qe] (Map.bucket w.queue.queues c)
  | .flushNext _ => w.queue.RecoversInOrder w.now
  | .hasFlushableWork _ => w.queue.RecoversInOrder w.now
  | _ => True

/-- The queues are in order after a step, and where `flush_next` chooses one; and it serves the
oldest event. -/
def Fair (w : World) (op : Op) : Prop :=
  (w.queue.call w.now op).Ordered ∧ ∀ orders, op = .flushNext orders →
    (w.queue.expireInFlight orders.deadlines w.now).Ordered
      ∧ (w.queue.expireInFlight orders.deadlines w.now).ServesOldest orders.queues w.now

/-- Everything queued was accepted. -/
theorem mem_accepted_of_queued (hw : w.Accounted) {c : Uuid} {e : QueuedEvent}
    (he : e ∈ Map.bucket w.queue.queues c) : ∃ qe ∈ w.accepted, qe.receivedAt = e.receivedAt := by
  have hplace : e.toBatchEvent ∈ w.placesAt c ++ w.departedAt c :=
    List.mem_append_left _
      (List.mem_append_left _ (List.mem_append_left _ (List.mem_map_of_mem he)))
  obtain ⟨qe, hqe, _, hsame⟩ := mem_acceptedAt.mp ((subperm_acceptedAt hw c).subset hplace)
  exact ⟨qe, hqe, congrArg BatchEvent.receivedAt hsame⟩

theorem ordered_push (hw : w.Accounted) (hq : w.queue.Ordered) {event : QueuedEvent}
    (hlast : w.ArrivesLast (.push event)) : (w.queue.push event).1.Ordered := by
  unfold EventQueue.push
  split
  · exact hq
  refine (hq.replace_iff (fun c => Map.bucket_insert _ _ _ _)).mpr ?_
  have hbehind : ∀ l, l.Sublist (Map.bucket w.queue.queues event.channelId) →
      ArrivedInOrder (l ++ [event]) := by
    intro l hl
    refine List.pairwise_append.mpr ⟨(hq event.channelId).sublist hl,
      List.pairwise_singleton _ _, ?_⟩
    intro e he a ha
    obtain ⟨qe, hqe, hsame⟩ := mem_accepted_of_queued hw (hl.subset he)
    rw [List.mem_singleton.mp ha, ← hsame]
    exact hlast qe hqe
  split
  · exact hbehind _ (List.tail_sublist _)
  · exact hbehind _ (List.Sublist.refl _)

/-- **A step is fair exactly if it keeps the order of arrival.** -/
theorem fair_iff (hw : w.Accounted) (hq : w.queue.Ordered) (hlast : w.ArrivesLast op) :
    w.Fair op ↔ w.KeepsArrivalOrder op := by
  have hcall : (∀ orders, op ≠ .flushNext orders) →
      ((w.queue.call w.now op).Ordered ↔ w.KeepsArrivalOrder op) →
      (w.Fair op ↔ w.KeepsArrivalOrder op) := by
    intro hne hiff
    rw [← hiff]
    exact ⟨And.left, fun h => ⟨h, fun orders hop => absurd hop (hne orders)⟩⟩
  have hkept : (∀ orders, op ≠ .flushNext orders) → (w.queue.call w.now op).Ordered →
      w.KeepsArrivalOrder op →
      (w.Fair op ↔ w.KeepsArrivalOrder op) := fun hne h hk => hcall hne (iff_of_true h hk)
  cases op with
  | push event => exact hkept (by simp) (ordered_push hw hq hlast) trivial
  | flushNext orders =>
    constructor
    · intro h
      exact (EventQueue.ordered_expireInFlight_iff hq orders.deadlines).mp (h.2 orders rfl).1
    · intro h
      have hexpired := (EventQueue.ordered_expireInFlight_iff hq orders.deadlines).mpr h
      refine ⟨EventQueue.ordered_flushNext orders hexpired, ?_⟩
      intro orders' hop
      cases hop
      exact ⟨hexpired, hexpired.servesOldest orders.queues⟩
  | hasFlushableWork orders =>
      exact hcall (by simp) (EventQueue.ordered_expireInFlight_iff hq orders.deadlines)
  | requeue batch jitter => exact hcall (by simp) (EventQueue.ordered_requeue_iff hq jitter batch)
  | requeuePreserveTimestamps batch =>
      exact hcall (by simp) (EventQueue.ordered_pushFront_iff hq batch)
  | releaseNativeSteer d eventId =>
      exact hcall (by simp) (EventQueue.ordered_releaseNativeSteer_iff hq d eventId)
  | markComplete d how =>
    obtain ⟨counts, after, hframe⟩ := @EventQueue.markComplete_frame w.queue w.now d
    refine hkept (by simp) ?_ trivial
    rw [EventQueue.call, hframe]
    exact hq.congr fun _ => rfl
  | markNativeSteerPending d eventId =>
    refine hkept (by simp) (hq.take_away fun c => ?_) trivial
    rw [EventQueue.call]
    cases hfind : (Map.bucket w.queue.queues d).find? (QueuedEvent.hasId eventId) with
    | none =>
      rw [EventQueue.markNativeSteerPending_of_none hfind]
    | some qe =>
      rw [EventQueue.markNativeSteerPending_of_some hfind, Map.bucket_setBucket]
      split
      next hcd =>
        rw [hcd]
        exact List.eraseP_sublist
      next => exact List.Sublist.refl _
  | removeEvent d eventId =>
    refine hkept (by simp) (hq.take_away fun c => ?_) trivial
    rw [EventQueue.call, EventQueue.removeEvent, Map.bucket_retain]
    split
    next hcd =>
      rw [hcd]
      exact List.filter_sublist
    next => exact List.Sublist.refl _
  | extendInFlightDeadline d maxTurnSecs =>
    obtain ⟨m, hframe⟩ := @EventQueue.extendInFlightDeadline_frame w.queue w.now d maxTurnSecs
    refine hkept (by simp) ?_ trivial
    rw [EventQueue.call, hframe]
    exact hq.congr fun _ => rfl
  | drainChannel d =>
    refine hkept (by simp) (hq.take_away fun c => ?_) trivial
    rw [EventQueue.call, EventQueue.drainChannel, Map.bucket_erase]
    split
    · exact List.nil_sublist _
    · exact List.Sublist.refl _
  | tick d | finish batch | requeueAsCancelled batch reason | compactExpiredState =>
    exact hkept (by simp) hq trivial

/-- The queues are in order, and nothing in them comes from nowhere. -/
structure Queued (w : World) : Prop where
  accounted : w.Accounted
  ordered : w.queue.Ordered

theorem queued_init : Queued (init mode secs) where
  accounted := accounted_init
  ordered := fun _ => List.Pairwise.nil

theorem queued_step (hw : w.Queued) (hfair : w.Fair op) (h : w.step op = some w') : w'.Queued where
  accounted := accounted_step hw.accounted h
  ordered := by
    rw [(step_frame h).queue]
    exact hfair.1

/-- **Every step of a run is fair exactly if every step keeps the order of arrival**, where events
are pushed as they arrive. -/
theorem fair_run_iff (harrive : dispatch.Always ArrivesLast (init mode secs) ops) :
    dispatch.Always Fair (init mode secs) ops ↔
      dispatch.Always KeepsArrivalOrder (init mode secs) ops := by
  constructor
  · intro h
    exact (harrive.and h).imp (I := Queued) (fun _ _ _ hs hop => queued_step hs hop.2)
      (fun _ _ hs hop => (fair_iff hs.accounted hs.ordered hop.1).mp hop.2) queued_init
  · intro h
    exact (harrive.and h).imp (I := Queued)
      (fun _ _ _ hs hop => queued_step hs ((fair_iff hs.accounted hs.ordered hop.1).mpr hop.2))
      (fun _ _ hs hop => (fair_iff hs.accounted hs.ordered hop.1).mpr hop.2) queued_init

/-! ## A replay that finds no agent -/

def exampleOther : Uuid := FixedBytes.ofNat 16 2

/-- A relay replays the newer event first, and an event of another channel comes in between. -/
def exampleNewer : QueuedEvent := { exampleEvent 20 with receivedAt := 1 }

def exampleBetween : QueuedEvent :=
  { exampleEvent 30 with channelId := exampleOther, receivedAt := 2 }

def exampleReplay : QueuedEvent := { exampleEvent 10 with receivedAt := 3 }

def exampleArrivals : List Op := [.push exampleNewer, .push exampleBetween, .push exampleReplay]

def exampleArrived : World :=
  { init .queue 7200 with
    queue := { (init .queue 7200).queue with
      queues := (Finmap.singleton exampleOther [exampleBetween]).insert exampleChannel
        [exampleNewer, exampleReplay] }
    accepted := [exampleNewer, exampleBetween, exampleReplay] }

/-- The batch is in order of creation. -/
def exampleReplayBatch : FlushBatch where
  channelId := exampleChannel
  events := [exampleReplay.toBatchEvent, exampleNewer.toBatchEvent]
  cancelledEvents := []
  cancelReason := none

/-- It went back for want of an agent, with the event that came in last in front. -/
def exampleReturnedBatch : World :=
  { exampleArrived with
    queue := { exampleArrived.queue with
      queues := (Finmap.singleton exampleOther [exampleBetween]).insert exampleChannel
        [exampleReplay, exampleNewer] } }

theorem exampleArrivals_run :
    dispatch.run (init .queue 7200) exampleArrivals = some exampleArrived := rfl

theorem arrivesLast_of_not_push (h : ∀ event, op ≠ .push event) : w.ArrivesLast op := by
  cases op with
  | push event => exact absurd rfl (h event)
  | _ => trivial

theorem exampleArrivals_last (hrest : ∀ a ∈ ops, ∀ event, a ≠ .push event) :
    dispatch.Always ArrivesLast (init .queue 7200) (exampleArrivals ++ ops) := by
  have hsecond : ∀ qe ∈ [exampleNewer], qe.receivedAt ≤ exampleBetween.receivedAt := by decide
  have hthird : ∀ qe ∈ [exampleNewer, exampleBetween], qe.receivedAt ≤
      exampleReplay.receivedAt := by decide
  refine (Machine.always_append exampleArrivals_run).mpr ⟨?_, ?_⟩
  · refine ⟨nofun, fun u hu => ?_⟩
    cases hu
    refine ⟨hsecond, fun u hu => ?_⟩
    cases hu
    exact ⟨hthird, fun _ _ => trivial⟩
  · exact Machine.always_of_forall fun a ha _ => arrivesLast_of_not_push (hrest a ha)

/-- One of two channels. -/
theorem eq_of_flushable_exampleOther {now : Instant} {l : List QueuedEvent}
    {q : EventQueue} {id : Uuid}
    (hq : q.queues = (Finmap.singleton exampleOther [exampleBetween]).insert exampleChannel l)
    (hid : q.Flushable now id) : id = exampleChannel ∨ id = exampleOther := by
  have hmem := EventQueue.mem_queues_of_flushable hid
  rw [hq, Finmap.mem_insert, Finmap.mem_singleton] at hmem
  exact hmem

theorem exampleReturnedBatch_run : dispatch.run exampleArrived
    [.flushNext exampleOrders, .requeuePreserveTimestamps exampleReplayBatch,
      .markComplete exampleChannel .preserved] = some exampleReturnedBatch := by
  have hfresh : ∀ id, ¬ exampleArrived.queue.Expired exampleArrived.now id :=
    EventQueue.not_expired_of_empty rfl
  have hnext : exampleArrived.queue.nextQueued exampleOrders.queues exampleArrived.now =
      some exampleChannel := by
    refine EventQueue.nextQueued_of_oldest (by decide) ?_
    intro id hid hne
    rw [(eq_of_flushable_exampleOther rfl hid).resolve_left hne]
    decide
  have hflush : exampleArrived.queue.flushNext exampleOrders exampleArrived.now
      = ((exampleArrived.queue.flushQueued exampleArrived.now exampleChannel).1,
        some (exampleArrived.queue.flushQueued exampleArrived.now exampleChannel).2) := by
    unfold EventQueue.flushNext
    dsimp only
    rw [EventQueue.expireInFlight_of_fresh exampleOrders.deadlines hfresh, hnext]
  refine Machine.run_cons.mpr ⟨{ exampleArrived with
    queue := (exampleArrived.queue.flushQueued exampleArrived.now exampleChannel).1
    outstanding := [(exampleArrived.queue.flushQueued exampleArrived.now exampleChannel).2] }, ?_,
      rfl⟩
  show World.step exampleArrived (.flushNext exampleOrders) = _
  rw [step, hflush, evictExpired_of_fresh exampleOrders.deadlines hfresh]
  rfl

/-- The first flush is fair. -/
theorem fair_run_iff_arrivals :
    dispatch.Always Fair (init .queue 7200) (exampleArrivals ++ [.flushNext exampleOrders]) := by
  refine (fair_run_iff (exampleArrivals_last (by simp))).mpr ?_
  refine (Machine.always_append exampleArrivals_run).mpr ⟨?_, ?_⟩
  · exact ⟨trivial, fun _ _ => ⟨trivial, fun _ _ => ⟨trivial, fun _ _ => trivial⟩⟩⟩
  · refine ⟨?_, fun _ _ => trivial⟩
    intro c _ hexpired
    exact absurd hexpired (EventQueue.not_expired_of_empty rfl c)

/-- The second one takes the channel whose event came in second, and the first one waits. -/
theorem not_fair : ¬ ∀ mode secs ops, dispatch.Always ArrivesLast (init mode secs) ops →
    dispatch.Always Fair (init mode secs) ops := by
  intro hall
  have hfair := hall .queue 7200 (exampleArrivals ++ ([.flushNext exampleOrders,
    .requeuePreserveTimestamps exampleReplayBatch, .markComplete exampleChannel .preserved]
      ++ [.flushNext exampleOrders])) (exampleArrivals_last (by simp))
  have hlater := ((Machine.always_append exampleArrivals_run).mp hfair).2
  have hlast := (((Machine.always_append exampleReturnedBatch_run).mp hlater).2.1).2
      exampleOrders rfl
  have hfresh : exampleReturnedBatch.queue.expireInFlight exampleOrders.deadlines
      exampleReturnedBatch.now
      = exampleReturnedBatch.queue :=
        EventQueue.expireInFlight_of_fresh _ (EventQueue.not_expired_of_empty rfl)
  rw [hfresh] at hlast
  obtain ⟨e, he, holdest⟩ := hlast.2 exampleOther (by
    refine EventQueue.nextQueued_of_oldest (by decide) ?_
    intro id hid hne
    rw [(eq_of_flushable_exampleOther rfl hid).resolve_right hne]
    decide)
  have hmine : e = exampleBetween := List.mem_singleton.mp he
  have hwaiting := holdest exampleChannel (by decide) exampleNewer (by decide)
  rw [hmine] at hwaiting
  exact absurd hwaiting (by decide)

end World

end Pkzz.Acp
