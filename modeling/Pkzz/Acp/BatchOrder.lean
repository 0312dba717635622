import Pkzz.Acp.Conservation
import Pkzz.Acp.Shape

/-!
# The last event of a batch is the newest

A batch that is drained from a queue is sorted by `created_at`, because what is last in it decides
the scope of the prompt and where the reply goes. The fallback hands out the cancelled events of a
channel as they were put together: the events of one cancelled turn after those of another. A later
turn may well have the older events, since a relay replays what it has stored newest first. So the
order of a batch depends on which branch made it.
-/

namespace Pkzz.Acp

open Pkzz.Core Pkzz.Lib

/-- In non-decreasing order of `created_at`. -/
def CreatedInOrder (l : List BatchEvent) : Prop := l.Pairwise fun a b =>
    a.event.createdAt ≤ b.event.createdAt

instance (l : List BatchEvent) : Decidable (CreatedInOrder l) :=
  inferInstanceAs (Decidable (l.Pairwise _))

/-- The batch has a last event, and that is its newest one. -/
def FlushBatch.InOrder (batch : FlushBatch) : Prop :=
  batch.events ≠ [] ∧ CreatedInOrder batch.events

theorem createdInOrder_sort (l : List BatchEvent) :
    CreatedInOrder (EventQueue.sortByCreatedAt l) := by
  have htotal : Std.Total fun a b : BatchEvent => a.event.createdAt ≤ b.event.createdAt :=
    ⟨fun a b => Nat.le_total a.event.createdAt b.event.createdAt⟩
  have htrans : IsTrans BatchEvent fun a b => a.event.createdAt ≤ b.event.createdAt :=
    ⟨fun _ _ _ => Nat.le_trans⟩
  exact List.pairwise_insertionSort _ l

namespace EventQueue

variable {q : EventQueue} {now : Instant}

theorem cancelledBatches_expireInFlight (q : EventQueue) (order : HashOrder Uuid) (now : Instant) :
    (q.expireInFlight order now).cancelledBatches = q.cancelledBatches := by
  have hround : ∀ (q : EventQueue) (c : Uuid), (q.releaseExpired c).cancelledBatches =
      q.cancelledBatches := by
    intro q c
    unfold releaseExpired recoverWithheldForExpiredChannel
    dsimp only
    cases q.withheldNativeSteer.lookup c with
    | none => rfl
    | some entries => rfl
  unfold expireInFlight
  induction q.expiredChannels order now generalizing q with
  | nil => rfl
  | cons c l ih =>
    rw [List.foldl_cons, ih]
    exact hround q c

/-- With nothing queued and one channel to fall back to, the order does not matter. -/
theorem flushNext_of_cancelled {orders : IterOrders} {c : Uuid} (hfresh : ∀ id, ¬ q.Expired now id)
    (hnone : ∀ id, ¬ q.Flushable now id) (hc : c ∈ q.cancelledBatches)
    (hfree : c ∉ q.inFlightChannels) (honly : ∀ id ∈ q.cancelledBatches, id = c) :
    q.flushNext orders now = ((q.flushCancelled now c).1, some (q.flushCancelled now c).2) := by
  have hqueued : q.nextQueued orders.queues now = none := by
    unfold nextQueued
    rw [List.argmin_eq_none, List.filter_eq_nil_iff]
    intro id _
    simpa using hnone id
  have hcancelled : q.nextCancelled orders.cancelled = some c := by
    unfold nextCancelled
    cases hfind : (orders.cancelled.keys q.cancelledBatches).find? fun id =>
      id ∉ q.inFlightChannels with
    | none =>
      have hall := List.find?_eq_none.mp hfind c ((orders.cancelled.mem_keys _ _).mpr hc)
      simp [hfree] at hall
    | some d => rw [honly d ((orders.cancelled.mem_keys _ _).mp (List.mem_of_find?_eq_some hfind))]
  unfold flushNext
  dsimp only
  rw [expireInFlight_of_fresh orders.deadlines hfresh, hqueued, hcancelled]

end EventQueue

namespace World

variable {w w' : World} {op : Op} {mode : DedupMode} {secs : Nat} {ops : List Op}

/-- What `flush_next` hands out has events, the newest one last. -/
def HandsOutInOrder (w : World) (op : Op) : Prop :=
  ∀ orders batch, op = .flushNext orders → (w.queue.flushNext orders w.now).2 = some batch →
    batch.InOrder

/-- `flush_next` does not fall back to cancelled events that are out of order. -/
def FallsBackInOrder (w : World) (op : Op) : Prop :=
  ∀ orders c, op = .flushNext orders →
    (w.queue.expireInFlight orders.deadlines w.now).nextQueued orders.queues w.now = none →
    (w.queue.expireInFlight orders.deadlines w.now).nextCancelled orders.cancelled = some c →
      CreatedInOrder (w.queue.cancelledAt c)

theorem handsOutInOrder_iff (hw : w.Shape) : w.HandsOutInOrder op ↔ w.FallsBackInOrder op := by
  constructor
  · intro h orders c hop hqueued hcancelled
    rcases EventQueue.flushNext_cases w.queue orders w.now with
      ⟨d, hnext, _⟩ | ⟨d, _, hnext, hflush⟩ | ⟨_, hnext, _⟩
    · rw [hqueued] at hnext
      cases hnext
    · rw [hcancelled] at hnext
      cases hnext
      have horder := (h orders _ hop (congrArg Prod.snd hflush)).2
      unfold EventQueue.cancelledAt
      rw [← EventQueue.cancelledBatches_expireInFlight w.queue orders.deadlines w.now]
      exact horder
    · rw [hcancelled] at hnext
      cases hnext
  · intro h orders batch hop hbatch
    refine ⟨EventQueue.events_ne_nil_of_flushNext hw.queue (Prod.ext rfl hbatch), ?_⟩
    rcases EventQueue.flushNext_cases w.queue orders w.now with
      ⟨d, _, hflush⟩ | ⟨d, hqueued, hcancelled, hflush⟩ | ⟨_, _, hflush⟩
    · -- a drained batch is sorted whatever is in the queue
      rw [hflush] at hbatch
      cases hbatch
      exact createdInOrder_sort _
    · have horder := h orders d hop hqueued hcancelled
      unfold EventQueue.cancelledAt at horder
      rw [← EventQueue.cancelledBatches_expireInFlight w.queue orders.deadlines w.now] at horder
      rw [hflush] at hbatch
      cases hbatch
      exact horder
    · rw [hflush] at hbatch
      cases hbatch

/-! ## Turns that are cancelled in order -/

/-- The events of a cancelled turn are not older than those that wait on its channel, nor older than
those it was merged with. -/
def CancelsInOrder (w : World) (op : Op) : Prop :=
  ∀ batch reason, op = .requeueAsCancelled batch reason →
    CreatedInOrder (w.queue.cancelledAt batch.channelId ++ batch.cancelledEvents ++ batch.events)

/-- All cancelled events are in order. -/
def CancelledInOrder (w : World) : Prop := ∀ c, CreatedInOrder (w.queue.cancelledAt c)

theorem cancelledInOrder_init : CancelledInOrder (init mode secs) := by
  intro c
  exact List.Pairwise.nil

/-- What a channel has cancelled is erased, extended by a turn, or left. -/
theorem cancelledInOrder_step (hw : w.CancelledInOrder) (hop : w.CancelsInOrder op)
    (h : w.step op = some w') : w'.CancelledInOrder := by
  have hqueue := (step_frame h).queue
  have hkept : (w.queue.call w.now op).cancelledBatches = w.queue.cancelledBatches →
      w'.CancelledInOrder := by
    intro hsame c
    unfold EventQueue.cancelledAt
    rw [hqueue, hsame]
    exact hw c
  have herased : ∀ d, (w.queue.call w.now op).cancelledBatches = w.queue.cancelledBatches.erase d →
      w'.CancelledInOrder := by
    intro d hsame c
    unfold EventQueue.cancelledAt
    rw [hqueue, hsame, Map.bucket_erase]
    split
    · exact List.Pairwise.nil
    · exact hw c
  cases op with
  | push event =>
    obtain ⟨m, hframe⟩ := @EventQueue.push_frame w.queue event
    exact hkept (by rw [EventQueue.call, hframe])
  | flushNext orders =>
    have hexpired := EventQueue.cancelledBatches_expireInFlight w.queue orders.deadlines w.now
    rcases EventQueue.flushNext_cases w.queue orders w.now with ⟨d, _, hflush⟩ | ⟨d, _, _, hflush⟩ |
      ⟨_, _, hflush⟩
    · refine herased d ?_
      rw [EventQueue.call, hflush, ← hexpired]
      rfl
    · refine herased d ?_
      rw [EventQueue.call, hflush, ← hexpired]
      rfl
    · refine hkept ?_
      rw [EventQueue.call, hflush, hexpired]
  | hasFlushableWork orders =>
      exact hkept (EventQueue.cancelledBatches_expireInFlight w.queue orders.deadlines w.now)
  | requeue batch jitter =>
    obtain ⟨m, counts, after, hframe⟩ := @EventQueue.requeue_frame w.queue w.now jitter batch
    exact hkept (by rw [EventQueue.call, hframe])
  | requeueAsCancelled batch reason =>
    intro c
    unfold EventQueue.cancelledAt
    rw [hqueue, EventQueue.call, EventQueue.requeueAsCancelled, Map.bucket_insert]
    split
    · exact hop batch reason rfl
    · exact hw c
  | markComplete d how =>
    obtain ⟨counts, after, hframe⟩ := @EventQueue.markComplete_frame w.queue w.now d
    exact hkept (by rw [EventQueue.call, hframe])
  | markNativeSteerPending d eventId =>
    obtain ⟨m, n, hframe⟩ := @EventQueue.markNativeSteerPending_frame w.queue d eventId
    exact hkept (by rw [EventQueue.call, hframe])
  | releaseNativeSteer d eventId =>
    obtain ⟨m, n, hframe⟩ := @EventQueue.releaseNativeSteer_frame w.queue d eventId
    exact hkept (by rw [EventQueue.call, hframe])
  | extendInFlightDeadline d maxTurnSecs =>
    obtain ⟨m, hframe⟩ := @EventQueue.extendInFlightDeadline_frame w.queue w.now d maxTurnSecs
    exact hkept (by rw [EventQueue.call, hframe])
  | drainChannel d => exact herased d rfl
  | tick d | finish batch | requeuePreserveTimestamps batch | removeEvent d eventId
  | compactExpiredState => exact hkept rfl

theorem fallsBackInOrder_of_cancels (h : dispatch.Always CancelsInOrder (init mode secs) ops) :
    dispatch.Always FallsBackInOrder (init mode secs) ops :=
  h.imp (I := CancelledInOrder) (fun _ _ _ hs hop hstep => cancelledInOrder_step hs hop hstep)
    (fun _ _ hs _ _ c _ _ _ => hs c) cancelledInOrder_init

/-- **Every batch of a run is in order exactly if the fallback meets no cancelled events that are
out of order**, and turns that are cancelled in order of their events leave none. -/
theorem batches_in_order_iff (mode : DedupMode) (secs : Nat) (ops : List Op) :
    (dispatch.Always HandsOutInOrder (init mode secs) ops ↔
      dispatch.Always FallsBackInOrder (init mode secs) ops)
      ∧ (dispatch.Always CancelsInOrder (init mode secs) ops →
        dispatch.Always HandsOutInOrder (init mode secs) ops) := by
  have hiff : dispatch.Always HandsOutInOrder (init mode secs) ops ↔
      dispatch.Always FallsBackInOrder (init mode secs) ops :=
    ⟨fun h => h.imp (I := Shape) (fun _ _ _ hs _ => shape_step hs)
      (fun _ _ hs => (handsOutInOrder_iff hs).mp) shape_init,
      fun h => h.imp (I := Shape) (fun _ _ _ hs _ => shape_step hs)
        (fun _ _ hs => (handsOutInOrder_iff hs).mpr) shape_init⟩
  exact ⟨hiff, fun h => hiff.mpr (fallsBackInOrder_of_cancels h)⟩

/-! ## Two turns cancelled, the later one with the older event -/

/-- It was created before the event of the cancelled turn, and comes in after it. -/
def exampleOlder : QueuedEvent := { exampleEvent 0 with receivedAt := 2 }

/-- Both turns were cancelled. -/
def exampleTwice : World :=
  { init .queue 7200 with
    queue := { (init .queue 7200).queue with
      cancelledBatches := Finmap.singleton exampleChannel [(exampleEvent 1).toBatchEvent,
        exampleOlder.toBatchEvent]
      cancelReasons := Finmap.singleton exampleChannel .steer }
    accepted := [exampleEvent 1, exampleOlder] }

def exampleMerged : FlushBatch where
  channelId := exampleChannel
  events := [exampleOlder.toBatchEvent]
  cancelledEvents := [(exampleEvent 1).toBatchEvent]
  cancelReason := some .steer

theorem exampleTwice_run : dispatch.run exampleCancelled
    [.push exampleOlder, .flushNext exampleOrders, .requeueAsCancelled exampleMerged .steer,
      .markComplete exampleChannel .cancelled] = some exampleTwice := by
  refine Machine.run_cons.mpr ⟨_, rfl, ?_⟩
  refine Machine.run_cons.mpr ⟨_, step_flushNext_of_only (c := exampleChannel) ?_ ?_ ?_, ?_⟩
  · exact EventQueue.not_expired_of_empty rfl
  · decide
  · exact EventQueue.eq_of_flushable_of_singleton (l := [exampleOlder]) rfl
  · rfl

theorem exampleTwice_flushNext : (exampleTwice.queue.flushNext exampleOrders exampleTwice.now).2
    = some (exampleTwice.queue.flushCancelled exampleTwice.now exampleChannel).2 := by
  refine congrArg Prod.snd (EventQueue.flushNext_of_cancelled (c :=
    exampleChannel) ?_ ?_ (by decide) (by decide) ?_)
  · exact EventQueue.not_expired_of_empty rfl
  · intro id hid
    exact hid.1 rfl
  · intro id hid
    exact (Finmap.mem_singleton id exampleChannel _).mp hid

/-- The newer event is handed out first, and the reply goes to the older one. -/
theorem not_batches_in_order :
    ¬ ∀ mode secs ops, dispatch.Always HandsOutInOrder (init mode secs) ops := by
  intro hall
  have hrun := Machine.run_append.mpr ⟨_, exampleCancelled_run, exampleTwice_run⟩
  have hlast := ((Machine.always_append hrun).mp
      (hall .queue 7200 (_ ++ [.flushNext exampleOrders]))).2
  have horder := (hlast.1 exampleOrders _ rfl exampleTwice_flushNext).2
  revert horder
  decide

end World

end Pkzz.Acp
