import Pkzz.Acp.Frame

/-!
# No request is lost, unless a cancelled batch is requeued

Every accepted event is somewhere: held by the queue, in an outstanding batch, departed, or
dropped (`Accounted`). That is an invariant of every run, whatever the callers do.

The only calls that drop events are `requeue` and `requeue_preserve_timestamps`, and what
they drop are the `cancelled_events` of the batch they are given. So a run loses nothing
exactly if no batch with cancelled events goes back that way (`noneLost_iff`), except into
the dead letters.
-/

namespace Pkzz.Acp

open Pkzz.Core Pkzz.Lib

namespace World

def acceptedAt (w : World) (c : Uuid) : List BatchEvent :=
  (w.accepted.filter fun qe => qe.channelId = c).map QueuedEvent.toBatchEvent

def outstandingAt (w : World) (c : Uuid) : List BatchEvent :=
  (w.outstanding.filter fun b => b.channelId = c).flatMap FlushBatch.requests

/-- Everything that may still be delivered on a channel, one entry for each place. -/
def placesAt (w : World) (c : Uuid) : List BatchEvent := w.queue.heldAt c ++ w.outstandingAt c

def departedAt (w : World) (c : Uuid) : List BatchEvent :=
  (w.departed.filter fun d => d.channelId = c).map Departure.event

def droppedAt (w : World) (c : Uuid) : List BatchEvent :=
  (w.dropped.filter fun d => d.1 = c).map Prod.snd

/-- Where the copies of `x` on channel `c` are. -/
def tally (w : World) (c : Uuid) (x : BatchEvent) : Nat :=
  (w.queue.heldAt c).count x + (w.outstandingAt c).count x
    + ((w.departedAt c).count x + (w.droppedAt c).count x)

/-! ## Ghost state -/

variable {w w' : World}

theorem outstandingAt_cons (l : List FlushBatch) (b : FlushBatch) (c : Uuid) :
    ((b :: l).filter fun b => b.channelId = c).flatMap FlushBatch.requests
      = atChannel c b.channelId b.requests
        ++ (l.filter fun b => b.channelId = c).flatMap FlushBatch.requests := by
  unfold atChannel
  by_cases h : b.channelId = c
  · simp [h]
  · simp [h]

theorem outstandingAt_erase {l : List FlushBatch} {b : FlushBatch} (h : b ∈ l) (c : Uuid) :
    ((l.filter fun b => b.channelId = c).flatMap FlushBatch.requests).Perm
      (atChannel c b.channelId b.requests
        ++ ((l.erase b).filter fun b => b.channelId = c).flatMap FlushBatch.requests) := by
  rw [← outstandingAt_cons]
  exact ((List.perm_cons_erase h).filter _).flatMap_right _

/-- Entries made for one channel, seen from another one. -/
theorem filter_map_made {α β : Type} {channel : β → Uuid} {value : β → α} {make : α → β} {d : Uuid}
    (hchannel : ∀ a, channel (make a) = d) (hvalue : ∀ a, value (make a) = a) (l : List α)
    (c : Uuid) : ((l.map make).filter fun e => channel e = c).map value = atChannel c d l := by
  have hmake : (fun e => decide (channel e = c)) ∘ make = fun _ => decide (d = c) := by
    funext a
    rw [Function.comp_apply, hchannel a]
  have hid : value ∘ make = id := funext hvalue
  rw [List.filter_map, List.map_map, hmake, hid, List.map_id]
  unfold atChannel
  by_cases h : d = c
  · simp [h]
  · simp [h]

theorem acceptedAt_append (l : List QueuedEvent) (event : QueuedEvent) (c : Uuid) :
    ((l ++ [event]).filter fun qe => qe.channelId = c).map QueuedEvent.toBatchEvent
      = (l.filter fun qe => qe.channelId = c).map QueuedEvent.toBatchEvent
        ++ atChannel c event.channelId [event.toBatchEvent] := by
  rw [List.filter_append, List.map_append]
  congr 1
  exact @filter_map_made _ _ QueuedEvent.channelId QueuedEvent.toBatchEvent
    (BatchEvent.toQueuedEvent event.channelId) event.channelId (fun _ => rfl) (fun _ => rfl)
    [event.toBatchEvent] c

theorem departedAt_depart (w : World) (d : Uuid) (fate : Fate) (l : List BatchEvent) (c : Uuid) :
    (w.depart d fate l).departedAt c = w.departedAt c ++ atChannel c d l := by
  unfold depart departedAt
  rw [List.filter_append, List.map_append]
  congr 1
  exact @filter_map_made _ _ Departure.channelId Departure.event (Departure.mk d fate) d
    (fun _ => rfl) (fun _ => rfl) l c

theorem droppedAt_drop (w : World) (d : Uuid) (l : List BatchEvent) (c : Uuid) :
    (w.drop d l).droppedAt c = w.droppedAt c ++ atChannel c d l := by
  unfold drop droppedAt
  rw [List.filter_append, List.map_append]
  congr 1
  exact @filter_map_made _ _ Prod.fst Prod.snd (Prod.mk d) d (fun _ => rfl) (fun _ => rfl) l c

/-- Departures one channel after the other. -/
theorem departedAt_foldl_evict {f : Uuid → List QueuedEvent} {c : Uuid} :
    ∀ {l : List Uuid} {w : World}, l.Nodup →
      (l.foldl (fun v d => v.evict d (f d)) w).departedAt c
        = w.departedAt c ++ if c ∈ l then (f c).map QueuedEvent.toBatchEvent else []
  | [], w, _ => by simp
  | d :: l, w, hnd => by
    obtain ⟨hd, hl⟩ := List.nodup_cons.mp hnd
    rw [List.foldl_cons, departedAt_foldl_evict hl, evict, departedAt_depart]
    by_cases hc : c = d
    · subst hc
      rw [if_neg hd, if_pos List.mem_cons_self, atChannel_self, List.append_nil]
    have hmem : (c ∈ d :: l) ↔ c ∈ l := by
      rw [List.mem_cons]
      exact or_iff_right hc
    simp only [hmem, atChannel_ne hc, List.append_nil]

theorem departedAt_evictExpired (w : World) (order : HashOrder Uuid) (c : Uuid) :
    (w.evictExpired order).departedAt c = w.departedAt c ++ if c ∈
    w.queue.expiredChannels order w.now
      then (w.queue.recoveryEvicts c).map QueuedEvent.toBatchEvent else [] :=
  departedAt_foldl_evict (w.queue.nodup_expiredChannels order w.now)

/-! ## Every call moves events, and none makes or destroys them -/

variable {batch : FlushBatch}

theorem count_outstandingAt_close (h : batch ∈ w.outstanding) (how : Closing)
    (c : Uuid) (x : BatchEvent) :
    (w.outstandingAt c).count x = (atChannel c batch.channelId batch.requests).count x
      + ((w.close batch how).outstandingAt c).count x := by
  have hperm := (outstandingAt_erase h c).count_eq x
  rw [List.count_append] at hperm
  exact hperm

/-- A batch whose events go back to the front of their queue leaves its cancelled events behind. -/
theorem tally_pushFront (h : batch ∈ w.outstanding) (how : Closing)
    (hheld : ∀ c, w'.queue.heldAt c = (w.queue.pushFront batch).heldAt c)
    (hout : w'.outstanding = (w.close batch how).outstanding)
    (hdep : w'.departed = (w.evict batch.channelId (w.queue.pushFrontEvicts batch)).departed)
    (hdrop : w'.dropped = (w.drop batch.channelId batch.cancelledEvents).dropped)
    (c : Uuid) (x : BatchEvent) : w'.tally c x = w.tally c x := by
  have hfront := (EventQueue.heldAt_pushFront (q := w.queue) batch c).count_eq x
  have hclose := count_outstandingAt_close h how c x
  have hdeparted := congrArg (List.count x)
    (departedAt_depart w batch.channelId .evicted
      ((w.queue.pushFrontEvicts batch).map QueuedEvent.toBatchEvent) c)
  have hdropped := congrArg (List.count x)
    (droppedAt_drop w batch.channelId batch.cancelledEvents c)
  have houtAt : w'.outstandingAt c = (w.close batch how).outstandingAt c := by
    unfold outstandingAt
    rw [hout]
  have hdepAt : w'.departedAt c
      = (w.evict batch.channelId (w.queue.pushFrontEvicts batch)).departedAt c := by
    unfold departedAt
    rw [hdep]
  have hdropAt : w'.droppedAt c = (w.drop batch.channelId batch.cancelledEvents).droppedAt c := by
    unfold droppedAt
    rw [hdrop]
  have hrequests : (atChannel c batch.channelId batch.requests).count x
      = (atChannel c batch.channelId batch.events).count x
        + (atChannel c batch.channelId batch.cancelledEvents).count x := by
    unfold atChannel FlushBatch.requests
    split
    · exact List.count_append
    · rfl
  unfold tally
  rw [hheld, houtAt, hdepAt, hdropAt]
  unfold evict
  simp only [List.count_append] at hfront hdeparted hdropped
  omega

/-- A call that only moves events between the containers of their channels. -/
theorem tally_of_heldAt_perm (hheld : ∀ c, (w'.queue.heldAt c).Perm (w.queue.heldAt c))
    (hout : w'.outstanding = w.outstanding) (hdep : w'.departed = w.departed)
    (hdrop : w'.dropped = w.dropped) (c : Uuid) (x : BatchEvent) : w'.tally c x = w.tally c x := by
  unfold tally outstandingAt departedAt droppedAt
  rw [(hheld c).count_eq x, hout, hdep, hdrop]

/-- A call that lets events of one channel depart. -/
theorem tally_of_depart (d : Uuid) (fate : Fate) (l : List BatchEvent)
    (hheld : ∀ c, (w'.queue.heldAt c ++ atChannel c d l).Perm (w.queue.heldAt c))
    (hout : w'.outstanding = w.outstanding) (hdep : w'.departed = (w.depart d fate l).departed)
    (hdrop : w'.dropped = w.dropped) (c : Uuid) (x : BatchEvent) : w'.tally c x = w.tally c x := by
  have hcount := (hheld c).count_eq x
  have hdeparted := congrArg (List.count x) (departedAt_depart w d fate l c)
  have hdepAt : w'.departedAt c = (w.depart d fate l).departedAt c := by
    unfold departedAt
    rw [hdep]
  have houtAt : w'.outstandingAt c = w.outstandingAt c := by
    unfold outstandingAt
    rw [hout]
  have hdropAt : w'.droppedAt c = w.droppedAt c := by
    unfold droppedAt
    rw [hdrop]
  unfold tally
  rw [houtAt, hdepAt, hdropAt]
  simp only [List.count_append] at hcount hdeparted
  omega

/-- The first half of `flush_next`, and all of `has_flushable_work`. -/
theorem tally_expireInFlight (order : HashOrder Uuid) (c : Uuid) (x : BatchEvent) :
    tally { w.evictExpired order with queue := w.queue.expireInFlight order w.now } c x =
      w.tally c x := by
  have hheld := (@EventQueue.heldAt_expireInFlight w.queue w.now order c).count_eq x
  have hdeparted := congrArg (List.count x) (departedAt_evictExpired w order c)
  obtain ⟨m, hframe⟩ := evictExpired_frame w order
  have hout : (w.evictExpired order).outstandingAt c = w.outstandingAt c := by
    rw [hframe]
    rfl
  have hdrop : (w.evictExpired order).droppedAt c = w.droppedAt c := by
    rw [hframe]
    rfl
  show ((w.queue.expireInFlight order w.now).heldAt c).count x +
    ((w.evictExpired order).outstandingAt c).count x
    + (((w.evictExpired order).departedAt c).count x +
      ((w.evictExpired order).droppedAt c).count x) = _
  rw [hout, hdrop]
  unfold tally
  simp only [List.count_append] at hheld hdeparted
  omega

theorem tally_push {event : QueuedEvent} {q : EventQueue} (h : w.queue.push event = (q, true))
    (c : Uuid) (x : BatchEvent) :
    tally { w.evict event.channelId (w.queue.pushEvicts event) with
        queue := q
        accepted := w.accepted ++ [event] } c x
      = w.tally c x + (atChannel c event.channelId [event.toBatchEvent]).count x := by
  have hheld := (EventQueue.heldAt_push h c).count_eq x
  have hdeparted := congrArg (List.count x) (departedAt_depart w event.channelId .evicted
    ((w.queue.pushEvicts event).map QueuedEvent.toBatchEvent) c)
  show (q.heldAt c).count x + (w.outstandingAt c).count x
    + (((w.evict event.channelId (w.queue.pushEvicts event)).departedAt c).count x
      + (w.droppedAt c).count x) = _
  unfold tally evict
  simp only [List.count_append] at hheld hdeparted
  omega

theorem tally_flushNext_some {orders : IterOrders} {q : EventQueue}
    (h : w.queue.flushNext orders w.now = (q, some batch)) (c : Uuid) (x : BatchEvent) :
    tally { w.evictExpired orders.deadlines with
        queue := q
        outstanding := batch :: w.outstanding } c x = w.tally c x := by
  have hheld := (EventQueue.heldAt_flushNext_some h c).count_eq x
  have hexpire := tally_expireInFlight (w := w) orders.deadlines c x
  have hout := congrArg (List.count x) (outstandingAt_cons w.outstanding batch c)
  obtain ⟨m, hframe⟩ := evictExpired_frame w orders.deadlines
  rw [← hexpire, hframe]
  show (q.heldAt c).count x
      + (((batch :: w.outstanding).filter fun b =>
        b.channelId = c).flatMap FlushBatch.requests).count x
      + ((((w.departed ++ m).filter fun d => d.channelId = c).map Departure.event).count x
        + (w.droppedAt c).count x)
    = ((w.queue.expireInFlight orders.deadlines w.now).heldAt c).count x
      + ((w.outstanding.filter fun b => b.channelId = c).flatMap FlushBatch.requests).count x
      + ((((w.departed ++ m).filter fun d => d.channelId = c).map Departure.event).count x
        + (w.droppedAt c).count x)
  simp only [List.count_append] at hheld hout
  omega

/-- A batch that does not come back: its requests depart. -/
theorem tally_finish (h : batch ∈ w.outstanding) (how : Closing) (fate : Fate)
    (hheld : ∀ c, w'.queue.heldAt c = w.queue.heldAt c)
    (hout : w'.outstanding = (w.close batch how).outstanding)
    (hdep : w'.departed = (w.depart batch.channelId fate batch.requests).departed)
    (hdrop : w'.dropped = w.dropped) (c : Uuid) (x : BatchEvent) : w'.tally c x = w.tally c x := by
  have hclose := count_outstandingAt_close h how c x
  have hdeparted := congrArg (List.count x)
    (departedAt_depart w batch.channelId fate batch.requests c)
  have houtAt : w'.outstandingAt c = (w.close batch how).outstandingAt c := by
    unfold outstandingAt
    rw [hout]
  have hdepAt : w'.departedAt c = (w.depart batch.channelId fate batch.requests).departedAt c := by
    unfold departedAt
    rw [hdep]
  have hdropAt : w'.droppedAt c = w.droppedAt c := by
    unfold droppedAt
    rw [hdrop]
  unfold tally
  rw [hheld, houtAt, hdepAt, hdropAt]
  simp only [List.count_append] at hdeparted
  omega

theorem tally_requeueAsCancelled (h : batch ∈ w.outstanding)
    (reason : CancelReason) (c : Uuid) (x : BatchEvent) :
    tally { w.close batch .cancelled with queue := w.queue.requeueAsCancelled batch reason } c x
      = w.tally c x := by
  have hheld := (EventQueue.heldAt_requeueAsCancelled (q := w.queue) batch reason c).count_eq x
  have hclose := count_outstandingAt_close h .cancelled c x
  show ((w.queue.requeueAsCancelled batch reason).heldAt c).count x
    + ((w.close batch .cancelled).outstandingAt c).count x
    + ((w.departedAt c).count x + (w.droppedAt c).count x) = _
  unfold tally
  simp only [List.count_append] at hheld
  omega

/-- Every event is where it counts as often as before, and none is taken in. -/
structure Kept (w w' : World) : Prop where
  tally : ∀ c x, w'.tally c x = w.tally c x
  accepted : w'.accepted = w.accepted

section Kept

variable {orders : IterOrders} {jitter : Nat → Duration} {reason : CancelReason} {how : Closing}
    {d : Uuid} {eventId : String}

theorem kept_flushNext (h : w.step (.flushNext orders) = some w') : Kept w w' := by
  cases hflush : w.queue.flushNext orders w.now with
  | mk q handed =>
    rw [step, hflush] at h
    obtain ⟨m, hframe⟩ := evictExpired_frame w orders.deadlines
    cases handed with
    | none =>
      cases h
      refine ⟨fun c x => ?_, ?_⟩
      · rw [EventQueue.flushNext_none hflush]
        exact tally_expireInFlight orders.deadlines c x
      · rw [hframe]
    | some batch =>
      cases h
      refine ⟨tally_flushNext_some hflush, ?_⟩
      rw [hframe]

theorem kept_hasFlushableWork (h : w.step (.hasFlushableWork orders) = some w') : Kept w w' := by
  obtain ⟨m, hframe⟩ := evictExpired_frame w orders.deadlines
  cases h
  refine ⟨tally_expireInFlight orders.deadlines, ?_⟩
  rw [hframe]

theorem kept_finish (h : w.step (.finish batch) = some w') : Kept w w' := by
  rw [step] at h
  split at h
  next hmem =>
    cases h
    refine ⟨tally_finish hmem .finished .delivered ?_ ?_ ?_ ?_, ?_⟩
    · intro _
      rfl
    · rfl
    · rfl
    · rfl
    · rfl
  · cases h

theorem kept_requeue (h : w.step (.requeue batch jitter) = some w') : Kept w w' := by
  rw [step] at h
  split at h
  next hmem =>
    rcases Nat.lt_or_ge (w.queue.attempts batch.channelId) maxRetries with hretry | hexhausted
    · rw [EventQueue.requeue_of_retry hretry] at h
      cases h
      refine ⟨tally_pushFront hmem .requeued ?_ ?_ ?_ ?_, ?_⟩
      · intro _
        rfl
      · rfl
      · rfl
      · rfl
      · rfl
    · rw [EventQueue.requeue_of_exhausted hexhausted] at h
      cases h
      refine ⟨tally_finish hmem .requeued .deadLettered ?_ ?_ ?_ ?_, ?_⟩
      · intro _
        rfl
      · rfl
      · rfl
      · rfl
      · rfl
  · cases h

theorem kept_requeuePreserveTimestamps (h : w.step (.requeuePreserveTimestamps batch) = some w') :
    Kept w w' := by
  rw [step] at h
  split at h
  next hmem =>
    cases h
    refine ⟨tally_pushFront hmem .preserved ?_ ?_ ?_ ?_, ?_⟩
    · intro _
      rfl
    · rfl
    · rfl
    · rfl
    · rfl
  · cases h

theorem kept_requeueAsCancelled (h : w.step (.requeueAsCancelled batch reason) = some w') :
    Kept w w' := by
  rw [step] at h
  split at h
  next hmem =>
    cases h
    exact ⟨tally_requeueAsCancelled hmem reason, rfl⟩
  · cases h

theorem kept_releaseNativeSteer (h : w.step (.releaseNativeSteer d eventId) = some w') :
    Kept w w' := by
  cases h
  refine ⟨tally_of_depart d .evicted
    ((w.queue.releaseEvicts d eventId).map QueuedEvent.toBatchEvent) ?_ ?_ ?_ ?_, ?_⟩
  · intro c
    exact EventQueue.heldAt_releaseNativeSteer d eventId c
  · rfl
  · rfl
  · rfl
  · rfl

theorem kept_removeEvent (h : w.step (.removeEvent d eventId) = some w') : Kept w w' := by
  cases h
  refine ⟨tally_of_depart d .steered
    ((removed eventId (Map.bucket w.queue.withheldNativeSteer d)
      ++ removed eventId (Map.bucket w.queue.queues d)).map QueuedEvent.toBatchEvent)
    ?_ ?_ ?_ ?_, ?_⟩
  · intro c
    exact EventQueue.heldAt_removeEvent d eventId c
  · rfl
  · rfl
  · rfl
  · rfl

theorem kept_markComplete (h : w.step (.markComplete d how) = some w') : Kept w w' := by
  rw [step] at h
  split at h
  · cases h
    refine ⟨tally_of_heldAt_perm ?_ ?_ ?_ ?_, ?_⟩
    · intro c
      exact List.Perm.of_eq (EventQueue.heldAt_markComplete d c)
    · rfl
    · rfl
    · rfl
    · rfl
  · cases h

end Kept

/-- **No call makes or destroys an event.** Only `push` takes one in. -/
theorem tally_step {op : Op} (h : w.step op = some w') (c : Uuid) (x : BatchEvent) :
    w'.tally c x + (w.acceptedAt c).count x = w.tally c x + (w'.acceptedAt c).count x := by
  have hkept : Kept w w' →
      w'.tally c x + (w.acceptedAt c).count x = w.tally c x + (w'.acceptedAt c).count x := by
    intro hkept
    unfold acceptedAt
    rw [hkept.tally, hkept.accepted]
  cases op with
  | tick d =>
    cases h
    exact hkept ⟨fun _ _ => rfl, rfl⟩
  | push event =>
    cases hpush : w.queue.push event with
    | mk q ok =>
      rw [step, hpush] at h
      cases ok with
      | false =>
        cases h
        have hq : q = w.queue := by
          unfold EventQueue.push at hpush
          split at hpush
          · exact (Prod.mk.inj hpush).1.symm
          · cases (Prod.mk.inj hpush).2
        rw [hq]
      | true =>
        cases h
        have haccepted := congrArg (List.count x) (acceptedAt_append w.accepted event c)
        rw [List.count_append] at haccepted
        rw [tally_push hpush]
        unfold acceptedAt
        dsimp only
        omega
  | flushNext orders => exact hkept (kept_flushNext h)
  | hasFlushableWork orders => exact hkept (kept_hasFlushableWork h)
  | finish batch => exact hkept (kept_finish h)
  | requeue batch jitter => exact hkept (kept_requeue h)
  | requeuePreserveTimestamps batch => exact hkept (kept_requeuePreserveTimestamps h)
  | requeueAsCancelled batch reason => exact hkept (kept_requeueAsCancelled h)
  | markComplete d how => exact hkept (kept_markComplete h)
  | markNativeSteerPending d eventId =>
    cases h
    refine hkept ⟨tally_of_heldAt_perm ?_ ?_ ?_ ?_, ?_⟩
    · intro c
      exact EventQueue.heldAt_markNativeSteerPending d eventId c
    · rfl
    · rfl
    · rfl
    · rfl
  | releaseNativeSteer d eventId => exact hkept (kept_releaseNativeSteer h)
  | removeEvent d eventId => exact hkept (kept_removeEvent h)
  | extendInFlightDeadline d secs =>
    cases h
    refine hkept ⟨tally_of_heldAt_perm ?_ ?_ ?_ ?_, ?_⟩
    · intro c
      exact List.Perm.of_eq (EventQueue.heldAt_extendInFlightDeadline d secs c)
    · rfl
    · rfl
    · rfl
    · rfl
  | drainChannel d =>
    cases h
    refine hkept ⟨tally_of_depart d .drained (w.queue.heldAt d) ?_ ?_ ?_ ?_, ?_⟩
    · intro c
      exact EventQueue.heldAt_drainChannel d c
    · rfl
    · rfl
    · rfl
    · rfl
  | compactExpiredState =>
    cases h
    exact hkept ⟨fun _ _ => rfl, rfl⟩

/-! ## Runs -/

variable {mode : DedupMode} {secs : Nat} {ops : List Op}

/-- Every accepted event is in a place, departed or dropped, as often as it was accepted. -/
def Accounted (w : World) : Prop := ∀ c x, (w.acceptedAt c).count x = w.tally c x

theorem accounted_init : Accounted (init mode secs) := by
  intro c x
  rfl

theorem accounted_step {op : Op} (hw : w.Accounted) (h : w.step op = some w') : w'.Accounted := by
  intro c x
  have hstep := tally_step h c x
  have hcx := hw c x
  omega

theorem accounted_run (h : dispatch.run (init mode secs) ops = some w) : w.Accounted :=
  Machine.invariant (fun _ _ _ hs _ => accounted_step hs) accounted_init Machine.always_true h

/-- Every accepted event is held by the queue, in an outstanding batch, or departed. -/
def NoneLost (w : World) : Prop := ∀ c, (w.acceptedAt c).Perm (w.placesAt c ++ w.departedAt c)

theorem noneLost_iff_dropped (h : w.Accounted) : w.NoneLost ↔ w.dropped = [] := by
  have hcount : ∀ c x, (w.placesAt c ++ w.departedAt c).count x + (w.droppedAt c).count x
      = (w.acceptedAt c).count x := by
    intro c x
    rw [h c x]
    unfold placesAt tally
    simp only [List.count_append]
    omega
  constructor
  · intro hnone
    rw [List.eq_nil_iff_forall_not_mem]
    intro d hd
    have hmem : d.2 ∈ w.droppedAt d.1 := by
      unfold droppedAt
      exact List.mem_map_of_mem (List.mem_filter.mpr ⟨hd, decide_eq_true rfl⟩)
    have hpos := List.count_pos_iff.mpr hmem
    have hd := hcount d.1 d.2
    rw [(hnone d.1).count_eq d.2] at hd
    omega
  · intro hnil c
    refine List.perm_iff_count.mpr ?_
    intro x
    have hd : w.droppedAt c = [] := by
      unfold droppedAt
      rw [hnil]
      rfl
    have hcx := hcount c x
    rw [hd, List.count_nil] at hcx
    omega

/-- A batch with cancelled events goes back to the queue only as a cancelled batch, or not at all.
-/
def KeepsCancelled (w : World) : Op → Prop
  | .requeue batch _ => batch.cancelledEvents = [] ∨ maxRetries ≤ w.queue.attempts batch.channelId
  | .requeuePreserveTimestamps batch => batch.cancelledEvents = []
  | _ => True

theorem dropped_step {op : Op} (h : w.step op = some w') :
    ∃ l, w'.dropped = w.dropped ++ l ∧ (l = [] ↔ w.KeepsCancelled op) := by
  have hsame : w'.dropped = w.dropped → w.KeepsCancelled op →
      ∃ l, w'.dropped = w.dropped ++ l ∧ (l = [] ↔ w.KeepsCancelled op) := by
    intro hdrop hkeeps
    refine ⟨[], ?_, ?_⟩
    · rw [hdrop, List.append_nil]
    · exact ⟨fun _ => hkeeps, fun _ => rfl⟩
  cases op with
  | push event =>
    rw [step] at h
    split at h
    · cases h
      exact hsame rfl trivial
    · cases h
      exact hsame rfl trivial
  | flushNext orders =>
    obtain ⟨m, hframe⟩ := evictExpired_frame w orders.deadlines
    rw [step, hframe] at h
    split at h
    · cases h
      exact hsame rfl trivial
    · cases h
      exact hsame rfl trivial
  | hasFlushableWork orders =>
    obtain ⟨m, hframe⟩ := evictExpired_frame w orders.deadlines
    rw [step, hframe] at h
    cases h
    exact hsame rfl trivial
  | requeue batch jitter =>
    rw [step] at h
    split at h
    · rcases Nat.lt_or_ge (w.queue.attempts batch.channelId) maxRetries with hretry | hexhausted
      · rw [EventQueue.requeue_of_retry hretry] at h
        cases h
        refine ⟨batch.cancelledEvents.map (Prod.mk batch.channelId), rfl, ?_⟩
        rw [List.map_eq_nil_iff]
        exact ⟨.inl, fun hk => hk.resolve_right (by omega)⟩
      · rw [EventQueue.requeue_of_exhausted hexhausted] at h
        cases h
        exact hsame rfl (.inr hexhausted)
    · cases h
  | requeuePreserveTimestamps batch =>
    rw [step] at h
    split at h
    · cases h
      exact ⟨batch.cancelledEvents.map (Prod.mk batch.channelId), rfl, List.map_eq_nil_iff⟩
    · cases h
  | finish batch | requeueAsCancelled batch reason | markComplete d how =>
    rw [step] at h
    split at h
    · cases h
      exact hsame rfl trivial
    · cases h
  | tick d | markNativeSteerPending d eventId | releaseNativeSteer d eventId
  | removeEvent d eventId | extendInFlightDeadline d n | drainChannel d | compactExpiredState =>
    cases h; exact hsame rfl trivial

/-- What was dropped stays dropped. -/
theorem dropped_run (h : dispatch.run w ops = some w') :
    w'.dropped = [] ↔ w.dropped = [] ∧ dispatch.Always KeepsCancelled w ops := by
  induction ops generalizing w with
  | nil =>
    cases h
    exact ⟨fun hd => ⟨hd, trivial⟩, And.left⟩
  | cons op ops ih =>
    obtain ⟨v, hstep, hrest⟩ := Machine.run_cons.mp h
    obtain ⟨l, hdrop, hkeeps⟩ := dropped_step hstep
    rw [ih hrest, hdrop, List.append_eq_nil_iff, hkeeps, Machine.always_cons_of_step hstep,
      and_assoc]

/-- **A run loses nothing exactly if no batch with cancelled events is requeued in it** as if it
had none. -/
theorem noneLost_iff (h : dispatch.run (init mode secs) ops = some w) :
    w.NoneLost ↔ dispatch.Always KeepsCancelled (init mode secs) ops := by
  rw [noneLost_iff_dropped (accounted_run h), dropped_run h]
  exact ⟨And.right, fun halways => ⟨rfl, halways⟩⟩

/-! ## A merged batch that finds no agent -/

def exampleChannel : Uuid := FixedBytes.ofNat 16 1

def exampleEvent (n : Nat) : QueuedEvent where
  channelId := exampleChannel
  event :=
    { id := FixedBytes.ofNat 32 n
      pubkey := FixedBytes.ofNat 32 0
      createdAt := n
      kind := 9
      tags := [] }
  receivedAt := n
  promptTag := "mention"

def exampleBatch (events cancelledEvents : List Nat) (reason : Option CancelReason) :
    FlushBatch where
  channelId := exampleChannel
  events := events.map fun n => (exampleEvent n).toBatchEvent
  cancelledEvents := cancelledEvents.map fun n => (exampleEvent n).toBatchEvent
  cancelReason := reason

/-- Any order would do: there is one channel. -/
noncomputable def exampleOrders : IterOrders where
  deadlines := HashOrder.any Uuid
  queues := HashOrder.any Uuid
  cancelled := HashOrder.any Uuid

/-- The turn of the first event was cancelled by a steer. -/
def exampleCancelled : World :=
  { init .queue 7200 with
    queue := { (init .queue 7200).queue with
      cancelledBatches := Finmap.singleton exampleChannel [(exampleEvent 1).toBatchEvent]
      cancelReasons := Finmap.singleton exampleChannel .steer }
    accepted := [exampleEvent 1] }

theorem exampleCancelled_run : dispatch.run (init .queue 7200)
    [.push (exampleEvent 1), .flushNext exampleOrders,
      .requeueAsCancelled (exampleBatch [1] [] none) .steer,
        .markComplete exampleChannel .cancelled]
    = some exampleCancelled := by
  refine Machine.run_cons.mpr ⟨_, rfl, ?_⟩
  refine Machine.run_cons.mpr ⟨_, step_flushNext_of_only (c := exampleChannel) ?_ ?_ ?_, ?_⟩
  · exact EventQueue.not_expired_of_empty rfl
  · decide
  · exact EventQueue.eq_of_flushable_of_singleton (l := [exampleEvent 1]) rfl
  · rfl

/-- A cancelled batch is kept. -/
theorem noneLost_iff_cancelled : exampleCancelled.NoneLost := by
  refine (noneLost_iff exampleCancelled_run).mpr ?_
  exact ⟨trivial, fun _ _ =>
    ⟨trivial, fun _ _ => ⟨trivial, fun _ _ => ⟨trivial, fun _ _ => trivial⟩⟩⟩⟩

/-- The merged batch goes back for want of an agent, and its first event is gone. -/
theorem not_noneLost : ¬ ∀ mode secs ops w, dispatch.run (init mode secs) ops = some w →
    w.NoneLost := by
  intro hall
  obtain ⟨w, hw, hdropped⟩ : ∃ w, dispatch.run exampleCancelled
      [.push (exampleEvent 2), .flushNext exampleOrders,
        .requeuePreserveTimestamps (exampleBatch [2] [1] (some .steer)),
        .markComplete exampleChannel .preserved] = some w ∧ w.dropped ≠ [] := by
    refine ⟨_, Machine.run_cons.mpr ⟨_, rfl, Machine.run_cons.mpr ⟨_,
      step_flushNext_of_only (c := exampleChannel) ?_ ?_ ?_, rfl⟩⟩, ?_⟩
    · exact EventQueue.not_expired_of_empty rfl
    · decide
    · exact EventQueue.eq_of_flushable_of_singleton (l := [exampleEvent 2]) rfl
    · exact List.cons_ne_nil _ _
  have hrun := Machine.run_append.mpr ⟨_, exampleCancelled_run, hw⟩
  exact hdropped ((noneLost_iff_dropped (accounted_run hrun)).mp (hall _ _ _ _ hrun))

end World

end Pkzz.Acp
