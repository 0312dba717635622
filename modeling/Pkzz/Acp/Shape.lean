import Pkzz.Acp.Frame

/-!
# The shape of the queue

What the maps of the queue look like between two calls: no entry is kept for an empty list, no queue
is over the cap, and the three maps about prompts in flight have the same channels.

It is the batches that make this an invariant of runs and not of single calls. An empty batch that
is requeued would leave an empty queue behind, so the batches that are outstanding are part of the
invariant.
-/

namespace Pkzz.Acp

open Pkzz.Core Pkzz.Lib

namespace EventQueue

variable {q q' : EventQueue} {now : Instant}

structure Shaped (q : EventQueue) : Prop where
  /-- No empty queue is kept, and none is over the cap. -/
  queues : Map.AllValues (fun l => l ≠ [] ∧ l.length ≤ maxPendingPerChannel) q.queues
  withheld : Map.AllValues (fun l => l ≠ []) q.withheldNativeSteer
  cancelled : Map.AllValues (fun l => l ≠ []) q.cancelledBatches
  /-- What is in flight has a deadline, and nothing else does. -/
  deadlines : ∀ c, c ∈ q.inFlightDeadlines ↔ c ∈ q.inFlightChannels
  batchSizes : ∀ c, c ∈ q.inFlightBatchSizes ↔ c ∈ q.inFlightChannels

theorem shaped_new (mode : DedupMode) (secs : Nat) :
    Shaped ((new mode).withInFlightDeadline secs) where
  queues := Map.allValues_empty
  withheld := Map.allValues_empty
  cancelled := Map.allValues_empty
  deadlines := fun c => iff_of_false (Finmap.notMem_empty) (Finset.notMem_empty c)
  batchSizes := fun c => iff_of_false (Finmap.notMem_empty) (Finset.notMem_empty c)

theorem Shaped.length_bucket (hq : q.Shaped) (c : Uuid) :
    (Map.bucket q.queues c).length ≤ maxPendingPerChannel := by
  have hle : Map.AllValues (fun l => l.length ≤ maxPendingPerChannel) q.queues := fun k l h =>
    (hq.queues k l h).2
  exact hle.bucket (Nat.zero_le _) c

/-- What the cap leaves of a list that is not empty. -/
theorem enforceCap_shaped {l : List QueuedEvent} (hl : l ≠ []) :
    enforceCap l ≠ [] ∧ (enforceCap l).length ≤ maxPendingPerChannel := by
  unfold enforceCap
  refine ⟨?_, by simp⟩
  intro hnil
  rcases List.take_eq_nil_iff.mp hnil with h | h
  · exact absurd h (by decide)
  · exact hl h

theorem shaped_push (hq : q.Shaped) (event : QueuedEvent) : (q.push event).1.Shaped := by
  unfold push
  split
  · exact hq
  refine ⟨hq.queues.insert _ ⟨by simp, ?_⟩, hq.withheld, hq.cancelled, hq.deadlines, hq.batchSizes⟩
  have hlen := hq.length_bucket event.channelId
  have hcap : 0 < maxPendingPerChannel := by decide
  split
  · simp only [List.length_append, List.length_tail, List.length_singleton]
    omega
  · simp only [List.length_append, List.length_singleton]
    omega

/-! ## Expiry -/

theorem shaped_recover (hq : q.Shaped) (c : Uuid) :
    (q.recoverWithheldForExpiredChannel c).Shaped := by
  unfold recoverWithheldForExpiredChannel
  cases hl : q.withheldNativeSteer.lookup c with
  | none => exact hq
  | some entries =>
    -- the recovered list is not empty because no empty one is withheld
    have hne : entries ++ Map.bucket q.queues c ≠
        [] := by simpa using fun h => absurd h (hq.withheld c entries hl)
    exact ⟨hq.queues.insert c (enforceCap_shaped hne), hq.withheld.erase c, hq.cancelled,
      hq.deadlines, hq.batchSizes⟩

/-- The three maps of the prompts in flight lose a channel together. -/
theorem Shaped.complete (hq : q.Shaped) (c : Uuid) : Shaped { q with
    inFlightBatchSizes := q.inFlightBatchSizes.erase c
    inFlightChannels := q.inFlightChannels.erase c
    inFlightDeadlines := q.inFlightDeadlines.erase c } where
  queues := hq.queues
  withheld := hq.withheld
  cancelled := hq.cancelled
  deadlines := by
    intro d
    rw [Finmap.mem_erase, Finset.mem_erase, hq.deadlines]
  batchSizes := by
    intro d
    rw [Finmap.mem_erase, Finset.mem_erase, hq.batchSizes]

theorem shaped_releaseExpired (hq : q.Shaped) (c : Uuid) : (q.releaseExpired c).Shaped :=
  shaped_recover (hq.complete c) c

theorem shaped_expireInFlight (hq : q.Shaped) (order : HashOrder Uuid) (now : Instant) :
    (q.expireInFlight order now).Shaped := by
  unfold expireInFlight
  induction q.expiredChannels order now generalizing q with
  | nil => exact hq
  | cons c l ih => exact ih (shaped_releaseExpired hq c)

/-! ## Flush -/

/-- The three maps of the prompts in flight get a channel together. -/
theorem Shaped.markInFlight (hq : q.Shaped) (c : Uuid) (size : Nat) :
    (q.markInFlight now c size).Shaped where
  queues := hq.queues
  withheld := hq.withheld
  cancelled := hq.cancelled
  deadlines := by
    intro d
    rw [EventQueue.markInFlight, Finmap.mem_insert, Finset.mem_insert, hq.deadlines]
  batchSizes := by
    intro d
    rw [EventQueue.markInFlight, Finmap.mem_insert, Finset.mem_insert, hq.batchSizes]

theorem Shaped.takeCancelled (hq : q.Shaped) (c : Uuid) : (q.takeCancelled c).Shaped :=
  ⟨hq.queues, hq.withheld, hq.cancelled.erase c, hq.deadlines, hq.batchSizes⟩

theorem shaped_flushQueued (hq : q.Shaped) (c : Uuid) : (q.flushQueued now c).1.Shaped := by
  have hdrained : Shaped { q with
      queues := Map.setBucket q.queues c
        ((Map.bucket q.queues c).drop (min maxBatchEvents (Map.bucket q.queues c).length)) } := by
    refine ⟨hq.queues.setBucket c fun hne => ⟨hne, ?_⟩, hq.withheld, hq.cancelled, hq.deadlines,
      hq.batchSizes⟩
    have hlen := hq.length_bucket c
    rw [List.length_drop]
    omega
  exact (hdrained.takeCancelled c).markInFlight c _

theorem shaped_flushCancelled (hq : q.Shaped) (c : Uuid) : (q.flushCancelled now c).1.Shaped :=
  (hq.takeCancelled c).markInFlight c _

theorem shaped_flushNext (hq : q.Shaped) (orders : IterOrders) :
    (q.flushNext orders now).1.Shaped := by
  have hexpired := shaped_expireInFlight hq orders.deadlines now
  rcases flushNext_cases q orders now with ⟨d, _, hflush⟩ | ⟨d, _, _, hflush⟩ | ⟨_, _, hflush⟩
  · rw [hflush]
    exact shaped_flushQueued hexpired d
  · rw [hflush]
    exact shaped_flushCancelled hexpired d
  · rw [hflush]
    exact hexpired

theorem sortByCreatedAt_perm (l : List BatchEvent) : (sortByCreatedAt l).Perm l :=
  List.perm_insertionSort _ l

/-- The batch of a channel with something queued is not empty. -/
theorem flushQueued_events_ne_nil {c : Uuid} (h : Map.bucket q.queues c ≠ []) :
    (q.flushQueued now c).2.events ≠ [] := by
  intro hnil
  have hlen := (sortByCreatedAt_perm
    (((Map.bucket q.queues c).take (min maxBatchEvents (Map.bucket q.queues c).length)).map
      QueuedEvent.toBatchEvent)).length_eq
  have hevents : sortByCreatedAt (((Map.bucket q.queues c).take
      (min maxBatchEvents (Map.bucket q.queues c).length)).map QueuedEvent.toBatchEvent) = [] :=
        hnil
  have hpos := List.length_pos_iff.mpr h
  have hmax : 0 < maxBatchEvents := by decide
  rw [hevents] at hlen
  simp only [List.length_nil, List.length_map, List.length_take] at hlen
  omega

theorem mem_of_nextCancelled {order : HashOrder Uuid} {c : Uuid}
    (h : q.nextCancelled order = some c) : c ∈ q.cancelledBatches :=
  (order.mem_keys _ c).mp (List.mem_of_find?_eq_some h)

variable {batch : FlushBatch}

/-- **A batch is not empty.** -/
theorem events_ne_nil_of_flushNext (hq : q.Shaped) {orders : IterOrders}
    (h : q.flushNext orders now = (q', some batch)) : batch.events ≠ [] := by
  have hexpired := shaped_expireInFlight hq orders.deadlines now
  rcases flushNext_cases q orders now with ⟨d, hnext, hflush⟩ | ⟨d, _, hnext, hflush⟩ |
    ⟨_, _, hflush⟩
  · rw [hflush] at h
    rw [← Option.some.inj (Prod.mk.inj h).2]
    exact flushQueued_events_ne_nil (flushable_of_nextQueued hnext).1
  · rw [hflush] at h
    rw [← Option.some.inj (Prod.mk.inj h).2]
    exact (Map.mem_iff_bucket_ne_nil hexpired.cancelled d).mp (mem_of_nextCancelled hnext)
  · rw [hflush] at h
    cases (Prod.mk.inj h).2

/-! ## The other calls -/

theorem shaped_pushFront (hq : q.Shaped) (hbatch : batch.events ≠ []) :
    (q.pushFront batch).Shaped := by
  have hne : batch.events.map (BatchEvent.toQueuedEvent batch.channelId) ++
      Map.bucket q.queues batch.channelId ≠ [] := by
    simpa using fun h => absurd h hbatch
  exact ⟨hq.queues.insert _ (enforceCap_shaped hne), hq.withheld, hq.cancelled, hq.deadlines,
    hq.batchSizes⟩

theorem shaped_requeue (hq : q.Shaped) (hbatch : batch.events ≠ []) (jitter : Nat → Duration) :
    (q.requeue now jitter batch).1.Shaped := by
  rcases Nat.lt_or_ge (q.attempts batch.channelId) maxRetries with h | h
  · rw [requeue_of_retry h]
    obtain ⟨hqueues, hwithheld, hcancelled, hdeadlines, hsizes⟩ := shaped_pushFront hq hbatch
    exact ⟨hqueues, hwithheld, hcancelled, hdeadlines, hsizes⟩
  · rw [requeue_of_exhausted h]
    exact ⟨hq.queues, hq.withheld, hq.cancelled, hq.deadlines, hq.batchSizes⟩

theorem shaped_requeueAsCancelled (hq : q.Shaped) (hbatch : batch.events ≠ [])
    (reason : CancelReason) : (q.requeueAsCancelled batch reason).Shaped :=
  ⟨hq.queues, hq.withheld, hq.cancelled.insert _ (by simpa using fun _ _ => hbatch), hq.deadlines,
    hq.batchSizes⟩

theorem shaped_markComplete (hq : q.Shaped) (c : Uuid) : (q.markComplete now c).Shaped := by
  obtain ⟨counts, after, h⟩ := @markComplete_frame q now c
  obtain ⟨hqueues, hwithheld, hcancelled, hdeadlines, hsizes⟩ := hq.complete c
  rw [h]
  exact ⟨hqueues, hwithheld, hcancelled, hdeadlines, hsizes⟩

theorem shaped_markNativeSteerPending (hq : q.Shaped) (c : Uuid) (eventId : String) :
    (q.markNativeSteerPending c eventId).1.Shaped := by
  cases hfind : (Map.bucket q.queues c).find? (QueuedEvent.hasId eventId) with
  | none =>
    rw [markNativeSteerPending_of_none hfind]
    exact hq
  | some qe =>
    rw [markNativeSteerPending_of_some hfind]
    refine ⟨hq.queues.setBucket c fun hne => ⟨hne, ?_⟩, hq.withheld.insert c (by simp),
      hq.cancelled, hq.deadlines, hq.batchSizes⟩
    exact Nat.le_trans List.length_eraseP_le (hq.length_bucket c)

theorem shaped_releaseNativeSteer (hq : q.Shaped) (c : Uuid) (eventId : String) :
    (q.releaseNativeSteer c eventId).Shaped := by
  cases hfind : (Map.bucket q.withheldNativeSteer c).find? (QueuedEvent.hasId eventId) with
  | none =>
    rw [releaseNativeSteer_of_none hfind]
    exact hq
  | some qe =>
    rw [releaseNativeSteer_of_some hfind]
    exact ⟨hq.queues.insert c (enforceCap_shaped (List.cons_ne_nil _ _)),
      hq.withheld.setBucket c id, hq.cancelled, hq.deadlines, hq.batchSizes⟩

theorem shaped_removeEvent (hq : q.Shaped) (c : Uuid) (eventId : String) :
    (q.removeEvent c eventId).Shaped := by
  refine ⟨hq.queues.retain c _ ?_, hq.withheld.retain c _ (fun _ _ h => h), hq.cancelled,
    hq.deadlines, hq.batchSizes⟩
  intro l hl hne
  exact ⟨hne, Nat.le_trans (List.length_filter_le _ _) hl.2⟩

theorem shaped_drainChannel (hq : q.Shaped) (c : Uuid) : (q.drainChannel c).1.Shaped :=
  ⟨hq.queues.erase c, hq.withheld.erase c, hq.cancelled.erase c, hq.deadlines, hq.batchSizes⟩

/-- Only a deadline that is there is extended. -/
theorem shaped_extendInFlightDeadline (hq : q.Shaped) (c : Uuid) (secs : Nat) :
    (q.extendInFlightDeadline now c secs).Shaped := by
  unfold extendInFlightDeadline
  cases hl : q.inFlightDeadlines.lookup c with
  | none => exact hq
  | some current =>
    dsimp only
    split
    · refine ⟨hq.queues, hq.withheld, hq.cancelled, ?_, hq.batchSizes⟩
      intro d
      rw [Finmap.mem_insert, hq.deadlines]
      constructor
      · rintro (hd | hd)
        · rw [hd]
          exact (hq.deadlines c).mp (Finmap.mem_of_lookup_eq_some hl)
        · exact hd
      · exact .inr
    · exact hq

/-- **Every call keeps the shape**, if the batches that come back are not empty. -/
theorem shaped_call (hq : q.Shaped) {op : Op}
    (hbatch : ∀ batch how, op.closes = some (batch, how) → batch.events ≠ []) :
    (q.call now op).Shaped := by
  cases op with
  | tick d => exact hq
  | push event => exact shaped_push hq event
  | flushNext orders => exact shaped_flushNext hq orders
  | hasFlushableWork orders => exact shaped_expireInFlight hq orders.deadlines now
  | finish batch => exact hq
  | requeue batch jitter => exact shaped_requeue hq (hbatch batch _ rfl) jitter
  | requeuePreserveTimestamps batch => exact shaped_pushFront hq (hbatch batch _ rfl)
  | requeueAsCancelled batch reason =>
      exact shaped_requeueAsCancelled hq (hbatch batch _ rfl) reason
  | markComplete c how => exact shaped_markComplete hq c
  | markNativeSteerPending c eventId => exact shaped_markNativeSteerPending hq c eventId
  | releaseNativeSteer c eventId => exact shaped_releaseNativeSteer hq c eventId
  | removeEvent c eventId => exact shaped_removeEvent hq c eventId
  | extendInFlightDeadline c secs => exact shaped_extendInFlightDeadline hq c secs
  | drainChannel c => exact shaped_drainChannel hq c
  | compactExpiredState => exact ⟨hq.queues, hq.withheld, hq.cancelled, hq.deadlines, hq.batchSizes⟩

end EventQueue

namespace World

variable {w w' : World} {op : Op} {mode : DedupMode} {secs : Nat} {ops : List Op}

structure Shape (w : World) : Prop where
  queue : w.queue.Shaped
  /-- What is handed out has events. -/
  outstanding : ∀ batch ∈ w.outstanding, batch.events ≠ []

theorem shape_init : Shape (init mode secs) where
  queue := EventQueue.shaped_new mode secs
  outstanding := by
    intro batch hbatch
    cases hbatch

theorem shape_step (hw : w.Shape) (h : w.step op = some w') : w'.Shape := by
  have hqueue := (step_frame h).queue
  rcases step_open h with ⟨hout, _, hcloses, _, _⟩ | ⟨orders, batch, hop, hbatch, hout, _⟩
    | ⟨batch, how, hcloses, hmem, hout, _⟩ | ⟨c, how, hop, _, hout, _⟩
  · refine ⟨?_, ?_⟩
    · rw [hqueue]
      refine EventQueue.shaped_call hw.queue ?_
      intro batch how hclosed
      rw [hcloses] at hclosed
      cases hclosed
    · rw [hout]
      exact hw.outstanding
  · subst hop
    refine ⟨?_, ?_⟩
    · rw [hqueue]
      exact EventQueue.shaped_flushNext hw.queue orders
    · -- the new batch comes from a queue or a list of cancelled events that is not empty
      rw [hout]
      intro b hb
      rcases List.mem_cons.mp hb with hb | hb
      · rw [hb]
        exact EventQueue.events_ne_nil_of_flushNext hw.queue
          (Prod.ext rfl hbatch : w.queue.flushNext orders w.now = (_, some batch))
      · exact hw.outstanding b hb
  · refine ⟨?_, ?_⟩
    · rw [hqueue]
      refine EventQueue.shaped_call hw.queue ?_
      intro b how' hclosed
      rw [hcloses] at hclosed
      cases hclosed
      exact hw.outstanding batch hmem
    · rw [hout]
      intro b hb
      exact hw.outstanding b (List.mem_of_mem_erase hb)
  · subst hop
    refine ⟨?_, ?_⟩
    · rw [hqueue]
      exact EventQueue.shaped_markComplete hw.queue c
    · rw [hout]
      exact hw.outstanding

theorem shape_run (h : dispatch.run (init mode secs) ops = some w) : w.Shape :=
  Machine.invariant (fun _ _ _ hs _ hstep => shape_step hs hstep) shape_init Machine.always_true h

end World

end Pkzz.Acp
