import Pkzz.Acp.Held

/-!
# What a step leaves alone

A step of the machine is one call of the queue and some bookkeeping. `step_frame` says so
for every call at once: what the queue becomes, what the clock does, and that the ghost
lists only grow. `step_open` says what happens to the batches that are outstanding and to
the channels whose `mark_complete` is due.
-/

namespace Pkzz.Acp

open Pkzz.Core Pkzz.Lib

/-- The queue after a call. -/
def EventQueue.call (q : EventQueue) (now : Instant) : Op → EventQueue
  | .tick _ => q
  | .push event => (q.push event).1
  | .flushNext orders => (q.flushNext orders now).1
  | .hasFlushableWork orders => (q.hasFlushableWork orders now).1
  | .finish _ => q
  | .requeue batch jitter => (q.requeue now jitter batch).1
  | .requeuePreserveTimestamps batch => q.requeuePreserveTimestamps batch
  | .requeueAsCancelled batch reason => q.requeueAsCancelled batch reason
  | .markComplete channelId _ => q.markComplete now channelId
  | .markNativeSteerPending channelId eventId => (q.markNativeSteerPending channelId eventId).1
  | .releaseNativeSteer channelId eventId => q.releaseNativeSteer channelId eventId
  | .removeEvent channelId eventId => q.removeEvent channelId eventId
  | .extendInFlightDeadline channelId maxTurnSecs =>
    q.extendInFlightDeadline now channelId maxTurnSecs
  | .drainChannel channelId => (q.drainChannel channelId).1
  | .compactExpiredState => q.compactExpiredState now

/-- How a call closes the turn of a batch. -/
def Op.closes : Op → Option (FlushBatch × Closing)
  | .finish batch => some (batch, .finished)
  | .requeue batch _ => some (batch, .requeued)
  | .requeuePreserveTimestamps batch => some (batch, .preserved)
  | .requeueAsCancelled batch _ => some (batch, .cancelled)
  | _ => none

namespace World

variable {w w' : World} {op : Op}

/-! ## Departures of expired channels -/

/-- Departures change nothing but the list of departures, which grows. -/
theorem foldl_evict_frame {f : Uuid → List QueuedEvent} : ∀ {l : List Uuid} {w : World},
    ∃ m, l.foldl (fun v d => v.evict d (f d)) w = { w with departed := w.departed ++ m }
  | [], w => ⟨[], by rw [List.append_nil]; rfl⟩
  | d :: l, w => by
    obtain ⟨m, h⟩ := @foldl_evict_frame f l (w.evict d (f d))
    refine ⟨((f d).map QueuedEvent.toBatchEvent).map (Departure.mk d .evicted) ++ m, ?_⟩
    rw [List.foldl_cons, h, ← List.append_assoc]
    rfl

theorem evictExpired_frame (w : World) (order : HashOrder Uuid) :
    ∃ m, w.evictExpired order = { w with departed := w.departed ++ m } :=
  foldl_evict_frame

theorem evictExpired_of_fresh (order : HashOrder Uuid) (h : ∀ id, ¬ w.queue.Expired w.now id) :
    w.evictExpired order = w := by
  unfold evictExpired
  rw [EventQueue.expiredChannels_of_fresh order h]
  rfl

/-- A flush with one channel to choose from. -/
theorem step_flushNext_of_only {orders : IterOrders} {c : Uuid}
    (hfresh : ∀ id, ¬ w.queue.Expired w.now id) (hc : w.queue.Flushable w.now c)
    (honly : ∀ id, w.queue.Flushable w.now id → id = c) :
    w.step (.flushNext orders) = some { w with
      queue := (w.queue.flushQueued w.now c).1
      outstanding := (w.queue.flushQueued w.now c).2 :: w.outstanding } := by
  rw [step, EventQueue.flushNext_of_only hfresh hc honly,
    evictExpired_of_fresh orders.deadlines hfresh]

/-! ## The frame of a step -/

structure StepFrame (w : World) (op : Op) (w' : World) : Prop where
  /-- The queue is what the call makes of it. -/
  queue : w'.queue = w.queue.call w.now op
  /-- Time does not go back. -/
  now : w.now ≤ w'.now
  accepted : ∃ l, w'.accepted = w.accepted ++ l
  departed : ∃ l, w'.departed = w.departed ++ l

theorem step_frame (h : w.step op = some w') : StepFrame w op w' := by
  have hlists : ∀ {v : World}, v.now = w.now → v.accepted = w.accepted →
      (∃ l, v.departed = w.departed ++ l) → v.queue = w.queue.call w.now op → StepFrame w op v := by
    intro v hnow haccepted hdeparted hqueue
    refine ⟨hqueue, ?_, ⟨[], ?_⟩, hdeparted⟩
    · rw [hnow]
    · rw [haccepted, List.append_nil]
  have hnil : ∃ l, w.departed = w.departed ++ l := ⟨[], (List.append_nil _).symm⟩
  cases op with
  | tick d =>
    cases h
    exact ⟨rfl, Nat.le_add_right _ _, ⟨[], (List.append_nil _).symm⟩, hnil⟩
  | push event =>
    cases hpush : w.queue.push event with
    | mk q ok =>
      have hq : q = w.queue.call w.now (.push event) := by
        rw [EventQueue.call, hpush]
      rw [step, hpush] at h
      cases ok with
      | false =>
        cases h
        exact hlists rfl rfl hnil hq
      | true =>
        cases h
        exact ⟨hq, Nat.le_refl _, ⟨[event], rfl⟩, ⟨_, rfl⟩⟩
  | flushNext orders =>
    obtain ⟨m, hframe⟩ := evictExpired_frame w orders.deadlines
    cases hflush : w.queue.flushNext orders w.now with
    | mk q handed =>
      have hq : q = w.queue.call w.now (.flushNext orders) := by
        rw [EventQueue.call, hflush]
      rw [step, hflush, hframe] at h
      cases handed with
      | none =>
        cases h
        exact hlists rfl rfl ⟨m, rfl⟩ hq
      | some batch =>
        cases h
        exact hlists rfl rfl ⟨m, rfl⟩ hq
  | hasFlushableWork orders =>
    obtain ⟨m, hframe⟩ := evictExpired_frame w orders.deadlines
    rw [step, hframe] at h
    cases h
    exact hlists rfl rfl ⟨m, rfl⟩ rfl
  | finish batch | requeuePreserveTimestamps batch =>
    rw [step] at h
    split at h
    · cases h
      exact hlists rfl rfl ⟨_, rfl⟩ rfl
    · cases h
  | requeue batch jitter =>
    rw [step] at h
    split at h
    · split at h
      · cases h
        exact hlists rfl rfl ⟨_, rfl⟩ rfl
      · cases h
        exact hlists rfl rfl ⟨_, rfl⟩ rfl
    · cases h
  | requeueAsCancelled batch reason | markComplete d how =>
    rw [step] at h
    split at h
    · cases h
      exact hlists rfl rfl hnil rfl
    · cases h
  | markNativeSteerPending d eventId | extendInFlightDeadline d secs | compactExpiredState =>
    cases h
    exact hlists rfl rfl hnil rfl
  | releaseNativeSteer d eventId | removeEvent d eventId | drainChannel d =>
    cases h
    exact hlists rfl rfl ⟨_, rfl⟩ rfl

/-- What a step does to the batches that are outstanding, and to the channels that are to be
marked complete. -/
theorem step_open (h : w.step op = some w') :
    (w'.outstanding = w.outstanding ∧ w'.closing = w.closing ∧ op.closes = none
        ∧ (∀ c how, op ≠ .markComplete c how)
        ∧ ∀ orders, op = .flushNext orders → (w.queue.flushNext orders w.now).2 = none)
      ∨ (∃ orders batch, op = .flushNext orders ∧ (w.queue.flushNext orders w.now).2 = some batch
        ∧ w'.outstanding = batch :: w.outstanding ∧ w'.closing = w.closing)
      ∨ (∃ batch how, op.closes = some (batch, how) ∧ batch ∈ w.outstanding
        ∧ w'.outstanding = w.outstanding.erase batch
        ∧ w'.closing = (batch.channelId, how) :: w.closing)
      ∨ ∃ c how, op = .markComplete c how ∧ (c, how) ∈ w.closing ∧ w'.outstanding = w.outstanding
        ∧ w'.closing = w.closing.erase (c, how) := by
  cases op with
  | push event =>
    rw [step] at h
    split at h
    · cases h
      exact .inl ⟨rfl, rfl, rfl, by simp, by simp⟩
    · cases h
      exact .inl ⟨rfl, rfl, rfl, by simp, by simp⟩
  | flushNext orders =>
    obtain ⟨m, hframe⟩ := evictExpired_frame w orders.deadlines
    cases hflush : w.queue.flushNext orders w.now with
    | mk q handed =>
      rw [step, hflush, hframe] at h
      cases handed with
      | none =>
        cases h
        refine .inl ⟨rfl, rfl, rfl, by simp, ?_⟩
        intro orders' horders
        cases horders
        rw [hflush]
      | some batch =>
        cases h
        exact .inr (.inl ⟨orders, batch, rfl, by rw [hflush], rfl, rfl⟩)
  | hasFlushableWork orders =>
    obtain ⟨m, hframe⟩ := evictExpired_frame w orders.deadlines
    rw [step, hframe] at h
    cases h
    exact .inl ⟨rfl, rfl, rfl, by simp, by simp⟩
  | finish batch | requeuePreserveTimestamps batch | requeueAsCancelled batch reason =>
    rw [step] at h
    split at h
    next hmem =>
      cases h
      exact .inr (.inr (.inl ⟨batch, _, rfl, hmem, rfl, rfl⟩))
    · cases h
  | requeue batch jitter =>
    rw [step] at h
    split at h
    next hmem =>
      refine .inr (.inr (.inl ⟨batch, _, rfl, hmem, ?_⟩))
      split at h
      · cases h
        exact ⟨rfl, rfl⟩
      · cases h
        exact ⟨rfl, rfl⟩
    · cases h
  | markComplete d how =>
    rw [step] at h
    split at h
    next hmem =>
      cases h
      exact .inr (.inr (.inr ⟨d, how, rfl, hmem, rfl, rfl⟩))
    · cases h
  | tick d | markNativeSteerPending d eventId | releaseNativeSteer d eventId
  | removeEvent d eventId | extendInFlightDeadline d n | drainChannel d | compactExpiredState =>
    cases h; exact .inl ⟨rfl, rfl, rfl, by simp, by simp⟩

end World

end Pkzz.Acp
