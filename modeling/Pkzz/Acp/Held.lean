import Pkzz.Acp.Dispatch

/-!
# What each call does to what a channel holds

One lemma for each call of the queue. It compares what a channel holds before and after
the call, together with what the call took in, handed out or pushed out for that channel,
as lists up to order. So an event that moves from one container of a channel to another
does not show, and nothing else can move.
-/

namespace Pkzz.Acp

open Pkzz.Core Pkzz.Lib

/-- What happens at channel `d`, seen from channel `c`. -/
def atChannel {α : Type} (c d : Uuid) (l : List α) : List α := if d = c then l else []

@[simp] theorem atChannel_self {α : Type} (c : Uuid) (l : List α) :
    atChannel c c l = l := if_pos rfl

theorem atChannel_ne {α : Type} {c d : Uuid} (h : c ≠ d) (l : List α) : atChannel c d l = [] :=
  if_neg (Ne.symm h)

/-- Seen from another channel, nothing happens. -/
theorem perm_atChannel {α : Type} {c d : Uuid} {l m s t : List α} (hframe : c ≠ d → l = m)
    (hself : c = d → (l ++ s).Perm (m ++ t)) :
    (l ++ atChannel c d s).Perm (m ++ atChannel c d t) := by
  by_cases h : c = d
  · have hperm := hself h
    subst h
    simpa using hperm
  · rw [hframe h, atChannel_ne h, atChannel_ne h]

theorem map_toQueuedEvent (c : Uuid) (l : List BatchEvent) :
    (l.map (BatchEvent.toQueuedEvent c)).map QueuedEvent.toBatchEvent = l := by
  rw [List.map_map]
  exact List.map_id l

namespace EventQueue

variable {q q' : EventQueue} {now : Instant}

/-- A channel whose three containers did not change. -/
theorem heldAt_congr {c : Uuid} (hq : Map.bucket q'.queues c = Map.bucket q.queues c)
    (hw : Map.bucket q'.withheldNativeSteer c = Map.bucket q.withheldNativeSteer c)
    (hc : Map.bucket q'.cancelledBatches c = Map.bucket q.cancelledBatches c) :
    q'.heldAt c = q.heldAt c := by
  unfold heldAt queuedAt withheldAt cancelledAt
  rw [hq, hw, hc]

/-- The cap keeps the front of the list and pushes out its back. -/
theorem enforceCap_perm (l : List QueuedEvent) :
    ((enforceCap l).map QueuedEvent.toBatchEvent
      ++ (l.drop maxPendingPerChannel).map QueuedEvent.toBatchEvent).Perm
      (l.map QueuedEvent.toBatchEvent) := by
  unfold enforceCap
  rw [← List.map_append, List.take_append_drop]

theorem heldAt_push {event : QueuedEvent} (h : q.push event = (q', true)) (c : Uuid) :
    (q'.heldAt c ++ atChannel c event.channelId
        ((q.pushEvicts event).map QueuedEvent.toBatchEvent)).Perm
      (q.heldAt c ++ atChannel c event.channelId [event.toBatchEvent]) := by
  unfold push at h
  split at h
  · cases h
  have hq := (Prod.mk.inj h).1
  refine perm_atChannel ?_ ?_
  · intro hne
    rw [← hq]
    refine heldAt_congr ?_ rfl rfl
    rw [Map.bucket_insert, if_neg hne]
  · intro hself
    subst hself
    rw [← hq]
    refine List.perm_iff_count.mpr ?_
    intro x
    unfold heldAt queuedAt withheldAt cancelledAt pushEvicts
    simp only [Map.bucket_insert, if_pos, List.count_append, List.map_append, List.map_cons,
      List.map_nil]
    by_cases hcap : (Map.bucket q.queues event.channelId).length ≥ maxPendingPerChannel
    · -- the oldest event makes room
      rw [if_pos hcap, if_pos hcap]
      cases hl : Map.bucket q.queues event.channelId with
      | nil =>
        rw [hl] at hcap
        exact absurd hcap (by decide)
      | cons a l =>
        simp only [List.tail_cons, List.take_succ_cons, List.take_zero, List.map_cons, List.map_nil,
          List.count_cons, List.count_nil]
        omega
    · rw [if_neg hcap, if_neg hcap]
      simp only [List.map_nil, List.count_nil]
      omega

theorem heldAt_pushFront (batch : FlushBatch) (c : Uuid) :
    ((q.pushFront batch).heldAt c ++ atChannel c batch.channelId
        ((q.pushFrontEvicts batch).map QueuedEvent.toBatchEvent)).Perm
      (q.heldAt c ++ atChannel c batch.channelId batch.events) := by
  unfold pushFront
  refine perm_atChannel ?_ ?_
  · intro hne
    refine heldAt_congr ?_ rfl rfl
    rw [Map.bucket_insert, if_neg hne]
  · intro hself
    subst hself
    refine List.perm_iff_count.mpr ?_
    intro x
    have hcap := (enforceCap_perm (batch.events.map (BatchEvent.toQueuedEvent batch.channelId)
      ++ Map.bucket q.queues batch.channelId)).count_eq x
    unfold heldAt queuedAt withheldAt cancelledAt pushFrontEvicts
    simp only [List.map_append, map_toQueuedEvent, Map.bucket_insert, if_pos, List.count_append]
      at hcap ⊢
    omega

theorem heldAt_requeueAsCancelled (batch : FlushBatch) (reason : CancelReason) (c : Uuid) :
    ((q.requeueAsCancelled batch reason).heldAt c).Perm
      (q.heldAt c ++ atChannel c batch.channelId batch.requests) := by
  unfold requeueAsCancelled
  by_cases hc : c = batch.channelId
  · subst hc
    refine List.perm_iff_count.mpr ?_
    intro x
    unfold heldAt queuedAt withheldAt cancelledAt FlushBatch.requests
    simp only [atChannel_self, Map.bucket_insert, if_pos, List.count_append]
    omega
  · rw [atChannel_ne hc, List.append_nil]
    refine List.Perm.of_eq (heldAt_congr rfl rfl ?_)
    rw [Map.bucket_insert, if_neg hc]

/-! ## Native steers -/

/-- The event that is found is the one that is erased. -/
theorem perm_cons_eraseP {l : List QueuedEvent} {p : QueuedEvent → Bool} {qe : QueuedEvent}
    (h : l.find? p = some qe) : l.Perm (qe :: l.eraseP p) := by
  obtain ⟨hp, as, bs, hl, has⟩ := List.find?_eq_some_iff_append.mp h
  have hnot : ∀ a ∈ as, ¬ p a = true := by
    intro a ha
    have hna := has a ha
    simpa using hna
  rw [hl, List.eraseP_append_right _ hnot, List.eraseP_cons_of_pos hp]
  exact List.perm_middle

variable {eventId : String}

theorem markNativeSteerPending_of_none {d : Uuid}
    (h : (Map.bucket q.queues d).find? (QueuedEvent.hasId eventId) = none) :
    q.markNativeSteerPending d eventId = (q, false) := by
  unfold markNativeSteerPending
  dsimp only
  rw [h]

theorem markNativeSteerPending_of_some {d : Uuid} {qe : QueuedEvent}
    (h : (Map.bucket q.queues d).find? (QueuedEvent.hasId eventId) = some qe) :
    q.markNativeSteerPending d eventId
      = ({ q with
            queues := Map.setBucket q.queues d
              ((Map.bucket q.queues d).eraseP (QueuedEvent.hasId eventId))
            withheldNativeSteer := Map.pushBack q.withheldNativeSteer d qe },
          true) := by
  unfold markNativeSteerPending
  dsimp only
  rw [h]

theorem heldAt_markNativeSteerPending (d : Uuid) (eventId : String) (c : Uuid) :
    ((q.markNativeSteerPending d eventId).1.heldAt c).Perm (q.heldAt c) := by
  cases hfind : (Map.bucket q.queues d).find? (QueuedEvent.hasId eventId) with
  | none => rw [markNativeSteerPending_of_none hfind]
  | some qe =>
    rw [markNativeSteerPending_of_some hfind]
    by_cases hc : c = d
    · subst hc
      refine List.perm_iff_count.mpr ?_
      intro x
      have hperm := ((perm_cons_eraseP hfind).map QueuedEvent.toBatchEvent).count_eq x
      unfold heldAt queuedAt withheldAt cancelledAt
      simp only [Map.bucket_setBucket, Map.bucket_pushBack, if_pos, List.map_append, List.map_cons,
        List.map_nil, List.count_append, List.count_cons, List.count_nil] at hperm ⊢
      omega
    · refine List.Perm.of_eq (heldAt_congr ?_ ?_ rfl)
      · rw [Map.bucket_setBucket, if_neg hc]
      · rw [Map.bucket_pushBack, if_neg hc]

theorem releaseNativeSteer_of_none {d : Uuid}
    (h : (Map.bucket q.withheldNativeSteer d).find? (QueuedEvent.hasId eventId) = none) :
    q.releaseNativeSteer d eventId = q := by
  unfold releaseNativeSteer
  dsimp only
  rw [h]

theorem releaseNativeSteer_of_some {d : Uuid} {qe : QueuedEvent}
    (h : (Map.bucket q.withheldNativeSteer d).find? (QueuedEvent.hasId eventId) = some qe) :
    q.releaseNativeSteer d eventId
      = { q with
          withheldNativeSteer := Map.setBucket q.withheldNativeSteer d
            ((Map.bucket q.withheldNativeSteer d).eraseP (QueuedEvent.hasId eventId))
          queues := q.queues.insert d (enforceCap (qe :: Map.bucket q.queues d)) } := by
  unfold releaseNativeSteer
  dsimp only
  rw [h]

theorem heldAt_releaseNativeSteer (d : Uuid) (eventId : String) (c : Uuid) :
    ((q.releaseNativeSteer d eventId).heldAt c
        ++ atChannel c d ((q.releaseEvicts d eventId).map QueuedEvent.toBatchEvent)).Perm
      (q.heldAt c) := by
  unfold releaseEvicts
  cases hfind : (Map.bucket q.withheldNativeSteer d).find? (QueuedEvent.hasId eventId) with
  | none =>
    rw [releaseNativeSteer_of_none hfind]
    unfold atChannel
    simp
  | some qe =>
    rw [releaseNativeSteer_of_some hfind]
    by_cases hc : c = d
    · subst hc
      refine List.perm_iff_count.mpr ?_
      intro x
      have hperm := ((perm_cons_eraseP hfind).map QueuedEvent.toBatchEvent).count_eq x
      have hcap := (enforceCap_perm (qe :: Map.bucket q.queues c)).count_eq x
      unfold heldAt queuedAt withheldAt cancelledAt
      simp only [atChannel_self, Map.bucket_setBucket, Map.bucket_insert, if_pos, List.map_cons,
        List.count_append, List.count_cons] at hperm hcap ⊢
      omega
    · rw [atChannel_ne hc, List.append_nil]
      refine List.Perm.of_eq (heldAt_congr ?_ ?_ rfl)
      · rw [Map.bucket_insert, if_neg hc]
      · rw [Map.bucket_setBucket, if_neg hc]

theorem heldAt_removeEvent (d : Uuid) (eventId : String) (c : Uuid) :
    ((q.removeEvent d eventId).heldAt c ++ atChannel c d
        ((removed eventId (Map.bucket q.withheldNativeSteer d)
          ++ removed eventId (Map.bucket q.queues d)).map QueuedEvent.toBatchEvent)).Perm
      (q.heldAt c) := by
  have hsplit : ∀ (l : List QueuedEvent) (x : BatchEvent),
      ((removed eventId l).map QueuedEvent.toBatchEvent).count x
        + ((l.filter fun qe => !QueuedEvent.hasId eventId qe).map QueuedEvent.toBatchEvent).count x
        = (l.map QueuedEvent.toBatchEvent).count x := by
    intro l x
    have hperm := (List.filter_append_perm (QueuedEvent.hasId eventId) l).map
        QueuedEvent.toBatchEvent
    have hcount := hperm.count_eq x
    rw [List.map_append, List.count_append] at hcount
    exact hcount
  unfold removeEvent
  by_cases hc : c = d
  · subst hc
    refine List.perm_iff_count.mpr ?_
    intro x
    have hwithheld := hsplit (Map.bucket q.withheldNativeSteer c) x
    have hqueued := hsplit (Map.bucket q.queues c) x
    unfold heldAt queuedAt withheldAt cancelledAt
    simp only [atChannel_self, Map.bucket_retain, if_pos, List.map_append, List.count_append]
    omega
  · rw [atChannel_ne hc, List.append_nil]
    refine List.Perm.of_eq (heldAt_congr ?_ ?_ rfl)
    · rw [Map.bucket_retain, if_neg hc]
    · rw [Map.bucket_retain, if_neg hc]

theorem heldAt_drainChannel (d : Uuid) (c : Uuid) :
    ((q.drainChannel d).1.heldAt c ++ atChannel c d (q.heldAt d)).Perm (q.heldAt c) := by
  unfold drainChannel
  by_cases hc : c = d
  · subst hc
    have hnone : heldAt { q with
        queues := q.queues.erase c
        retryAfter := q.retryAfter.erase c
        retryCounts := q.retryCounts.erase c
        cancelledBatches := q.cancelledBatches.erase c
        cancelReasons := q.cancelReasons.erase c
        withheldNativeSteer := q.withheldNativeSteer.erase c } c = [] := by
      unfold heldAt queuedAt withheldAt cancelledAt
      simp only [Map.bucket_erase, if_pos, List.map_nil, List.append_nil]
    rw [hnone, atChannel_self, List.nil_append]
  · rw [atChannel_ne hc, List.append_nil]
    refine List.Perm.of_eq (heldAt_congr ?_ ?_ ?_)
    · rw [Map.bucket_erase, if_neg hc]
    · rw [Map.bucket_erase, if_neg hc]
    · rw [Map.bucket_erase, if_neg hc]

/-! ## Expiry and flush -/

theorem heldAt_recoverWithheld (d : Uuid) (c : Uuid) :
    ((q.recoverWithheldForExpiredChannel d).heldAt c
        ++ atChannel c d ((q.recoveryEvicts d).map QueuedEvent.toBatchEvent)).Perm
          (q.heldAt c) := by
  unfold recoverWithheldForExpiredChannel recoveryEvicts
  cases hl : q.withheldNativeSteer.lookup d with
  | none =>
    unfold atChannel
    simp
  | some entries =>
    dsimp only
    by_cases hc : c = d
    · subst hc
      have hb : Map.bucket q.withheldNativeSteer c = entries := by
        unfold Map.bucket
        rw [hl]
        rfl
      refine List.perm_iff_count.mpr ?_
      intro x
      have hcap := (enforceCap_perm (entries ++ Map.bucket q.queues c)).count_eq x
      unfold heldAt queuedAt withheldAt cancelledAt
      simp only [atChannel_self, Map.bucket_erase, Map.bucket_insert, if_pos, List.map_append,
        List.count_append, List.map_nil, List.count_nil, hb] at hcap ⊢
      omega
    · rw [atChannel_ne hc, List.append_nil]
      refine List.Perm.of_eq (heldAt_congr ?_ ?_ rfl)
      · rw [Map.bucket_insert, if_neg hc]
      · rw [Map.bucket_erase, if_neg hc]

theorem heldAt_releaseExpired (d : Uuid) (c : Uuid) :
    ((q.releaseExpired d).heldAt c
        ++ atChannel c d ((q.recoveryEvicts d).map QueuedEvent.toBatchEvent)).Perm (q.heldAt c) :=
  @heldAt_recoverWithheld { q with
    inFlightBatchSizes := q.inFlightBatchSizes.erase d
    inFlightChannels := q.inFlightChannels.erase d
    inFlightDeadlines := q.inFlightDeadlines.erase d } d c

/-- The expiry of one channel does not touch another one. -/
theorem releaseExpired_frame {c d : Uuid} (h : c ≠ d) :
    Map.bucket (q.releaseExpired d).queues c = Map.bucket q.queues c
      ∧ (q.releaseExpired d).withheldNativeSteer.lookup c = q.withheldNativeSteer.lookup c := by
  unfold releaseExpired recoverWithheldForExpiredChannel
  dsimp only
  cases hl : q.withheldNativeSteer.lookup d with
  | none => exact ⟨rfl, rfl⟩
  | some entries =>
    refine ⟨?_, ?_⟩
    · exact (Map.bucket_insert _ _ _ _).trans (if_neg h)
    · exact (Map.lookup_erase_eq _ _ _).trans (if_neg h)

theorem recoveryEvicts_releaseExpired {c d : Uuid} (h : c ≠ d) :
    (q.releaseExpired d).recoveryEvicts c = q.recoveryEvicts c := by
  obtain ⟨hqueue, hwithheld⟩ := @releaseExpired_frame q c d h
  unfold recoveryEvicts
  rw [hqueue, hwithheld]

theorem heldAt_foldl_releaseExpired {c : Uuid} : ∀ {l : List Uuid} {q : EventQueue}, l.Nodup →
    ((l.foldl releaseExpired q).heldAt c
        ++ if c ∈ l then (q.recoveryEvicts c).map QueuedEvent.toBatchEvent
          else []).Perm (q.heldAt c)
  | [], q, _ => by simp
  | d :: l, q, hnd => by
    obtain ⟨hd, hl⟩ := List.nodup_cons.mp hnd
    have ih := @heldAt_foldl_releaseExpired c l (q.releaseExpired d) hl
    have hone := @heldAt_releaseExpired q d c
    rw [List.foldl_cons]
    by_cases hc : c = d
    · subst hc
      rw [if_neg hd, List.append_nil] at ih
      rw [atChannel_self] at hone
      rw [if_pos List.mem_cons_self]
      exact (ih.append_right _).trans hone
    · rw [atChannel_ne hc, List.append_nil] at hone
      rw [recoveryEvicts_releaseExpired hc] at ih
      have hmem : (c ∈ d :: l) ↔ c ∈ l := by
        rw [List.mem_cons]
        exact or_iff_right hc
      simp only [hmem]
      exact ih.trans hone

theorem nodup_expiredChannels (q : EventQueue) (order : HashOrder Uuid) (now : Instant) :
    (q.expiredChannels order now).Nodup :=
  (order.nodup_keys _).filter _

theorem heldAt_expireInFlight (order : HashOrder Uuid) (c : Uuid) :
    ((q.expireInFlight order now).heldAt c ++ if c ∈ q.expiredChannels order now then
        (q.recoveryEvicts c).map QueuedEvent.toBatchEvent else []).Perm (q.heldAt c) :=
  heldAt_foldl_releaseExpired (q.nodup_expiredChannels order now)

theorem heldAt_flushQueued (d : Uuid) (c : Uuid) :
    ((q.flushQueued now d).1.heldAt c ++ atChannel c d (q.flushQueued now d).2.requests).Perm
      (q.heldAt c) := by
  unfold flushQueued takeCancelled markInFlight
  dsimp only
  by_cases hc : c = d
  · subst hc
    refine List.perm_iff_count.mpr ?_
    intro x
    have hsort := (List.perm_insertionSort (fun a b : BatchEvent =>
      a.event.createdAt ≤ b.event.createdAt)
      (((Map.bucket q.queues c).take (min maxBatchEvents (Map.bucket q.queues c).length)).map
        QueuedEvent.toBatchEvent)).count_eq x
    have htake := congrArg (fun l => (l.map QueuedEvent.toBatchEvent).count x)
      (List.take_append_drop (min maxBatchEvents (Map.bucket q.queues c).length)
        (Map.bucket q.queues c))
    unfold heldAt queuedAt withheldAt cancelledAt FlushBatch.requests sortByCreatedAt
    simp only [atChannel_self, Map.bucket_setBucket, Map.bucket_erase, if_pos, List.map_append,
      List.count_append, List.count_nil] at hsort htake ⊢
    omega
  · rw [atChannel_ne hc, List.append_nil]
    refine List.Perm.of_eq (heldAt_congr ?_ rfl ?_)
    · rw [Map.bucket_setBucket, if_neg hc]
    · rw [Map.bucket_erase, if_neg hc]

theorem heldAt_flushCancelled (d : Uuid) (c : Uuid) :
    ((q.flushCancelled now d).1.heldAt c ++ atChannel c d (q.flushCancelled now d).2.requests).Perm
      (q.heldAt c) := by
  unfold flushCancelled takeCancelled markInFlight
  dsimp only
  by_cases hc : c = d
  · subst hc
    unfold heldAt queuedAt withheldAt cancelledAt FlushBatch.requests
    simp only [atChannel_self, Map.bucket_erase, if_pos, List.append_nil, List.append_assoc]
    exact List.Perm.refl _
  · rw [atChannel_ne hc, List.append_nil]
    refine List.Perm.of_eq (heldAt_congr rfl rfl ?_)
    rw [Map.bucket_erase, if_neg hc]

/-- What `flush_next` can do after the expired channels were released. -/
theorem flushNext_cases (q : EventQueue) (orders : IterOrders) (now : Instant) :
    (∃ d, (q.expireInFlight orders.deadlines now).nextQueued orders.queues now = some d
        ∧ q.flushNext orders now = (((q.expireInFlight orders.deadlines now).flushQueued now d).1,
            some ((q.expireInFlight orders.deadlines now).flushQueued now d).2))
      ∨ (∃ d, (q.expireInFlight orders.deadlines now).nextQueued orders.queues now = none
        ∧ (q.expireInFlight orders.deadlines now).nextCancelled orders.cancelled = some d
        ∧ q.flushNext orders now =
          (((q.expireInFlight orders.deadlines now).flushCancelled now d).1,
            some ((q.expireInFlight orders.deadlines now).flushCancelled now d).2))
      ∨ ((q.expireInFlight orders.deadlines now).nextQueued orders.queues now = none
        ∧ (q.expireInFlight orders.deadlines now).nextCancelled orders.cancelled = none
        ∧ q.flushNext orders now = (q.expireInFlight orders.deadlines now, none)) := by
  unfold flushNext
  dsimp only
  cases hq : (q.expireInFlight orders.deadlines now).nextQueued orders.queues now with
  | some d => exact .inl ⟨d, rfl, rfl⟩
  | none =>
    refine .inr ?_
    cases hc : (q.expireInFlight orders.deadlines now).nextCancelled orders.cancelled with
    | some d => exact .inl ⟨d, rfl, rfl, rfl⟩
    | none => exact .inr ⟨rfl, rfl, rfl⟩

theorem flushable_of_nextQueued {order : HashOrder Uuid} {d : Uuid}
    (h : q.nextQueued order now = some d) : q.Flushable now d := by
  have hmem := List.argmin_mem h
  exact of_decide_eq_true (List.mem_filter.mp hmem).2

theorem not_inFlight_of_nextCancelled {order : HashOrder Uuid} {d : Uuid}
    (h : q.nextCancelled order = some d) : d ∉ q.inFlightChannels := by
  have hfind := List.find?_some h
  exact of_decide_eq_true hfind

theorem expiredChannels_of_fresh (order : HashOrder Uuid) (h : ∀ id, ¬ q.Expired now id) :
    q.expiredChannels order now = [] := by
  refine List.filter_eq_nil_iff.mpr ?_
  intro id _
  simpa using h id

theorem expireInFlight_of_fresh (order : HashOrder Uuid) (h : ∀ id, ¬ q.Expired now id) :
    q.expireInFlight order now = q := by
  unfold expireInFlight
  rw [expiredChannels_of_fresh order h]
  rfl

theorem not_expired_of_empty (h : q.inFlightDeadlines = ∅) (id : Uuid) : ¬ q.Expired now id := by
  unfold Expired
  rw [h]
  simp

theorem mem_queues_of_flushable {id : Uuid} (h : q.Flushable now id) : id ∈ q.queues := by
  cases hb : Map.bucket q.queues id with
  | nil => exact absurd hb h.1
  | cons qe l =>
    refine @Map.mem_of_mem_bucket _ _ _ _ _ qe ?_
    rw [hb]
    exact List.mem_cons_self

theorem eq_of_flushable_of_singleton {c : Uuid} {l : List QueuedEvent}
    (h : q.queues = Finmap.singleton c l) (id : Uuid) (hid : q.Flushable now id) : id = c := by
  have hmem := mem_queues_of_flushable hid
  rw [h] at hmem
  simpa using hmem

variable {orders : IterOrders}

/-- With one channel to choose from, the order does not matter. -/
theorem flushNext_of_only {c : Uuid} (hfresh : ∀ id, ¬ q.Expired now id)
    (hc : q.Flushable now c) (honly : ∀ id, q.Flushable now id → id = c) :
    q.flushNext orders now = ((q.flushQueued now c).1, some (q.flushQueued now c).2) := by
  have hnext : q.nextQueued orders.queues now = some c := by
    unfold nextQueued
    rw [orders.queues.filter_keys_eq_singleton (mem_queues_of_flushable hc) (decide_eq_true hc)]
    · rfl
    · intro id hid
      exact honly id (of_decide_eq_true hid)
  unfold flushNext
  dsimp only
  rw [expireInFlight_of_fresh orders.deadlines hfresh, hnext]

variable {batch : FlushBatch}

/-- Whatever `flush_next` hands out comes from the channel of the batch. -/
theorem heldAt_flushNext_some (h : q.flushNext orders now = (q', some batch)) (c : Uuid) :
    (q'.heldAt c ++ atChannel c batch.channelId batch.requests).Perm
      ((q.expireInFlight orders.deadlines now).heldAt c) := by
  rcases flushNext_cases q orders now with ⟨d, _, hflush⟩ | ⟨d, _, _, hflush⟩ | ⟨_, _, hflush⟩
  · rw [hflush] at h
    obtain ⟨hq, hb⟩ := Prod.mk.inj h
    rw [← hq, ← Option.some.inj hb]
    exact heldAt_flushQueued d c
  · rw [hflush] at h
    obtain ⟨hq, hb⟩ := Prod.mk.inj h
    rw [← hq, ← Option.some.inj hb]
    exact heldAt_flushCancelled d c
  · rw [hflush] at h
    cases (Prod.mk.inj h).2

theorem flushNext_none (h : q.flushNext orders now = (q', none)) :
    q' = q.expireInFlight orders.deadlines now := by
  rcases flushNext_cases q orders now with ⟨d, _, hflush⟩ | ⟨d, _, _, hflush⟩ | ⟨_, _, hflush⟩
  · rw [hflush] at h
    cases (Prod.mk.inj h).2
  · rw [hflush] at h
    cases (Prod.mk.inj h).2
  · rw [hflush] at h
    exact (Prod.mk.inj h).1.symm

/-! ## Failed batches -/

theorem requeue_of_exhausted {jitter : Nat → Duration}
    (h : maxRetries ≤ q.attempts batch.channelId) : q.requeue now jitter batch
      = ({ q with
            retryCounts := q.retryCounts.erase batch.channelId
            retryAfter := q.retryAfter.erase batch.channelId },
          some batch) := by
  unfold requeue
  dsimp only
  rw [if_pos (by omega)]

theorem requeue_of_retry {jitter : Nat → Duration} (h : q.attempts batch.channelId < maxRetries) :
    q.requeue now jitter batch
      = ({ q.pushFront batch with
            retryCounts := q.retryCounts.insert batch.channelId (q.attempts batch.channelId + 1)
            retryAfter := q.retryAfter.insert batch.channelId
              (now + jitter (cappedDelaySecs (q.attempts batch.channelId + 1))) },
          none) := by
  unfold requeue
  dsimp only
  rw [if_neg (by omega)]
  rfl

/-! ## The fields a call changes -/

theorem push_frame (event : QueuedEvent) : ∃ m, (q.push event).1 = { q with queues := m } := by
  unfold push
  split
  · exact ⟨q.queues, rfl⟩
  · exact ⟨_, rfl⟩

theorem requeue_frame (jitter : Nat → Duration) (batch : FlushBatch) :
    ∃ m counts after, (q.requeue now jitter batch).1
      = { q with queues := m, retryCounts := counts, retryAfter := after } := by
  rcases Nat.lt_or_ge (q.attempts batch.channelId) maxRetries with h | h
  · rw [requeue_of_retry h]
    exact ⟨_, _, _, rfl⟩
  · rw [requeue_of_exhausted h]
    exact ⟨q.queues, _, _, rfl⟩

theorem markComplete_frame (d : Uuid) : ∃ counts after, q.markComplete now d
    = { q with
        inFlightChannels := q.inFlightChannels.erase d
        inFlightDeadlines := q.inFlightDeadlines.erase d
        inFlightBatchSizes := q.inFlightBatchSizes.erase d
        retryCounts := counts
        retryAfter := after } := by
  unfold markComplete
  dsimp only
  split
  · split
    · exact ⟨q.retryCounts, q.retryAfter, rfl⟩
    · exact ⟨_, _, rfl⟩
  · exact ⟨_, q.retryAfter, rfl⟩

theorem markNativeSteerPending_frame (d : Uuid) (eventId : String) :
    ∃ m n, (q.markNativeSteerPending d eventId).1
      = { q with queues := m, withheldNativeSteer := n } := by
  cases hfind : (Map.bucket q.queues d).find? (QueuedEvent.hasId eventId) with
  | none =>
    rw [markNativeSteerPending_of_none hfind]
    exact ⟨q.queues, q.withheldNativeSteer, rfl⟩
  | some qe =>
    rw [markNativeSteerPending_of_some hfind]
    exact ⟨_, _, rfl⟩

theorem releaseNativeSteer_frame (d : Uuid) (eventId : String) :
    ∃ m n, q.releaseNativeSteer d eventId = { q with queues := m, withheldNativeSteer := n } := by
  cases hfind : (Map.bucket q.withheldNativeSteer d).find? (QueuedEvent.hasId eventId) with
  | none =>
    rw [releaseNativeSteer_of_none hfind]
    exact ⟨q.queues, q.withheldNativeSteer, rfl⟩
  | some qe =>
    rw [releaseNativeSteer_of_some hfind]
    exact ⟨_, _, rfl⟩

theorem extendInFlightDeadline_frame (d : Uuid) (secs : Nat) :
    ∃ m, q.extendInFlightDeadline now d secs = { q with inFlightDeadlines := m } := by
  unfold extendInFlightDeadline
  cases q.inFlightDeadlines.lookup d with
  | none => exact ⟨q.inFlightDeadlines, rfl⟩
  | some current =>
    dsimp only
    split
    · exact ⟨_, rfl⟩
    · exact ⟨q.inFlightDeadlines, rfl⟩

theorem heldAt_markComplete (d : Uuid) (c : Uuid) :
    (q.markComplete now d).heldAt c = q.heldAt c := by
  obtain ⟨counts, after, h⟩ := @markComplete_frame q now d
  rw [h]
  rfl

theorem heldAt_extendInFlightDeadline (d : Uuid) (secs : Nat) (c : Uuid) :
    (q.extendInFlightDeadline now d secs).heldAt c = q.heldAt c := by
  obtain ⟨m, h⟩ := @extendInFlightDeadline_frame q now d secs
  rw [h]
  rfl

end EventQueue

end Pkzz.Acp
