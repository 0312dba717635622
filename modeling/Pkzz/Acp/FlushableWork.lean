import Pkzz.Acp.Conservation
import Pkzz.Acp.Shape

/-!
# `has_flushable_work` answers for `flush_next`

The two functions repeat each other: first the loop over expired deadlines, then the search for a
channel. The loop visits a hash map, so the two may see the expired channels in different orders.
What one round does to a channel does not look at the other channels, so the rounds commute, and the
order does not show in what the loop leaves.
-/

namespace Pkzz.Acp

open Pkzz.Core Pkzz.Lib

attribute [ext] EventQueue

namespace EventQueue

variable {q : EventQueue} {now : Instant}

/-! ## The order of the expired channels -/

/-- A round adds what is withheld for its channel to the front of the queue, and touches no other
queue. -/
theorem lookup_queues_releaseExpired (q : EventQueue) (c d : Uuid) :
    (q.releaseExpired d).queues.lookup c = if c = d then
        match q.withheldNativeSteer.lookup d with
        | none => q.queues.lookup d
        | some entries => some (enforceCap (entries ++ Map.bucket q.queues d))
      else q.queues.lookup c := by
  unfold releaseExpired recoverWithheldForExpiredChannel
  dsimp only
  cases hl : q.withheldNativeSteer.lookup d with
  | none =>
    by_cases h : c = d
    · subst h
      rw [if_pos rfl]
    · rw [if_neg h]
  | some entries => exact Map.lookup_insert_eq _ _ _ _

theorem lookup_withheld_releaseExpired (q : EventQueue) (c d : Uuid) :
    (q.releaseExpired d).withheldNativeSteer.lookup c = if c = d then
    none else q.withheldNativeSteer.lookup c := by
  unfold releaseExpired recoverWithheldForExpiredChannel
  dsimp only
  cases hl : q.withheldNativeSteer.lookup d with
  | none =>
    by_cases h : c = d
    · subst h
      rw [if_pos rfl]
      exact hl
    · rw [if_neg h]
  | some entries => exact Map.lookup_erase_eq _ _ _

/-- The fields of a round that do not depend on what is withheld. -/
theorem releaseExpired_eq (q : EventQueue) (d : Uuid) : q.releaseExpired d = { q with
    inFlightBatchSizes := q.inFlightBatchSizes.erase d
    inFlightChannels := q.inFlightChannels.erase d
    inFlightDeadlines := q.inFlightDeadlines.erase d
    queues := (q.releaseExpired d).queues
    withheldNativeSteer := (q.releaseExpired d).withheldNativeSteer } := by
  unfold releaseExpired recoverWithheldForExpiredChannel
  dsimp only
  cases q.withheldNativeSteer.lookup d with
  | none => rfl
  | some entries => rfl

theorem erase_comm {V : Type} (m : Map Uuid V) (c d : Uuid) :
    (m.erase c).erase d = (m.erase d).erase c := by
  refine Finmap.ext_lookup fun k => ?_
  simp only [Map.lookup_erase_eq]
  split <;> split <;> rfl

theorem bucket_of_lookup {V : Type} {m n : Map Uuid (List V)} {c : Uuid}
    (h : m.lookup c = n.lookup c) : Map.bucket m c = Map.bucket n c := by
  unfold Map.bucket
  rw [h]

/-- **The rounds commute.** -/
theorem releaseExpired_comm (q : EventQueue) (c d : Uuid) :
    (q.releaseExpired c).releaseExpired d = (q.releaseExpired d).releaseExpired c := by
  by_cases hcd : c = d
  · rw [hcd]
  have hqueues : ∀ {c d : Uuid}, c ≠ d →
      (q.releaseExpired c).queues.lookup d = q.queues.lookup d := by
    intro c d hne
    rw [lookup_queues_releaseExpired, if_neg (Ne.symm hne)]
  have hwithheld : ∀ {c d : Uuid}, c ≠ d →
      (q.releaseExpired c).withheldNativeSteer.lookup d = q.withheldNativeSteer.lookup d := by
    intro c d hne
    rw [lookup_withheld_releaseExpired, if_neg (Ne.symm hne)]
  have hdc : d ≠ c := Ne.symm hcd
  have hc := releaseExpired_eq q c
  have hd := releaseExpired_eq q d
  have hc' := releaseExpired_eq (q.releaseExpired d) c
  have hd' := releaseExpired_eq (q.releaseExpired c) d
  refine EventQueue.ext ?_ ?_ ?_ ?_ ?_ ?_ ?_ ?_ ?_ ?_ ?_
  · -- each queue is touched in one of the two rounds at most
    refine Finmap.ext_lookup fun k => ?_
    rw [lookup_queues_releaseExpired, lookup_queues_releaseExpired (q.releaseExpired d),
      hwithheld hcd, hwithheld hdc,
      hqueues hcd, hqueues hdc, bucket_of_lookup (hqueues hcd), bucket_of_lookup (hqueues hdc),
      lookup_queues_releaseExpired, lookup_queues_releaseExpired]
    by_cases hkd : k = d
    · rw [if_pos hkd, if_neg (fun h => hdc (hkd.symm.trans h)), if_pos hkd]
    · rw [if_neg hkd, if_neg hkd]
  · rw [hd', hc', hc, hd]
    exact Finset.erase_right_comm
  · rw [hd', hc', hc, hd]
    exact erase_comm _ _ _
  · rw [hd', hc', hc, hd]
    exact erase_comm _ _ _
  · rw [hd', hc', hc, hd]
  · rw [hd', hc', hc, hd]
  · rw [hd', hc', hc, hd]
  · rw [hd', hc', hc, hd]
  · rw [hd', hc', hc, hd]
  · refine Finmap.ext_lookup fun k => ?_
    simp only [lookup_withheld_releaseExpired]
    split <;> split <;> rfl
  · rw [hd', hc', hc, hd]

theorem expiredChannels_perm (q : EventQueue) (order order' : HashOrder Uuid) (now : Instant) :
    (q.expiredChannels order now).Perm (q.expiredChannels order' now) := by
  refine (List.perm_ext_iff_of_nodup (q.nodup_expiredChannels order now)
    (q.nodup_expiredChannels order' now)).mpr ?_
  intro c
  unfold expiredChannels
  rw [List.mem_filter, List.mem_filter, order.mem_keys, order'.mem_keys]

/-- **The order of the expiry does not show.** -/
theorem expireInFlight_order (q : EventQueue) (order order' : HashOrder Uuid) (now : Instant) :
    q.expireInFlight order now = q.expireInFlight order' now :=
  (q.expiredChannels_perm order order' now).foldl_eq' (fun c _ d _ q => releaseExpired_comm q c d) q

/-! ## The search -/

theorem nextQueued_isSome (q : EventQueue) (order : HashOrder Uuid) (now : Instant) :
    (q.nextQueued order now).isSome = (order.keys q.queues).any fun id => q.Flushable now id := by
  unfold nextQueued
  rw [Bool.eq_iff_iff, List.any_eq_true, Option.isSome_iff_ne_none, Ne, List.argmin_eq_none,
    List.filter_eq_nil_iff]
  simp

theorem nextCancelled_isSome (q : EventQueue) (order : HashOrder Uuid) :
    (q.nextCancelled order).isSome = (order.keys q.cancelledBatches).any fun id =>
    id ∉ q.inFlightChannels := by
  unfold nextCancelled
  rw [Bool.eq_iff_iff, List.any_eq_true, List.find?_isSome]

/-- Whether something qualifies does not depend on the order. -/
theorem any_keys_order {V : Type} (order order' : HashOrder Uuid) (m : Map Uuid V)
    (p : Uuid → Bool) : (order.keys m).any p = (order'.keys m).any p := by
  rw [Bool.eq_iff_iff, List.any_eq_true, List.any_eq_true]
  simp only [HashOrder.mem_keys]

/-- What `flush_next` does to the queue `q` that the expiry left, when it hands out a batch. -/
structure Dispatched (q : EventQueue) (batch : FlushBatch) (q' : EventQueue) : Prop where
  free : batch.channelId ∉ q.inFlightChannels
  inFlight : q'.inFlightChannels = insert batch.channelId q.inFlightChannels
  deadlines : ∀ c, c ≠ batch.channelId →
    q'.inFlightDeadlines.lookup c = q.inFlightDeadlines.lookup c
  batchSizes : ∀ c, c ≠ batch.channelId →
    q'.inFlightBatchSizes.lookup c = q.inFlightBatchSizes.lookup c
  withheld : q'.withheldNativeSteer = q.withheldNativeSteer
  queues : ∀ c, c ≠ batch.channelId → q'.queues.lookup c = q.queues.lookup c
  /-- The front of its queue is handed out, or nothing of it. -/
  own : ∃ n, Map.bucket q'.queues batch.channelId = (Map.bucket q.queues batch.channelId).drop n

theorem lookup_setBucket_of_ne {V : Type} (m : Map Uuid (List V)) {c d : Uuid} (h : c ≠ d)
    (l : List V) : (Map.setBucket m d l).lookup c = m.lookup c := by
  unfold Map.setBucket
  split
  · exact Finmap.lookup_erase_ne h
  · exact Finmap.lookup_insert_of_ne m h

theorem dispatched_flushQueued {c : Uuid} (h : q.Flushable now c) :
    q.Dispatched (q.flushQueued now c).2 (q.flushQueued now c).1 where
  free := h.2.1
  inFlight := rfl
  deadlines := fun _ hne => Finmap.lookup_insert_of_ne _ hne
  batchSizes := fun _ hne => Finmap.lookup_insert_of_ne _ hne
  withheld := rfl
  queues := fun _ hne => lookup_setBucket_of_ne _ hne _
  own := ⟨_, (Map.bucket_setBucket _ _ _ _).trans (if_pos rfl)⟩

theorem dispatched_flushCancelled {c : Uuid} (h : c ∉ q.inFlightChannels) :
    q.Dispatched (q.flushCancelled now c).2 (q.flushCancelled now c).1 where
  free := h
  inFlight := rfl
  deadlines := fun _ hne => Finmap.lookup_insert_of_ne _ hne
  batchSizes := fun _ hne => Finmap.lookup_insert_of_ne _ hne
  withheld := rfl
  queues := fun _ _ => rfl
  own := ⟨0, rfl⟩

/-- What the two calls leave: the same queue, up to the batch that one of them hands out. -/
def SameExpiry (q q' : EventQueue) : Option FlushBatch → Prop
  | none => q' = q
  | some batch => q.Dispatched batch q'

theorem sameExpiry_flushNext (q : EventQueue) (orders orders' : IterOrders) (now : Instant) :
    SameExpiry (q.hasFlushableWork orders now).1 (q.flushNext orders' now).1
      (q.flushNext orders' now).2 := by
  have hsame : (q.hasFlushableWork orders now).1 = q.expireInFlight orders'.deadlines now :=
    q.expireInFlight_order orders.deadlines orders'.deadlines now
  rw [hsame]
  rcases flushNext_cases q orders' now with ⟨d, hnext, hflush⟩ | ⟨d, _, hnext, hflush⟩ |
    ⟨_, _, hflush⟩
  · rw [hflush]
    exact dispatched_flushQueued (flushable_of_nextQueued hnext)
  · rw [hflush]
    exact dispatched_flushCancelled (not_inFlight_of_nextCancelled hnext)
  · rw [hflush]
    rfl

theorem hasFlushableWork_iff (q : EventQueue) (orders orders' : IterOrders) (now : Instant) :
    (q.hasFlushableWork orders now).2 = true ↔ (q.flushNext orders' now).2.isSome = true := by
  have hanswer : (q.hasFlushableWork orders now).2
      = (((q.expireInFlight orders'.deadlines now).nextQueued orders'.queues now).isSome
        || ((q.expireInFlight orders'.deadlines now).nextCancelled orders'.cancelled).isSome) := by
    rw [nextQueued_isSome, nextCancelled_isSome,
      q.expireInFlight_order orders'.deadlines orders.deadlines now,
      any_keys_order orders'.queues orders.queues,
        any_keys_order orders'.cancelled orders.cancelled]
    rfl
  rw [hanswer]
  rcases flushNext_cases q orders' now with ⟨d, hnext, hflush⟩ | ⟨d, hnone, hnext, hflush⟩ |
    ⟨hnone, hnone', hflush⟩
  · rw [hflush, hnext]
    simp
  · rw [hflush, hnone, hnext]
    simp
  · rw [hflush, hnone, hnone']
    simp

end EventQueue

namespace World

variable {w : World} {mode : DedupMode} {secs : Nat} {ops : List Op}

/-- **`has_flushable_work` tells what `flush_next` would do at the same instant**, in every state
that a run reaches, and the maps of the queue have their shape there. -/
theorem flushable_work_exact (h : dispatch.run (init mode secs) ops = some w) :
    (∀ now orders orders',
      ((w.queue.hasFlushableWork orders now).2 = true ↔
        (w.queue.flushNext orders' now).2.isSome = true)
        ∧ EventQueue.SameExpiry (w.queue.hasFlushableWork orders now).1
          (w.queue.flushNext orders' now).1
            (w.queue.flushNext orders' now).2)
      ∧ w.queue.Shaped := by
  refine ⟨?_, (shape_run h).queue⟩
  intro now orders orders'
  exact ⟨w.queue.hasFlushableWork_iff orders orders' now,
    w.queue.sameExpiry_flushNext orders orders' now⟩

/-- A cancelled batch waits, so there is work, and it is handed out. -/
theorem flushable_work_exact_cancelled :
    (exampleCancelled.queue.flushNext exampleOrders 0).2.isSome = true ∧
    exampleCancelled.queue.Shaped := by
  have hexact := flushable_work_exact exampleCancelled_run
  refine ⟨((hexact.1 0 exampleOrders exampleOrders).1).mp ?_, hexact.2⟩
  have hfresh : exampleCancelled.queue.expireInFlight exampleOrders.deadlines 0 =
      exampleCancelled.queue :=
    EventQueue.expireInFlight_of_fresh _ (EventQueue.not_expired_of_empty rfl)
  unfold EventQueue.hasFlushableWork
  rw [hfresh]
  refine Bool.or_eq_true_iff.mpr (.inr (List.any_eq_true.mpr ⟨exampleChannel, ?_, by decide⟩))
  exact (HashOrder.mem_keys _ _ _).mpr (by decide)

end World

end Pkzz.Acp
