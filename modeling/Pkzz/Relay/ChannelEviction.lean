import Pkzz.Relay.SubscriptionIndex

/-!
# Evicting a channel

When a channel is archived or deleted, `evict_all_channel_subscriptions` asks the registry
for the connections subscribed to it and removes their subscriptions one connection after
the other, releasing the topic of each. The list of connections is read off the inverted
indexes, so it is only as good as the rule that every channel subscription is indexed
somewhere. That rule has one exception: a subscription whose filters all carry an empty
`kinds` list can match nothing and gets no index entry, although it is registered and
holds its topic.
-/

namespace Pkzz.Relay

open Pkzz.Core Pkzz.Lib

/-! ## Which channel subscriptions are indexed -/

/-- Some filter of the list admits a kind: it names one, or leaves the kinds open. -/
def AdmitsKind (filters : List Filter) : Prop := ∃ f ∈ filters, f.kinds ≠ some []

theorem foldl_pushUnseen_eq_nil {α : Type} [DecidableEq α] {l out : List α} :
    l.foldl pushUnseen out = [] ↔ out = [] ∧ l = [] := by
  constructor
  · intro h
    have hnone : ∀ y, ¬ (y ∈ out ∨ y ∈ l) := by
      intro y hy
      have hmem := mem_foldl_pushUnseen.mpr hy
      rw [h] at hmem
      exact absurd hmem (by simp)
    exact ⟨List.eq_nil_iff_forall_not_mem.mpr fun y hy => hnone y (.inl hy),
      List.eq_nil_iff_forall_not_mem.mpr fun y hy => hnone y (.inr hy)⟩
  · rintro ⟨rfl, rfl⟩
    rfl

theorem extractKindsFromFiltersGo_eq_nil :
    ∀ {fs : List Filter} {acc : List Kind},
      extractKindsFromFiltersGo acc fs = some [] ↔ acc = [] ∧ ∀ f ∈ fs, f.kinds = some []
  | [], acc => by simp [extractKindsFromFiltersGo]
  | f :: fs, acc => by
    unfold extractKindsFromFiltersGo
    cases hf : f.kinds with
    | none => simp [hf]
    | some kinds =>
      dsimp only
      rw [extractKindsFromFiltersGo_eq_nil, foldl_pushUnseen_eq_nil]
      simp [hf, and_assoc]

/-- The union of kinds is empty only when no filter admits any. -/
theorem extractKindsFromFilters_ne_nil {filters : List Filter} :
    extractKindsFromFilters filters ≠ some [] ↔ AdmitsKind filters := by
  unfold extractKindsFromFilters AdmitsKind
  rw [ne_eq, extractKindsFromFiltersGo_eq_nil]
  simp

/-- The slots that `channel_subscriber_conns_scoped` reads. -/
def IndexSlot.OfChannel (c : CommunityId) (ch : Uuid) : IndexSlot → Prop
  | .channelKind c' key => c' = c ∧ key.channelId = ch
  | .channelWildcard c' ch' => c' = c ∧ ch' = ch
  | .globalKind _ _ => False
  | .globalPKind _ => False
  | .globalWildcard _ => False

/-- **What the channel indexes miss.** -/
theorem exists_channel_slot {entry : SubEntry} {c : CommunityId} {ch : Uuid} :
    (∃ s, s.OfChannel c ch ∧ s ∈ slotsOf entry)
      ↔ entry.ScopedTo c ch ∧ AdmitsKind entry.filters := by
  rw [← extractKindsFromFilters_ne_nil]
  obtain ⟨filters, c', ch'⟩ := entry
  unfold slotsOf SubEntry.ScopedTo
  cases ch' with
  | some ch' =>
    dsimp only
    cases extractKindsFromFilters filters with
    | none =>
      constructor
      · rintro ⟨s, hs, hmem⟩
        rw [List.mem_singleton] at hmem
        subst hmem
        exact ⟨⟨hs.1, by rw [hs.2]⟩, by simp⟩
      · rintro ⟨⟨hc, hch⟩, _⟩
        exact ⟨.channelWildcard c' ch', ⟨hc, by simpa using hch⟩, by simp⟩
    | some kinds =>
      constructor
      · rintro ⟨s, hs, hmem⟩
        obtain ⟨k, hk, rfl⟩ := List.mem_map.mp hmem
        refine ⟨⟨hs.1, by rw [show ch' = ch from hs.2]⟩, ?_⟩
        rintro hnil
        rw [Option.some.injEq] at hnil
        rw [hnil] at hk
        exact absurd hk (by simp)
      · rintro ⟨⟨hc, hch⟩, hne⟩
        cases kinds with
        | nil => exact absurd rfl hne
        | cons k kinds =>
          exact ⟨.channelKind c' ⟨ch', k⟩, ⟨hc, by simpa using hch⟩, by simp⟩
  | none =>
    -- a global subscription has no channel slot
    constructor
    · rintro ⟨s, hs, hmem⟩
      exfalso
      dsimp only at hmem
      split at hmem
      · obtain ⟨key, _, rfl⟩ := List.mem_map.mp hmem
        exact hs
      split at hmem
      · rw [List.mem_singleton] at hmem
        subst hmem
        exact hs
      · obtain ⟨k, _, rfl⟩ := List.mem_map.mp hmem
        exact hs
    · rintro ⟨⟨_, hch⟩, _⟩
      exact absurd hch (by simp)

namespace SubscriptionRegistry

variable {conn : ConnId}

theorem mem_channelSubscriberConns_iff_slot {r : SubscriptionRegistry} {c : CommunityId}
    {ch : Uuid} : conn ∈ r.channelSubscriberConnsScoped c ch
      ↔ ∃ s, s.OfChannel c ch ∧ ∃ sub, (conn, sub) ∈ r.slot s := by
  unfold channelSubscriberConnsScoped
  rw [Finset.mem_union, Finset.mem_biUnion]
  constructor
  · rintro (⟨⟨c', key⟩, hkey, hconn⟩ | hconn)
    · obtain ⟨p, hp, rfl⟩ := List.mem_map.mp (List.mem_toFinset.mp hconn)
      have hscope := (Finset.mem_filter.mp hkey).2
      exact ⟨.channelKind c' key, hscope, p.2, hp⟩
    · obtain ⟨p, hp, rfl⟩ := List.mem_map.mp (List.mem_toFinset.mp hconn)
      exact ⟨.channelWildcard c ch, ⟨rfl, rfl⟩, p.2, hp⟩
  · rintro ⟨s, hs, sub, hp⟩
    cases s with
    | channelKind c' key =>
      refine .inl ⟨(c', key), ?_, ?_⟩
      · refine Finset.mem_filter.mpr ⟨?_, hs⟩
        exact Finmap.mem_keys.mpr (Map.mem_of_mem_bucket hp)
      · exact List.mem_toFinset.mpr (List.mem_map.mpr ⟨_, hp, rfl⟩)
    | channelWildcard c' ch' =>
      obtain ⟨rfl, rfl⟩ := hs
      exact .inr (List.mem_toFinset.mpr (List.mem_map.mpr ⟨_, hp, rfl⟩))
    | globalKind _ _ => exact absurd hs id
    | globalPKind _ => exact absurd hs id
    | globalWildcard _ => exact absurd hs id

/-- **The listed connections**, in terms of the authoritative map. -/
theorem mem_channelSubscriberConnsScoped {r : SubscriptionRegistry} (h : IndexInv r)
    {c : CommunityId} {ch : Uuid} :
    conn ∈ r.channelSubscriberConnsScoped c ch
      ↔ ∃ sub entry, r.getEntry conn sub = some entry ∧ entry.ScopedTo c ch
          ∧ AdmitsKind entry.filters := by
  rw [mem_channelSubscriberConns_iff_slot]
  constructor
  · rintro ⟨s, hs, sub, hp⟩
    obtain ⟨entry, hget, hmem⟩ := (h s (conn, sub)).mp hp
    exact ⟨sub, entry, hget, exists_channel_slot.mp ⟨s, hs, hmem⟩⟩
  · rintro ⟨sub, entry, hget, hscope⟩
    obtain ⟨s, hs, hmem⟩ := exists_channel_slot.mpr hscope
    exact ⟨s, hs, sub, (h s (conn, sub)).mpr ⟨entry, hget, hmem⟩⟩

/-! ## The eviction loop -/

/-- `evict_conn_channel_subscriptions`: what it removes is reported with its connection. -/
def evictConnChannelSubscriptions (orders : ConnId → HashOrder SubId) (c : CommunityId)
    (ch : Uuid) (acc : SubscriptionRegistry × List ((ConnId × SubId) × RemovedSubscription))
    (conn : ConnId) : SubscriptionRegistry × List ((ConnId × SubId) × RemovedSubscription) :=
  let (r, removed) := acc.1.removeChannelSubscriptionsScoped (orders conn) c conn ch
  (r, acc.2 ++ removed.map fun x => ((conn, x.1), x.2))

def evictAllChannelSubscriptions (r : SubscriptionRegistry) (connOrder : HashOrder ConnId)
    (orders : ConnId → HashOrder SubId) (c : CommunityId) (ch : Uuid) :
    SubscriptionRegistry × List ((ConnId × SubId) × RemovedSubscription) :=
  (connOrder.iter (r.channelSubscriberConnsScoped c ch)).foldl
    (evictConnChannelSubscriptions orders c ch) (r, [])

variable {acc : SubscriptionRegistry × List ((ConnId × SubId) × RemovedSubscription)}

theorem getEntry_evictConn {orders : ConnId → HashOrder SubId} {c : CommunityId} {ch : Uuid}
    {a : ConnId} {b : SubId} {entry : SubEntry} :
    (evictConnChannelSubscriptions orders c ch acc conn).1.getEntry a b = some entry
      ↔ acc.1.getEntry a b = some entry ∧ ¬ (a = conn ∧ entry.ScopedTo c ch) := by
  unfold evictConnChannelSubscriptions
  dsimp only
  rw [getEntry_removeChannelSubscriptionsScoped]
  simp only [mem_channelSubIds]
  by_cases ha : a = conn
  · subst ha
    cases he : acc.1.getEntry a b with
    | none => simp
    | some e =>
      by_cases hs : e.ScopedTo c ch
      · simp only [true_and, Option.some.injEq, exists_eq_left', hs, if_true]
        constructor
        · intro h
          exact absurd h (by simp)
        · rintro ⟨rfl, hno⟩
          exact absurd hs hno
      · simp only [true_and, Option.some.injEq, exists_eq_left', hs, if_false]
        constructor
        · rintro rfl
          exact ⟨rfl, hs⟩
        · exact And.left
  · simp [ha]

theorem mem_evictConn {orders : ConnId → HashOrder SubId} {c : CommunityId} {ch : Uuid}
 {x : (ConnId × SubId) × RemovedSubscription} :
    x ∈ (evictConnChannelSubscriptions orders c ch acc conn).2
      ↔ x ∈ acc.2 ∨ (x.1.1 = conn ∧ x.2 = ⟨c, some ch⟩
          ∧ ∃ entry, acc.1.getEntry x.1.1 x.1.2 = some entry ∧ entry.ScopedTo c ch) := by
  unfold evictConnChannelSubscriptions
  dsimp only
  rw [removeChannelSubscriptionsScoped_reports, List.mem_append, List.map_map]
  refine or_congr_right ?_
  rw [List.mem_map]
  constructor
  · rintro ⟨sub, hsub, rfl⟩
    exact ⟨rfl, rfl, mem_channelSubIds.mp hsub⟩
  · obtain ⟨⟨a, b⟩, removed⟩ := x
    rintro ⟨rfl, rfl, hex⟩
    exact ⟨b, mem_channelSubIds.mpr hex, rfl⟩

theorem indexInv_evictConn {orders : ConnId → HashOrder SubId} {c : CommunityId} {ch : Uuid}
    (h : IndexInv acc.1) (conn : ConnId) :
    IndexInv (evictConnChannelSubscriptions orders c ch acc conn).1 :=
  indexInv_call h (.removeChannelSubscriptions (orders conn) c conn ch)

/-- What the loop leaves registered, and what it has reported. -/
theorem foldl_evictConn {orders : ConnId → HashOrder SubId} {c : CommunityId} {ch : Uuid} :
    ∀ (l : List ConnId) (acc :
      SubscriptionRegistry × List ((ConnId × SubId) × RemovedSubscription)), IndexInv acc.1 →
      IndexInv (l.foldl (evictConnChannelSubscriptions orders c ch) acc).1
        ∧ (∀ a b entry,
            (l.foldl (evictConnChannelSubscriptions orders c ch) acc).1.getEntry a b = some entry
              ↔ acc.1.getEntry a b = some entry ∧ ¬ (a ∈ l ∧ entry.ScopedTo c ch))
        ∧ ∀ x, x ∈ (l.foldl (evictConnChannelSubscriptions orders c ch) acc).2
            ↔ x ∈ acc.2 ∨ (x.1.1 ∈ l ∧ x.2 = ⟨c, some ch⟩
                ∧ ∃ entry, acc.1.getEntry x.1.1 x.1.2 = some entry ∧ entry.ScopedTo c ch)
  | [], acc, h => by simp [h]
  | conn :: l, acc, h => by
    obtain ⟨hinv, hget, hrep⟩ := @foldl_evictConn orders c ch l
      (evictConnChannelSubscriptions orders c ch acc conn) (indexInv_evictConn h conn)
    rw [List.foldl_cons]
    refine ⟨hinv, ?_, ?_⟩
    · intro a b entry
      rw [hget, getEntry_evictConn, List.mem_cons, and_assoc]
      refine and_congr_right fun _ => ?_
      rw [or_and_right, not_or]
    · intro x
      rw [hrep, mem_evictConn, List.mem_cons]
      constructor
      · rintro ((hx | ⟨ha, hrem, hex⟩) | ⟨ha, hrem, entry, he, hs⟩)
        · exact .inl hx
        · exact .inr ⟨.inl ha, hrem, hex⟩
        · exact .inr ⟨.inr ha, hrem, entry, (getEntry_evictConn.mp he).1, hs⟩
      · rintro (hx | ⟨ha, hrem, entry, he, hs⟩)
        · exact .inl (.inl hx)
        · by_cases hac : x.1.1 = conn
          · exact .inl (.inr ⟨hac, hrem, entry, he, hs⟩)
          · have hal : x.1.1 ∈ l := ha.resolve_left hac
            exact .inr ⟨hal, hrem, entry, getEntry_evictConn.mpr ⟨he, fun hc => hac hc.1⟩, hs⟩

/-- No subscription is reported twice. -/
theorem nodup_foldl_evictConn {orders : ConnId → HashOrder SubId} {c : CommunityId}
    {ch : Uuid} :
    ∀ (l : List ConnId) (acc :
      SubscriptionRegistry × List ((ConnId × SubId) × RemovedSubscription)),
      l.Nodup → (acc.2.map Prod.fst).Nodup → (∀ x ∈ acc.2, x.1.1 ∉ l) →
      ((l.foldl (evictConnChannelSubscriptions orders c ch) acc).2.map Prod.fst).Nodup
  | [], _, _, h, _ => h
  | conn :: l, acc, hl, h, hdisj => by
    obtain ⟨hconn, hl⟩ := List.nodup_cons.mp hl
    rw [List.foldl_cons]
    refine nodup_foldl_evictConn l _ hl ?_ ?_
    · unfold evictConnChannelSubscriptions
      dsimp only
      rw [removeChannelSubscriptionsScoped_reports, List.map_append, List.map_map,
        List.map_map, List.nodup_append]
      refine ⟨h, ?_, ?_⟩
      · refine List.Nodup.map ?_ nodup_channelSubIds
        intro b b' hb
        exact (Prod.mk.inj hb).2
      · intro p hp q hq hpq
        obtain ⟨x, hx, rfl⟩ := List.mem_map.mp hp
        obtain ⟨sub, _, rfl⟩ := List.mem_map.mp hq
        have hxc : x.1.1 = conn := by rw [hpq]; rfl
        exact hdisj x hx (by simp [hxc])
    · intro x hx
      rcases mem_evictConn.mp hx with hx | ⟨ha, _⟩
      · intro hxl
        exact hdisj x hx (List.mem_cons_of_mem _ hxl)
      · rw [ha]
        exact hconn

/-! ## When an eviction is complete -/

/-- The connections listed for a channel are those with a subscription in it. -/
def ListsSubscribers (r : SubscriptionRegistry) (c : CommunityId) (ch : Uuid) : Prop :=
  ∀ conn, conn ∈ r.channelSubscriberConnsScoped c ch
    ↔ ∃ sub entry, r.getEntry conn sub = some entry ∧ entry.ScopedTo c ch

/-- What evicting a channel should do, whatever order the hash maps are visited in. -/
structure EvictsChannel (r : SubscriptionRegistry) (c : CommunityId) (ch : Uuid)
    (out : SubscriptionRegistry × List ((ConnId × SubId) × RemovedSubscription)) : Prop where
  /-- No registered subscription is scoped to the channel any more. -/
  nothing_left : ∀ conn sub entry, out.1.getEntry conn sub = some entry → ¬ entry.ScopedTo c ch
  /-- Every subscription of the channel is reported with its scope, and no other is. -/
  reported : ∀ p removed, (p, removed) ∈ out.2
    ↔ removed = ⟨c, some ch⟩ ∧ ∃ entry, r.getEntry p.1 p.2 = some entry ∧ entry.ScopedTo c ch
  /-- None is reported twice. -/
  once : (out.2.map Prod.fst).Nodup
  /-- Every other subscription stays as it was, and no subscription appears. -/
  others : ∀ conn sub entry, ¬ entry.ScopedTo c ch →
    (out.1.getEntry conn sub = some entry ↔ r.getEntry conn sub = some entry)
  /-- Every other subscription receives what it received before. -/
  fanOut : ∀ c' event p, (∀ entry, r.getEntry p.1 p.2 = some entry → ¬ entry.ScopedTo c ch) →
    (p ∈ out.1.fanOutScoped c' event ↔ p ∈ r.fanOutScoped c' event)

/-- Eviction of the channel leaves nothing behind. -/
def EvictionComplete (r : SubscriptionRegistry) (c : CommunityId) (ch : Uuid) : Prop :=
  ListsSubscribers r c ch ∧ ∀ connOrder orders,
    EvictsChannel r c ch (r.evictAllChannelSubscriptions connOrder orders c ch)

/-- When every subscriber is listed, the loop reaches all of them. -/
theorem evictsChannel_of_listsSubscribers {r : SubscriptionRegistry} (h : IndexInv r)
    {c : CommunityId} {ch : Uuid} (hl : ListsSubscribers r c ch) (connOrder : HashOrder ConnId)
    (orders : ConnId → HashOrder SubId) :
    EvictsChannel r c ch (r.evictAllChannelSubscriptions connOrder orders c ch) := by
  unfold evictAllChannelSubscriptions
  have hvisit : ∀ conn, conn ∈ connOrder.iter (r.channelSubscriberConnsScoped c ch)
      ↔ ∃ sub entry, r.getEntry conn sub = some entry ∧ entry.ScopedTo c ch := by
    intro conn
    rw [connOrder.mem_iter]
    exact hl conn
  obtain ⟨hinv, hget, hrep⟩ := @foldl_evictConn orders c ch
    (connOrder.iter (r.channelSubscriberConnsScoped c ch)) (r, []) h
  refine ⟨?_, ?_, ?_, ?_, ?_⟩
  · intro conn sub entry he hs
    obtain ⟨he, hno⟩ := (hget conn sub entry).mp he
    exact hno ⟨(hvisit conn).mpr ⟨sub, entry, he, hs⟩, hs⟩
  · intro p removed
    rw [hrep]
    constructor
    · rintro (hx | ⟨_, hrem, hex⟩)
      · exact absurd hx (by simp)
      · exact ⟨hrem, hex⟩
    · rintro ⟨hrem, entry, he, hs⟩
      exact .inr ⟨(hvisit p.1).mpr ⟨p.2, entry, he, hs⟩, hrem, entry, he, hs⟩
  · exact nodup_foldl_evictConn _ (r, []) (connOrder.nodup _) (by simp) (by simp)
  · intro conn sub entry hs
    rw [hget]
    constructor
    · exact And.left
    · intro he
      exact ⟨he, fun hc => hs hc.2⟩
  · intro c' event p hp
    rw [mem_fanOutScoped hinv, mem_fanOutScoped h]
    constructor
    · rintro ⟨entry, he, hrec⟩
      exact ⟨entry, ((hget _ _ _).mp he).1, hrec⟩
    · rintro ⟨entry, he, hrec⟩
      exact ⟨entry, (hget _ _ _).mpr ⟨he, fun hc => hp entry he hc.2⟩, hrec⟩

/--
**Exactly when eviction is complete.** In every reachable registry, evicting a channel
leaves nothing behind if and only if each connection subscribed to it holds at least one
subscription there whose filters admit some kind. The connections that hold only filters
with an empty `kinds` list, or no filter, are the ones that are missed.
-/
theorem evictionComplete_iff (calls : List Call) (c : CommunityId) (ch : Uuid) :
    (run calls).EvictionComplete c ch
      ↔ ∀ conn, (∃ sub entry, (run calls).getEntry conn sub = some entry ∧ entry.ScopedTo c ch) →
          ∃ sub entry, (run calls).getEntry conn sub = some entry ∧ entry.ScopedTo c ch
            ∧ AdmitsKind entry.filters := by
  have hinv := indexInv_run calls
  constructor
  · rintro ⟨hlist, _⟩ conn hex
    exact (mem_channelSubscriberConnsScoped hinv).mp ((hlist conn).mpr hex)
  · intro hreadable
    have hlist : ListsSubscribers (run calls) c ch := by
      intro conn
      rw [mem_channelSubscriberConnsScoped hinv]
      constructor
      · rintro ⟨sub, entry, he, hs, _⟩
        exact ⟨sub, entry, he, hs⟩
      · exact hreadable conn
    exact ⟨hlist, evictsChannel_of_listsSubscribers hinv hlist⟩

/-- A single `{"kinds":[]}` subscription is registered in its channel and never evicted. -/
theorem not_evictionComplete_empty_kinds :
    ¬ (run [.register ⟨.ofNat 16 1⟩ (.ofNat 16 2) "feed" [{ kinds := some [] }]
        (some (.ofNat 16 3))]).EvictionComplete ⟨.ofNat 16 1⟩ (.ofNat 16 3) := by
  rintro ⟨hlist, _⟩
  have hmem := (hlist (.ofNat 16 2)).mpr
    ⟨"feed", ⟨[{ kinds := some [] }], ⟨.ofNat 16 1⟩, some (.ofNat 16 3)⟩, by decide, by decide⟩
  revert hmem
  decide

end SubscriptionRegistry

end Pkzz.Relay
