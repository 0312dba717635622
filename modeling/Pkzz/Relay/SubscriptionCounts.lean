import Pkzz.Lib.Support
import Pkzz.Relay.SubscriptionIndex

/-!
# What the registry counts

Four paths take a subscription out of the registry: its own removal, a registration under the
same id, the end of the connection, and the loss of a channel. Whichever it is, the scope of
what was registered is reported once, and what has not been reported is still there. The
counts are read off the same map, so they are exact, with one exception: taking a connection's
last subscription out leaves the connection behind, and `total_connections` goes on counting
it until the connection itself is removed.
-/

namespace Pkzz.Relay

open Pkzz.Core Pkzz.Lib
open Finmap (lookup)

/-! ## What is registered, as one function -/

/-- The scope that goes into a `RemovedSubscription`. -/
def SubEntry.scope (entry : SubEntry) : RemovedSubscription := ⟨entry.communityId, entry.channelId⟩

namespace SubscriptionRegistry

/-- The registered subscriptions, by pair. -/
def entryAt (r : SubscriptionRegistry) (p : ConnId × SubId) : Option SubEntry := r.getEntry p.1 p.2

/-- Their scopes. -/
def scopeAt (r : SubscriptionRegistry) (p : ConnId × SubId) : Option RemovedSubscription :=
  (r.entryAt p).map SubEntry.scope

theorem scopeAt_removeSubscription (r : SubscriptionRegistry) (conn : ConnId) (sub : SubId) :
    (r.removeSubscription conn sub).1.scopeAt = Function.update r.scopeAt (conn, sub) none := by
  funext p
  rw [scopeAt, entryAt, getEntry_removeSubscription, Function.update_apply]
  by_cases hp : p = (conn, sub)
  · subst hp
    simp
  · have hne : ¬ (p.1 = conn ∧ p.2 = sub) := fun h => hp (Prod.ext h.1 h.2)
    rw [if_neg hne, if_neg hp]
    rfl

theorem scopeAt_registerScoped (r : SubscriptionRegistry) (c : CommunityId) (conn : ConnId)
    (sub : SubId) (filters : List Filter) (ch : Option Uuid) :
    (r.registerScoped c conn sub filters ch).1.scopeAt
      = Function.update r.scopeAt (conn, sub) (some ⟨c, ch⟩) := by
  funext p
  rw [scopeAt, entryAt, getEntry_registerScoped, Function.update_apply]
  by_cases hp : p = (conn, sub)
  · subst hp
    simp [SubEntry.scope]
  · have hne : ¬ (p.1 = conn ∧ p.2 = sub) := fun h => hp (Prod.ext h.1 h.2)
    rw [if_neg hne, if_neg hp]
    rfl

/-- A removal reports the scope of what it removes. -/
theorem removeSubscription_returns (r : SubscriptionRegistry) (conn : ConnId) (sub : SubId) :
    (r.removeSubscription conn sub).2 = r.scopeAt (conn, sub) := by
  cases he : r.getEntry conn sub with
  | none =>
    rw [removeSubscription_of_none he, scopeAt, entryAt, he]
    rfl
  | some entry =>
    obtain ⟨r', hr', _, _⟩ := removeSubscription_of_some he
    rw [hr', scopeAt, entryAt, he]
    rfl

/-- A registration reports what stood under its id. -/
theorem registerScoped_returns (r : SubscriptionRegistry) (c : CommunityId) (conn : ConnId)
    (sub : SubId) (filters : List Filter) (ch : Option Uuid) :
    (r.registerScoped c conn sub filters ch).2 = r.scopeAt (conn, sub) :=
  removeSubscription_returns r conn sub

theorem foldl_removeConnectionStep_snd {conn : ConnId} {connSubs : Map SubId SubEntry} :
    ∀ (l : List SubId) (acc : SubscriptionRegistry × List RemovedSubscription),
      (l.foldl (removeConnectionStep conn connSubs) acc).2
        = acc.2 ++ l.filterMap fun sub => (lookup sub connSubs).map SubEntry.scope
  | [], acc => by simp
  | sub :: l, acc => by
    rw [List.foldl_cons, foldl_removeConnectionStep_snd l, removeConnectionStep,
      List.filterMap_cons]
    cases lookup sub connSubs with
    | none => rfl
    | some entry => simp [SubEntry.scope]

/-- The subscriptions `remove_connection` visits. -/
def connSubIds (r : SubscriptionRegistry) (order : HashOrder SubId) (conn : ConnId) : List SubId :=
  order.keys ((lookup conn r.subs).getD ∅)

theorem mem_connSubIds {r : SubscriptionRegistry} {order : HashOrder SubId} {conn : ConnId}
    {sub : SubId} : sub ∈ r.connSubIds order conn ↔ (r.getEntry conn sub).isSome = true := by
  unfold connSubIds getEntry
  rw [HashOrder.mem_keys, ← Finmap.lookup_isSome]
  cases lookup conn r.subs with
  | none => simp
  | some connSubs => rfl

theorem removeConnection_returns (r : SubscriptionRegistry) (order : HashOrder SubId)
    (conn : ConnId) :
    (r.removeConnection order conn).2 = (r.connSubIds order conn).filterMap fun sub =>
    r.scopeAt (conn, sub) := by
  unfold removeConnection connSubIds scopeAt entryAt getEntry
  cases hc : lookup conn r.subs with
  | none => simp [HashOrder.keys]
  | some connSubs =>
    simp only [hc, Option.bind_some, Option.getD_some]
    rw [foldl_removeConnectionStep_snd, List.nil_append]

theorem scopeAt_removeConnection (r : SubscriptionRegistry) (order : HashOrder SubId)
    (conn : ConnId) (p : ConnId × SubId) : (r.removeConnection order conn).1.scopeAt p
      = if p.1 = conn ∧ p.2 ∈ r.connSubIds order conn then none else r.scopeAt p := by
  rw [scopeAt, entryAt, getEntry_removeConnection]
  by_cases hp : p.1 = conn
  · rw [if_pos hp]
    split
    · rfl
    rename_i hno
    have hnone : r.getEntry p.1 p.2 = none := by
      rw [hp]
      simpa [hp, mem_connSubIds] using hno
    rw [scopeAt, entryAt, hnone]
  · rw [if_neg hp, if_neg fun h => hp h.1]
    rfl

theorem removeChannelSubscriptions_returns (r : SubscriptionRegistry) (order : HashOrder SubId)
    (c : CommunityId) (conn : ConnId) (ch : Uuid) :
    (r.removeChannelSubscriptionsScoped order c conn ch).2.map Prod.snd
      = (r.channelSubIds order c conn ch).filterMap fun sub => r.scopeAt (conn, sub) := by
  rw [removeChannelSubscriptionsScoped_reports, List.map_map]
  have hall : ∀ sub ∈ r.channelSubIds order c conn ch, r.scopeAt (conn, sub) =
      some ⟨c, some ch⟩ := by
    intro sub hsub
    obtain ⟨entry, hentry, hscope⟩ := mem_channelSubIds.mp hsub
    rw [scopeAt, entryAt, hentry, Option.map_some, SubEntry.scope, hscope.1, hscope.2]
  rw [List.filterMap_congr hall]
  simp [Function.comp_def]

theorem scopeAt_removeChannelSubscriptions (r : SubscriptionRegistry) (order : HashOrder SubId)
    (c : CommunityId) (conn : ConnId) (ch : Uuid) (p : ConnId × SubId) :
    (r.removeChannelSubscriptionsScoped order c conn ch).1.scopeAt p
      = if p.1 = conn ∧ p.2 ∈ r.channelSubIds order c conn ch then none else r.scopeAt p := by
  rw [scopeAt, entryAt, getEntry_removeChannelSubscriptionsScoped]
  split <;> rfl

end SubscriptionRegistry

/-! ## The books balance -/

section

variable {g : ConnId × SubId → Option RemovedSubscription} {s : Finset (ConnId × SubId)}

/-- Giving up one key hands out what it held. -/
theorem erase_balance (h : Support g s) (k : ConnId × SubId) :
    ∃ t, Support (Function.update g k none) t
      ∧ ((g k).toList : Multiset RemovedSubscription) + values (Function.update g k none) t =
        values g s := by
  cases hk : g k with
  | none =>
    rw [update_none_of_none hk]
    exact ⟨s, h, by simp⟩
  | some v => exact ⟨s.erase k, h.erase k, by rw [values_erase h hk]; simp⟩

/-- Giving up the keys of a list, one after the other. -/
theorem erase_list_balance (conn : ConnId) :
    ∀ {l : List SubId} {g : ConnId × SubId → Option RemovedSubscription}
    {s : Finset (ConnId × SubId)}, l.Nodup → Support g s →
      ∃ t, Support (fun p => if p.1 = conn ∧ p.2 ∈ l then none else g p) t
        ∧ ((l.filterMap fun sub => g (conn, sub) : List RemovedSubscription) : Multiset
          RemovedSubscription)
            + values (fun p => if p.1 = conn ∧ p.2 ∈ l then none else g p) t = values g s
  | [], g, s, _, h => ⟨s, by simpa using h, by simp⟩
  | sub :: l, g, s, hnd, h => by
    obtain ⟨hsub, hnd⟩ := List.nodup_cons.mp hnd
    obtain ⟨t, ht, hbal⟩ := erase_balance h (conn, sub)
    obtain ⟨u, hu, hrest⟩ := erase_list_balance conn hnd ht
    have hfun : (fun p : ConnId × SubId => if p.1 = conn ∧ p.2 ∈ l then none
        else Function.update g (conn, sub) none p)
        = fun p => if p.1 = conn ∧ p.2 ∈ sub :: l then none else g p := by
      funext p
      rw [Function.update_apply]
      by_cases hp : p = (conn, sub)
      · subst hp
        simp
      have hne : ¬ (p.1 = conn ∧ p.2 = sub) := fun h => hp (Prod.ext h.1 h.2)
      rw [if_neg hp]
      by_cases hl : p.1 = conn ∧ p.2 ∈ l
      · rw [if_pos hl, if_pos ⟨hl.1, List.mem_cons_of_mem _ hl.2⟩]
      rw [if_neg hl, if_neg]
      rintro ⟨h1, h2⟩
      rcases List.mem_cons.mp h2 with h2 | h2
      · exact hne ⟨h1, h2⟩
      · exact hl ⟨h1, h2⟩
    have hlist : (l.filterMap fun b => Function.update g (conn, sub) none (conn, b))
        = l.filterMap fun b => g (conn, b) := by
      refine List.filterMap_congr fun b hb => Function.update_of_ne ?_ _ _
      rintro heq
      exact hsub ((Prod.mk.inj heq).2 ▸ hb)
    rw [hfun] at hu hrest
    rw [hlist] at hrest
    refine ⟨u, hu, ?_⟩
    rw [← hbal, ← hrest, List.filterMap_cons]
    cases g (conn, sub) with
    | none => simp
    | some v => simp only [Option.toList_some, ← Multiset.cons_coe, Multiset.coe_nil,
        Multiset.cons_add, zero_add]

end

/-- What a call registers. -/
def Call.registers : Call → List RemovedSubscription
  | .register c _ _ _ ch => [⟨c, ch⟩]
  | _ => []

/-- The scopes of all registrations, in their order. -/
def registrations (calls : List Call) : List RemovedSubscription := calls.flatMap Call.registers

namespace SubscriptionRegistry

/-- **One call.** What it returns and what is held afterwards is what was held and what it
registers. -/
theorem call_balance {r : SubscriptionRegistry} {s : Finset (ConnId × SubId)}
    (h : Support r.scopeAt s) (call : Call) : ∃ t, Support (r.call call).scopeAt t
      ∧ (r.returned call : Multiset RemovedSubscription) + values (r.call call).scopeAt t
          = values r.scopeAt s + (call.registers : Multiset RemovedSubscription) := by
  cases call with
  | register c conn sub filters ch =>
    -- the old entry is given up, then the key is free for the new one
    obtain ⟨t, ht, hbal⟩ := erase_balance h (conn, sub)
    have hfree := Function.update_self (conn, sub) none r.scopeAt
    have hput := ht.insert (conn, sub) ⟨c, ch⟩
    have hval := values_insert ht (⟨c, ch⟩ : RemovedSubscription) hfree
    rw [Function.update_idem] at hput hval
    refine ⟨_, by rw [call, scopeAt_registerScoped]; exact hput, ?_⟩
    rw [returned, registerScoped_returns, call, scopeAt_registerScoped, hval, ← hbal]
    simp only [Call.registers, Multiset.coe_singleton, ← Multiset.singleton_add]
    rw [add_comm {(⟨c, ch⟩ : RemovedSubscription)}, add_assoc]
  | removeSubscription conn sub =>
    obtain ⟨t, ht, hbal⟩ := erase_balance h (conn, sub)
    refine ⟨t, by rw [call, scopeAt_removeSubscription]; exact ht, ?_⟩
    rw [returned, removeSubscription_returns, call, scopeAt_removeSubscription, hbal]
    simp [Call.registers]
  | removeConnection order conn =>
    obtain ⟨t, ht, hbal⟩ := erase_list_balance conn (order.nodup_keys _) h
    have hafter := funext (r.scopeAt_removeConnection order conn)
    refine ⟨t, by rw [call, hafter]; exact ht, ?_⟩
    rw [returned, removeConnection_returns, call, hafter]
    refine Eq.trans hbal ?_
    simp [Call.registers]
  | removeChannelSubscriptions order c conn ch =>
    obtain ⟨t, ht, hbal⟩ := erase_list_balance conn (@nodup_channelSubIds r order c conn ch) h
    have hafter := funext (r.scopeAt_removeChannelSubscriptions order c conn ch)
    refine ⟨t, by rw [call, hafter]; exact ht, ?_⟩
    rw [returned, removeChannelSubscriptions_returns, call, hafter, hbal]
    simp [Call.registers]

theorem calls_balance :
    ∀ (calls : List Call) {r : SubscriptionRegistry} {s : Finset (ConnId × SubId)},
    Support r.scopeAt s → ∃ t, Support (calls.foldl SubscriptionRegistry.call r).scopeAt t
      ∧ (r.returnedOver calls : Multiset RemovedSubscription)
          + values (calls.foldl SubscriptionRegistry.call r).scopeAt t
        = values r.scopeAt s + (registrations calls : Multiset RemovedSubscription)
  | [], r, s, h => ⟨s, h, by simp [returnedOver, registrations]⟩
  | call :: calls, r, s, h => by
    obtain ⟨t, ht, hbal⟩ := call_balance h call
    obtain ⟨u, hu, hrest⟩ := calls_balance calls ht
    refine ⟨u, hu, ?_⟩
    have hcons : registrations (call :: calls) = call.registers ++ registrations calls := rfl
    rw [returnedOver, hcons, ← Multiset.coe_add, ← Multiset.coe_add, List.foldl_cons,
      add_assoc, hrest, ← add_assoc, ← add_assoc, hbal]

/-! ## The counts -/

/-- The pairs the counting loops come by. -/
def visited (r : SubscriptionRegistry) (connOrder : HashOrder ConnId) (subOrder : HashOrder SubId) :
    List (ConnId × SubId) :=
  (connOrder.keys r.subs).flatMap fun conn =>
    (r.connSubIds subOrder conn).map fun sub => (conn, sub)

variable {r : SubscriptionRegistry} {connOrder : HashOrder ConnId} {subOrder : HashOrder SubId}

theorem mem_subs_of_entryAt {p : ConnId × SubId} (h : (r.entryAt p).isSome = true) :
    p.1 ∈ r.subs := by
  rw [← Finmap.lookup_isSome]
  unfold entryAt getEntry at h
  cases hc : lookup p.1 r.subs with
  | none => simp [hc] at h
  | some connSubs => rfl

theorem mem_visited {p : ConnId × SubId} : p ∈ r.visited connOrder subOrder ↔
    (r.entryAt p).isSome = true := by
  unfold visited
  simp only [List.mem_flatMap, List.mem_map, connOrder.mem_keys, mem_connSubIds]
  constructor
  · rintro ⟨conn, _, sub, hsub, rfl⟩
    exact hsub
  · intro h
    exact ⟨p.1, mem_subs_of_entryAt h, p.2, h, rfl⟩

theorem nodup_visited : (r.visited connOrder subOrder).Nodup := by
  refine List.nodup_flatMap.mpr ⟨fun conn _ => ?_, ?_⟩
  · exact (subOrder.nodup_keys _).map fun a b hab => (Prod.mk.inj hab).2
  · refine (connOrder.nodup_keys _).imp fun {a b} hab => ?_
    intro p hpa hpb
    obtain ⟨_, _, rfl⟩ := List.mem_map.mp hpa
    obtain ⟨_, _, hp⟩ := List.mem_map.mp hpb
    exact hab (Prod.mk.inj hp).1.symm

theorem support_visited : Support r.entryAt (r.visited connOrder subOrder).toFinset := by
  intro p
  rw [List.mem_toFinset, mem_visited]

/-- **`total_subscriptions` counts the pairs.** -/
theorem totalSubscriptions_eq {live : Finset (ConnId × SubId)} (h : Support r.entryAt live) :
    r.totalSubscriptions connOrder = live.card := by
  have hlive : live = (r.visited connOrder (HashOrder.any SubId)).toFinset :=
    h.unique support_visited
  rw [hlive, List.toFinset_card_of_nodup nodup_visited, visited, List.length_flatMap,
    totalSubscriptions]
  refine congrArg List.sum (List.map_congr_left fun conn _ => ?_)
  rw [List.length_map, connSubIds, HashOrder.length_keys]

/-! ### By community -/

theorem getD_lookup_countCommunity (m : Map CommunityId Nat) (entry : SubEntry) (c : CommunityId) :
    (lookup c (countCommunity m entry)).getD 0
      = (lookup c m).getD 0 + if entry.communityId = c then 1 else 0 := by
  rw [countCommunity, Map.lookup_insert_eq]
  by_cases hc : c = entry.communityId
  · subst hc
    simp
  · rw [if_neg hc, if_neg fun h => hc h.symm, Nat.add_zero]

/-- Each entry counts for its own community, and a community that is listed has been counted. -/
theorem foldl_countCommunity (c : CommunityId) :
    ∀ (entries : List SubEntry) {m : Map CommunityId Nat}, Map.AllValues (0 < ·) m →
      Map.AllValues (0 < ·) (entries.foldl countCommunity m)
        ∧ (lookup c (entries.foldl countCommunity m)).getD 0
          = (lookup c m).getD 0 + entries.countP fun entry => entry.communityId = c
  | [], m, h => ⟨h, by simp⟩
  | entry :: entries, m, h => by
    have hpos : Map.AllValues (0 < ·) (countCommunity m entry) := h.insert _ (by omega)
    obtain ⟨hall, hcount⟩ := foldl_countCommunity c entries hpos
    refine ⟨hall, ?_⟩
    rw [List.foldl_cons, hcount, getD_lookup_countCommunity, List.countP_cons]
    by_cases hc : entry.communityId = c
    · simp [hc]
      omega
    · simp [hc]

theorem perCommunitySubscriptions_eq_foldl : r.perCommunitySubscriptions connOrder subOrder
    = ((r.visited connOrder subOrder).filterMap r.entryAt).foldl countCommunity ∅ := by
  unfold perCommunitySubscriptions visited
  rw [List.filterMap_flatMap, List.foldl_flatMap]
  refine List.foldl_ext _ _ _ fun counts conn hconn => ?_
  rw [List.filterMap_map]
  obtain ⟨connSubs, hc⟩ := Finmap.mem_iff.mp ((connOrder.mem_keys _ _).mp hconn)
  simp only [connSubIds, hc, Option.getD_some, Function.comp_def, entryAt, getEntry,
    Option.bind_some]

/-- **`per_community_subscriptions` counts the pairs of each community**, and lists no other. -/
theorem lookup_perCommunitySubscriptions {live : Finset (ConnId × SubId)}
    (h : Support r.entryAt live)
    (c : CommunityId) : lookup c (r.perCommunitySubscriptions connOrder subOrder)
      = let n := ((values r.entryAt live).filter fun entry => entry.communityId = c).card
        if n = 0 then none else some n := by
  have hlive : live = (r.visited connOrder subOrder).toFinset := h.unique support_visited
  have hvalues : values r.entryAt live =
      ((r.visited connOrder subOrder).filterMap r.entryAt : List SubEntry) := by
    rw [hlive, values_toFinset _ nodup_visited]
  obtain ⟨hpos, hcount⟩ :=
    foldl_countCommunity c ((r.visited connOrder subOrder).filterMap r.entryAt)
    (Map.allValues_empty (P := (0 < ·)))
  rw [← perCommunitySubscriptions_eq_foldl] at hpos hcount
  rw [hvalues, Multiset.filter_coe, Multiset.coe_card, ← List.countP_eq_length_filter]
  rw [Finmap.lookup_empty, Option.getD_none, Nat.zero_add] at hcount
  rw [← hcount]
  cases hl : lookup c (r.perCommunitySubscriptions connOrder subOrder) with
  | none => rfl
  | some n =>
    have hn := hpos c n hl
    have hne : n ≠ 0 := by omega
    simp [hne]

/-! ### By connection -/

theorem mem_subs_removeSubscription {conn a : ConnId} {sub : SubId} :
    a ∈ (r.removeSubscription conn sub).1.subs ↔ a ∈ r.subs := by
  unfold removeSubscription
  cases hc : lookup conn r.subs with
  | none => rfl
  | some connSubs =>
    dsimp only
    cases lookup sub connSubs with
    | none => rfl
    | some entry =>
      -- the connection keeps its map, even an empty one
      dsimp only
      rw [removeFromIndex_subs, Finmap.mem_insert, or_iff_right_iff_imp]
      rintro rfl
      exact Finmap.mem_of_lookup_eq_some hc

theorem mem_subs_registerScoped {c : CommunityId} {conn a : ConnId} {sub : SubId}
    {filters : List Filter}
    {ch : Option Uuid} : a ∈ (r.registerScoped c conn sub filters ch).1.subs ↔ a = conn ∨
    a ∈ r.subs := by
  unfold registerScoped
  dsimp only
  rw [addToIndex_subs, Finmap.mem_insert, mem_subs_removeSubscription]

theorem mem_subs_removeConnection {order : HashOrder SubId} {conn a : ConnId} :
    a ∈ (r.removeConnection order conn).1.subs ↔ a ≠ conn ∧ a ∈ r.subs := by
  unfold removeConnection
  cases hc : lookup conn r.subs with
  | none =>
    dsimp only
    constructor
    · intro ha
      refine ⟨?_, ha⟩
      rintro rfl
      rw [← Finmap.lookup_isSome, hc] at ha
      cases ha
    · exact And.right
  | some connSubs =>
    dsimp only
    rw [(foldl_removeConnectionStep _ _).1, Finmap.mem_erase]

theorem mem_subs_foldl_removeListedStep {conn a : ConnId} : ∀ (l : List SubId)
    (acc : SubscriptionRegistry × List (SubId × RemovedSubscription)),
      a ∈ (l.foldl (removeListedStep conn) acc).1.subs ↔ a ∈ acc.1.subs
  | [], _ => Iff.rfl
  | sub :: l, acc => by
    rw [List.foldl_cons, mem_subs_foldl_removeListedStep l, removeListedStep_fst,
      mem_subs_removeSubscription]

end SubscriptionRegistry

/-- Whether a connection has registered a subscription and has not been removed since. -/
def Call.opens (opened : ConnId → Bool) : Call → ConnId → Bool
  | .register _ conn _ _ _ => fun a => decide (a = conn) || opened a
  | .removeConnection _ conn => fun a => decide (a ≠ conn) && opened a
  | .removeSubscription _ _ => opened
  | .removeChannelSubscriptions _ _ _ _ => opened

def opened (calls : List Call) : ConnId → Bool := calls.foldl Call.opens fun _ => false

namespace SubscriptionRegistry

theorem mem_subs_call {r : SubscriptionRegistry} {f : ConnId → Bool}
    (h : ∀ a, a ∈ r.subs ↔ f a = true)
    (call : Call) (a : ConnId) : a ∈ (r.call call).subs ↔ Call.opens f call a = true := by
  cases call with
  | register c conn sub filters ch =>
      simp [SubscriptionRegistry.call, Call.opens, mem_subs_registerScoped, h]
  | removeSubscription conn sub => exact mem_subs_removeSubscription.trans (h a)
  | removeConnection order conn =>
      simp [SubscriptionRegistry.call, Call.opens, mem_subs_removeConnection, h]
  | removeChannelSubscriptions order c conn ch =>
      exact (mem_subs_foldl_removeListedStep _ _).trans (h a)

/-- The connections the registry has a map for. -/
theorem mem_subs_run (calls : List Call) (a : ConnId) : a ∈ (run calls).subs ↔
    opened calls a = true := by
  have hall : ∀ (calls : List Call) {r : SubscriptionRegistry} {f : ConnId → Bool},
      (∀ a, a ∈ r.subs ↔ f a = true) → ∀ a, a ∈ (calls.foldl SubscriptionRegistry.call r).subs
        ↔ calls.foldl Call.opens f a = true := by
    intro calls
    induction calls with
    | nil => exact fun h => h
    | cons call calls ih => exact fun h => ih (mem_subs_call h call)
  refine hall calls (fun a => ?_) a
  simp [new, Finmap.notMem_empty]

/-! ## Nothing is left behind in the indexes -/

/-- No bucket of an index is empty: an emptied one is dropped. -/
structure Trimmed (r : SubscriptionRegistry) : Prop where
  channelKind : Map.AllValues (fun l => l ≠ []) r.channelKindIndex
  channelWildcard : Map.AllValues (fun l => l ≠ []) r.channelWildcardIndex
  globalKind : Map.AllValues (fun l => l ≠ []) r.globalKindIndex
  globalPKind : Map.AllValues (fun l => l ≠ []) r.globalPKindIndex
  globalWildcard : Map.AllValues (fun l => l ≠ []) r.globalWildcardIndex

variable {r : SubscriptionRegistry}

theorem trimmed_new : Trimmed new :=
  ⟨Map.allValues_empty, Map.allValues_empty, Map.allValues_empty, Map.allValues_empty,
    Map.allValues_empty⟩

theorem Trimmed.withSubs (h : Trimmed r) (subs : Map ConnId (Map SubId SubEntry)) :
    Trimmed { r with subs := subs } := ⟨h.1, h.2, h.3, h.4, h.5⟩

theorem Trimmed.addToIndex (h : Trimmed r) (conn : ConnId) (sub : SubId) (filters : List Filter)
    (c : CommunityId) (ch : Option Uuid) : Trimmed (r.addToIndex conn sub filters c ch) := by
  unfold SubscriptionRegistry.addToIndex
  cases ch with
  | some ch =>
    cases extractKindsFromFilters filters with
    | none => exact { h with channelWildcard := Map.allValues_pushBack h.channelWildcard _ _ }
    | some kinds => exact { h with channelKind := Map.allValues_foldl_pushBack kinds h.channelKind }
  | none =>
    cases extractGlobalPKindIndexKeys c filters with
    | some keys => exact { h with globalPKind := Map.allValues_foldl_pushBack keys h.globalPKind }
    | none =>
      cases extractKindsFromFilters filters with
      | none => exact { h with globalWildcard := Map.allValues_pushBack h.globalWildcard _ _ }
      | some kinds => exact { h with globalKind := Map.allValues_foldl_pushBack kinds h.globalKind }

theorem Trimmed.removeFromIndex (h : Trimmed r) (conn : ConnId) (sub : SubId)
    (filters : List Filter)
    (c : CommunityId) (ch : Option Uuid) : Trimmed (r.removeFromIndex conn sub filters c ch) := by
  have hkeep : ∀ (keep : ConnId × SubId → Bool) (l : List (ConnId × SubId)), l ≠ [] →
      l.filter keep ≠ [] → l.filter keep ≠ [] := fun _ _ _ hne => hne
  unfold SubscriptionRegistry.removeFromIndex
  cases ch with
  | some ch =>
    cases extractKindsFromFilters filters with
    | none => exact { h with channelWildcard := h.channelWildcard.retain _ _ (hkeep _) }
    | some kinds => exact
        { h with channelKind := Map.AllValues.foldl_retain hkeep _ kinds h.channelKind }
  | none =>
    cases extractGlobalPKindIndexKeys c filters with
    | some keys => exact
        { h with globalPKind := Map.AllValues.foldl_retain hkeep _ keys h.globalPKind }
    | none =>
      cases extractKindsFromFilters filters with
      | none => exact { h with globalWildcard := h.globalWildcard.retain _ _ (hkeep _) }
      | some kinds => exact
          { h with globalKind := Map.AllValues.foldl_retain hkeep _ kinds h.globalKind }

theorem Trimmed.removeSubscription (h : Trimmed r) (conn : ConnId) (sub : SubId) :
    Trimmed (r.removeSubscription conn sub).1 := by
  unfold SubscriptionRegistry.removeSubscription
  cases lookup conn r.subs with
  | none => exact h
  | some connSubs =>
    dsimp only
    cases lookup sub connSubs with
    | none => exact h
    | some entry => exact (h.withSubs _).removeFromIndex _ _ _ _ _

theorem trimmed_foldl_removeConnectionStep {conn : ConnId} {connSubs : Map SubId SubEntry} :
    ∀ (l : List SubId) {acc : SubscriptionRegistry × List RemovedSubscription}, Trimmed acc.1 →
      Trimmed (l.foldl (removeConnectionStep conn connSubs) acc).1
  | [], _, h => h
  | sub :: l, acc, h => by
    rw [List.foldl_cons]
    refine trimmed_foldl_removeConnectionStep l ?_
    unfold removeConnectionStep
    cases lookup sub connSubs with
    | none => exact h
    | some entry => exact h.removeFromIndex _ _ _ _ _

theorem trimmed_foldl_removeListedStep {conn : ConnId} : ∀ (l : List SubId)
    {acc : SubscriptionRegistry × List (SubId × RemovedSubscription)}, Trimmed acc.1 →
      Trimmed (l.foldl (removeListedStep conn) acc).1
  | [], _, h => h
  | sub :: l, acc, h => by
    rw [List.foldl_cons]
    refine trimmed_foldl_removeListedStep l ?_
    rw [removeListedStep_fst]
    exact h.removeSubscription conn sub

theorem Trimmed.removeConnection (h : Trimmed r) (order : HashOrder SubId) (conn : ConnId) :
    Trimmed (r.removeConnection order conn).1 := by
  unfold SubscriptionRegistry.removeConnection
  cases lookup conn r.subs with
  | none => exact h
  | some connSubs => exact trimmed_foldl_removeConnectionStep _ (h.withSubs _)

/-- **Every call drops the buckets it empties.** -/
theorem trimmed_call (h : Trimmed r) (call : Call) : Trimmed (r.call call) := by
  cases call with
  | register c conn sub filters ch =>
    exact ((h.removeSubscription conn sub).withSubs _).addToIndex _ _ _ _ _
  | removeSubscription conn sub => exact h.removeSubscription conn sub
  | removeConnection order conn => exact h.removeConnection order conn
  | removeChannelSubscriptions order c conn ch => exact trimmed_foldl_removeListedStep _ h

theorem trimmed_run (calls : List Call) : Trimmed (run calls) := by
  have hall : ∀ (calls : List Call) {r : SubscriptionRegistry}, Trimmed r →
      Trimmed (calls.foldl SubscriptionRegistry.call r) := by
    intro calls
    induction calls with
    | nil => exact fun h => h
    | cons call calls ih => exact fun h => ih (trimmed_call h call)
  exact hall calls trimmed_new

/-- All five indexes are empty. -/
def IndexesEmpty (r : SubscriptionRegistry) : Prop :=
  r.channelKindIndex = ∅ ∧ r.channelWildcardIndex = ∅ ∧ r.globalKindIndex = ∅ ∧
    r.globalPKindIndex = ∅ ∧ r.globalWildcardIndex = ∅

theorem eq_empty_of_buckets {K V : Type} [DecidableEq K] {m : Map K (List V)}
    (h : Map.AllValues (fun l => l ≠ []) m) (hnil : ∀ k, Map.bucket m k = []) : m = ∅ := by
  refine Finmap.ext_lookup fun k => ?_
  rw [Finmap.lookup_empty, Finmap.lookup_eq_none, Map.mem_iff_bucket_ne_nil h k, not_not]
  exact hnil k

theorem indexesEmpty_of_none (ht : Trimmed r) (hi : IndexInv r) (h : ∀ p, r.entryAt p = none) :
    IndexesEmpty r := by
  have hslot : ∀ s, r.slot s = [] := by
    intro s
    refine List.eq_nil_iff_forall_not_mem.mpr fun p hp => ?_
    obtain ⟨entry, hentry, _⟩ := (hi s p).mp hp
    rw [← entryAt, h p] at hentry
    cases hentry
  exact ⟨eq_empty_of_buckets ht.channelKind fun k => hslot (.channelKind k.1 k.2),
    eq_empty_of_buckets ht.channelWildcard fun k => hslot (.channelWildcard k.1 k.2),
    eq_empty_of_buckets ht.globalKind fun k => hslot (.globalKind k.1 k.2),
    eq_empty_of_buckets ht.globalPKind fun k => hslot (.globalPKind k),
    eq_empty_of_buckets ht.globalWildcard fun k => hslot (.globalWildcard k)⟩

end SubscriptionRegistry

/-! ## The books of a whole run -/

/--
What the counters and reports owe after a run: `live` are the registered pairs, and everything
is told from them.
-/
structure BooksExact (calls : List Call) (connOrder : HashOrder ConnId) (subOrder : HashOrder SubId)
    (live : Finset (ConnId × SubId)) : Prop where
  subscriptions : (SubscriptionRegistry.run calls).totalSubscriptions connOrder = live.card
  connections : (SubscriptionRegistry.run calls).totalConnections = (live.image Prod.fst).card
  perCommunity : ∀ c, lookup c
    ((SubscriptionRegistry.run calls).perCommunitySubscriptions connOrder subOrder)
    = let n := ((values (fun p => registered calls p.1 p.2) live).filter fun entry =>
            entry.communityId = c).card
      if n = 0 then none else some n
  reports : (SubscriptionRegistry.new.returnedOver calls : Multiset RemovedSubscription)
      + (values (fun p => registered calls p.1 p.2) live).map SubEntry.scope
    = (registrations calls : Multiset RemovedSubscription)
  indexes : live = ∅ → (SubscriptionRegistry.run calls).IndexesEmpty

namespace SubscriptionRegistry

theorem entryAt_run (calls : List Call) : (run calls).entryAt = fun p =>
    registered calls p.1 p.2 := by
  funext p
  rw [entryAt, getEntry_run]

/-- `total_connections` counts what `opened` says, and that is every connection in use. -/
theorem totalConnections_run_iff {calls : List Call} {live : Finset (ConnId × SubId)}
    (h : Support (fun p => registered calls p.1 p.2) live) :
    (run calls).totalConnections = (live.image Prod.fst).card
      ↔ ∀ conn, opened calls conn = true → ∃ sub, (registered calls conn sub).isSome = true := by
  have hsub : live.image Prod.fst ⊆ (run calls).subs.keys := by
    intro conn hconn
    obtain ⟨p, hp, rfl⟩ := Finset.mem_image.mp hconn
    rw [Finmap.mem_keys]
    refine mem_subs_of_entryAt ?_
    rw [entryAt_run]
    exact (h p).mp hp
  have hmem : ∀ conn, conn ∈ live.image Prod.fst ↔
      ∃ sub, (registered calls conn sub).isSome = true := by
    intro conn
    rw [Finset.mem_image]
    constructor
    · rintro ⟨p, hp, rfl⟩
      exact ⟨p.2, (h p).mp hp⟩
    · rintro ⟨sub, hs⟩
      exact ⟨(conn, sub), (h (conn, sub)).mpr hs, rfl⟩
  constructor
  · intro hcard conn hopened
    have heq : live.image Prod.fst = (run calls).subs.keys :=
      Finset.eq_of_subset_of_card_le hsub (Nat.le_of_eq hcard)
    rw [← hmem, heq, Finmap.mem_keys, mem_subs_run]
    exact hopened
  · intro hall
    refine congrArg Finset.card (Finset.Subset.antisymm (fun conn hconn => ?_) hsub)
    rw [Finmap.mem_keys, mem_subs_run] at hconn
    exact (hmem conn).mpr (hall conn hconn)

/--
**The registry's books are exact if no connection has run empty.** After every sequence of
calls, the counts, the reports and the indexes are told by the registered pairs exactly if each
connection that registered a subscription since it was last removed still has one.
-/
theorem books_exact_iff (calls : List Call) (connOrder : HashOrder ConnId)
    (subOrder : HashOrder SubId) :
    (∃ live, Support (fun p => registered calls p.1 p.2) live ∧
      BooksExact calls connOrder subOrder live)
      ↔ ∀ conn, opened calls conn = true → ∃ sub, (registered calls conn sub).isSome = true := by
  constructor
  · rintro ⟨live, hlive, hbooks⟩
    exact (totalConnections_run_iff hlive).mp hbooks.connections
  · intro hall
    have hstart : Support new.scopeAt ∅ := support_none
    obtain ⟨live, hlive, hbal⟩ := calls_balance calls hstart
    have hscope : ∀ p, (run calls).scopeAt p = (registered calls p.1 p.2).map SubEntry.scope := by
      intro p
      rw [scopeAt, entryAt_run]
    have hsupport : Support (fun p => registered calls p.1 p.2) live := by
      intro p
      refine (hlive p).trans ?_
      show ((run calls).scopeAt p).isSome = true ↔ _
      rw [hscope, Option.isSome_map]
    have hentries : Support (run calls).entryAt live := by
      rw [entryAt_run]
      exact hsupport
    refine ⟨live, hsupport, ?_, ?_, ?_, ?_, ?_⟩
    · exact totalSubscriptions_eq hentries
    · exact (totalConnections_run_iff hsupport).mpr hall
    · intro c
      rw [lookup_perCommunitySubscriptions hentries c, entryAt_run]
    · have hvalues : values (run calls).scopeAt live
          = (values (fun p => registered calls p.1 p.2) live).map SubEntry.scope := by
        rw [← values_map]
        exact values_congr fun p _ => hscope p
      have hnone : values new.scopeAt ∅ = 0 := rfl
      rw [← hvalues]
      rw [hnone, zero_add] at hbal
      exact hbal
    · rintro rfl
      refine indexesEmpty_of_none (trimmed_run calls) (indexInv_run calls) fun p => ?_
      have hp := hentries p
      simpa using hp

/-- A subscription that comes and goes. -/
def lastSubscriptionRemoved : List Call :=
  [.register ⟨.ofNat 16 1⟩ (.ofNat 16 2) "feed" [] none, .removeSubscription (.ofNat 16 2) "feed"]

/-- No subscription is registered, and one connection is counted. -/
theorem not_books_exact :
    (∀ conn sub, registered lastSubscriptionRemoved conn sub = none)
      ∧ (run lastSubscriptionRemoved).totalConnections = 1
      ∧ ∀ (connOrder : HashOrder ConnId) (subOrder : HashOrder SubId),
        ¬ ∃ live, Support (fun p => registered lastSubscriptionRemoved p.1 p.2) live
          ∧ BooksExact lastSubscriptionRemoved connOrder subOrder live := by
  have hnone : ∀ conn sub, registered lastSubscriptionRemoved conn sub = none := by
    intro conn sub
    simp only [registered, lastSubscriptionRemoved, List.foldl_cons, List.foldl_nil,
      Registered.call]
    split <;> rfl
  refine ⟨hnone, by decide, ?_⟩
  rintro connOrder subOrder ⟨live, hlive, hbooks⟩
  obtain ⟨sub, hsub⟩ :=
    (totalConnections_run_iff hlive).mp hbooks.connections (.ofNat 16 2) (by decide)
  rw [hnone] at hsub
  cases hsub

end SubscriptionRegistry

end Pkzz.Relay
