import Pkzz.Relay.Subscription

/-!
# The inverted indexes agree with a full scan

Which of the five indexes holds a subscription is decided twice, by the same two
extraction functions: once when it is registered and once when it is removed. Seen from
above there is only one index, from *slots* to subscriptions, and `slotsOf` names the
slots an entry belongs in. The invariant is that a slot holds a subscription exactly when
the authoritative map has an entry for it that belongs in that slot. Every call keeps it.

What fan-out needs on top is *coverage*: an entry whose filters match an event belongs in
one of the slots probed for that event. The re-check in `push_match` does the rest.
-/

namespace Pkzz.Relay

open Pkzz.Core Pkzz.Lib
open Finmap (lookup)

/-! ## What the extraction functions return -/

theorem mem_pushUnseen {α : Type} [DecidableEq α] {out : List α} {x y : α} :
    y ∈ pushUnseen out x ↔ y ∈ out ∨ y = x := by
  unfold pushUnseen
  split
  · rename_i hx
    constructor
    · exact .inl
    · rintro (hy | rfl)
      · exact hy
      · exact hx
  · simp

theorem nodup_pushUnseen {α : Type} [DecidableEq α] {out : List α} {x : α} (h : out.Nodup) :
    (pushUnseen out x).Nodup := by
  unfold pushUnseen
  split
  · exact h
  rename_i hx
  rw [List.nodup_append]
  refine ⟨h, by simp, ?_⟩
  intro a ha b hb
  rw [List.mem_singleton.mp hb]
  intro he
  exact hx (he ▸ ha)

theorem mem_foldl_pushUnseen {α : Type} [DecidableEq α] {y : α} :
    ∀ {l out : List α}, y ∈ l.foldl pushUnseen out ↔ y ∈ out ∨ y ∈ l
  | [], out => by simp
  | x :: l, out => by
    rw [List.foldl_cons, mem_foldl_pushUnseen, mem_pushUnseen, List.mem_cons, or_assoc]

/-- A union of kinds exists only when every filter names its kinds, and is their union. -/
theorem extractKindsFromFiltersGo_some :
    ∀ {fs : List Filter} {acc kinds : List Kind},
      extractKindsFromFiltersGo acc fs = some kinds →
      (∀ k, k ∈ acc → k ∈ kinds)
        ∧ ∀ f ∈ fs, ∃ filterKinds, f.kinds = some filterKinds ∧ ∀ k ∈ filterKinds, k ∈ kinds
  | [], acc, kinds, h => by
    have hk : acc = kinds := by simpa [extractKindsFromFiltersGo] using h
    subst hk
    exact ⟨fun _ hk => hk, by simp⟩
  | f :: fs, acc, kinds, h => by
    unfold extractKindsFromFiltersGo at h
    split at h
    · rename_i filterKinds hf
      obtain ⟨hacc, hrest⟩ := extractKindsFromFiltersGo_some h
      refine ⟨fun k hk => hacc k (mem_foldl_pushUnseen.mpr (.inl hk)), ?_⟩
      intro g hg
      rcases List.mem_cons.mp hg with hgf | hg
      · subst hgf
        exact ⟨filterKinds, hf, fun k hk => hacc k (mem_foldl_pushUnseen.mpr (.inr hk))⟩
      · exact hrest g hg
    · exact absurd h (by simp)

/--
When the `(kind, #p)` keys are used, every filter either can match nothing, or contributes
a key for each of its kinds with each of its `#p` values.
-/
theorem extractGlobalPKindIndexKeysGo_some {c : CommunityId} :
    ∀ {fs : List Filter} {acc keys : List GlobalPKindIndexKey},
      extractGlobalPKindIndexKeysGo c acc fs = some keys →
      (∀ key, key ∈ acc → key ∈ keys)
        ∧ ∀ f ∈ fs, ∃ kinds, f.kinds = some kinds ∧ (kinds = [] ∨
            ∃ pValues, f.genericTag pTag = some pValues
              ∧ ∀ k ∈ kinds, ∀ p ∈ pValues, ⟨c, k, p⟩ ∈ keys)
  | [], acc, keys, h => by
    have hk : acc = keys := by simpa [extractGlobalPKindIndexKeysGo] using h
    subst hk
    exact ⟨fun _ hk => hk, by simp⟩
  | f :: fs, acc, keys, h => by
    unfold extractGlobalPKindIndexKeysGo at h
    split at h
    · exact absurd h (by simp)
    rename_i kinds hf
    split at h
    · -- an empty kinds list is skipped
      rename_i hempty
      obtain ⟨hacc, hrest⟩ := extractGlobalPKindIndexKeysGo_some h
      refine ⟨hacc, ?_⟩
      intro g hg
      rcases List.mem_cons.mp hg with hgf | hg
      · subst hgf
        exact ⟨kinds, hf, .inl (by simpa using hempty)⟩
      · exact hrest g hg
    · split at h
      · exact absurd h (by simp)
      · rename_i pValues hp
        split at h
        · exact absurd h (by simp)
        obtain ⟨hacc, hrest⟩ := extractGlobalPKindIndexKeysGo_some h
        refine ⟨fun key hk => hacc key (mem_foldl_pushUnseen.mpr (.inl hk)), ?_⟩
        intro g hg
        rcases List.mem_cons.mp hg with hgf | hg
        · subst hgf
          refine ⟨kinds, hf, .inr ⟨pValues, hp, ?_⟩⟩
          intro k hk p hpv
          refine hacc _ (mem_foldl_pushUnseen.mpr (.inr ?_))
          unfold globalPKindKeys
          exact List.mem_flatMap.mpr ⟨k, hk, List.mem_map.mpr ⟨p, hpv, rfl⟩⟩
        · exact hrest g hg

/-! ## Slots -/

/-- An entry scoped to a channel of a community. -/
def SubEntry.ScopedTo (entry : SubEntry) (c : CommunityId) (ch : Uuid) : Prop :=
  entry.communityId = c ∧ entry.channelId = some ch

instance (entry : SubEntry) (c : CommunityId) (ch : Uuid) : Decidable (entry.ScopedTo c ch) :=
  inferInstanceAs (Decidable (_ ∧ _))

/-- A bucket of one of the five indexes. -/
inductive IndexSlot where
  | channelKind (communityId : CommunityId) (key : IndexKey)
  | channelWildcard (communityId : CommunityId) (channelId : Uuid)
  | globalKind (communityId : CommunityId) (kind : Kind)
  | globalPKind (key : GlobalPKindIndexKey)
  | globalWildcard (communityId : CommunityId)
  deriving DecidableEq

/-- The slots an entry belongs in. -/
def slotsOf (entry : SubEntry) : List IndexSlot :=
  match entry.channelId with
  | some ch =>
    match extractKindsFromFilters entry.filters with
    | none => [.channelWildcard entry.communityId ch]
    | some kinds => kinds.map fun kind => .channelKind entry.communityId ⟨ch, kind⟩
  | none =>
    match extractGlobalPKindIndexKeys entry.communityId entry.filters with
    | some keys => keys.map .globalPKind
    | none =>
      match extractKindsFromFilters entry.filters with
      | none => [.globalWildcard entry.communityId]
      | some kinds => kinds.map (.globalKind entry.communityId)

namespace SubscriptionRegistry

/-- What a slot holds. -/
def slot (r : SubscriptionRegistry) : IndexSlot → List (ConnId × SubId)
  | .channelKind c key => Map.bucket r.channelKindIndex (c, key)
  | .channelWildcard c ch => Map.bucket r.channelWildcardIndex (c, ch)
  | .globalKind c kind => Map.bucket r.globalKindIndex (c, kind)
  | .globalPKind key => Map.bucket r.globalPKindIndex key
  | .globalWildcard c => Map.bucket r.globalWildcardIndex c

/-- **Registration writes exactly the slots of the entry.** -/
theorem mem_slot_addToIndex {r : SubscriptionRegistry} {conn : ConnId} {sub : SubId}
    {filters : List Filter} {c : CommunityId} {ch : Option Uuid} {s : IndexSlot}
    {p : ConnId × SubId} :
    p ∈ (r.addToIndex conn sub filters c ch).slot s
      ↔ p ∈ r.slot s ∨ (p = (conn, sub) ∧ s ∈ slotsOf ⟨filters, c, ch⟩) := by
  unfold addToIndex slotsOf
  -- the branch taken decides which one of the five indexes is written
  cases ch with
  | some ch =>
    cases extractKindsFromFilters filters with
    | none => cases s <;> simp [slot, Map.mem_bucket_pushBack]
    | some kinds => cases s <;> simp [slot, Map.mem_bucket_foldl_pushBack]
  | none =>
    cases extractGlobalPKindIndexKeys c filters with
    | some keys => cases s <;> simp [slot, Map.mem_bucket_foldl_pushBack]
    | none =>
      cases extractKindsFromFilters filters with
      | none => cases s <;> simp [slot, Map.mem_bucket_pushBack]
      | some kinds => cases s <;> simp [slot, Map.mem_bucket_foldl_pushBack]

/-- **Removal clears exactly the slots of the entry, and of nobody else.** -/
theorem mem_slot_removeFromIndex {r : SubscriptionRegistry} {conn : ConnId} {sub : SubId}
    {filters : List Filter} {c : CommunityId} {ch : Option Uuid} {s : IndexSlot}
    {p : ConnId × SubId} :
    p ∈ (r.removeFromIndex conn sub filters c ch).slot s
      ↔ p ∈ r.slot s ∧ (s ∈ slotsOf ⟨filters, c, ch⟩ → p ≠ (conn, sub)) := by
  unfold removeFromIndex slotsOf
  cases ch with
  | some ch =>
    cases extractKindsFromFilters filters with
    | none => cases s <;> simp [slot, Map.mem_bucket_retain]
    | some kinds => cases s <;> simp [slot, Map.mem_bucket_foldl_retain]
  | none =>
    cases extractGlobalPKindIndexKeys c filters with
    | some keys => cases s <;> simp [slot, Map.mem_bucket_foldl_retain]
    | none =>
      cases extractKindsFromFilters filters with
      | none => cases s <;> simp [slot, Map.mem_bucket_retain]
      | some kinds => cases s <;> simp [slot, Map.mem_bucket_foldl_retain]

/-! ## What each call does to the authoritative map -/

theorem addToIndex_subs {r : SubscriptionRegistry} {conn : ConnId} {sub : SubId}
    {filters : List Filter} {c : CommunityId} {ch : Option Uuid} :
    (r.addToIndex conn sub filters c ch).subs = r.subs := by
  unfold addToIndex
  cases ch with
  | some ch => cases extractKindsFromFilters filters <;> rfl
  | none =>
    cases extractGlobalPKindIndexKeys c filters with
    | some keys => rfl
    | none => cases extractKindsFromFilters filters <;> rfl

theorem removeFromIndex_subs {r : SubscriptionRegistry} {conn : ConnId} {sub : SubId}
    {filters : List Filter} {c : CommunityId} {ch : Option Uuid} :
    (r.removeFromIndex conn sub filters c ch).subs = r.subs := by
  unfold removeFromIndex
  cases ch with
  | some ch => cases extractKindsFromFilters filters <;> rfl
  | none =>
    cases extractGlobalPKindIndexKeys c filters with
    | some keys => rfl
    | none => cases extractKindsFromFilters filters <;> rfl

theorem getEntry_congr {r r' : SubscriptionRegistry} (h : r'.subs = r.subs) (conn : ConnId)
    (sub : SubId) : r'.getEntry conn sub = r.getEntry conn sub := by
  unfold getEntry
  rw [h]

/-- A subscription that was never registered is not touched by its removal. -/
theorem removeSubscription_of_none {r : SubscriptionRegistry} {conn : ConnId} {sub : SubId}
    (h : r.getEntry conn sub = none) : r.removeSubscription conn sub = (r, none) := by
  unfold removeSubscription
  unfold getEntry at h
  cases hc : lookup conn r.subs with
  | none => rfl
  | some connSubs =>
    rw [hc, Option.bind_some] at h
    dsimp only
    rw [h]

/-- A registered one is taken out of the map, then out of its slots, and its scope reported. -/
theorem removeSubscription_of_some {r : SubscriptionRegistry} {conn : ConnId} {sub : SubId}
    {entry : SubEntry} (h : r.getEntry conn sub = some entry) :
    ∃ r' : SubscriptionRegistry,
      r.removeSubscription conn sub
          = (r'.removeFromIndex conn sub entry.filters entry.communityId entry.channelId,
              some ⟨entry.communityId, entry.channelId⟩)
        ∧ (∀ s, r'.slot s = r.slot s)
        ∧ ∀ a b, r'.getEntry a b = if a = conn ∧ b = sub then none else r.getEntry a b := by
  unfold removeSubscription
  unfold getEntry at h
  cases hc : lookup conn r.subs with
  | none => rw [hc] at h; exact absurd h (by simp)
  | some connSubs =>
    rw [hc, Option.bind_some] at h
    dsimp only
    rw [h]
    refine ⟨_, rfl, ?_, ?_⟩
    · intro s
      cases s <;> rfl
    · intro a b
      unfold getEntry
      dsimp only
      rw [Map.lookup_insert_eq]
      by_cases ha : a = conn
      · subst ha
        rw [if_pos rfl, hc, Option.bind_some, Option.bind_some, Map.lookup_erase_eq]
        simp
      · rw [if_neg ha, if_neg (fun hab => ha hab.1)]

theorem getEntry_removeSubscription {r : SubscriptionRegistry} {conn a : ConnId}
    {sub b : SubId} :
    (r.removeSubscription conn sub).1.getEntry a b
      = if a = conn ∧ b = sub then none else r.getEntry a b := by
  cases he : r.getEntry conn sub with
  | none =>
    rw [removeSubscription_of_none he]
    split
    · rename_i hab
      rw [hab.1, hab.2, he]
    · rfl
  | some entry =>
    obtain ⟨r', hr', _, hget⟩ := removeSubscription_of_some he
    rw [hr', getEntry_congr removeFromIndex_subs, hget]

theorem getEntry_registerScoped {r : SubscriptionRegistry} {conn a : ConnId} {sub b : SubId}
    {filters : List Filter} {c : CommunityId} {ch : Option Uuid} :
    (r.registerScoped c conn sub filters ch).1.getEntry a b
      = if a = conn ∧ b = sub then some ⟨filters, c, ch⟩ else r.getEntry a b := by
  have hrem := @getEntry_removeSubscription r conn a sub b
  unfold registerScoped
  dsimp only
  rw [getEntry_congr addToIndex_subs]
  revert hrem
  generalize (r.removeSubscription conn sub).1 = r'
  intro hrem
  unfold getEntry at hrem ⊢
  dsimp only
  rw [Map.lookup_insert_eq]
  by_cases ha : a = conn
  · subst ha
    rw [if_pos rfl, Option.bind_some, Map.lookup_insert_eq]
    by_cases hb : b = sub
    · rw [if_pos hb, if_pos ⟨rfl, hb⟩]
    rw [if_neg hb, if_neg (fun hab => hb hab.2)]
    rw [if_neg (fun hab => hb hab.2)] at hrem
    rw [← hrem]
    cases lookup a r'.subs <;> simp
  · rw [if_neg ha, if_neg (fun hab => ha hab.1), hrem, if_neg (fun hab => ha hab.1)]

/-! ### Removing a whole connection -/

/-- The loop of `remove_connection` leaves the map alone and clears the slots it visits. -/
theorem foldl_removeConnectionStep {conn : ConnId} {connSubs : Map SubId SubEntry} :
    ∀ (l : List SubId) (acc : SubscriptionRegistry × List RemovedSubscription),
      (l.foldl (removeConnectionStep conn connSubs) acc).1.subs = acc.1.subs
        ∧ ∀ s p, p ∈ (l.foldl (removeConnectionStep conn connSubs) acc).1.slot s
            ↔ p ∈ acc.1.slot s ∧ ¬ (p.1 = conn ∧ p.2 ∈ l ∧
                ∃ entry, lookup p.2 connSubs = some entry ∧ s ∈ slotsOf entry)
  | [], acc => by simp
  | b :: l, acc => by
    rw [List.foldl_cons]
    obtain ⟨hsubs, hslot⟩ := foldl_removeConnectionStep l (removeConnectionStep conn connSubs acc b)
    unfold removeConnectionStep at hsubs hslot ⊢
    cases hb : lookup b connSubs with
    | none =>
      rw [hb] at hsubs hslot
      refine ⟨hsubs, ?_⟩
      intro s p
      rw [hslot]
      constructor
      · rintro ⟨hp, hno⟩
        refine ⟨hp, ?_⟩
        rintro ⟨h1, h2, entry, h3, h4⟩
        rcases List.mem_cons.mp h2 with h2 | h2
        · rw [h2, hb] at h3
          exact absurd h3 (by simp)
        · exact hno ⟨h1, h2, entry, h3, h4⟩
      · rintro ⟨hp, hno⟩
        refine ⟨hp, ?_⟩
        rintro ⟨h1, h2, h3⟩
        exact hno ⟨h1, List.mem_cons_of_mem _ h2, h3⟩
    | some entry =>
      rw [hb] at hsubs hslot
      dsimp only at hsubs hslot
      refine ⟨hsubs.trans removeFromIndex_subs, ?_⟩
      intro s p
      rw [hslot, mem_slot_removeFromIndex]
      constructor
      · rintro ⟨⟨hp, hne⟩, hno⟩
        refine ⟨hp, ?_⟩
        rintro ⟨h1, h2, entry', h3, h4⟩
        rcases List.mem_cons.mp h2 with h2 | h2
        · rw [h2, hb, Option.some.injEq] at h3
          subst h3
          exact hne h4 (Prod.ext h1 h2)
        · exact hno ⟨h1, h2, entry', h3, h4⟩
      · rintro ⟨hp, hno⟩
        refine ⟨⟨hp, ?_⟩, ?_⟩
        · intro hs hpe
          subst hpe
          exact hno ⟨rfl, by simp, entry, hb, hs⟩
        · rintro ⟨h1, h2, h3⟩
          exact hno ⟨h1, List.mem_cons_of_mem _ h2, h3⟩

theorem getEntry_removeConnection {r : SubscriptionRegistry} {order : HashOrder SubId}
    {conn a : ConnId} {b : SubId} :
    (r.removeConnection order conn).1.getEntry a b
      = if a = conn then none else r.getEntry a b := by
  unfold removeConnection
  cases hc : lookup conn r.subs with
  | none =>
    dsimp only
    split
    · rename_i ha
      subst ha
      unfold getEntry
      rw [hc, Option.bind_none]
    · rfl
  | some connSubs =>
    dsimp only
    rw [getEntry_congr (foldl_removeConnectionStep _ _).1]
    unfold getEntry
    dsimp only
    rw [Map.lookup_erase_eq]
    split
    · rfl
    · rfl

/-! ### Removing the subscriptions of a channel -/

theorem mem_channelSubIds {r : SubscriptionRegistry} {order : HashOrder SubId} {c : CommunityId}
    {conn : ConnId} {ch : Uuid} {sub : SubId} :
    sub ∈ r.channelSubIds order c conn ch
      ↔ ∃ entry, r.getEntry conn sub = some entry ∧ entry.ScopedTo c ch := by
  unfold channelSubIds getEntry SubEntry.ScopedTo
  cases hc : lookup conn r.subs with
  | none => simp
  | some connSubs =>
    rw [Option.bind_some, List.mem_filter, HashOrder.mem_keys]
    cases hs : lookup sub connSubs with
    | none => simp
    | some entry =>
      have hmem : sub ∈ connSubs := Finmap.mem_of_lookup_eq_some hs
      simp [hmem]

theorem nodup_channelSubIds {r : SubscriptionRegistry} {order : HashOrder SubId}
    {c : CommunityId} {conn : ConnId} {ch : Uuid} :
    (r.channelSubIds order c conn ch).Nodup := by
  unfold channelSubIds
  cases lookup conn r.subs with
  | none => exact List.nodup_nil
  | some connSubs => exact (order.nodup_keys connSubs).filter _

theorem removeListedStep_fst {conn : ConnId} {sub : SubId}
    {acc : SubscriptionRegistry × List (SubId × RemovedSubscription)} :
    (removeListedStep conn acc sub).1 = (acc.1.removeSubscription conn sub).1 := by
  unfold removeListedStep
  split <;> (rename_i heq; rw [heq])

theorem removeListedStep_snd {conn : ConnId} {sub : SubId} {entry : SubEntry}
    {acc : SubscriptionRegistry × List (SubId × RemovedSubscription)}
    (h : acc.1.getEntry conn sub = some entry) :
    (removeListedStep conn acc sub).2
      = acc.2 ++ [(sub, ⟨entry.communityId, entry.channelId⟩)] := by
  obtain ⟨r', hr', _, _⟩ := removeSubscription_of_some h
  unfold removeListedStep
  rw [hr']

/-- The removal loop takes out every listed subscription and reports each one, in order. -/
theorem foldl_removeListedStep {conn : ConnId} {c : CommunityId} {ch : Uuid} :
    ∀ (l : List SubId) (acc : SubscriptionRegistry × List (SubId × RemovedSubscription)),
      l.Nodup →
      (∀ sub ∈ l, ∃ entry, acc.1.getEntry conn sub = some entry ∧ entry.ScopedTo c ch) →
      (l.foldl (removeListedStep conn) acc).2 = acc.2 ++ l.map (fun sub => (sub, ⟨c, some ch⟩))
        ∧ ∀ a b, (l.foldl (removeListedStep conn) acc).1.getEntry a b
            = if a = conn ∧ b ∈ l then none else acc.1.getEntry a b
  | [], acc, _, _ => by simp
  | sub :: l, acc, hnd, hall => by
    obtain ⟨entry, hentry, hscope⟩ := hall sub (by simp)
    obtain ⟨hsub, hnd⟩ := List.nodup_cons.mp hnd
    have hget : ∀ a b, (removeListedStep conn acc sub).1.getEntry a b
        = if a = conn ∧ b = sub then none else acc.1.getEntry a b := by
      intro a b
      rw [removeListedStep_fst, getEntry_removeSubscription]
    have hall' : ∀ b ∈ l, ∃ entry, (removeListedStep conn acc sub).1.getEntry conn b = some entry
        ∧ entry.ScopedTo c ch := by
      intro b hb
      obtain ⟨e, he, hs⟩ := hall b (List.mem_cons_of_mem _ hb)
      refine ⟨e, ?_, hs⟩
      have hne : b ≠ sub := fun hbs => hsub (hbs ▸ hb)
      rw [hget, if_neg (fun hab => hne hab.2), he]
    obtain ⟨hlist, hrest⟩ := foldl_removeListedStep l _ hnd hall'
    rw [List.foldl_cons]
    refine ⟨?_, ?_⟩
    · rw [hlist, removeListedStep_snd hentry, hscope.1, hscope.2, List.append_assoc,
        List.map_cons, List.singleton_append]
    · intro a b
      rw [hrest, hget]
      by_cases ha : a = conn
      · by_cases hb : b = sub
        · simp [ha, hb]
        · simp [ha, hb]
      · simp [ha]

theorem getEntry_removeChannelSubscriptionsScoped {r : SubscriptionRegistry}
    {order : HashOrder SubId} {c : CommunityId} {conn a : ConnId} {ch : Uuid} {b : SubId} :
    (r.removeChannelSubscriptionsScoped order c conn ch).1.getEntry a b
      = if a = conn ∧ b ∈ r.channelSubIds order c conn ch then none else r.getEntry a b :=
  (foldl_removeListedStep (r.channelSubIds order c conn ch) (r, []) nodup_channelSubIds
    (fun _ hb => mem_channelSubIds.mp hb)).2 a b

/-- **Every subscription of the connection in that channel is reported, once.** -/
theorem removeChannelSubscriptionsScoped_reports {r : SubscriptionRegistry}
    {order : HashOrder SubId} {c : CommunityId} {conn : ConnId} {ch : Uuid} :
    (r.removeChannelSubscriptionsScoped order c conn ch).2
      = (r.channelSubIds order c conn ch).map fun sub => (sub, ⟨c, some ch⟩) :=
  (foldl_removeListedStep (r.channelSubIds order c conn ch) (r, []) nodup_channelSubIds
    (fun _ hb => mem_channelSubIds.mp hb)).1

/-! ## The invariant -/

/-- A slot holds exactly the registered subscriptions that belong in it. -/
def IndexInv (r : SubscriptionRegistry) : Prop :=
  ∀ s p, p ∈ r.slot s ↔ ∃ entry, r.getEntry p.1 p.2 = some entry ∧ s ∈ slotsOf entry

theorem indexInv_new : IndexInv .new := by
  intro s p
  have hslot : (new.slot s) = [] := by cases s <;> rfl
  have hget : new.getEntry p.1 p.2 = none := rfl
  rw [hslot, hget]
  simp

theorem indexInv_removeSubscription {r : SubscriptionRegistry} (h : IndexInv r) (conn : ConnId)
    (sub : SubId) : IndexInv (r.removeSubscription conn sub).1 := by
  cases he : r.getEntry conn sub with
  | none =>
    rw [removeSubscription_of_none he]
    exact h
  | some entry =>
    intro s p
    rw [getEntry_removeSubscription]
    obtain ⟨r', hr', hslot, _⟩ := removeSubscription_of_some he
    rw [hr', mem_slot_removeFromIndex, hslot, h s p]
    by_cases hp : p.1 = conn ∧ p.2 = sub
    · -- its own slots are cleared, and it was in no others
      rw [if_pos hp, hp.1, hp.2, he]
      constructor
      · rintro ⟨⟨e, h1, h2⟩, hno⟩
        rw [Option.some.injEq] at h1
        subst h1
        exact absurd (Prod.ext hp.1 hp.2) (hno h2)
      · rintro ⟨_, h1, _⟩
        exact absurd h1 (by simp)
    · rw [if_neg hp]
      constructor
      · rintro ⟨hex, _⟩
        exact hex
      · intro hex
        refine ⟨hex, ?_⟩
        rintro _ hpe
        exact hp (by rw [hpe]; exact ⟨rfl, rfl⟩)

theorem indexInv_registerScoped {r : SubscriptionRegistry} (h : IndexInv r) (c : CommunityId)
    (conn : ConnId) (sub : SubId) (filters : List Filter) (ch : Option Uuid) :
    IndexInv (r.registerScoped c conn sub filters ch).1 := by
  have hrem := indexInv_removeSubscription h conn sub
  have hnone : (r.removeSubscription conn sub).1.getEntry conn sub = none := by
    rw [getEntry_removeSubscription, if_pos ⟨rfl, rfl⟩]
  have hget := fun a b => @getEntry_registerScoped r conn a sub b filters c ch
  have hget' := fun a b => @getEntry_removeSubscription r conn a sub b
  intro s p
  rw [hget]
  unfold registerScoped
  dsimp only
  rw [mem_slot_addToIndex]
  have hslot : ∀ subs,
      ({ (r.removeSubscription conn sub).1 with subs := subs } : SubscriptionRegistry).slot s
        = (r.removeSubscription conn sub).1.slot s := by
    intro subs
    cases s <;> rfl
  rw [hslot, hrem s p]
  by_cases hp : p.1 = conn ∧ p.2 = sub
  · -- the old entry is gone, so only the new one decides
    rw [if_pos hp, hp.1, hp.2, hnone]
    have hpe : p = (conn, sub) := Prod.ext hp.1 hp.2
    simp [hpe]
  · rw [if_neg hp, hget', if_neg hp]
    constructor
    · rintro (hex | ⟨hpe, _⟩)
      · exact hex
      · exact absurd (by rw [hpe]; exact ⟨rfl, rfl⟩) hp
    · exact .inl

theorem indexInv_removeConnection {r : SubscriptionRegistry} (h : IndexInv r)
    (order : HashOrder SubId) (conn : ConnId) : IndexInv (r.removeConnection order conn).1 := by
  have hget := fun a b => @getEntry_removeConnection r order conn a b
  intro s p
  rw [hget]
  unfold removeConnection
  cases hc : lookup conn r.subs with
  | none =>
    dsimp only
    rw [h s p]
    have hnone : ∀ b, r.getEntry conn b = none := by
      intro b
      unfold getEntry
      rw [hc, Option.bind_none]
    by_cases hp : p.1 = conn
    · rw [if_pos hp, hp, hnone]
    · rw [if_neg hp]
  | some connSubs =>
    dsimp only
    rw [(foldl_removeConnectionStep _ _).2]
    have hslot :
        ({ r with subs := Finmap.erase conn r.subs } : SubscriptionRegistry).slot s
          = r.slot s := by
      cases s <;> rfl
    rw [hslot, h s p]
    have hlook : ∀ b, r.getEntry conn b = lookup b connSubs := by
      intro b
      unfold getEntry
      rw [hc, Option.bind_some]
    by_cases hp : p.1 = conn
    · -- every entry of the connection is visited, since the loop ran over its whole map
      rw [if_pos hp, hp, hlook]
      constructor
      · rintro ⟨⟨entry, h1, h2⟩, hno⟩
        refine absurd ⟨rfl, ?_, entry, h1, h2⟩ hno
        rw [HashOrder.mem_keys]
        exact Finmap.mem_of_lookup_eq_some h1
      · rintro ⟨_, h1, _⟩
        exact absurd h1 (by simp)
    · rw [if_neg hp]
      constructor
      · rintro ⟨hex, _⟩
        exact hex
      · intro hex
        exact ⟨hex, fun hno => hp hno.1⟩

theorem indexInv_foldl_removeListedStep {conn : ConnId} :
    ∀ (l : List SubId) (acc : SubscriptionRegistry × List (SubId × RemovedSubscription)),
      IndexInv acc.1 → IndexInv (l.foldl (removeListedStep conn) acc).1
  | [], _, h => h
  | sub :: l, acc, h => by
    rw [List.foldl_cons]
    refine indexInv_foldl_removeListedStep l _ ?_
    rw [removeListedStep_fst]
    exact indexInv_removeSubscription h conn sub

/-- **Every call keeps the indexes in step with the map.** -/
theorem indexInv_call {r : SubscriptionRegistry} (h : IndexInv r) (call : Call) :
    IndexInv (r.call call) := by
  cases call with
  | register c conn sub filters ch => exact indexInv_registerScoped h c conn sub filters ch
  | removeSubscription conn sub => exact indexInv_removeSubscription h conn sub
  | removeConnection order conn => exact indexInv_removeConnection h order conn
  | removeChannelSubscriptions order c conn ch =>
    exact indexInv_foldl_removeListedStep _ (r, []) h

theorem indexInv_foldl_call :
    ∀ (calls : List Call) {r : SubscriptionRegistry}, IndexInv r → IndexInv (calls.foldl call r)
  | [], _, h => h
  | c :: calls, _, h => indexInv_foldl_call calls (indexInv_call h c)

theorem indexInv_run (calls : List Call) : IndexInv (run calls) :=
  indexInv_foldl_call calls indexInv_new

end SubscriptionRegistry

/-! ## What a registry is for -/

/-- The registered subscriptions, with no index in sight. -/
abbrev Registered := ConnId → SubId → Option SubEntry

/-- What each call does to the registered subscriptions. -/
def Registered.call (m : Registered) : Call → Registered
  | .register c conn sub filters ch => fun a b =>
    if a = conn ∧ b = sub then some ⟨filters, c, ch⟩ else m a b
  | .removeSubscription conn sub => fun a b => if a = conn ∧ b = sub then none else m a b
  | .removeConnection _ conn => fun a b => if a = conn then none else m a b
  | .removeChannelSubscriptions _ c conn ch => fun a b =>
    (m a b).filter fun entry => ¬ (a = conn ∧ entry.ScopedTo c ch)

/-- The subscriptions registered after a sequence of calls, starting from none. -/
def registered (calls : List Call) : Registered := calls.foldl Registered.call fun _ _ => none

theorem getEntry_call {r : SubscriptionRegistry} {m : Registered} (h : r.getEntry = m)
    (call : Call) : (r.call call).getEntry = m.call call := by
  subst h
  funext a b
  cases call with
  | register c conn sub filters ch => exact SubscriptionRegistry.getEntry_registerScoped
  | removeSubscription conn sub => exact SubscriptionRegistry.getEntry_removeSubscription
  | removeConnection order conn => exact SubscriptionRegistry.getEntry_removeConnection
  | removeChannelSubscriptions order c conn ch =>
    refine SubscriptionRegistry.getEntry_removeChannelSubscriptionsScoped.trans ?_
    simp only [Registered.call, SubscriptionRegistry.mem_channelSubIds]
    cases he : r.getEntry a b with
    | none => simp
    | some entry =>
      rw [Option.filter_some]
      by_cases ha : a = conn
      · subst ha
        by_cases hs : entry.ScopedTo c ch
        · simp [he, hs]
        · simp [he, hs]
      · simp [ha]

theorem getEntry_foldl_call :
    ∀ (calls : List Call) {r : SubscriptionRegistry} {m : Registered}, r.getEntry = m →
      (calls.foldl SubscriptionRegistry.call r).getEntry = calls.foldl Registered.call m
  | [], _, _, h => h
  | c :: calls, _, _, h => getEntry_foldl_call calls (getEntry_call h c)

/-- **The registry refines the plain map of registered subscriptions.** -/
theorem getEntry_run (calls : List Call) :
    (SubscriptionRegistry.run calls).getEntry = registered calls :=
  getEntry_foldl_call calls rfl

/-! ## Fan-out -/

/-- An entry that `fan_out_scoped` has to return for an event of a community. -/
def SubEntry.Receives (entry : SubEntry) (c : CommunityId) (event : StoredEvent) : Prop :=
  entry.communityId = c ∧ entry.channelId = event.channelId
    ∧ filtersMatch entry.filters event = true

/-- The slots probed for an event. -/
def probes (c : CommunityId) (event : StoredEvent) : List IndexSlot :=
  match event.channelId with
  | some ch => [.channelKind c ⟨ch, event.event.kind⟩, .channelWildcard c ch]
  | none =>
    (eventPTagValues event).map (fun p => .globalPKind ⟨c, event.event.kind, p⟩)
      ++ [.globalKind c event.event.kind, .globalWildcard c]

/--
**Coverage.** An entry that receives an event belongs in a slot probed for that event:
the keys are computed from the filters, and a matching filter vouches for the key the
event asks for.
-/
theorem exists_probe_of_receives {entry : SubEntry} {c : CommunityId} {event : StoredEvent}
    (h : entry.Receives c event) : ∃ s ∈ probes c event, s ∈ slotsOf entry := by
  obtain ⟨filters, c', ch'⟩ := entry
  obtain ⟨hc, hch, hmatch⟩ := h
  dsimp only at hc hch hmatch
  subst hc
  obtain ⟨f, hf, hone⟩ := List.any_eq_true.mp hmatch
  unfold probes slotsOf
  dsimp only
  rw [hch]
  cases event.channelId with
  | some ch =>
    dsimp only
    cases hk : extractKindsFromFilters filters with
    | none => exact ⟨.channelWildcard c' ch, by simp, by simp⟩
    | some kinds =>
      obtain ⟨fk, hfk, hsub⟩ := (extractKindsFromFiltersGo_some hk).2 f hf
      have hkind := hsub _ (kind_mem_of_match hone hfk)
      exact ⟨.channelKind c' ⟨ch, event.event.kind⟩, by simp, List.mem_map.mpr ⟨_, hkind, rfl⟩⟩
  | none =>
    dsimp only
    cases hp : extractGlobalPKindIndexKeys c' filters with
    | some keys =>
      obtain ⟨fk, hfk, hkeys⟩ := (extractGlobalPKindIndexKeysGo_some hp).2 f hf
      have hkind := kind_mem_of_match hone hfk
      rcases hkeys with hempty | ⟨pValues, hpv, hkeys⟩
      · -- a filter with no kinds matches nothing
        rw [hempty] at hkind
        exact absurd hkind (by simp)
      obtain ⟨p, hpval, hpev⟩ := exists_value_of_constraint (by decide)
        (tagConstraint_of_match hone hpv)
      have hptag : pTag.toString = "p" := by decide
      rw [hptag] at hpev
      refine ⟨.globalPKind ⟨c', event.event.kind, p⟩, ?_, ?_⟩
      · refine List.mem_append_left _ (List.mem_map.mpr ⟨p, ?_, rfl⟩)
        unfold eventPTagValues
        exact mem_foldl_pushUnseen.mpr (.inr hpev)
      · exact List.mem_map.mpr ⟨_, hkeys _ hkind p hpval, rfl⟩
    | none =>
      dsimp only
      cases hk : extractKindsFromFilters filters with
      | none => exact ⟨.globalWildcard c', by simp, by simp⟩
      | some kinds =>
        obtain ⟨fk, hfk, hsub⟩ := (extractKindsFromFiltersGo_some hk).2 f hf
        have hkind := hsub _ (kind_mem_of_match hone hfk)
        exact ⟨.globalKind c' event.event.kind, by simp, List.mem_map.mpr ⟨_, hkind, rfl⟩⟩

namespace SubscriptionRegistry

theorem fanOutCandidates_eq {r : SubscriptionRegistry} {c : CommunityId} {event : StoredEvent} :
    r.fanOutCandidates c event = (probes c event).flatMap r.slot := by
  unfold fanOutCandidates probes
  cases event.channelId with
  | some ch => simp [slot]
  | none => simp [slot, List.flatMap_map]

/-- The candidates that pass the re-check of `push_match`, each once. -/
theorem mem_foldl_pushMatch {r : SubscriptionRegistry} {c : CommunityId} {event : StoredEvent}
    {p : ConnId × SubId} :
    ∀ (l results : List (ConnId × SubId)),
      p ∈ l.foldl (r.pushMatch c event) results
        ↔ p ∈ results ∨ (p ∈ l ∧ ∃ entry, r.getEntry p.1 p.2 = some entry ∧ entry.Receives c event)
  | [], results => by simp
  | q :: l, results => by
    have hq : p ∈ r.pushMatch c event results q
        ↔ p ∈ results
          ∨ (p = q ∧ ∃ entry, r.getEntry p.1 p.2 = some entry ∧ entry.Receives c event) := by
      unfold pushMatch SubEntry.Receives
      cases he : r.getEntry q.1 q.2 with
      | none =>
        dsimp only
        constructor
        · exact .inl
        · rintro (hp | ⟨rfl, entry, h1, _⟩)
          · exact hp
          · rw [he] at h1
            exact absurd h1 (by simp)
      | some entry =>
        dsimp only
        split
        · rename_i hm
          rw [mem_pushUnseen]
          constructor
          · rintro (hp | rfl)
            · exact .inl hp
            · exact .inr ⟨rfl, entry, he, hm⟩
          · rintro (hp | ⟨hp, _⟩)
            · exact .inl hp
            · exact .inr hp
        · rename_i hm
          constructor
          · exact .inl
          · rintro (hp | ⟨rfl, entry', h1, h2⟩)
            · exact hp
            · rw [he, Option.some.injEq] at h1
              subst h1
              exact absurd h2 hm
    rw [List.foldl_cons, mem_foldl_pushMatch l, hq, List.mem_cons, or_and_right, or_assoc]

theorem nodup_foldl_pushMatch {r : SubscriptionRegistry} {c : CommunityId} {event : StoredEvent} :
    ∀ (l results : List (ConnId × SubId)), results.Nodup →
      (l.foldl (r.pushMatch c event) results).Nodup
  | [], _, h => h
  | q :: l, results, h => by
    rw [List.foldl_cons]
    refine nodup_foldl_pushMatch l _ ?_
    unfold pushMatch
    split
    · exact h
    · split
      · exact nodup_pushUnseen h
      · exact h

/-- With the indexes in step, probing finds what a scan of the map would find. -/
theorem mem_fanOutScoped {r : SubscriptionRegistry} (h : IndexInv r) {c : CommunityId}
    {event : StoredEvent} {p : ConnId × SubId} :
    p ∈ r.fanOutScoped c event
      ↔ ∃ entry, r.getEntry p.1 p.2 = some entry ∧ entry.Receives c event := by
  unfold fanOutScoped
  rw [mem_foldl_pushMatch, fanOutCandidates_eq]
  constructor
  · rintro (hp | ⟨_, hex⟩)
    · exact absurd hp (by simp)
    · exact hex
  · rintro ⟨entry, he, hrec⟩
    obtain ⟨s, hs, hslot⟩ := exists_probe_of_receives hrec
    refine .inr ⟨List.mem_flatMap.mpr ⟨s, hs, ?_⟩, entry, he, hrec⟩
    exact (h s p).mpr ⟨entry, he, hslot⟩

/--
**Fan-out is a full scan.** After any sequence of calls, for every community and event,
the indexes deliver to exactly the registered subscriptions that are scoped to the event
and match it, and to each of them once.
-/
theorem fanOutScoped_run (calls : List Call) (c : CommunityId) (event : StoredEvent) :
    ((run calls).fanOutScoped c event).Nodup
      ∧ ∀ conn sub, (conn, sub) ∈ (run calls).fanOutScoped c event
          ↔ ∃ entry, registered calls conn sub = some entry
              ∧ entry.communityId = c ∧ entry.channelId = event.channelId
              ∧ filtersMatch entry.filters event = true := by
  refine ⟨nodup_foldl_pushMatch _ [] List.nodup_nil, ?_⟩
  intro conn sub
  rw [mem_fanOutScoped (indexInv_run calls), getEntry_run]
  rfl

end SubscriptionRegistry

end Pkzz.Relay
