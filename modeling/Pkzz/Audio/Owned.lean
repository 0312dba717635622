import Pkzz.Audio.Leases
import Pkzz.Audio.LetGo

/-!
# No ownerless owner

A peer that was admitted under `LocalOwner` has to hold the signals of the renewer of its own lease,
or it would go on after the lease is lost. The registry looks at the session only, so the entry it
finds may be another community's or another generation's.
-/

namespace Pkzz.Audio

open Pkzz.Core Pkzz.Lib Pkzz.Tunnel
open Finmap (lookup)

/-! ## The property -/

namespace HuddleOwnerRegistry

/-- The peer with these signals has been told to leave. -/
def told (o : HuddleOwnerRegistry) (signals : HuddleOwnerSignals) : Bool :=
  (signals.lost.any fun i => (o.renewers[i]?).any Renewer.lost) ||
    signals.draining.any fun i => (o.renewers[i]?).any Renewer.draining

/-- The renewer is for a lease of the community. -/
def ownRenewer (o : HuddleOwnerRegistry) (communityId : CommunityId) (i : Nat) : Bool :=
  (o.renewers[i]?).any fun rn => rn.lease.communityId = communityId

/-- The signals are those of an entry whose renewer renews this very lease. -/
def Watches (o : HuddleOwnerRegistry) (key : HuddleKey) (generation : Nat)
    (signals : HuddleOwnerSignals) : Prop :=
  ∃ entry rn, lookup key.2 o.entries = some entry ∧
    signals = ⟨some entry.renewer, some entry.renewer⟩ ∧
    o.renewers[entry.renewer]? = some rn ∧ rn.phase = .renewing ∧
    rn.lease.communityId = key.1 ∧ rn.lease.sessionId = key.2 ∧ rn.lease.generation = generation

/-- What a peer under `LocalOwner` holds. -/
structure Serves (o : HuddleOwnerRegistry) (key : HuddleKey) (generation : Nat)
    (signals : HuddleOwnerSignals) : Prop where
  own : ∀ i, signals.lost = some i ∨ signals.draining = some i → o.ownRenewer key.1 i = true
  watched : o.told signals = true ∨ o.Watches key generation signals

end HuddleOwnerRegistry

/-- **No peer is ownerless.** -/
def OwnersServe (s : Pod) : Prop :=
  ∀ c conn room peerId remote generation signals, lookup c s.connections = some conn →
    conn.stage = .serving room peerId remote (some generation) signals →
      s.relay.owners.Serves conn.key generation signals

/-! ## What a step must not do -/

/-- A peer in this stage holds a signal of the renewer, and has not been told. -/
def JoinStage.reliesOn (stage : JoinStage) (o : HuddleOwnerRegistry) (i : Nat) : Bool :=
  match stage with
  | .serving _ _ _ (some _) signals =>
      (signals.lost = some i || signals.draining = some i) && !o.told signals
  | _ => false

/-- Another connection relies on the renewer. -/
def Relied (s : Pod) (c i : Nat) : Prop := ∃ e ∈ s.connections.entries, e.1 ≠ c ∧
    e.2.stage.reliesOn s.relay.owners i = true

instance (s : Pod) (c i : Nat) : Decidable (Relied s c i) := Multiset.decidableExistsMultiset

/-- What is asked of a connection's call on the registry. -/
def KeepsOwner (s : Pod) (c : Nat) (key : HuddleKey) : JoinStage → Prop
  -- `attach_signals` has to find no entry, or one of the community that has told already
  | .admitted _ _ (some (.localOwner _)) (some _) => s.relay.owners.draining = false →
      ∀ e ∈ lookup key.2 s.relay.owners.entries,
        s.relay.owners.ownRenewer key.1 e.renewer = true ∧
          s.relay.owners.told ⟨some e.renewer, some e.renewer⟩ = true
  -- what is overwritten has to be nobody's
  | .installing _ _ _ _ => ∀ e ∈ lookup key.2 s.relay.owners.entries, ¬ Relied s c e.renewer
  -- `lost_for` and `drain_for` have to find the entry of this lease, unless the peer is told
  | .watching _ _ generation lost =>
    (∀ i ∈ lost, s.relay.owners.ownRenewer key.1 i = true) ∧
    (∀ e ∈ lookup key.2 s.relay.owners.entries, s.relay.owners.ownRenewer key.1 e.renewer = true) ∧
    (s.relay.owners.told ⟨lost, s.relay.owners.signalFor key.2⟩ = true ∨
      ∃ e ∈ lookup key.2 s.relay.owners.entries, lost = some e.renewer ∧ e.generation = generation)
  -- `release` has to find the community's own entry, or none of the generation, and nobody else may
  -- rely on it
  | .emptied generation => ∀ e ∈ lookup key.2 s.relay.owners.entries, e.generation = generation →
      s.relay.owners.ownRenewer key.1 e.renewer = true ∧ ¬ Relied s c e.renewer
  | _ => True

instance (s : Pod) (c : Nat) (key : HuddleKey) : ∀ stage, Decidable (KeepsOwner s c key stage)
  | .admitted _ _ (some (.localOwner _)) (some _) =>
      inferInstanceAs (Decidable (s.relay.owners.draining = false →
      ∀ e ∈ lookup key.2 s.relay.owners.entries,
        s.relay.owners.ownRenewer key.1 e.renewer = true ∧
          s.relay.owners.told ⟨some e.renewer, some e.renewer⟩ = true))
  | .installing _ _ _ _ =>
      inferInstanceAs (Decidable (∀ e ∈ lookup key.2 s.relay.owners.entries,
      ¬ Relied s c e.renewer))
  | .watching _ _ generation lost =>
      inferInstanceAs (Decidable ((∀ i ∈ lost, s.relay.owners.ownRenewer key.1 i = true) ∧
      (∀ e ∈ lookup key.2 s.relay.owners.entries,
        s.relay.owners.ownRenewer key.1 e.renewer = true) ∧
      (s.relay.owners.told ⟨lost, s.relay.owners.signalFor key.2⟩ = true ∨
        ∃ e ∈ lookup key.2 s.relay.owners.entries, lost = some e.renewer ∧
          e.generation = generation)))
  | .emptied generation =>
      inferInstanceAs (Decidable (∀ e ∈ lookup key.2 s.relay.owners.entries,
      e.generation = generation →
      s.relay.owners.ownRenewer key.1 e.renewer = true ∧ ¬ Relied s c e.renewer))
  | .admitted _ _ none _ | .admitted _ _ (some (.remoteOwner _ _)) _ | .admitted _ _
      (some (.localOwner _)) none | .resolving | .unowned
  | .reusing _ | .validating _ _ | .resolved _ _ | .obtained _ _ _ | .serving _ _ _ _ _ | .archiving
      _ _ | .leaving _ => isTrue trivial

def KeepsOwners (s : Pod) : Event → Prop
  | .connection c .attach | .connection c (.leave _) =>
      ∀ conn ∈ lookup c s.connections, KeepsOwner s c conn.key conn.stage
  | _ => True

instance (s : Pod) : ∀ a : Event, Decidable (KeepsOwners s a)
  | .connection c .attach | .connection c (.leave _) =>
    inferInstanceAs (Decidable (∀ conn ∈ lookup c s.connections,
      KeepsOwner s c conn.key conn.stage))
  | .connection _ (.resolve _) | .connection _ .giveUp | .connection _ .getOrCreate | .connection _
      (.refuse _)
  | .connection _ (.addPeer _ _) | .connect _ _ _ _ _ | .accept _ _ | .stream _ _ | .renewer _
      _ | .drain _ _ | .startDrain | .world _ =>
    isTrue trivial

variable {cfg : Config} {r r' : Relay} {conn : Connection} {stage' : Option JoinStage} {s s' : Pod}
    {a : Event} {c : Nat}
  {o o' : HuddleOwnerRegistry} {key : HuddleKey} {generation : Nat} {signals : HuddleOwnerSignals}

/-! ### Signals stay -/

/-- Renewers keep their leases, and what they have told. -/
def HuddleOwnerRegistry.Onward (o o' : HuddleOwnerRegistry) : Prop :=
  ∀ (i : Nat) (rn : Renewer), o.renewers[i]? = some rn → ∃ rn' :
    Renewer, o'.renewers[i]? = some rn' ∧ rn'.lease = rn.lease ∧
    (rn.lost = true → rn'.lost = true) ∧ (rn.draining = true → rn'.draining = true)

theorem told_iff : o.told signals = true ↔
    (∃ i rn, signals.lost = some i ∧ o.renewers[i]? = some rn ∧ rn.lost = true) ∨
      ∃ i rn, signals.draining = some i ∧ o.renewers[i]? = some rn ∧ rn.draining = true := by
  rw [HuddleOwnerRegistry.told, Bool.or_eq_true, Option.any_eq_true, Option.any_eq_true]
  simp only [Option.any_eq_true]
  constructor
  · rintro (⟨i, hi, rn, hrn, hlost⟩ | ⟨i, hi, rn, hrn, hdraining⟩)
    · exact .inl ⟨i, rn, hi, hrn, hlost⟩
    · exact .inr ⟨i, rn, hi, hrn, hdraining⟩
  · rintro (⟨i, rn, hi, hrn, hlost⟩ | ⟨i, rn, hi, hrn, hdraining⟩)
    · exact .inl ⟨i, hi, rn, hrn, hlost⟩
    · exact .inr ⟨i, hi, rn, hrn, hdraining⟩

theorem told_onward (honward : o.Onward o') (h : o.told signals = true) :
    o'.told signals = true := by
  rcases told_iff.mp h with ⟨i, rn, hi, hrn, hlost⟩ | ⟨i, rn, hi, hrn, hdraining⟩
  · obtain ⟨rn', hrn', _, hkeep, _⟩ := honward i rn hrn
    exact told_iff.mpr (.inl ⟨i, rn', hi, hrn', hkeep hlost⟩)
  · obtain ⟨rn', hrn', _, _, hkeep⟩ := honward i rn hrn
    exact told_iff.mpr (.inr ⟨i, rn', hi, hrn', hkeep hdraining⟩)

theorem ownRenewer_iff {communityId : CommunityId} {i : Nat} :
    o.ownRenewer communityId i = true ↔ ∃ rn, o.renewers[i]? = some rn ∧
      rn.lease.communityId = communityId := by
  rw [HuddleOwnerRegistry.ownRenewer, Option.any_eq_true]
  simp only [decide_eq_true_eq]

theorem ownRenewer_onward {communityId : CommunityId} {i : Nat} (honward : o.Onward o')
    (h : o.ownRenewer communityId i = true) : o'.ownRenewer communityId i = true := by
  obtain ⟨rn, hrn, hcommunity⟩ := ownRenewer_iff.mp h
  obtain ⟨rn', hrn', hlease, _⟩ := honward i rn hrn
  exact ownRenewer_iff.mpr ⟨rn', hrn', by rw [hlease, hcommunity]⟩

/-- A peer is served on, if the watch of one that was not told stays or tells. -/
theorem serves_onward (h : o.Serves key generation signals) (honward : o.Onward o')
    (hwatch : o.told signals = false → o.Watches key generation signals → o'.told signals = true ∨
      o'.Watches key generation signals) :
    o'.Serves key generation signals := by
  refine ⟨fun i hi => ownRenewer_onward honward (h.own i hi), ?_⟩
  cases htold : o.told signals with
  | true => exact .inl (told_onward honward htold)
  | false =>
    rcases h.watched with hwas | hwatches
    · rw [htold] at hwas
      cases hwas
    · exact hwatch htold hwatches

theorem onward_spawn (o : HuddleOwnerRegistry) (lease : SessionLease) (draining cancelled : Bool) :
    o.Onward (o.spawn lease draining cancelled) :=
  fun _ rn hrn => ⟨rn, HuddleOwnerRegistry.getElem?_spawn hrn, rfl, id, id⟩

theorem serves_spawn (h : o.Serves key generation signals) (lease : SessionLease)
    (draining cancelled : Bool) :
    (o.spawn lease draining cancelled).Serves key generation signals := by
  refine serves_onward h (onward_spawn o lease draining cancelled) ?_
  rintro _ ⟨entry, rn, hentry, hsignals, hrn, hrest⟩
  exact .inr ⟨entry, rn, hentry, hsignals, HuddleOwnerRegistry.getElem?_spawn hrn, hrest⟩

theorem onward_install (o : HuddleOwnerRegistry) (sessionId : Uuid) (lease : SessionLease) :
    o.Onward (o.install sessionId lease).1 := by
  rw [HuddleOwnerRegistry.install]
  split
  · exact onward_spawn o lease true true
  · exact onward_spawn o lease false false

variable {sessionId : Uuid}

/-- An entry is overwritten only where nobody relies on it. -/
theorem serves_install (h : o.Serves key generation signals) {lease : SessionLease}
    (hfree : o.told signals = false → ∀ entry, lookup sessionId o.entries = some entry →
      signals ≠ ⟨some entry.renewer, some entry.renewer⟩) :
        (o.install sessionId lease).1.Serves key generation signals := by
  refine serves_onward h (onward_install o sessionId lease) ?_
  rintro htold ⟨entry, rn, hentry, hsignals, hrn, hrest⟩
  have hne : key.2 ≠ sessionId := by
    rintro rfl
    exact hfree htold entry hentry hsignals
  refine .inr ⟨entry, rn, ?_, hsignals, ?_, hrest⟩
  · rw [HuddleOwnerRegistry.install]
    split
    · dsimp only
      rw [Map.lookup_erase_eq, if_neg hne]
      exact hentry
    · dsimp only
      rw [Map.lookup_insert_eq, if_neg hne]
      exact hentry
  · rw [HuddleOwnerRegistry.install]
    split
    · exact HuddleOwnerRegistry.getElem?_spawn hrn
    · exact HuddleOwnerRegistry.getElem?_spawn hrn

/-- An entry of the generation is dropped, or nothing happens. -/
theorem removeIf_cases (o : HuddleOwnerRegistry) (sessionId : Uuid) (generation : Nat)
    (f : Renewer → Renewer) : o.removeIf sessionId generation f = o ∨
      ∃ entry, lookup sessionId o.entries = some entry ∧ entry.generation = generation ∧
        o.removeIf sessionId generation f =
          { o with
            entries := Finmap.erase sessionId o.entries,
            renewers := o.renewers.modify entry.renewer f } := by
  rw [HuddleOwnerRegistry.removeIf]
  cases hentry : lookup sessionId o.entries with
  | none => exact .inl rfl
  | some entry =>
    dsimp only
    split
    · rename_i hgeneration
      exact .inr ⟨entry, rfl, hgeneration, rfl⟩
    · exact .inl rfl

theorem onward_modify {entries : Map Uuid HuddleOwnerEntry} {i : Nat} {f : Renewer → Renewer}
    (hlease : ∀ rn, (f rn).lease = rn.lease)
    (hlost : ∀ rn, (f rn).lost = rn.lost)
    (hdraining : ∀ rn, rn.draining = true → (f rn).draining = true) :
    o.Onward { o with entries, renewers := o.renewers.modify i f } := by
  intro j rn hrn
  dsimp only
  rw [List.getElem?_modify, hrn]
  by_cases heq : i = j
  · refine ⟨f rn, ?_, hlease rn, fun h => (hlost rn).trans h, hdraining rn⟩
    show some (if i = j then f rn else rn) = some (f rn)
    rw [if_pos heq]
  · refine ⟨rn, ?_, rfl, id, id⟩
    show some (if i = j then f rn else rn) = some rn
    rw [if_neg heq]

/-- A watch over another entry stays. -/
theorem watches_modify (hsound : o.Sound) {entry : HuddleOwnerEntry} {f : Renewer → Renewer}
    (hentry : lookup sessionId o.entries = some entry) (hne : key.2 ≠ sessionId)
    (h : o.Watches key generation signals) :
    HuddleOwnerRegistry.Watches
      { o with
        entries := Finmap.erase sessionId o.entries, renewers := o.renewers.modify entry.renewer f }
      key generation signals := by
  obtain ⟨mine, rn, hmine, hsignals, hrn, hrest⟩ := h
  have hother : entry.renewer ≠ mine.renewer := fun heq =>
    hne (HuddleOwnerRegistry.renewer_inj hsound hmine hentry heq.symm)
  refine ⟨mine, rn, ?_, hsignals, ?_, hrest⟩
  · dsimp only
    rw [Map.lookup_erase_eq, if_neg hne]
    exact hmine
  · dsimp only
    rw [List.getElem?_modify_ne _ _ hother]
    exact hrn

/-- A release serves on whoever does not rely on the entry it drops. -/
theorem serves_release (hsound : o.Sound) (h : o.Serves key generation signals) {released : Nat}
    (hfree : o.told signals = false → ∀ entry, lookup sessionId o.entries = some entry →
      entry.generation = released →
      signals ≠ ⟨some entry.renewer, some entry.renewer⟩) :
        (o.release sessionId released).Serves key generation signals := by
  rw [HuddleOwnerRegistry.release]
  rcases removeIf_cases o sessionId released fun rn => { rn with cancelled := true } with hsame |
    ⟨entry, hentry, hgeneration, hremoved⟩
  · rw [hsame]
    exact h
  rw [hremoved]
  refine serves_onward h (onward_modify (fun _ => rfl) (fun _ => rfl) fun _ => id) ?_
  intro htold hwatches
  refine .inr (watches_modify hsound hentry ?_ hwatches)
  rintro rfl
  obtain ⟨mine, _, hmine, hsignals, _⟩ := hwatches
  rw [hentry] at hmine
  cases hmine
  exact hfree htold entry hentry hgeneration hsignals

/-- A drain tells. -/
theorem serves_drain (hsound : o.Sound) (h : o.Serves key generation signals) (sessionId : Uuid)
    (drained : Nat) : (o.drain sessionId drained).Serves key generation signals := by
  rw [HuddleOwnerRegistry.drain]
  rcases removeIf_cases o sessionId drained fun rn =>
    { rn with draining := true, cancelled := true } with
    hsame | ⟨entry, hentry, _, hremoved⟩
  · rw [hsame]
    exact h
  · rw [hremoved]
    refine serves_onward h (onward_modify (fun _ => rfl) (fun _ => rfl) fun _ _ => rfl) ?_
    intro _ hwatches
    by_cases hsession : key.2 = sessionId
    · obtain ⟨mine, rn, hmine, hsignals, hrn, _⟩ := hwatches
      rw [hsession, hentry] at hmine
      cases hmine
      refine .inl (told_iff.mpr (.inr ⟨entry.renewer,
        { rn with draining := true, cancelled := true }, by rw [hsignals], ?_, rfl⟩))
      dsimp only
      rw [List.getElem?_modify_eq, hrn]
      rfl
    · exact .inr (watches_modify hsound hentry hsession hwatches)

/-- A renewer renews on, or it tells of the loss. -/
theorem serves_set (hsound : o.Sound) (h : o.Serves key generation signals) {d : SessionDirectory}
    {redis redis' : Redis} {i : Nat}
    {rn rn' : Renewer} {event : RenewerEvent} (hrn : o.renewers[i]? = some rn)
    (hstep : rn.step d redis event = some (redis', rn')) :
    HuddleOwnerRegistry.Serves { o with renewers := o.renewers.set i rn' } key generation
      signals := by
  have honward := renewer_step hstep
  obtain ⟨hlt, _⟩ := List.getElem?_eq_some_iff.mp hrn
  refine serves_onward h ?_ ?_
  · intro j rn₀ hrn₀
    dsimp only
    by_cases heq : i = j
    · rw [← heq, hrn] at hrn₀
      cases hrn₀
      refine ⟨rn', ?_, honward.lease, honward.lost, fun hdraining =>
        honward.draining.trans hdraining⟩
      rw [← heq, List.getElem?_set_self hlt]
    · exact ⟨rn₀, by rw [List.getElem?_set_ne heq, hrn₀], rfl, id, id⟩
  · rintro _ ⟨entry, rn₀, hentry, hsignals, hrn₀, hphase, hcommunity, hsession, hgeneration⟩
    by_cases heq : i = entry.renewer
    · rw [← heq, hrn] at hrn₀
      cases hrn₀
      have hrn' : (o.renewers.set i rn')[entry.renewer]? =
          some rn' := by rw [← heq, List.getElem?_set_self hlt]
      obtain ⟨rn₁, hrn₁, _, _, htells⟩ := hsound key.2 entry hentry
      rw [← heq, hrn] at hrn₁
      cases hrn₁
      rcases (tells_step htells hstep).2 with hrenewing | hlost
      · refine .inr ⟨entry, rn', hentry, hsignals, hrn', hrenewing, ?_, ?_, ?_⟩
        · rw [honward.lease, hcommunity]
        · rw [honward.lease, hsession]
        · rw [honward.lease, hgeneration]
      · exact .inl (told_iff.mpr (.inl ⟨entry.renewer, rn', by rw [hsignals], hrn', hlost⟩))
    · exact .inr ⟨entry, rn₀, hentry,
        hsignals, by dsimp only; rw [List.getElem?_set_ne heq, hrn₀],
        hphase, hcommunity, hsession, hgeneration⟩

/-! ### Every step -/

variable {peerId : Uuid} {remote : Bool}

/-- The signals a peer gets are those of its own lease. -/
theorem serves_attach {room : Nat} (hplaced : Placed s) (hleases : Leases s)
    (hconn : lookup c s.connections = some conn) (hkeeps : KeepsOwner s c conn.key conn.stage)
    (hstep : conn.attach s.relay = some (r',
      some (.serving room peerId remote (some generation) signals))) :
    r'.owners.Serves conn.key generation signals := by
  have hlease := (hplaced.connections c conn hconn).lease
  have hagrees := hleases.agrees c conn hconn
  rw [Connection.attach] at hstep
  split at hstep
  · rename_i hstage
    rw [hstage] at hkeeps hlease
    split at hstep
    · rename_i lease _ attached hattached
      cases hstep
      -- a draining registry signals the renewer it has just spawned
      rw [HuddleOwnerRegistry.attachSignals] at hattached
      split at hattached
      · cases hattached
        refine ⟨?_, .inl (told_iff.mpr (.inr ⟨_, _, rfl,
          HuddleOwnerRegistry.getElem?_spawn_last, rfl⟩))⟩
        rintro i (hi | hi)
        · cases hi
        · cases hi
          exact ownRenewer_iff.mpr ⟨_, HuddleOwnerRegistry.getElem?_spawn_last,
            (hlease lease rfl).1⟩
      · rename_i hdraining
        split at hattached
        · rename_i existing hexisting
          cases hattached
          obtain ⟨hown, htold⟩ := hkeeps (by simpa using hdraining) existing hexisting
          have honward := onward_spawn s.relay.owners lease false true
          refine ⟨?_, .inl (told_onward honward htold)⟩
          rintro i (hi | hi) <;> rw [← Option.some.inj hi] <;> exact ownRenewer_onward honward hown
        · cases hattached
    · cases hstep
  · cases hstep
  · cases hstep
  · rename_i lease hstage
    rw [hstage] at hlease hagrees
    obtain ⟨hcommunity, hsession⟩ := hlease lease rfl
    cases hstep
    -- the lease of the join goes into the registry with a renewer of its own
    rw [HuddleOwnerRegistry.install]
    split
    · refine ⟨?_, .inl (told_iff.mpr (.inr ⟨_, _, rfl,
        HuddleOwnerRegistry.getElem?_spawn_last, rfl⟩))⟩
      rintro i (hi | hi) <;> rw [← Option.some.inj hi] <;>
        exact ownRenewer_iff.mpr ⟨_, HuddleOwnerRegistry.getElem?_spawn_last, hcommunity⟩
    refine ⟨?_, .inr ⟨⟨s.relay.owners.renewers.length, lease.generation⟩, _, ?_, rfl,
      HuddleOwnerRegistry.getElem?_spawn_last, rfl, hcommunity, hsession, hagrees⟩⟩
    · rintro i (hi | hi) <;> rw [← Option.some.inj hi] <;>
        exact ownRenewer_iff.mpr ⟨_, HuddleOwnerRegistry.getElem?_spawn_last, hcommunity⟩
    · dsimp only
      rw [Map.lookup_insert_eq]
      exact if_pos rfl
  · rename_i lost hstage
    rw [hstage] at hkeeps
    cases hstep
    -- the entry found under the session is the huddle's, as the condition asks
    obtain ⟨hlost, hentries, hwatched⟩ := hkeeps
    refine ⟨?_, ?_⟩
    · rintro i (hi | hi)
      · exact hlost i hi
      · obtain ⟨entry, hentry, rfl⟩ := Option.map_eq_some_iff.mp hi
        exact hentries entry hentry
    · rcases hwatched with htold | ⟨entry, hentry, hsame, hgeneration⟩
      · exact .inl htold
      · have hentry : lookup conn.channelId s.relay.owners.entries = some entry := hentry
        obtain ⟨rn, hrn, hsession, hrngen, _, htells⟩ := hplaced.owners conn.channelId entry hentry
        have hsignal : s.relay.owners.signalFor conn.channelId = some entry.renewer := by
          rw [HuddleOwnerRegistry.signalFor, hentry]
          rfl
        obtain ⟨rn', hrn', hcommunity⟩ := ownRenewer_iff.mp (hentries entry hentry)
        rw [hrn] at hrn'
        cases hrn'
        rcases htells with hrenewing | hfired
        · exact .inr ⟨entry, rn,
            hentry, by rw [hsame, hsignal],
            hrn, hrenewing, hcommunity, hsession, hrngen.trans hgeneration⟩
        · exact .inl (told_iff.mpr (.inl ⟨entry.renewer, rn, hsame, hrn, hfired⟩))
  · cases hstep

variable {event : ConnectionEvent}

/-- Only `attach` makes a connection serve. -/
theorem attach_of_serving {room : Nat} {ownerGeneration : Option Nat}
    (hstep : conn.step cfg r event = some (r',
      some (.serving room peerId remote ownerGeneration signals))) : event = .attach := by
  have hfound : ∀ lease, cfg.found lease ≠ .serving room peerId remote ownerGeneration signals := by
    intro lease
    rw [Config.found]
    split <;> simp
  cases event with
  | attach => rfl
  | resolve now =>
    have hstep : conn.resolve cfg r now = _ := hstep
    rw [Connection.resolve] at hstep
    split at hstep
    · split at hstep
      · simp only [Option.some.injEq, Prod.mk.injEq] at hstep
        exact absurd hstep.2 (hfound _)
      · cases hstep
      · cases hstep
    · dsimp only at hstep
      split at hstep
      · cases hstep
      · simp only [Option.some.injEq, Prod.mk.injEq] at hstep
        exact absurd hstep.2 (hfound _)
      · cases hstep
    · split at hstep <;> cases hstep
    · split at hstep <;> cases hstep
    · cases hstep
  | giveUp =>
    rw [Connection.step] at hstep
    split at hstep <;> cases hstep
  | getOrCreate =>
    have hstep : conn.join r .getOrCreate = _ := hstep
    rw [Connection.join] at hstep
    split at hstep <;> cases hstep
  | refuse failure =>
    have hstep : conn.join r (.refuse failure) = _ := hstep
    rw [Connection.join] at hstep
    split at hstep
    · dsimp only at hstep
      split at hstep
      · split at hstep <;> cases hstep
      · cases hstep
      · cases hstep
      · split at hstep <;> cases hstep
      · split at hstep <;> cases hstep
    · cases hstep
  | addPeer peerId ownerIndex =>
    have hstep : conn.join r (.addPeer peerId ownerIndex) = _ := hstep
    rw [Connection.join] at hstep
    split at hstep
    · split at hstep
      · split at hstep <;> cases hstep
      · cases hstep
    · cases hstep
  | leave archived =>
    have hstep : conn.leave r archived = _ := hstep
    rw [Connection.leave] at hstep
    split at hstep
    · simp only [Option.some.injEq, Prod.mk.injEq] at hstep
      have hstage := hstep.2
      split at hstage <;> cases hstage
    · split at hstep <;> cases hstep
    · obtain ⟨_, hstage⟩ := Prod.mk.inj (Option.some.inj hstep)
      split at hstage
      · split at hstage <;> cases hstage
      · cases hstage
    · cases hstep
    · cases hstep

/-- Who serves and was not told relies on the renewer of its signals. -/
theorem relied_of_serving {c' i : Nat} {conn' : Connection} {room : Nat} (hne : c' ≠ c)
    (hconn : lookup c' s.connections = some conn')
    (hstage : conn'.stage = .serving room peerId remote (some generation) signals)
    (htold : s.relay.owners.told signals = false)
    (hsignals : signals = ⟨some i, some i⟩) : Relied s c i := by
  refine ⟨⟨c', conn'⟩, Finmap.lookup_eq_some_iff.mp hconn, hne, ?_⟩
  rw [hstage, JoinStage.reliesOn, htold, hsignals]
  simp

/-- A call of one connection on the registry serves the others on. -/
theorem serves_others (hplaced : Placed s) (hconn : lookup c s.connections = some conn)
    (hkeeps : KeepsOwners s (.connection c event))
    (hstep : conn.step cfg s.relay event = some (r', stage'))
    {c' : Nat} {conn' : Connection} {room : Nat} (hne : c' ≠ c)
    (hconn' : lookup c' s.connections = some conn')
    (hstage' : conn'.stage = .serving room peerId remote (some generation) signals)
    (h : s.relay.owners.Serves conn'.key generation signals) :
    r'.owners.Serves conn'.key generation signals := by
  have hrelied : ∀ i, s.relay.owners.told signals = false → signals = ⟨some i, some i⟩ →
      Relied s c i :=
    fun i htold hsignals => relied_of_serving hne hconn' hstage' htold hsignals
  cases event with
  | attach =>
    have hkeeps := hkeeps conn hconn
    have hstep : conn.attach s.relay = _ := hstep
    rw [Connection.attach] at hstep
    split at hstep
    · split at hstep
      · rename_i attached hattached
        cases hstep
        rw [HuddleOwnerRegistry.attachSignals] at hattached
        split at hattached
        · cases hattached
          exact serves_spawn h _ true true
        split at hattached
        · cases hattached
          exact serves_spawn h _ false true
        · cases hattached
      · cases hstep
        exact h
    · cases hstep
      exact h
    · cases hstep
      exact h
    · rename_i hstage
      rw [hstage] at hkeeps
      cases hstep
      exact serves_install h fun htold entry hentry hsignals =>
        hkeeps entry hentry (hrelied _ htold hsignals)
    · cases hstep
      exact h
    · cases hstep
  | leave archived =>
    have hkeeps := hkeeps conn hconn
    rcases leave_owners hstep with hsame | ⟨released, hstage, _, rfl⟩
    · rw [hsame]
      exact h
    · rw [hstage] at hkeeps
      exact serves_release hplaced.owners h fun htold entry hentry hgeneration hsignals =>
        (hkeeps entry hentry hgeneration).2 (hrelied _ htold hsignals)
  | resolve now =>
    rw [resolve_owners hstep]
    exact h
  | giveUp =>
    rw [Connection.step] at hstep
    split at hstep <;> cases hstep <;> exact h
  | getOrCreate =>
    rw [join_owners (show conn.join s.relay .getOrCreate = _ from hstep)]
    exact h
  | refuse failure =>
    rw [join_owners (show conn.join s.relay (.refuse failure) = _ from hstep)]
    exact h
  | addPeer peerId ownerIndex =>
    rw [join_owners (show conn.join s.relay (.addPeer peerId ownerIndex) = _ from hstep)]
    exact h

/-- **A step that keeps the owners leaves no peer ownerless.** -/
theorem serves_step (hplaced : Placed s) (hleases : Leases s) (h : OwnersServe s)
    (hkeeps : KeepsOwners s a) (hstep : (pod cfg).step s a = some s') : OwnersServe s' := by
  cases a with
  | connect c communityId channelId pubkey protocolVersion =>
    rw [pod] at hstep
    dsimp only at hstep
    split at hstep
    · cases hstep
    cases hstep
    intro c' conn' room peerId remote generation signals hconn' hstage'
    dsimp only at hconn'
    rw [Map.lookup_insert_eq] at hconn'
    split at hconn'
    · rw [← Option.some.inj hconn'] at hstage'
      dsimp only at hstage'
      split at hstage' <;> cases hstage'
    · exact h c' conn' room peerId remote generation signals hconn' hstage'
  | connection c event =>
    rw [pod] at hstep
    dsimp only at hstep
    split at hstep
    · rename_i conn hconn
      obtain ⟨⟨r', stage'⟩, hnext, rfl⟩ := Option.map_eq_some_iff.mp hstep
      intro c' conn' room peerId remote generation signals hconn' hstage'
      rcases lookup_next hconn' with ⟨rfl, stage, rfl, rfl⟩ | ⟨hne, hold⟩
      · have hstage' : stage = _ := hstage'
        subst hstage'
        have hattach := attach_of_serving hnext
        subst hattach
        -- only an attach brings a connection to the serving stage
        have hserves : r'.owners.Serves conn.key generation signals :=
          serves_attach hplaced hleases hconn (hkeeps conn hconn) hnext
        exact hserves
      · exact serves_others hplaced hconn hkeeps hnext hne hold hstage'
          (h c' conn' room peerId remote generation signals hold hstage')
    · cases hstep
  | accept st fenced =>
    rw [pod] at hstep
    dsimp only at hstep
    split at hstep
    · cases hstep
    · cases hstep
      exact h
  | stream st event =>
    rw [pod] at hstep
    dsimp only at hstep
    split at hstep
    · obtain ⟨⟨r', next⟩, hnext, rfl⟩ := Option.map_eq_some_iff.mp hstep
      intro c' conn' room peerId remote generation signals hconn' hstage'
      dsimp only
      rw [stream_owners hnext]
      exact h c' conn' room peerId remote generation signals hconn' hstage'
    · cases hstep
  | renewer i event =>
    rw [pod] at hstep
    dsimp only at hstep
    split at hstep
    · rename_i renewer hrenewer
      obtain ⟨⟨redis, renewer'⟩, hrenewer', rfl⟩ := Option.map_eq_some_iff.mp hstep
      intro c' conn' room peerId remote generation signals hconn' hstage'
      exact serves_set hplaced.owners
        (h c' conn' room peerId remote generation signals hconn' hstage') hrenewer hrenewer'
    · cases hstep
  | drain sessionId drained =>
    cases hstep
    intro c' conn' room peerId remote generation signals hconn' hstage'
    exact serves_drain hplaced.owners
      (h c' conn' room peerId remote generation signals hconn' hstage') sessionId drained
  | startDrain =>
    cases hstep
    intro c' conn' room peerId remote generation signals hconn' hstage'
    obtain ⟨hown, hwatched⟩ := h c' conn' room peerId remote generation signals hconn' hstage'
    exact ⟨hown, hwatched⟩
  | world call =>
    obtain ⟨next, _, rfl⟩ := Option.map_eq_some_iff.mp hstep
    exact h

/-- A connection's step does not touch the renewers of another community. -/
theorem renewers_of_others (hconn : lookup c s.connections = some conn)
    (hkeeps : KeepsOwners s (.connection c event))
    (hstep : conn.step cfg s.relay event = some (r', stage')) {i : Nat} {rn : Renewer}
    (hrn : s.relay.owners.renewers[i]? = some rn) (hne : rn.lease.communityId ≠ conn.communityId) :
    r'.owners.renewers[i]? = some rn := by
  cases event with
  | attach =>
    have hstep : conn.attach s.relay = _ := hstep
    rw [Connection.attach] at hstep
    split at hstep
    · split at hstep
      · rename_i attached hattached
        cases hstep
        rw [HuddleOwnerRegistry.attachSignals] at hattached
        split at hattached
        · cases hattached
          exact HuddleOwnerRegistry.getElem?_spawn hrn
        split at hattached
        · cases hattached
          exact HuddleOwnerRegistry.getElem?_spawn hrn
        · cases hattached
      · cases hstep
        exact hrn
    · cases hstep
      exact hrn
    · cases hstep
      exact hrn
    · cases hstep
      rw [HuddleOwnerRegistry.install]
      split
      · exact HuddleOwnerRegistry.getElem?_spawn hrn
      · exact HuddleOwnerRegistry.getElem?_spawn hrn
    · cases hstep
      exact hrn
    · cases hstep
  | leave archived =>
    have hkeeps := hkeeps conn hconn
    rcases leave_owners hstep with hsame | ⟨released, hstage, _, rfl⟩
    · rw [hsame]
      exact hrn
    rw [hstage] at hkeeps
    dsimp only
    rw [HuddleOwnerRegistry.release]
    rcases removeIf_cases s.relay.owners conn.channelId released fun rn =>
      { rn with cancelled := true } with
      hsame | ⟨entry, hentry, hgeneration, hremoved⟩
    · rw [hsame]
      exact hrn
    · -- the entry that is released is of the huddle itself
      have hother : entry.renewer ≠ i := by
        rintro rfl
        obtain ⟨rn', hrn', hcommunity⟩ := ownRenewer_iff.mp (hkeeps entry hentry hgeneration).1
        rw [hrn] at hrn'
        cases hrn'
        exact hne hcommunity
      rw [hremoved]
      dsimp only
      rw [List.getElem?_modify_ne _ _ hother]
      exact hrn
  | resolve now =>
    rw [resolve_owners hstep]
    exact hrn
  | giveUp =>
    rw [Connection.step] at hstep
    split at hstep <;> cases hstep <;> exact hrn
  | getOrCreate =>
    rw [join_owners (show conn.join s.relay .getOrCreate = _ from hstep)]
    exact hrn
  | refuse failure =>
    rw [join_owners (show conn.join s.relay (.refuse failure) = _ from hstep)]
    exact hrn
  | addPeer peerId ownerIndex =>
    rw [join_owners (show conn.join s.relay (.addPeer peerId ownerIndex) = _ from hstep)]
    exact hrn

/-! ## Runs -/

theorem owners_run {events : List Event} (hrun : (pod cfg).run .start events = some s)
    (halways : (pod cfg).Always KeepsOwners .start events) : Placed s ∧ Leases s ∧
    OwnersServe s := by
  refine Machine.invariant (I := fun s => Placed s ∧ Leases s ∧ OwnersServe s) ?_ ⟨placed_start,
    leases_start, ?_⟩ halways hrun
  · rintro s a s' ⟨hplaced, hleases, hserves⟩ hkeeps hstep
    exact ⟨placed_step hplaced hstep, leases_step hleases hstep,
      serves_step hplaced hleases hserves hkeeps hstep⟩
  · intro c conn room peerId remote generation signals hconn
    cases hconn

/-- **No owner is ownerless.** In a run whose calls on the registry find what they should, every
peer under `LocalOwner` has been told to leave or holds the signals of the entry that renews its
lease; a lease has one renewer; and no connection touches a renewer of another community. -/
theorem owners_served {events : List Event} (hrun : (pod cfg).run .start events = some s)
    (halways : (pod cfg).Always KeepsOwners .start events) :
    OwnersServe s ∧
    (∀ (i j : Nat) (rn rn' : Renewer), s.relay.owners.renewers[i]? = some rn →
      s.relay.owners.renewers[j]? = some rn' →
      rn.lease.communityId = rn'.lease.communityId → rn.lease.sessionId = rn'.lease.sessionId →
      rn.lease.generation = rn'.lease.generation → i = j) ∧
    ∀ c event s', (pod cfg).step s (.connection c event) = some s' →
      KeepsOwners s (.connection c event) →
      ∀ conn, lookup c s.connections = some conn →
        ∀ (i : Nat) (rn : Renewer), s.relay.owners.renewers[i]? = some rn →
        rn.lease.communityId ≠ conn.communityId → s'.relay.owners.renewers[i]? = some rn := by
  obtain ⟨_, hleases, hserves⟩ := owners_run hrun halways
  refine ⟨hserves, ?_, ?_⟩
  · intro i j rn rn' hrn hrn' hcommunity hsession hgeneration
    exact renewer_unique hleases hrn hrn' hcommunity hsession hgeneration
  · intro c event s' hstep hkeeps conn hconn i rn hrn hne
    rw [pod] at hstep
    dsimp only at hstep
    rw [hconn] at hstep
    obtain ⟨⟨r', stage'⟩, hnext, rfl⟩ := Option.map_eq_some_iff.mp hstep
    exact renewers_of_others hconn hkeeps hnext hrn hne

/-- A second client of the huddle reuses the renewer of the first. -/
def reused : List Event :=
  ownsHuddle 1 "a" (.ofNat 16 11) ++ ownsHuddle 2 "b" (.ofNat 16 12)

/-- The second client serves under the entry of the first. -/
theorem owners_served_reused : ∃ s, (pod meshPod).run .start reused = some s ∧
    (lookup 2 s.connections).map Connection.stage =
      some (.serving 0 (FixedBytes.ofNat 16 12) false (some 1) ⟨some 0, some 0⟩) ∧
        OwnersServe s := by
  have hrun : ((pod meshPod).run .start reused).map
    (fun s => (lookup 2 s.connections).map Connection.stage) =
      some (some (.serving 0 (FixedBytes.ofNat 16 12) false (some 1) ⟨some 0, some 0⟩)) := by decide
  have halways : (pod meshPod).Always KeepsOwners .start reused := by decide
  obtain ⟨s, hs, hend⟩ := Option.map_eq_some_iff.mp hrun
  exact ⟨s, hs, hend, (owners_served hs halways).1⟩

/-- A channel of another community, with the same id. -/
def twinKey : HuddleKey := (⟨.ofNat 16 7⟩, sampleKey.2)

/-- The client of the twin channel finds the entry of the first community. -/
def captured : List Event :=
  ownsHuddle 1 "a" (.ofNat 16 11) ++
    [.connect 2 twinKey.1 twinKey.2 "b" 2, .connection 2 (.resolve 0), .connection 2 (.resolve 0),
      .connection 2 .getOrCreate, .connection 2 (.addPeer (.ofNat 16 12) 0),
        .connection 2 .attach]

/-- The twin's lease is cancelled under its client. -/
theorem not_owners_served : ∃ s, (pod meshPod).run .start captured = some s ∧
    s.relay.owners.renewers.map (fun rn => (rn.lease.communityId, rn.cancelled)) =
      [(sampleKey.1, false), (twinKey.1, true)] ∧
    ¬ OwnersServe s := by
  have hrun : ((pod meshPod).run .start captured).map
      (fun s => (s.relay.owners.renewers.map (fun rn => (rn.lease.communityId, rn.cancelled)),
        lookup 2 s.connections)) = some ([(sampleKey.1, false), (twinKey.1, true)],
          some ⟨twinKey.1, twinKey.2, "b", 2,
            .serving 1 (FixedBytes.ofNat 16 12) false (some 1) ⟨some 0, some 0⟩⟩) := by decide
  obtain ⟨s, hs, hend⟩ := Option.map_eq_some_iff.mp hrun
  obtain ⟨hrenewers, hconn⟩ := Prod.mk.inj hend
  refine ⟨s, hs, hrenewers, ?_⟩
  intro hserves
  -- the signals are those of the first community's renewer
  obtain ⟨rn, hrn, hcommunity⟩ :=
    ownRenewer_iff.mp ((hserves 2 _ 1 _ false 1 ⟨some 0, some 0⟩ hconn rfl).own 0 (.inl rfl))
  have hfirst := congrArg (fun l => l[0]?) hrenewers
  rw [List.getElem?_map, hrn] at hfirst
  have htwin : sampleKey.1 = twinKey.1 := by
    rw [← (Prod.mk.inj (Option.some.inj hfirst)).1]
    exact hcommunity
  exact absurd htwin (by decide)

end Pkzz.Audio
