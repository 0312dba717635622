import Pkzz.Tunnel.Fence

/-!
# Owners of huddles

The leases a pod holds for the huddles it owns, from `audio/join.rs`: the background renewer of a
lease, and `HuddleOwnerRegistry`, which is keyed by the session alone.

A renewer, and the tokens it shares with the entry of the registry, are one record. The entry, and
who was given the signals, has its number.
-/

namespace Pkzz.Audio

open Pkzz.Core Pkzz.Lib Pkzz.Tunnel

/-! ## The renewer -/

/-- Where the task of a renewer is. -/
inductive RenewerPhase where
  /-- In the loop of ticks. -/
  | renewing
  /-- Behind the loop, before the release. -/
  | releasing (callerCancelled : Bool)
  | ended
  deriving DecidableEq

/-- `HuddleLeaseRenewer`, with the tokens of its entry. -/
structure Renewer where
  lease : SessionLease
  lost : Bool
  draining : Bool
  cancelled : Bool
  phase : RenewerPhase
  deriving DecidableEq

/-- What the task of a renewer does next. A call on the directory may also fail on its way. -/
inductive RenewerEvent where
  | tick (now : Int) (failed : Bool)
  | cancelled
  | release (failed : Bool)

/-- The renewer's task, and the store behind the directory. -/
def Renewer.step (d : SessionDirectory) (redis : Redis) (r : Renewer) : RenewerEvent →
    Option (Redis × Renewer)
  | .tick now failed =>
    if r.phase ≠ .renewing then none
    else if failed then some (redis, { r with lost := true, phase := .releasing false })
    else
      let renewal := d.renew redis now r.lease
      match renewal.2 with
      | .ok (.renewed _) => some (renewal.1, r)
      | _ => some (renewal.1, { r with lost := true, phase := .releasing false })
  | .cancelled => if r.phase = .renewing ∧ r.cancelled = true then
      some (redis, { r with phase := .releasing true }) else none
  | .release failed =>
    match r.phase with
    | .releasing callerCancelled =>
      if failed then some (redis, { r with lost := r.lost || !callerCancelled, phase := .ended })
      else
        let release := SessionDirectory.release redis r.lease
        match release.2 with
        | .ok (.released _) => some (release.1, { r with phase := .ended })
        | .ok (.notOwner _ _) => some (release.1, { r with lost := true, phase := .ended })
        | .error _ => some (release.1,
            { r with lost := r.lost || !callerCancelled, phase := .ended })
    | _ => none

/-! ## The registry -/

structure HuddleOwnerEntry where
  renewer : Nat
  generation : Nat
  deriving DecidableEq

/-- `HuddleOwnerRegistry`, and every renewer that was spawned. -/
structure HuddleOwnerRegistry where
  entries : Map Uuid HuddleOwnerEntry
  draining : Bool
  renewers : List Renewer

/-- The tokens that were given out, by the renewers they belong to. A token nobody ever cancels is
`none`. -/
structure HuddleOwnerSignals where
  lost : Option Nat
  draining : Option Nat
  deriving DecidableEq

namespace HuddleOwnerRegistry

def new : HuddleOwnerRegistry := ⟨∅, false, []⟩

/-- `lost_for` and `drain_for`. -/
def signalFor (o : HuddleOwnerRegistry) (sessionId : Uuid) : Option Nat :=
  (Finmap.lookup sessionId o.entries).map HuddleOwnerEntry.renewer

/-- `spawn_observable_huddle_renewer`. -/
def spawn (o : HuddleOwnerRegistry) (lease : SessionLease) (draining cancelled : Bool) :
    HuddleOwnerRegistry :=
  { o with renewers := o.renewers ++ [⟨lease, false, draining, cancelled, .renewing⟩] }

/-- `attach_signals`, as far as it does not install an entry: the lease is let go by a renewer that
is cancelled before it starts. -/
def attachSignals (o : HuddleOwnerRegistry) (sessionId : Uuid) (lease : SessionLease) :
    Option (HuddleOwnerRegistry × HuddleOwnerSignals) :=
  if o.draining then some (o.spawn lease true true, ⟨none, some o.renewers.length⟩)
  else
    match Finmap.lookup sessionId o.entries with
    | some existing => some (o.spawn lease false true,
        ⟨some existing.renewer, some existing.renewer⟩)
    | none => none

/-- The rest of `attach_signals`: the entry is published, and retracted if a shutdown has begun. -/
def install (o : HuddleOwnerRegistry) (sessionId : Uuid) (lease : SessionLease) :
    HuddleOwnerRegistry × HuddleOwnerSignals :=
  let signals : HuddleOwnerSignals := ⟨some o.renewers.length, some o.renewers.length⟩
  if o.draining then ({ o.spawn lease true true with entries := Finmap.erase sessionId o.entries },
    signals)
  else
    ({ o.spawn lease false false with
        entries := Finmap.insert sessionId ⟨o.renewers.length, lease.generation⟩ o.entries },
          signals)

/-- `remove_if`, on the generation: the entry is dropped and its renewer cancelled. -/
def removeIf (o : HuddleOwnerRegistry) (sessionId : Uuid) (generation : Nat)
    (f : Renewer → Renewer) : HuddleOwnerRegistry :=
  match Finmap.lookup sessionId o.entries with
  | some entry =>
    if entry.generation = generation then
      { o with
        entries := Finmap.erase sessionId o.entries, renewers := o.renewers.modify entry.renewer f }
    else o
  | none => o

/-- `release`. -/
def release (o : HuddleOwnerRegistry) (sessionId : Uuid) (generation : Nat) : HuddleOwnerRegistry :=
  o.removeIf sessionId generation fun r => { r with cancelled := true }

/-- `drain`. -/
def drain (o : HuddleOwnerRegistry) (sessionId : Uuid) (generation : Nat) : HuddleOwnerRegistry :=
  o.removeIf sessionId generation fun r => { r with draining := true, cancelled := true }

/-- The first line of `drain_all`; the drains of the entries follow. -/
def startDrain (o : HuddleOwnerRegistry) : HuddleOwnerRegistry := { o with draining := true }

end HuddleOwnerRegistry

/-! ## Entries and their renewers -/

variable {d : SessionDirectory} {redis redis' : Redis} {rn rn' : Renewer}

/-- What no step of a renewer changes, and what it only sets. -/
structure Renewer.Onward (rn rn' : Renewer) : Prop where
  lease : rn'.lease = rn.lease
  cancelled : rn'.cancelled = rn.cancelled
  draining : rn'.draining = rn.draining
  lost : rn.lost = true → rn'.lost = true
  renewing : rn'.phase = .renewing → rn.phase = .renewing

/-- A renewer that was not cancelled by its registry goes on renewing until it has told of the loss.
-/
def Renewer.Tells (rn : Renewer) : Prop :=
  rn.cancelled = false ∧ (rn.phase = .renewing ∨ rn.lost = true)

theorem renewer_step {event : RenewerEvent} (h : rn.step d redis event = some (redis', rn')) :
    rn.Onward rn' := by
  cases event with
  | tick now failed =>
    rw [Renewer.step] at h
    split at h
    · cases h
    rename_i hphase
    have hphase := not_not.mp hphase
    split at h
    · cases h
      exact ⟨rfl, rfl, rfl, fun _ => rfl, fun _ => hphase⟩
    dsimp only at h
    split at h
    · cases h
      exact ⟨rfl, rfl, rfl, id, id⟩
    · cases h
      exact ⟨rfl, rfl, rfl, fun _ => rfl, fun _ => hphase⟩
  | cancelled =>
    rw [Renewer.step] at h
    split at h
    · rename_i hphase
      cases h
      exact ⟨rfl, rfl, rfl, id, fun _ => hphase.1⟩
    · cases h
  | release failed =>
    rw [Renewer.step] at h
    split at h
    · split at h
      · cases h
        refine ⟨rfl, rfl, rfl, ?_, ?_⟩
        · intro hlost
          simp [hlost]
        · intro hphase
          cases hphase
      · dsimp only at h
        split at h
        · cases h
          refine ⟨rfl, rfl, rfl, id, ?_⟩
          intro hphase
          cases hphase
        · cases h
          refine ⟨rfl, rfl, rfl, fun _ => rfl, ?_⟩
          intro hphase
          cases hphase
        · cases h
          refine ⟨rfl, rfl, rfl, ?_, ?_⟩
          · intro hlost
            simp [hlost]
          · intro hphase
            cases hphase
    · cases h

theorem tells_step {event : RenewerEvent} (h : rn.Tells)
    (hstep : rn.step d redis event = some (redis', rn')) : rn'.Tells := by
  obtain ⟨hcancelled, hphase⟩ := h
  have honward := renewer_step hstep
  refine ⟨honward.cancelled.trans hcancelled, ?_⟩
  rcases hphase with hphase | hlost
  · cases event with
    | tick now failed =>
      rw [Renewer.step, if_neg (not_not.mpr hphase)] at hstep
      split at hstep
      · cases hstep
        exact .inr rfl
      dsimp only at hstep
      split at hstep
      · cases hstep
        exact .inl hphase
      · cases hstep
        exact .inr rfl
    | cancelled =>
      rw [Renewer.step, hcancelled] at hstep
      simp at hstep
    | release failed =>
      rw [Renewer.step, hphase] at hstep
      cases hstep
  · exact .inr (honward.lost hlost)

namespace HuddleOwnerRegistry

/-- An entry has a renewer of its session and its generation, which tells of a loss. -/
def Sound (o : HuddleOwnerRegistry) : Prop :=
  ∀ sessionId entry, Finmap.lookup sessionId o.entries = some entry →
    ∃ rn, o.renewers[entry.renewer]? = some rn ∧ rn.lease.sessionId = sessionId ∧
      rn.lease.generation = entry.generation ∧ rn.Tells

variable {o : HuddleOwnerRegistry} {sessionId : Uuid} {lease : SessionLease}

theorem sound_new : new.Sound := by
  intro sessionId entry h
  cases h

theorem getElem?_spawn {i : Nat} {draining cancelled : Bool} (h : o.renewers[i]? = some rn) :
    (o.spawn lease draining cancelled).renewers[i]? = some rn := by
  obtain ⟨hlt, _⟩ := List.getElem?_eq_some_iff.mp h
  rw [spawn, List.getElem?_append_left hlt, h]

theorem getElem?_spawn_last {draining cancelled : Bool} :
    (o.spawn lease draining cancelled).renewers[o.renewers.length]? =
    some ⟨lease, false, draining, cancelled, .renewing⟩ := by
  rw [spawn, List.getElem?_append_right le_rfl, Nat.sub_self]
  rfl

theorem sound_spawn (h : o.Sound) (draining cancelled : Bool) :
    (o.spawn lease draining cancelled).Sound := by
  intro sessionId entry hentry
  obtain ⟨rn, hrn, hrest⟩ := h sessionId entry hentry
  exact ⟨rn, getElem?_spawn hrn, hrest⟩

theorem sound_install (h : o.Sound) (hsession : lease.sessionId = sessionId) :
    (o.install sessionId lease).1.Sound := by
  rw [install]
  split
  · intro sessionId' entry hentry
    dsimp only at hentry
    rw [Map.lookup_erase_eq] at hentry
    split at hentry
    · cases hentry
    · exact sound_spawn h true true sessionId' entry hentry
  · intro sessionId' entry hentry
    dsimp only at hentry
    rw [Map.lookup_insert_eq] at hentry
    split at hentry
    · rename_i heq
      cases hentry
      exact ⟨_, getElem?_spawn_last, hsession.trans heq.symm, rfl, rfl, .inl rfl⟩
    · exact sound_spawn h false false sessionId' entry hentry

/-- Two entries do not share a renewer. -/
theorem renewer_inj (h : o.Sound) {sessionId' : Uuid} {entry entry' : HuddleOwnerEntry}
    (hentry : Finmap.lookup sessionId o.entries = some entry)
    (hentry' : Finmap.lookup sessionId' o.entries = some entry')
    (heq : entry.renewer = entry'.renewer) : sessionId = sessionId' := by
  obtain ⟨rn, hrn, hsession, _⟩ := h sessionId entry hentry
  obtain ⟨rn', hrn', hsession', _⟩ := h sessionId' entry' hentry'
  rw [heq, hrn'] at hrn
  rw [← hsession, ← hsession', Option.some.inj hrn]

theorem sound_removeIf (h : o.Sound) (sessionId : Uuid) (generation : Nat) (f : Renewer → Renewer) :
    (o.removeIf sessionId generation f).Sound := by
  rw [removeIf]
  cases hentry : Finmap.lookup sessionId o.entries with
  | none => exact h
  | some entry =>
    dsimp only
    split
    · intro sessionId' entry' hentry'
      dsimp only at hentry'
      rw [Map.lookup_erase_eq] at hentry'
      split at hentry'
      · cases hentry'
      · rename_i hne
        obtain ⟨rn, hrn, hrest⟩ := h sessionId' entry' hentry'
        have hother : entry.renewer ≠ entry'.renewer := fun heq =>
          hne (renewer_inj h hentry' hentry heq.symm)
        exact ⟨rn, by rw [List.getElem?_modify_ne _ _ hother, hrn], hrest⟩
    · exact h

theorem sound_set (h : o.Sound) {i : Nat} {event : RenewerEvent} (hrn : o.renewers[i]? = some rn)
    (hstep : rn.step d redis event = some (redis', rn')) :
    ({ o with renewers := o.renewers.set i rn' } : HuddleOwnerRegistry).Sound := by
  intro sessionId entry hentry
  obtain ⟨rn₀, hrn₀, hsession, hgeneration, htells⟩ := h sessionId entry hentry
  dsimp only
  by_cases heq : i = entry.renewer
  · rw [← heq, hrn] at hrn₀
    cases hrn₀
    obtain ⟨hlt, _⟩ := List.getElem?_eq_some_iff.mp hrn
    have honward := renewer_step hstep
    refine ⟨rn', ?_, ?_, ?_, tells_step htells hstep⟩
    · rw [← heq, List.getElem?_set_self hlt]
    · rw [honward.lease, hsession]
    · rw [honward.lease, hgeneration]
  · exact ⟨rn₀, by rw [List.getElem?_set_ne heq, hrn₀], hsession, hgeneration, htells⟩

end HuddleOwnerRegistry

end Pkzz.Audio
