import Pkzz.Db.Push

/-!
# A lease only moves forward

Runs of `accept_lease_event`, `replace_lease` and `disable_endpoint_generation`. At every address
the stored version and generation only rise, and no author holds an endpoint twice.

`accept_lease_event` also keeps the quota of the author and the source event of each lease.
`replace_lease` is given neither a limit nor an event, so these two are facts about runs without it.
-/

namespace Pkzz.Db.Push

open Pkzz.Core Pkzz.Lib
open Pkzz.Db.Thread (DateTime DbError byteaKey)
open Tables (sameEndpoint)

/-! ## Runs -/

inductive Op where
  | accept (now : Int) (communityId : CommunityId) (event : Event) (installationId : String)
      (version : LeaseVersion) (active : Option ActiveLease)
  | replace (communityId : CommunityId) (author : List UInt8) (installationId : String)
      (version : LeaseVersion) (active : Option ActiveLease)
  | disable (a : Address) (generation : Int)

/-- The endpoint that a call would put into a lease. -/
def Op.endpoint : Op → Option (CommunityId × List UInt8)
  | accept _ communityId _ _ _ active => active.map fun b => (communityId, b.endpointHash)
  | replace communityId _ _ _ active => active.map fun b => (communityId, b.endpointHash)
  | disable _ _ => none

variable (maxActiveLeases : Int)

/-- The tables after a call, and whether its outcome is `Accepted`. -/
def Op.apply (t : Tables) : Op → Tables × Bool
  | accept now communityId event installationId version active =>
    match acceptLeaseEvent t now communityId event installationId version
        active maxActiveLeases with
    | .ok (t', outcome) => (t', outcome == .accepted)
    | .error _ => (t, false)
  | replace communityId author installationId version active =>
    match replaceLease t communityId author installationId version active with
    | .ok (t', outcome) => (t', outcome == .accepted)
    | .error _ => (t, false)
  | disable a generation => disableEndpointGeneration t a generation

def runAll (ops : List Op) : Tables :=
  ops.foldl (fun t op => (op.apply maxActiveLeases t).1) Tables.empty

theorem runAll_concat (ops : List Op) (op : Op) :
    runAll maxActiveLeases (ops ++ [op]) =
      (op.apply maxActiveLeases (runAll maxActiveLeases ops)).1 := by
  rw [runAll, List.foldl_append]
  rfl

/-- What the relay calls `accept_lease_event` with: the version names the event itself. -/
def Promised (ops : List Op) : Prop :=
  ∀ now communityId event installationId version active,
    .accept now communityId event installationId version active ∈ ops →
      version.sourceEventId = event.id.bytes

/-- The run has no `replace_lease` in it. -/
def AcceptsOnly (ops : List Op) : Prop :=
  ∀ communityId author installationId version active,
    .replace communityId author installationId version active ∉ ops

/-! ## What is claimed of a run -/

/-- A version that was stored later. -/
def Later (before after : LeaseVersion) : Prop :=
  after.winsEvent before = true ∧ before.generation < after.generation

def OnlyForward (ops : List Op) : Prop :=
  ∀ first second, first <+: second → second <+: ops →
    ∀ a l, (runAll maxActiveLeases first).leaseAt a = some l →
    ∃ l', (runAll maxActiveLeases second).leaseAt a = some l' ∧
      (l'.version = l.version ∨ Later l.version l'.version)

def QuotaKept (ops : List Op) : Prop :=
  ∀ before, before <+: ops → ∀ communityId author,
    (((runAll maxActiveLeases before).activeOf communityId author).length : Int) ≤ maxActiveLeases

/-- No author has one endpoint at two addresses. -/
def EndpointsHeldOnce (ops : List Op) : Prop :=
  ∀ before, before <+: ops → ∀ l ∈ (runAll maxActiveLeases before).leases,
    ∀ r ∈ (runAll maxActiveLeases before).leases,
    l.address.communityId = r.address.communityId → l.address.author = r.address.author →
      ∀ a, l.active = some a → sameEndpoint r a = true → l.address = r.address

/-- An address has one live lease event, the source event of its lease, or neither a lease nor an
event. -/
def EventsMatch (ops : List Op) : Prop :=
  ∀ before, before <+: ops → ∀ a,
    match (runAll maxActiveLeases before).leaseAt a with
    | none => (runAll maxActiveLeases before).liveEvents a = []
    | some l => ∃ e, (runAll maxActiveLeases before).liveEvents a = [e] ∧
        e.id.bytes = l.version.sourceEventId

def RefusalsChangeNothing (ops : List Op) : Prop :=
  ∀ before op, before ++ [op] <+: ops →
    (op.apply maxActiveLeases (runAll maxActiveLeases before)).2 = false →
    (op.apply maxActiveLeases (runAll maxActiveLeases before)).1 = runAll maxActiveLeases before

/-! ## The statements -/

variable {maxActiveLeases} {t t' : Tables} {l r : Lease} {a : Address} {ops : List Op} {op : Op}

theorem mem_put : r ∈ (t.put l).leases ↔ (r ∈ t.leases ∧ r.address ≠ l.address) ∨ r = l := by
  rw [Tables.put, List.mem_append, List.mem_filter, List.mem_singleton, decide_eq_true_eq]

theorem leaseAt_put : (t.put l).leaseAt a = if a = l.address then some l else t.leaseAt a := by
  rw [Tables.leaseAt, Tables.leaseAt, Tables.put, List.find?_append]
  by_cases ha : a = l.address
  · rw [if_pos ha]
    have hnone : (t.leases.filter fun r => r.address ≠ l.address).find? (fun r => r.address = a) =
      none := by
      rw [List.find?_eq_none]
      intro r hr
      have hne := (List.mem_filter.mp hr).2
      rw [decide_eq_true_eq] at hne
      rw [decide_eq_true_eq, ha]
      exact hne
    rw [hnone, ha]
    simp
  · have hl : ([l].find? fun r => r.address = a) = none := by
      rw [List.find?_eq_none]
      intro r hr
      rw [List.mem_singleton.mp hr, decide_eq_true_eq]
      exact fun h => ha h.symm
    rw [if_neg ha, hl, Option.or_none, List.find?_filter]
    congr 1
    funext r
    by_cases hr : r.address = a
    · have hne : r.address ≠ l.address := fun h => ha (hr.symm.trans h)
      simp only [hr, decide_true, and_true, decide_eq_true_eq]
      simp only [← hr]
      exact hne
    · simp [hr]

theorem upsert_eq_ok : t.upsert l = .ok t' ↔ l.checks = true ∧ t.uniqueViolation l = none ∧
    t' = t.put l := by
  rw [Tables.upsert]
  cases hchecks : l.checks with
  | false => simp
  | true =>
    cases hunique : t.uniqueViolation l with
    | none => simp [eq_comm]
    | some v => simp

theorem uniqueViolation_eq_none (h : t.uniqueViolation l = none) :
    ∀ r ∈ t.leases, r.address ≠ l.address → r.address.communityId = l.address.communityId →
      r.address.author = l.address.author → ∀ b, l.active = some b → sameEndpoint r b = false := by
  rw [Tables.uniqueViolation] at h
  split at h
  · cases h
  split at h
  · cases h
  rename_i hends
  intro r hr hne hcommunity hauthor b hb
  rw [Bool.eq_false_iff]
  intro hsame
  refine hends (List.any_eq_true.mpr ⟨r, hr, ?_⟩)
  simp [hne, hcommunity, hauthor, hb, hsame]

theorem sameEndpoint_iff {b : ActiveLease} :
    sameEndpoint r b = true ↔ ∃ c, r.active = some c ∧ c.appProfile = b.appProfile ∧
      c.endpointHash = b.endpointHash := by
  rw [sameEndpoint, Option.any_eq_true]
  simp

/-! ## What a call does -/

/-- The row comes in place of an older one, and holds no endpoint of another. -/
structure Stores (t : Tables) (l : Lease) (t' : Tables) : Prop where
  leases : t'.leases = (t.put l).leases
  later : ∀ current, t.leaseAt l.address = some current → Later current.version l.version
  unique : t.uniqueViolation l = none

variable {communityId : CommunityId} {installationId : String} {version : LeaseVersion}
    {active : Option ActiveLease}

theorem replaceLease_ok {author : List UInt8} {outcome : ReplaceLeaseOutcome}
    (h : replaceLease t communityId author installationId version active = .ok (t', outcome)) :
    (outcome ≠ .accepted ∧ t' = t) ∨
      (outcome = .accepted ∧ Stores t ⟨⟨communityId, author, installationId⟩, version, active,
        true⟩ t' ∧ t'.events = t.events) := by
  rw [replaceLease] at h
  dsimp only at h
  split at h
  · cases h
  split at h
  · rename_i outcome' hrefused
    cases h
    refine .inl ⟨?_, rfl⟩
    rintro rfl
    split at hrefused
    · cases hrefused
    · split at hrefused
      · cases hrefused
      · split at hrefused <;> cases hrefused
  · rename_i hrefused
    split at h
    · cases h
    rename_i t'' hupsert
    cases h
    obtain ⟨_, hunique, rfl⟩ := upsert_eq_ok.mp hupsert
    refine .inr ⟨rfl, ⟨rfl, ?_, hunique⟩, rfl⟩
    intro current hcurrent
    rw [hcurrent] at hrefused
    dsimp only at hrefused
    split at hrefused
    · rename_i hwins
      rw [Bool.and_eq_true, decide_eq_true_eq] at hwins
      exact hwins
    · split at hrefused <;> cases hrefused

/-- What `accept_lease_event` finds before it stores the lease. -/
structure Admitted (t : Tables) (a : Address) (version : LeaseVersion)
    (active : Option ActiveLease) : Prop where
  later : ∀ current, t.leaseAt a = some current → Later current.version version
  author : ∀ b, active = some b → authorCheck t a b maxActiveLeases = none

variable {outcome : AcceptLeaseOutcome}

theorem acceptLeaseEvent_ok {now : Int} {event : Event}
    (h : acceptLeaseEvent t now communityId event installationId version active maxActiveLeases =
      .ok (t', outcome)) :
    (outcome ≠ .accepted ∧ t' = t) ∨
      (@Admitted maxActiveLeases t ⟨communityId, event.pubkey.bytes,
        installationId⟩ version active ∧
        storeLease t communityId event installationId version active = .ok (t', outcome)) := by
  rw [acceptLeaseEvent] at h
  dsimp only at h
  split at h
  · split at h <;> cases h <;> exact .inl ⟨by decide, rfl⟩
  split at h
  · rename_i outcome' hstale
    cases h
    refine .inl ⟨?_, rfl⟩
    rintro rfl
    split at hstale
    · cases hstale
    · split at hstale
      · cases hstale
      · split at hstale <;> cases hstale
  · rename_i hstale
    split at h
    · cases h
    split at h
    · rename_i outcome' hcheck
      cases h
      refine .inl ⟨?_, rfl⟩
      rintro rfl
      obtain ⟨b, _, hb⟩ := Option.bind_eq_some_iff.mp hcheck
      rw [authorCheck] at hb
      dsimp only at hb
      split at hb
      · cases hb
      · split at hb <;> cases hb
    · rename_i hcheck
      refine .inr ⟨⟨?_, ?_⟩, h⟩
      · intro current hcurrent
        rw [hcurrent] at hstale
        dsimp only at hstale
        split at hstale
        · cases hstale
        rename_i hwins
        split at hstale
        · cases hstale
        · rename_i hgen
          exact ⟨by simpa using hwins, by omega⟩
      · intro b hb
        rw [hb] at hcheck
        exact hcheck

/-- The live events of an address after the source event is put in their place. -/
theorem storeLease_ok {event : Event}
    (h : storeLease t communityId event installationId version active = .ok (t', outcome)) :
    (outcome ≠ .accepted ∧ t' = t) ∨
      ∃ createdAt, outcome = .accepted ∧
        t'.leases = (t.put ⟨⟨communityId, event.pubkey.bytes, installationId⟩, version, active,
          true⟩).leases ∧
        t.uniqueViolation ⟨⟨communityId, event.pubkey.bytes, installationId⟩, version, active,
          true⟩ = none ∧
        t'.events = (t.retireEvents ⟨communityId, event.pubkey.bytes, installationId⟩).events
          ++ [⟨communityId, event.id, event.pubkey, createdAt, installationId, false⟩] := by
  rw [storeLease] at h
  dsimp only at h
  split at h
  · cases h
  rename_i createdAt _
  split at h
  · cases h
    exact .inl ⟨by decide, rfl⟩
  split at h
  · rename_i v _
    cases h
    exact .inl ⟨by cases v <;> decide, rfl⟩
  · rename_i t'' hupsert
    cases h
    obtain ⟨_, hunique, rfl⟩ := upsert_eq_ok.mp hupsert
    exact .inr ⟨createdAt, rfl, rfl, hunique, rfl⟩

theorem acceptLeaseEvent_stores {now : Int} {event : Event}
    (h : acceptLeaseEvent t now communityId event installationId version active maxActiveLeases =
      .ok (t', outcome)) :
    (outcome ≠ .accepted ∧ t' = t) ∨
      (outcome = .accepted ∧ Stores t ⟨⟨communityId, event.pubkey.bytes, installationId⟩, version,
        active, true⟩ t') := by
  rcases acceptLeaseEvent_ok h with hrefused | ⟨hadmitted, hstore⟩
  · exact .inl hrefused
  · rcases storeLease_ok hstore with hrefused | ⟨createdAt, houtcome, hleases, hunique, _⟩
    · exact .inl hrefused
    · exact .inr ⟨houtcome, hleases, hadmitted.later, hunique⟩

variable {generation : Int}

theorem disable_none (h : (disableEndpointGeneration t a generation).2 = false) :
    (disableEndpointGeneration t a generation).1 = t := by
  have hrows : t.leases.map (disableRow a generation) = t.leases := by
    have hsame : ∀ l ∈ t.leases, disableRow a generation l = l := by
      intro l hl
      rw [disableRow, if_neg]
      exact List.any_eq_false.mp h l hl
    rw [List.map_congr_left hsame]
    exact List.map_id' t.leases
  cases t
  simp only [disableEndpointGeneration] at hrows ⊢
  congr

/-- A call changes nothing, stores a lease, or marks one. -/
theorem apply_cases (t : Tables) (op : Op) :
    ((op.apply maxActiveLeases t).2 = false ∧ (op.apply maxActiveLeases t).1 = t) ∨
      (op.apply maxActiveLeases t).2 = true ∧ ((∃ l, Stores t l (op.apply maxActiveLeases t).1 ∧
          ∀ b, l.active = some b → op.endpoint = some (l.address.communityId, b.endpointHash)) ∨
        ∃ a generation, (op.apply maxActiveLeases t).1.leases =
          t.leases.map (disableRow a generation)) := by
  cases op with
  | accept now communityId event installationId version active =>
    rw [Op.apply]
    cases h : acceptLeaseEvent t now communityId event installationId version active maxActiveLeases
      with
    | error e => exact .inl ⟨rfl, rfl⟩
    | ok r =>
      obtain ⟨t', outcome⟩ := r
      rcases acceptLeaseEvent_stores h with ⟨hrefused, rfl⟩ | ⟨rfl, hstores⟩
      · exact .inl ⟨beq_false_of_ne hrefused, rfl⟩
      · refine .inr ⟨rfl, .inl ⟨_, hstores, ?_⟩⟩
        intro b hb
        exact congrArg (Option.map fun b => (communityId, b.endpointHash)) hb
  | replace communityId author installationId version active =>
    rw [Op.apply]
    cases h : replaceLease t communityId author installationId version active with
    | error e => exact .inl ⟨rfl, rfl⟩
    | ok r =>
      obtain ⟨t', outcome⟩ := r
      rcases replaceLease_ok h with ⟨hrefused, rfl⟩ | ⟨rfl, hstores, _⟩
      · exact .inl ⟨beq_false_of_ne hrefused, rfl⟩
      · refine .inr ⟨rfl, .inl ⟨_, hstores, ?_⟩⟩
        intro b hb
        exact congrArg (Option.map fun b => (communityId, b.endpointHash)) hb
  | disable a generation =>
    rw [Op.apply]
    cases h : (disableEndpointGeneration t a generation).2 with
    | false => exact .inl ⟨rfl, disable_none h⟩
    | true => exact .inr ⟨rfl, .inr ⟨a, generation, rfl⟩⟩

/-! ## Every run -/

theorem leaseAt_stores (h : Stores t l t') : t'.leaseAt a = if a = l.address then
    some l else t.leaseAt a := by
  rw [← leaseAt_put, Tables.leaseAt, Tables.leaseAt, h.leases]

theorem leaseAt_disabled {a' : Address} (h : t'.leases = t.leases.map (disableRow a' generation)) :
    t'.leaseAt a = (t.leaseAt a).map (disableRow a' generation) := by
  rw [Tables.leaseAt, Tables.leaseAt, h, List.find?_map]
  congr 2
  funext l
  show decide ((disableRow a' generation l).address = a) = _
  rw [disableRow_address]

theorem later_iff {v w : LeaseVersion} :
    Later v w ↔ (v.sourceCreatedAt < w.sourceCreatedAt ∨
        (w.sourceCreatedAt = v.sourceCreatedAt ∧
          byteaKey w.sourceEventId < byteaKey v.sourceEventId)) ∧
      v.generation < w.generation := by
  rw [Later, LeaseVersion.winsEvent]
  simp only [Bool.or_eq_true, Bool.and_eq_true, decide_eq_true_eq, gt_iff_lt]

theorem Later.trans {u v w : LeaseVersion} (h : Later u v) (h' : Later v w) : Later u w := by
  obtain ⟨hev, hgen⟩ := later_iff.mp h
  obtain ⟨hev', hgen'⟩ := later_iff.mp h'
  refine later_iff.mpr ⟨?_, by omega⟩
  rcases hev with hlt | ⟨heq, hid⟩ <;> rcases hev' with hlt' | ⟨heq', hid'⟩
  · exact .inl (by omega)
  · exact .inl (by omega)
  · exact .inl (by omega)
  · exact .inr ⟨by omega, lt_trans hid' hid⟩

/-- One call keeps each lease, or moves it forward. -/
theorem forward_step (op : Op) (h : t.leaseAt a = some l) :
    ∃ l', (op.apply maxActiveLeases t).1.leaseAt a = some l' ∧
      (l'.version = l.version ∨ Later l.version l'.version) := by
  rcases @apply_cases maxActiveLeases t op with ⟨_, hsame⟩ |
    ⟨_, ⟨new, hstores, _⟩ | ⟨a', generation, hmap⟩⟩
  · rw [hsame]
    exact ⟨l, h, .inl rfl⟩
  · rw [leaseAt_stores hstores]
    by_cases ha : a = new.address
    · rw [if_pos ha]
      exact ⟨new, rfl, .inr (hstores.later l (ha ▸ h))⟩
    · rw [if_neg ha]
      exact ⟨l, h, .inl rfl⟩
  · rw [leaseAt_disabled hmap, h]
    exact ⟨_, rfl, .inl (disableRow_version a' generation l)⟩

theorem forward_run {first second : List Op} (hfirst : first <+: second)
    (hl : (runAll maxActiveLeases first).leaseAt a = some l) :
    ∃ l', (runAll maxActiveLeases second).leaseAt a = some l' ∧
      (l'.version = l.version ∨ Later l.version l'.version) := by
  induction second using List.reverseRecOn with
  | nil =>
    rw [List.prefix_nil.mp hfirst] at hl
    exact ⟨l, hl, .inl rfl⟩
  | append_singleton second op ih =>
    rcases List.prefix_concat_iff.mp hfirst with rfl | hle
    · exact ⟨l, hl, .inl rfl⟩
    obtain ⟨l', hl', hlater⟩ := ih hle
    rw [runAll_concat]
    obtain ⟨l'', hl'', hlater'⟩ := @forward_step maxActiveLeases _ _ _ op hl'
    refine ⟨l'', hl'', ?_⟩
    rcases hlater' with heq | hlater'
    · rw [heq]
      exact hlater
    refine .inr ?_
    rcases hlater with heq | hlater
    · rw [← heq]
      exact hlater'
    · exact hlater.trans hlater'

/-- No author has one endpoint at two addresses of the table. -/
def EndpointsOnce (t : Tables) : Prop :=
  ∀ l ∈ t.leases, ∀ r ∈ t.leases, l.address.communityId = r.address.communityId →
    l.address.author = r.address.author →
    ∀ b, l.active = some b → sameEndpoint r b = true → l.address = r.address

theorem endpointsOnce_stores (h : EndpointsOnce t) (hs : Stores t l t') : EndpointsOnce t' := by
  have hfree := uniqueViolation_eq_none hs.unique
  intro x hx y hy hcommunity hauthor b hb hsame
  rw [hs.leases, mem_put] at hx hy
  rcases hx with ⟨hx, hxl⟩ | rfl <;> rcases hy with ⟨hy, hyl⟩ | rfl
  · exact h x hx y hy hcommunity hauthor b hb hsame
  · -- the new row is the second of the two
    obtain ⟨c, hc, hprofile, hhash⟩ := sameEndpoint_iff.mp hsame
    have hback : sameEndpoint x c = true := sameEndpoint_iff.mpr ⟨b, hb, hprofile.symm, hhash.symm⟩
    rw [hfree x hx hxl hcommunity hauthor c hc] at hback
    cases hback
  · rw [hfree y hy hyl hcommunity.symm hauthor.symm b hb] at hsame
    cases hsame
  · rfl

theorem endpointsOnce_disabled (h : EndpointsOnce t)
    (hmap : t'.leases = t.leases.map (disableRow a generation)) : EndpointsOnce t' := by
  intro x hx y hy hcommunity hauthor b hb hsame
  rw [hmap] at hx hy
  obtain ⟨x', hx', rfl⟩ := List.mem_map.mp hx
  obtain ⟨y', hy', rfl⟩ := List.mem_map.mp hy
  rw [disableRow_active] at hb
  rw [sameEndpoint, disableRow_active] at hsame
  rw [disableRow_address, disableRow_address] at hcommunity hauthor ⊢
  exact h x' hx' y' hy' hcommunity hauthor b hb hsame

theorem endpointsHeldOnce_run (ops : List Op) : EndpointsHeldOnce maxActiveLeases ops := by
  have hall : ∀ before : List Op, EndpointsOnce (runAll maxActiveLeases before) := by
    intro before
    induction before using List.reverseRecOn with
    | nil =>
      intro l hl
      cases hl
    | append_singleton before op ih =>
      rw [runAll_concat]
      rcases @apply_cases maxActiveLeases (runAll maxActiveLeases before) op with
        ⟨_, hsame⟩ | ⟨_, ⟨new, hstores, _⟩ | ⟨a', generation, hmap⟩⟩
      · rw [hsame]
        exact ih
      · exact endpointsOnce_stores ih hstores
      · exact endpointsOnce_disabled ih hmap
  intro before _
  exact hall before

theorem refusalsChangeNothing_run (ops : List Op) : RefusalsChangeNothing maxActiveLeases ops := by
  intro before op _ hrefused
  rcases @apply_cases maxActiveLeases (runAll maxActiveLeases before) op with ⟨_, hsame⟩ |
    ⟨haccepted, _⟩
  · exact hsame
  · rw [haccepted] at hrefused
    cases hrefused

/-! ## Runs of `accept_lease_event` -/

/-- The quota, for one author. -/
def WithinQuota (maxActiveLeases : Int) (t : Tables) : Prop :=
  ∀ communityId author, ((t.activeOf communityId author).length : Int) ≤ maxActiveLeases

/-- The other addresses of an author, and the one that is stored. -/
theorem activeOf_put (communityId : CommunityId) (author : List UInt8) :
    (t.put l).activeOf communityId author =
      ((t.activeOf communityId author).filter fun r => r.address ≠ l.address) ++
        (if l.address.communityId = communityId ∧ l.address.author = author ∧ l.active.isSome then
          [l] else []) := by
  rw [Tables.activeOf, Tables.activeOf, Tables.put, List.filter_append, List.filter_filter,
    List.filter_filter]
  congr 1
  · refine List.filter_congr fun r _ => ?_
    rw [Bool.and_comm]
  · by_cases h : l.address.communityId = communityId ∧ l.address.author = author ∧ l.active.isSome
    · rw [if_pos h]
      obtain ⟨rfl, rfl, hactive⟩ := h
      simp [hactive]
    · rw [if_neg h, List.filter_cons, if_neg, List.filter_nil]
      simpa [and_assoc] using h

theorem withinQuota_accept {b : Option ActiveLease} (h : WithinQuota maxActiveLeases t)
    (hb : l.active = b)
    (hcheck : ∀ b', b = some b' → authorCheck t l.address b' maxActiveLeases = none) :
    WithinQuota maxActiveLeases (t.put l) := by
  intro communityId author
  rw [activeOf_put]
  by_cases hin : l.address.communityId = communityId ∧ l.address.author = author ∧ l.active.isSome
  · rw [if_pos hin, List.length_append, List.length_singleton]
    obtain ⟨rfl, rfl, hactive⟩ := hin
    obtain ⟨b', hb'⟩ := Option.isSome_iff_exists.mp hactive
    have hnone := hcheck b' (hb ▸ hb')
    rw [authorCheck] at hnone
    split at hnone
    · cases hnone
    rename_i hcount
    -- within one author an address is told apart by its installation
    have hothers : ((t.activeOf l.address.communityId l.address.author).filter fun r => r.address ≠
      l.address)
        = (t.activeOf l.address.communityId l.address.author).filter
            fun r => r.address.installationId ≠ l.address.installationId := by
      refine List.filter_congr fun r hr => ?_
      have hr := (List.mem_filter.mp hr).2
      simp only [Bool.and_eq_true, decide_eq_true_eq, beq_iff_eq] at hr
      rw [decide_eq_decide]
      refine not_congr ⟨fun h => by rw [h], fun h => ?_⟩
      cases hra : r.address
      cases hla : l.address
      rw [hra, hla] at hr h
      obtain ⟨⟨rfl, rfl⟩, _⟩ := hr
      cases h
      rfl
    rw [hothers]
    omega
  · rw [if_neg hin, List.append_nil]
    have hle := List.length_filter_le (fun r =>
      decide (r.address ≠ l.address)) (t.activeOf communityId author)
    have hq := h communityId author
    omega

theorem withinQuota_disabled (h : WithinQuota maxActiveLeases t)
    (hmap : t'.leases = t.leases.map (disableRow a generation)) :
    WithinQuota maxActiveLeases t' := by
  intro communityId author
  have hlen : (t'.activeOf communityId author).length = (t.activeOf communityId author).length := by
    rw [Tables.activeOf, Tables.activeOf, hmap, List.filter_map, List.length_map]
    congr 1
    refine List.filter_congr fun r _ => ?_
    show (decide ((disableRow a generation r).address.communityId = communityId)
      && (disableRow a generation r).address.author == author &&
        (disableRow a generation r).active.isSome) = _
    rw [disableRow_address, disableRow_active]
  rw [hlen]
  exact h communityId author

/-- Each lease with its source event. -/
def Matched (t : Tables) : Prop :=
  ∀ a, match t.leaseAt a with
    | none => t.liveEvents a = []
    | some l => ∃ e, t.liveEvents a = [e] ∧ e.id.bytes = l.version.sourceEventId

/-- The source event comes in place of the live ones of its address. -/
theorem liveEvents_stored {row : LeaseEvent}
    (hevents : t'.events = (t.retireEvents row.address).events ++ [row])
    (hlive : row.deleted = false) : t'.liveEvents a = if a = row.address then
    [row] else t.liveEvents a := by
  rw [Tables.liveEvents, Tables.liveEvents, hevents, Tables.retireEvents, List.filter_append]
  by_cases ha : a = row.address
  · rw [if_pos ha]
    have hnone : (t.events.map fun e => if e.address = row.address then e.markDeleted else e).filter
        (fun e => e.address = a && !e.deleted) = [] := by
      rw [List.filter_eq_nil_iff]
      intro e he
      obtain ⟨old, _, rfl⟩ := List.mem_map.mp he
      by_cases hold : old.address = row.address
      · rw [if_pos hold]
        simp [LeaseEvent.markDeleted]
      · rw [if_neg hold, ha]
        simp [hold]
    rw [hnone, ha, List.filter_cons, hlive]
    simp
  · rw [if_neg ha, List.filter_cons, if_neg, List.filter_nil, List.append_nil, List.filter_map]
    · have hrest : ∀ e ∈ t.events.filter (fun e => e.address = a && !e.deleted),
          (if e.address = row.address then e.markDeleted else e) = e := by
        intro e he
        have hea := (List.mem_filter.mp he).2
        rw [Bool.and_eq_true, decide_eq_true_eq] at hea
        exact if_neg fun h => ha (hea.1.symm.trans h)
      have hsame : t.events.filter ((fun e => e.address = a && !e.deleted) ∘
            fun e => if e.address = row.address then e.markDeleted else e)
          = t.events.filter (fun e => e.address = a && !e.deleted) := by
        refine List.filter_congr fun e _ => ?_
        show (decide ((if e.address = row.address then e.markDeleted else e).address = a)
          && !(if e.address = row.address then e.markDeleted else e).deleted) = _
        by_cases hrow : e.address = row.address
        · rw [if_pos hrow]
          have hne : ¬e.address = a := fun h => ha (h.symm.trans hrow)
          rw [decide_eq_false hne, decide_eq_false (show ¬e.markDeleted.address = a from hne)]
          rfl
        · rw [if_neg hrow]
      rw [hsame, List.map_congr_left hrest]
      exact List.map_id' _
    · have hne : ¬row.address = a := fun h => ha h.symm
      simp [hne]

/-- What a run without `replace_lease` keeps. -/
structure Kept (maxActiveLeases : Int) (t : Tables) : Prop where
  quota : WithinQuota maxActiveLeases t
  matched : Matched t

theorem kept_step (h : Kept maxActiveLeases t)
    (hop : ∀ communityId author installationId version active,
      op ≠ .replace communityId author installationId version active)
    (hversion : ∀ now communityId event installationId version active,
      op = .accept now communityId event installationId version active →
        version.sourceEventId = event.id.bytes) :
    Kept maxActiveLeases (op.apply maxActiveLeases t).1 := by
  cases op with
  | accept now communityId event installationId version active =>
    rw [Op.apply]
    cases hresult : acceptLeaseEvent t now communityId event installationId version active
      maxActiveLeases with
    | error e => exact h
    | ok r =>
      obtain ⟨t', outcome⟩ := r
      dsimp only
      rcases acceptLeaseEvent_ok hresult with ⟨_, rfl⟩ | ⟨hadmitted, hstore⟩
      · exact h
      rcases storeLease_ok hstore with ⟨_, rfl⟩ | ⟨createdAt, _, hleases, _, hevents⟩
      · exact h
      refine ⟨?_, ?_⟩
      · have hq := @withinQuota_accept maxActiveLeases t
          ⟨⟨communityId, event.pubkey.bytes, installationId⟩, version, active,
            true⟩ active h.quota rfl hadmitted.author
        intro c author
        have hrow := hq c author
        rw [Tables.activeOf] at hrow ⊢
        rw [hleases]
        exact hrow
      · intro a
        have hlive := @liveEvents_stored t t' a
          ⟨communityId, event.id, event.pubkey, createdAt, installationId, false⟩ hevents rfl
        have hat : t'.leaseAt a = if a = ⟨communityId, event.pubkey.bytes, installationId⟩ then
              some ⟨⟨communityId, event.pubkey.bytes, installationId⟩, version, active,
                true⟩ else t.leaseAt a := by
          rw [Tables.leaseAt, hleases]
          exact leaseAt_put
        rw [hat, hlive]
        by_cases ha : a = ⟨communityId, event.pubkey.bytes, installationId⟩
        · rw [if_pos ha]
          refine ⟨_, if_pos ha, ?_⟩
          exact (hversion now communityId event installationId version active rfl).symm
        rw [if_neg ha]
        have hne : ¬a = LeaseEvent.address ⟨communityId, event.id, event.pubkey, createdAt,
            installationId, false⟩ := ha
        rw [if_neg hne]
        exact h.matched a
  | replace communityId author installationId version active =>
      exact absurd rfl (hop communityId author installationId version active)
  | disable a generation =>
    refine ⟨withinQuota_disabled h.quota rfl, ?_⟩
    intro a'
    have hat : ((Op.disable a generation).apply maxActiveLeases t).1.leaseAt a'
        = (t.leaseAt a').map (disableRow a generation) := leaseAt_disabled rfl
    rw [hat]
    have hm := h.matched a'
    cases hl : t.leaseAt a' with
    | none =>
      rw [hl] at hm
      exact hm
    | some l =>
      rw [hl] at hm
      obtain ⟨e, he, hid⟩ := hm
      exact ⟨e, he, by rw [disableRow_version]; exact hid⟩

theorem kept_run (hmax : 0 ≤ maxActiveLeases) (promised : Promised ops) (haccepts : AcceptsOnly ops)
    {before : List Op}
    (hbefore : before <+: ops) : Kept maxActiveLeases (runAll maxActiveLeases before) := by
  induction before using List.reverseRecOn with
  | nil =>
    refine ⟨?_, ?_⟩
    · intro communityId author
      exact hmax
    · intro a
      rfl
  | append_singleton before op ih =>
    have hmem : op ∈ ops :=
      hbefore.subset (List.mem_append_right before (List.mem_singleton_self op))
    rw [runAll_concat]
    refine kept_step (ih ((List.prefix_append before [op]).trans hbefore)) ?_ ?_
    · rintro communityId author installationId version active rfl
      exact haccepts communityId author installationId version active hmem
    · rintro now communityId event installationId version active rfl
      exact promised now communityId event installationId version active hmem

/-- **A lease is a register that only moves forward.** In every run what an address stores only
moves forward, an author holds an endpoint once, and a call that is not accepted changes nothing. In
runs without `replace_lease` no author has more than the maximum of active leases, and every lease
has its source event as the one live lease event of its address. -/
theorem push_lease_register (hmax : 0 ≤ maxActiveLeases) (promised : Promised ops) :
    OnlyForward maxActiveLeases ops ∧ EndpointsHeldOnce maxActiveLeases ops ∧
      RefusalsChangeNothing maxActiveLeases ops ∧
      (AcceptsOnly ops → QuotaKept maxActiveLeases ops ∧ EventsMatch maxActiveLeases ops) := by
  refine ⟨?_, endpointsHeldOnce_run ops, refusalsChangeNothing_run ops, ?_⟩
  · intro first second hfirst _ a l hl
    exact forward_run hfirst hl
  · intro haccepts
    refine ⟨?_, ?_⟩
    · intro before hbefore
      exact (kept_run hmax promised haccepts hbefore).quota
    · intro before hbefore
      exact (kept_run hmax promised haccepts hbefore).matched

/-- Two installations: the first moves to another endpoint, and the second is disabled. -/
def acceptedLeases : List Op :=
  let community : CommunityId := ⟨.ofNat 16 1⟩
  let author : PublicKey := .ofNat 32 7
  let accept (installationId : String) (id createdAt : Nat) (generation : Int) (endpoint : Nat) :
      Op :=
    .accept 0 community ⟨.ofNat 32 id, author, createdAt, 30350, []⟩ installationId
      ⟨(FixedBytes.ofNat 32 id).bytes, createdAt, generation, 1000⟩
      (some ⟨"ios", (FixedBytes.ofNat 32 endpoint).bytes, "grant", "default", .arr []⟩)
  [accept "a" 1 10 1 3, accept "b" 2 10 1 4, accept "a" 5 20 2 6,
    .disable ⟨community, author.bytes, "b"⟩ 1]

/-- The rotation is in the table, and so is the disabled endpoint. -/
theorem push_lease_register_sample :
    (runAll 16 acceptedLeases).leases.map
    (fun l => (l.address.installationId, l.version.generation, l.endpointEnabled)) =
      [("b", 1, false), ("a", 2, true)] ∧
    OnlyForward 16 acceptedLeases ∧ QuotaKept 16 acceptedLeases ∧
      EventsMatch 16 acceptedLeases := by
  have promised : Promised acceptedLeases := by
    intro now communityId event installationId version active hmem
    simp only [acceptedLeases, List.mem_cons, Op.accept.injEq, reduceCtorEq, List.not_mem_nil,
      or_false] at hmem
    rcases hmem with ⟨_, _, rfl, _, rfl, _⟩ | ⟨_, _, rfl, _, rfl, _⟩ | ⟨_, _, rfl, _, rfl, _⟩
    · rfl
    · rfl
    · rfl
  obtain ⟨hforward, -, -, haccepted⟩ := @push_lease_register 16 acceptedLeases (by decide) promised
  refine ⟨by decide, hforward, haccepted ?_⟩
  intro communityId author installationId version active hmem
  simp [acceptedLeases] at hmem

/-! ## What `replace_lease` leaves out -/

/-- Two installations of one author, each activated by `replace_lease`. -/
def replacedLeases : List Op :=
  let community : CommunityId := ⟨.ofNat 16 1⟩
  let author := (FixedBytes.ofNat 32 7).bytes
  let activate (installationId : String) (n : Nat) : Op :=
    .replace community author installationId ⟨(FixedBytes.ofNat 32 n).bytes, 10, 1, 1000⟩
      (some ⟨"ios", (FixedBytes.ofNat 32 n).bytes, "grant", "default", .arr []⟩)
  [activate "a" 1, activate "b" 2]

/-- `replace_lease` keeps neither the quota nor the events. -/
theorem not_push_lease_register :
    ¬QuotaKept 1 replacedLeases ∧ ¬EventsMatch 16 replacedLeases := by
  constructor
  · intro h
    have hcount := h replacedLeases List.prefix_rfl ⟨FixedBytes.ofNat 16 1⟩
        (FixedBytes.ofNat 32 7).bytes
    have htwo : ((runAll 1 replacedLeases).activeOf ⟨FixedBytes.ofNat 16 1⟩
        (FixedBytes.ofNat 32 7).bytes).length = 2 := by
      decide
    rw [htwo] at hcount
    exact absurd hcount (by decide)
  · intro h
    have hmatch := h replacedLeases List.prefix_rfl ⟨⟨FixedBytes.ofNat 16 1⟩,
        (FixedBytes.ofNat 32 7).bytes, "a"⟩
    have hlease : ((runAll 16 replacedLeases).leaseAt ⟨⟨FixedBytes.ofNat 16 1⟩,
        (FixedBytes.ofNat 32 7).bytes, "a"⟩).isSome = true := by
      decide
    have hnone : (runAll 16 replacedLeases).liveEvents ⟨⟨FixedBytes.ofNat 16 1⟩,
        (FixedBytes.ofNat 32 7).bytes, "a"⟩ = [] := by
      decide
    obtain ⟨l, hl⟩ := Option.isSome_iff_exists.mp hlease
    rw [hl] at hmatch
    obtain ⟨e, he, _⟩ := hmatch
    rw [hnone] at he
    cases he

end Pkzz.Db.Push
