import Pkzz.Core.Filter

/-!
# Kinds with restricted readers

`buzz-core`'s `kind.rs` and `filter.rs`, `buzz-relay`'s `req.rs`: which kinds only some
readers may see, the gates a filter has to pass, and the check of each event.
-/

namespace Pkzz.Core

open Pkzz.Lib

def KIND_GIFT_WRAP : Nat := 1059
def KIND_AGENT_OBSERVER_FRAME : Nat := 24200
def KIND_AGENT_ENGRAM : Nat := 30174
def KIND_PERSONA : Nat := 30175
def KIND_TEAM_CATALOG : Nat := 30178
def KIND_PRIVATE_MANAGED_AGENT : Nat := 30179
def KIND_EVENT_REMINDER : Nat := 30300
def KIND_PUSH_LEASE : Nat := 30350
def KIND_DM_VISIBILITY : Nat := 30622
def KIND_MEMBER_ADDED_NOTIFICATION : Nat := 44100
def KIND_MEMBER_REMOVED_NOTIFICATION : Nat := 44101
def KIND_AGENT_TURN_METRIC : Nat := 44200

def PARAM_REPLACEABLE_KIND_MIN : Nat := 30000
def PARAM_REPLACEABLE_KIND_MAX : Nat := 39999

def isParameterizedReplaceable (kind : Nat) : Bool :=
  decide (kind ≥ PARAM_REPLACEABLE_KIND_MIN) && decide (kind ≤ PARAM_REPLACEABLE_KIND_MAX)

def AUTHOR_ONLY_KINDS : List Nat :=
  [KIND_EVENT_REMINDER, KIND_PUSH_LEASE, KIND_PRIVATE_MANAGED_AGENT]

def RESULT_GATED_KINDS : List Nat := [KIND_DM_VISIBILITY, KIND_AGENT_TURN_METRIC]

def P_GATED_KINDS : List Nat :=
  [KIND_AGENT_OBSERVER_FRAME, KIND_MEMBER_ADDED_NOTIFICATION, KIND_MEMBER_REMOVED_NOTIFICATION,
    KIND_GIFT_WRAP, KIND_DM_VISIBILITY, KIND_AGENT_TURN_METRIC]

def SHARED_GATED_KINDS : List Nat := [KIND_PERSONA, KIND_TEAM_CATALOG]

namespace SingleLetterTag

def p : SingleLetterTag := ⟨'p', rfl⟩
def h : SingleLetterTag := ⟨'h', rfl⟩
def d : SingleLetterTag := ⟨'d', rfl⟩
def e : SingleLetterTag := ⟨'e', rfl⟩

end SingleLetterTag

/-! ## The check of an event -/

/-- `is_author_only_event`. -/
def isAuthorOnlyEvent (event : Event) (requester : PublicKey) : Bool :=
  AUTHOR_ONLY_KINDS.contains event.kind.toNat && decide (event.pubkey ≠ requester)

/-- `event_is_shared`: one tag named `shared`, and it is `["shared", "true"]`. -/
def eventIsShared (event : Event) : Bool :=
  let named := event.tags.filter fun t => t.kind == "shared"
  named.all (fun t => t.buf == ["shared", "true"]) && named.length == 1

def isUnsharedGatedEvent (event : Event) (requester : PublicKey) : Bool :=
  SHARED_GATED_KINDS.contains event.kind.toNat && decide (event.pubkey ≠ requester) &&
    !eventIsShared event

def readerAuthorizedForEvent (event : Event) (readerPubkeyHex : String) : Bool :=
  if event.kind.toNat ≠ KIND_DM_VISIBILITY ∧ event.kind.toNat ≠ KIND_AGENT_TURN_METRIC then true
  else (event.tagContents SingleLetterTag.p.toString).contains readerPubkeyHex

/-- `event_visible_to_reader`. -/
def eventVisibleToReader (event : Event) (requester : PublicKey) : Bool :=
  !isAuthorOnlyEvent event requester && !isUnsharedGatedEvent event requester
    && readerAuthorizedForEvent event requester.toHex

/-! ## The gates of a filter -/

/-- The kinds a filter admits meet some of `kinds`; one without kinds admits all. -/
def Filter.canMatch (f : Filter) (kinds : List Nat) : Bool :=
  match f.kinds with
  | some ks => ks.any fun k => kinds.contains k.toNat
  | none => true

def filterCanMatchAuthorOnlyKinds (f : Filter) : Bool := f.canMatch AUTHOR_ONLY_KINDS

def filterCanMatchSharedGatedKinds (f : Filter) : Bool := f.canMatch SHARED_GATED_KINDS

def filterCanMatchResultGatedKinds (f : Filter) : Bool := f.canMatch RESULT_GATED_KINDS

/-- `#p` is there, and every value of it is the reader. -/
def Filter.pTagIsReader (f : Filter) (authedPubkeyHex : String) : Bool :=
  match f.genericTag SingleLetterTag.p with
  | some values => !values.isEmpty && values.all fun v => v == authedPubkeyHex
  | none => false

/-- `authors` is there, and every one of them is the reader. -/
def Filter.authorsAreReader (f : Filter) (authedPubkeyHex : String) : Bool :=
  match f.authors with
  | some authors => !authors.isEmpty && authors.all fun a =>
      Str.eqIgnoreAsciiCase a.toHex authedPubkeyHex
  | none => false

def Filter.namesIds (f : Filter) : Bool :=
  match f.ids with
  | some ids => !ids.isEmpty
  | none => false

def resultGatedCountSafeForPushdown (f : Filter) (authedPubkeyHex : String) : Bool :=
  f.pTagIsReader authedPubkeyHex

def pGatedFiltersAuthorized (filters : List Filter) (authedPubkeyHex : String) : Bool :=
  filters.all fun f =>
    if !f.canMatch P_GATED_KINDS then true
    else
      let explicitlyNoIdsExemption := match f.kinds with
        | some ks => ks.any fun k =>
            decide (k.toNat = KIND_DM_VISIBILITY ∨ k.toNat = KIND_AGENT_TURN_METRIC)
        | none => false
      if !explicitlyNoIdsExemption && f.namesIds then true else f.pTagIsReader authedPubkeyHex

def engramFiltersAuthorized (filters : List Filter) (authedPubkeyHex : String) : Bool :=
  filters.all fun f =>
    if f.namesIds then true
    else if !f.canMatch [KIND_AGENT_ENGRAM] then true
    else f.authorsAreReader authedPubkeyHex || f.pTagIsReader authedPubkeyHex

def authorOnlyFiltersAuthorized (filters : List Filter) (authedPubkeyHex : String) : Bool :=
  filters.all fun f =>
    let targetsOnlyAuthorOnly := match f.kinds with
      | some ks => !ks.isEmpty && ks.all fun k => AUTHOR_ONLY_KINDS.contains k.toNat
      | none => false
    if !targetsOnlyAuthorOnly then true else f.authorsAreReader authedPubkeyHex

/-! ## When no event needs the check -/

variable {f : Filter} {ev : StoredEvent} {reader : PublicKey} {kinds : List Nat}

/-- An event that matches is of a kind the filter can match. -/
theorem canMatch_of_match (h : filterMatchOne f ev = true)
    (hk : kinds.contains ev.event.kind.toNat = true) : f.canMatch kinds = true := by
  unfold Filter.canMatch
  cases hkinds : f.kinds with
  | none => rfl
  | some ks => exact List.any_eq_true.mpr ⟨ev.event.kind, kind_mem_of_match h hkinds, hk⟩

theorem author_of_match (h : filterMatchOne f ev = true)
    (ha : f.authorsAreReader reader.toHex = true) : ev.event.pubkey = reader := by
  unfold Filter.authorsAreReader at ha
  simp only [filterMatchOne, Bool.and_eq_true] at h
  cases hauthors : f.authors with
  | none => rw [hauthors] at ha; cases ha
  | some authors =>
    rw [hauthors] at ha
    have hmem : authors.contains ev.event.pubkey = true := by
      have := h.1.1.1.1.2
      rw [hauthors] at this
      exact this
    have hall := List.all_eq_true.mp (Bool.and_eq_true_iff.mp ha).2
    exact FixedBytes.eqIgnoreAsciiCase_toHex.mp (hall _ (List.contains_iff_mem.mp hmem))

theorem p_of_match (h : filterMatchOne f ev = true) (hp : f.pTagIsReader reader.toHex = true) :
    (ev.event.tagContents SingleLetterTag.p.toString).contains reader.toHex = true := by
  unfold Filter.pTagIsReader at hp
  cases hvalues : f.genericTag SingleLetterTag.p with
  | none => rw [hvalues] at hp; cases hp
  | some values =>
    rw [hvalues] at hp
    have hall := List.all_eq_true.mp (Bool.and_eq_true_iff.mp hp).2
    obtain ⟨v, hv, hmem⟩ :=
      exists_value_of_constraint (by decide) (tagConstraint_of_match h hvalues)
    have hv := hall v hv
    rw [beq_iff_eq] at hv
    rw [← hv]
    exact List.contains_iff_mem.mpr hmem

/-- **The fast COUNT path needs no check**: where the filter cannot match a gated kind, or pins
the reader down, every event it matches is visible. -/
theorem visible_of_match (h : filterMatchOne f ev = true)
    (hauthor : filterCanMatchAuthorOnlyKinds f = false ∨ f.authorsAreReader reader.toHex = true)
    (hshared : filterCanMatchSharedGatedKinds f = false)
    (hresult : filterCanMatchResultGatedKinds f = false ∨
      resultGatedCountSafeForPushdown f reader.toHex = true) :
    eventVisibleToReader ev.event reader = true := by
  have h1 : isAuthorOnlyEvent ev.event reader = false := by
    unfold isAuthorOnlyEvent
    rcases hauthor with hno | hself
    · by_contra hc
      rw [Bool.not_eq_false, Bool.and_eq_true] at hc
      have := canMatch_of_match h hc.1
      unfold filterCanMatchAuthorOnlyKinds at hno
      rw [hno] at this
      cases this
    · rw [author_of_match h hself]
      simp
  have h2 : isUnsharedGatedEvent ev.event reader = false := by
    unfold isUnsharedGatedEvent
    by_contra hc
    rw [Bool.not_eq_false, Bool.and_eq_true, Bool.and_eq_true] at hc
    have := canMatch_of_match h hc.1.1
    unfold filterCanMatchSharedGatedKinds at hshared
    rw [hshared] at this
    cases this
  have h3 : readerAuthorizedForEvent ev.event reader.toHex = true := by
    unfold readerAuthorizedForEvent
    split
    · rfl
    rename_i hkind
    rcases hresult with hno | hself
    · have hgated : RESULT_GATED_KINDS.contains ev.event.kind.toNat = true := by
        rw [List.contains_iff_mem]
        unfold RESULT_GATED_KINDS
        simp only [List.mem_cons, List.not_mem_nil, or_false]
        by_contra hne
        exact hkind ⟨fun he => hne (.inl he), fun he => hne (.inr he)⟩
      have := canMatch_of_match h hgated
      unfold filterCanMatchResultGatedKinds at hno
      rw [hno] at this
      cases this
    · exact p_of_match h hself
  unfold eventVisibleToReader
  rw [h1, h2, h3]
  rfl

end Pkzz.Core
