import Pkzz.Acp.FinalDelivery

/-!
# At most twice

The count on disk is ahead of the submissions, whatever the memory of the process holds. The memory
either agrees with the disk or is terminal, so that it never sends what the disk does not expect.
-/

namespace Pkzz.Acp.FinalDelivery

open Pkzz.Core Pkzz.Lib
open Finmap (lookup)

variable {parse : List UInt8 → Option SignedEvent} {scope : OutboxScope} {e e' : EventId}
    {pr : Persisted} {n : Nat}
  {r ri w : HostFinalDeliveryRecord} {index index' : OutboxIndex} {disk disk' : Disk}
    {s s' t : Host} {p p' : Process}

/-! ## Records of persisted events -/

/-- The record is that of the persisted event. -/
structure Own (scope : OutboxScope) (e : EventId) (pr : Persisted)
    (r : HostFinalDeliveryRecord) : Prop where
  named : r.eventId = e.toHex
  ours : ¬ Foreign scope r
  claimed : r.sourceEventIds = pr.sourceEventIds.map FixedBytes.toHex
  budget : r.logicalAttempts ≤ MAX_LOGICAL_RECEIPT_SUBMISSIONS
  body : r.isTerminal = false → r.eventBytesB64 = some (encodeEventBytes pr.eventBytes)

theorem isRetryable_iff : isRetryable r = true ↔ r.isTerminal = false := by
  unfold isRetryable HostFinalDeliveryRecord.isTerminal
  cases r.state with
  | pending => decide
  | awaitingRetry => decide
  | accepted => decide
  | terminalFailed => decide

theorem own_terminalize {diagnostic : String} (h : Own scope e pr r) :
    Own scope e pr (r.terminalize diagnostic) where
  named := h.named
  ours := h.ours
  claimed := h.claimed
  budget := h.budget
  body := nofun

theorem own_accept (h : Own scope e pr r) : Own scope e pr r.accept where
  named := h.named
  ours := h.ours
  claimed := h.claimed
  budget := h.budget
  body := nofun

theorem own_compact (h : Own scope e pr r) (hterminal : r.isTerminal = true) :
    Own scope e pr r.compactTerminalBody where
  named := h.named
  ours := h.ours
  claimed := h.claimed
  budget := h.budget
  body := by
    intro hretry
    have hsame : r.compactTerminalBody.isTerminal = r.isTerminal := rfl
    rw [hsame, hterminal] at hretry
    cases hretry

theorem own_sending (h : Own scope e pr r) (hretry : r.isTerminal = false)
    (hattempts : r.logicalAttempts < MAX_LOGICAL_RECEIPT_SUBMISSIONS) :
    Own scope e pr r.sending where
  named := h.named
  ours := h.ours
  claimed := h.claimed
  budget := hattempts
  body := fun _ => h.body hretry

theorem own_awaitingRetry {next : Option Nat} {diagnostic : Option String} (h : Own scope e pr r)
    (hretry : r.isTerminal = false) :
    Own scope e pr { r with
      state := .awaitingRetry, nextAttemptUnixMs := next, diagnostic := diagnostic } where
  named := h.named
  ours := h.ours
  claimed := h.claimed
  budget := h.budget
  body := fun _ => h.body hretry

variable {eventBytes : List UInt8}

variable {target : FinalReplyTarget} {sources : List EventId}

theorem own_signedRecord :
    Own scope e ⟨eventBytes, sources⟩ (signedRecord scope e eventBytes target sources) where
  named := rfl
  ours := by
    rintro (h | h)
    · exact h rfl
    · exact h rfl
  claimed := rfl
  budget := Nat.zero_le _
  body := fun _ => rfl

/-! ## The invariant -/

/-- What the disk has for an event, and what was sent of it. -/
def OnDisk (scope : OutboxScope) (e : EventId) (sent : List (List UInt8))
    (onDisk : Option HostFinalDeliveryRecord) : Option Persisted → Prop
  | none => sent = []
  | some pr => ∃ r, onDisk = some r ∧ Own scope e pr r ∧ sent.length ≤ r.logicalAttempts ∧
      ∀ bytes ∈ sent, bytes = pr.eventBytes

variable {sent : List (List UInt8)} {onDisk : Option HostFinalDeliveryRecord}
  {persisted : Option Persisted}

theorem OnDisk.exists_record (h : OnDisk scope e sent onDisk persisted)
    (hpr : persisted = some pr) : ∃ r, onDisk = some r ∧ Own scope e pr r ∧
      sent.length ≤ r.logicalAttempts ∧ ∀ bytes ∈ sent, bytes = pr.eventBytes := by
  subst hpr
  exact h

theorem OnDisk.record (h : OnDisk scope e sent onDisk persisted) (hpr : persisted = some pr)
    (hr : onDisk = some r) : Own scope e pr r ∧ sent.length ≤ r.logicalAttempts ∧
      ∀ bytes ∈ sent, bytes = pr.eventBytes := by
  obtain ⟨r', hr', hrecord⟩ := h.exists_record hpr
  cases hr.symm.trans hr'
  exact hrecord

/-- How far the memory may be from the disk, in each phase of a delivery. -/
def InPhase (scope : OutboxScope) (e : EventId) (pr : Persisted) (n : Nat)
    (r ri : HostFinalDeliveryRecord) : Option Delivery → Prop
  | none | some .top => ri = r ∨ ri.isTerminal = true
  | some (.waiting w) => w = r ∧ ri = r ∧ r.isTerminal = false ∧
      r.logicalAttempts < MAX_LOGICAL_RECEIPT_SUBMISSIONS
  | some (.writing w after) => ri = r ∧ r.isTerminal = false ∧ Own scope e pr w ∧
      r.logicalAttempts ≤ w.logicalAttempts ∧
      (after = .send → r.logicalAttempts < w.logicalAttempts ∧ w.isTerminal = false)
  | some (.indexing w after) =>
      w = r ∧ (after = .send → n < r.logicalAttempts ∧ r.isTerminal = false)
  | some (.sending w) => w = r ∧ ri = r ∧ n < r.logicalAttempts ∧ r.isTerminal = false
  | some (.submitted w) => w = r ∧ ri = r ∧ r.isTerminal = false

/-- What the memory has for an event. -/
def InMemory (scope : OutboxScope) (e : EventId) (n : Nat)
    (onDisk indexed : Option HostFinalDeliveryRecord) (delivery : Option Delivery) :
    Option Persisted → Prop
  | none => indexed = none ∧ (delivery = none ∨ delivery = some .top)
  | some pr => ∃ r ri, onDisk = some r ∧ indexed = some ri ∧ Own scope e pr ri ∧
      InPhase scope e pr n r ri delivery

/-- What is on disk is another identity's, or was persisted. -/
def Known (scope : OutboxScope) (persisted : Map EventId Persisted) (disk : Disk) : Prop :=
  ∀ name r, lookup name disk = some r → Foreign scope r ∨ ∃ e pr, name = e.toHex ∧
    lookup e persisted = some pr

/-- The source events of what was persisted are claimed. -/
def Claims (persisted : Map EventId Persisted) (index : OutboxIndex) : Prop :=
  ∀ e pr, lookup e persisted = some pr →
    ∀ source ∈ pr.sourceEventIds, source.toHex ∈ index.sourceEventIds

/-- The memory of a process. -/
structure Alive (scope : OutboxScope) (s : Host) (p : Process) : Prop where
  memory : ∀ e, InMemory scope e (s.submissions e).length (lookup e.toHex s.disk)
    (lookup e.toHex p.index.records) (lookup e p.deliveries) (lookup e s.persisted)
  claims : Claims s.persisted p.index

structure Inv (scope : OutboxScope) (s : Host) : Prop where
  onDisk : ∀ e, OnDisk scope e (s.submissions e) (lookup e.toHex s.disk) (lookup e s.persisted)
  known : Known scope s.persisted s.disk
  alive : ∀ p, s.process = some p → Alive scope s p

theorem lookup_insert_toHex {V : Type} (m : Map String V) (v : V) :
    lookup e'.toHex (Finmap.insert e.toHex v m) = if e' = e then some v else lookup e'.toHex m := by
  rw [Map.lookup_insert_eq]
  by_cases he : e' = e
  · rw [if_pos he, if_pos (congrArg FixedBytes.toHex he)]
  · rw [if_neg he, if_neg fun hhex => he (FixedBytes.toHex_inj hhex)]

theorem mem_indexRecord {source : String} (h : source ∈ index.sourceEventIds) :
    source ∈ (indexRecord index r).sourceEventIds :=
  Finset.mem_union_left _ h

theorem mem_indexRecord_own {source : EventId} (hown : Own scope e pr r)
    (h : source ∈ pr.sourceEventIds) : source.toHex ∈ (indexRecord index r).sourceEventIds := by
  refine Finset.mem_union_right _ (List.mem_toFinset.mpr ?_)
  rw [hown.claimed]
  exact List.mem_map_of_mem h

/-! ## Loading -/

variable {succeeds : Bool}

theorem writeRecord_eq (h : writeRecord disk r succeeds = some disk') :
    disk' = Finmap.insert r.eventId r disk := by
  unfold writeRecord at h
  split at h
  · exact (Option.some.inj h).symm
  · cases h

/-- **What loading does with a record of this outbox.** It is indexed as it is, or as a tombstone
that is on disk too if the write took place. -/
theorem loadRecord_cases (parse : List UInt8 → Option SignedEvent) (index : OutboxIndex)
    (writes : String → Bool) {name : String} (hname : lookup name disk = some r)
    (hours : ¬ Foreign scope r) :
    ∃ ri disk' issues, loadRecord parse scope writes (disk, index) name =
      (disk', indexRecord { index with loadIssues := issues } ri) ∧
      (ri = r ∨ (∃ reason, ri = r.terminalize reason) ∨
        (r.isTerminal = true ∧ ri = r.compactTerminalBody)) ∧
      ((disk' = disk ∧ (ri = r ∨ ri.isTerminal = true)) ∨
        (disk' = Finmap.insert ri.eventId ri disk ∧ ri.isTerminal = true)) := by
  rw [loadRecord, hname]
  dsimp only
  rw [if_neg fun h => hours (validateRecord_scope_mismatch.mp h)]
  split
  · split
    · rename_i disk' hw
      exact ⟨_, disk', index.loadIssues, rfl, .inr (.inl ⟨_, rfl⟩), .inr ⟨writeRecord_eq hw, rfl⟩⟩
    · exact ⟨_, disk, _, rfl, .inr (.inl ⟨_, rfl⟩), .inl ⟨rfl, .inr rfl⟩⟩
  · split
    · rename_i hterminal
      split
      · rename_i disk' hw
        exact ⟨_, disk', index.loadIssues, rfl, .inr (.inr ⟨hterminal.1, rfl⟩),
          .inr ⟨writeRecord_eq hw, hterminal.1⟩⟩
      · exact ⟨_, disk, _, rfl, .inr (.inr ⟨hterminal.1, rfl⟩), .inl ⟨rfl, .inr hterminal.1⟩⟩
    · exact ⟨r, disk, index.loadIssues, rfl, .inl rfl, .inl ⟨rfl, .inl rfl⟩⟩

theorem loadRecord_skips {writes : String → Bool} {name : String}
    (h : ∀ r, lookup name disk = some r → Foreign scope r) :
    loadRecord parse scope writes (disk, index) name = (disk, index) := by
  unfold loadRecord
  cases hname : lookup name disk with
  | none => rfl
  | some r =>
    dsimp only
    rw [if_pos (validateRecord_scope_mismatch.mpr (h r hname))]

/-- While the directory is read. -/
structure Loading (scope : OutboxScope) (s : Host) (disk : Disk) (index : OutboxIndex) : Prop where
  onDisk : ∀ e, OnDisk scope e (s.submissions e) (lookup e.toHex disk) (lookup e s.persisted)
  known : Known scope s.persisted disk
  indexed : ∀ e ri, lookup e.toHex index.records = some ri →
    ∃ pr r, lookup e s.persisted = some pr ∧
    lookup e.toHex disk = some r ∧ Own scope e pr ri ∧ (ri = r ∨ ri.isTerminal = true) ∧
    ∀ source ∈ pr.sourceEventIds, source.toHex ∈ index.sourceEventIds
  /-- Tombstones stay tombstones. -/
  tombs : ∀ e pr r, lookup e s.persisted = some pr → lookup e.toHex s.disk = some r →
    r.isTerminal = true → ∃ r', lookup e.toHex disk = some r' ∧ r'.isTerminal = true

theorem loading_init (h : Inv scope s) : Loading scope s s.disk OutboxIndex.empty where
  onDisk := h.onDisk
  known := h.known
  indexed := nofun
  tombs := fun _ _ r _ hr hterminal => ⟨r, hr, hterminal⟩

/-- A record of this outbox has been read. -/
theorem loading_index {issues : List LoadIssue} (h : Loading scope s disk index)
    (hpr : lookup e s.persisted = some pr)
    (hr : lookup e.toHex disk = some r) (hown : Own scope e pr ri)
    (hattempts : ri.logicalAttempts = r.logicalAttempts)
    (hterminal : r.isTerminal = true → ri.isTerminal = true)
    (hdisk : (disk' = disk ∧ (ri = r ∨ ri.isTerminal = true)) ∨
      (disk' = Finmap.insert ri.eventId ri disk ∧ ri.isTerminal = true)) :
    Loading scope s disk' (indexRecord { index with loadIssues := issues } ri) := by
  -- the disk of the event, and of the others
  have hat : ∃ r', lookup e.toHex disk' = some r' ∧ (r' = r ∨ r' = ri) ∧
      (ri = r' ∨ ri.isTerminal = true) := by
    rcases hdisk with ⟨rfl, hri⟩ | ⟨rfl, hri⟩
    · exact ⟨r, hr, .inl rfl, hri⟩
    · rw [hown.named, lookup_insert_toHex, if_pos rfl]
      exact ⟨ri, rfl, .inr rfl, .inl rfl⟩
  have hothers : ∀ name, name ≠ e.toHex → lookup name disk' = lookup name disk := by
    intro name hname
    rcases hdisk with ⟨rfl, _⟩ | ⟨rfl, _⟩
    · rfl
    · rw [hown.named, Map.lookup_insert_eq, if_neg hname]
  obtain ⟨r', hr', hor, hsync⟩ := hat
  have hne : ∀ {e' : EventId}, e' ≠ e → e'.toHex ≠ e.toHex := fun hne hhex =>
    hne (FixedBytes.toHex_inj hhex)
  constructor
  · intro e'
    by_cases he : e' = e
    · subst he
      obtain ⟨hown₀, hcount, hbytes⟩ := (h.onDisk e').record hpr hr
      rw [hpr]
      rcases hor with rfl | rfl
      · exact ⟨r', hr', hown₀, hcount, hbytes⟩
      · exact ⟨r', hr', hown, by omega, hbytes⟩
    · rw [hothers _ (hne he)]
      exact h.onDisk e'
  · intro name r₀ hr₀
    by_cases hname : name = e.toHex
    · exact .inr ⟨e, pr, hname, hpr⟩
    · rw [hothers name hname] at hr₀
      exact h.known name r₀ hr₀
  · intro e' ri' hri'
    rw [indexRecord, hown.named] at hri'
    dsimp only at hri'
    rw [lookup_insert_toHex] at hri'
    by_cases he : e' = e
    · subst he
      rw [if_pos rfl] at hri'
      cases hri'
      exact ⟨pr, r', hpr, hr', hown, hsync, fun source hsource => mem_indexRecord_own hown hsource⟩
    · rw [if_neg he] at hri'
      obtain ⟨pr', r₀, hpr', hr₀, hown', hsync', hclaims⟩ := h.indexed e' ri' hri'
      exact ⟨pr', r₀, hpr', by rw [hothers _ (hne he), hr₀],
        hown', hsync', fun source hsource => mem_indexRecord (hclaims source hsource)⟩
  · intro e' pr' r₀ hpr' hr₀ htomb
    obtain ⟨r₁, hr₁, htomb₁⟩ := h.tombs e' pr' r₀ hpr' hr₀ htomb
    by_cases he : e' = e
    · subst he
      rw [hr] at hr₁
      cases hr₁
      refine ⟨r', hr', ?_⟩
      rcases hor with rfl | rfl
      · exact htomb₁
      · exact hterminal htomb₁
    · exact ⟨r₁, by rw [hothers _ (hne he), hr₁], htomb₁⟩

/-- One entry of the directory. -/
theorem loading_step (parse : List UInt8 → Option SignedEvent) (writes : String → Bool)
    (name : String) (h : Loading scope s disk index) :
    Loading scope s (loadRecord parse scope writes (disk, index) name).1
      (loadRecord parse scope writes (disk, index) name).2 ∧
    (∀ (e' : EventId) ri', lookup e'.toHex index.records = some ri' →
      ∃ ri'', lookup e'.toHex (loadRecord parse scope writes (disk, index) name).2.records =
        some ri'') ∧
    ∀ (e : EventId) pr, lookup e s.persisted = some pr → name = e.toHex →
      ∃ ri', lookup e.toHex (loadRecord parse scope writes (disk, index) name).2.records =
        some ri' := by
  by_cases hforeign : ∀ r, lookup name disk = some r → Foreign scope r
  · rw [loadRecord_skips hforeign]
    refine ⟨h, fun e' ri' hri' => ⟨ri', hri'⟩, ?_⟩
    intro e pr hpr hname
    obtain ⟨r, hr, hown, _⟩ := (h.onDisk e).exists_record hpr
    exact absurd (hforeign r (by rw [hname, hr])) hown.ours
  · push Not at hforeign
    obtain ⟨r, hr, hours⟩ := hforeign
    obtain ⟨e, pr, hname, hpr⟩ := (h.known name r hr).resolve_left hours
    subst hname
    have hown : Own scope e pr r := ((h.onDisk e).record hpr hr).1
    obtain ⟨ri, disk', issues, hload, hri, hwritten⟩ := loadRecord_cases parse index writes hr hours
    rw [hload]
    have hri' : Own scope e pr ri ∧ ri.logicalAttempts = r.logicalAttempts ∧
        (r.isTerminal = true → ri.isTerminal = true) := by
      rcases hri with rfl | ⟨reason, rfl⟩ | ⟨hterminal, rfl⟩
      · exact ⟨hown, rfl, id⟩
      · exact ⟨own_terminalize hown, rfl, fun _ => rfl⟩
      · exact ⟨own_compact hown hterminal, rfl, id⟩
    have hlookup : ∀ e' :
        EventId, lookup e'.toHex (indexRecord { index with loadIssues := issues } ri).records =
        if e' = e then some ri else lookup e'.toHex index.records := by
      intro e'
      rw [indexRecord, hri'.1.named]
      exact lookup_insert_toHex _ _
    refine ⟨loading_index h hpr hr hri'.1 hri'.2.1 hri'.2.2 hwritten, ?_, ?_⟩
    · intro e' ri'' hri''
      rw [hlookup]
      by_cases he : e' = e
      · exact ⟨ri, if_pos he⟩
      · exact ⟨ri'', by rw [if_neg he, hri'']⟩
    · intro e' pr' _ hhex
      rw [hlookup, if_pos (FixedBytes.toHex_inj hhex).symm]
      exact ⟨ri, rfl⟩

/-- **The whole directory.** Every persisted event that was listed is indexed. -/
theorem loading_run (parse : List UInt8 → Option SignedEvent) (writes : String → Bool) :
    ∀ (names : List String) {disk : Disk} {index : OutboxIndex}, Loading scope s disk index →
    Loading scope s (names.foldl (loadRecord parse scope writes) (disk, index)).1
      (names.foldl (loadRecord parse scope writes) (disk, index)).2 ∧
    ∀ (e : EventId) pr, lookup e s.persisted = some pr →
      (e.toHex ∈ names ∨ ∃ ri, lookup e.toHex index.records = some ri) →
      ∃ ri, lookup e.toHex (names.foldl (loadRecord parse scope writes) (disk, index)).2.records =
        some ri
  | [], disk, index, h => ⟨h, fun e pr _ hor => hor.resolve_left List.not_mem_nil⟩
  | name :: names, disk, index, h => by
    obtain ⟨hstep, hkeeps, hadds⟩ := loading_step parse writes name h
    obtain ⟨hrun, hall⟩ := loading_run parse writes names hstep
    rw [List.foldl_cons]
    refine ⟨hrun, ?_⟩
    intro e pr hpr hor
    refine hall e pr hpr ?_
    rcases hor with hmem | ⟨ri, hri⟩
    · rcases List.mem_cons.mp hmem with hname | hmem
      · exact .inr (hadds e pr hpr hname.symm)
      · exact .inl hmem
    · exact .inr (hkeeps e ri hri)

/-! ## Steps -/

/-- What is kept of an event that was persisted. -/
structure Onward (s s' : Host) : Prop where
  persisted : ∀ e pr, lookup e s.persisted = some pr → lookup e s'.persisted = some pr
  tombs : ∀ e pr r, lookup e s.persisted = some pr → lookup e.toHex s.disk = some r →
    r.isTerminal = true →
    (∃ r', lookup e.toHex s'.disk = some r' ∧ r'.isTerminal = true) ∧
      s'.submissions e = s.submissions e

theorem onward_refl : Onward s s where
  persisted := fun _ _ h => h
  tombs := fun _ _ r _ hr hterminal => ⟨⟨r, hr, hterminal⟩, rfl⟩

theorem onward_process (process : Option Process) : Onward s { s with process := process } where
  persisted := fun _ _ h => h
  tombs := fun _ _ r _ hr hterminal => ⟨⟨r, hr, hterminal⟩, rfl⟩

theorem onward_trans (h : Onward s s') (h' : Onward s' t) : Onward s t where
  persisted := fun e pr hpr => h'.persisted e pr (h.persisted e pr hpr)
  tombs := by
    intro e pr r hpr hr hterminal
    obtain ⟨⟨r', hr', hterminal'⟩, hsent⟩ := h.tombs e pr r hpr hr hterminal
    obtain ⟨hr'', hsent'⟩ := h'.tombs e pr r' (h.persisted e pr hpr) hr' hterminal'
    exact ⟨hr'', hsent'.trans hsent⟩

/-- Only one event is concerned. -/
structure Concerns (e : EventId) (s : Host) (p : Process) (s' : Host) (p' : Process) : Prop where
  process : s'.process = some p'
  persisted : ∀ e', e' ≠ e → lookup e' s'.persisted = lookup e' s.persisted
  disk : ∀ name, name ≠ e.toHex → lookup name s'.disk = lookup name s.disk
  index : ∀ e' : EventId, e' ≠ e →
    lookup e'.toHex p'.index.records = lookup e'.toHex p.index.records
  sources : p.index.sourceEventIds ⊆ p'.index.sourceEventIds
  deliveries : ∀ e', e' ≠ e → lookup e' p'.deliveries = lookup e' p.deliveries
  submitted : ∀ e', e' ≠ e → s'.submissions e' = s.submissions e'

theorem toHex_ne (h : e' ≠ e) : e'.toHex ≠ e.toHex := fun hhex => h (FixedBytes.toHex_inj hhex)

/-- Then it is enough to look at this one. -/
theorem inv_concerns (h : Inv scope s) (hp : s.process = some p) (hc : Concerns e s p s' p')
    (hpr : lookup e s'.persisted = some pr)
    (hwas : lookup e s.persisted = some pr ∨ ∀ source ∈ pr.sourceEventIds,
      source.toHex ∈ p'.index.sourceEventIds)
    (honDisk : OnDisk scope e (s'.submissions e) (lookup e.toHex s'.disk) (some pr))
    (hmemory : InMemory scope e (s'.submissions e).length (lookup e.toHex s'.disk)
      (lookup e.toHex p'.index.records) (lookup e p'.deliveries) (some pr)) : Inv scope s' := by
  have halive := h.alive p hp
  constructor
  · intro e'
    by_cases he : e' = e
    · subst he
      rw [hpr]
      exact honDisk
    · rw [hc.persisted e' he, hc.disk _ (toHex_ne he), hc.submitted e' he]
      exact h.onDisk e'
  · intro name r hr
    by_cases hname : name = e.toHex
    · exact .inr ⟨e, pr, hname, hpr⟩
    rw [hc.disk name hname] at hr
    rcases h.known name r hr with hforeign | ⟨e', pr', hname', hpr'⟩
    · exact .inl hforeign
    have he : e' ≠ e := by
      rintro rfl
      exact hname hname'
    exact .inr ⟨e', pr', hname', by rw [hc.persisted e' he, hpr']⟩
  · intro p'' hp''
    rw [hc.process] at hp''
    cases hp''
    constructor
    · intro e'
      by_cases he : e' = e
      · subst he
        rw [hpr]
        exact hmemory
      · rw [hc.persisted e' he, hc.disk _ (toHex_ne he), hc.submitted e' he, hc.index e' he,
          hc.deliveries e' he]
        exact halive.memory e'
    · intro e' pr' hpr' source hsource
      by_cases he : e' = e
      · subst he
        rw [hpr] at hpr'
        cases hpr'
        rcases hwas with hwas | hwas
        · exact hc.sources (halive.claims e' pr hwas source hsource)
        · exact hwas source hsource
      · rw [hc.persisted e' he] at hpr'
        exact hc.sources (halive.claims e' pr' hpr' source hsource)

theorem onward_concerns (hc : Concerns e s p s' p')
    (hkeeps : ∀ pr, lookup e s.persisted = some pr → lookup e s'.persisted = some pr)
    (htombs : ∀ r, lookup e.toHex s.disk = some r → r.isTerminal = true →
      lookup e.toHex s'.disk = some r ∧ s'.submissions e = s.submissions e) : Onward s s' where
  persisted := by
    intro e' pr hpr
    by_cases he : e' = e
    · subst he
      exact hkeeps pr hpr
    · rw [hc.persisted e' he, hpr]
  tombs := by
    intro e' pr r hpr hr hterminal
    by_cases he : e' = e
    · subst he
      obtain ⟨hr', hsent⟩ := htombs r hr hterminal
      exact ⟨⟨r, hr', hterminal⟩, hsent⟩
    · rw [hc.disk _ (toHex_ne he), hc.submitted e' he]
      exact ⟨⟨r, hr, hterminal⟩, rfl⟩

theorem inv_crash (h : Inv scope s) : Inv scope { s with process := none } where
  onDisk := h.onDisk
  known := h.known
  alive := nofun

/-- The memory of a process that changes nothing of what the invariant is about. -/
theorem inv_with (h : Inv scope s) (hp : s.process = some p)
    (hrecords : p'.index.records = p.index.records)
    (hsources : p'.index.sourceEventIds = p.index.sourceEventIds)
    (hdeliveries : ∀ e n onDisk indexed persisted,
      InMemory scope e n onDisk indexed (lookup e p.deliveries) persisted →
      InMemory scope e n onDisk indexed (lookup e p'.deliveries) persisted) :
        Inv scope (s.with p') where
  onDisk := h.onDisk
  known := h.known
  alive := by
    intro p'' hp''
    cases hp''
    constructor
    · intro e
      rw [hrecords]
      exact hdeliveries e _ _ _ _ ((h.alive p hp).memory e)
    · intro e pr hpr source hsource
      rw [hsources]
      exact (h.alive p hp).claims e pr hpr source hsource

/-! ### Deliveries -/

variable {next : Option Delivery}

theorem lookup_proceed :
    lookup e' (p.proceed e next).deliveries = if e' = e then next else lookup e' p.deliveries := by
  cases next with
  | some d => exact Map.lookup_insert_eq _ _ _ _
  | none => exact Map.lookup_erase_eq _ _ _

@[simp] theorem index_proceed : (p.proceed e next).index = p.index := by
  cases next with
  | some d => rfl
  | none => rfl

/-- A delivery begins where none is. -/
theorem inMemory_top {indexed : Option HostFinalDeliveryRecord} (h : InMemory scope e n onDisk indexed none persisted) :
    InMemory scope e n onDisk indexed (some .top) persisted := by
  cases persisted with
  | none => exact ⟨h.1, .inr rfl⟩
  | some pr => exact h

theorem deliver_spec (h : p.deliver e = some p') :
    lookup e p.deliveries = none ∧ p' = p.proceed e (some .top) := by
  unfold Process.deliver at h
  split at h
  · cases h
  · rename_i hnone
    exact ⟨hnone, (Option.some.inj h).symm⟩

theorem inv_deliver (h : Inv scope s) (hp : s.process = some p) {q : Process}
    (hindex : q.index = p.index) (hq : q.deliveries = p.deliveries)
    (hdeliver : q.deliver e = some p') : Inv scope (s.with p') := by
  obtain ⟨hnone, rfl⟩ := deliver_spec hdeliver
  refine inv_with h hp (by rw [index_proceed, hindex]) (by rw [index_proceed, hindex]) ?_
  intro e' n onDisk indexed persisted hmemory
  rw [lookup_proceed]
  by_cases he : e' = e
  · subst he
    rw [← hq, hnone] at hmemory
    rw [if_pos rfl]
    exact inMemory_top hmemory
  · rw [if_neg he, hq]
    exact hmemory

theorem submissions_append {bytes : List UInt8} :
    ({ s with submitted := s.submitted ++ [(e, bytes)] } : Host).submissions e' =
      if e' = e then s.submissions e' ++ [bytes] else s.submissions e' := by
  unfold Host.submissions
  dsimp only
  rw [List.filter_append, List.map_append]
  by_cases he : e' = e
  · subst he
    rw [if_pos rfl]
    simp
  rw [if_neg he]
  have hnone : [(e, bytes)].filter (fun submission => decide (submission.1 = e')) = [] := by
    simp [Ne.symm he]
  rw [hnone, List.map_nil, List.append_nil]

/-- A step of a delivery that leaves the disk and the relay alone. -/
theorem concerns_proceed : Concerns e s p (s.with (p.proceed e next)) (p.proceed e next) where
  process := rfl
  persisted := fun _ _ => rfl
  disk := fun _ _ => rfl
  index := fun _ _ => by rw [index_proceed]
  sources := by rw [index_proceed]
  deliveries := fun e' he => by rw [lookup_proceed, if_neg he]
  submitted := fun _ _ => rfl

theorem onward_proceed : Onward s (s.with (p.proceed e next)) :=
  onward_concerns concerns_proceed (fun _ h => h) fun _ hr _ => ⟨hr, rfl⟩

/-- The head of the loop. -/
theorem inPhase_loop (hri : lookup e.toHex index.records = some ri) (hown : Own scope e pr ri)
    (h : ri = r ∨ ri.isTerminal = true) :
    InPhase scope e pr n r ri (Delivery.loop parse scope index e) := by
  have hterminal : ∀ {next : Option Delivery}, ri.isTerminal = false →
      (ri = r → ri.isTerminal = false → InPhase scope e pr n r ri next) →
      InPhase scope e pr n r ri next := by
    intro next hretry hnext
    rcases h with h | h
    · exact hnext h hretry
    · rw [hretry] at h
      cases h
  have hdone : ∀ {diagnostic : String}, ri = r → ri.isTerminal = false →
      InPhase scope e pr n r ri (some (.writing (ri.terminalize diagnostic) .done)) := by
    rintro diagnostic rfl hretry
    exact ⟨rfl, hretry, own_terminalize hown, Nat.le_refl _, nofun⟩
  unfold Delivery.loop
  rw [hri]
  dsimp only
  split
  · exact h
  · exact h
  all_goals
    rename_i hstate
    have hretry : ri.isTerminal = false := by
      unfold HostFinalDeliveryRecord.isTerminal
      rw [hstate]
    split
    · exact h
    split
    · exact hterminal hretry hdone
    split
    · exact hterminal hretry hdone
    · rename_i hattempts
      refine hterminal hretry ?_
      rintro rfl _
      exact ⟨rfl, rfl, hretry, Nat.lt_of_not_le hattempts⟩

theorem inPhase_answered {accepted : Bool} {now : Nat} (hown : Own scope e pr r)
    (hretry : r.isTerminal = false) :
    InPhase scope e pr n r r (some (r.answered accepted now)) := by
  unfold HostFinalDeliveryRecord.answered
  split
  · exact ⟨rfl, hretry, own_accept hown, Nat.le_refl _, nofun⟩
  · split
    · exact ⟨rfl, hretry, own_awaitingRetry hown hretry, Nat.le_refl _, nofun⟩
    · exact ⟨rfl, hretry, own_terminalize hown, Nat.le_refl _, nofun⟩

/-- A step that leaves the disk alone, of a delivery of a persisted event. -/
theorem inv_proceed (h : Inv scope s) (hp : s.process = some p)
    (hpr : lookup e s.persisted = some pr)
    (hr : lookup e.toHex s.disk = some r) (hri : lookup e.toHex p.index.records = some ri)
    (hown : Own scope e pr ri)
    (hphase : InPhase scope e pr (s.submissions e).length r ri next) :
    Inv scope (s.with (p.proceed e next)) := by
  have hdisk := h.onDisk e
  rw [hpr] at hdisk
  refine inv_concerns h hp concerns_proceed hpr (.inl hpr) hdisk ?_
  refine ⟨r, ri, hr, ?_, hown, ?_⟩
  · rw [index_proceed, hri]
  · rw [lookup_proceed, if_pos rfl]
    exact hphase

/-- **A write of a delivery.** -/
theorem inv_write {after : After} (h : Inv scope s) (hp : s.process = some p)
    (hpr : lookup e s.persisted = some pr)
    (hr : lookup e.toHex s.disk = some r) (hri : lookup e.toHex p.index.records = some ri)
    (hown : Own scope e pr ri)
    (hphase : InPhase scope e pr (s.submissions e).length r ri (some (.writing w after)))
    (hwrite : writeRecord s.disk w succeeds = some disk') :
    Inv scope { s with disk := disk', process := some (p.proceed e (some (.indexing w after))) } ∧
      Onward s { s with
        disk := disk', process := some (p.proceed e (some (.indexing w after))) } := by
  obtain ⟨rfl, hretry, hw, hattempts, hsend⟩ := hphase
  obtain ⟨_, hcount, hbytes⟩ := (h.onDisk e).record hpr hr
  rw [writeRecord_eq hwrite, hw.named]
  have hc : Concerns e s p
      { s with
        disk := Finmap.insert e.toHex w s.disk,
        process := some (p.proceed e (some (.indexing w after))) }
      (p.proceed e (some (.indexing w after))) := {
    process := rfl
    persisted := fun _ _ => rfl
    disk := fun name hname => by
      dsimp only
      rw [Map.lookup_insert_eq, if_neg hname]
    index := fun _ _ => by rw [index_proceed]
    sources := by rw [index_proceed]
    deliveries := fun e' he => by rw [lookup_proceed, if_neg he]
    submitted := fun _ _ => rfl }
  have hlookup : lookup e.toHex (Finmap.insert e.toHex w s.disk) = some w := Finmap.lookup_insert _
  constructor
  · refine inv_concerns h hp hc hpr (.inl hpr) ⟨w, hlookup, hw,
      Nat.le_trans hcount hattempts, hbytes⟩ ?_
    refine ⟨w, ri, hlookup, ?_, hown, ?_⟩
    · rw [index_proceed, hri]
    · rw [lookup_proceed, if_pos rfl]
      refine ⟨rfl, ?_⟩
      intro hafter
      obtain ⟨hlt, hw'⟩ := hsend hafter
      exact ⟨Nat.lt_of_le_of_lt hcount hlt, hw'⟩
  · refine onward_concerns hc (fun _ h => h) ?_
    intro r' hr' hterminal
    rw [hr] at hr'
    cases hr'
    rw [hretry] at hterminal
    cases hterminal

/-- The index has what was written. -/
theorem inv_index {after : After} (h : Inv scope s) (hp : s.process = some p)
    (hpr : lookup e s.persisted = some pr)
    (hr : lookup e.toHex s.disk = some r)
    (hphase : InPhase scope e pr (s.submissions e).length r ri (some (.indexing w after))) :
    Inv scope (s.with (({ p with index := indexRecord p.index w } : Process).proceed e
      (after.next w))) ∧
      Onward s (s.with (({ p with index := indexRecord p.index w } : Process).proceed e
        (after.next w))) := by
  obtain ⟨rfl, hsend⟩ := hphase
  obtain ⟨hown, hcount, hbytes⟩ := (h.onDisk e).record hpr hr
  have hc : Concerns e s p
      (s.with (({ p with index := indexRecord p.index w } : Process).proceed e (after.next w)))
      (({ p with index := indexRecord p.index w } : Process).proceed e (after.next w)) := {
    process := rfl
    persisted := fun _ _ => rfl
    disk := fun _ _ => rfl
    index := fun e' he => by
      rw [index_proceed, indexRecord, hown.named]
      dsimp only
      rw [lookup_insert_toHex, if_neg he]
    sources := by
      rw [index_proceed]
      exact Finset.subset_union_left
    deliveries := fun e' he => by rw [lookup_proceed, if_neg he]
    submitted := fun _ _ => rfl }
  constructor
  · refine inv_concerns h hp hc hpr (.inl hpr) ⟨w, hr, hown, hcount, hbytes⟩ ?_
    refine ⟨w, w, hr, ?_, hown, ?_⟩
    · rw [index_proceed, indexRecord, hown.named]
      dsimp only
      rw [lookup_insert_toHex, if_pos rfl]
    · rw [lookup_proceed, if_pos rfl]
      cases after with
      | retry => exact .inl rfl
      | done => exact .inl rfl
      | send =>
        obtain ⟨hlt, hretry⟩ := hsend rfl
        exact ⟨rfl, rfl, hlt, hretry⟩
  · exact onward_concerns hc (fun _ h => h) fun _ hr _ => ⟨hr, rfl⟩

/-- **A submission.** The disk has counted it. -/
theorem inv_submit {bytes : List UInt8} (h : Inv scope s) (hp : s.process = some p)
    (hpr : lookup e s.persisted = some pr)
    (hr : lookup e.toHex s.disk = some r) (hri : lookup e.toHex p.index.records = some ri)
    (hphase : InPhase scope e pr (s.submissions e).length r ri (some (.sending w)))
    (hbody : decodeEventBytes w = .ok bytes) :
    Inv scope { s with
      submitted := s.submitted ++ [(e, bytes)],
      process := some (p.proceed e (some (.submitted w))) } ∧
      Onward s { s with
        submitted := s.submitted ++ [(e, bytes)],
        process := some (p.proceed e (some (.submitted w))) } := by
  obtain ⟨hw, hindexed, hlt, hretry⟩ := hphase
  subst w
  subst ri
  obtain ⟨hown, hcount, hbytes⟩ := (h.onDisk e).record hpr hr
  have hsame : bytes = pr.eventBytes := by
    rw [decodeEventBytes_encode (hown.body hretry)] at hbody
    exact (Except.ok.inj hbody).symm
  have hc : Concerns e s p
      { s with
        submitted := s.submitted ++ [(e, bytes)],
        process := some (p.proceed e (some (.submitted r))) }
      (p.proceed e (some (.submitted r))) := {
    process := rfl
    persisted := fun _ _ => rfl
    disk := fun _ _ => rfl
    index := fun _ _ => by rw [index_proceed]
    sources := by rw [index_proceed]
    deliveries := fun e' he => by rw [lookup_proceed, if_neg he]
    submitted := fun e' he => by
      have happend := @submissions_append e e' s bytes
      rw [if_neg he] at happend
      exact happend }
  have hsent : ({ s with
      submitted := s.submitted ++ [(e, bytes)],
      process := some (p.proceed e (some (.submitted r))) } : Host).submissions e =
      s.submissions e ++ [bytes] := by
    have happend := @submissions_append e e s bytes
    rw [if_pos rfl] at happend
    exact happend
  constructor
  · refine inv_concerns h hp hc hpr (.inl hpr) ?_ ?_
    · rw [hsent]
      refine ⟨r, hr, hown, ?_, ?_⟩
      · rw [List.length_append]
        exact hlt
      · intro b hb
        rcases List.mem_append.mp hb with hb | hb
        · exact hbytes b hb
        · rw [List.mem_singleton.mp hb, hsame]
    · rw [hsent]
      refine ⟨r, r, hr, ?_, hown, ?_⟩
      · rw [index_proceed, hri]
      · rw [lookup_proceed, if_pos rfl]
        exact ⟨rfl, rfl, hretry⟩
  · refine onward_concerns hc (fun _ h => h) ?_
    intro r' hr' hterminal
    rw [hr] at hr'
    cases hr'
    rw [hretry] at hterminal
    cases hterminal

theorem delivery_step {d : Delivery} {step : DeliveryStep} (h : Inv scope s)
    (hp : s.process = some p) (hd : lookup e p.deliveries = some d)
    (hstep : deliveryStep parse scope s p e d step = some s') : Inv scope s' ∧ Onward s s' := by
  have hmemory := (h.alive p hp).memory e
  rw [hd] at hmemory
  cases hpr : lookup e s.persisted with
  | none =>
    -- nothing was persisted, and the delivery finds no record
    rw [hpr] at hmemory
    obtain ⟨hindexed, hor⟩ := hmemory
    have htop : d = .top := by simpa using hor
    subst htop
    have hloop : Delivery.loop parse scope p.index e = none := by
      unfold Delivery.loop
      rw [hindexed]
    have hreturns : s' = s.with (p.proceed e none) := by
      cases step with
      | loop =>
        rw [deliveryStep, hloop] at hstep
        exact (Option.some.inj hstep).symm
      | wake => cases hstep
      | write succeeds => cases hstep
      | index => cases hstep
      | submit => cases hstep
      | answer accepted now => cases hstep
    subst hreturns
    refine ⟨inv_with h hp (by rw [index_proceed]) (by rw [index_proceed]) ?_, onward_proceed⟩
    intro e' n onDisk indexed persisted hmemory
    rw [lookup_proceed]
    by_cases he : e' = e
    · subst he
      rw [hd] at hmemory
      rw [if_pos rfl]
      cases persisted with
      | none => exact ⟨hmemory.1, .inl rfl⟩
      | some pr => exact hmemory
    · rw [if_neg he]
      exact hmemory
  | some pr =>
    rw [hpr] at hmemory
    obtain ⟨r, ri, hr, hri, hown, hphase⟩ := hmemory
    unfold deliveryStep at hstep
    split at hstep
    · cases hstep
      exact ⟨inv_proceed h hp hpr hr hri hown (inPhase_loop hri hown hphase), onward_proceed⟩
    · cases hstep
      obtain ⟨rfl, rfl, hretry, hattempts⟩ := hphase
      refine ⟨inv_proceed h hp hpr hr hri hown ?_, onward_proceed⟩
      exact ⟨rfl, hretry, own_sending hown hretry hattempts, Nat.le_succ _, fun _ =>
        ⟨Nat.lt_succ_self _, rfl⟩⟩
    · split at hstep
      · cases hstep
        exact ⟨inv_proceed h hp hpr hr hri hown (.inl hphase.1), onward_proceed⟩
      · rename_i disk' hwrite
        cases hstep
        exact inv_write h hp hpr hr hri hown hphase hwrite
    · cases hstep
      exact inv_index h hp hpr hr hphase
    · split at hstep
      · cases hstep
        obtain ⟨rfl, rfl, _, hretry⟩ := hphase
        exact ⟨inv_proceed h hp hpr hr hri hown ⟨rfl, hretry, own_terminalize hown, Nat.le_refl _,
          nofun⟩, onward_proceed⟩
      · rename_i bytes hbody
        cases hstep
        exact inv_submit h hp hpr hr hri hphase hbody
    · cases hstep
      obtain ⟨rfl, rfl, hretry⟩ := hphase
      exact ⟨inv_proceed h hp hpr hr hri hown (inPhase_answered hown hretry), onward_proceed⟩
    · cases hstep

/-! ### The host -/

theorem persistSigned_ok
    (h : persistSigned parse scope disk index e eventBytes target sources succeeds =
      .ok (disk', index')) :
    lookup e.toHex index.records = none ∧
      disk' = Finmap.insert e.toHex (signedRecord scope e eventBytes target sources) disk ∧
      index' = indexRecord index (signedRecord scope e eventBytes target sources) := by
  unfold persistSigned at h
  split at h
  · cases h
  dsimp only at h
  split at h
  · cases h
  split at h
  · cases h
  rename_i hnone
  split at h
  · cases h
  rename_i disk₁ hwrite
  obtain ⟨hdisk, hindex⟩ := Prod.mk.inj (Except.ok.inj h)
  refine ⟨by simpa [signedRecord] using hnone, ?_, hindex.symm⟩
  rw [← hdisk]
  exact writeRecord_eq hwrite

theorem inv_persist (h : Inv scope s) (hp : s.process = some p)
    (hpersist : persistSigned parse scope s.disk p.index e eventBytes target sources succeeds =
      .ok (disk', index')) :
    Inv scope { s with disk := disk', process := some { p with index := index' },
                       persisted := Finmap.insert e ⟨eventBytes, sources⟩ s.persisted } ∧
      Onward s { s with disk := disk', process := some { p with index := index' },
                        persisted := Finmap.insert e ⟨eventBytes, sources⟩ s.persisted } := by
  obtain ⟨hnone, rfl, rfl⟩ := persistSigned_ok hpersist
  have hmemory := (h.alive p hp).memory e
  have hdisk := h.onDisk e
  -- it was not persisted before, as it is not indexed
  have hfresh : lookup e s.persisted = none := by
    cases hpr : lookup e s.persisted with
    | none => rfl
    | some pr =>
      rw [hpr] at hmemory
      obtain ⟨_, ri, _, hri, _⟩ := hmemory
      rw [hnone] at hri
      cases hri
  rw [hfresh] at hmemory hdisk
  have hsent : s.submissions e = [] := hdisk
  have hown := @own_signedRecord scope e eventBytes target sources
  have hpr : lookup e (Finmap.insert e (⟨eventBytes, sources⟩ : Persisted) s.persisted) =
      some ⟨eventBytes, sources⟩ :=
    Finmap.lookup_insert _
  have hr : lookup e.toHex
      (Finmap.insert e.toHex (signedRecord scope e eventBytes target sources) s.disk) =
      some (signedRecord scope e eventBytes target sources) := Finmap.lookup_insert _
  have hc : Concerns e s p
      { s with
        disk := Finmap.insert e.toHex (signedRecord scope e eventBytes target sources) s.disk,
        process := some { p with
          index := indexRecord p.index (signedRecord scope e eventBytes target sources) },
        persisted := Finmap.insert e ⟨eventBytes, sources⟩ s.persisted }
      { p with index := indexRecord p.index (signedRecord scope e eventBytes target sources) } := {
    process := rfl
    persisted := fun e' he => Finmap.lookup_insert_of_ne _ he
    disk := fun name hname => Finmap.lookup_insert_of_ne _ hname
    index := fun e' he => Finmap.lookup_insert_of_ne _ (toHex_ne he)
    sources := Finset.subset_union_left
    deliveries := fun _ _ => rfl
    submitted := fun _ _ => rfl }
  constructor
  · refine inv_concerns h hp hc hpr (.inr fun source hsource =>
      mem_indexRecord_own hown hsource) ?_ ?_
    · refine ⟨_, hr, hown, ?_, ?_⟩
      · show (s.submissions e).length ≤ _
        rw [hsent]
        exact Nat.le_refl 0
      · intro bytes hbytes
        have hmem : bytes ∈ s.submissions e := hbytes
        rw [hsent] at hmem
        cases hmem
    · refine ⟨_, _, hr, Finmap.lookup_insert _, hown, ?_⟩
      rcases hmemory.2 with hidle | htop
      · rw [hidle]
        exact .inl rfl
      · rw [htop]
        exact .inl rfl
  · constructor
    · intro e' pr hpr'
      by_cases he : e' = e
      · subst he
        rw [hfresh] at hpr'
        cases hpr'
      · rw [hc.persisted e' he, hpr']
    · intro e' pr r hpr' hr' hterminal
      by_cases he : e' = e
      · subst he
        rw [hfresh] at hpr'
        cases hpr'
      · rw [hc.disk _ (toHex_ne he), hc.submitted e' he]
        exact ⟨⟨r, hr', hterminal⟩, rfl⟩

/-- **A restart.** All that was persisted is indexed. -/
theorem inv_start {order : HashOrder String} {writes : String → Bool} (h : Inv scope s) :
    Inv scope { s with
      disk := (loadExistingRecords parse scope writes s.disk (order.keys s.disk)).1,
      process := some ⟨(loadExistingRecords parse scope writes s.disk (order.keys s.disk)).2,
        ∅, []⟩ } := by
  obtain ⟨hloading, hall⟩ := loading_run parse writes (order.keys s.disk) (loading_init h)
  constructor
  · exact hloading.onDisk
  · exact hloading.known
  · intro p hp
    cases hp
    have hindexed : ∀ e pr, lookup e s.persisted = some pr → ∃ ri,
        lookup e.toHex (loadExistingRecords parse scope writes s.disk
          (order.keys s.disk)).2.records = some ri := by
      intro e pr hpr
      refine hall e pr hpr (.inl ((HashOrder.mem_keys order s.disk e.toHex).mpr ?_))
      obtain ⟨r, hr, _⟩ := (h.onDisk e).exists_record hpr
      exact Finmap.mem_iff.mpr ⟨r, hr⟩
    constructor
    · intro e
      cases hpr : lookup e s.persisted with
      | none =>
        refine ⟨?_, .inl rfl⟩
        cases hri : lookup e.toHex
          (loadExistingRecords parse scope writes s.disk (order.keys s.disk)).2.records with
        | none => rfl
        | some ri =>
          obtain ⟨pr, _, hpr', _⟩ := hloading.indexed e ri hri
          rw [hpr] at hpr'
          cases hpr'
      | some pr =>
        obtain ⟨ri, hri⟩ := hindexed e pr hpr
        obtain ⟨pr', r, hpr', hr, hown, hsync, _⟩ := hloading.indexed e ri hri
        rw [hpr] at hpr'
        cases hpr'
        exact ⟨r, ri, hr, hri, hown, hsync⟩
    · intro e pr hpr
      obtain ⟨ri, hri⟩ := hindexed e pr hpr
      obtain ⟨pr', _, hpr', _, _, _, hclaims⟩ := hloading.indexed e ri hri
      rw [hpr] at hpr'
      cases hpr'
      exact hclaims

theorem onward_loading (process : Option Process) (h : Loading scope s disk index) :
    Onward s { s with disk := disk, process := process } where
  persisted := fun _ _ h => h
  tombs := fun e pr r hpr hr hterminal => ⟨h.tombs e pr r hpr hr hterminal, rfl⟩

/-- The neighbour's file is not one of this outbox. -/
theorem inv_neighbour {name : String} (h : Inv scope s) (hforeign : Foreign scope r)
    (hwas : ∀ r ∈ lookup name s.disk, Foreign scope r) :
    Inv scope { s with disk := Finmap.insert name r s.disk } ∧
      Onward s { s with disk := Finmap.insert name r s.disk } := by
  have hkeeps : ∀ e pr, lookup e s.persisted = some pr →
      lookup e.toHex (Finmap.insert name r s.disk) = lookup e.toHex s.disk := by
    intro e pr hpr
    refine Finmap.lookup_insert_of_ne _ ?_
    rintro rfl
    obtain ⟨r', hr', hown, _⟩ := (h.onDisk e).exists_record hpr
    exact hown.ours (hwas r' hr')
  refine ⟨⟨?_, ?_, ?_⟩, ⟨fun _ _ h => h, ?_⟩⟩
  · intro e
    have hdisk := h.onDisk e
    dsimp only
    cases hpr : lookup e s.persisted with
    | none =>
      rw [hpr] at hdisk
      exact hdisk
    | some pr =>
      rw [hpr] at hdisk
      rw [hkeeps e pr hpr]
      exact hdisk
  · intro name' r' hr'
    dsimp only at hr'
    rw [Map.lookup_insert_eq] at hr'
    split at hr'
    · cases hr'
      exact .inl hforeign
    · exact h.known name' r' hr'
  · intro p hp
    have halive := h.alive p hp
    refine ⟨?_, halive.claims⟩
    intro e
    have hmemory := halive.memory e
    dsimp only
    cases hpr : lookup e s.persisted with
    | none =>
      rw [hpr] at hmemory
      exact hmemory
    | some pr =>
      rw [hpr] at hmemory
      rw [hkeeps e pr hpr]
      exact hmemory
  · intro e pr r' hpr hr' hterminal
    exact ⟨⟨r', by rw [hkeeps e pr hpr, hr'], hterminal⟩, rfl⟩

theorem inv_step {a : Action} (h : Inv scope s) (hstep : (host parse scope).step s a = some s') :
    Inv scope s' ∧ Onward s s' := by
  unfold host at hstep
  cases a with
  | neighbour name record =>
    dsimp only at hstep
    split at hstep
    · rename_i hguard
      cases hstep
      exact inv_neighbour h hguard.1 hguard.2
    · cases hstep
  | start order writes dies =>
    dsimp only at hstep
    split at hstep
    · cases hstep
    · cases hstep
      exact ⟨inv_start h, onward_loading _ (loading_run parse writes _ (loading_init h)).1⟩
    · rename_i n _
      cases hstep
      -- the process dies after `n` of the files
      have hloading := (loading_run parse writes ((order.keys s.disk).take n) (loading_init h)).1
      rename_i hnone
      refine ⟨⟨hloading.onDisk, hloading.known, ?_⟩, onward_loading s.process hloading⟩
      intro p hp
      rw [hnone] at hp
      cases hp
  | persist eventId eventBytes target sourceEventIds succeeds dies =>
    dsimp only at hstep
    split at hstep
    · cases hstep
    rename_i p hp
    split at hstep
    · cases hstep
      exact ⟨h, onward_refl⟩
    rename_i outbox hpersist
    cases hstep
    obtain ⟨hinv, honward⟩ := inv_persist h hp hpersist
    cases dies with
    | false => exact ⟨hinv, honward⟩
    | true => exact ⟨inv_crash hinv, onward_trans honward (onward_process _)⟩
  | deliver eventId =>
    dsimp only at hstep
    split at hstep
    · cases hstep
    · rename_i p hp
      obtain ⟨p', hdeliver, rfl⟩ := Option.map_eq_some_iff.mp hstep
      exact ⟨inv_deliver h hp rfl rfl hdeliver, onward_process _⟩
  | resumePending order =>
    dsimp only at hstep
    split at hstep
    · cases hstep
    · rename_i p hp
      cases hstep
      exact ⟨inv_with h hp rfl rfl fun _ _ _ _ _ hmemory => hmemory, onward_process _⟩
  | resumeNext =>
    dsimp only at hstep
    split at hstep
    · cases hstep
    rename_i p hp
    split at hstep
    · cases hstep
    split at hstep
    · cases hstep
      exact ⟨inv_with h hp rfl rfl fun _ _ _ _ _ hmemory => hmemory, onward_process _⟩
    · obtain ⟨p', hdeliver, rfl⟩ := Option.map_eq_some_iff.mp hstep
      rename_i id pending _ _ eventId _
      exact ⟨inv_deliver (q := { p with pending := pending }) h hp rfl rfl hdeliver,
        onward_process _⟩
  | delivery eventId step =>
    dsimp only at hstep
    split at hstep
    · cases hstep
    rename_i p hp
    split at hstep
    · cases hstep
    · rename_i d hd
      exact delivery_step h hp hd hstep
  | crash =>
    cases hstep
    exact ⟨inv_crash h, onward_process _⟩

/-! ### What is accepted -/

theorem containsTrigger_map {trigger : EventId} : ∀ sources : List EventId,
    containsTrigger trigger (sources.map FixedBytes.toHex) = some (decide (trigger ∈ sources))
  | [] => rfl
  | source :: sources => by
    rw [List.map_cons, containsTrigger, eventIdFromHex_toHex, containsTrigger_map sources]
    simp [List.mem_cons, eq_comm]

/-- The record of a signed event is valid until it is terminal. -/
theorem validateRecord_signedRecord {pubkey : PublicKey}
    (htrigger : target.triggerEventId ∈ sources)
    (hparse : parse eventBytes = some ⟨e, pubkey, true⟩)
    (hpubkey : scope.senderPubkey = pubkey.toHex) :
    validateRecord parse (signedRecord scope e eventBytes target sources) scope = .ok () := by
  have hsources : sources.map FixedBytes.toHex ≠ [] := by
    intro hnil
    rw [List.map_eq_nil_iff.mp hnil] at htrigger
    cases htrigger
  have hours : ¬ Foreign scope (signedRecord scope e eventBytes target sources) :=
    own_signedRecord.ours
  generalize hrecord : signedRecord scope e eventBytes target sources = record at hours
  have hnamed : record.eventId = e.toHex := by rw [← hrecord, signedRecord]
  have hclaimed : record.sourceEventIds =
      sources.map FixedBytes.toHex := by rw [← hrecord, signedRecord]
  have hattempts : record.logicalAttempts = 0 := by rw [← hrecord, signedRecord]
  have hpending : record.isTerminal = false := by rw [← hrecord]; rfl
  have hbody : record.eventBytesB64 =
      some (encodeEventBytes eventBytes) := by rw [← hrecord, signedRecord]
  have hmeta : ¬ (record.version ≠ 1 ∨ isHexEventId record.eventId = false ∨
      record.logicalAttempts > MAX_LOGICAL_RECEIPT_SUBMISSIONS ∨ record.sourceEventIds = []) := by
    rw [hnamed, isHexEventId_toHex, hattempts, hclaimed]
    rintro (h | h | h | h)
    · exact h (by rw [← hrecord, signedRecord])
    · cases h
    · exact absurd h (by decide)
    · exact hsources h
  unfold Foreign at hours
  have htriggerId : record.triggerEventId =
      target.triggerEventId.toHex := by rw [← hrecord, signedRecord]
  have hchannelId : record.channelId = target.channelId.toString := by rw [← hrecord, signedRecord]
  rw [validateRecord, if_neg hours, if_neg hmeta, hnamed, htriggerId, hchannelId,
    eventIdFromHex_toHex, eventIdFromHex_toHex, Uuid.parse_toString]
  dsimp only
  rw [hclaimed, containsTrigger_map, decide_eq_true htrigger]
  dsimp only
  rw [hpending, Bool.false_and, if_neg (by decide), hbody]
  dsimp only
  rw [validateSignedEventBody, decodeEventBytes_encode hbody]
  dsimp only
  rw [hparse]
  dsimp only
  rw [if_neg]
  rintro (h | h | h)
  · exact h rfl
  · exact h (by rw [← hpubkey, ← hrecord, signedRecord])
  · cases h

/-! ## Runs -/

theorem inv_init {files : Disk} (hfiles : ∀ name r, lookup name files = some r → Foreign scope r) :
    Inv scope (Host.init files) where
  onDisk := fun _ => rfl
  known := fun name r hr => .inl (hfiles name r hr)
  alive := nofun

theorem inv_run {as : List Action} (h : Inv scope s) (hrun : (host parse scope).run s as = some t) :
    Inv scope t :=
  Machine.invariant (fun _ _ _ hinv _ hstep => (inv_step hinv hstep).1) h Machine.always_true hrun

theorem onward_run {as : List Action} (h : Inv scope s)
    (hrun : (host parse scope).run s as = some t) : Onward s t := by
  induction as generalizing s with
  | nil =>
    cases hrun
    exact onward_refl
  | cons a as ih =>
    obtain ⟨s', hstep, hrest⟩ := Machine.run_cons.mp hrun
    obtain ⟨hinv, honward⟩ := inv_step h hstep
    exact onward_trans honward (ih hinv hrest)

/--
**At most twice, and never again.** From a directory that holds nothing of this outbox, and after
any steps of the host: an event that has been persisted is submitted at most twice, each time as it
was signed, and no more once its record is terminal. Its record has the body as long as it may be
sent again, and whenever a process runs, its source events are claimed.
-/
theorem submitted_at_most_twice {files : Disk} {as bs : List Action}
    (hfiles : ∀ name r, lookup name files = some r → Foreign scope r)
    (hs : (host parse scope).run (Host.init files) as = some s)
    (ht : (host parse scope).run s bs = some t) (hpr : lookup e s.persisted = some pr) :
    lookup e t.persisted = some pr ∧
    (t.submissions e).length ≤ MAX_LOGICAL_RECEIPT_SUBMISSIONS ∧
    (∀ bytes ∈ t.submissions e, bytes = pr.eventBytes) ∧
    (∀ r, lookup e.toHex s.disk = some r → r.isTerminal = true →
      t.submissions e = s.submissions e) ∧
    (∃ r, lookup e.toHex t.disk = some r ∧
      (isRetryable r = true → decodeEventBytes r = .ok pr.eventBytes)) ∧
    (∀ p, t.process = some p → ∀ source ∈ pr.sourceEventIds,
      p.index.containsSourceEvent source = true) := by
  have hinv := inv_run (inv_init hfiles) hs
  have honward := onward_run hinv ht
  have hinv' := inv_run hinv ht
  have hpr' := honward.persisted e pr hpr
  obtain ⟨r, hr, hown, hcount, hbytes⟩ := (hinv'.onDisk e).exists_record hpr'
  refine ⟨hpr', Nat.le_trans hcount hown.budget, hbytes, ?_, ⟨r, hr, ?_⟩, ?_⟩
  · intro r₀ hr₀ hterminal
    exact (honward.tombs e pr r₀ hpr hr₀ hterminal).2
  · intro hretry
    exact decodeEventBytes_encode (hown.body (isRetryable_iff.mp hretry))
  · intro p hp source hsource
    exact decide_eq_true ((hinv'.alive p hp).claims e pr hpr' source hsource)

/-- The host that has persisted one event. -/
def Host.persisting (scope : OutboxScope) (e : EventId) (eventBytes : List UInt8)
    (target : FinalReplyTarget) (sources : List EventId) : Host where
  disk := Finmap.insert e.toHex (signedRecord scope e eventBytes target sources) ∅
  process := some ⟨indexRecord OutboxIndex.empty (signedRecord scope e eventBytes target sources),
    ∅, []⟩
  persisted := Finmap.insert e ⟨eventBytes, sources⟩ ∅
  submitted := []

theorem run_persist {order : HashOrder String}
    {writes : String → Bool}
    (hvalid : validateRecord parse (signedRecord scope e eventBytes target sources) scope = .ok ())
    (hsources : sources ≠ []) :
    (host parse scope).run (Host.init ∅)
    [.start order writes none, .persist e eventBytes target sources true false] =
      some (Host.persisting scope e eventBytes target sources) := by
  have hstart : (host parse scope).step (Host.init ∅) (.start order writes none) =
      some { Host.init ∅ with process := some ⟨OutboxIndex.empty, ∅, []⟩ } := by
    have hkeys : order.keys (∅ : Disk) = [] := HashOrder.iter_empty order
    have hload : loadExistingRecords parse scope writes ∅ (order.keys (∅ : Disk)) =
        (∅, OutboxIndex.empty) := by
      rw [hkeys]
      rfl
    unfold host
    dsimp only [Host.init]
    rw [hload]
  have hpersist : (host parse scope).step
      { Host.init ∅ with process := some ⟨OutboxIndex.empty, ∅, []⟩ }
      (.persist e eventBytes target sources true false) =
        some (Host.persisting scope e eventBytes target sources) := by
    have hsigned : persistSigned parse scope ∅ OutboxIndex.empty e eventBytes target sources true =
        .ok (Finmap.insert e.toHex (signedRecord scope e eventBytes target sources) ∅,
          indexRecord OutboxIndex.empty (signedRecord scope e eventBytes target sources)) := by
      rw [persistSigned, if_neg hsources]
      dsimp only
      rw [hvalid]
      dsimp only
      rw [if_neg nofun, writeRecord, show (signedRecord scope e eventBytes target sources).eventId =
        e.toHex from rfl, isHexEventId_toHex]
      rfl
    unfold host
    dsimp only [Host.init]
    rw [hsigned]
    rfl
  exact Machine.run_cons.mpr ⟨_, hstart, Machine.run_cons.mpr ⟨_, hpersist, rfl⟩⟩

/-! ### Two attempts -/

/-- The record that an attempt leaves behind which the relay refused. -/
def HostFinalDeliveryRecord.refused (record : HostFinalDeliveryRecord) (now : Nat) :
    HostFinalDeliveryRecord :=
  { record.sending with
    state := .awaitingRetry, nextAttemptUnixMs := some (now + DELIVERY_RETRY_DELAY),
    diagnostic := some "relay_rejected_or_unconfirmed" }

theorem validateRecord_refused (now : Nat) (hretry : r.isTerminal = false)
    (hattempts : r.logicalAttempts + 1 ≤ MAX_LOGICAL_RECEIPT_SUBMISSIONS)
    (h : validateRecord parse r scope = .ok ()) :
    validateRecord parse (r.refused now) scope = .ok () := by
  have hwaiting : (r.refused now).isTerminal = false := rfl
  unfold validateRecord at h ⊢
  rw [hretry] at h
  rw [hwaiting]
  split at h
  · cases h
  rename_i hours
  split at h
  · cases h
  rename_i hmeta
  rw [if_neg, if_neg]
  · exact h
  · rintro (hversion | hid | hmore | hsources)
    · exact hmeta (.inl hversion)
    · exact hmeta (.inr (.inl hid))
    · exact absurd hattempts (Nat.not_le.mpr hmore)
    · exact hmeta (.inr (.inr (.inr hsources)))
  · exact hours

theorem writeRecord_true {disk : Disk} (hname : r.eventId = e.toHex) :
    writeRecord disk r true = some (Finmap.insert e.toHex r disk) := by
  rw [writeRecord, hname, isHexEventId_toHex]
  rfl

section

variable (parse scope)

theorem step_delivery {d : Delivery} {step : DeliveryStep} (hp : s.process = some p)
    (hd : lookup e p.deliveries = some d) :
    (host parse scope).step s (.delivery e step) = deliveryStep parse scope s p e d step := by
  unfold host
  dsimp only
  rw [hp]
  dsimp only
  rw [hd]

theorem loop_waiting {index : OutboxIndex} (hri : lookup e.toHex index.records = some r)
    (hretry : isRetryable r = true) (hvalid : validateRecord parse r scope = .ok ())
    (hattempts : r.logicalAttempts < MAX_LOGICAL_RECEIPT_SUBMISSIONS) :
    Delivery.loop parse scope index e = some (.waiting r) := by
  unfold Delivery.loop
  rw [hri]
  dsimp only
  unfold isRetryable at hretry
  rw [hvalid]
  have hnext : (if r.logicalAttempts ≥ MAX_LOGICAL_RECEIPT_SUBMISSIONS then
      some (Delivery.writing (r.terminalize "retry_budget_exhausted") .done)
        else some (.waiting r)) = some (.waiting r) :=
    if_neg (Nat.not_le.mpr hattempts)
  cases hstate : r.state with
  | pending => exact hnext
  | awaitingRetry => exact hnext
  | accepted =>
    rw [hstate] at hretry
    cases hretry
  | terminalFailed =>
    rw [hstate] at hretry
    cases hretry

/-- From the call until the relay has the event. -/
def attempt (eventId : EventId) : List Action :=
  [.deliver eventId, .delivery eventId .loop, .delivery eventId .wake,
    .delivery eventId (.write true), .delivery eventId .index, .delivery eventId .submit]

theorem run_attempt {bytes : List UInt8} (hp : s.process = some p)
    (hidle : lookup e p.deliveries = none)
    (hri : lookup e.toHex p.index.records = some r) (hname : r.eventId = e.toHex)
    (hretry : isRetryable r = true) (hvalid : validateRecord parse r scope = .ok ())
    (hattempts : r.logicalAttempts < MAX_LOGICAL_RECEIPT_SUBMISSIONS)
    (hbytes : decodeEventBytes r = .ok bytes) : ∃ q, (host parse scope).run s (attempt e) =
      some { s with disk := Finmap.insert e.toHex r.sending s.disk, process := some q,
                    submitted := s.submitted ++ [(e, bytes)] }
      ∧ lookup e q.deliveries = some (.submitted r.sending) := by
  have hdeliver : (host parse scope).step s (.deliver e) =
      some (s.with (p.proceed e (some .top))) := by
    unfold host Process.deliver
    dsimp only
    rw [hp]
    dsimp only
    rw [hidle]
    rfl
  have hwrite : writeRecord s.disk r.sending true = some (Finmap.insert e.toHex r.sending s.disk) :=
    writeRecord_true hname
  have hsent : decodeEventBytes r.sending = .ok bytes := hbytes
  let top := p.proceed e (some .top)
  let waiting := top.proceed e (some (.waiting r))
  let writing := waiting.proceed e (some (.writing r.sending .send))
  let indexing := writing.proceed e (some (.indexing r.sending .send))
  let sending := { indexing with index := indexRecord p.index r.sending }.proceed e
      (some (.sending r.sending))
  have hloop : deliveryStep parse scope (s.with top) top e .top .loop = some (s.with waiting) :=
    congrArg (fun d => some (s.with (top.proceed e d)))
      (loop_waiting parse scope hri hretry hvalid hattempts)
  have hcounted : deliveryStep parse scope (s.with writing) writing e (.writing r.sending .send)
      (.write true) =
      some { s with disk := Finmap.insert e.toHex r.sending s.disk, process := some indexing } := by
    unfold deliveryStep
    dsimp only [Host.with]
    rw [hwrite]
  refine ⟨sending.proceed e (some (.submitted r.sending)), ?_, Finmap.lookup_insert _⟩
  refine Machine.run_cons.mpr ⟨_, hdeliver, ?_⟩
  refine Machine.run_cons.mpr ⟨_,
    (step_delivery parse scope rfl (Finmap.lookup_insert _)).trans hloop, ?_⟩
  refine Machine.run_cons.mpr ⟨s.with writing,
    step_delivery parse scope (d := .waiting r) rfl (Finmap.lookup_insert _), ?_⟩
  refine Machine.run_cons.mpr ⟨_,
    (step_delivery parse scope rfl (Finmap.lookup_insert _)).trans hcounted, ?_⟩
  refine Machine.run_cons.mpr ⟨_,
    step_delivery parse scope (d := .indexing r.sending .send) rfl (Finmap.lookup_insert _), ?_⟩
  refine Machine.run_cons.mpr ⟨_,
    (step_delivery parse scope (d := .sending r.sending) rfl (Finmap.lookup_insert _)).trans ?_,
    rfl⟩
  unfold deliveryStep
  dsimp only
  rw [hsent]
  rfl

/-- The relay refuses, which is written down, and the process dies. -/
def refusal (eventId : EventId) (now : Nat) : List Action :=
  [.delivery eventId (.answer false now), .delivery eventId (.write true), .crash]

theorem run_refused (now : Nat) (hp : s.process = some p)
    (hd : lookup e p.deliveries = some (.submitted r.sending))
    (hname : r.eventId = e.toHex)
    (hattempts : r.logicalAttempts + 1 < MAX_LOGICAL_RECEIPT_SUBMISSIONS) :
    (host parse scope).run s (refusal e now) =
      some { s with disk := Finmap.insert e.toHex (r.refused now) s.disk, process := none } := by
  have hanswer : r.sending.answered false now = .writing (r.refused now) .retry := if_pos hattempts
  have hwrite : writeRecord s.disk (r.refused now) true =
      some (Finmap.insert e.toHex (r.refused now) s.disk) :=
    writeRecord_true hname
  refine Machine.run_cons.mpr ⟨_, (step_delivery parse scope hp hd).trans
    (congrArg (fun d => some (s.with (p.proceed e (some d)))) hanswer), ?_⟩
  refine Machine.run_cons.mpr ⟨_, (step_delivery parse scope rfl (Finmap.lookup_insert _)).trans
    (show deliveryStep _ _ _ _ _ _ _ = some _ by
      unfold deliveryStep
      dsimp only [Host.with]
      rw [hwrite]), ?_⟩
  rfl

/-- The next process finds the record. -/
theorem step_start (order : HashOrder String) (writes : String → Bool) (hp : s.process = none)
    (hdisk : s.disk = Finmap.insert e.toHex r ∅) (hretry : r.isTerminal = false)
    (hattempts : r.logicalAttempts < MAX_LOGICAL_RECEIPT_SUBMISSIONS)
    (hvalid : validateRecord parse r scope = .ok ()) :
    (host parse scope).step s (.start order writes none) =
      some { s with process := some ⟨indexRecord OutboxIndex.empty r, ∅, []⟩ } := by
  have hkeys : order.keys s.disk = [e.toHex] := by
    rw [hdisk]
    refine List.perm_singleton.mp ?_
    refine (List.perm_ext_iff_of_nodup (order.nodup_keys _) (List.nodup_singleton _)).mpr fun k =>
      ?_
    rw [order.mem_keys, Finmap.mem_insert, List.mem_singleton]
    exact or_iff_left Finmap.notMem_empty
  have hload : loadRecord parse scope writes (s.disk, OutboxIndex.empty) e.toHex =
      (s.disk, indexRecord OutboxIndex.empty r) := by
    unfold loadRecord
    dsimp only
    rw [hdisk, Finmap.lookup_insert]
    dsimp only
    rw [hvalid, if_neg (fun h => by cases h), if_neg, if_neg]
    · rw [hretry]
      rintro ⟨h, -⟩
      cases h
    · rintro (h | h | ⟨h, -⟩)
      · exact h rfl
      · exact absurd h (Nat.not_lt.mpr hattempts.le)
      · exact absurd h hattempts.ne
  have hall : loadExistingRecords parse scope writes s.disk (order.keys s.disk) =
      (s.disk, indexRecord OutboxIndex.empty r) := by
    rw [hkeys]
    exact hload
  unfold host
  dsimp only
  rw [hp]
  dsimp only
  rw [hall]

/-- Refused, and sent again by the next process. -/
theorem run_twice {bytes : List UInt8} (order : HashOrder String) (writes : String → Bool)
    (hp : s.process = some p)
    (hidle : lookup e p.deliveries = none) (hri : lookup e.toHex p.index.records = some r)
    (hdisk : s.disk = Finmap.insert e.toHex r ∅) (hname : r.eventId = e.toHex)
    (hretry : isRetryable r = true)
    (hvalid : validateRecord parse r scope = .ok ())
    (hattempts : r.logicalAttempts + 1 < MAX_LOGICAL_RECEIPT_SUBMISSIONS)
    (hbytes : decodeEventBytes r = .ok bytes) :
    ∃ t, (host parse scope).run s (attempt e ++ refusal e 0 ++
      .start order writes none :: attempt e) = some t
      ∧ t.submitted = s.submitted ++ [(e, bytes)] ++ [(e, bytes)] := by
  obtain ⟨q, hfirst, hq⟩ :=
    run_attempt parse scope hp hidle hri hname hretry hvalid (Nat.lt_of_succ_lt hattempts) hbytes
  have hrefused := run_refused parse scope 0
    (s := ⟨Finmap.insert e.toHex r.sending s.disk, some q, s.persisted,
      s.submitted ++ [(e, bytes)]⟩) rfl hq hname hattempts
  have hleft : Finmap.insert e.toHex (r.refused 0) (Finmap.insert e.toHex r.sending s.disk) =
      Finmap.insert e.toHex (r.refused 0) ∅ := by
    rw [hdisk, Finmap.insert_insert, Finmap.insert_insert]
  have hvalid' := validateRecord_refused 0 (isRetryable_iff.mp hretry) hattempts.le hvalid
  have hstart := step_start parse scope order writes
    (s := ⟨Finmap.insert e.toHex (r.refused 0) (Finmap.insert e.toHex r.sending s.disk), none,
      s.persisted, s.submitted ++ [(e, bytes)]⟩) rfl hleft rfl hattempts hvalid'
  obtain ⟨q', hsecond, -⟩ := run_attempt parse scope (e := e) (r := r.refused 0)
    (s := ⟨Finmap.insert e.toHex (r.refused 0) (Finmap.insert e.toHex r.sending s.disk),
      some ⟨indexRecord OutboxIndex.empty (r.refused 0), ∅, []⟩, s.persisted, s.submitted ++
        [(e, bytes)]⟩)
    rfl (Finmap.lookup_empty e) (hname ▸ Finmap.lookup_insert _) hname rfl hvalid' hattempts hbytes
  refine ⟨_, Machine.run_append.mpr ⟨_, Machine.run_append.mpr ⟨_, hfirst, hrefused⟩,
    Machine.run_cons.mpr ⟨_, hstart, hsecond⟩⟩, rfl⟩

theorem run_resent (order : HashOrder String) (writes : String → Bool)
    (hvalid : validateRecord parse (signedRecord scope e eventBytes target sources) scope =
      .ok ()) :
    ∃ t, (host parse scope).run (Host.persisting scope e eventBytes target sources)
        (attempt e ++ refusal e 0 ++ .start order writes none :: attempt e) = some t
      ∧ t.submissions e = [eventBytes, eventBytes] := by
  obtain ⟨t, ht, hsubmitted⟩ :=
    run_twice parse scope order writes (s := Host.persisting scope e eventBytes target sources) rfl
    (Finmap.lookup_empty e) (Finmap.lookup_insert _) rfl rfl rfl hvalid Nat.one_lt_two
      (decodeEventBytes_encode rfl)
  refine ⟨t, ht, ?_⟩
  rw [Host.submissions, hsubmitted]
  simp [Host.persisting]

end

/-! An event with its signature. -/

def theEvent : SignedEvent where
  id := FixedBytes.ofNat 32 0xac75607100c285eecfff07541afed04e00e67430b1045feaebc2afefe3d539bc
  pubkey := FixedBytes.ofNat 32 0xf9308a019258c31049344f85f89d5229b531c845836f99b08601f113bce036f9
  verifies := true

def theBytes : List UInt8 := Str.asBytes
  "\x7b\"id\":\"ac75607100c285eecfff07541afed04e00e67430b1045feaebc2afefe3d539bc\",\"pubkey\":\"f9308a019258c31049344f85f89d5229b531c845836f99b08601f113bce036f9\",\"created_at\":1700000000,\"kind\":9,\"tags\":[],\"content\":\"ok\",\"sig\":\"d2651a7010655967956bafa6e856aac4d12a824d47b3d64b8456df7186742b215887264a0dc7405aa8706ddd7340976b9bfe668493f2db41c4499d1b9e9d85b8\"\x7d"

def theParse (bytes : List UInt8) : Option SignedEvent :=
    if bytes = theBytes then some theEvent else none

def theScope : OutboxScope := ⟨"wss://relay.example", theEvent.pubkey.toHex⟩

def theTrigger : EventId := FixedBytes.ofNat 32 5

def theTarget : FinalReplyTarget := ⟨FixedBytes.ofNat 16 7, theTrigger⟩

def theRecord : HostFinalDeliveryRecord :=
  signedRecord theScope theEvent.id theBytes theTarget [theTrigger]

theorem validateRecord_theBytes : validateRecord theParse theRecord theScope = .ok () :=
  validateRecord_signedRecord (List.mem_singleton_self _) (if_pos rfl) rfl

/-- Sent twice. -/
theorem submitted_at_most_twice_theBytes : ∃ s t,
    (host theParse theScope).run (Host.init ∅) [.start (HashOrder.any String) (fun _ => true) none,
      .persist theEvent.id theBytes theTarget [theTrigger] true false] = some s ∧
    (host theParse theScope).run s (attempt theEvent.id ++ refusal theEvent.id 0 ++
      .start (HashOrder.any String) (fun _ => true) none :: attempt theEvent.id) = some t ∧
    t.submissions theEvent.id = [theBytes, theBytes] ∧
    ∃ r, lookup theEvent.id.toHex t.disk = some r ∧
      (isRetryable r = true → decodeEventBytes r = .ok theBytes) := by
  have hfiles : ∀ name r, lookup name (∅ : Disk) = some r → Foreign theScope r := by
    intro name r h
    rw [Finmap.lookup_empty] at h
    cases h
  have hs := @run_persist theParse theScope theEvent.id theBytes theTarget [theTrigger]
      (HashOrder.any String)
    (fun _ => true) validateRecord_theBytes (List.cons_ne_nil _ _)
  obtain ⟨t, ht, hsubmissions⟩ :=
    run_resent theParse theScope (HashOrder.any String) (fun _ => true) validateRecord_theBytes
  have hpr : lookup theEvent.id
      (Host.persisting theScope theEvent.id theBytes theTarget [theTrigger]).persisted =
      some ⟨theBytes, [theTrigger]⟩ := Finmap.lookup_insert _
  obtain ⟨-, -, -, -, hrecord, -⟩ := submitted_at_most_twice hfiles hs ht hpr
  dsimp only at hrecord
  exact ⟨_, t, hs, ht, hsubmissions, hrecord⟩

end Pkzz.Acp.FinalDelivery
