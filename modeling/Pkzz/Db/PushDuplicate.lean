import Pkzz.Db.PushFence

/-!
# What a duplicate wake hides

A job is told apart by its endpoint and its event, and it is claimed and sent while the lease at its
address has its generation and its endpoint. So a job of an older generation, or of another lease
with the same endpoint, still stands for the event: the enqueue of a fresh job answers `Duplicate`,
and the job it names is never sent.
-/

namespace Pkzz.Db.Push

open Pkzz.Core Pkzz.Lib
open Outbox

/-! ## What is claimed of an enqueue -/

/-- The lease a request is for. -/
def Outbox.WakeRequest.address (communityId : CommunityId) (r : WakeRequest) : Address :=
  ⟨communityId, r.author, r.installationId⟩

/-- The job of every duplicate is done, or it is a job of the lease of the request that can still be
claimed and sent. -/
def HidesNothing (communityId : CommunityId) (now : Int) (requests : List WakeRequest)
    (outcomes : List EnqueueOutcome) (after : Outbox) : Prop :=
  ∀ p ∈ requests.zip outcomes, ∀ id, p.2 = .duplicate id →
    ∃ w ∈ after.jobs, w.key = (communityId, id) ∧
      (w.terminal = true ∨ (w.address = p.1.address communityId ∧ after.deliverable now w = true))

/-- The deadline of the job has not passed, and its event is there. -/
def Outbox.timely (o : Outbox) (now : Int) (w : Wake) : Bool :=
  (o.sourceOf w).isSome && decide (w.expiresAt > epochSecs now)

/-- The job is done, or it is a timely job of the lease and the generation of the request. -/
def Fits (o : Outbox) (communityId : CommunityId) (now : Int) (r : WakeRequest) (w : Wake) : Prop :=
  w.terminal = true ∨
    (w.address = r.address communityId ∧ w.leaseGeneration = r.leaseGeneration ∧
      o.timely now w = true)

/-- A request of a batch with the endpoint of its lease. -/
def Outbox.resolved (o : Outbox) (communityId : CommunityId) (now : Int)
    (requests : List WakeRequest) : List (WakeRequest × Option (List UInt8)) :=
  requests.map fun r => (r, o.resolve communityId now r)

/-- The first row with the key, of those there are and those the requests ask for. -/
def rowFor (communityId : CommunityId) (now : Int) (jobs : List Wake)
    (requests : List (WakeRequest × Option (List UInt8)))
    (key : CommunityId × List UInt8 × List UInt8) : Option Wake :=
  (jobs ++ requests.filterMap fun e => e.2.map (newWake communityId now e.1)).find? fun w =>
    w.dedupKey == key

/-- The job of the endpoint and the event of a request, which is there or is made for a request
before it, fits the request. -/
def Unhidden (o : Outbox) (communityId : CommunityId) (now : Int)
    (requests : List WakeRequest) : Prop :=
  ∀ before r after, requests = before ++ r :: after →
    ∀ endpointHash, o.resolve communityId now r = some endpointHash →
    ∀ w, rowFor communityId now o.jobs (o.resolved communityId now before)
      (communityId, endpointHash, r.eventId) = some w → Fits o communityId now r w

variable {maxActiveLeases : Int} {s s' : Service} {o o' : Outbox} {w v : Wake}
    {communityId : CommunityId} {now : Int}
  {r r' : WakeRequest} {requests : List WakeRequest} {outcomes : List EnqueueOutcome}
    {endpointHash : List UInt8}

/-! ## One enqueue -/

/-- The lease that makes a request eligible. -/
theorem resolve_eq_some : o.resolve communityId now r = some endpointHash ↔
    ∃ l b, o.tables.leaseAt (r.address communityId) = some l ∧ l.effective now = true ∧
      l.version.generation = r.leaseGeneration ∧ l.active = some b ∧
        b.endpointHash = endpointHash := by
  rw [resolve]
  constructor
  · intro h
    split at h
    · rename_i l hl
      obtain ⟨hat, heffective⟩ := Option.filter_eq_some_iff.mp hl
      split at h
      · rename_i hgen
        obtain ⟨b, hb, hhash⟩ := Option.map_eq_some_iff.mp h
        exact ⟨l, b, hat, heffective, hgen, hb, hhash⟩
      · cases h
    · cases h
  · rintro ⟨l, b, hat, heffective, hgen, hb, hhash⟩
    rw [WakeRequest.address] at hat
    rw [hat, Option.filter_some, if_pos heffective]
    dsimp only
    rw [if_pos hgen, hb, Option.map_some, hhash]

theorem leaseOf_eq_some {l : Lease} : o.leaseOf w = some l ↔
    o.tables.leaseAt w.address = some l ∧ l.version.generation = w.leaseGeneration ∧
      ∃ b, l.active = some b ∧ b.endpointHash = w.endpointHash := by
  rw [leaseOf, Option.filter_eq_some_iff, Bool.and_eq_true, decide_eq_true_eq, Option.any_eq_true]
  simp only [beq_iff_eq]

/-- The turn of one request: the rows it leaves, and its answer. -/
inductive Turn (communityId : CommunityId) (now : Int) (jobs : List Wake) :
    WakeRequest × Option (List UInt8) → List Wake → EnqueueOutcome → Prop where
  | inactive (r : WakeRequest) : Turn communityId now jobs (r, none) jobs .inactiveLease
  | enqueued {r : WakeRequest} {endpointHash : List UInt8}
      (hfree : ∀ v ∈ jobs, v.dedupKey ≠ (communityId, endpointHash, r.eventId)) :
      Turn communityId now jobs (r,
        some endpointHash) (jobs ++ [newWake communityId now r endpointHash]) (.enqueued r.newId)
  | duplicate {r : WakeRequest} {endpointHash : List UInt8} {w : Wake}
      (hfind : jobs.find?
        (fun v => v.dedupKey == (communityId, endpointHash, r.eventId)) = some w) :
      Turn communityId now jobs (r, some endpointHash) jobs (.duplicate w.id)

/-- A batch is its first turn and the rest. -/
theorem insertWakes_cons {jobs jobs' : List Wake} {e : WakeRequest × Option (List UInt8)}
    {rest : List (WakeRequest × Option (List UInt8))}
    (h : insertWakes communityId now jobs (e :: rest) = .ok (jobs', outcomes)) :
    ∃ jobs₁ answer outcomes₁, Turn communityId now jobs e jobs₁ answer ∧
      insertWakes communityId now jobs₁ rest = .ok (jobs', outcomes₁) ∧
        outcomes = answer :: outcomes₁ := by
  have hmap : ∀ {jobs₁ : List Wake} {answer : EnqueueOutcome},
      Turn communityId now jobs e jobs₁ answer →
      ((insertWakes communityId now jobs₁ rest).map fun r => (r.1, answer :: r.2)) =
        .ok (jobs', outcomes) →
      ∃ jobs₁ answer outcomes₁, Turn communityId now jobs e jobs₁ answer ∧
        insertWakes communityId now jobs₁ rest = .ok (jobs', outcomes₁) ∧
          outcomes = answer :: outcomes₁ := by
    intro jobs₁ answer hturn hrest
    cases hr : insertWakes communityId now jobs₁ rest with
    | error err =>
      rw [hr] at hrest
      cases hrest
    | ok r =>
      rw [hr] at hrest
      cases Except.ok.inj hrest
      exact ⟨jobs₁, answer, _, hturn, hr, rfl⟩
  obtain ⟨request, resolved⟩ := e
  cases resolved with
  | none =>
    rw [insertWakes] at h
    exact hmap (.inactive request) h
  | some endpointHash =>
    rw [insertWakes] at h
    split at h
    · cases h
    · rename_i jobs₁ hinsert
      rcases insertWake_ok hinsert with ⟨hfalse, _⟩ | ⟨_, rfl, hfree, _⟩
      · cases hfalse
      exact hmap (.enqueued hfree) h
    · rename_i jobs₁ hinsert
      rcases insertWake_ok hinsert with ⟨_, rfl, _⟩ | ⟨htrue, _⟩
      · split at h
        · rename_i v hfind
          exact hmap (.duplicate hfind) h
        · cases h
      · cases htrue

/-- The rows only grow, and no two share a key. -/
theorem Turn.dedup {jobs jobs₁ : List Wake} {e : WakeRequest × Option (List UInt8)}
    {answer : EnqueueOutcome}
    (h : Turn communityId now jobs e jobs₁ answer) (hnodup : (jobs.map Wake.dedupKey).Nodup) :
    (jobs₁.map Wake.dedupKey).Nodup := by
  cases h with
  | inactive => exact hnodup
  | duplicate => exact hnodup
  | enqueued hfree =>
    rw [List.map_append, List.map_singleton]
    refine hnodup.append (List.nodup_singleton _) (List.disjoint_singleton.mpr ?_)
    intro hmem
    obtain ⟨v, hv, heq⟩ := List.mem_map.mp hmem
    exact hfree v hv heq

/-- A later request finds the same row before the turn as after it. -/
theorem Turn.rowFor {jobs jobs₁ : List Wake} {e : WakeRequest × Option (List UInt8)}
    {answer : EnqueueOutcome}
    (h : Turn communityId now jobs e jobs₁ answer)
    (before : List (WakeRequest × Option (List UInt8)))
    (key : CommunityId × List UInt8 × List UInt8) :
    rowFor communityId now jobs (e :: before) key = rowFor communityId now jobs₁ before key := by
  unfold Push.rowFor
  cases h with
  | inactive => rfl
  | enqueued => rw [List.append_assoc]; rfl
  | @duplicate r endpointHash w hfind =>
    rw [List.filterMap_cons]
    simp only [Option.map_some, List.find?_append, List.find?_cons]
    by_cases hkey : (newWake communityId now r endpointHash).dedupKey = key
    · rw [← hkey]
      rw [show (newWake communityId now r endpointHash).dedupKey = (communityId, endpointHash,
        r.eventId) from rfl, hfind]
      rfl
    · rw [beq_eq_false_iff_ne.mpr hkey]

theorem insertWakes_dedup {rs : List (WakeRequest × Option (List UInt8))} {jobs jobs' : List Wake}
    (h : insertWakes communityId now jobs rs = .ok (jobs', outcomes))
    (hnodup : (jobs.map Wake.dedupKey).Nodup) : (jobs'.map Wake.dedupKey).Nodup := by
  induction rs generalizing jobs outcomes with
  | nil =>
    cases h
    exact hnodup
  | cons e rest ih =>
    obtain ⟨jobs₁, answer, outcomes₁, hturn, hrest, rfl⟩ := insertWakes_cons h
    exact ih hrest (hturn.dedup hnodup)

/-- What a request finds is there in the end. -/
theorem mem_of_rowFor {before rest : List (WakeRequest × Option (List UInt8))}
    {jobs jobs' : List Wake}
    {key : CommunityId × List UInt8 × List UInt8}
    (h : insertWakes communityId now jobs (before ++ rest) = .ok (jobs', outcomes))
    (hfound : rowFor communityId now jobs before key = some w) : w ∈ jobs' := by
  induction before generalizing jobs outcomes with
  | nil =>
    obtain ⟨added, rfl, _⟩ := insertWakes_ok h
    refine List.mem_append_left _ ?_
    simpa [rowFor] using List.mem_of_find?_eq_some hfound
  | cons e before ih =>
    obtain ⟨jobs₁, answer, outcomes₁, hturn, hrest, rfl⟩ := insertWakes_cons h
    rw [hturn.rowFor] at hfound
    exact ih hrest hfound

/-- **Which requests are duplicates**: those that find a row, of the job they find. -/
theorem insertWakes_duplicates {rs : List (WakeRequest × Option (List UInt8))}
    {jobs jobs' : List Wake}
    (h : insertWakes communityId now jobs rs = .ok (jobs', outcomes))
    (Q : WakeRequest → Uuid → Prop) :
    (∀ p ∈ (rs.map Prod.fst).zip outcomes, ∀ id, p.2 = .duplicate id → Q p.1 id) ↔
      ∀ before r after endpointHash, rs = before ++ (r, some endpointHash) :: after →
        ∀ w, rowFor communityId now jobs before (communityId, endpointHash, r.eventId) = some w →
          Q r w.id := by
  induction rs generalizing jobs outcomes with
  | nil => simp
  | cons e rest ih =>
    obtain ⟨jobs₁, answer, outcomes₁, hturn, hrest, rfl⟩ := insertWakes_cons h
    rw [List.map_cons, List.zip_cons_cons, List.forall_mem_cons, ih hrest]
    -- the first request, and then those after it
    have hfirst : (∀ id, answer = .duplicate id → Q e.1 id) ↔
        ∀ endpointHash, e.2 = some endpointHash →
          ∀ w, rowFor communityId now jobs [] (communityId, endpointHash, e.1.eventId) = some w →
            Q e.1 w.id := by
      have hnil : ∀ key, rowFor communityId now jobs [] key = jobs.find? fun w =>
        w.dedupKey == key := by
        intro key
        unfold rowFor
        rw [List.filterMap_nil, List.append_nil]
      simp only [hnil]
      cases hturn with
      | inactive => simp
      | @enqueued r endpointHash hfree =>
        have hnone : jobs.find? (fun v => v.dedupKey == (communityId, endpointHash, r.eventId)) =
            none :=
          List.find?_eq_none.mpr fun v hv heq => hfree v hv (by simpa using heq)
        simp [hnone]
      | duplicate hfind => simp [hfind]
    refine (and_congr_left fun _ => hfirst).trans ?_
    constructor
    · rintro ⟨hone, hmore⟩ before r after endpointHash hsplit v hv
      cases before with
      | nil =>
        obtain ⟨rfl, _⟩ := List.cons.inj hsplit
        exact hone endpointHash rfl v hv
      | cons e' before =>
        obtain ⟨rfl, htail⟩ := List.cons.inj hsplit
        rw [hturn.rowFor] at hv
        exact hmore before r after endpointHash htail v hv
    · intro hall
      refine ⟨?_, ?_⟩
      · intro endpointHash hresolved v hv
        refine hall [] e.1 rest endpointHash ?_ v hv
        rw [← hresolved]
        rfl
      · intro before r after endpointHash hsplit v hv
        rw [← hturn.rowFor] at hv
        exact hall (e :: before) r after endpointHash (by rw [hsplit]; rfl) v hv

/-- What an enqueue leaves behind. -/
structure Enqueued (communityId : CommunityId) (now : Int) (o : Outbox)
    (requests : List WakeRequest) (outcomes : List EnqueueOutcome) (o' : Outbox) : Prop where
  tables : o'.tables = o.tables
  sources : o'.sources = o.sources
  keys : (o'.jobs.map Wake.key).Nodup
  dedup : (o'.jobs.map Wake.dedupKey).Nodup
  /-- A new row is of an eligible request. -/
  added : ∃ added, o'.jobs = o.jobs ++ added ∧ ∀ w ∈ added, ∃ r ∈ requests, ∃ endpointHash,
    o.resolve communityId now r = some endpointHash ∧ w = newWake communityId now r endpointHash
  rows : insertWakes communityId now o.jobs (o.resolved communityId now requests) =
    .ok (o'.jobs, outcomes)

theorem enqueueWakes_ok (hkeys : (o.jobs.map Wake.key).Nodup)
    (hdedup : (o.jobs.map Wake.dedupKey).Nodup)
    (h : o.enqueueWakes communityId now requests = .ok (o', outcomes)) :
    Enqueued communityId now o requests outcomes o' := by
  rw [enqueueWakes] at h
  split at h
  · cases h
  rename_i jobs outcomes' hinsert
  cases h
  obtain ⟨added, rfl, hadded, hkeys'⟩ := insertWakes_ok hinsert
  refine ⟨rfl, rfl, hkeys' hkeys, insertWakes_dedup hinsert hdedup, ⟨added, rfl, ?_⟩, hinsert⟩
  intro w hw
  obtain ⟨r, endpointHash, hmem, heq⟩ := hadded w hw
  obtain ⟨r', hr', heq'⟩ := List.mem_map.mp hmem
  obtain ⟨rfl, hresolve⟩ := Prod.mk.inj heq'
  exact ⟨r', hr', endpointHash, hresolve, heq⟩

/-- Eligible requests of one address are of one generation. -/
theorem generation_of_resolve {h h' : List UInt8} (hr : o.resolve communityId now r = some h)
    (hr' : o.resolve communityId now r' = some h')
    (haddress : r.address communityId = r'.address communityId) :
    r.leaseGeneration = r'.leaseGeneration := by
  obtain ⟨l, _, hat, _, hgen, _⟩ := resolve_eq_some.mp hr
  obtain ⟨l', _, hat', _, hgen', _⟩ := resolve_eq_some.mp hr'
  rw [haddress, hat'] at hat
  rw [← hgen, ← hgen', Option.some.inj hat]

/-- For the job of an eligible request, to be deliverable for its lease is to be timely and of its
address and generation. -/
theorem deliverable_iff (h : Enqueued communityId now o requests outcomes o')
    (hr : o.resolve communityId now r = some endpointHash)
    (hkey : w.dedupKey = (communityId, endpointHash, r.eventId)) :
    (w.address = r.address communityId ∧ o'.deliverable now w = true) ↔
      (w.address = r.address communityId ∧ w.leaseGeneration = r.leaseGeneration ∧
        o.timely now w = true) := by
  obtain ⟨l, b, hat, heffective, hgen, hb, hhash⟩ := resolve_eq_some.mp hr
  have htimely : o'.deliverable now w = true ↔
      (∃ l, o'.leaseOf w = some l ∧ l.effective now = true) ∧ o.timely now w = true := by
    unfold deliverable timely sourceOf
    rw [h.sources, Bool.and_assoc, Bool.and_eq_true, Option.any_eq_true]
  rw [htimely]
  refine and_congr_right fun haddress => and_congr_left fun _ => ?_
  constructor
  · rintro ⟨l', hl', _⟩
    obtain ⟨hat', hgen', _⟩ := leaseOf_eq_some.mp hl'
    rw [h.tables, haddress, hat] at hat'
    rw [← hgen', ← hgen, Option.some.inj hat']
  · intro hgeneration
    refine ⟨l, leaseOf_eq_some.mpr ⟨?_, hgen.trans hgeneration.symm, b, hb, ?_⟩, heffective⟩
    · rw [h.tables, haddress, hat]
    · rw [hhash]
      exact (congrArg (fun k => k.2.1) hkey).symm

theorem dedupKey_of_rowFor {jobs : List Wake} {before : List (WakeRequest × Option (List UInt8))}
    {key : CommunityId × List UInt8 × List UInt8}
    (h : rowFor communityId now jobs before key = some w) : w.dedupKey = key := by
  unfold rowFor at h
  simpa using List.find?_some h

theorem key_of_dedupKey {eventId : List UInt8}
    (h : w.dedupKey = (communityId, endpointHash, eventId)) : w.key = (communityId, w.id) := by
  have hcommunity : w.communityId = communityId := congrArg Prod.fst h
  rw [Wake.key, hcommunity]

/-- **What an enqueue hides, from the rows it starts from.** -/
theorem hidesNothing_iff_unhidden (h : Enqueued communityId now o requests outcomes o') :
    HidesNothing communityId now requests outcomes o' ↔ Unhidden o communityId now requests := by
  have hfst : (o.resolved communityId now requests).map Prod.fst = requests := by
    unfold resolved
    rw [List.map_map]
    exact List.map_id requests
  have hiff := insertWakes_duplicates h.rows fun r id => ∃ w ∈ o'.jobs, w.key = (communityId, id) ∧
    (w.terminal = true ∨ (w.address = r.address communityId ∧ o'.deliverable now w = true))
  rw [hfst] at hiff
  refine hiff.trans ?_
  constructor
  · intro hall before r after hsplit endpointHash hresolve w hfound
    have hkey := dedupKey_of_rowFor hfound
    have hrows : o.resolved communityId now requests
        = o.resolved communityId now before ++
          (r, some endpointHash) :: o.resolved communityId now after := by
      rw [hsplit, ← hresolve]
      exact List.map_append
    obtain ⟨v, hv, hvkey, hfits⟩ := hall _ r _ endpointHash hrows w hfound
    have hw : w ∈ o'.jobs := mem_of_rowFor (hrows ▸ h.rows) hfound
    rw [eq_of_key h.keys hv hw (hvkey.trans (key_of_dedupKey hkey).symm)] at hfits
    exact hfits.imp id (deliverable_iff h hresolve hkey).mp
  · intro hall before r after endpointHash hrows w hfound
    have hkey := dedupKey_of_rowFor hfound
    obtain ⟨l₁, l₂, hsplit, rfl, hrest⟩ := List.map_eq_append_iff.mp hrows
    obtain ⟨r', l₃, rfl, heq, rfl⟩ := List.map_eq_cons_iff.mp hrest
    obtain ⟨rfl, hresolve⟩ := Prod.mk.inj heq
    refine ⟨w, mem_of_rowFor (hrows ▸ h.rows) hfound, key_of_dedupKey hkey, ?_⟩
    exact (hall l₁ r' l₃ hsplit endpointHash hresolve w hfound).imp id
      (deliverable_iff h hresolve hkey).mpr

/-! ## Every run -/

theorem map_dedupKeys {f : Wake → Wake} {l : List Wake}
    (hf : ∀ w ∈ l, f w = w ∨ (w.terminal = false ∧ SameRequest w (f w))) :
    (l.map f).map Wake.dedupKey = l.map Wake.dedupKey := by
  rw [List.map_map]
  refine List.map_congr_left ?_
  intro w hw
  rcases hf w hw with hsame | ⟨_, _, hdedup, _⟩
  · exact congrArg Wake.dedupKey hsame
  · exact hdedup

/-- No two rows share an endpoint and an event. -/
structure Distinct (s : Service) : Prop where
  fenced : Fenced s
  dedup : (s.outbox.jobs.map Wake.dedupKey).Nodup

theorem distinct_start (clock : Int) : Distinct (.start clock) :=
  ⟨fenced_start clock, List.nodup_nil⟩

theorem distinct_step {a : Action} (h : Distinct s)
    (hstep : (service maxActiveLeases).step s a = some s') : Distinct s' := by
  refine ⟨fenced_step h.fenced hstep, ?_⟩
  rcases outbox_step h.fenced.keys hstep with
    hsame | ⟨op, _, hlease⟩ | ⟨sources, hsources⟩ | ⟨communityId, now, requests, outcomes, _,
      hok⟩ | ⟨f, hmap, hf⟩
  · rw [hsame]
    exact h.dedup
  · rw [hlease]
    exact h.dedup
  · rw [hsources]
    exact h.dedup
  · exact (enqueueWakes_ok h.fenced.keys h.dedup hok).dedup
  · rw [hmap]
    dsimp only
    rw [map_dedupKeys hf]
    exact h.dedup

theorem distinct_run {clock : Int} {actions : List Action}
    (hrun : (service maxActiveLeases).run (.start clock) actions = some s) : Distinct s :=
  Machine.invariant (fun _ _ _ hs _ hstep =>
    distinct_step hs hstep) (distinct_start clock) Machine.always_true hrun

/-! ## Runs without an endpoint in two places -/

/-- A lease is accepted only for an endpoint that no open job waits for, and a wake is enqueued only
for an endpoint that one lease has. -/
def Separate (s : Service) : Action → Prop
  | .lease op => ∀ w ∈ s.outbox.jobs, w.terminal = false →
      op.endpoint ≠ some (w.communityId, w.endpointHash)
  | .enqueue communityId now requests =>
    ∀ r ∈ requests, ∀ endpointHash, s.outbox.resolve communityId now r = some endpointHash →
      ∀ l ∈ s.outbox.tables.leases, l.address.communityId = communityId →
        (∃ b, l.active = some b ∧ b.endpointHash = endpointHash) → l.address = r.address communityId
  | _ => True

/-- An open job is of the one lease that has its endpoint. -/
def OneLease (o : Outbox) : Prop :=
  ∀ w ∈ o.jobs, w.terminal = false → ∀ l ∈ o.tables.leases, l.address.communityId = w.communityId →
    (∃ b, l.active = some b ∧ b.endpointHash = w.endpointHash) → l.address = w.address ∧
      l.version.generation = w.leaseGeneration

theorem mem_of_leaseAt {t : Tables} {a : Address} {l : Lease} (h : t.leaseAt a = some l) :
    l ∈ t.leases ∧ l.address = a :=
  ⟨List.mem_of_find?_eq_some h, by simpa using List.find?_some h⟩

theorem eq_of_address {t : Tables} {l l' : Lease} (hl : l ∈ t.leases) (hl' : l' ∈ t.leases)
    (h : l.address = l'.address) : l = l' :=
  List.inj_on_of_nodup_map t.leases_pkey hl hl' h

theorem oneLease_op {op : Op} (h : OneLease o)
    (hsep : ∀ w ∈ o.jobs, w.terminal = false → op.endpoint ≠ some (w.communityId, w.endpointHash)) :
    OneLease { o with tables := (op.apply maxActiveLeases o.tables).1 } := by
  intro w hw hterm l hl hcommunity hendpoint
  rcases @apply_cases maxActiveLeases o.tables op with ⟨_, hsame⟩ |
    ⟨_, ⟨new, hstores, hnew⟩ | ⟨a, generation, hmap⟩⟩
  · dsimp only at hl
    rw [hsame] at hl
    exact h w hw hterm l hl hcommunity hendpoint
  · dsimp only at hl
    rw [hstores.leases, mem_put] at hl
    rcases hl with ⟨hold, _⟩ | rfl
    · exact h w hw hterm l hold hcommunity hendpoint
    obtain ⟨b, hb, hhash⟩ := hendpoint
    have hop := hnew b hb
    rw [hcommunity, hhash] at hop
    exact absurd hop (hsep w hw hterm)
  · dsimp only at hl
    rw [hmap] at hl
    obtain ⟨l', hl', rfl⟩ := List.mem_map.mp hl
    rw [disableRow_address] at hcommunity ⊢
    rw [disableRow_active] at hendpoint
    rw [disableRow_version]
    exact h w hw hterm l' hl' hcommunity hendpoint

theorem oneLease_enqueued (h : OneLease o) (hok : Enqueued communityId now o requests outcomes o')
    (hsep : ∀ r ∈ requests, ∀ endpointHash, o.resolve communityId now r = some endpointHash →
      ∀ l ∈ o.tables.leases, l.address.communityId = communityId →
        (∃ b, l.active = some b ∧ b.endpointHash = endpointHash) →
        l.address = r.address communityId) : OneLease o' := by
  obtain ⟨added, hjobs, hadded⟩ := hok.added
  intro w hw hterm l hl hcommunity hendpoint
  rw [hjobs, List.mem_append] at hw
  rw [hok.tables] at hl
  rcases hw with hold | hnew
  · exact h w hold hterm l hl hcommunity hendpoint
  obtain ⟨r, hr, endpointHash, hresolve, rfl⟩ := hadded w hnew
  have haddress := hsep r hr endpointHash hresolve l hl hcommunity hendpoint
  refine ⟨haddress, ?_⟩
  -- the lease at the address of the request is the one that made it eligible
  obtain ⟨l', _, hat, _, hgen, _⟩ := resolve_eq_some.mp hresolve
  obtain ⟨hmem, hat⟩ := mem_of_leaseAt hat
  rw [eq_of_address hl hmem (haddress.trans hat.symm)]
  exact hgen

theorem oneLease_map {f : Wake → Wake} (h : OneLease o)
    (hf : ∀ w ∈ o.jobs, f w = w ∨ (w.terminal = false ∧ SameRequest w (f w))) :
    OneLease { o with jobs := o.jobs.map f } := by
  intro w hw hterm l hl hcommunity hendpoint
  obtain ⟨v, hv, rfl⟩ := List.mem_map.mp hw
  rcases hf v hv with hsame | ⟨hopen, hkey, hdedup, haddress, hgeneration⟩
  · rw [hsame] at hterm hcommunity hendpoint ⊢
    exact h v hv hterm l hl hcommunity hendpoint
  have hhash : (f v).endpointHash = v.endpointHash := congrArg (fun k => k.2.1) hdedup
  have hcommunity' : (f v).communityId = v.communityId := congrArg Prod.fst hkey
  rw [haddress, hgeneration]
  rw [hhash] at hendpoint
  rw [hcommunity'] at hcommunity
  exact h v hv hopen l hl hcommunity hendpoint

/-- **An open job keeps its lease**, as long as no endpoint is in two places. -/
theorem oneLease_step {a : Action} (h : Distinct s) (hone : OneLease s.outbox) (hsep : Separate s a)
    (hstep : (service maxActiveLeases).step s a = some s') : OneLease s'.outbox := by
  rcases outbox_step h.fenced.keys hstep with
    hsame | ⟨op, rfl, hlease⟩ | ⟨sources, hsources⟩ | ⟨communityId, now, requests, outcomes, rfl,
      hok⟩ | ⟨f, hmap, hf⟩
  · rw [hsame]
    exact hone
  · rw [hlease]
    exact oneLease_op hone hsep
  · rw [hsources]
    exact hone
  · exact oneLease_enqueued hone (enqueueWakes_ok h.fenced.keys h.dedup hok) hsep
  · rw [hmap]
    exact oneLease_map hone hf

theorem oneLease_run {clock : Int} {actions : List Action}
    (hsep : (service maxActiveLeases).Always Separate (.start clock) actions)
    (hrun : (service maxActiveLeases).run (.start clock) actions = some s) : OneLease s.outbox := by
  have hinv : Distinct s ∧ OneLease s.outbox := by
    refine Machine.invariant (I := fun u =>
      Distinct u ∧ OneLease u.outbox) ?_ ⟨distinct_start clock, ?_⟩ hsep hrun
    · intro u a u' hu hsep hstep
      exact ⟨distinct_step hu.1 hstep, oneLease_step hu.1 hu.2 hsep hstep⟩
    · intro w hw
      cases hw
  exact hinv.2

/-- Nothing about the events of a batch is late: the deadlines of its requests and of the open jobs
have not passed, and the events are there. -/
def Timely (o : Outbox) (communityId : CommunityId) (now : Int)
    (requests : List WakeRequest) : Prop :=
  ∀ r ∈ requests, (∃ e ∈ o.sources, e.communityId = communityId ∧ e.id = r.eventId) ∧
    r.expiresAt > epochSecs now ∧
    ∀ w ∈ o.jobs, w.terminal = false → w.communityId = communityId → w.eventId = r.eventId →
      w.expiresAt > epochSecs now

/-- A row that a batch finds is there, or it is of an eligible request before. -/
theorem rowFor_cases {before : List WakeRequest} {key : CommunityId × List UInt8 × List UInt8}
    (h : rowFor communityId now o.jobs (o.resolved communityId now before) key = some w) :
    w ∈ o.jobs ∨ ∃ r ∈ before, ∃ endpointHash, o.resolve communityId now r = some endpointHash ∧
      w = newWake communityId now r endpointHash := by
  rcases List.mem_append.mp (List.mem_of_find?_eq_some h) with hold | hnew
  · exact .inl hold
  obtain ⟨e, he, hrow⟩ := List.mem_filterMap.mp hnew
  obtain ⟨r, hr, rfl⟩ := List.mem_map.mp he
  obtain ⟨endpointHash, hresolve, rfl⟩ := Option.map_eq_some_iff.mp hrow
  exact .inr ⟨r, hr, endpointHash, hresolve, rfl⟩

theorem unhidden_of_separate (hone : OneLease o) (hsep : ∀ r ∈ requests, ∀ endpointHash,
      o.resolve communityId now r = some endpointHash →
        ∀ l ∈ o.tables.leases, l.address.communityId = communityId →
        (∃ b, l.active = some b ∧ b.endpointHash = endpointHash) →
          l.address = r.address communityId)
    (htimely : Timely o communityId now requests) : Unhidden o communityId now requests := by
  intro before r after hsplit endpointHash hresolve w hfound
  have hkey := dedupKey_of_rowFor hfound
  have hcommunity : w.communityId = communityId := congrArg Prod.fst hkey
  have hhash : w.endpointHash = endpointHash := congrArg (fun k => k.2.1) hkey
  have hevent : w.eventId = r.eventId := congrArg (fun k => k.2.2) hkey
  have hmem : ∀ q, q ∈ before ∨ q = r → q ∈ requests := by
    intro q hq
    rw [hsplit, List.mem_append, List.mem_cons]
    rcases hq with hq | hq
    · exact .inl hq
    · exact .inr (.inl hq)
  obtain ⟨hsource, _, hopen⟩ := htimely r (hmem r (.inr rfl))
  have hsome : (o.sourceOf w).isSome = true := by
    obtain ⟨e, he, hec, heid⟩ := hsource
    unfold sourceOf
    rw [List.find?_isSome]
    exact ⟨e, he, by simp [hec, heid, hcommunity, hevent]⟩
  -- the one lease that has the endpoint
  obtain ⟨l, b, hat, _, hgen, hb, hbhash⟩ := resolve_eq_some.mp hresolve
  obtain ⟨hl, haddress⟩ := mem_of_leaseAt hat
  have hlc : l.address.communityId = communityId := by rw [haddress]; rfl
  rcases rowFor_cases hfound with hold | ⟨r₀, hr₀, endpointHash₀, hresolve₀, rfl⟩
  · cases hterm : w.terminal with
    | true => exact .inl hterm
    | false =>
      obtain ⟨haddress', hgen'⟩ :=
        hone w hold hterm l hl (hlc.trans hcommunity.symm) ⟨b, hb, hbhash.trans hhash.symm⟩
      refine .inr ⟨haddress'.symm.trans haddress, hgen'.symm.trans hgen, ?_⟩
      unfold timely
      rw [hsome, decide_eq_true (hopen w hold hterm hcommunity hevent)]
      rfl
  · have hhash' : endpointHash₀ = endpointHash := hhash
    subst hhash'
    have hsame := (hsep r₀ (hmem r₀ (.inl hr₀)) endpointHash₀ hresolve₀ l hl hlc ⟨b, hb,
        hbhash⟩).symm.trans haddress
    refine .inr ⟨hsame, generation_of_resolve hresolve₀ hresolve hsame, ?_⟩
    have hdeadline : (newWake communityId now r₀ endpointHash₀).expiresAt > epochSecs now :=
      (htimely r₀ (hmem r₀ (.inl hr₀))).2.1
    unfold timely
    rw [hsome, decide_eq_true hdeadline]
    rfl

/-! ## A rotation between two enqueues -/

/-- A lease of a generation, always with one endpoint. -/
def rotatedLease (n generation : Nat) : Op :=
  let event : Event := ⟨.ofNat 32 n, FixedBytes.ofNat 32 7, 10 + n, 30350, []⟩
  .accept 0 ⟨.ofNat 16 1⟩ event "phone" ⟨event.id.bytes, event.createdAt,
    generation, 1000⟩ (some ⟨"ios", (FixedBytes.ofNat 32 9).bytes, "grant", "default", .arr []⟩)

/-- A request that names the generation. -/
def rotatedRequest (generation job : Nat) : WakeRequest :=
  ⟨(FixedBytes.ofNat 32 7).bytes, "phone", generation, (FixedBytes.ofNat 32 5).bytes, "default",
    900, FixedBytes.ofNat 16 job⟩

def rotatedSources : List SourceEvent :=
  [⟨⟨.ofNat 16 1⟩, (FixedBytes.ofNat 32 5).bytes, none⟩]

/-- A job is enqueued. -/
def firstRun : List Action :=
  [.sources rotatedSources, .lease (rotatedLease 1 1),
    .enqueue ⟨.ofNat 16 1⟩ 0 [rotatedRequest 1 2]]

/-- Then the lease is rotated to the same endpoint. -/
def rotatedRun : List Action := firstRun ++ [.lease (rotatedLease 2 2)]

/-- The one job is open, and it is of no lease. -/
theorem rotatedRun_hides (hs : (service 16).run (.start 0) rotatedRun = some s) :
    ∃ outbox outcomes, s.outbox.enqueueWakes ⟨FixedBytes.ofNat 16 1⟩ 0 [rotatedRequest 2 3] =
      .ok (outbox, outcomes) ∧
      ¬HidesNothing ⟨FixedBytes.ofNat 16 1⟩ 0 [rotatedRequest 2 3] outcomes outbox := by
  have hrun : (((service 16).run (.start 0) rotatedRun).bind fun s =>
      (s.outbox.enqueueWakes ⟨FixedBytes.ofNat 16 1⟩ 0 [rotatedRequest 2 3]).toOption.map fun r =>
        (r.2, r.1.jobs.map fun w => (w.terminal, (r.1.leaseOf w).isSome)))
      = some ([.duplicate (FixedBytes.ofNat 16 2)], [(false, false)]) := by decide
  rw [hs, Option.bind_some] at hrun
  obtain ⟨⟨outbox, outcomes⟩, hok, hr⟩ := Option.map_eq_some_iff.mp hrun
  obtain ⟨houtcomes, hjobs⟩ := Prod.mk.inj hr
  refine ⟨outbox, outcomes, ?_, ?_⟩
  · cases henqueue : s.outbox.enqueueWakes ⟨FixedBytes.ofNat 16 1⟩ 0 [rotatedRequest 2 3] with
    | error e =>
      rw [henqueue] at hok
      cases hok
    | ok r =>
      rw [henqueue] at hok
      exact congrArg Except.ok (Option.some.inj hok)
  · intro hhides
    dsimp only at houtcomes
    rw [houtcomes] at hhides
    obtain ⟨w, hw, _, hfits⟩ :=
      hhides (rotatedRequest 2 3, .duplicate (FixedBytes.ofNat 16 2)) (by simp) _ rfl
    have hrow : (w.terminal, (outbox.leaseOf w).isSome) ∈ [(false, false)] := by
      rw [← hjobs]
      exact List.mem_map.mpr ⟨w, hw, rfl⟩
    obtain ⟨hterm, hnone⟩ := Prod.mk.inj (List.mem_singleton.mp hrow)
    rcases hfits with hdone | ⟨_, hdeliverable⟩
    · rw [hdone] at hterm
      cases hterm
    · unfold deliverable at hdeliverable
      rw [Option.isSome_eq_false_iff, Option.isNone_iff_eq_none] at hnone
      rw [hnone] at hdeliverable
      cases hdeliverable

/-- The rotated lease gets no job: its duplicate is the job of generation 1, which nothing sends. -/
theorem not_duplicate_hides_nothing : ¬∀ actions s, (service 16).run (.start 0) actions = some s →
    ∀ communityId now requests outbox outcomes,
      s.outbox.enqueueWakes communityId now requests = .ok (outbox, outcomes) →
        HidesNothing communityId now requests outcomes outbox := by
  intro h
  have hsome : ((service 16).run (.start 0) rotatedRun).isSome = true := by decide
  obtain ⟨s, hs⟩ := Option.isSome_iff_exists.mp hsome
  obtain ⟨outbox, outcomes, hok, hhides⟩ := rotatedRun_hides hs
  exact hhides (h rotatedRun s hs _ _ _ outbox outcomes hok)

theorem separate_firstRun : (service 16).Always Separate (.start 0) firstRun := by
  refine ⟨trivial, ?_⟩
  intro s hs
  have hjobs : ((service 16).step (.start 0) (.sources rotatedSources)).map
    (fun s => s.outbox.jobs) = some [] := by decide
  rw [hs, Option.map_some, Option.some.injEq] at hjobs
  refine ⟨?_, ?_⟩
  · intro w hw
    rw [hjobs] at hw
    cases hw
  · intro s' hs'
    refine ⟨?_, fun _ _ => trivial⟩
    intro r hr endpointHash _ l hl _ _
    have hleases : ((service 16).run (.start 0) [.sources rotatedSources,
        .lease (rotatedLease 1 1)]).map (fun s => s.outbox.tables.leases.map Lease.address) =
          some [(rotatedRequest 1 2).address ⟨FixedBytes.ofNat 16 1⟩] := by decide
    rw [Machine.run_cons.mpr ⟨s, hs, Machine.run_cons.mpr ⟨s', hs', rfl⟩⟩,
      Option.map_some] at hleases
    rw [List.mem_singleton.mp hr]
    exact List.mem_singleton.mp (Option.some.inj hleases ▸ List.mem_map.mpr ⟨l, hl, rfl⟩)

/-- **When a duplicate hides nothing.** In every state of every run, exactly when the job that an
eligible request finds is done, or timely and of its lease and generation; and in every run in which
no endpoint is in two places, wherever nothing about the events of the batch is late. -/
theorem duplicate_hides_nothing_iff {clock : Int} {actions : List Action}
    (hrun : (service maxActiveLeases).run (.start clock) actions = some s) :
    (∀ communityId now requests outbox outcomes,
      s.outbox.enqueueWakes communityId now requests = .ok (outbox, outcomes) →
      (HidesNothing communityId now requests outcomes outbox ↔
        Unhidden s.outbox communityId now requests)) ∧
    ((service maxActiveLeases).Always Separate (.start clock) actions →
      ∀ communityId now requests outbox outcomes, Separate s (.enqueue communityId now requests) →
        Timely s.outbox communityId now requests →
          s.outbox.enqueueWakes communityId now requests = .ok (outbox, outcomes) →
            HidesNothing communityId now requests outcomes outbox) := by
  have h := distinct_run hrun
  have hiff : ∀ communityId now requests outbox outcomes,
      s.outbox.enqueueWakes communityId now requests = .ok (outbox, outcomes) →
        (HidesNothing communityId now requests outcomes outbox ↔
          Unhidden s.outbox communityId now requests) := by
    intro communityId now requests outbox outcomes hok
    exact hidesNothing_iff_unhidden (enqueueWakes_ok h.fenced.keys h.dedup hok)
  refine ⟨hiff, ?_⟩
  intro halways communityId now requests outbox outcomes hsep htimely hok
  exact (hiff communityId now requests outbox outcomes hok).mpr
    (unhidden_of_separate (oneLease_run halways hrun) hsep htimely)

/-- After the rotation the condition fails; before it the run meets it, and asking again hides
nothing. -/
theorem duplicate_hides_nothing_iff_rotated :
    (∃ s, (service 16).run (.start 0) rotatedRun = some s ∧
      ¬Unhidden s.outbox ⟨FixedBytes.ofNat 16 1⟩ 0 [rotatedRequest 2 3]) ∧
      ∃ s, (service 16).run (.start 0) firstRun = some s ∧ ∀ outbox outcomes,
        s.outbox.enqueueWakes ⟨FixedBytes.ofNat 16 1⟩ 0 [rotatedRequest 1 3] =
          .ok (outbox, outcomes) →
          HidesNothing ⟨FixedBytes.ofNat 16 1⟩ 0 [rotatedRequest 1 3] outcomes outbox := by
  have hrotated : ((service 16).run (.start 0) rotatedRun).isSome = true := by decide
  have hfirst : ((service 16).run (.start 0) firstRun).map (fun s =>
      (s.outbox.tables.leases.map Lease.address, s.outbox.sources,
        s.outbox.jobs.map Wake.expiresAt)) =
        some ([(rotatedRequest 1 3).address ⟨FixedBytes.ofNat 16 1⟩], rotatedSources,
          [900]) := by decide
  obtain ⟨s, hs⟩ := Option.isSome_iff_exists.mp hrotated
  obtain ⟨u, hu, hrows⟩ := Option.map_eq_some_iff.mp hfirst
  obtain ⟨hleases, hrows⟩ := Prod.mk.inj hrows
  obtain ⟨hsources, hdeadlines⟩ := Prod.mk.inj hrows
  refine ⟨⟨s, hs, ?_⟩, ⟨u, hu, ?_⟩⟩
  · obtain ⟨outbox, outcomes, hok, hhides⟩ := rotatedRun_hides hs
    rw [← (duplicate_hides_nothing_iff hs).1 _ _ _ outbox outcomes hok]
    exact hhides
  · intro outbox outcomes hok
    refine (duplicate_hides_nothing_iff hu).2 separate_firstRun _ _ _ outbox outcomes ?_ ?_ hok
    · intro r hr endpointHash _ l hl _ _
      rw [List.mem_singleton.mp hr]
      exact List.mem_singleton.mp (hleases ▸ List.mem_map.mpr ⟨l, hl, rfl⟩)
    · intro r hr
      rw [List.mem_singleton.mp hr, hsources]
      refine ⟨⟨_, List.mem_singleton_self _, rfl, rfl⟩, by decide, ?_⟩
      intro w hw _ _ _
      have hdeadline : w.expiresAt ∈ [900] := hdeadlines ▸ List.mem_map.mpr ⟨w, hw, rfl⟩
      rw [List.mem_singleton.mp hdeadline]
      decide

end Pkzz.Db.Push
