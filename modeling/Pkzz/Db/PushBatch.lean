import Pkzz.Db.PushDuplicate
import Pkzz.Lib.OrderedMap

/-!
# Wakes are enqueued in batches

`enqueue_wakes` statement by statement: the leases of all requests are read at once, all rows are
inserted at once, and the answers are put together from what the insert returned and from one
look-up of the rows it skipped. The rows of a batch do not see each other's answers, and yet the
batch does what as many batches of one do after one another, as long as the table accepts every row.
A row it refuses takes the whole batch down.
-/

namespace Pkzz.Db.Push

open Pkzz.Core Pkzz.Lib
open Pkzz.Db.Thread (DbError)

namespace Outbox

/-! ## `enqueue_wakes` -/

/-- An author and an installation. -/
abbrev Pair := List UInt8 × String

/-- An endpoint and an event: what tells the jobs of a community apart. -/
abbrev JobKey := List UInt8 × List UInt8

def WakeRequest.pair (r : WakeRequest) : Pair := (r.author, r.installationId)

/-- Its installation id is a text that PostgreSQL has: one without U+0000. -/
def WakeRequest.bindable (r : WakeRequest) : Bool :=
  !r.installationId.toList.contains (Char.ofNat 0)

def jobKey (w : Wake) : JobKey := (w.endpointHash, w.eventId)

/-- The first statement. The order in which it locks the rows is left out. -/
def leaseRows (o : Outbox) (communityId : CommunityId) (now : Int) (pairs : List Pair) :
    List Lease :=
  o.tables.leases.filter fun l => l.address.communityId = communityId
    && pairs.contains (l.address.author, l.address.installationId) && l.effective now

/-- `leases`: the generation and the endpoint of each. -/
def leaseMap (rows : List Lease) : OrderedMap Pair (Int × List UInt8) :=
  OrderedMap.collect (rows.filterMap fun l =>
    l.active.map fun a =>
      ((l.address.author, l.address.installationId), (l.version.generation, a.endpointHash)))

/-- `resolved`, of one request: `none` is an inactive lease. -/
def resolveIn (leases : OrderedMap Pair (Int × List UInt8)) (r : WakeRequest) :
    Option (List UInt8) :=
  ((leases.get r.pair).filter fun entry => entry.1 = r.leaseGeneration).map Prod.snd

/-- The rows of the insert. -/
def insertArrays (communityId : CommunityId) (now : Int)
    (requests : List (WakeRequest × Option (List UInt8))) : List Wake :=
  requests.filterMap fun p => p.2.map (newWake communityId now p.1)

/-- The multi-row insert: the table after it, and the rows that it returns. -/
def insertRows : List Wake → List Wake → Except DbError (List Wake × List Wake)
  | jobs, [] => .ok (jobs, [])
  | jobs, w :: rows =>
    match insertWake jobs w with
    | .error e => .error e
    | .ok (jobs', inserted) =>
      (insertRows jobs' rows).map fun r => (r.1, if inserted then w :: r.2 else r.2)

/-- The look-up of the rows that the insert skipped. -/
def duplicateRows (communityId : CommunityId) (jobs rows : List Wake) : List Wake :=
  jobs.filter fun v => v.communityId = communityId && (rows.map jobKey).contains (jobKey v)

/-- `job_ids.entry(key).or_insert(id)`. -/
def orInsert (ids : OrderedMap JobKey Uuid) (w : Wake) : OrderedMap JobKey Uuid :=
  if ids.has (jobKey w) then ids else ids.set (jobKey w) w.id

def jobIds (communityId : CommunityId) (jobs rows inserted : List Wake) : OrderedMap JobKey Uuid :=
  let ids := OrderedMap.collect (inserted.map fun w => (jobKey w, w.id))
  if (inserted.map jobKey).dedup.length < rows.length then
    (duplicateRows communityId jobs rows).foldl orInsert ids
  else ids

/-- The answers. `reported` are the inserted keys that a request has claimed. -/
def outcomes (ids : OrderedMap JobKey Uuid) (insertedKeys : List JobKey) :
    List JobKey → List (WakeRequest × Option (List UInt8)) → Except DbError (List EnqueueOutcome)
  | _, [] => .ok []
  | reported, (_, none) :: rest => (outcomes ids insertedKeys reported rest).map fun os =>
      .inactiveLease :: os
  | reported, (request, some endpointHash) :: rest =>
    let key := (endpointHash, request.eventId)
    match ids.get key with
    | none => .error (.invalidData "wake enqueue resolved neither insert nor duplicate")
    | some id =>
      if key ∈ insertedKeys ∧ key ∉ reported then
        (outcomes ids insertedKeys (key :: reported) rest).map fun os => .enqueued id :: os
      else (outcomes ids insertedKeys reported rest).map fun os => .duplicate id :: os

/-- `enqueue_wakes`. What is stored stays stored where the answers fail. -/
def enqueueBatch (o : Outbox) (communityId : CommunityId) (now : Int)
    (requests : List WakeRequest) : Outbox × Except DbError (List EnqueueOutcome) :=
  if requests = [] then (o, .ok [])
  else if requests.all WakeRequest.bindable = false then
    (o, .error (.sqlx "invalid byte sequence for encoding \"UTF8\": 0x00"))
  else
    let pairs := (requests.map WakeRequest.pair).dedup
    let leases := leaseMap (o.leaseRows communityId now pairs)
    let resolved := requests.map fun r => (r, resolveIn leases r)
    let rows := insertArrays communityId now resolved
    match insertRows o.jobs rows with
    | .error e => (o, .error e)
    | .ok (jobs, inserted) =>
      ({ o with jobs }, outcomes (jobIds communityId jobs rows inserted) (inserted.map jobKey)
        [] resolved)

/-- `enqueue_wake`. -/
def enqueueWake (o : Outbox) (communityId : CommunityId) (now : Int) (request : WakeRequest) :
    Outbox × Except DbError EnqueueOutcome :=
  let (o', answers) := o.enqueueBatch communityId now [request]
  (o', match answers with
    | .ok (outcome :: _) => .ok outcome
    | .ok [] => .error (.invalidData "one outcome per request")
    | .error e => .error e)

/-- One call after the other, each at its own time. -/
def enqueueEach (communityId : CommunityId) :
    Outbox → List (Int × WakeRequest) → Outbox × List (Except DbError EnqueueOutcome)
  | o, [] => (o, [])
  | o, (now, request) :: calls =>
    let (o', outcome) := o.enqueueWake communityId now request
    let (o'', answers) := enqueueEach communityId o' calls
    (o'', outcome :: answers)

end Outbox

open Outbox

variable {o : Outbox} {communityId : CommunityId} {now : Int} {requests : List WakeRequest}

/-! ## The leases -/

theorem map_fst_filterMap_sublist {α β γ : Type} (f : α → β) (g : α → Option γ) : ∀ l : List α,
    List.Sublist ((l.filterMap fun x => (g x).map fun y => (f x, y)).map Prod.fst) (l.map f)
  | [] => List.Sublist.slnil
  | x :: l => by
    have ih := map_fst_filterMap_sublist f g l
    rw [List.filterMap_cons, List.map_cons]
    cases g x with
    | none => exact ih.cons _
    | some y => exact ih.cons_cons _

/-- The entries of `leases`, one for each lease. -/
def leaseEntries (rows : List Lease) : List (Pair × (Int × List UInt8)) :=
  rows.filterMap fun l => l.active.map fun a =>
    ((l.address.author, l.address.installationId), (l.version.generation, a.endpointHash))

theorem leaseEntries_nodup (o : Outbox) (communityId : CommunityId) (now : Int)
    (pairs : List Pair) :
    ((leaseEntries (o.leaseRows communityId now pairs)).map Prod.fst).Nodup := by
  have hmem : ∀ l ∈ o.leaseRows communityId now pairs, l ∈ o.tables.leases ∧
      l.address.communityId = communityId := by
    intro l hl
    obtain ⟨hl, hcond⟩ := List.mem_filter.mp hl
    rw [Bool.and_eq_true, Bool.and_eq_true, decide_eq_true_eq] at hcond
    exact ⟨hl, hcond.1.1⟩
  have hpairs : ((o.leaseRows communityId now pairs).map fun l =>
    (l.address.author, l.address.installationId)).Nodup := by
    refine List.Nodup.map_on ?_ ((List.Nodup.of_map _ o.tables.leases_pkey).filter _)
    intro l hl l' hl' hpair
    obtain ⟨hl, hc⟩ := hmem l hl
    obtain ⟨hl', hc'⟩ := hmem l' hl'
    obtain ⟨hauthor, hinstall⟩ := Prod.mk.inj hpair
    refine eq_of_address hl hl' ?_
    cases ha : l.address
    cases ha' : l'.address
    rw [ha] at hc hauthor hinstall
    rw [ha'] at hc' hauthor hinstall
    simp only at hc hc' hauthor hinstall
    rw [hc, hc', hauthor, hinstall]
  have hshape : leaseEntries (o.leaseRows communityId now pairs) =
      (o.leaseRows communityId now pairs).filterMap fun l =>
      (l.active.map fun a => (l.version.generation, a.endpointHash)).map fun y =>
        ((l.address.author, l.address.installationId), y) := by
    refine List.filterMap_congr fun l _ => ?_
    rw [Option.map_map]
    rfl
  rw [hshape]
  exact hpairs.sublist (map_fst_filterMap_sublist _ _ _)

/-- What the first statement finds of a request is what a look-up of its lease finds. -/
theorem resolveIn_leaseMap {pairs : List Pair} {r : WakeRequest} (hr : r.pair ∈ pairs) :
    resolveIn (leaseMap (o.leaseRows communityId now pairs)) r = o.resolve communityId now r := by
  have hget : ∀ entry, (leaseMap (o.leaseRows communityId now pairs)).get r.pair = some entry ↔
      (r.pair, entry) ∈ leaseEntries (o.leaseRows communityId now pairs) := by
    intro entry
    have hnd := leaseEntries_nodup o communityId now pairs
    show (OrderedMap.collect (leaseEntries (o.leaseRows communityId now pairs))).get r.pair =
      some entry ↔ _
    rw [OrderedMap.get_collect hnd]
    exact ⟨OrderedMap.mem_of_find, OrderedMap.find_of_mem hnd⟩
  refine Option.ext fun endpointHash => ?_
  show _ = some endpointHash ↔ _ = some endpointHash
  rw [resolve_eq_some, resolveIn, Option.map_eq_some_iff]
  constructor
  · rintro ⟨entry, hentry, rfl⟩
    obtain ⟨hentry, hgen⟩ := Option.filter_eq_some_iff.mp hentry
    obtain ⟨l, hl, hactive⟩ := List.mem_filterMap.mp ((hget entry).mp hentry)
    obtain ⟨b, hb, hsame⟩ := Option.map_eq_some_iff.mp hactive
    obtain ⟨hl, hcond⟩ := List.mem_filter.mp hl
    simp only [Bool.and_eq_true, decide_eq_true_eq] at hcond
    obtain ⟨⟨hcommunity, _⟩, heffective⟩ := hcond
    obtain ⟨hpair, rfl⟩ := Prod.mk.inj hsame
    obtain ⟨hauthor, hinstall⟩ := Prod.mk.inj hpair
    refine ⟨l, b, ?_, heffective, of_decide_eq_true hgen, hb, rfl⟩
    have haddress : l.address = r.address communityId := by
      cases ha : l.address
      rw [ha] at hcommunity hauthor hinstall
      simp only at hcommunity hauthor hinstall
      rw [WakeRequest.address, hcommunity, hauthor, hinstall]
    cases hfound : o.tables.leaseAt (r.address communityId) with
    | none =>
      have hnone := List.find?_eq_none.mp hfound l hl
      exact absurd (decide_eq_true haddress) hnone
    | some l' =>
      obtain ⟨hl', haddress'⟩ := mem_of_leaseAt hfound
      rw [eq_of_address hl' hl (haddress'.trans haddress.symm)]
  · rintro ⟨l, b, hat, heffective, hgen, hb, rfl⟩
    obtain ⟨hl, haddress⟩ := mem_of_leaseAt hat
    have hauthor : l.address.author = r.author := by rw [haddress]; rfl
    have hinstall : l.address.installationId = r.installationId := by rw [haddress]; rfl
    have hcommunity : l.address.communityId = communityId := by rw [haddress]; rfl
    have hentry : (r.pair, (l.version.generation, b.endpointHash)) ∈
        leaseEntries (o.leaseRows communityId now pairs) := by
      refine List.mem_filterMap.mpr ⟨l, List.mem_filter.mpr ⟨hl, ?_⟩, ?_⟩
      · simp only [Bool.and_eq_true, decide_eq_true_eq, List.contains_iff_mem]
        rw [hauthor, hinstall]
        exact ⟨⟨hcommunity, hr⟩, heffective⟩
      · rw [hb, hauthor, hinstall]
        rfl
    exact ⟨_, Option.filter_eq_some_iff.mpr ⟨(hget _).mpr hentry, decide_eq_true hgen⟩, rfl⟩

/-! ## The insert -/

theorem insertArrays_none (communityId : CommunityId) (now : Int) (r : WakeRequest)
    (es : List (WakeRequest × Option (List UInt8))) :
    insertArrays communityId now ((r, none) :: es) = insertArrays communityId now es := rfl

theorem insertArrays_some (communityId : CommunityId) (now : Int) (r : WakeRequest)
    (endpointHash : List UInt8)
    (es : List (WakeRequest × Option (List UInt8))) :
    insertArrays communityId now ((r, some endpointHash) :: es) =
      newWake communityId now r endpointHash :: insertArrays communityId now es := rfl

theorem mem_insertArrays {es : List (WakeRequest × Option (List UInt8))} {r : WakeRequest}
    {endpointHash : List UInt8}
    (h : (r, some endpointHash) ∈ es) :
    newWake communityId now r endpointHash ∈ insertArrays communityId now es :=
  List.mem_filterMap.mpr ⟨_, h, rfl⟩

theorem community_of_mem_insertArrays {es : List (WakeRequest × Option (List UInt8))} {w : Wake}
    (h : w ∈ insertArrays communityId now es) : w.communityId = communityId := by
  obtain ⟨p, _, hp⟩ := List.mem_filterMap.mp h
  obtain ⟨endpointHash, _, rfl⟩ := Option.map_eq_some_iff.mp hp
  rfl

/-- What a multi-row insert leaves: the rows it returns are new, and every row has its like in the
table. -/
structure Inserted (jobs rows jobs' inserted : List Wake) : Prop where
  table : jobs' = jobs ++ inserted
  sublist : List.Sublist inserted rows
  fresh : ∀ w ∈ inserted, ∀ v ∈ jobs, v.dedupKey ≠ w.dedupKey
  distinct : (inserted.map Wake.dedupKey).Nodup
  present : ∀ w ∈ rows, ∃ v ∈ jobs', v.dedupKey = w.dedupKey

theorem insertRows_ok : ∀ {rows jobs jobs' inserted : List Wake}, insertRows jobs rows =
    .ok (jobs', inserted) → Inserted jobs rows jobs' inserted
  | [], jobs, jobs', inserted, h => by
    cases h
    exact ⟨(List.append_nil _).symm, List.Sublist.slnil, by simp, List.nodup_nil, by simp⟩
  | w :: rows, jobs, jobs', inserted, h => by
    rw [insertRows] at h
    cases hinsert : insertWake jobs w with
    | error e => rw [hinsert] at h; cases h
    | ok step =>
    obtain ⟨jobs₁, made⟩ := step
    rw [hinsert] at h
    dsimp only at h
    cases hrest : insertRows jobs₁ rows with
    | error e => rw [hrest] at h; cases h
    | ok r =>
    rw [hrest] at h
    cases h
    have ih := insertRows_ok hrest
    rcases insertWake_ok hinsert with ⟨rfl, rfl, v, hv, hkey⟩ | ⟨rfl, rfl, hnew, _⟩
    · refine ⟨ih.table, ih.sublist.cons _, ih.fresh, ih.distinct, ?_⟩
      intro u hu
      rcases List.mem_cons.mp hu with rfl | hu
      · exact ⟨v, by rw [ih.table]; exact List.mem_append_left _ hv, hkey⟩
      · exact ih.present u hu
    · refine ⟨by rw [ih.table, List.append_assoc]; rfl, ih.sublist.cons_cons _, ?_, ?_, ?_⟩
      · intro u hu v hv
        rcases List.mem_cons.mp hu with rfl | hu
        · exact hnew v hv
        · exact ih.fresh u hu v (List.mem_append_left _ hv)
      · rw [if_pos rfl, List.map_cons, List.nodup_cons]
        refine ⟨fun hmem => ?_, ih.distinct⟩
        obtain ⟨u, hu, hkey⟩ := List.mem_map.mp hmem
        exact ih.fresh u hu w (by simp) hkey.symm
      · intro u hu
        rcases List.mem_cons.mp hu with rfl | hu
        · exact ⟨u, by rw [ih.table]; simp, rfl⟩
        · exact ih.present u hu

/-! ## The answers -/

/-- The row of a key. -/
def rowOf (communityId : CommunityId) (jobs : List Wake) (key : JobKey) : Option Wake :=
  jobs.find? fun v => v.dedupKey == (communityId, key.1, key.2)

theorem rowOf_append (communityId : CommunityId) (jobs more : List Wake) (key : JobKey) :
    rowOf communityId (jobs ++ more) key =
      (rowOf communityId jobs key).or (rowOf communityId more key) :=
  List.find?_append

theorem rowOf_eq_none {jobs : List Wake} {key : JobKey} :
    rowOf communityId jobs key = none ↔ ∀ v ∈ jobs, v.dedupKey ≠ (communityId, key.1, key.2) := by
  rw [rowOf, List.find?_eq_none]
  simp only [beq_iff_eq]

/-- A batch fails where its insert fails, as the fold does. -/
theorem insertWakes_error {e : DbError} :
    ∀ {es : List (WakeRequest × Option (List UInt8))} {jobs : List Wake},
    insertRows jobs (insertArrays communityId now es) = .error e →
      insertWakes communityId now jobs es = .error e
  | [], jobs, h => by cases h
  | (r, none) :: es, jobs, h => by
    rw [insertArrays_none] at h
    rw [insertWakes, insertWakes_error h]
    rfl
  | (r, some endpointHash) :: es, jobs, h => by
    rw [insertArrays_some, insertRows] at h
    rw [insertWakes]
    cases hinsert : insertWake jobs (newWake communityId now r endpointHash) with
    | error e' => rw [hinsert] at h; exact congrArg Except.error (Except.error.inj h)
    | ok step =>
    obtain ⟨jobs₁, made⟩ := step
    rw [hinsert] at h
    dsimp only at h
    have hrest : insertRows jobs₁ (insertArrays communityId now es) = .error e := by
      cases hrows : insertRows jobs₁ (insertArrays communityId now es) with
      | error e' => rw [hrows] at h; exact congrArg Except.error (Except.error.inj h)
      | ok r => rw [hrows] at h; cases h
    have ih := insertWakes_error hrest
    rcases insertWake_ok hinsert with ⟨rfl, rfl, v, hv, hkey⟩ | ⟨rfl, rfl, _, _⟩
    · dsimp only
      cases hfind : jobs₁.find? fun u =>
        u.dedupKey == (newWake communityId now r endpointHash).dedupKey with
      | none => exact absurd (beq_iff_eq.mpr hkey) (List.find?_eq_none.mp hfind v hv)
      | some u =>
        dsimp only
        rw [ih]
        rfl
    · dsimp only
      rw [ih]
      rfl

/--
The answers are put together one by one: the look-ups find the row of each key in the table as the
batch leaves it, and a key is unclaimed as long as the rows so far do not have it.
-/
theorem insertWakes_outcomes {ids : OrderedMap JobKey Uuid} {insertedKeys : List JobKey} :
    ∀ {es : List (WakeRequest × Option (List UInt8))} {jobs jobs' inserted : List Wake} {reported :
      List JobKey}, insertRows jobs (insertArrays communityId now es) = .ok (jobs', inserted) →
      (∀ r endpointHash, (r, some endpointHash) ∈ es →
        ids.get (endpointHash, r.eventId) =
          (rowOf communityId jobs' (endpointHash, r.eventId)).map Wake.id) →
      (∀ r endpointHash, (r, some endpointHash) ∈ es →
        ((endpointHash, r.eventId) ∈ insertedKeys ∧ (endpointHash, r.eventId) ∉ reported ↔
          rowOf communityId jobs (endpointHash, r.eventId) = none)) →
      insertWakes communityId now jobs es = (outcomes ids insertedKeys reported es).map fun os =>
        (jobs', os)
  | [], jobs, jobs', inserted, reported, h, _, _ => by
    cases h
    rfl
  | (r, none) :: es, jobs, jobs', inserted, reported, h, hids, hkeys => by
    rw [insertArrays_none] at h
    rw [insertWakes, outcomes,
      insertWakes_outcomes h (fun r e he => hids r e (List.mem_cons_of_mem _ he))
      (fun r e he => hkeys r e (List.mem_cons_of_mem _ he))]
    cases outcomes ids insertedKeys reported es <;> rfl
  | (r, some endpointHash) :: es, jobs, jobs', inserted, reported, h, hids, hkeys => by
    rw [insertArrays_some, insertRows] at h
    cases hinsert : insertWake jobs (newWake communityId now r endpointHash) with
    | error e => rw [hinsert] at h; cases h
    | ok step =>
    obtain ⟨jobs₁, made⟩ := step
    rw [hinsert] at h
    dsimp only at h
    cases hrest : insertRows jobs₁ (insertArrays communityId now es) with
    | error e => rw [hrest] at h; cases h
    | ok rest =>
    rw [hrest] at h
    obtain ⟨hjobs, _⟩ := Prod.mk.inj (Except.ok.inj h)
    obtain ⟨jobs'', inserted'⟩ := rest
    obtain rfl : jobs'' = jobs' := hjobs
    -- the rest of the statement only adds rows, so the first row of the key decides
    have hleft := (insertRows_ok hrest).table
    have hid := hids r endpointHash List.mem_cons_self
    have hkey := hkeys r endpointHash List.mem_cons_self
    have hids' : ∀ r endpointHash, (r, some endpointHash) ∈ es → ids.get (endpointHash, r.eventId) =
        (rowOf communityId jobs'' (endpointHash, r.eventId)).map Wake.id :=
      fun r e he => hids r e (List.mem_cons_of_mem _ he)
    rw [insertWakes, outcomes, hinsert]
    rcases insertWake_ok hinsert with ⟨rfl, rfl, v, hv, hvkey⟩ | ⟨rfl, rfl, hnew, _⟩
    · -- the row of the key is there already
      dsimp only
      cases hfind : rowOf communityId jobs₁ (endpointHash, r.eventId) with
      | none => exact absurd hvkey (rowOf_eq_none.mp hfind v hv)
      | some u =>
        have hfind' : (jobs₁.find? fun u =>
          u.dedupKey == (newWake communityId now r endpointHash).dedupKey) = some u := hfind
        rw [hleft, rowOf_append, hfind, Option.some_or, Option.map_some] at hid
        rw [hfind', hid]
        dsimp only
        rw [if_neg (fun hin => by rw [hkey.mp hin] at hfind; cases hfind)]
        rw [insertWakes_outcomes hrest hids' (fun r e he => hkeys r e (List.mem_cons_of_mem _ he))]
        cases outcomes ids insertedKeys reported es <;> rfl
    · -- the row is new
      dsimp only
      have hnone : rowOf communityId jobs (endpointHash, r.eventId) = none := rowOf_eq_none.mpr hnew
      have hself : rowOf communityId [newWake communityId now r endpointHash]
          (endpointHash, r.eventId) = some (newWake communityId now r endpointHash) := by
        rw [rowOf, List.find?_cons_of_pos]
        exact beq_self_eq_true _
      rw [hleft, rowOf_append, rowOf_append, hnone, hself, Option.none_or, Option.some_or,
        Option.map_some] at hid
      rw [hid]
      dsimp only
      rw [if_pos (hkey.mpr hnone)]
      -- from here on the key counts as reported
      have hnext : ∀ r' e', (r', some e') ∈ es →
          ((e', r'.eventId) ∈ insertedKeys ∧
            (e', r'.eventId) ∉ (endpointHash, r.eventId) :: reported ↔
            rowOf communityId (jobs ++ [newWake communityId now r endpointHash]) (e', r'.eventId) =
              none) := by
        intro r' e' he'
        have hkey' := hkeys r' e' (List.mem_cons_of_mem _ he')
        rw [rowOf_append, Option.or_eq_none_iff, ← hkey', List.mem_cons, not_or]
        have hother : rowOf communityId [newWake communityId now r endpointHash] (e', r'.eventId) =
            none ↔ (e', r'.eventId) ≠ (endpointHash, r.eventId) := by
          rw [rowOf_eq_none]
          constructor
          · intro hall heq
            obtain ⟨rfl, hevent⟩ := Prod.mk.inj heq
            exact hall _ (List.mem_singleton.mpr rfl) (by rw [hevent]; rfl)
          · intro hne v hv hdedup
            rw [List.mem_singleton.mp hv] at hdedup
            obtain ⟨_, hrest⟩ := Prod.mk.inj hdedup
            exact hne hrest.symm
        rw [hother]
        constructor
        · rintro ⟨hmem, hne, hnot⟩
          exact ⟨⟨hmem, hnot⟩, hne⟩
        · rintro ⟨⟨hmem, hnot⟩, hne⟩
          exact ⟨hmem, hne, hnot⟩
      rw [insertWakes_outcomes hrest hids' hnext]
      cases outcomes ids insertedKeys ((endpointHash, r.eventId) :: reported) es <;> rfl

/-! ## The look-ups -/

theorem rowOf_eq_find (key : JobKey) :
    ∀ {jobs : List Wake}, (∀ w ∈ jobs, w.communityId = communityId) →
    rowOf communityId jobs key = jobs.find? fun w => jobKey w == key
  | [], _ => rfl
  | w :: jobs, h => by
    obtain ⟨hw, hjobs⟩ := List.forall_mem_cons.mp h
    have hkey : (w.dedupKey == (communityId, key.1, key.2)) = (jobKey w == key) := by
      rw [Bool.eq_iff_iff, beq_iff_eq, beq_iff_eq, Wake.dedupKey, jobKey, hw]
      simp only [Prod.ext_iff, true_and]
    have ih := rowOf_eq_find key hjobs
    unfold rowOf at ih ⊢
    rw [List.find?_cons, List.find?_cons, hkey, ih]

theorem get_foldl_orInsert (key : JobKey) : ∀ (rows : List Wake) (ids : OrderedMap JobKey Uuid),
    (rows.foldl orInsert ids).get key = (ids.get key).or
    ((rows.find? fun w => jobKey w == key).map Wake.id)
  | [], ids => by rw [List.foldl_nil, List.find?_nil, Option.map_none, Option.or_none]
  | w :: rows, ids => by
    rw [List.foldl_cons, get_foldl_orInsert key rows, orInsert, List.find?_cons]
    by_cases hkey : jobKey w = key
    · rw [beq_iff_eq.mpr hkey, OrderedMap.has, hkey]
      cases hid : ids.get key with
      | none => rw [if_neg (by simp), OrderedMap.get_set, if_pos rfl]; rfl
      | some id => rw [if_pos (by simp), hid]; rfl
    · rw [beq_eq_false_iff_ne.mpr hkey]
      split
      · rfl
      · rw [OrderedMap.get_set, if_neg (Ne.symm hkey)]

theorem find_map_jobKey (key : JobKey) : ∀ rows : List Wake,
    OrderedMap.find key (rows.map fun w => (jobKey w, w.id)) =
      (rows.find? fun w => jobKey w == key).map Wake.id
  | [] => rfl
  | w :: rows => by
    rw [List.map_cons, OrderedMap.find, List.find?_cons, find_map_jobKey key rows]
    by_cases hkey : jobKey w = key
    · rw [if_pos hkey, beq_iff_eq.mpr hkey]
      rfl
    · rw [if_neg hkey, beq_eq_false_iff_ne.mpr hkey]

section Lookup

variable {jobs rows jobs' inserted : List Wake} {w : Wake}

theorem Inserted.jobKeys_nodup (h : Inserted jobs rows jobs' inserted)
    (hrows : ∀ w ∈ rows, w.communityId = communityId) : (inserted.map jobKey).Nodup := by
  refine List.Nodup.map_on ?_ (List.Nodup.of_map _ h.distinct)
  intro u hu v hv hkey
  have hcommunity : u.communityId = v.communityId := by
    rw [hrows u (h.sublist.subset hu), hrows v (h.sublist.subset hv)]
  refine List.inj_on_of_nodup_map h.distinct hu hv ?_
  obtain ⟨hendpoint, hevent⟩ := Prod.mk.inj hkey
  rw [Wake.dedupKey, Wake.dedupKey, hcommunity, hendpoint, hevent]

/-- **The two statements find the row of every request**: the insert returned it, or the look-up
does. -/
theorem Inserted.get_jobIds (h : Inserted jobs rows jobs' inserted)
    (hrows : ∀ w ∈ rows, w.communityId = communityId)
    (hw : w ∈ rows) : (jobIds communityId jobs' rows inserted).get (jobKey w) =
    (rowOf communityId jobs' (jobKey w)).map Wake.id := by
  have hinserted : ∀ u ∈ inserted, u.communityId = communityId := fun u hu =>
    hrows u (h.sublist.subset hu)
  have hids : (OrderedMap.collect (inserted.map fun u => (jobKey u, u.id))).get (jobKey w) =
      (rowOf communityId inserted (jobKey w)).map Wake.id := by
    rw [OrderedMap.get_collect, find_map_jobKey, rowOf_eq_find _ hinserted]
    rw [List.map_map]
    exact h.jobKeys_nodup hrows
  have hall : rowOf communityId jobs' (jobKey w) =
      (rowOf communityId jobs (jobKey w)).or (rowOf communityId inserted (jobKey w)) := by
    rw [h.table, rowOf_append]
  -- the look-up finds what the table has of the key
  have hlookup : (duplicateRows communityId jobs' rows).find? (fun u => jobKey u == jobKey w) =
      rowOf communityId jobs' (jobKey w) := by
    rw [duplicateRows, List.find?_filter, rowOf]
    congr 1
    funext u
    rw [Bool.eq_iff_iff]
    simp only [Bool.and_eq_true, decide_eq_true_eq, List.contains_iff_mem, beq_iff_eq,
      Wake.dedupKey, Prod.mk.injEq]
    constructor
    · rintro ⟨⟨hcommunity, _⟩, hkey⟩
      obtain ⟨hendpoint, hevent⟩ := Prod.mk.inj hkey
      exact ⟨hcommunity, hendpoint, hevent⟩
    · rintro ⟨hcommunity, hendpoint, hevent⟩
      have hkey : jobKey u = jobKey w := Prod.ext hendpoint hevent
      exact ⟨⟨hcommunity, hkey ▸ List.mem_map_of_mem hw⟩, hkey⟩
  have hown : w.dedupKey = (communityId, (jobKey w).1, (jobKey w).2) := by
    rw [Wake.dedupKey, hrows w hw]
    rfl
  unfold jobIds
  dsimp only
  cases hold : rowOf communityId jobs (jobKey w) with
  | some v =>
    -- the row was there before, so it was not inserted
    have hnone : rowOf communityId inserted (jobKey w) = none := by
      rw [rowOf_eq_none]
      intro u hu heq
      obtain ⟨hv, hvkey⟩ := List.find?_eq_some_iff_append.mp hold |>.1 |> fun hkey =>
        And.intro (List.mem_of_find?_eq_some hold) hkey
      exact h.fresh u hu v hv ((beq_iff_eq.mp hvkey).trans heq.symm)
    have hfewer : (inserted.map jobKey).dedup.length < rows.length := by
      have hle := (List.dedup_sublist (inserted.map jobKey)).length_le
      rw [List.length_map] at hle
      have hlen := h.sublist.length_le
      rcases Nat.lt_or_eq_of_le hlen with hlt | heq
      · omega
      have hmem : w ∈ inserted := by
        rw [h.sublist.eq_of_length heq]
        exact hw
      exact absurd hown (rowOf_eq_none.mp hnone w hmem)
    rw [if_pos hfewer, get_foldl_orInsert, hids, hnone, hlookup, Option.map_none, Option.none_or]
  | none =>
    obtain ⟨v, hv, hvkey⟩ := h.present w hw
    have hsome : (rowOf communityId inserted (jobKey w)).isSome = true := by
      rw [Option.isSome_iff_ne_none]
      intro hnone
      have hnot : rowOf communityId jobs' (jobKey w) = none := by
        rw [hall, hold, hnone]
        rfl
      exact rowOf_eq_none.mp hnot v hv (hvkey.trans hown)
    obtain ⟨u, hu⟩ := Option.isSome_iff_exists.mp hsome
    rw [hall, hold, Option.none_or, hu]
    split
    · rw [get_foldl_orInsert, hids, hu]
      rfl
    · rw [hids, hu]

/-- A key is among the inserted ones just if the table did not have it. -/
theorem Inserted.mem_keys (h : Inserted jobs rows jobs' inserted)
    (hrows : ∀ w ∈ rows, w.communityId = communityId)
    (hw : w ∈ rows) : jobKey w ∈ inserted.map jobKey ↔
    rowOf communityId jobs (jobKey w) = none := by
  have hown : w.dedupKey = (communityId, (jobKey w).1, (jobKey w).2) := by
    rw [Wake.dedupKey, hrows w hw]
    rfl
  constructor
  · intro hmem
    obtain ⟨u, hu, hkey⟩ := List.mem_map.mp hmem
    rw [rowOf_eq_none]
    intro v hv heq
    refine h.fresh u hu v hv (heq.trans ?_)
    rw [Wake.dedupKey, hrows u (h.sublist.subset hu), ← hkey]
    rfl
  · intro hnone
    obtain ⟨v, hv, hvkey⟩ := h.present w hw
    rw [h.table] at hv
    rcases List.mem_append.mp hv with hv | hv
    · exact absurd (hvkey.trans hown) (rowOf_eq_none.mp hnone v hv)
    · refine List.mem_map.mpr ⟨v, hv, ?_⟩
      obtain ⟨_, hrest⟩ := Prod.mk.inj hvkey
      exact hrest

end Lookup

/-- Every request is answered where its key is found. -/
theorem outcomes_ok {ids : OrderedMap JobKey Uuid} {insertedKeys : List JobKey} :
    ∀ {es : List (WakeRequest × Option (List UInt8))} {reported : List JobKey},
      (∀ r endpointHash, (r, some endpointHash) ∈ es → ∃ id,
        ids.get (endpointHash, r.eventId) = some id) →
      ∃ os, outcomes ids insertedKeys reported es = .ok os
  | [], _, _ => ⟨[], rfl⟩
  | (r, none) :: es, reported, h => by
    obtain ⟨os, hos⟩ := @outcomes_ok ids insertedKeys es reported fun r e he =>
      h r e (List.mem_cons_of_mem _ he)
    exact ⟨_, by rw [outcomes, hos]; rfl⟩
  | (r, some endpointHash) :: es, reported, h => by
    obtain ⟨id, hid⟩ := h r endpointHash List.mem_cons_self
    have hrest := fun reported => @outcomes_ok ids insertedKeys es reported fun r e he =>
      h r e (List.mem_cons_of_mem _ he)
    rw [outcomes, hid]
    dsimp only
    split
    · obtain ⟨os, hos⟩ := hrest ((endpointHash, r.eventId) :: reported)
      exact ⟨_, by rw [hos]; rfl⟩
    · obtain ⟨os, hos⟩ := hrest reported
      exact ⟨_, by rw [hos]; rfl⟩

/-- **A batch is a fold**: its three statements and its answers are what one row after the other
comes to. -/
theorem enqueueBatch_eq (o : Outbox) (communityId : CommunityId) (now : Int)
    {requests : List WakeRequest} (hbindable : ∀ r ∈ requests, r.bindable = true) :
    o.enqueueBatch communityId now requests =
      match o.enqueueWakes communityId now requests with
      | .ok (o', answers) => (o', .ok answers)
      | .error e => (o, .error e) := by
  unfold enqueueBatch
  by_cases hempty : requests = []
  · rw [if_pos hempty, hempty]
    rfl
  have hall : ¬ requests.all WakeRequest.bindable =
      false := by rw [List.all_eq_true.mpr hbindable]; decide
  rw [if_neg hempty, if_neg hall]
  dsimp only
  have hresolved : (requests.map fun r =>
    (r, resolveIn (leaseMap (o.leaseRows communityId now (requests.map WakeRequest.pair).dedup))
    r)) =
      requests.map fun r => (r, o.resolve communityId now r) := by
    refine List.map_congr_left fun r hr => ?_
    rw [resolveIn_leaseMap (List.mem_dedup.mpr (List.mem_map_of_mem hr))]
  rw [hresolved, enqueueWakes]
  generalize requests.map (fun r => (r, o.resolve communityId now r)) = es
  cases hinsert : insertRows o.jobs (insertArrays communityId now es) with
  | error e => rw [insertWakes_error hinsert]
  | ok r =>
    obtain ⟨jobs, inserted⟩ := r
    have hspec := insertRows_ok hinsert
    have hrows : ∀ w ∈ insertArrays communityId now es, w.communityId = communityId :=
      fun w hw => community_of_mem_insertArrays hw
    have hids : ∀ r endpointHash, (r, some endpointHash) ∈ es →
        (jobIds communityId jobs (insertArrays communityId now es) inserted).get (endpointHash,
          r.eventId) = (rowOf communityId jobs (endpointHash, r.eventId)).map Wake.id :=
      fun r e he => hspec.get_jobIds hrows (mem_insertArrays he)
    have hkeys : ∀ r endpointHash, (r, some endpointHash) ∈ es →
        ((endpointHash, r.eventId) ∈ inserted.map jobKey ∧
          (endpointHash, r.eventId) ∉ ([] : List JobKey) ↔
          rowOf communityId o.jobs (endpointHash, r.eventId) = none) := by
      intro r e he
      have hmem : (e, r.eventId) ∈ inserted.map jobKey ↔
          rowOf communityId o.jobs (e, r.eventId) = none :=
        hspec.mem_keys hrows (mem_insertArrays he)
      rw [← hmem]
      simp
    have hfound : ∀ r endpointHash, (r, some endpointHash) ∈ es →
        ∃ id, (jobIds communityId jobs (insertArrays communityId now es) inserted).get
          (endpointHash, r.eventId) = some id := by
      intro r e he
      rw [hids r e he]
      cases hrow : rowOf communityId jobs (e, r.eventId) with
      | some w => exact ⟨w.id, rfl⟩
      | none =>
        obtain ⟨v, hv, hkey⟩ := hspec.present _ (mem_insertArrays he)
        exact absurd hkey (rowOf_eq_none.mp hrow v hv)
    obtain ⟨os, hos⟩ := @outcomes_ok _ (inserted.map jobKey) es [] hfound
    rw [insertWakes_outcomes hinsert hids hkeys]
    dsimp only
    rw [hos]
    rfl

/-! ## One after the other -/

/-- The jobs differ in their id and in the times of their rows at most. -/
def SameJob (w w' : Wake) : Prop :=
  w' = { w with id := w'.id, nextAttemptAt := w'.nextAttemptAt, createdAt := w'.createdAt }

/-- The answers are of one kind and name the jobs at one place. -/
inductive SameOutcome (jobs jobs' : List Wake) : EnqueueOutcome →
    Except DbError EnqueueOutcome → Prop
  | inactiveLease : SameOutcome jobs jobs' .inactiveLease (.ok .inactiveLease)
  | enqueued (i : Nat) (w w' : Wake) (h : jobs[i]? = some w) (h' : jobs'[i]? = some w') :
      SameOutcome jobs jobs' (.enqueued w.id) (.ok (.enqueued w'.id))
  | duplicate (i : Nat) (w w' : Wake) (h : jobs[i]? = some w) (h' : jobs'[i]? = some w') :
      SameOutcome jobs jobs' (.duplicate w.id) (.ok (.duplicate w'.id))

/-- The call repeats the request under another id, at a time when its lease is as it was. -/
def Repeats (o : Outbox) (communityId : CommunityId) (now : Int) (r : WakeRequest)
    (call : Int × WakeRequest) : Prop :=
  call.2 = { r with newId := call.2.newId } ∧
    o.resolve communityId call.1 r = o.resolve communityId now r

/-- No job of the community has any of the ids. -/
def FreshIds (jobs : List Wake) (communityId : CommunityId) (ids : List Uuid) : Prop :=
  ids.Nodup ∧ ∀ w ∈ jobs, w.communityId = communityId → w.id ∉ ids

/-- The requests can be put into the statements, and the table accepts the row of each whose lease
is current. -/
def Acceptable (o : Outbox) (communityId : CommunityId) (now : Int)
    (requests : List WakeRequest) : Prop :=
  ∀ r ∈ requests, r.bindable = true ∧
    ∀ endpointHash, o.resolve communityId now r = some endpointHash →
      (newWake communityId now r endpointHash).checks = true

theorem SameJob.dedupKey {w w' : Wake} (h : SameJob w w') : w'.dedupKey = w.dedupKey := by
  unfold SameJob at h
  rw [h]
  rfl

/-- Equal tables have the row of a key at one place. -/
theorem rowOf_same (key : JobKey) {jobs jobs' : List Wake} (h : List.Forall₂ SameJob jobs jobs') :
    (rowOf communityId jobs key = none ∧ rowOf communityId jobs' key = none) ∨
      ∃ (i : Nat) (w w' : Wake), rowOf communityId jobs key = some w ∧
        rowOf communityId jobs' key = some w' ∧ jobs[i]? = some w ∧ jobs'[i]? = some w' := by
  induction h with
  | nil => exact .inl ⟨rfl, rfl⟩
  | @cons w w' jobs jobs' hw _ ih =>
    unfold rowOf at ih ⊢
    rw [List.find?_cons, List.find?_cons, hw.dedupKey]
    cases w.dedupKey == (communityId, key.1, key.2) with
    | true => exact .inr ⟨0, w, w', rfl, rfl, rfl, rfl⟩
    | false =>
      rcases ih with hnone | ⟨i, v, v', hv, hv', hi, hi'⟩
      · exact .inl hnone
      · exact .inr ⟨i + 1, v, v', hv, hv', hi, hi'⟩

theorem insertWake_acceptable {jobs : List Wake} {w : Wake} (hchecks : w.checks = true)
    (hfresh : ∀ v ∈ jobs, v.key ≠ w.key) :
    insertWake jobs w = match rowOf w.communityId jobs (jobKey w) with
      | some _ => .ok (jobs, false)
      | none => .ok (jobs ++ [w], true) := by
  have hkey : ¬ (jobs.any fun v => v.key == w.key) = true := by
    rw [List.any_eq_true]
    rintro ⟨v, hv, heq⟩
    exact hfresh v hv (beq_iff_eq.mp heq)
  rw [insertWake, if_neg (by simp [hchecks])]
  cases hrow : rowOf w.communityId jobs (jobKey w) with
  | some v =>
    rw [if_pos]
    have hfound : (jobs.find? fun u => u.dedupKey == w.dedupKey) = some v := hrow
    have hsame := List.find?_some hfound
    exact List.any_eq_true.mpr ⟨v, List.mem_of_find?_eq_some hfound, hsame⟩
  | none =>
    rw [if_neg, if_neg hkey]
    rw [List.any_eq_true]
    rintro ⟨v, hv, heq⟩
    exact rowOf_eq_none.mp hrow v hv (beq_iff_eq.mp heq)

/-- A batch of one. -/
theorem enqueueWake_eq (o : Outbox) (communityId : CommunityId) (now : Int) (r : WakeRequest)
    (hbindable : r.bindable = true)
    (hchecks : ∀ endpointHash, o.resolve communityId now r = some endpointHash →
      (newWake communityId now r endpointHash).checks = true)
    (hfresh : ∀ w ∈ o.jobs, w.key ≠ (communityId, r.newId)) : o.enqueueWake communityId now r =
      match o.resolve communityId now r with
      | none => (o, .ok .inactiveLease)
      | some endpointHash =>
        match rowOf communityId o.jobs (endpointHash, r.eventId) with
        | some w => (o, .ok (.duplicate w.id))
        | none => ({ o with jobs := o.jobs ++ [newWake communityId now r endpointHash] },
            .ok (.enqueued r.newId)) := by
  rw [enqueueWake, enqueueBatch_eq _ _ _ (List.forall_mem_singleton.mpr hbindable), enqueueWakes]
  cases hresolve : o.resolve communityId now r with
  | none =>
    rw [List.map_singleton, hresolve]
    rfl
  | some endpointHash =>
    have hinsert : insertWake o.jobs (newWake communityId now r endpointHash) =
        match rowOf communityId o.jobs (endpointHash, r.eventId) with
        | some _ => .ok (o.jobs, false)
        | none => .ok (o.jobs ++ [newWake communityId now r endpointHash], true) :=
      insertWake_acceptable (hchecks endpointHash hresolve) hfresh
    rw [List.map_singleton, hresolve, insertWakes, hinsert]
    dsimp only
    cases hrow : rowOf communityId o.jobs (endpointHash, r.eventId) with
    | none => rfl
    | some w =>
      have hfind : (o.jobs.find? fun v =>
        v.dedupKey == (newWake communityId now r endpointHash).dedupKey) = some w := hrow
      dsimp only
      rw [hfind]
      rfl

/-- What a call adds to one table and to its like. -/
structure Alike (jobs jobs' : List Wake) (answers : List EnqueueOutcome) (more more' : List Wake)
    (answers' : List (Except DbError EnqueueOutcome)) : Prop where
  added : ∃ new new', more = jobs ++ new ∧ more' = jobs' ++ new' ∧ List.Forall₂ SameJob new new'
  answers : List.Forall₂ (SameOutcome more more') answers answers'

section Alike

variable {jobs jobs' more more' : List Wake} {answers : List EnqueueOutcome}
    {answers' : List (Except DbError EnqueueOutcome)}
  {id : Uuid} {ids : List Uuid} {w w' : Wake}

theorem Alike.inactive (h : Alike jobs jobs' answers more more' answers') :
    Alike jobs jobs' (.inactiveLease :: answers) more more' (.ok .inactiveLease :: answers') :=
  ⟨h.added, .cons .inactiveLease h.answers⟩

/-- A row that is made stands at the end of either table. -/
theorem Alike.made (hsame : List.Forall₂ SameJob jobs jobs') (hw : SameJob w w')
    (h : Alike (jobs ++ [w]) (jobs' ++ [w']) answers more more' answers') :
    Alike jobs jobs' (.enqueued w.id :: answers) more more'
      (.ok (.enqueued w'.id) :: answers') := by
  obtain ⟨new, new', hmore, hmore', hnew⟩ := h.added
  rw [List.append_assoc] at hmore hmore'
  refine ⟨⟨w :: new, w' :: new', hmore, hmore', .cons hw hnew⟩,
    .cons (.enqueued jobs.length w w' ?_ ?_) h.answers⟩
  · rw [hmore]
    simp
  · rw [hmore', hsame.length_eq]
    simp

theorem Alike.found {i : Nat} (hi : jobs[i]? = some w) (hi' : jobs'[i]? = some w')
    (h : Alike jobs jobs' answers more more' answers') :
    Alike jobs jobs' (.duplicate w.id :: answers) more more'
      (.ok (.duplicate w'.id) :: answers') := by
  obtain ⟨new, new', hmore, hmore', _⟩ := h.added
  refine ⟨h.added, .cons (.duplicate i w w' ?_ ?_) h.answers⟩
  · rw [hmore, List.getElem?_append_left (List.getElem?_eq_some_iff.mp hi).1, hi]
  · rw [hmore', List.getElem?_append_left (List.getElem?_eq_some_iff.mp hi').1, hi']

theorem FreshIds.key (h : FreshIds jobs communityId (id :: ids)) :
    ∀ w ∈ jobs, w.key ≠ (communityId, id) := by
  intro w hw heq
  obtain ⟨hcommunity, hid⟩ := Prod.mk.inj heq
  exact h.2 w hw hcommunity (by rw [hid]; exact List.mem_cons_self)

theorem FreshIds.tail (h : FreshIds jobs communityId (id :: ids)) : FreshIds jobs communityId ids :=
  ⟨(List.nodup_cons.mp h.1).2, fun w hw hcommunity hmem =>
    h.2 w hw hcommunity (List.mem_cons_of_mem _ hmem)⟩

theorem FreshIds.made (h : FreshIds jobs communityId (w.id :: ids)) :
    FreshIds (jobs ++ [w]) communityId ids := by
  refine ⟨h.tail.1, ?_⟩
  intro v hv hcommunity
  rcases List.mem_append.mp hv with hv | hv
  · exact h.tail.2 v hv hcommunity
  · rw [List.mem_singleton.mp hv]
    exact (List.nodup_cons.mp h.1).1

end Alike

/-- **Requests answered in one batch are answered as they are one after the other.** -/
theorem insertWakes_alike {o : Outbox} :
    ∀ {requests : List WakeRequest} {calls : List (Int × WakeRequest)} {jobs jobs' : List Wake},
    List.Forall₂ (Repeats o communityId now) requests calls → List.Forall₂ SameJob jobs jobs' →
    Acceptable o communityId now requests →
      FreshIds jobs communityId (requests.map WakeRequest.newId) →
    FreshIds jobs' communityId (calls.map fun call => call.2.newId) →
    ∃ more answers more' answers',
      insertWakes communityId now jobs (requests.map fun r => (r, o.resolve communityId now r)) =
        .ok (more, answers)
      ∧ enqueueEach communityId { o with jobs := jobs' } calls =
        ({ o with jobs := more' }, answers')
      ∧ Alike jobs jobs' answers more more' answers'
  | [], _, jobs, jobs', hcalls, _, _, _, _ => by
    cases hcalls
    exact ⟨jobs, [], jobs', [], rfl, rfl,
      ⟨[], [], (List.append_nil _).symm, (List.append_nil _).symm, .nil⟩, .nil⟩
  | r :: requests, _, jobs, jobs', hcalls, hsame, haccept, hfresh, hfresh' => by
    cases hcalls with
    | @cons _ call _ calls hcall hcalls =>
    obtain ⟨hrequest, hresolve⟩ := hcall
    obtain ⟨time, r'⟩ := call
    simp only at hrequest hresolve
    have haccept' : Acceptable o communityId now requests := fun r hr =>
      haccept r (List.mem_cons_of_mem _ hr)
    obtain ⟨hbindable, hchecks⟩ := haccept r List.mem_cons_self
    have hresolve' : ({ o with jobs := jobs' } : Outbox).resolve communityId time r' =
        o.resolve communityId now r := by
      rw [← hresolve, hrequest]
      rfl
    have hevent : r'.eventId = r.eventId := by rw [hrequest]
    have hone := enqueueWake_eq { o with jobs := jobs' } communityId time r'
        (by rw [hrequest]; exact hbindable) (by
      intro endpointHash hsome
      rw [hresolve'] at hsome
      rw [hrequest]
      exact hchecks endpointHash hsome) hfresh'.key
    -- the single call asks the same lease table, so it gets the same answer
    rw [hresolve', hevent] at hone
    rw [List.map_cons, enqueueEach]
    cases hr : o.resolve communityId now r with
    | none =>
      rw [hr] at hone
      obtain ⟨more, answers, more', answers', hbatch, heach, halike⟩ :=
        insertWakes_alike hcalls hsame haccept' hfresh.tail hfresh'.tail
      refine ⟨more, .inactiveLease :: answers, more', .ok .inactiveLease :: answers', ?_, ?_,
        halike.inactive⟩
      · rw [insertWakes, hbatch]
        rfl
      · rw [hone]
        dsimp only
        rw [heach]
    | some endpointHash =>
      rw [hr] at hone
      dsimp only at hone
      have hinsert : insertWake jobs (newWake communityId now r endpointHash) =
          match rowOf communityId jobs (endpointHash, r.eventId) with
          | some _ => .ok (jobs, false)
          | none => .ok (jobs ++ [newWake communityId now r endpointHash], true) :=
        insertWake_acceptable (hchecks endpointHash hr) hfresh.key
      rw [insertWakes, hinsert]
      rcases @rowOf_same communityId (endpointHash, r.eventId) _ _ hsame with ⟨hnone, hnone'⟩ |
        ⟨i, w, w', hw, hw', hi, hi'⟩
      · rw [hnone'] at hone
        rw [hnone]
        dsimp only at hone ⊢
        -- neither table has the row: both insert it, under their own ids
        have hmade : SameJob (newWake communityId now r endpointHash)
            (newWake communityId time r' endpointHash) := by
          rw [hrequest]
          rfl
        have hgrown : FreshIds (jobs ++ [newWake communityId now r endpointHash]) communityId
            (requests.map WakeRequest.newId) :=
          FreshIds.made hfresh
        have hgrown' : FreshIds (jobs' ++ [newWake communityId time r' endpointHash]) communityId
            (calls.map fun call => call.2.newId) :=
          FreshIds.made hfresh'
        obtain ⟨more, answers, more', answers', hbatch, heach, halike⟩ :=
          insertWakes_alike hcalls
            (List.rel_append hsame (.cons hmade .nil)) haccept' hgrown hgrown'
        refine ⟨more, .enqueued r.newId :: answers, more', .ok (.enqueued r'.newId) :: answers', ?_,
          ?_, halike.made hsame hmade⟩
        · rw [hbatch]
          rfl
        · rw [hone]
          dsimp only
          rw [heach]
      · -- both tables have the row of the key, at one place
        have hfind : (jobs.find? fun v =>
          v.dedupKey == (newWake communityId now r endpointHash).dedupKey) = some w := hw
        rw [hw'] at hone
        rw [hw]
        dsimp only at hone ⊢
        rw [hfind]
        obtain ⟨more, answers, more', answers', hbatch, heach, halike⟩ :=
          insertWakes_alike hcalls hsame haccept' hfresh.tail hfresh'.tail
        refine ⟨more, .duplicate w.id :: answers, more', .ok (.duplicate w'.id) :: answers', ?_, ?_,
          halike.found hi hi'⟩
        · dsimp only
          rw [hbatch]
          rfl
        · rw [hone]
          dsimp only
          rw [heach]

/-! ## A row that the table refuses -/

theorem insertRows_refused {w : Wake} (hw : w.checks = false) :
    ∀ {rows jobs : List Wake}, w ∈ rows → ∃ e, insertRows jobs rows = .error e
  | [], _, h => by cases h
  | v :: rows, jobs, h => by
    rw [insertRows]
    cases hinsert : insertWake jobs v with
    | error e => exact ⟨e, rfl⟩
    | ok step =>
      rcases List.mem_cons.mp h with rfl | h
      · rw [insertWake, if_pos (by simp [hw])] at hinsert
        cases hinsert
      obtain ⟨e, he⟩ := @insertRows_refused w hw rows step.1 h
      refine ⟨e, ?_⟩
      dsimp only
      rw [he]
      rfl

/-- One refused row takes the batch down, and so does a text that cannot be bound. -/
theorem enqueueBatch_refused (h : ¬ Acceptable o communityId now requests) :
    ∃ e, o.enqueueBatch communityId now requests = (o, .error e) := by
  by_cases hbindable : ∀ r ∈ requests, r.bindable = true
  · obtain ⟨r, hr, endpointHash, hresolve, hchecks⟩ : ∃ r ∈ requests, ∃ endpointHash,
        o.resolve communityId now r = some endpointHash ∧
          (newWake communityId now r endpointHash).checks = false := by
      by_contra hnone
      refine h fun r hr => ⟨hbindable r hr, fun endpointHash hresolve => ?_⟩
      by_contra hchecks
      exact hnone ⟨r, hr, endpointHash, hresolve, Bool.eq_false_iff.mpr hchecks⟩
    have hmem : (r, some endpointHash) ∈ requests.map fun r => (r, o.resolve communityId now r) :=
      List.mem_map.mpr ⟨r, hr, by rw [hresolve]⟩
    obtain ⟨e, he⟩ := @insertRows_refused _ hchecks _ o.jobs (mem_insertArrays hmem)
    refine ⟨e, ?_⟩
    rw [enqueueBatch_eq _ _ _ hbindable, enqueueWakes, insertWakes_error he]
  · have hne : requests ≠ [] := by
      rintro rfl
      exact hbindable fun r hr => absurd hr List.not_mem_nil
    have hall : requests.all WakeRequest.bindable = false := Bool.eq_false_iff.mpr fun h =>
      hbindable (List.all_eq_true.mp h)
    rw [enqueueBatch, if_neg hne, if_pos hall]
    exact ⟨_, rfl⟩

/--
**A batch is as good as its requests one after the other**, up to the ids and the times of new rows,
if their texts can be bound and the table accepts the row of each that is eligible; and it stores
nothing otherwise.
-/
theorem enqueue_batch (o : Outbox) (communityId : CommunityId) (now : Int)
    (requests : List WakeRequest)
    (calls : List (Int × WakeRequest))
    (hcalls : List.Forall₂ (Repeats o communityId now) requests calls)
    (hids : FreshIds o.jobs communityId (requests.map WakeRequest.newId))
    (hids' : FreshIds o.jobs communityId (calls.map fun call => call.2.newId)) :
    (Acceptable o communityId now requests → ∃ more answers more' answers',
      o.enqueueBatch communityId now requests = ({ o with jobs := more }, .ok answers)
      ∧ enqueueEach communityId o calls = ({ o with jobs := more' }, answers')
      ∧ Alike o.jobs o.jobs answers more more' answers')
    ∧ (¬ Acceptable o communityId now requests → ∃ e,
      o.enqueueBatch communityId now requests = (o, .error e)) := by
  refine ⟨fun haccept => ?_, enqueueBatch_refused⟩
  have hsame : List.Forall₂ SameJob o.jobs o.jobs := List.forall₂_same.mpr fun w _ => rfl
  obtain ⟨more, answers, more', answers', hbatch, heach, halike⟩ :=
    insertWakes_alike hcalls hsame haccept hids hids'
  refine ⟨more, answers, more', answers', ?_, heach, halike⟩
  rw [enqueueBatch_eq _ _ _ fun r hr => (haccept r hr).1, enqueueWakes, hbatch]

/-! ## Two batches -/

def batchCommunity : CommunityId := ⟨.ofNat 16 1⟩

/-- One lease of generation 1, and no jobs. -/
def batchOutbox : Outbox where
  tables :=
    { leases := [{
        address := ⟨batchCommunity, List.replicate 32 1, "phone"⟩
        version := {
          sourceEventId := List.replicate 32 2, sourceCreatedAt := 0, generation := 1,
          expiresAt := 1000 }
        active := some {
          appProfile := "ios", endpointHash := List.replicate 32 3
          endpointGrant := "grant", maxClass := "urgent", subscriptions := .null }
        endpointEnabled := true }]
      events := []
      leases_pkey := List.nodup_singleton _ }
  jobs := []
  sources := []

/-- A request for the lease. -/
def batchRequest (generation : Int) (event : UInt8) (cls : String) (id : Nat) : WakeRequest where
  author := List.replicate 32 1
  installationId := "phone"
  leaseGeneration := generation
  eventId := List.replicate 32 event
  cls
  expiresAt := 100
  newId := FixedBytes.ofNat 16 id

/-- A request, its repetition and one for a stale generation. -/
theorem enqueue_batch_sample : ∃ more answers more' answers',
    batchOutbox.enqueueBatch batchCommunity 0
        [batchRequest 1 7 "default" 11, batchRequest 1 7 "urgent" 12,
          batchRequest 2 7 "default" 13] =
      ({ batchOutbox with jobs := more }, .ok answers)
    ∧ enqueueEach batchCommunity batchOutbox
        [(0, batchRequest 1 7 "default" 21), (5, batchRequest 1 7 "urgent" 22),
          (9, batchRequest 2 7 "default" 23)] =
      ({ batchOutbox with jobs := more' }, answers')
    ∧ Alike batchOutbox.jobs batchOutbox.jobs answers more more' answers' := by
  refine (enqueue_batch batchOutbox batchCommunity 0
    [batchRequest 1 7 "default" 11, batchRequest 1 7 "urgent" 12, batchRequest 2 7 "default" 13]
    [(0, batchRequest 1 7 "default" 21), (5, batchRequest 1 7 "urgent" 22),
      (9, batchRequest 2 7 "default" 23)]
    ?_ ?_ ?_).1 ?_
  · exact .cons ⟨rfl, by decide⟩ (.cons ⟨rfl, by decide⟩ (.cons ⟨rfl, by decide⟩ .nil))
  · exact ⟨by decide, fun w hw => by cases hw⟩
  · exact ⟨by decide, fun w hw => by cases hw⟩
  · intro r hr
    simp only [List.mem_cons, List.not_mem_nil, or_false] at hr
    rcases hr with rfl | rfl | rfl <;> exact ⟨by decide, fun _ _ => rfl⟩

/-- Of two requests the second has a class that the table does not know: alone, the first is stored.
-/
theorem not_enqueue_batch :
    ¬ ∀ (o : Outbox) (communityId : CommunityId) (now : Int) (requests : List WakeRequest)
    (calls : List (Int × WakeRequest)), List.Forall₂ (Repeats o communityId now) requests calls →
    FreshIds o.jobs communityId (requests.map WakeRequest.newId) →
    FreshIds o.jobs communityId (calls.map fun call => call.2.newId) →
    ∃ new new', (o.enqueueBatch communityId now requests).1.jobs = o.jobs ++ new
      ∧ (enqueueEach communityId o calls).1.jobs = o.jobs ++ new' ∧
        List.Forall₂ SameJob new new' := by
  intro h
  obtain ⟨new, new', hbatch, heach, hsame⟩ := h batchOutbox batchCommunity 0
    [batchRequest 1 7 "default" 11, batchRequest 1 8 "loud" 12]
    [(0, batchRequest 1 7 "default" 11), (0, batchRequest 1 8 "loud" 12)]
    (.cons ⟨rfl, rfl⟩ (.cons ⟨rfl, rfl⟩ .nil)) ⟨by decide, fun w hw => by cases hw⟩
      ⟨by decide, fun w hw => by cases hw⟩
  have hrefused : ¬ Acceptable batchOutbox batchCommunity 0 [batchRequest 1 7 "default" 11,
      batchRequest 1 8 "loud" 12] := by
    intro haccept
    have hloud := (haccept (batchRequest 1 8 "loud" 12) (by simp)).2
        (List.replicate 32 3) (by decide)
    exact absurd hloud (by decide)
  obtain ⟨e, he⟩ := enqueueBatch_refused hrefused
  have hfirst : (enqueueEach batchCommunity batchOutbox
      [(0, batchRequest 1 7 "default" 11), (0, batchRequest 1 8 "loud" 12)]).1.jobs.length =
        1 := by decide
  rw [he] at hbatch
  have hnew : new = [] := List.append_cancel_left (hbatch.symm.trans (List.append_nil _).symm)
  rw [hnew] at hsame
  cases hsame
  rw [heach] at hfirst
  exact absurd hfirst (by decide)

end Pkzz.Db.Push
