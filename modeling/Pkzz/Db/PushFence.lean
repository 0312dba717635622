import Pkzz.Db.PushOutbox
import Pkzz.Db.PushLease
import Pkzz.Lib.Machine

/-!
# Wakes are sent under a fence

Any number of workers claim jobs of the outbox, ask again right before they send, and end their
claims, while leases rotate, endpoints are disabled, events are deleted and time passes. The clock
of the database only moves forward, and a claim id is never given twice.

`handed` records the claims that were given out, the newest first, and `ended` those that a worker
ended; both exist for the proof only.
-/

namespace Pkzz.Db.Push

open Pkzz.Core Pkzz.Lib
open Outbox

/-! ## The machine -/

/-- A claim of one job as the worker got it. -/
structure Handed where
  job : CommunityId × Uuid
  claimId : Uuid
  leaseUntil : Int
  deriving DecidableEq

structure Service where
  outbox : Outbox
  clock : Int
  handed : List Handed
  ended : List ((CommunityId × Uuid) × Uuid)

inductive Action where
  | tick (clock : Int)
  | lease (op : Op)
  | sources (sources : List SourceEvent)
  | enqueue (communityId : CommunityId) (now : Int) (requests : List WakeRequest)
  | claim (communityId : CommunityId) (limit now leaseUntil : Int) (claimId : Uuid)
      (locked : List Uuid)
  | revalidate (communityId : CommunityId) (id claimId : Uuid) (now : Int)
  | ending (ending : Ending) (communityId : CommunityId) (id claimId : Uuid)

def Service.start (clock : Int) : Service := ⟨.empty, clock, [], []⟩

/-- The claims of one `claim_due_wakes`. -/
def handedOut (o : Outbox) (communityId : CommunityId) (limit now leaseUntil : Int) (claimId : Uuid)
    (locked : List Uuid) : List Handed :=
  if limit < 0 then []
  else (o.jobs.filter (o.taken communityId limit now locked)).map fun w =>
    ⟨w.key, claimId, leaseUntil⟩

variable (maxActiveLeases : Int)

def service : Machine Service Action where
  step s
    | .tick clock => if s.clock ≤ clock then some { s with clock } else none
    | .lease op => some { s with
        outbox := { s.outbox with tables := (op.apply maxActiveLeases s.outbox.tables).1 } }
    | .sources sources => some { s with outbox := { s.outbox with sources } }
    | .enqueue communityId now requests =>
      match s.outbox.enqueueWakes communityId now requests with
      | .ok (outbox, _) => some { s with outbox }
      | .error _ => some s
    | .claim communityId limit now leaseUntil claimId locked =>
      -- the transaction began before it does its work, and the claim id is new
      if now ≤ s.clock ∧ ∀ h ∈ s.handed, h.claimId ≠ claimId then
        some { s with
          outbox := (s.outbox.claimDueWakes communityId limit now leaseUntil claimId locked).1
          handed := handedOut s.outbox communityId limit now leaseUntil claimId locked ++ s.handed }
      else none
    | .revalidate _ _ _ now => if now ≤ s.clock then some s else none
    | .ending ending communityId id claimId =>
      let r := s.outbox.endClaim ending communityId id claimId
      some { s with
        outbox := r.1
        ended := if r.2 then ((communityId, id), claimId) :: s.ended else s.ended }

/-! ## The fence -/

/-- The job is held under the claim. -/
def HeldUnder (o : Outbox) (h : Handed) : Prop :=
  ∃ w ∈ o.jobs, w.key = h.job ∧ w.state = .sending ∧ w.claimId = some h.claimId ∧
    w.leaseUntil = some h.leaseUntil

structure Fenced (s : Service) : Prop where
  keys : (s.outbox.jobs.map Wake.key).Nodup
  /-- A claim in a row is the last one that was given for its job. -/
  current : ∀ w ∈ s.outbox.jobs, ∀ k, w.claimId = some k → w.state = .sending ∧
    ∃ h, s.handed.find? (fun h => h.job = w.key) = some h ∧ h.claimId = k
  /-- A claim that is not ended and not expired is in its row. -/
  held : ∀ h ∈ s.handed, h.leaseUntil < s.clock ∨ (h.job, h.claimId) ∈ s.ended ∨
    HeldUnder s.outbox h
  distinct : (s.handed.map fun h => (h.job, h.claimId)).Nodup

theorem fenced_start (clock : Int) : Fenced (.start clock) := by
  refine ⟨List.nodup_nil, ?_, ?_, List.nodup_nil⟩
  · intro w hw
    cases hw
  · intro h hh
    cases hh

variable {maxActiveLeases} {s s' : Service} {o : Outbox} {w v : Wake} {communityId : CommunityId}
    {id claimId : Uuid}
  {limit now leaseUntil : Int} {locked : List Uuid}

theorem eq_of_key (h : (o.jobs.map Wake.key).Nodup) (hw : w ∈ o.jobs) (hv : v ∈ o.jobs)
    (hkey : w.key = v.key) : w = v :=
  List.inj_on_of_nodup_map h hw hv hkey

/-! ### Claiming -/

/-- A claim takes what is due. -/
theorem due_of_taken (hkeys : (o.jobs.map Wake.key).Nodup) (hw : w ∈ o.jobs)
    (h : o.taken communityId limit now locked w = true) : o.due communityId now w = true := by
  rw [taken, Bool.and_eq_true, decide_eq_true_eq, List.contains_iff_mem, candidates] at h
  obtain ⟨v, hv, hid⟩ := List.mem_map.mp h.2
  have hmem := (Keyset.ordered_perm _).mem_iff.mp (List.mem_of_mem_take hv)
  rw [List.mem_filter, Bool.and_eq_true] at hmem
  have hcommunity : v.communityId = communityId := by
    have hdue := hmem.2.1
    simp only [due, Bool.and_eq_true, decide_eq_true_eq] at hdue
    exact hdue.1.1.1
  have hkey : v.key = w.key := Prod.ext (hcommunity.trans h.1.symm) hid
  rw [← eq_of_key hkeys hmem.1 hw hkey]
  exact hmem.2.1

/-- A job that is due is in nobody's hands, or its claim has expired. -/
theorem free_of_due (h : o.due communityId now w = true) :
    w.state = .pending ∨ (w.state = .sending ∧ ∃ u, w.leaseUntil = some u ∧ u < now) := by
  simp only [due, Bool.and_eq_true, Bool.or_eq_true, beq_iff_eq] at h
  rcases h.2 with hpending | ⟨hsending, hexpired⟩
  · exact .inl hpending
  · obtain ⟨u, hu, hlt⟩ := (Option.any_eq_true _ _).mp hexpired
    exact .inr ⟨hsending, u, hu, by simpa using hlt⟩

theorem claimDueWakes_jobs (hlimit : ¬limit < 0) :
    (o.claimDueWakes communityId limit now leaseUntil claimId locked).1.jobs =
      o.jobs.map fun w =>
        if o.taken communityId limit now locked w then w.claimed leaseUntil claimId else w := by
  rw [claimDueWakes, if_neg hlimit]

theorem claim_negative (hlimit : limit < 0) :
    (o.claimDueWakes communityId limit now leaseUntil claimId locked).1 = o := by
  rw [claimDueWakes, if_pos hlimit]

/-- The key of a row outlives a claim and its end. -/
theorem map_keys {f : Wake → Wake} (hf : ∀ w, (f w).key = w.key) (l : List Wake) :
    (l.map f).map Wake.key = l.map Wake.key := by
  rw [List.map_map]
  exact List.map_congr_left fun w _ => hf w

theorem find?_handedOut (hlimit : ¬limit < 0) (hw : w ∈ o.jobs)
    (htaken : o.taken communityId limit now locked w = true) :
    ∃ h, (handedOut o communityId limit now leaseUntil claimId locked).find?
      (fun h => h.job = w.key) = some h ∧ h.claimId = claimId := by
  rw [handedOut, if_neg hlimit]
  have hsome : (((o.jobs.filter (o.taken communityId limit now locked)).map
      fun w => (⟨w.key, claimId, leaseUntil⟩ : Handed)).find? fun h =>
        h.job = w.key).isSome = true := by
    rw [List.find?_isSome]
    exact ⟨⟨w.key, claimId, leaseUntil⟩, List.mem_map.mpr ⟨w, List.mem_filter.mpr ⟨hw, htaken⟩,
      rfl⟩, by simp⟩
  obtain ⟨h, hh⟩ := Option.isSome_iff_exists.mp hsome
  obtain ⟨v, _, rfl⟩ := List.mem_map.mp (List.mem_of_find?_eq_some hh)
  exact ⟨_, hh, rfl⟩

theorem find?_handedOut_none (hkeys : (o.jobs.map Wake.key).Nodup) (hw : w ∈ o.jobs)
    (htaken : o.taken communityId limit now locked w = false) :
    (handedOut o communityId limit now leaseUntil claimId locked).find?
    (fun h => h.job = w.key) = none := by
  rw [List.find?_eq_none]
  intro h hh hjob
  rw [handedOut] at hh
  split at hh
  · cases hh
  obtain ⟨v, hv, rfl⟩ := List.mem_map.mp hh
  obtain ⟨hmem, hvtaken⟩ := List.mem_filter.mp hv
  have hkey : v.key = w.key := by simpa using hjob
  rw [eq_of_key hkeys hmem hw hkey, htaken] at hvtaken
  cases hvtaken

theorem fenced_claim (h : Fenced s) (hnow : now ≤ s.clock)
    (hfresh : ∀ h ∈ s.handed, h.claimId ≠ claimId) : Fenced { s with
      outbox := (s.outbox.claimDueWakes communityId limit now leaseUntil claimId locked).1
      handed := handedOut s.outbox communityId limit now leaseUntil claimId locked ++
        s.handed } := by
  by_cases hlimit : limit < 0
  · rw [claim_negative hlimit, handedOut, if_pos hlimit]
    exact h
  have hjobs := @claimDueWakes_jobs s.outbox communityId claimId limit now leaseUntil locked hlimit
  refine ⟨?_, ?_, ?_, ?_⟩
  · dsimp only
    rw [hjobs, map_keys]
    · exact h.keys
    · intro w
      split <;> rfl
  · intro w' hw' k hk
    rw [hjobs] at hw'
    obtain ⟨w, hw, rfl⟩ := List.mem_map.mp hw'
    dsimp only
    rw [List.find?_append]
    -- a job that is taken now is the newest claim's, the others keep theirs
    by_cases htaken : s.outbox.taken communityId limit now locked w = true
    · rw [if_pos htaken] at hk ⊢
      obtain ⟨entry, hentry, hclaim⟩ :=
        @find?_handedOut s.outbox w communityId claimId limit now leaseUntil locked hlimit hw htaken
      refine ⟨rfl, entry, ?_, hclaim.trans (Option.some.inj hk)⟩
      show (_ : Option Handed).or _ = _
      have hkey : (w.claimed leaseUntil claimId).key = w.key := rfl
      rw [hkey, hentry]
      rfl
    · have htaken := Bool.eq_false_iff.mpr htaken
      rw [htaken] at hk ⊢
      rw [if_neg Bool.false_ne_true] at hk ⊢
      rw [find?_handedOut_none h.keys hw htaken, Option.none_or]
      exact h.current w hw k hk
  · intro entry hentry
    rcases List.mem_append.mp hentry with hnew | hold
    · refine .inr (.inr ?_)
      rw [handedOut, if_neg hlimit] at hnew
      obtain ⟨w, hw, rfl⟩ := List.mem_map.mp hnew
      obtain ⟨hmem, htaken⟩ := List.mem_filter.mp hw
      refine ⟨w.claimed leaseUntil claimId, ?_, rfl, rfl, rfl, rfl⟩
      dsimp only
      rw [hjobs]
      exact List.mem_map.mpr ⟨w, hmem, by rw [if_pos htaken]⟩
    · rcases h.held entry hold with hexpired | hended | ⟨w, hw, hkey, hstate, hclaim, huntil⟩
      · exact .inl hexpired
      · exact .inr (.inl hended)
      · by_cases htaken : s.outbox.taken communityId limit now locked w = true
        · -- the job was free for the new claim: the old one had expired
          rcases free_of_due (due_of_taken h.keys hw htaken) with hpending | ⟨_, u, hu, hlt⟩
          · rw [hstate] at hpending
            cases hpending
          · rw [huntil] at hu
            have hu := Option.some.inj hu
            exact .inl (by show entry.leaseUntil < s.clock; omega)
        · refine .inr (.inr ⟨w, ?_, hkey, hstate, hclaim, huntil⟩)
          dsimp only
          rw [hjobs]
          exact List.mem_map.mpr ⟨w, hw, by rw [if_neg htaken]⟩
  · dsimp only
    rw [List.map_append]
    -- the claim id is new, and the jobs of one claim are apart by their keys
    refine List.nodup_append.mpr ⟨?_, h.distinct, ?_⟩
    · rw [handedOut, if_neg hlimit, List.map_map]
      have hsub : (s.outbox.jobs.filter (s.outbox.taken communityId limit now locked)).map
          Wake.key |>.Nodup :=
        List.Sublist.nodup (List.Sublist.map Wake.key List.filter_sublist) h.keys
      refine List.Nodup.of_map Prod.fst ?_
      rw [List.map_map]
      exact hsub
    · intro a ha b hb heq
      obtain ⟨x, hx, rfl⟩ := List.mem_map.mp ha
      obtain ⟨y, hy, rfl⟩ := List.mem_map.mp hb
      rw [handedOut, if_neg hlimit] at hx
      obtain ⟨w, _, rfl⟩ := List.mem_map.mp hx
      exact hfresh y hy (Prod.ext_iff.mp heq).2.symm

/-! ### Ending a claim -/

theorem applyTo_key (ending : Ending) (w : Wake) : (ending.applyTo w).key = w.key := by
  cases ending <;> rfl

theorem applyTo_claimId (ending : Ending) (w : Wake) : (ending.applyTo w).claimId = none := by
  cases ending <;> rfl

theorem heldBy_iff : w.heldBy communityId id claimId = true ↔
    w.key = (communityId, id) ∧ w.claimId = some claimId ∧ w.state = .sending := by
  rw [Wake.heldBy, Wake.key, Prod.mk.injEq]
  simp only [Bool.and_eq_true, decide_eq_true_eq, beq_iff_eq, and_assoc]

/-- A row is hit exactly when the job is held. -/
theorem endClaim_hit (hkeys : (o.jobs.map Wake.key).Nodup) (ending : Ending) :
    (o.endClaim ending communityId id claimId).2 = true ↔
    ∃ w ∈ o.jobs, w.heldBy communityId id claimId = true := by
  show ((o.jobs.countP (Wake.heldBy communityId id claimId)) == 1) = true ↔ _
  rw [beq_iff_eq]
  have hle : o.jobs.countP (Wake.heldBy communityId id claimId) ≤ 1 := by
    have hcount := List.nodup_iff_count_le_one.mp hkeys (communityId, id)
    rw [List.count, List.countP_map] at hcount
    refine le_trans (List.countP_mono_left ?_) hcount
    intro w _ hheld
    rw [Function.comp_apply, beq_iff_eq]
    exact (heldBy_iff.mp hheld).1
  constructor
  · intro hone
    exact List.countP_pos_iff.mp (by omega)
  · intro hsome
    have hpos := List.countP_pos_iff.mpr hsome
    omega

/-- Ending a claim that is not held changes nothing. -/
theorem endClaim_none (ending : Ending)
    (h : ∀ w ∈ o.jobs, w.heldBy communityId id claimId = false) :
    o.endClaim ending communityId id claimId = (o, false) := by
  have hcount : o.jobs.countP (Wake.heldBy communityId id claimId) = 0 := by
    rw [List.countP_eq_zero]
    intro w hw
    rw [h w hw]
    exact Bool.false_ne_true
  have hjobs : (o.jobs.map fun w => if w.heldBy communityId id claimId then
      ending.applyTo w else w) = o.jobs := by
    have hrow : ∀ w ∈ o.jobs, (if w.heldBy communityId id claimId then
        ending.applyTo w else w) = w := by
      intro w hw
      rw [h w hw]
      rfl
    rw [List.map_congr_left hrow]
    exact List.map_id' o.jobs
  rw [endClaim, hcount, hjobs]
  rfl

theorem fenced_ending (h : Fenced s) (ending : Ending) :
    Fenced { s with
      outbox := (s.outbox.endClaim ending communityId id claimId).1
      ended := if (s.outbox.endClaim ending communityId id claimId).2 then
        ((communityId, id), claimId) :: s.ended else s.ended } := by
  refine ⟨?_, ?_, ?_, h.distinct⟩
  · show ((s.outbox.jobs.map _).map Wake.key).Nodup
    rw [map_keys]
    · exact h.keys
    · intro w
      split
      · exact applyTo_key ending w
      · rfl
  · intro w' hw' k hk
    obtain ⟨w, hw, rfl⟩ := List.mem_map.mp hw'
    by_cases hheld : w.heldBy communityId id claimId = true
    · rw [if_pos hheld, applyTo_claimId] at hk
      cases hk
    · rw [if_neg hheld] at hk ⊢
      exact h.current w hw k hk
  · intro entry hentry
    rcases h.held entry hentry with hexpired | hended | ⟨w, hw, hkey, hstate, hclaim, huntil⟩
    · exact .inl hexpired
    · refine .inr (.inl ?_)
      dsimp only
      split
      · exact List.mem_cons_of_mem _ hended
      · exact hended
    · by_cases hheld : w.heldBy communityId id claimId = true
      · refine .inr (.inl ?_)
        dsimp only
        rw [if_pos ((endClaim_hit h.keys ending).mpr ⟨w, hw, hheld⟩)]
        obtain ⟨hwkey, hwclaim, _⟩ := heldBy_iff.mp hheld
        rw [hclaim] at hwclaim
        rw [← hkey, hwkey, Option.some.inj hwclaim]
        exact List.mem_cons_self
      · refine .inr (.inr ⟨w, ?_, hkey, hstate, hclaim, huntil⟩)
        exact List.mem_map.mpr ⟨w, hw, by rw [if_neg hheld]⟩

/-! ### Enqueueing -/

theorem insertWake_ok {jobs jobs' : List Wake} {b : Bool} (h : insertWake jobs w = .ok (jobs', b)) :
    (b = false ∧ jobs' = jobs ∧ ∃ v ∈ jobs, v.dedupKey = w.dedupKey) ∨
      (b = true ∧ jobs' = jobs ++ [w] ∧ (∀ v ∈ jobs, v.dedupKey ≠ w.dedupKey) ∧ ∀ v ∈ jobs,
        v.key ≠ w.key) := by
  rw [insertWake] at h
  split at h
  · cases h
  split at h
  · rename_i hdup
    cases h
    obtain ⟨v, hv, hkey⟩ := List.any_eq_true.mp hdup
    exact .inl ⟨rfl, rfl, v, hv, by simpa using hkey⟩
  · rename_i hnew
    split at h
    · cases h
    rename_i hkey
    cases h
    refine .inr ⟨rfl, rfl, ?_, ?_⟩
    · intro v hv heq
      exact hnew (List.any_eq_true.mpr ⟨v, hv, by simpa using heq⟩)
    · intro v hv heq
      exact hkey (List.any_eq_true.mpr ⟨v, hv, by simpa using heq⟩)

/-- What an enqueue adds: pending jobs of eligible requests. -/
theorem insertWakes_ok {rs : List (WakeRequest × Option (List UInt8))} :
    ∀ {jobs jobs' : List Wake} {outcomes : List EnqueueOutcome},
      insertWakes communityId now jobs rs = .ok (jobs', outcomes) →
        ∃ added, jobs' = jobs ++ added ∧
          (∀ w ∈ added, ∃ r endpointHash, (r, some endpointHash) ∈ rs ∧
            w = newWake communityId now r endpointHash) ∧
          ((jobs.map Wake.key).Nodup → (jobs'.map Wake.key).Nodup) := by
  induction rs with
  | nil =>
    intro jobs jobs' outcomes h
    cases h
    refine ⟨[], (List.append_nil _).symm, ?_, id⟩
    intro w hw
    cases hw
  | cons entry rest ih =>
    intro jobs jobs' outcomes h
    obtain ⟨request, resolved⟩ := entry
    -- what the rest of the batch adds
    have hrest : ∀ {jobs₁ : List Wake} {o : EnqueueOutcome},
        ((insertWakes communityId now jobs₁ rest).map fun r => (r.1, o :: r.2)) =
          .ok (jobs', outcomes) →
        ∃ added, jobs' = jobs₁ ++ added ∧
          (∀ w ∈ added, ∃ r endpointHash, (r, some endpointHash) ∈ (request, resolved) :: rest ∧
            w = newWake communityId now r endpointHash) ∧
          ((jobs₁.map Wake.key).Nodup → (jobs'.map Wake.key).Nodup) := by
      intro jobs₁ o hmap
      cases hr : insertWakes communityId now jobs₁ rest with
      | error e =>
        rw [hr] at hmap
        cases hmap
      | ok r =>
        rw [hr] at hmap
        have hout := Except.ok.inj hmap
        obtain ⟨added, hjobs, hadded, hkeys⟩ := ih hr
        have hfst : r.1 = jobs' := congrArg Prod.fst hout
        refine ⟨added, by rw [← hfst, hjobs], ?_, by rw [← hfst]; exact hkeys⟩
        intro w hw
        obtain ⟨r', endpointHash, hmem, heq⟩ := hadded w hw
        exact ⟨r', endpointHash, List.mem_cons_of_mem _ hmem, heq⟩
    cases resolved with
    | none =>
      rw [insertWakes] at h
      exact hrest h
    | some endpointHash =>
      rw [insertWakes] at h
      split at h
      · cases h
      · rename_i jobs₁ hinsert
        rcases insertWake_ok hinsert with ⟨hfalse, _⟩ | ⟨_, rfl, _, hfree⟩
        · cases hfalse
        obtain ⟨added, hjobs, hadded, hkeys⟩ := hrest h
        refine ⟨newWake communityId now request endpointHash :: added, by rw [hjobs]; simp, ?_, ?_⟩
        · intro w hw
          rcases List.mem_cons.mp hw with rfl | hw
          · exact ⟨request, endpointHash, List.mem_cons_self, rfl⟩
          · exact hadded w hw
        · intro hnodup
          refine hkeys ?_
          rw [List.map_append, List.map_singleton]
          refine hnodup.append (List.nodup_singleton _) (List.disjoint_singleton.mpr ?_)
          intro hmem
          obtain ⟨v, hv, heq⟩ := List.mem_map.mp hmem
          exact hfree v hv heq
      · rename_i jobs₁ hinsert
        rcases insertWake_ok hinsert with ⟨_, rfl, _⟩ | ⟨htrue, _⟩
        · split at h
          · exact hrest h
          · cases h
        · cases htrue

theorem fenced_enqueue {requests : List WakeRequest} {outbox : Outbox}
    {outcomes : List EnqueueOutcome} (h : Fenced s)
    (hok : s.outbox.enqueueWakes communityId now requests = .ok (outbox, outcomes)) :
    Fenced { s with outbox } := by
  rw [enqueueWakes] at hok
  split at hok
  · cases hok
  rename_i jobs outcomes' hinsert
  cases hok
  obtain ⟨added, rfl, hadded, hkeys⟩ := insertWakes_ok hinsert
  refine ⟨hkeys h.keys, ?_, ?_, h.distinct⟩
  · intro w hw k hk
    rcases List.mem_append.mp hw with hw | hw
    · exact h.current w hw k hk
    · obtain ⟨r, endpointHash, _, rfl⟩ := hadded w hw
      cases hk
  · intro entry hentry
    rcases h.held entry hentry with hexpired | hended | ⟨w, hw, hrest⟩
    · exact .inl hexpired
    · exact .inr (.inl hended)
    · exact .inr (.inr ⟨w, List.mem_append_left _ hw, hrest⟩)

/-! ### Every action -/

/-- The parts of a job that no statement writes. -/
def SameRequest (w v : Wake) : Prop :=
  v.key = w.key ∧ v.dedupKey = w.dedupKey ∧ v.address = w.address ∧
    v.leaseGeneration = w.leaseGeneration

/-- **What an action does to the outbox.** A row that is written was pending or being sent. -/
theorem outbox_step {a : Action} (hkeys : (s.outbox.jobs.map Wake.key).Nodup)
    (hstep : (service maxActiveLeases).step s a = some s') :
    s'.outbox = s.outbox ∨
      (∃ op, a = .lease op ∧
        s'.outbox = { s.outbox with tables := (op.apply maxActiveLeases s.outbox.tables).1 }) ∨
      (∃ sources, s'.outbox = { s.outbox with sources }) ∨
      (∃ communityId now requests outcomes, a = .enqueue communityId now requests ∧
        s.outbox.enqueueWakes communityId now requests = .ok (s'.outbox, outcomes)) ∨
      ∃ f, s'.outbox = { s.outbox with jobs := s.outbox.jobs.map f } ∧
        ∀ w ∈ s.outbox.jobs, f w = w ∨ (w.terminal = false ∧ SameRequest w (f w)) := by
  cases a with
  | tick clock | revalidate communityId id claimId now =>
    rw [service] at hstep
    dsimp only at hstep
    split at hstep
    · cases hstep
      exact .inl rfl
    · cases hstep
  | lease op =>
    cases hstep
    exact .inr (.inl ⟨op, rfl, rfl⟩)
  | sources sources =>
    cases hstep
    exact .inr (.inr (.inl ⟨sources, rfl⟩))
  | enqueue communityId now requests =>
    rw [service] at hstep
    dsimp only at hstep
    split at hstep
    · rename_i outbox outcomes hok
      cases hstep
      exact .inr (.inr (.inr (.inl ⟨communityId, now, requests, outcomes, rfl, hok⟩)))
    · cases hstep
      exact .inl rfl
  | claim communityId limit now leaseUntil claimId locked =>
    rw [service] at hstep
    dsimp only at hstep
    split at hstep
    · cases hstep
      by_cases hlimit : limit < 0
      · exact .inl (claim_negative hlimit)
      refine .inr (.inr (.inr (.inr ⟨fun w =>
        if s.outbox.taken communityId limit now locked w then
          w.claimed leaseUntil claimId else w, ?_, ?_⟩)))
      · dsimp only
        rw [claimDueWakes, if_neg hlimit]
      · intro w hw
        dsimp only
        split
        · rename_i htaken
          refine .inr ⟨?_, rfl, rfl, rfl, rfl⟩
          rcases free_of_due (due_of_taken hkeys hw htaken) with hpending | ⟨hsending, _⟩
          · rw [Wake.terminal, hpending]
            rfl
          · rw [Wake.terminal, hsending]
            rfl
        · exact .inl rfl
    · cases hstep
  | ending ending communityId id claimId =>
    cases hstep
    refine .inr (.inr (.inr (.inr ⟨fun w => if w.heldBy communityId id claimId then
      ending.applyTo w else w, rfl, ?_⟩)))
    intro w _
    dsimp only
    split
    · rename_i hheld
      refine .inr ⟨?_, by cases ending <;> exact ⟨rfl, rfl, rfl, rfl⟩⟩
      rw [Wake.terminal, (heldBy_iff.mp hheld).2.2]
      rfl
    · exact .inl rfl

/-- **The fence is kept by every action.** -/
theorem fenced_step {a : Action} (h : Fenced s)
    (hstep : (service maxActiveLeases).step s a = some s') : Fenced s' := by
  cases a with
  | tick clock =>
    rw [service] at hstep
    dsimp only at hstep
    split at hstep
    · rename_i hle
      cases hstep
      refine ⟨h.keys, h.current, ?_, h.distinct⟩
      intro entry hentry
      rcases h.held entry hentry with hexpired | hrest
      · exact .inl (lt_of_lt_of_le hexpired hle)
      · exact .inr hrest
    · cases hstep
  | lease op | sources sources =>
    cases hstep
    exact ⟨h.keys, h.current, h.held, h.distinct⟩
  | enqueue communityId now requests =>
    rw [service] at hstep
    dsimp only at hstep
    split at hstep
    · rename_i outbox outcomes hok
      cases hstep
      exact fenced_enqueue h hok
    · cases hstep
      exact h
  | claim communityId limit now leaseUntil claimId locked =>
    rw [service] at hstep
    dsimp only at hstep
    split at hstep
    · rename_i hok
      cases hstep
      exact fenced_claim h hok.1 hok.2
    · cases hstep
  | revalidate communityId id claimId now =>
    rw [service] at hstep
    dsimp only at hstep
    split at hstep
    · cases hstep
      exact h
    · cases hstep
  | ending ending communityId id claimId =>
    cases hstep
    exact fenced_ending h ending

theorem fenced_run {clock : Int} {actions : List Action}
    (h : (service maxActiveLeases).run (.start clock) actions = some s) : Fenced s :=
  Machine.invariant (fun _ _ _ hs _ hstep =>
    fenced_step hs hstep) (fenced_start clock) Machine.always_true h

/-! ## What the fence gives -/

/-- **One worker at a time.** -/
theorem claim_unique (h : Fenced s) {a b : Handed} (ha : a ∈ s.handed) (hb : b ∈ s.handed)
    (hjob : a.job = b.job)
    (ha' : s.clock ≤ a.leaseUntil ∧ (a.job, a.claimId) ∉ s.ended)
    (hb' : s.clock ≤ b.leaseUntil ∧ (b.job, b.claimId) ∉ s.ended) : a = b := by
  have hheld : ∀ x ∈ s.handed, s.clock ≤ x.leaseUntil ∧ (x.job, x.claimId) ∉ s.ended →
      HeldUnder s.outbox x := by
    intro x hx hx'
    rcases h.held x hx with hexpired | hended | hheld
    · omega
    · exact absurd hended hx'.2
    · exact hheld
  obtain ⟨w, hw, hkey, _, hclaim, huntil⟩ := hheld a ha ha'
  obtain ⟨v, hv, hkey', _, hclaim', huntil'⟩ := hheld b hb hb'
  have heq := eq_of_key h.keys hw hv (hkey.trans (hjob.trans hkey'.symm))
  subst heq
  rw [hclaim] at hclaim'
  rw [huntil] at huntil'
  cases a
  cases b
  cases Option.some.inj hclaim'
  cases Option.some.inj huntil'
  cases hjob
  rfl

/-- The claim in a row has no later one. -/
theorem not_held_of_superseded (h : Fenced s) {older newer : Handed}
    (hsub : [newer, older].Sublist s.handed)
    (hjob : newer.job = older.job) :
    ∀ w ∈ s.outbox.jobs, w.heldBy older.job.1 older.job.2 older.claimId = false := by
  intro w hw
  rw [Bool.eq_false_iff]
  intro hheld
  obtain ⟨hkey, hclaim, _⟩ := heldBy_iff.mp hheld
  have hkey : w.key = older.job := hkey
  obtain ⟨_, entry, hentry, heq⟩ := h.current w hw older.claimId hclaim
  have hejob : entry.job = older.job := by simpa [hkey] using List.find?_some hentry
  -- the first claim of the job stands before the newer one or is it, so it is not the older one
  obtain ⟨l₁, l₂, hsplit, hnewer, holder⟩ := List.cons_sublist_iff.mp hsub
  have holder := List.singleton_sublist.mp holder
  have hfirst : entry ∈ l₁ := by
    rw [hsplit, List.find?_append] at hentry
    have hsome : (l₁.find? fun h => h.job = w.key).isSome = true := by
      rw [List.find?_isSome]
      exact ⟨newer, hnewer, by simp [hjob, hkey]⟩
    obtain ⟨x, hx⟩ := Option.isSome_iff_exists.mp hsome
    rw [hx, Option.some_or] at hentry
    cases hentry
    exact List.mem_of_find?_eq_some hx
  have hdistinct := h.distinct
  rw [hsplit, List.map_append, List.nodup_append] at hdistinct
  exact hdistinct.2.2 _ (List.mem_map.mpr ⟨entry, hfirst, rfl⟩) _ (List.mem_map.mpr ⟨older,
    holder, rfl⟩) (by rw [hejob, heq])

/-- What `Deliver` says of the job and of its lease. -/
theorem deliver_iff {wake : Claimed}
    (h : o.revalidateWakeForSend communityId id claimId now = .deliver wake) :
    ∃ w ∈ o.jobs, w.key = (communityId, id) ∧ w.state = .sending ∧ w.claimId = some claimId ∧
      (∃ u, w.leaseUntil = some u ∧ now ≤ u) ∧
      ∃ l, o.tables.leaseAt w.address = some l ∧ l.version.generation = w.leaseGeneration ∧
        l.effective now = true ∧
        ∃ a, l.active = some a ∧ a.endpointHash = w.endpointHash ∧
          wake.endpointGrant = a.endpointGrant := by
  rw [revalidateWakeForSend] at h
  split at h
  · rename_i w hfind
    have hmem := List.mem_of_find?_eq_some hfind
    have hcond := List.find?_some hfind
    simp only [Bool.and_eq_true] at hcond
    obtain ⟨⟨hheld, huntil⟩, hdeliverable⟩ := hcond
    obtain ⟨hkey, hclaim, hstate⟩ := heldBy_iff.mp hheld
    obtain ⟨u, hu, hnow⟩ := (Option.any_eq_true _ _).mp huntil
    simp only [deliverable, Bool.and_eq_true] at hdeliverable
    obtain ⟨l, hl, heffective⟩ := (Option.any_eq_true _ _).mp hdeliverable.1.1
    split at h
    · rename_i wake' hwake
      cases h
      rw [toClaimed, hl] at hwake
      rw [leaseOf, Option.filter_eq_some_iff] at hl
      obtain ⟨hat, hmatch⟩ := hl
      rw [Bool.and_eq_true, decide_eq_true_eq] at hmatch
      refine ⟨w, hmem, hkey, hstate, hclaim, ⟨u, hu, by simpa using hnow⟩, l, hat, hmatch.1,
        heffective, ?_⟩
      obtain ⟨a, ha, hhash⟩ := (Option.any_eq_true _ _).mp hmatch.2
      refine ⟨a, ha, by simpa using hhash, ?_⟩
      split at hwake
      · rename_i l' e claim heq _ _
        cases heq
        rw [ha, Option.map_some] at hwake
        rw [← Option.some.inj hwake]
      · cases hwake
    · cases h
  · cases h

/-- A job that was delivered or failed stays as it is. -/
theorem terminal_step {a : Action} (hstep : (service maxActiveLeases).step s a = some s')
    (hkeys : (s.outbox.jobs.map Wake.key).Nodup)
    (hw : w ∈ s.outbox.jobs) (hterm : w.terminal = true) : w ∈ s'.outbox.jobs := by
  rcases outbox_step hkeys hstep with
    hsame | ⟨op, _, hlease⟩ | ⟨sources, hsources⟩ | ⟨communityId, now, requests, outcomes, _,
      hok⟩ | ⟨f, hmap, hf⟩
  · rw [hsame]
    exact hw
  · rw [hlease]
    exact hw
  · rw [hsources]
    exact hw
  · rw [enqueueWakes] at hok
    split at hok
    · cases hok
    rename_i jobs outcomes' hinsert
    obtain ⟨added, rfl, _, _⟩ := insertWakes_ok hinsert
    rw [← (Prod.mk.inj (Except.ok.inj hok)).1]
    exact List.mem_append_left _ hw
  · rw [hmap]
    refine List.mem_map.mpr ⟨w, hw, ?_⟩
    rcases hf w hw with hkeep | ⟨hopen, _⟩
    · exact hkeep
    · rw [hterm] at hopen
      cases hopen

theorem terminal_run {actions : List Action}
    (hrun : (service maxActiveLeases).run s actions = some s') (h : Fenced s)
    (hw : w ∈ s.outbox.jobs) (hterm : w.terminal = true) : w ∈ s'.outbox.jobs := by
  have hinv : Fenced s' ∧ w ∈ s'.outbox.jobs := by
    refine Machine.invariant (I := fun u => Fenced u ∧ w ∈ u.outbox.jobs) ?_ ⟨h,
      hw⟩ Machine.always_true hrun
    intro u a u' hu _ hstep
    exact ⟨fenced_step hu.1 hstep, terminal_step hstep hu.1.keys hu.2 hterm⟩
  exact hinv.2

/-- **Wake delivery is fenced.** In every state of every run: two claims of one job that are neither
expired nor ended are the same; `Deliver` goes to the claim that is in the job's row, while the
job's generation and endpoint are those of an effective lease; a claim that a later one superseded
ends nothing; and a job that was delivered or failed stays as it is. -/
theorem wake_delivery_fenced {clock : Int} {actions : List Action}
    (hrun : (service maxActiveLeases).run (.start clock) actions = some s) :
    (∀ a ∈ s.handed, ∀ b ∈ s.handed, a.job = b.job →
      (s.clock ≤ a.leaseUntil ∧ (a.job, a.claimId) ∉ s.ended) →
      (s.clock ≤ b.leaseUntil ∧ (b.job, b.claimId) ∉ s.ended) → a = b) ∧
    (∀ communityId id claimId now wake,
      s.outbox.revalidateWakeForSend communityId id claimId now = .deliver wake →
      ∃ w ∈ s.outbox.jobs, w.key = (communityId, id) ∧ w.state = .sending ∧
        w.claimId = some claimId ∧ (∃ u, w.leaseUntil = some u ∧ now ≤ u) ∧
        ∃ l, s.outbox.tables.leaseAt w.address = some l ∧ l.version.generation = w.leaseGeneration ∧
          l.effective now = true ∧
          ∃ a, l.active = some a ∧ a.endpointHash = w.endpointHash ∧
            wake.endpointGrant = a.endpointGrant) ∧
    (∀ older newer, [newer, older].Sublist s.handed → newer.job = older.job → ∀ ending,
      s.outbox.endClaim ending older.job.1 older.job.2 older.claimId = (s.outbox, false)) ∧
    ∀ w ∈ s.outbox.jobs, w.terminal = true →
      ∀ more s', (service maxActiveLeases).run s more = some s' →
      w ∈ s'.outbox.jobs ∧ ∀ v ∈ s'.outbox.jobs, v.key = w.key → v = w := by
  have h := fenced_run hrun
  refine ⟨?_, ?_, ?_, ?_⟩
  · intro a ha b hb hjob ha' hb'
    exact claim_unique h ha hb hjob ha' hb'
  · intro communityId id claimId now wake hdeliver
    exact deliver_iff hdeliver
  · intro older newer hsub hjob ending
    exact endClaim_none ending (not_held_of_superseded h hsub hjob)
  · intro w hw hterm more s' hmore
    have hw' := terminal_run hmore h hw hterm
    refine ⟨hw', ?_⟩
    intro v hv hkey
    have h' : Fenced s' :=
      Machine.invariant (fun _ _ _ hs _ hstep => fenced_step hs hstep) h Machine.always_true hmore
    exact eq_of_key h'.keys hv hw' hkey

/-- A claim expires, another worker takes the job, and both report that they have delivered it. -/
def supersededWake : List Action :=
  let community : CommunityId := ⟨.ofNat 16 1⟩
  let author := (FixedBytes.ofNat 32 7).bytes
  let eventId := (FixedBytes.ofNat 32 5).bytes
  let job : Uuid := .ofNat 16 2
  let first : Uuid := .ofNat 16 3
  let second : Uuid := .ofNat 16 4
  [ .tick 1000,
    .lease (.replace community author "phone" ⟨(FixedBytes.ofNat 32 1).bytes, 10, 1, 1000⟩
      (some ⟨"ios", (FixedBytes.ofNat 32 9).bytes, "grant", "default", .arr []⟩)),
    .sources [⟨community, eventId, none⟩],
    .enqueue community 1000 [⟨author, "phone", 1, eventId, "default", 900, job⟩],
    .claim community 10 1000 5000 first [],
    .tick 6000,
    .claim community 10 6000 9000 second [],
    .ending .complete community job first,
    .ending .complete community job second ]

/-- Of the two reports only the second worker's counts. -/
theorem wake_delivery_fenced_sample : ∃ s, (service 16).run (.start 0) supersededWake = some s ∧
    s.outbox.jobs.map Wake.state = [.delivered] ∧ s.ended.length = 1 ∧
    (∀ ending, s.outbox.endClaim ending ⟨FixedBytes.ofNat 16 1⟩ (FixedBytes.ofNat 16 2)
      (FixedBytes.ofNat 16 3) = (s.outbox, false)) ∧
    ∀ w ∈ s.outbox.jobs, w.terminal = true → ∀ more s', (service 16).run s more = some s' →
      w ∈ s'.outbox.jobs := by
  let older : Handed :=
    ⟨(⟨FixedBytes.ofNat 16 1⟩, FixedBytes.ofNat 16 2), FixedBytes.ofNat 16 3, 5000⟩
  let newer : Handed := { older with claimId := FixedBytes.ofNat 16 4, leaseUntil := 9000 }
  have hrun : (((service 16).run (.start 0) supersededWake).map fun s =>
      (s.outbox.jobs.map Wake.state, s.ended.length, s.handed)) =
        some ([.delivered], 1, [newer, older]) := by decide
  obtain ⟨s, hs, hend⟩ := Option.map_eq_some_iff.mp hrun
  have hhanded : s.handed = [newer, older] := congrArg (fun r => r.2.2) hend
  obtain ⟨-, -, hsuperseded, hterminal⟩ := wake_delivery_fenced hs
  refine ⟨s, hs, congrArg Prod.fst hend, congrArg (fun r => r.2.1) hend, ?_, ?_⟩
  · exact hsuperseded older newer (hhanded ▸ List.Sublist.refl _) rfl
  · intro w hw hterm more s' hmore
    exact (hterminal w hw hterm more s' hmore).1

end Pkzz.Db.Push
