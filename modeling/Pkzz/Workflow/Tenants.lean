import Pkzz.Workflow.Once

/-!
# Communities that share a workflow id

Claims, runs and anchors are kept by community and workflow. So what the pods do for other
communities can be left out of a run: what is left is a run, in which the same claims are
won and the same runs created for the community that is kept (`run_alone`).
-/

namespace Pkzz.Workflow

open Pkzz.Core Pkzz.Lib

open Scheduler (claim_keys)

variable {cron : CronCrate} {workflows : Workflows} {c : Uuid}

/-! ## The tables of one community -/

def ofCommunity (c : Uuid) (key : FireKey) : Bool := key.workflow.communityId = c

theorem ofCommunity_iff {key : FireKey} : ofCommunity c key = true ↔ key.workflow.communityId = c :=
  decide_eq_true_iff

/-- The claims of one community. -/
def claimsOf (c : Uuid) (claims : List Claim) : List Claim := claims.filter fun x =>
    ofCommunity c x.key

def runsOf (c : Uuid) (runs : List Run) : List Run := runs.filter fun r => ofCommunity c r.key

theorem filter_append_self {β : Type} {f : β → FireKey} {l : List β} {x : β}
    (hc : (f x).workflow.communityId = c) : (l ++ [x]).filter (fun y => ofCommunity c (f y))
      = l.filter (fun y => ofCommunity c (f y)) ++ [x] := by
  rw [List.filter_append, List.filter_cons, if_pos (ofCommunity_iff.mpr hc), List.filter_nil]

theorem filter_append_other {β : Type} {f : β → FireKey} {l : List β} {x : β}
    (hc : (f x).workflow.communityId ≠ c) : (l ++ [x]).filter (fun y => ofCommunity c (f y))
      = l.filter fun y => ofCommunity c (f y) := by
  rw [List.filter_append, List.filter_cons, if_neg (fun h => hc (ofCommunity_iff.mp h)),
    List.filter_nil, List.append_nil]

theorem claim_alone (claims : List Claim) {key : FireKey} (hc : key.workflow.communityId = c)
    (now : Int) : claimScheduledWorkflowFire workflows (claimsOf c claims) key now
      = (claimsOf c (claimScheduledWorkflowFire workflows claims key now).1,
        (claimScheduledWorkflowFire workflows claims key now).2) := by
  unfold claimScheduledWorkflowFire
  cases workflows.lookup key.workflow with
  | none => rfl
  | some record =>
    dsimp only
    have hany : ((claimsOf c claims).any fun x => x.key = key) = claims.any fun x =>
      x.key = key := by
      unfold claimsOf
      rw [List.any_filter]
      congr 1
      funext x
      by_cases hx : x.key = key
      · rw [hx, ofCommunity_iff.mpr hc]
        rfl
      · rw [decide_eq_false hx, Bool.and_false]
    rw [hany]
    by_cases h : (claims.any fun x => x.key = key) = true
    · rw [if_pos h, if_pos h]
    · rw [if_neg h, if_neg h]
      exact congrArg (·, true) (filter_append_self (f := Claim.key) hc).symm

theorem claim_other (claims : List Claim) {key : FireKey} (hc : key.workflow.communityId ≠ c)
    (now : Int) :
    claimsOf c (claimScheduledWorkflowFire workflows claims key now).1 = claimsOf c claims := by
  rcases @claim_keys workflows claims key now with ⟨_, _, hclaims⟩ | ⟨_, hclaims⟩
  · rw [hclaims]
    exact filter_append_other (f := Claim.key) hc
  · rw [hclaims]

theorem attach_alone (claims : List Claim) (key : FireKey) (runId : Uuid) :
    claimsOf c (attachScheduledWorkflowRun claims key runId)
      = attachScheduledWorkflowRun (claimsOf c claims) key runId := by
  unfold claimsOf attachScheduledWorkflowRun
  rw [List.filter_map]
  congr 2
  funext x
  dsimp only [Function.comp]
  split <;> rfl

theorem attach_other (claims : List Claim) {key : FireKey} (hc : key.workflow.communityId ≠ c)
    (runId : Uuid) : claimsOf c (attachScheduledWorkflowRun claims key runId) =
    claimsOf c claims := by
  rw [attach_alone]
  unfold attachScheduledWorkflowRun
  refine (List.map_congr_left ?_).trans (List.map_id _)
  intro x hx
  have hxc := ofCommunity_iff.mp (List.mem_filter.mp hx).2
  rw [if_neg ?_]
  · rfl
  · intro h
    rw [h.1] at hxc
    exact hc hxc

theorem latest_alone (claims : List Claim) {workflow : WorkflowKey}
    (hc : workflow.communityId = c) : latestScheduledWorkflowFire (claimsOf c claims) workflow =
      latestScheduledWorkflowFire claims workflow := by
  unfold latestScheduledWorkflowFire claimsOf
  rw [List.filter_filter]
  congr 3
  funext x
  by_cases hx : x.key.workflow = workflow
  · have hxc : ofCommunity c x.key = true := ofCommunity_iff.mpr (by rw [hx, hc])
    rw [hxc, Bool.and_true]
  · rw [decide_eq_false hx, Bool.false_and]

/-! ## Pods -/

/-- What a tick does for one community. -/
def Tick.alone (c : Uuid) (t : Tick) : Tick :=
  { t with stage := t.stage.filter fun s => ofCommunity c s.key }

/-- `q` is what `p` is for one community. -/
structure PodAlone (c : Uuid) (p q : Pod) : Prop where
  lastFired : ∀ k, k.communityId = c → q.lastFired.lookup k = p.lastFired.lookup k
  tick : q.tick = p.tick.map (Tick.alone c)

theorem PodAlone.tick_none {p q : Pod} (h : PodAlone c p q) (hp : p.tick = none) :
    q.tick = none := by
  rw [h.tick, hp]
  rfl

variable {enabled : List WorkflowKey}

theorem PodAlone.tick_idle {p q : Pod} {now : Int} (h : PodAlone c p q)
    (hp : p.tick = some ⟨now, enabled, none⟩) : q.tick = some ⟨now, enabled, none⟩ := by
  rw [h.tick, hp]
  rfl

theorem filter_stage {s : Stage} (hc : s.key.workflow.communityId = c) :
    (some s).filter (fun s => ofCommunity c s.key) = some s :=
  Option.filter_some_pos (ofCommunity_iff.mpr hc)

theorem filter_stage_other {s : Stage} (hc : s.key.workflow.communityId ≠ c) :
    (some s).filter (fun s => ofCommunity c s.key) = none :=
  Option.filter_some_neg (p := fun s : Stage => ofCommunity c s.key) (decide_eq_false hc)

theorem PodAlone.tick_busy {p q : Pod} {now : Int} {s : Stage}
    (h : PodAlone c p q) (hp : p.tick = some ⟨now, enabled, some s⟩)
    (hc : s.key.workflow.communityId = c) : q.tick = some ⟨now, enabled, some s⟩ := by
  rw [h.tick, hp]
  unfold Tick.alone
  rw [Option.map_some]
  dsimp only
  rw [filter_stage hc]

/-- The pod that is busy with another community is idle here. -/
theorem PodAlone.tick_other {p q : Pod} {now : Int} {s : Stage}
    (h : PodAlone c p q) (hp : p.tick = some ⟨now, enabled, some s⟩)
    (hc : s.key.workflow.communityId ≠ c) : q.tick = some ⟨now, enabled, none⟩ := by
  rw [h.tick, hp]
  unfold Tick.alone
  rw [Option.map_some]
  dsimp only
  rw [filter_stage_other hc]

/-! ## The prefilter -/

theorem lookup_insert_alone {m n : Map WorkflowKey Int}
    (h : ∀ k, k.communityId = c → n.lookup k = m.lookup k) (workflow : WorkflowKey) (now : Int) :
    ∀ k, k.communityId = c →
      (n.insert workflow now).lookup k = (m.insert workflow now).lookup k := by
  intro k hk
  rw [Map.lookup_insert_eq, Map.lookup_insert_eq, h k hk]

theorem lookup_insert_other {m : Map WorkflowKey Int} {workflow : WorkflowKey}
    (hc : workflow.communityId ≠ c) (now : Int) :
    ∀ k, k.communityId = c → m.lookup k = (m.insert workflow now).lookup k := by
  intro k hk
  rw [Map.lookup_insert_eq, if_neg ?_]
  intro heq
  rw [heq] at hk
  exact hc hk

/-- The pre-filter leaves the other anchors alone. -/
theorem prefilter_cases (lastFired : Map WorkflowKey Int) (workflow : WorkflowKey) (dur : String)
    (last : Option Int) (now : Int) :
    (intervalPrefilterShouldFire lastFired workflow dur last now).2 =
    intervalShouldFire dur last now
      ∧ (intervalPrefilterShouldFire lastFired workflow dur last now).1
        = if intervalShouldFire dur last now = false ∧ last = none then
          lastFired.insert workflow now else lastFired := by
  unfold intervalPrefilterShouldFire
  cases hfire : intervalShouldFire dur last now with
  | true => simp
  | false =>
    cases last with
    | none => simp
    | some t => simp

/-- What `resolve` reads: nothing, or the anchor of the workflow. -/
theorem resolve_cases (cron : CronCrate) (now : Int) (workflow : WorkflowKey)
    (record : WorkflowRecord) (anchorRead : Bool) :
    (∃ due, ∀ claims lastFired, resolve cron claims lastFired now workflow record anchorRead =
      (lastFired, due))
      ∨ ∃ dur, ∀ claims lastFired, resolve cron claims lastFired now workflow record anchorRead
        = ((intervalPrefilterShouldFire lastFired workflow dur
            (lastFire claims lastFired workflow anchorRead) now).1,
          if (intervalPrefilterShouldFire lastFired workflow dur
              (lastFire claims lastFired workflow anchorRead) now).2 then
            (intervalFireInstant dur now).map fun t => (t, .interval)
          else none) := by
  unfold resolve
  split
  · exact .inl ⟨_, fun _ _ => rfl⟩
  · rename_i dur channelId _ _
    refine .inr ⟨dur, ?_⟩
    intro claims lastFired
    dsimp only
    rcases intervalPrefilterShouldFire lastFired workflow dur
      (lastFire claims lastFired workflow anchorRead) now with ⟨m, fire⟩
    cases fire with
    | true => rfl
    | false => rfl
  · exact .inl ⟨none, fun _ _ => rfl⟩

/-- The pre-filter of a workflow reads and writes the anchor of that workflow only. -/
theorem resolve_alone {claims : List Claim} {m n : Map WorkflowKey Int}
    (h : ∀ k, k.communityId = c → n.lookup k = m.lookup k) (now : Int) {workflow : WorkflowKey}
    (hc : workflow.communityId = c) (record : WorkflowRecord) (anchorRead : Bool) :
    (resolve cron (claimsOf c claims) n now workflow record anchorRead).2
        = (resolve cron claims m now workflow record anchorRead).2
      ∧ ∀ k, k.communityId = c →
        (resolve cron (claimsOf c claims) n now workflow record anchorRead).1.lookup k
        = (resolve cron claims m now workflow record anchorRead).1.lookup k := by
  have hlast : lastFire (claimsOf c claims) n workflow anchorRead =
      lastFire claims m workflow anchorRead := by
    unfold lastFire
    rw [h workflow hc, latest_alone claims hc]
  rcases resolve_cases cron now workflow record anchorRead with ⟨due, hdue⟩ | ⟨dur, hdur⟩
  · rw [hdue, hdue]
    exact ⟨rfl, h⟩
  rw [hdur, hdur, hlast]
  obtain ⟨hm2, hm1⟩ := prefilter_cases m workflow dur (lastFire claims m workflow anchorRead) now
  obtain ⟨hn2, hn1⟩ := prefilter_cases n workflow dur (lastFire claims m workflow anchorRead) now
  rw [hm1, hm2, hn1, hn2]
  refine ⟨rfl, ?_⟩
  by_cases hseed : intervalShouldFire dur (lastFire claims m workflow anchorRead) now = false
      ∧ lastFire claims m workflow anchorRead = none
  · rw [if_pos hseed, if_pos hseed]
    exact lookup_insert_alone h workflow now
  · rw [if_neg hseed, if_neg hseed]
    exact h

theorem resolve_other {claims : List Claim} {m : Map WorkflowKey Int} (now : Int)
    {workflow : WorkflowKey}
    (hc : workflow.communityId ≠ c) (record : WorkflowRecord) (anchorRead : Bool) :
    ∀ k, k.communityId = c →
      m.lookup k = (resolve cron claims m now workflow record anchorRead).1.lookup k := by
  rcases resolve_cases cron now workflow record anchorRead with ⟨due, hdue⟩ | ⟨dur, hdur⟩
  · rw [hdue]
    exact fun _ _ => rfl
  rw [hdur]
  dsimp only
  rw [(prefilter_cases m workflow dur (lastFire claims m workflow anchorRead) now).2]
  split
  · exact lookup_insert_other hc now
  · exact fun _ _ => rfl

/-- The resolved stage, if any, is for the workflow. -/
theorem resolved_stage (due : Option (Int × TriggerType)) {workflow : WorkflowKey}
    (hc : workflow.communityId = c) :
    (due.map fun d => (⟨⟨workflow, d.1⟩, d.2, .due⟩ : Stage)).filter (fun s => ofCommunity c s.key)
      = due.map fun d => ⟨⟨workflow, d.1⟩, d.2, .due⟩ := by
  cases due with
  | none => rfl
  | some d => exact filter_stage hc

theorem resolved_stage_other (due : Option (Int × TriggerType)) {workflow : WorkflowKey}
    (hc : workflow.communityId ≠ c) :
    (due.map fun d => (⟨⟨workflow, d.1⟩, d.2, .due⟩ : Stage)).filter
    (fun s => ofCommunity c s.key) = none := by
  cases due with
  | none => rfl
  | some d => exact filter_stage_other hc

namespace Scheduler

variable {w w' v : Scheduler} {op : SchedulerOp} {ops : List SchedulerOp}

/-- `v` is what `w` is for one community. -/
structure Alone (c : Uuid) (w v : Scheduler) : Prop where
  clock : v.clock = w.clock
  claims : v.claims = claimsOf c w.claims
  runs : v.runs = runsOf c w.runs
  pods : ∀ p, PodAlone c (w.pods p) (v.pods p)

theorem alone_init : Alone c init init where
  clock := rfl
  claims := rfl
  runs := rfl
  pods := fun _ => ⟨fun _ _ => rfl, rfl⟩

variable {w₁ : Scheduler} {pod : Nat}

/-- Both move a pod. -/
theorem alone_setPod {v₁ : Scheduler} (h : Alone c w v) {p q : Pod}
    (hclock : v₁.clock = w₁.clock) (hclaims : v₁.claims = claimsOf c w₁.claims)
    (hruns : v₁.runs = runsOf c w₁.runs) (hw : w₁.pods = w.pods) (hv : v₁.pods = v.pods)
    (hpq : PodAlone c p q) : Alone c (w₁.setPod pod p) (v₁.setPod pod q) := by
  refine ⟨hclock, hclaims, hruns, ?_⟩
  intro r
  rw [pods_setPod, pods_setPod, hw, hv]
  by_cases hr : r = pod
  · rw [if_pos hr, if_pos hr]
    exact hpq
  · rw [if_neg hr, if_neg hr]
    exact h.pods r

/-- Only `w` moves a pod. -/
theorem alone_setPod_left (h : Alone c w v) {p : Pod} (hclock : w₁.clock = w.clock)
    (hclaims : claimsOf c w₁.claims = claimsOf c w.claims)
    (hruns : runsOf c w₁.runs = runsOf c w.runs)
    (hw : w₁.pods = w.pods) (hp : PodAlone c p (v.pods pod)) : Alone c (w₁.setPod pod p) v := by
  refine ⟨h.clock.trans hclock.symm, h.claims.trans hclaims.symm, h.runs.trans hruns.symm, ?_⟩
  intro r
  rw [pods_setPod, hw]
  by_cases hr : r = pod
  · rw [if_pos hr, hr]
    exact hp
  · rw [if_neg hr]
    exact h.pods r

/-- The stages of the community's own workflows. -/
def Stays (c : Uuid) (stage : Option Stage) : Prop :=
  stage.filter (fun s => ofCommunity c s.key) = stage

variable {stage : Option Stage}

theorem podAlone_stage {p q : Pod} (h : PodAlone c p q) (now : Int) (enabled : List WorkflowKey)
 (hstage : Stays c stage) :
    PodAlone c { p with tick := some ⟨now, enabled, stage⟩ }
      { q with tick := some ⟨now, enabled, stage⟩ } := by
  refine ⟨h.lastFired, ?_⟩
  dsimp only
  rw [Option.map_some]
  unfold Tick.alone
  dsimp only
  rw [hstage]

theorem podAlone_leave {p q : Pod} (h : PodAlone c p q) (now : Int) (enabled : List WorkflowKey)
    (s : Stage) : PodAlone c ⟨anchor p.lastFired s now, some ⟨now, enabled, none⟩⟩
      ⟨anchor q.lastFired s now, some ⟨now, enabled, none⟩⟩ := by
  refine ⟨?_, rfl⟩
  unfold anchor
  cases s.trigger with
  | cron => exact h.lastFired
  | interval => exact lookup_insert_alone h.lastFired _ _

/-- Both pods go on to a stage, or leave the workflow. -/
theorem alone_setStage {v₁ : Scheduler} (h : Alone c w v) {t : Tick}
    (hclock : v₁.clock = w₁.clock) (hclaims : v₁.claims = claimsOf c w₁.claims)
    (hruns : v₁.runs = runsOf c w₁.runs) (hw : w₁.pods = w.pods) (hv : v₁.pods = v.pods)
    (hstage : Stays c stage) : Alone c (w₁.setStage pod t stage) (v₁.setStage pod t stage) := by
  unfold setStage
  rw [hw, hv]
  exact alone_setPod h hclock hclaims hruns hw hv (podAlone_stage (h.pods pod) _ _ hstage)

theorem alone_leave {v₁ : Scheduler} (h : Alone c w v) {t : Tick} {s : Stage}
    (hclock : v₁.clock = w₁.clock) (hclaims : v₁.claims = claimsOf c w₁.claims)
    (hruns : v₁.runs = runsOf c w₁.runs) (hw : w₁.pods = w.pods) (hv : v₁.pods = v.pods) :
    Alone c (w₁.leave pod t s) (v₁.leave pod t s) := by
  unfold leave
  rw [hw, hv]
  exact alone_setPod h hclock hclaims hruns hw hv (podAlone_leave (h.pods pod) _ _ _)

variable {workflow : WorkflowKey} {granted : Bool} {outcome : Outcome} {runId : Uuid}

theorem alone_authority (h : Alone c w v) (hwc : workflow.communityId = c)
    (hstep : w.step cron workflows (.authority pod workflow granted) = some w') :
    ∃ v', v.step cron workflows (.authority pod workflow granted) = some v' ∧ Alone c w' v' := by
  unfold step at hstep ⊢
  dsimp only at hstep ⊢
  split at hstep
  · rename_i now enabled key trigger htick
    split at hstep
    · rename_i hkey
      have hkc : key.workflow.communityId = c := by
        rw [hkey]
        exact hwc
      rw [(h.pods pod).tick_busy htick hkc]
      dsimp only
      rw [if_pos hkey]
      refine ⟨_, rfl, ?_⟩
      cases hstep
      refine alone_setStage h h.clock h.claims h.runs rfl rfl ?_
      cases granted with
      | true => exact filter_stage hkc
      | false => rfl
    · cases hstep
  · cases hstep

theorem alone_claim (h : Alone c w v) (hwc : workflow.communityId = c)
    (hstep : w.step cron workflows (.claim pod workflow outcome) = some w') :
    ∃ v', v.step cron workflows (.claim pod workflow outcome) = some v' ∧ Alone c w' v' := by
  unfold step at hstep ⊢
  dsimp only at hstep ⊢
  split at hstep
  · rename_i now enabled key trigger htick
    split at hstep
    · rename_i hkey
      have hkc : key.workflow.communityId = c := by
        rw [hkey]
        exact hwc
      rw [(h.pods pod).tick_busy htick hkc]
      dsimp only
      rw [if_pos hkey, h.claims, claim_alone w.claims hkc, h.clock]
      cases outcome with
      | done =>
        dsimp only at hstep ⊢
        cases hwon : (claimScheduledWorkflowFire workflows w.claims key w.clock).2 with
        | true =>
          rw [hwon, if_pos rfl] at hstep
          refine ⟨_, if_pos rfl, ?_⟩
          cases hstep
          exact alone_setStage h rfl rfl h.runs rfl rfl (filter_stage hkc)
        | false =>
          rw [hwon, if_neg (by decide)] at hstep
          refine ⟨_, if_neg (by decide), ?_⟩
          cases hstep
          exact alone_leave h rfl rfl h.runs rfl rfl
      | failed =>
        refine ⟨_, rfl, ?_⟩
        cases hstep
        exact alone_setStage h h.clock h.claims h.runs rfl rfl rfl
      | lost =>
        refine ⟨_, rfl, ?_⟩
        cases hstep
        exact alone_setStage h rfl rfl h.runs rfl rfl rfl
    · cases hstep
  · cases hstep

theorem alone_create (h : Alone c w v) (hwc : workflow.communityId = c)
    (hstep : w.step cron workflows (.create pod workflow runId outcome) = some w') :
    ∃ v', v.step cron workflows (.create pod workflow runId outcome) = some v' ∧ Alone c w' v' := by
  unfold step at hstep ⊢
  dsimp only at hstep ⊢
  split at hstep
  · rename_i now enabled key trigger htick
    split at hstep
    · rename_i hkey
      have hkc : key.workflow.communityId = c := by
        rw [hkey]
        exact hwc
      have hruns : runsOf c w.runs ++ [⟨runId, key, w.clock⟩]
          = runsOf c (w.runs ++ [⟨runId, key, w.clock⟩]) :=
            (filter_append_self (f := Run.key) hkc).symm
      rw [(h.pods pod).tick_busy htick hkc]
      dsimp only
      rw [if_pos hkey, h.runs, h.clock]
      cases outcome with
      | done =>
        refine ⟨_, rfl, ?_⟩
        cases hstep
        exact alone_setStage h rfl h.claims hruns rfl rfl (filter_stage hkc)
      | failed =>
        refine ⟨_, rfl, ?_⟩
        cases hstep
        exact alone_setStage h h.clock h.claims h.runs rfl rfl rfl
      | lost =>
        refine ⟨_, rfl, ?_⟩
        cases hstep
        exact alone_setStage h rfl h.claims hruns rfl rfl rfl
    · cases hstep
  · cases hstep

theorem alone_attach (h : Alone c w v) (hwc : workflow.communityId = c)
    (hstep : w.step cron workflows (.attach pod workflow outcome) = some w') :
    ∃ v', v.step cron workflows (.attach pod workflow outcome) = some v' ∧ Alone c w' v' := by
  unfold step at hstep ⊢
  dsimp only at hstep ⊢
  split at hstep
  · rename_i now enabled key trigger runId htick
    split at hstep
    · rename_i hkey
      have hkc : key.workflow.communityId = c := by
        rw [hkey]
        exact hwc
      rw [(h.pods pod).tick_busy htick hkc]
      dsimp only
      rw [if_pos hkey]
      refine ⟨_, rfl, ?_⟩
      cases hstep
      refine alone_leave h h.clock ?_ h.runs rfl rfl
      dsimp only
      rw [h.claims]
      cases outcome with
      | done => exact (attach_alone w.claims key runId).symm
      | failed => rfl
      | lost => exact (attach_alone w.claims key runId).symm
    · cases hstep
  · cases hstep

/-- A step for the community, or for none, does the same in `v`. -/
theorem alone_keep (h : Alone c w v) (hc : ∀ d, op.communityId = some d → d = c)
    (hstep : w.step cron workflows op = some w') :
    ∃ v', v.step cron workflows op = some v' ∧ Alone c w' v' := by
  cases op with
  | pass d =>
    refine ⟨_, rfl, ?_⟩
    cases hstep
    exact ⟨by rw [h.clock], h.claims, h.runs, h.pods⟩
  | tick pod now enabled =>
    unfold step at hstep ⊢
    dsimp only at hstep ⊢
    split at hstep
    · rename_i htick
      rw [(h.pods pod).tick_none htick]
      refine ⟨_, rfl, ?_⟩
      cases hstep
      exact alone_setPod h h.clock h.claims h.runs rfl rfl (podAlone_stage (h.pods pod) _ _ rfl)
    · cases hstep
  | resolve pod workflow anchorRead =>
    have hwc : workflow.communityId = c := hc _ rfl
    unfold step at hstep ⊢
    dsimp only at hstep ⊢
    split at hstep
    · rename_i now enabled record htick hrecord
      rw [(h.pods pod).tick_idle htick, hrecord]
      dsimp only
      split at hstep
      · rename_i henabled
        rw [if_pos henabled]
        obtain ⟨hdue, hanchors⟩ := @resolve_alone cron c w.claims _ _
          (h.pods pod).lastFired now _ hwc record anchorRead
        refine ⟨_, rfl, ?_⟩
        rw [← Option.some.inj hstep, h.claims, hdue]
        refine alone_setPod h h.clock h.claims h.runs rfl rfl ⟨hanchors, ?_⟩
        dsimp only
        rw [Option.map_some]
        unfold Tick.alone
        dsimp only
        rw [resolved_stage _ hwc]
      · cases hstep
    · cases hstep
  | authority pod workflow granted => exact alone_authority h (hc _ rfl) hstep
  | claim pod workflow outcome => exact alone_claim h (hc _ rfl) hstep
  | create pod workflow runId outcome => exact alone_create h (hc _ rfl) hstep
  | attach pod workflow outcome => exact alone_attach h (hc _ rfl) hstep
  | endTick pod =>
    unfold step at hstep ⊢
    dsimp only at hstep ⊢
    split at hstep
    · rename_i now enabled htick
      rw [(h.pods pod).tick_idle htick]
      refine ⟨_, rfl, ?_⟩
      cases hstep
      refine alone_setPod h h.clock h.claims h.runs rfl rfl ⟨?_, rfl⟩
      intro k hk
      rw [Map.lookup_filter, Map.lookup_filter, (h.pods pod).lastFired k hk]
    · cases hstep
  | restart pod =>
    refine ⟨_, rfl, ?_⟩
    cases hstep
    exact alone_setPod h h.clock h.claims h.runs rfl rfl ⟨fun _ _ => rfl, rfl⟩

/-- The pod that is busy with another community stays idle here. -/
theorem alone_idle (h : Alone c w v) {now : Int} {enabled : List WorkflowKey}
    {s : Stage} (htick : (w.pods pod).tick = some ⟨now, enabled, some s⟩)
    (hs : s.key.workflow.communityId ≠ c) (hclock : w₁.clock = w.clock)
    (hclaims : claimsOf c w₁.claims = claimsOf c w.claims)
    (hruns : runsOf c w₁.runs = runsOf c w.runs)
    (hw : w₁.pods = w.pods) (hstage : stage.filter (fun s => ofCommunity c s.key) = none) :
    Alone c (w₁.setStage pod ⟨now, enabled, none⟩ stage) v := by
  unfold setStage
  refine alone_setPod_left h hclock hclaims hruns hw ⟨?_, ?_⟩
  · rw [hw]
    exact (h.pods pod).lastFired
  · rw [(h.pods pod).tick_other htick hs]
    dsimp only
    rw [Option.map_some]
    unfold Tick.alone
    dsimp only
    rw [hstage]

theorem alone_idle_leave (h : Alone c w v) {now : Int}
    {enabled : List WorkflowKey} {s s' : Stage}
    (htick : (w.pods pod).tick = some ⟨now, enabled, some s⟩)
    (hs : s.key.workflow.communityId ≠ c) (hs' : s'.key = s.key) (hclock : w₁.clock = w.clock)
    (hclaims : claimsOf c w₁.claims = claimsOf c w.claims)
    (hruns : runsOf c w₁.runs = runsOf c w.runs)
    (hw : w₁.pods = w.pods) : Alone c (w₁.leave pod ⟨now, enabled, none⟩ s') v := by
  unfold leave
  refine alone_setPod_left h hclock hclaims hruns hw ⟨?_, (h.pods pod).tick_other htick hs⟩
  intro k hk
  dsimp only
  rw [(h.pods pod).lastFired k hk, hw]
  unfold anchor
  cases s'.trigger with
  | cron => rfl
  | interval => exact lookup_insert_other (by rw [hs']; exact hs) _ k hk

/-- A step for another community does not concern `v`. -/
theorem alone_skip (h : Alone c w v) {d : Uuid} (hd : op.communityId = some d) (hne : d ≠ c)
    (hstep : w.step cron workflows op = some w') : Alone c w' v := by
  cases op with
  | pass d => cases hd
  | tick pod now enabled => cases hd
  | resolve pod workflow anchorRead =>
    have hwc : workflow.communityId ≠ c := by
      rw [Option.some.inj hd]
      exact hne
    unfold step at hstep
    dsimp only at hstep
    split at hstep
    · rename_i now enabled record htick _
      split at hstep
      · cases hstep
        -- the anchor that is read is another workflow's
        refine alone_setPod_left h rfl rfl rfl rfl ⟨?_, ?_⟩
        · intro k hk
          rw [(h.pods pod).lastFired k hk]
          exact resolve_other now hwc record anchorRead k hk
        · rw [(h.pods pod).tick_idle htick]
          dsimp only
          rw [Option.map_some]
          unfold Tick.alone
          dsimp only
          rw [resolved_stage_other _ hwc]
      · cases hstep
    · cases hstep
  | authority pod workflow granted =>
    unfold step at hstep
    dsimp only at hstep
    split at hstep
    · rename_i now enabled key trigger htick
      split at hstep
      · rename_i hkey
        have hkc : key.workflow.communityId ≠ c := by
          rw [hkey, Option.some.inj hd]
          exact hne
        cases hstep
        refine alone_idle h htick hkc rfl rfl rfl rfl ?_
        cases granted with
        | true => exact filter_stage_other hkc
        | false => rfl
      · cases hstep
    · cases hstep
  | claim pod workflow outcome =>
    unfold step at hstep
    dsimp only at hstep
    split at hstep
    · rename_i now enabled key trigger htick
      split at hstep
      · rename_i hkey
        have hkc : key.workflow.communityId ≠ c := by
          rw [hkey, Option.some.inj hd]
          exact hne
        -- a claim of another community is outside `v`, whether the pod hears of it or not
        have hclaims := @claim_other workflows c w.claims key hkc w.clock
        cases outcome with
        | done =>
          dsimp only at hstep
          split at hstep
          · cases hstep
            exact alone_idle h htick hkc rfl hclaims rfl rfl (filter_stage_other hkc)
          · cases hstep
            exact alone_idle_leave h htick hkc rfl rfl hclaims rfl rfl
        | failed =>
          cases hstep
          exact alone_idle h htick hkc rfl rfl rfl rfl rfl
        | lost =>
          cases hstep
          exact alone_idle h htick hkc rfl hclaims rfl rfl rfl
      · cases hstep
    · cases hstep
  | create pod workflow runId outcome =>
    unfold step at hstep
    dsimp only at hstep
    split at hstep
    · rename_i now enabled key trigger htick
      split at hstep
      · rename_i hkey
        have hkc : key.workflow.communityId ≠ c := by
          rw [hkey, Option.some.inj hd]
          exact hne
        have hruns : runsOf c (w.runs ++ [⟨runId, key, w.clock⟩]) = runsOf c w.runs :=
          filter_append_other (f := Run.key) hkc
        cases outcome with
        | done =>
          cases hstep
          exact alone_idle h htick hkc rfl rfl hruns rfl (filter_stage_other hkc)
        | failed =>
          cases hstep
          exact alone_idle h htick hkc rfl rfl rfl rfl rfl
        | lost =>
          cases hstep
          exact alone_idle h htick hkc rfl rfl hruns rfl rfl
      · cases hstep
    · cases hstep
  | attach pod workflow outcome =>
    unfold step at hstep
    dsimp only at hstep
    split at hstep
    · rename_i now enabled key trigger runId htick
      split at hstep
      · rename_i hkey
        have hkc : key.workflow.communityId ≠ c := by
          rw [hkey, Option.some.inj hd]
          exact hne
        cases hstep
        refine alone_idle_leave h htick hkc rfl rfl ?_ rfl rfl
        cases outcome with
        | done => exact attach_other w.claims hkc runId
        | failed => rfl
        | lost => exact attach_other w.claims hkc runId
      · cases hstep
    · cases hstep
  | endTick pod => cases hd
  | restart pod => cases hd

/-- The steps of the pods themselves, and those for one community. -/
def concerns (c : Uuid) (op : SchedulerOp) : Bool := op.communityId.all fun d => d = c

/-- The steps for one community alone. -/
theorem run_alone (h : (scheduler cron workflows).run init ops = some w) (c : Uuid) :
    ∃ v, (scheduler cron workflows).run init (ops.filter (concerns c)) = some v ∧ Alone c w v := by
  refine Machine.run_filter (I := fun _ => True) (R := Alone c) ?_ ?_
    (fun _ _ _ _ _ => trivial) trivial alone_init h
  · intro s a s' u _ hR hp hstep
    refine alone_keep hR ?_ hstep
    intro d hd
    unfold concerns at hp
    rw [hd] at hp
    exact of_decide_eq_true hp
  · intro s a s' u _ hR hp hstep
    unfold concerns at hp
    cases hd : a.communityId with
    | none =>
      rw [hd] at hp
      cases hp
    | some d =>
      rw [hd] at hp
      exact alone_skip hR hd (of_decide_eq_false hp) hstep

end Scheduler

/-- What is promised about scheduled fires. -/
structure FiresOnce (w : Scheduler) : Prop where
  /-- No two runs are for one instant of one workflow of one community. -/
  nodup : (w.runs.map Run.key).Nodup
  /-- A run has a claim of its own community. -/
  claimed : ∀ r ∈ w.runs, ∃ x ∈ w.claims, x.key = r.key

/-- **Whatever pods do, an instant has at most one run, a run has its claim, and what is done for
one community has nothing to do with the fires of another.** -/
theorem fires_once {ops : List SchedulerOp} {w : Scheduler}
    (h : (scheduler cron workflows).run Scheduler.init ops = some w) :
    FiresOnce w ∧ ∀ c, ∃ v,
      (scheduler cron workflows).run Scheduler.init (ops.filter (Scheduler.concerns c)) = some v
        ∧ v.claims = claimsOf c w.claims ∧ v.runs = runsOf c w.runs := by
  have honce := Scheduler.once_run h
  refine ⟨⟨honce.nodup, ?_⟩, ?_⟩
  · intro r hr
    exact List.mem_map.mp (honce.claimed r hr)
  · intro c
    obtain ⟨v, hv, halone⟩ := Scheduler.run_alone h c
    exact ⟨v, hv, halone.claims, halone.runs⟩

end Pkzz.Workflow
