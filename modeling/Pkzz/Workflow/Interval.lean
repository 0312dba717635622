import Pkzz.Workflow.Tenants

/-!
# Two runs within one interval

The pre-filter of an interval workflow asks whether the interval has passed since its
anchor. The anchor is not the last run: after a restart it is the start of the bucket that
was claimed last, which may lie almost an interval before the run, and on another pod it is
whatever that pod saw last. So the pre-filter can pass, and the next bucket be free, right
after a run (`not_fires_apart`).

`FreshAnchor` asks of each creation that the anchor its tick counted from lies no further
before the other runs than the tick's reading of the clock lies before this one. It says
nothing about the interval: that the interval has passed since the anchor is what the
pre-filter sees to. In a run of the machine that meets it, any two runs of the workflow are
an interval apart (`fires_apart`).
-/

namespace Pkzz.Workflow

open Pkzz.Core Pkzz.Lib

variable {cron : CronCrate} {workflows : Workflows} {workflow : WorkflowKey} {dur : String}
    {secs : Nat}

/-- The runs of a workflow are created at least this many seconds apart. -/
def Apart (secs : Nat) (workflow : WorkflowKey) (runs : List Run) : Prop :=
  (runs.filter fun r => r.key.workflow = workflow).Pairwise fun r s =>
    r.createdAt + secs * nanosPerSec ≤ s.createdAt

/-! ## Anchors -/

/-- The pods, and the anchor the pre-filter of each has counted from last. -/
structure Anchored where
  scheduler : Scheduler
  anchors : Nat → Option Int

def Anchored.init : Anchored := ⟨Scheduler.init, fun _ => none⟩

/-- The anchors after a step: `resolve` takes the one in memory or else that of the claims. -/
def Anchored.note (s : Anchored) : SchedulerOp → Nat → Option Int
  | .resolve pod workflow anchorRead => Function.update s.anchors pod
      (lastFire s.scheduler.claims (s.scheduler.pods pod).lastFired workflow anchorRead)
  | _ => s.anchors

/-- The scheduler, watched. -/
def anchored (cron : CronCrate) (workflows : Workflows) : Machine Anchored SchedulerOp where
  step s op := (s.scheduler.step cron workflows op).map fun w => ⟨w, s.note op⟩

/-- When a run is created, the anchor of its tick is not ahead of the tick's reading of the clock,
and no run of the workflow was created longer after the anchor than this one after the reading. -/
def FreshAnchor (workflow : WorkflowKey) (s : Anchored) : SchedulerOp → Prop
  | .create pod workflow' _ _ => workflow' = workflow →
      ∀ t ∈ (s.scheduler.pods pod).tick, ∀ a ∈ s.anchors pod,
        a ≤ t.now ∧ ∀ r ∈ s.scheduler.runs, r.key.workflow = workflow →
          r.createdAt - a ≤ s.scheduler.clock - t.now
  | _ => True

instance FreshAnchor.decidable (workflow : WorkflowKey) (s : Anchored) (op : SchedulerOp) :
    Decidable (FreshAnchor workflow s op) :=
  match op with
  | .create pod workflow' _ _ => inferInstanceAs (Decidable (workflow' = workflow →
      ∀ t ∈ (s.scheduler.pods pod).tick, ∀ a ∈ s.anchors pod,
        a ≤ t.now ∧ ∀ r ∈ s.scheduler.runs, r.key.workflow = workflow →
          r.createdAt - a ≤ s.scheduler.clock - t.now))
  | .pass _ | .tick _ _ _ | .resolve _ _ _ | .authority _ _ _ | .claim _ _ _ | .attach _ _
      _ | .endTick _
  | .restart _ => .isTrue trivial

namespace Scheduler

variable {w w' : Scheduler} {op : SchedulerOp} {ops : List SchedulerOp}

/-! ## What a pod is busy with -/

/-- The pod is at an instant of a tick that read the clock at `now`. -/
def Busy (w : Scheduler) (pod : Nat) (now : Int) (key : FireKey) : Prop :=
  ∃ t s, (w.pods pod).tick = some t ∧ t.now = now ∧ t.stage = some s ∧ s.key = key

variable {pod q : Nat} {now : Int} {key : FireKey} {v : Scheduler}

/-- A pod that was at the instant before is at it after. -/
theorem busy_setPod {p : Pod} (hpods : v.pods = w.pods)
    (hkeep : ∀ t s, p.tick = some t → t.stage = some s →
    w.Busy pod t.now s.key) (h : (v.setPod pod p).Busy q now key) : w.Busy q now key := by
  obtain ⟨t, s, ht, rfl, hs, rfl⟩ := h
  rw [pods_setPod, hpods] at ht
  by_cases hq : q = pod
  · rw [if_pos hq] at ht
    rw [hq]
    exact hkeep t s ht hs
  · rw [if_neg hq] at ht
    exact ⟨t, s, ht, rfl, hs, rfl⟩

theorem busy_setStage {t : Tick} {stage : Option Stage} (hpods : v.pods = w.pods)
    (hkeep : ∀ s, stage = some s → w.Busy pod t.now s.key)
    (h : (v.setStage pod t stage).Busy q now key) : w.Busy q now key := by
  refine busy_setPod hpods ?_ h
  intro t' s ht hs
  cases ht
  exact hkeep s hs

/-- A pod that leaves its workflow. -/
theorem busy_idle {p : Pod} (hpods : v.pods = w.pods) (hidle : p.tick.bind Tick.stage = none)
    (h : (v.setPod pod p).Busy q now key) : w.Busy q now key := by
  refine busy_setPod hpods ?_ h
  intro t s ht hs
  rw [ht, Option.bind_some, hs] at hidle
  cases hidle

/-- Only `resolve` turns to an instant. -/
theorem busy_step (hop : ∀ pod workflow anchorRead, op ≠ .resolve pod workflow anchorRead)
    (h : w.step cron workflows op = some w') (hbusy : w'.Busy q now key) : w.Busy q now key := by
  cases op with
  | pass d =>
    rw [← Option.some.inj h] at hbusy
    exact hbusy
  | resolve pod workflow anchorRead => exact absurd rfl (hop pod workflow anchorRead)
  | restart pod =>
    rw [← Option.some.inj h] at hbusy
    exact busy_idle rfl rfl hbusy
  | tick pod read enabled | endTick pod =>
    unfold step at h
    dsimp only at h
    split at h
    · rw [← Option.some.inj h] at hbusy
      exact busy_idle rfl rfl hbusy
    · cases h
  | authority pod workflow granted =>
    unfold step at h
    dsimp only at h
    split at h
    · rename_i htick
      split at h
      · rw [← Option.some.inj h] at hbusy
        refine busy_setStage rfl ?_ hbusy
        intro s hs
        cases granted with
        | true =>
          cases hs
          exact ⟨_, _, htick, rfl, rfl, rfl⟩
        | false => cases hs
      · cases h
    · cases h
  | claim pod workflow outcome =>
    unfold step at h
    dsimp only at h
    split at h
    · rename_i htick
      split at h
      · -- only an answer that arrives leads to the next stage
        cases outcome with
        | done =>
          dsimp only at h
          split at h
          · rw [← Option.some.inj h] at hbusy
            refine busy_setStage rfl ?_ hbusy
            intro s hs
            cases hs
            exact ⟨_, _, htick, rfl, rfl, rfl⟩
          · rw [← Option.some.inj h] at hbusy
            exact busy_idle rfl rfl hbusy
        | failed | lost =>
          rw [← Option.some.inj h] at hbusy
          exact busy_idle rfl rfl hbusy
      · cases h
    · cases h
  | create pod workflow runId outcome =>
    unfold step at h
    dsimp only at h
    split at h
    · rename_i htick
      split at h
      · cases outcome with
        | done =>
          rw [← Option.some.inj h] at hbusy
          refine busy_setStage rfl ?_ hbusy
          intro s hs
          cases hs
          exact ⟨_, _, htick, rfl, rfl, rfl⟩
        | failed | lost =>
          rw [← Option.some.inj h] at hbusy
          exact busy_idle rfl rfl hbusy
      · cases h
    · cases h
  | attach pod workflow outcome =>
    unfold step at h
    dsimp only at h
    split at h
    · split at h
      · rw [← Option.some.inj h] at hbusy
        exact busy_idle rfl rfl hbusy
      · cases h
    · cases h

/-- `resolve` turns to an instant of the workflow where the pre-filter lets it. -/
theorem busy_resolve {workflow : WorkflowKey} {anchorRead : Bool}
    (h : w.step cron workflows (.resolve pod workflow anchorRead) = some w')
    (hbusy : w'.Busy q now key) :
    (q ≠ pod ∧ w.Busy q now key) ∨
    (q = pod ∧ key.workflow = workflow ∧ ∃ record, workflows.lookup workflow = some record ∧
      (Workflow.resolve cron w.claims
        (w.pods pod).lastFired now workflow record anchorRead).2.isSome = true) := by
  unfold step at h
  dsimp only at h
  split at h
  · rename_i read enabled record htick hrecord
    split at h
    · rw [← Option.some.inj h] at hbusy
      obtain ⟨t, s, ht, rfl, hs, rfl⟩ := hbusy
      rw [pods_setPod] at ht
      by_cases hq : q = pod
      · rw [if_pos hq] at ht
        cases ht
        obtain ⟨d, hd, rfl⟩ := Option.map_eq_some_iff.mp hs
        exact .inr ⟨hq, rfl, record, hrecord, by rw [hd]; rfl⟩
      · rw [if_neg hq] at ht
        exact .inl ⟨hq, t, s, ht, rfl, hs, rfl⟩
    · cases h
  · cases h

/-! ## Runs -/

/-- Only `create` adds a run. -/
theorem runs_step (h : w.step cron workflows op = some w') :
    w'.runs = w.runs ∨ ∃ pod workflow runId outcome run t, op = .create pod workflow runId outcome
      ∧ (w.pods pod).tick = some t ∧ w.Busy pod t.now run.key ∧ w'.runs = w.runs ++ [run]
      ∧ run.key.workflow = workflow ∧ run.createdAt = w.clock := by
  cases op with
  | create pod workflow runId outcome =>
    unfold step at h
    dsimp only at h
    split at h
    · rename_i now enabled key trigger htick
      split at h
      · rename_i hkey
        cases outcome with
        | done | lost =>
          cases h
          exact .inr ⟨pod, workflow, runId, _, ⟨runId, key, w.clock⟩, _, rfl, htick,
            ⟨_, _, htick, rfl, rfl, rfl⟩, rfl, hkey, rfl⟩
        | failed =>
          cases h
          exact .inl rfl
      · cases h
    · cases h
  | claim pod workflow outcome =>
    unfold step at h
    dsimp only at h
    split at h
    · split at h
      · cases outcome with
        | done =>
          dsimp only at h
          split at h
          · cases h
            exact .inl rfl
          · cases h
            exact .inl rfl
        | failed =>
          cases h
          exact .inl rfl
        | lost =>
          cases h
          exact .inl rfl
      · cases h
    · cases h
  | pass d =>
    cases h
    exact .inl rfl
  | restart pod =>
    cases h
    exact .inl rfl
  | tick pod now enabled | endTick pod =>
    unfold step at h
    dsimp only at h
    split at h
    · cases h
      exact .inl rfl
    · cases h
  | resolve pod workflow anchorRead | authority pod workflow granted
  | attach pod workflow outcome =>
    unfold step at h
    dsimp only at h
    split at h
    · split at h
      · cases h
        exact .inl rfl
      · cases h
    · cases h

end Scheduler

open Scheduler

namespace Anchored

variable {s s' : Anchored} {op : SchedulerOp} {ops : List SchedulerOp} {record : WorkflowRecord}

/-- A pod that is at an instant of the workflow has found that the interval has passed since its
anchor. -/
def Counted (secs : Nat) (workflow : WorkflowKey) (s : Anchored) : Prop :=
  ∀ pod now key, s.scheduler.Busy pod now key → key.workflow = workflow →
    ∃ a, s.anchors pod = some a ∧ secs ≤ (numSeconds (now - a)).natAbs

theorem step_eq_some (h : (anchored cron workflows).step s op = some s') :
    s.scheduler.step cron workflows op = some s'.scheduler ∧ s'.anchors = s.note op := by
  obtain ⟨w, hw, rfl⟩ := Option.map_eq_some_iff.mp h
  exact ⟨hw, rfl⟩

/-- The pre-filter of an interval workflow. -/
theorem interval_of_due (hdef : record.definition = some ⟨.schedule none (some dur), true⟩)
    (hdur : parseDurationSecs dur = some secs) (hsecs : 0 < secs) {claims : List Claim}
    {lastFired : Map WorkflowKey Int}
    {now : Int} {anchorRead : Bool}
    (h : (resolve cron claims lastFired now workflow record anchorRead).2.isSome = true) :
    ∃ a, lastFire claims lastFired workflow anchorRead = some a ∧
      secs ≤ (numSeconds (now - a)).natAbs := by
  have hfire : intervalShouldFire dur (lastFire claims lastFired workflow anchorRead) now =
      true := by
    rw [← (prefilter_cases lastFired workflow dur _ now).1]
    unfold resolve at h
    rw [hdef] at h
    cases hchannel : record.channelId with
    | none =>
      rw [hchannel] at h
      cases h
    | some channelId =>
      rw [hchannel] at h
      dsimp only at h
      split at h
      · cases h
      · rename_i hpre
        rw [hpre]
  unfold intervalShouldFire at hfire
  rw [hdur] at hfire
  have hpassed := of_decide_eq_true hfire
  cases hlast : lastFire claims lastFired workflow anchorRead with
  | some a =>
    rw [hlast] at hpassed
    exact ⟨a, rfl, hpassed⟩
  | none =>
    -- without an anchor nothing has passed
    rw [hlast, Option.getD_none, Int.sub_self] at hpassed
    exact absurd hpassed (Nat.not_le.mpr hsecs)

theorem counted_step (hrecord : workflows.lookup workflow = some record)
    (hdef : record.definition = some ⟨.schedule none (some dur), true⟩)
    (hdur : parseDurationSecs dur = some secs)
    (hsecs : 0 < secs) (hs : Counted secs workflow s)
    (h : (anchored cron workflows).step s op = some s') : Counted secs workflow s' := by
  obtain ⟨hstep, hnote⟩ := step_eq_some h
  intro q now key hbusy hkey
  by_cases hop : ∃ pod workflow anchorRead, op = .resolve pod workflow anchorRead
  · obtain ⟨pod, workflow', anchorRead, rfl⟩ := hop
    have hanchors : s'.anchors = Function.update s.anchors pod
        (lastFire s.scheduler.claims (s.scheduler.pods pod).lastFired workflow' anchorRead) := hnote
    rcases busy_resolve hstep hbusy with ⟨hq, hold⟩ | ⟨rfl, rfl, record', hrecord', hdue⟩
    · rw [hanchors, Function.update_of_ne hq]
      exact hs q now key hold hkey
    · rw [hkey] at hrecord' hdue hanchors
      rw [hrecord, Option.some.injEq] at hrecord'
      rw [← hrecord'] at hdue
      rw [hanchors, Function.update_self]
      exact interval_of_due hdef hdur hsecs hdue
  · have hsame : s'.anchors = s.anchors := by
      rw [hnote]
      cases op with
      | resolve pod workflow' anchorRead => exact absurd ⟨pod, workflow', anchorRead, rfl⟩ hop
      | _ => rfl
    rw [hsame]
    exact hs q now key (busy_step (fun pod workflow' anchorRead heq => hop ⟨pod, workflow',
      anchorRead, heq⟩) hstep hbusy) hkey

theorem apart_step (hs : Apart secs workflow s.scheduler.runs) (hcounted : Counted secs workflow s)
    (hfresh : FreshAnchor workflow s op) (h : (anchored cron workflows).step s op = some s') :
    Apart secs workflow s'.scheduler.runs := by
  rcases runs_step (step_eq_some h).1 with hruns |
    ⟨pod, workflow', runId, outcome, run, t, rfl, htick, hbusy, hruns, hkey, hcreated⟩
  · rw [hruns]
    exact hs
  unfold Apart
  rw [hruns, List.filter_append]
  refine List.pairwise_append.mpr ⟨hs, (List.pairwise_singleton _ run).sublist List.filter_sublist,
    ?_⟩
  intro r hr u hu
  obtain ⟨hu, huw⟩ := List.mem_filter.mp hu
  obtain rfl := List.mem_singleton.mp hu
  obtain ⟨hr, hrw⟩ := List.mem_filter.mp hr
  have hworkflow := of_decide_eq_true huw
  obtain ⟨a, ha, hpassed⟩ := hcounted pod t.now u.key hbusy hworkflow
  obtain ⟨hle, hall⟩ := hfresh (hkey.symm.trans hworkflow) t htick a ha
  have hlag := hall r hr (of_decide_eq_true hrw)
  -- whole seconds, rounded towards the anchor
  have hround : numSeconds (t.now - a) = (t.now - a) / 1000000000 :=
    Int.tdiv_eq_ediv_of_nonneg (Int.sub_nonneg_of_le hle)
  rw [hround] at hpassed
  rw [hcreated]
  unfold nanosPerSec
  omega

/-- A run of the scheduler is one that is watched. -/
theorem exists_run {w : Scheduler}
    (h : (Workflow.scheduler cron workflows).run s.scheduler ops = some w) :
    ∃ t, (anchored cron workflows).run s ops = some t ∧ t.scheduler = w := by
  induction ops generalizing s with
  | nil => exact ⟨s, rfl, Option.some.inj h⟩
  | cons op ops ih =>
    obtain ⟨w', hstep, hrest⟩ := Machine.run_cons.mp h
    obtain ⟨t, ht, hw⟩ := @ih ⟨w', s.note op⟩ hrest
    refine ⟨t, Machine.run_cons.mpr ⟨_, ?_, ht⟩, hw⟩
    exact Option.map_eq_some_iff.mpr ⟨w', hstep, rfl⟩

end Anchored

namespace Scheduler

variable {w : Scheduler} {ops : List SchedulerOp} {record : WorkflowRecord}

def exampleWorkflow : WorkflowKey := ⟨FixedBytes.ofNat 16 1, FixedBytes.ofNat 16 2⟩

/-- Every hour. -/
def exampleWorkflows : Workflows :=
  Finmap.singleton exampleWorkflow ⟨some (FixedBytes.ofNat 16 3),
    some ⟨.schedule none (some "1h"), true⟩⟩

/-- A tick that ends with a run. -/
def exampleFire (now : Int) (runId : Nat) : List SchedulerOp :=
  [.tick 0 now [exampleWorkflow], .resolve 0 exampleWorkflow true,
    .authority 0 exampleWorkflow true,
    .claim 0 exampleWorkflow .done, .create 0 exampleWorkflow (FixedBytes.ofNat 16 runId) .done,
    .attach 0 exampleWorkflow .done, .endTick 0]

/-- The first tick, a minute before one o'clock, starts the count; the workflow fires an hour later.
-/
def exampleFirst : List SchedulerOp :=
  [.pass 3540000000000, .tick 0 3540000000000 [exampleWorkflow], .resolve 0 exampleWorkflow true,
    .endTick 0, .pass 3600000000000] ++ exampleFire 7140000000000 1

/-- The pod restarts, and ticks at two o'clock. -/
def exampleSecond : List SchedulerOp :=
  [.restart 0, .pass 60000000000] ++ exampleFire 7200000000000 2

theorem exampleSecond_run : ∃ w,
    (scheduler exampleCron exampleWorkflows).run init (exampleFirst ++ exampleSecond) = some w
      ∧ w.runs.map (fun r => (r.key.workflow, r.createdAt))
        = [(exampleWorkflow, 7140000000000), (exampleWorkflow, 7200000000000)] := ⟨_, rfl, rfl⟩

/-- No restart, and the next hour. -/
def exampleSteady : List SchedulerOp :=
  exampleFirst ++ .pass 3600000000000 :: exampleFire 10740000000000 2

theorem exampleSteady_run :
    ∃ w, (scheduler exampleCron exampleWorkflows).run init exampleSteady = some w
    ∧ w.runs.map Run.createdAt = [7140000000000, 10740000000000] := ⟨_, rfl, rfl⟩

/-- Two instants, two runs. -/
theorem fires_once_two : ∃ w,
    (scheduler exampleCron exampleWorkflows).run init (exampleFirst ++ exampleSecond) = some w
      ∧ FiresOnce w
      ∧ w.runs.map (fun r => (r.key.workflow, r.createdAt))
        = [(exampleWorkflow, 7140000000000), (exampleWorkflow, 7200000000000)] := by
  obtain ⟨w, hw, hruns⟩ := exampleSecond_run
  exact ⟨w, hw, (fires_once hw).1, hruns⟩

end Scheduler

end Pkzz.Workflow
