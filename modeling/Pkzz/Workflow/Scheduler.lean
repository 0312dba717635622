import Pkzz.Workflow.Coverage
import Pkzz.Lib.Machine

/-!
# The scheduler loop

`WorkflowEngine::run` on any number of pods over one database: the table of claims
(`scheduled_workflow_fires`) and the runs. A tick reads the pod's clock once and goes through
the enabled workflows one after the other. For each it resolves the instant that is due,
checks the owner's authority, claims the instant, creates the run and attaches it to the
claim; each of these is a step of the machine, so that pods interleave between them. A call
of the database may fail with nothing done, or fail although it was done, and a pod may
restart at any point.
-/

namespace Pkzz.Workflow

open Pkzz.Core Pkzz.Lib

/-! ## Workflows -/

inductive TriggerDef where
  | messagePosted
  | reactionAdded
  | diffPosted
  | schedule (cron interval : Option String)
  | webhook

structure WorkflowDef where
  trigger : TriggerDef
  enabled : Bool

structure WorkflowRecord where
  channelId : Option Uuid
  /-- Absent when it cannot be parsed. -/
  definition : Option WorkflowDef

/-- The table `workflows`, keyed by community and id. -/
abbrev Workflows := Map WorkflowKey WorkflowRecord

/-! ## The database -/

structure FireKey where
  workflow : WorkflowKey
  scheduledFor : Int
  deriving DecidableEq

structure Claim where
  key : FireKey
  claimedAt : Int
  workflowRunId : Option Uuid

structure Run where
  id : Uuid
  key : FireKey
  createdAt : Int

/-- `claim_scheduled_workflow_fire`: `INSERT … ON CONFLICT DO NOTHING RETURNING`. -/
def claimScheduledWorkflowFire (workflows : Workflows) (claims : List Claim) (key : FireKey)
    (now : Int) : List Claim × Bool :=
  match workflows.lookup key.workflow with
  | some _ =>
    if claims.any fun c => c.key = key then (claims, false)
    else (claims ++ [⟨key, now, none⟩], true)
  | none => (claims, false)

/-- `SELECT MAX(scheduled_for)`. -/
def latestScheduledWorkflowFire (claims : List Claim) (workflow : WorkflowKey) : Option Int :=
  ((claims.filter fun c => c.key.workflow = workflow).map fun c => c.key.scheduledFor).max?

def attachScheduledWorkflowRun (claims : List Claim) (key : FireKey) (runId : Uuid) : List Claim :=
  claims.map fun c =>
    if c.key = key ∧ c.workflowRunId = none then { c with workflowRunId := some runId } else c

/-! ## A pod -/

inductive TriggerType where
  | cron
  | interval
  deriving DecidableEq

inductive Phase where
  /-- The instant is resolved. -/
  | due
  | authorized
  /-- The claim is won. -/
  | claimed
  | created (runId : Uuid)

/-- The workflow a tick is busy with. -/
structure Stage where
  key : FireKey
  trigger : TriggerType
  phase : Phase

structure Tick where
  now : Int
  /-- What `list_all_enabled_workflows` returned. -/
  workflows : List WorkflowKey
  stage : Option Stage

structure Pod where
  lastFired : Map WorkflowKey Int
  /-- Absent while the loop sleeps. -/
  tick : Option Tick

def Pod.start : Pod := ⟨∅, none⟩

/-- The anchor of an interval workflow, in memory or in the database. -/
def lastFire (claims : List Claim) (lastFired : Map WorkflowKey Int) (workflow : WorkflowKey)
    (anchorRead : Bool) : Option Int :=
  match lastFired.lookup workflow with
  | some t => some t
  -- a failed read leaves no anchor
  | none => if anchorRead then latestScheduledWorkflowFire claims workflow else none

/-- The instant that is due for a workflow, and the anchors after the pre-filter. -/
def resolve (cron : CronCrate) (claims : List Claim) (lastFired : Map WorkflowKey Int) (now : Int)
    (workflow : WorkflowKey) (record : WorkflowRecord) (anchorRead : Bool) :
    Map WorkflowKey Int × Option (Int × TriggerType) :=
  match record.definition, record.channelId with
  | some ⟨.schedule (some expr) none, true⟩, some _ =>
    (lastFired, (cronFireInstant cron expr now windowSecs).map fun t => (t, .cron))
  | some ⟨.schedule none (some dur), true⟩, some _ =>
    let last := lastFire claims lastFired workflow anchorRead
    match intervalPrefilterShouldFire lastFired workflow dur last now with
    | (lastFired, false) => (lastFired, none)
    | (lastFired, true) => (lastFired, (intervalFireInstant dur now).map fun t => (t, .interval))
  | _, _ => (lastFired, none)

/-! ## The machine -/

/-- How a call of the database ends. -/
inductive Outcome where
  | done
  | failed
  /-- It was done, and the answer was lost. -/
  | lost

structure Scheduler where
  clock : Int
  claims : List Claim
  runs : List Run
  pods : Nat → Pod

inductive SchedulerOp where
  | pass (d : Nat)
  /-- A pod wakes up and reads its own clock. -/
  | tick (pod : Nat) (now : Int) (workflows : List WorkflowKey)
  | resolve (pod : Nat) (workflow : WorkflowKey) (anchorRead : Bool)
  | authority (pod : Nat) (workflow : WorkflowKey) (granted : Bool)
  | claim (pod : Nat) (workflow : WorkflowKey) (outcome : Outcome)
  | create (pod : Nat) (workflow : WorkflowKey) (runId : Uuid) (outcome : Outcome)
  | attach (pod : Nat) (workflow : WorkflowKey) (outcome : Outcome)
  /-- All workflows are done, and stale anchors are pruned. -/
  | endTick (pod : Nat)
  | restart (pod : Nat)

/-- The community whose workflow a step is for. -/
def SchedulerOp.communityId : SchedulerOp → Option Uuid
  | resolve _ workflow _ | authority _ workflow _ | claim _ workflow _ | create _ workflow _ _
  | attach _ workflow _ => some workflow.communityId
  | pass _ | tick _ _ _ | endTick _ | restart _ => none

namespace Scheduler

def init : Scheduler := ⟨0, [], [], fun _ => Pod.start⟩

def setPod (w : Scheduler) (pod : Nat) (p : Pod) : Scheduler :=
  { w with pods := Function.update w.pods pod p }

/-- The pod goes on to another phase, or leaves the workflow. -/
def setStage (w : Scheduler) (pod : Nat) (t : Tick) (stage : Option Stage) : Scheduler :=
  w.setPod pod { w.pods pod with tick := some { t with stage } }

/-- An interval workflow counts from this tick. -/
def anchor (lastFired : Map WorkflowKey Int) (stage : Stage) (now : Int) : Map WorkflowKey Int :=
  match stage.trigger with
  | .interval => lastFired.insert stage.key.workflow now
  | .cron => lastFired

/-- The pod leaves the workflow, which counts from this tick. -/
def leave (w : Scheduler) (pod : Nat) (t : Tick) (stage : Stage) : Scheduler :=
  w.setPod pod ⟨anchor (w.pods pod).lastFired stage t.now, some { t with stage := none }⟩

def step (cron : CronCrate) (workflows : Workflows) (w : Scheduler) : SchedulerOp → Option Scheduler
  | .pass d => some { w with clock := w.clock + d }
  | .tick pod now enabled =>
    match (w.pods pod).tick with
    | none => some (w.setPod pod { w.pods pod with tick := some ⟨now, enabled, none⟩ })
    | some _ => none
  | .resolve pod workflow anchorRead =>
    match (w.pods pod).tick, workflows.lookup workflow with
    | some ⟨now, enabled, none⟩, some record =>
      if workflow ∈ enabled then
        let (lastFired, due) :=
          Workflow.resolve cron w.claims (w.pods pod).lastFired now workflow record anchorRead
        some (w.setPod pod ⟨lastFired,
          some ⟨now, enabled, due.map fun d => ⟨⟨workflow, d.1⟩, d.2, .due⟩⟩⟩)
      else none
    | _, _ => none
  | .authority pod workflow granted =>
    match (w.pods pod).tick with
    | some ⟨now, enabled, some ⟨key, trigger, .due⟩⟩ =>
      if key.workflow = workflow then
        some (w.setStage pod ⟨now, enabled, none⟩
          (if granted then some ⟨key, trigger, .authorized⟩ else none))
      else none
    | _ => none
  | .claim pod workflow outcome =>
    match (w.pods pod).tick with
    | some ⟨now, enabled, some ⟨key, trigger, .authorized⟩⟩ =>
      if key.workflow = workflow then
        let (claims, won) := claimScheduledWorkflowFire workflows w.claims key w.clock
        match outcome with
        | .done =>
          let w := { w with claims }
          if won then some (w.setStage pod ⟨now, enabled, none⟩ (some ⟨key, trigger, .claimed⟩))
          else some (w.leave pod ⟨now, enabled, none⟩ ⟨key, trigger, .authorized⟩)
        | .failed => some (w.setStage pod ⟨now, enabled, none⟩ none)
        | .lost => some ({ w with claims }.setStage pod ⟨now, enabled, none⟩ none)
      else none
    | _ => none
  | .create pod workflow runId outcome =>
    match (w.pods pod).tick with
    | some ⟨now, enabled, some ⟨key, trigger, .claimed⟩⟩ =>
      if key.workflow = workflow then
        let runs := w.runs ++ [⟨runId, key, w.clock⟩]
        match outcome with
        | .done =>
          some ({ w with runs }.setStage pod ⟨now, enabled,
            none⟩ (some ⟨key, trigger, .created runId⟩))
        -- the claim stays, and the instant is not fired again
        | .failed => some (w.setStage pod ⟨now, enabled, none⟩ none)
        | .lost => some ({ w with runs }.setStage pod ⟨now, enabled, none⟩ none)
      else none
    | _ => none
  | .attach pod workflow outcome =>
    match (w.pods pod).tick with
    | some ⟨now, enabled, some ⟨key, trigger, .created runId⟩⟩ =>
      if key.workflow = workflow then
        let claims :=
          match outcome with
          | .failed => w.claims
          | .done | .lost => attachScheduledWorkflowRun w.claims key runId
        some ({ w with claims }.leave pod ⟨now, enabled, none⟩ ⟨key, trigger, .created runId⟩)
      else none
    | _ => none
  | .endTick pod =>
    match (w.pods pod).tick with
    | some ⟨_, enabled, none⟩ =>
      some (w.setPod pod ⟨Map.filter (w.pods pod).lastFired fun k _ => k ∈ enabled, none⟩)
    | _ => none
  | .restart pod => some (w.setPod pod Pod.start)

end Scheduler

/-- The pods of a deployment, on one database. -/
def scheduler (cron : CronCrate) (workflows : Workflows) : Machine Scheduler SchedulerOp where
  step := Scheduler.step cron workflows

end Pkzz.Workflow
