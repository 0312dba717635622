import Pkzz.Workflow.Scheduler

/-!
# One run for each instant

The claim table decides who creates the run of an instant. A pod that has won a claim and
not yet created the run is the only one that ever will (`Once`), so no instant has two runs
(`runs_nodup`), whatever pods do in between and wherever they stop.
-/

namespace Pkzz.Workflow

open Pkzz.Core Pkzz.Lib

variable {cron : CronCrate} {workflows : Workflows}

namespace Scheduler

variable {w w' : Scheduler} {op : SchedulerOp} {ops : List SchedulerOp}

/-! ## What a step does -/

/-- The workflow a pod is busy with. -/
def stageOf (w : Scheduler) (pod : Nat) : Option Stage := (w.pods pod).tick.bind Tick.stage

/-- The pod has won a claim, and its run is still to be created. -/
def Owns (w : Scheduler) (pod : Nat) (key : FireKey) : Prop :=
  ∃ stage, w.stageOf pod = some stage ∧ stage.phase = .claimed ∧ stage.key = key

def claimKeys (w : Scheduler) : List FireKey := w.claims.map Claim.key

theorem pods_setPod (w : Scheduler) (pod q : Nat) (p : Pod) :
    (w.setPod pod p).pods q = if q = pod then p else w.pods q := by
  unfold setPod
  by_cases hq : q = pod
  · subst hq
    rw [if_pos rfl]
    exact Function.update_self q p w.pods
  · rw [if_neg hq]
    exact Function.update_of_ne hq p w.pods

/-- Only one pod's stage is another one. -/
def Moves (w w' : Scheduler) (pod : Nat) (stage : Option Stage) : Prop :=
  ∀ q, w'.stageOf q = if q = pod then stage else w.stageOf q

theorem moves_setPod {v : Scheduler} (hpods : v.pods = w.pods) (pod : Nat) (p : Pod) :
    Moves w (v.setPod pod p) pod (p.tick.bind Tick.stage) := by
  intro q
  unfold stageOf
  rw [pods_setPod, hpods]
  split <;> rfl

theorem moves_setStage {v : Scheduler} (hpods : v.pods = w.pods) (pod : Nat) (t : Tick)
    (stage : Option Stage) : Moves w (v.setStage pod t stage) pod stage :=
  moves_setPod hpods pod _

theorem moves_leave {v : Scheduler} (hpods : v.pods = w.pods) (pod : Nat) (t : Tick)
    (stage : Stage) : Moves w (v.leave pod t stage) pod none :=
  moves_setPod hpods pod _

def NotClaimed (stage : Option Stage) : Prop := ∀ s, stage = some s → s.phase ≠ .claimed

theorem notClaimed_none : NotClaimed none := fun _ h => nomatch h

/-- A pod that moves to a stage before the claim or after the run. -/
theorem owns_of_moves {pod q : Nat} {stage : Option Stage} {key : FireKey}
    (h : Moves w w' pod stage)
    (hstage : NotClaimed stage) (howns : w'.Owns q key) : w.Owns q key ∧ q ≠ pod := by
  obtain ⟨s, hs, hphase, hkey⟩ := howns
  rw [h q] at hs
  by_cases hq : q = pod
  · rw [if_pos hq] at hs
    exact absurd hphase (hstage s hs)
  · rw [if_neg hq] at hs
    exact ⟨⟨s, hs, hphase, hkey⟩, hq⟩

theorem claim_keys (claims : List Claim) (key : FireKey) (now : Int) :
    ((claimScheduledWorkflowFire workflows claims key now).2 = true
        ∧ key ∉ claims.map Claim.key
        ∧ (claimScheduledWorkflowFire workflows claims key now).1 = claims ++ [⟨key, now, none⟩])
      ∨ ((claimScheduledWorkflowFire workflows claims key now).2 = false
        ∧ (claimScheduledWorkflowFire workflows claims key now).1 = claims) := by
  unfold claimScheduledWorkflowFire
  cases workflows.lookup key.workflow with
  | none => exact .inr ⟨rfl, rfl⟩
  | some record =>
    dsimp only
    by_cases hany : (claims.any fun c => c.key = key) = true
    · rw [if_pos hany]
      exact .inr ⟨rfl, rfl⟩
    rw [if_neg hany]
    refine .inl ⟨rfl, ?_, rfl⟩
    intro hmem
    obtain ⟨c, hc, hkey⟩ := List.mem_map.mp hmem
    exact hany (List.any_eq_true.mpr ⟨c, hc, decide_eq_true hkey⟩)

theorem attach_keys (claims : List Claim) (key : FireKey) (runId : Uuid) :
    (attachScheduledWorkflowRun claims key runId).map Claim.key = claims.map Claim.key := by
  unfold attachScheduledWorkflowRun
  rw [List.map_map]
  refine List.map_congr_left ?_
  intro c _
  dsimp only [Function.comp]
  split <;> rfl

/-- The three kinds of steps. -/
inductive StepKind (w w' : Scheduler) : Prop
  /-- Neither claims nor runs are added. -/
  | quiet : w'.claimKeys = w.claimKeys → w'.runs = w.runs →
      (∀ p key, w'.Owns p key → w.Owns p key) → StepKind w w'
  | claimed (pod : Nat) (key : FireKey) : key ∉ w.claimKeys → w'.claimKeys = w.claimKeys ++ [key] →
      w'.runs = w.runs → (∀ p k, w'.Owns p k → w.Owns p k ∨ p = pod ∧ k = key) → StepKind w w'
  | created (pod : Nat) (run : Run) : w.Owns pod run.key → run.createdAt = w.clock →
      w'.claimKeys = w.claimKeys → w'.runs = w.runs ++ [run] →
      (∀ p k, w'.Owns p k → w.Owns p k ∧ p ≠ pod) → StepKind w w'

theorem StepKind.of_moves {pod : Nat} {stage : Option Stage} (hclaims : w'.claimKeys = w.claimKeys)
    (hruns : w'.runs = w.runs) (h : Moves w w' pod stage) (hstage : NotClaimed stage) :
    StepKind w w' :=
  .quiet hclaims hruns fun _ _ howns => (owns_of_moves h hstage howns).1

theorem claim_kind {pod : Nat} {workflow : WorkflowKey} {outcome : Outcome}
    (h : w.step cron workflows (.claim pod workflow outcome) = some w') : StepKind w w' := by
  unfold step at h
  dsimp only at h
  split at h
  · rename_i now enabled key trigger htick
    split at h
    · rcases @claim_keys workflows w.claims key w.clock with
        ⟨hwon, hfresh, hclaims⟩ | ⟨hwon, hclaims⟩
      · rw [hwon, hclaims] at h
        cases outcome with
        | done =>
          cases h
          refine .claimed pod key hfresh List.map_append rfl ?_
          intro q k howns
          obtain ⟨s, hs, hphase, hkey⟩ := howns
          have hmoves := moves_setStage (w := w)
            (v := { w with claims := w.claims ++ [⟨key, w.clock, none⟩] }) rfl pod ⟨now,
              enabled, none⟩
            (some ⟨key, trigger, .claimed⟩) q
          by_cases hq : q = pod
          · rw [if_pos hq] at hmoves
            refine .inr ⟨hq, ?_⟩
            rw [← hkey, ← Option.some.inj (hmoves.symm.trans hs)]
          · rw [if_neg hq] at hmoves
            exact .inl ⟨s, hmoves.symm.trans hs, hphase, hkey⟩
        | failed =>
          cases h
          exact .of_moves rfl rfl (moves_setStage rfl _ _ _) notClaimed_none
        | lost =>
          cases h
          refine .claimed pod key hfresh List.map_append rfl ?_
          intro q k howns
          exact .inl (owns_of_moves (moves_setStage rfl _ _ _) notClaimed_none howns).1
      · rw [hwon, hclaims] at h
        cases outcome with
        | done =>
          cases h
          exact .of_moves rfl rfl (moves_leave rfl _ _ _) notClaimed_none
        | failed | lost =>
          cases h
          exact .of_moves rfl rfl (moves_setStage rfl _ _ _) notClaimed_none
    · cases h
  · cases h

theorem create_kind {pod : Nat} {workflow : WorkflowKey} {runId : Uuid} {outcome : Outcome}
    (h : w.step cron workflows (.create pod workflow runId outcome) = some w') : StepKind w w' := by
  unfold step at h
  dsimp only at h
  split at h
  · rename_i now enabled key trigger htick
    have howner : w.Owns pod key :=
      ⟨⟨key, trigger, .claimed⟩, by unfold stageOf; rw [htick]; rfl, rfl, rfl⟩
    split at h
    · cases outcome with
      | done =>
        cases h
        refine .created pod ⟨runId, key, w.clock⟩ howner rfl rfl rfl ?_
        intro q k howns
        refine owns_of_moves (moves_setStage rfl _ _ _) ?_ howns
        intro s hs hphase
        rw [← Option.some.inj hs] at hphase
        cases hphase
      | failed =>
        cases h
        exact .of_moves rfl rfl (moves_setStage rfl _ _ _) notClaimed_none
      | lost =>
        cases h
        refine .created pod ⟨runId, key, w.clock⟩ howner rfl rfl rfl ?_
        intro q k howns
        exact owns_of_moves (moves_setStage rfl _ _ _) notClaimed_none howns
    · cases h
  · cases h

theorem step_kind (h : w.step cron workflows op = some w') : StepKind w w' := by
  cases op with
  | pass d =>
    cases h
    exact .quiet rfl rfl fun _ _ howns => howns
  | tick pod now enabled | endTick pod =>
    unfold step at h
    dsimp only at h
    split at h
    · cases h
      exact .of_moves rfl rfl (moves_setPod rfl _ _) notClaimed_none
    · cases h
  | resolve pod workflow anchorRead =>
    unfold step at h
    dsimp only at h
    split at h
    · split at h
      · cases h
        refine .of_moves rfl rfl (moves_setPod rfl _ _) ?_
        intro s hs hphase
        obtain ⟨d, _, hd⟩ := Option.map_eq_some_iff.mp hs
        rw [← hd] at hphase
        cases hphase
      · cases h
    · cases h
  | authority pod workflow granted =>
    unfold step at h
    dsimp only at h
    split at h
    · split at h
      · cases h
        refine .of_moves rfl rfl (moves_setStage rfl _ _ _) ?_
        intro s hs hphase
        cases granted with
        | true =>
          rw [← Option.some.inj hs] at hphase
          cases hphase
        | false => cases hs
      · cases h
    · cases h
  | claim pod workflow outcome => exact claim_kind h
  | create pod workflow runId outcome => exact create_kind h
  | attach pod workflow outcome =>
    unfold step at h
    dsimp only at h
    split at h
    · split at h
      · cases h
        refine .of_moves ?_ rfl (moves_leave rfl _ _ _) notClaimed_none
        cases outcome with
        | done => exact attach_keys _ _ _
        | failed => rfl
        | lost => exact attach_keys _ _ _
      · cases h
    · cases h
  | restart pod =>
    cases h
    exact .of_moves rfl rfl (moves_setPod rfl _ _) notClaimed_none

/-! ## Every run -/

structure Once (w : Scheduler) : Prop where
  /-- A run has a claim, in the name of its own community. -/
  claimed : ∀ r ∈ w.runs, r.key ∈ w.claimKeys
  /-- A pod that is about to create a run has a claim, and the run is not there yet. -/
  pending : ∀ p key, w.Owns p key → key ∈ w.claimKeys ∧ ∀ r ∈ w.runs, r.key ≠ key
  owner : ∀ p q key, w.Owns p key → w.Owns q key → p = q
  nodup : (w.runs.map Run.key).Nodup

theorem not_owns_init (p : Nat) (key : FireKey) : ¬ init.Owns p key := by
  intro howns
  obtain ⟨s, hs, _⟩ := howns
  cases hs

theorem once_init : Once init where
  claimed := fun _ hr => absurd hr List.not_mem_nil
  pending := fun p key howns => absurd howns (not_owns_init p key)
  owner := fun p _ key howns _ => absurd howns (not_owns_init p key)
  nodup := List.nodup_nil

theorem once_step (hinv : Once w) (h : w.step cron workflows op = some w') : Once w' := by
  cases step_kind h with
  | quiet hclaims hruns howns =>
    refine ⟨?_, ?_, ?_, ?_⟩
    · rw [hclaims, hruns]
      exact hinv.claimed
    · intro p key hp
      rw [hclaims, hruns]
      exact hinv.pending p key (howns p key hp)
    · intro p q key hp hq
      exact hinv.owner p q key (howns p key hp) (howns q key hq)
    · rw [hruns]
      exact hinv.nodup
  | claimed pod key hfresh hclaims hruns howns =>
    -- the key is new, so no run has it and no other pod owns it
    have hother : ∀ p, ¬ w.Owns p key := fun p hp => hfresh (hinv.pending p key hp).1
    refine ⟨?_, ?_, ?_, ?_⟩
    · intro r hr
      rw [hruns] at hr
      rw [hclaims]
      exact List.mem_append_left _ (hinv.claimed r hr)
    · intro p k hp
      rw [hclaims, hruns]
      rcases howns p k hp with hp | ⟨_, rfl⟩
      · exact ⟨List.mem_append_left _ (hinv.pending p k hp).1, (hinv.pending p k hp).2⟩
      · refine ⟨List.mem_append_right _ (List.mem_singleton.mpr rfl), ?_⟩
        intro r hr hkey
        exact hfresh (hkey ▸ hinv.claimed r hr)
    · intro p q k hp hq
      rcases howns p k hp with hp | ⟨hp, hkey⟩
      · rcases howns q k hq with hq | ⟨_, hkey⟩
        · exact hinv.owner p q k hp hq
        · exact absurd (hkey ▸ hp) (hother p)
      · rcases howns q k hq with hq | ⟨hq, _⟩
        · exact absurd (hkey ▸ hq) (hother q)
        · rw [hp, hq]
    · rw [hruns]
      exact hinv.nodup
  | created pod run howner _ hclaims hruns howns =>
    refine ⟨?_, ?_, ?_, ?_⟩
    · intro r hr
      rw [hruns, List.mem_append] at hr
      rw [hclaims]
      rcases hr with hr | hr
      · exact hinv.claimed r hr
      · rw [List.mem_singleton.mp hr]
        exact (hinv.pending pod run.key howner).1
    · intro p key hp
      obtain ⟨hp, hne⟩ := howns p key hp
      rw [hclaims]
      refine ⟨(hinv.pending p key hp).1, ?_⟩
      intro r hr
      rw [hruns, List.mem_append] at hr
      rcases hr with hr | hr
      · exact (hinv.pending p key hp).2 r hr
      · intro hkey
        rw [List.mem_singleton.mp hr] at hkey
        exact hne (hinv.owner p pod key hp (hkey ▸ howner))
    · intro p q key hp hq
      exact hinv.owner p q key (howns p key hp).1 (howns q key hq).1
    · rw [hruns, List.map_append]
      refine hinv.nodup.append (List.nodup_singleton _) (List.disjoint_singleton.mpr ?_)
      intro hmem
      obtain ⟨r, hr, hkey⟩ := List.mem_map.mp hmem
      exact (hinv.pending pod run.key howner).2 r hr hkey

theorem once_run (h : (scheduler cron workflows).run init ops = some w) : Once w :=
  Machine.invariant (I := Once) (fun _ _ _ hinv _ hstep => once_step hinv hstep) once_init
    Machine.always_true h

end Scheduler

end Pkzz.Workflow
