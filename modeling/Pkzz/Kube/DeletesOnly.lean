import Pkzz.Kube.Deploy
import Pkzz.Lib.Machine

/-!
# A deploy deletes only what it may

A deploy runs against a cluster that answers as it likes, while others write pods. What it owes is
told by its own record of calls and answers: a pod is deleted under the version of a read that
verified it, without a deletion mark, as residue, proven broken or never started with another
intent. The main loop decides on one read. The preflight pass reads a pod again before it deletes it
and looks at its startup only, and the wait for a winner takes a started pod before it looks at the
deletion mark.
-/

namespace Pkzz.Kube

open Pkzz.Lib

/-- A call and its answer. -/
structure Event where
  call : Call
  answer : call.Answer

section Record

variable (identity : AgentIdentity) (desired : String)

/-- The startup that the deploy settled on for a pod it read. -/
def Settled (log : List Event) (pod : Pod) (startup : Startup) : Prop :=
  match decodeStartup pod with
  | .resolved s => startup = s
  | .configErrorPendingSecretCheck name =>
    (startup = .neverStartedRecoverable ∧ ⟨.secretExists name, .ok true⟩ ∈ log) ∨
      (startup = .neverStartedProvablyBroken ∧ ⟨.secretExists name, .ok false⟩ ∈ log)

/-- A pod may be replaced: it is verified, not deletion-marked, and its startup authorises it. -/
def Replaceable (log : List Event) (pod : Pod) : Prop :=
  ∃ startup v, Settled log pod startup ∧ verify pod identity startup = some v ∧
    v.deletionMarked = false ∧ MayReplace startup v.recordedIntent desired

/-- A delete is under the version of a read that authorises it. -/
def Authorised (log : List Event) (fence : Fence) : Prop :=
  ∃ name pod, ⟨.getPod name, .ok (some pod)⟩ ∈ log ∧ Replaceable identity desired log pod ∧
    pod.uid = some fence.uid ∧ pod.resourceVersion = some fence.resourceVersion

def Call.createsPod : Call → Bool
  | .createPod _ => true
  | _ => false

/-- The deploy has not tried to create a pod. -/
def NoCreate (log : List Event) : Prop := ∀ e ∈ log, e.call.createsPod = false

/-- The last read of the pod was verified, without a deletion mark, and started. -/
def Confirmed (log : List Event) (agentId : String) : Prop :=
  ∃ before pod v, log = before ++ [⟨.getPod identity.podName, .ok (some pod)⟩] ∧
    verify pod identity .started = some v ∧ v.name = agentId ∧ v.deletionMarked = false ∧
    decodeStartup pod = .resolved .started

/-- What the reads of two blocks have to show: a terminated pod of the preflight pass is verified
and not deletion-marked, and so is a started winner. -/
def AnswerFits : Block → (c : Call) → c.Answer → Prop
  | .collect _, .getPod _, .ok (some pod) =>
    decodeStartup pod = .resolved .terminated → pod.uid.isSome → pod.resourceVersion.isSome →
      (verify pod identity .terminated).isSome ∧ pod.deletionTimestamp = none
  | .adopting, .getPod _, .ok (some pod) =>
    decodeStartup pod = .resolved .started → (verify pod identity .started).isSome →
      pod.deletionTimestamp = none
  | _, _, _ => True

/-- The record grows with each call. Only a delete has to be authorised. -/
def record (b : Block) : Protocol Call Call.Answer (List Event) where
  onward := Eq
  allowed log c :=
    match c with
    | .deletePod _ fence => Authorised identity desired log fence ∧ NoCreate log
    | _ => True
  answers log c r log' := log' = log ++ [⟨c, r⟩] ∧ AnswerFits identity b c r
  onward_refl _ := rfl
  onward_trans := Eq.trans

/-- What holds of the record where a block begins. -/
def BlockInv (log : List Event) : Block → Prop
  | .start | .preflight | .collect _ => NoCreate log
  | .turn created | .awaiting _ created => created = false → NoCreate log
  | .adopt _ | .adopting | .report _ _ => True

def NextInv (log : List Event) : Next → Prop
  | .inl b => BlockInv log b
  | .inr (.ok agentId) => Confirmed identity log agentId
  | .inr (.error _) => True

end Record

variable {identity : AgentIdentity} {desired : String} {b : Block} {log : List Event} {α β : Type}

/-! ## Rules -/

theorem Keeps.quiet {c : Call} {f : c.Answer → DeployM β} {post : List Event → β → Prop}
    (hc : ∀ name fence, c ≠ .deletePod name fence)
    (h : ∀ r, AnswerFits identity b c r →
      Prog.Keeps (record identity desired b) (f r) post (log ++ [⟨c, r⟩])) :
    Prog.Keeps (record identity desired b) (Prog.ask c >>= f) post log := by
  refine Prog.keeps_ask fun u hu => ⟨?_, fun r v hv => ?_⟩
  · cases c with
    | deletePod name fence => exact absurd rfl (hc name fence)
    | _ => trivial
  · obtain rfl : log = u := hu
    obtain ⟨rfl, hfits⟩ := hv
    exact h r hfits

theorem Keeps.pure {a : α} {post : List Event → α → Prop} (h : post log a) :
    Prog.Keeps (record identity desired b) (Pure.pure a) post log := by
  refine Prog.keeps_pure fun w' hw => ?_
  obtain rfl : log = w' := hw
  exact h

theorem noCreate_nil : NoCreate [] := fun _ he => absurd he List.not_mem_nil

theorem NoCreate.append {events : List Event} (h : NoCreate log) (hevents : NoCreate events) :
    NoCreate (log ++ events) := by
  intro e he
  rcases List.mem_append.mp he with hbefore | hnow
  · exact h e hbefore
  · exact hevents e hnow

theorem noCreate_one {c : Call} {r : c.Answer} (hc : c.createsPod = false) : NoCreate [⟨c, r⟩] := by
  intro e he
  rw [List.mem_singleton.mp he]
  exact hc

theorem NoCreate.push {c : Call} {r : c.Answer} (h : NoCreate log) (hc : c.createsPod = false) :
    NoCreate (log ++ [⟨c, r⟩]) :=
  h.append (noCreate_one hc)

/-- The reads that settle a pod. -/
def SettledBy (log log' : List Event) (pod : Pod) (result : Except String Startup) : Prop :=
  (∃ events, log' = log ++ events ∧ NoCreate events) ∧
    (∀ startup, result = .ok startup → Settled log' pod startup) ∧
    ((∃ s, decodeStartup pod = .resolved s) → log' = log)

theorem keeps_settle {pod : Pod} {post : List Event → Except String Startup → Prop}
    (h : ∀ log' result, SettledBy log log' pod result → post log' result) :
    Prog.Keeps (record identity desired b) (settle pod) post log := by
  unfold settle
  split
  · rename_i startup hdecode
    refine Keeps.pure (h _ _ ⟨⟨[], (List.append_nil _).symm, noCreate_nil⟩, ?_, fun _ => rfl⟩)
    intro s hs
    cases hs
    unfold Settled
    rw [hdecode]
  · rename_i name hdecode
    have hpending : ¬ ∃ s, decodeStartup pod = .resolved s := by
      rintro ⟨s, hs⟩
      rw [hdecode] at hs
      cases hs
    have hgrown : ∀ r, ∃ events, log ++ [⟨.secretExists name, r⟩] = log ++ events ∧
        NoCreate events :=
      fun r => ⟨[⟨.secretExists name, r⟩], rfl, noCreate_one rfl⟩
    have hmem : ∀ r, (⟨.secretExists name, r⟩ : Event) ∈ log ++ [⟨.secretExists name, r⟩] :=
      fun r => List.mem_append_right _ List.mem_cons_self
    refine Keeps.quiet nofun fun r _ => ?_
    cases r with
    | error e =>
      refine Keeps.pure (h _ _ ⟨hgrown _, ?_, fun hs => absurd hs hpending⟩)
      intro s hs
      cases hs
    | ok found =>
      cases found with
      | true =>
        refine Keeps.pure (h _ _ ⟨hgrown _, ?_, fun hs => absurd hs hpending⟩)
        intro s hs
        cases hs
        unfold Settled
        rw [hdecode]
        exact .inl ⟨rfl, hmem _⟩
      | false =>
        refine Keeps.pure (h _ _ ⟨hgrown _, ?_, fun hs => absurd hs hpending⟩)
        intro s hs
        cases hs
        unfold Settled
        rw [hdecode]
        exact .inr ⟨rfl, hmem _⟩

theorem decode_of_settled {pod : Pod} {startup : Startup} (h : Settled log pod startup)
    (hsure : startup = .started ∨ startup = .terminated) :
    decodeStartup pod = .resolved startup := by
  unfold Settled at h
  split at h
  · rename_i s hdecode
    rw [hdecode, h]
  rcases h with ⟨rfl, _⟩ | ⟨rfl, _⟩
  · rcases hsure with h | h
    · cases h
    · cases h
  · rcases hsure with h | h
    · cases h
    · cases h

/-- What the deploy knows of a pod that it observed. -/
structure Observed (identity : AgentIdentity) (b : Block) (log : List Event)
    (v : VerifiedPod) : Prop where
  read : ∃ name pod, ⟨.getPod name, .ok (some pod)⟩ ∈ log ∧ Settled log pod v.startup ∧
    verify pod identity v.startup = some v
  started : v.startup = .started →
    ∃ before pod, log = before ++ [⟨.getPod identity.podName, .ok (some pod)⟩] ∧
    verify pod identity .started = some v ∧ decodeStartup pod = .resolved .started ∧
    AnswerFits identity b (.getPod identity.podName) (.ok (some pod))

/-- More of the record, with no try to create a pod in it. -/
def Grown (log log' : List Event) : Prop := ∃ events, log' = log ++ events ∧ NoCreate events

theorem Grown.noCreate {log' : List Event} (hgrown : Grown log log') (h : NoCreate log) :
    NoCreate log' := by
  obtain ⟨events, rfl, hevents⟩ := hgrown
  exact h.append hevents

theorem grown_one {c : Call} {r : c.Answer} (hc : c.createsPod = false) :
    Grown log (log ++ [⟨c, r⟩]) :=
  ⟨[⟨c, r⟩], rfl, noCreate_one hc⟩

theorem Grown.trans {log' log'' : List Event} (h : Grown log log') (h' : Grown log' log'') :
    Grown log log'' := by
  obtain ⟨events, rfl, hevents⟩ := h
  obtain ⟨events', rfl, hevents'⟩ := h'
  exact ⟨events ++ events', List.append_assoc _ _ _, hevents.append hevents'⟩

theorem keeps_observePod {post : List Event → Except String (Option VerifiedPod) → Prop}
    (h : ∀ log' result, Grown log log' → (∀ v, result = .ok (some v) → Observed identity b log' v) →
      post log' result) :
    Prog.Keeps (record identity desired b) (observePod identity) post log := by
  unfold observePod
  refine Keeps.quiet nofun fun r hfits => ?_
  cases r with
  | error e => exact Keeps.pure (h _ _ (grown_one rfl) nofun)
  | ok read =>
    cases read with
    | none =>
      refine Keeps.pure (h _ _ (grown_one rfl) ?_)
      intro v hv
      cases hv
    | some pod =>
      refine Prog.keeps_bind (keeps_settle fun log' result hsettled => ?_)
      obtain ⟨hgrown, hstartup, hsame⟩ := hsettled
      have hall : Grown log log' := (grown_one rfl).trans hgrown
      cases result with
      | error e => exact Keeps.pure (h _ _ hall nofun)
      | ok startup =>
        refine Keeps.pure (h _ _ hall fun v hv => ?_)
        have hverify : verify pod identity startup = some v := Except.ok.inj hv
        have hsame' := verify_startup hverify
        subst hsame'
        have hsettled := hstartup v.startup rfl
        refine ⟨⟨identity.podName, pod, ?_, hsettled, hverify⟩, fun hstarted => ?_⟩
        · obtain ⟨events, rfl, _⟩ := hgrown
          exact List.mem_append_left _ (List.mem_append_right _ List.mem_cons_self)
        · rw [hstarted] at hsettled hverify
          have hdecode := decode_of_settled hsettled (.inl rfl)
          exact ⟨log, pod, hsame ⟨_, hdecode⟩, hverify, hdecode, hfits⟩

/-! ## The blocks -/

variable {cfg : ProviderConfig}

theorem keeps_delete {name : String} {fence : Fence} {f : Except String DeleteOutcome → DeployM β}
    {post : List Event → β → Prop} (hauthorised : Authorised identity desired log fence)
    (hcreate : NoCreate log)
    (h : ∀ r, Prog.Keeps (record identity desired b) (f r) post
      (log ++ [⟨.deletePod name fence, r⟩])) :
    Prog.Keeps (record identity desired b) (deletePod name fence >>= f) post log := by
  refine Prog.keeps_ask fun u hu => ⟨?_, fun r v hv => ?_⟩
  · obtain rfl : log = u := hu
    exact ⟨hauthorised, hcreate⟩
  · obtain rfl : log = u := hu
    obtain ⟨rfl, _⟩ := hv
    exact h r

theorem Observed.authorised {v : VerifiedPod} (hseen : Observed identity b log v)
    (hmarked : v.deletionMarked = false)
    (hmay : MayReplace v.startup v.recordedIntent desired) :
    Authorised identity desired log v.fence := by
  obtain ⟨name, pod, hread, hsettled, hverify⟩ := hseen.read
  obtain ⟨_, huid, hversion⟩ := verify_fence hverify
  exact ⟨name, pod, hread, ⟨v.startup, v, hsettled, hverify, hmarked, hmay⟩, huid, hversion⟩

theorem keeps_start (hcreate : NoCreate log) :
    Prog.Keeps (record identity desired b) (startBlock cfg) (NextInv identity) log := by
  unfold startBlock
  refine Keeps.quiet nofun fun r _ => ?_
  cases r with
  | error e => exact Keeps.pure trivial
  | ok _ => exact Keeps.pure (hcreate.push rfl)

theorem keeps_settleAll {pods : List Pod} {post : List Event → Except String (List String) → Prop}
    (h : ∀ log' result, Grown log log' → post log' result) :
    Prog.Keeps (record identity desired b) (settleAll pods) post log := by
  induction pods generalizing log post with
  | nil => exact Keeps.pure (h _ _ ⟨[], (List.append_nil _).symm, noCreate_nil⟩)
  | cons pod pods ih =>
    rw [settleAll]
    refine Prog.keeps_bind (keeps_settle fun log' result hsettled => ?_)
    cases result with
    | error e => exact Keeps.pure (h _ _ hsettled.1)
    | ok startup =>
      refine Prog.keeps_bind (ih fun log'' result hgrown => ?_)
      have hall : Grown log log'' := Grown.trans hsettled.1 hgrown
      cases result with
      | error e => exact Keeps.pure (h _ _ hall)
      | ok names => exact Keeps.pure (h _ _ hall)

theorem keeps_preflight (hcreate : NoCreate log) :
    Prog.Keeps (record identity desired b) (preflightBlock identity) (NextInv identity) log := by
  unfold preflightBlock
  refine Keeps.quiet nofun fun r _ => ?_
  have hlisted := hcreate.push (c := .listPods identity.selector) (r := r) rfl
  cases r with
  | error e => exact Keeps.pure fun _ => hlisted
  | ok listed =>
    obtain ⟨pods, serverNow⟩ := listed
    refine Keeps.quiet nofun fun r _ => ?_
    have hboth := hlisted.push (c := .listSecrets identity.selector) (r := r) rfl
    cases r with
    | error e => exact Keeps.pure fun _ => hboth
    | ok secrets =>
      refine Prog.keeps_bind (keeps_settleAll fun log' result hgrown => ?_)
      cases result with
      | error e => exact Keeps.pure fun _ => hgrown.noCreate hboth
      | ok terminated => exact Keeps.pure (hgrown.noCreate hboth)

theorem keeps_collectPods {plan : GcPlan} {names : List String} (hcreate : NoCreate log) :
    Prog.Keeps (record identity desired (.collect plan)) (collectPods names)
      (fun log' _ => NoCreate log') log := by
  induction names generalizing log with
  | nil => exact Keeps.pure hcreate
  | cons name names ih =>
    rw [collectPods]
    refine Keeps.quiet nofun fun r hfits => ?_
    have hread := hcreate.push (c := .getPod name) (r := r) rfl
    cases r with
    | error e => exact Keeps.pure hread
    | ok read =>
      cases read with
      | none => exact ih hread
      | some pod =>
        dsimp only
        split
        · rename_i uid resourceVersion huid hversion
          refine Prog.keeps_bind (keeps_settle fun log' result hsettled => ?_)
          obtain ⟨hgrown, hstartup, _⟩ := hsettled
          have hlog' := Grown.noCreate hgrown hread
          cases result with
          | error e => exact Keeps.pure hlog'
          | ok startup =>
            dsimp only
            split
            · rename_i hterminated
              subst hterminated
              have hsettled := hstartup _ rfl
              -- the read shows a pod that may be deleted
              have hdecode := decode_of_settled hsettled (.inr rfl)
              obtain ⟨hsome, hmark⟩ := hfits hdecode (by rw [huid]; rfl) (by rw [hversion]; rfl)
              obtain ⟨v, hverify⟩ := Option.isSome_iff_exists.mp hsome
              have hmarked : v.deletionMarked =
                  false := by rw [verify_deletionMarked hverify, hmark]; rfl
              obtain ⟨events, rfl, _⟩ := hgrown
              have hmem : (⟨.getPod name, .ok (some pod)⟩ : Event)
                  ∈ (log ++ [⟨.getPod name, .ok (some pod)⟩]) ++ events :=
                List.mem_append_left _ (List.mem_append_right _ List.mem_cons_self)
              refine keeps_delete ⟨name, pod, hmem, ⟨.terminated, v, hsettled, hverify, hmarked,
                .inl rfl⟩, huid, hversion⟩ hlog' fun r => ih (hlog'.push rfl)
            · exact ih hlog'
        · exact ih hread

theorem keeps_collectSecrets {names : List String} (hcreate : NoCreate log) :
    Prog.Keeps (record identity desired b) (collectSecrets names)
      (fun log' _ => NoCreate log') log := by
  induction names generalizing log with
  | nil => exact Keeps.pure hcreate
  | cons name names ih =>
    rw [collectSecrets]
    exact Keeps.quiet nofun fun r _ => ih (hcreate.push rfl)

theorem keeps_collect {plan : GcPlan} (hcreate : NoCreate log) :
    Prog.Keeps (record identity desired (.collect plan)) (collectBlock plan)
      (NextInv identity) log := by
  unfold collectBlock
  refine Prog.keeps_bind ((keeps_collectPods hcreate).mono fun log' whole hlog' => ?_)
  split
  · exact Prog.keeps_bind ((keeps_collectSecrets hlog').mono fun log'' _ hlog'' =>
      Keeps.pure fun _ => hlog'')
  · exact Keeps.pure fun _ => hlog'

theorem keeps_createAttempt :
    Prog.Keeps (record identity desired b) (createAttempt identity cfg desired)
      (NextInv identity) log := by
  unfold createAttempt
  refine Keeps.quiet nofun fun generation _ => Keeps.quiet nofun fun r _ => ?_
  cases r with
  | error e => exact Keeps.pure trivial
  | ok _ =>
    refine Keeps.quiet nofun fun r _ => ?_
    cases r with
    | error e => exact Keeps.pure trivial
    | ok outcome =>
      cases outcome with
      | created => exact Keeps.quiet nofun fun _ _ => Keeps.pure nofun
      | alreadyExists => exact Keeps.pure trivial

theorem keeps_turn {created : Bool} (hcreate : created = false → NoCreate log) :
    Prog.Keeps (record identity desired b) (turnBlock identity cfg desired created)
      (NextInv identity) log := by
  unfold turnBlock
  refine Keeps.quiet nofun fun spent _ => ?_
  split
  · exact Keeps.pure trivial
  refine Prog.keeps_bind (keeps_observePod fun log' result hgrown hseen => ?_)
  have hlog' : created = false → NoCreate log' :=
    fun hnot => Grown.noCreate hgrown ((hcreate hnot).push rfl)
  cases result with
  | error e => exact Keeps.pure trivial
  | ok observed =>
    dsimp only
    split
    · rename_i agentId hclassify
      obtain ⟨v, rfl, hmarked, hname, hstartup⟩ := classify_noOp hclassify
      obtain ⟨before, pod, hlog, hverify, hdecode, _⟩ := (hseen v rfl).started hstartup
      exact Keeps.pure ⟨before, pod, v, hlog, hverify, hname, hmarked, hdecode⟩
    · exact Keeps.quiet nofun fun _ _ => Keeps.pure fun hnot => (hlog' hnot).push rfl
    · exact Keeps.pure trivial
    · exact Keeps.pure hlog'
    · rename_i name fence hclassify
      obtain ⟨v, rfl, hmarked, _, rfl, hmay⟩ := classify_delete hclassify
      split
      · exact Keeps.pure trivial
      rename_i hnot
      have hnot' : created = false := Bool.eq_false_iff.mpr hnot
      refine keeps_delete ((hseen v rfl).authorised hmarked hmay) (hlog' hnot') fun r => ?_
      have hdeleted := fun (_ : created = false) =>
        (hlog' hnot').push (c := .deletePod name v.fence) (r := r) rfl
      cases r with
      | error e => exact Keeps.pure trivial
      | ok outcome =>
        cases outcome with
        | accepted => exact Keeps.pure hdeleted
        | notFound => exact Keeps.pure hdeleted
        | preconditionFailed => exact Keeps.quiet nofun fun _ _ => Keeps.pure fun hnot =>
            (hdeleted hnot).push rfl
    · exact keeps_createAttempt

theorem keeps_awaiting {name : String} {created : Bool} (hcreate : created = false → NoCreate log) :
    Prog.Keeps (record identity desired b) (awaitingBlock name created) (NextInv identity) log := by
  unfold awaitingBlock
  refine Keeps.quiet nofun fun spent _ => ?_
  split
  · exact Keeps.pure trivial
  refine Keeps.quiet nofun fun r _ => ?_
  have hread := fun hnot =>
    ((hcreate hnot).push (c := .elapsed) (r := spent) rfl).push (c := .getPod name) (r := r) rfl
  cases r with
  | error e => exact Keeps.pure trivial
  | ok read =>
    cases read with
    | none => exact Keeps.pure hread
    | some pod => exact Keeps.quiet nofun fun _ _ => Keeps.pure fun hnot => (hread hnot).push rfl

theorem keeps_dropOwnSecret {secret : String} {post : List Event → Unit → Prop}
    (h : ∀ log', post log' ()) :
    Prog.Keeps (record identity desired b) (dropOwnSecret identity secret) post log := by
  unfold dropOwnSecret secretIsReferenced
  refine Prog.keeps_bind (Keeps.quiet nofun fun r _ => ?_)
  cases r with
  | error e => exact Keeps.pure (Keeps.pure (h _))
  | ok listed =>
    refine Keeps.pure ?_
    split
    · exact Keeps.quiet nofun fun _ _ => Keeps.pure (h _)
    · exact Keeps.pure (h _)
    · exact Keeps.pure (h _)

theorem keeps_adopt {own : String} :
    Prog.Keeps (record identity desired b) (adoptBlock identity own) (NextInv identity) log := by
  unfold adoptBlock
  refine Keeps.quiet nofun fun r _ => ?_
  have hdrop : ∀ {log : List Event} (next : Next), (∀ log', NextInv identity log' next) →
      Prog.Keeps (record identity desired b) (dropOwnSecret identity own >>= fun _ => pure next)
        (NextInv identity) log :=
    fun next hnext => Prog.keeps_bind (keeps_dropOwnSecret fun log' => Keeps.pure (hnext log'))
  cases r with
  | error e => exact Keeps.pure trivial
  | ok read =>
    cases read with
    | none => exact hdrop _ fun _ => trivial
    | some pod =>
      refine Prog.keeps_bind (keeps_settle fun log' result _ => ?_)
      cases result with
      | error e => exact Keeps.pure trivial
      | ok startup =>
        dsimp only
        split
        · exact hdrop _ fun _ => trivial
        · exact hdrop _ fun _ => trivial

theorem keeps_adopting :
    Prog.Keeps (record identity desired .adopting) (adoptingBlock identity)
      (NextInv identity) log := by
  unfold adoptingBlock
  refine Keeps.quiet nofun fun spent _ => ?_
  split
  · exact Keeps.pure trivial
  refine Prog.keeps_bind (keeps_observePod fun log' result _ hseen => ?_)
  cases result with
  | error e => exact Keeps.pure trivial
  | ok observed =>
    cases observed with
    | none => exact Keeps.quiet nofun fun _ _ => Keeps.pure trivial
    | some v =>
      dsimp only
      split
      · rename_i hstarted
        obtain ⟨before, pod, hlog, hverify, hdecode, hfits⟩ := (hseen v rfl).started hstarted
        have hmark : pod.deletionTimestamp = none := hfits hdecode (by rw [hverify]; rfl)
        have hmarked : v.deletionMarked = false := by rw [verify_deletionMarked hverify, hmark]; rfl
        exact Keeps.pure ⟨before, pod, v, hlog, hverify, rfl, hmarked, hdecode⟩
      · split
        · exact Keeps.pure trivial
        · split
          · exact Keeps.pure trivial
          · exact Keeps.quiet nofun fun _ _ => Keeps.pure trivial

theorem keeps_report {before after : String} :
    Prog.Keeps (record identity desired b) (reportBlock identity before after)
      (NextInv identity) log := by
  unfold reportBlock latestCondition
  refine Prog.keeps_bind (Keeps.quiet nofun fun r _ => ?_)
  cases r with
  | error e => exact Keeps.pure (Keeps.pure trivial)
  | ok read =>
    cases read with
    | none => exact Keeps.pure (Keeps.pure trivial)
    | some pod => exact Keeps.pure (Keeps.pure trivial)

/-- **Every block deletes only what it may**, and says so to the next. -/
theorem keeps_body (b : Block) (hinv : BlockInv log b) :
    Prog.Keeps (record identity desired b) (body identity cfg desired b)
      (NextInv identity) log := by
  cases b with
  | start => exact keeps_start hinv
  | preflight => exact keeps_preflight hinv
  | collect plan => exact keeps_collect hinv
  | turn created => exact keeps_turn hinv
  | awaiting name created => exact keeps_awaiting hinv
  | adopt own => exact keeps_adopt
  | adopting => exact keeps_adopting
  | report before after => exact keeps_report

end Pkzz.Kube
