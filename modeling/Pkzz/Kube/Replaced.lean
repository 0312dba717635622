import Pkzz.Kube.DeletesOnly

/-!
# What a deploy removes

The cluster under a deploy: the pods by name and every version of a pod that was ever written, where
a uid and a resource version belong to one version only. Others write and remove pods between the
calls of the deploy. A read is answered with any versions, current or not, or fails; a fenced delete
removes the current pod only at the very version of its fence; and a call whose answer is an error
may have landed all the same.
-/

namespace Pkzz.Kube

open Pkzz.Lib

structure Cluster where
  pods : Map String Pod
  versions : List Pod
  current : ∀ name pod, pods.lookup name = some pod → pod ∈ versions
  unique : ∀ p ∈ versions, ∀ q ∈ versions, p.uid = q.uid →
    p.resourceVersion = q.resourceVersion → p = q

namespace Cluster

/-- No version has this uid and resource version. -/
def Fresh (c : Cluster) (pod : Pod) : Prop :=
  ∀ q ∈ c.versions, ¬ (q.uid = pod.uid ∧ q.resourceVersion = pod.resourceVersion)

instance (c : Cluster) (pod : Pod) : Decidable (c.Fresh pod) := List.decidableBAll _ _

/-- A new version of the pod of a name. -/
def write (c : Cluster) (name : String) (pod : Pod) (hfresh : c.Fresh pod) : Cluster where
  pods := c.pods.insert name pod
  versions := c.versions ++ [pod]
  current := by
    intro n q hq
    rw [Map.lookup_insert_eq] at hq
    split at hq
    · cases hq
      exact List.mem_append_right _ List.mem_cons_self
    · exact List.mem_append_left _ (c.current n q hq)
  unique := by
    intro p hp q hq huid hversion
    rcases List.mem_append.mp hp with hold | hnew
    · rcases List.mem_append.mp hq with hold' | hnew'
      · exact c.unique p hold q hold' huid hversion
      · rw [List.mem_singleton.mp hnew'] at huid hversion
        exact absurd ⟨huid, hversion⟩ (hfresh p hold)
    · rw [List.mem_singleton.mp hnew] at huid hversion ⊢
      rcases List.mem_append.mp hq with hold' | hnew'
      · exact absurd ⟨huid.symm, hversion.symm⟩ (hfresh q hold')
      · exact (List.mem_singleton.mp hnew').symm

def remove (c : Cluster) (name : String) : Cluster where
  pods := c.pods.erase name
  versions := c.versions
  current := by
    intro n q hq
    rw [Map.lookup_erase_eq] at hq
    split at hq
    · cases hq
    · exact c.current n q hq
  unique := c.unique

/-- The answers to reads are versions that were written. -/
def Honest (c : Cluster) : (call : Call) → call.Answer → Prop
  | .getPod _, .ok (some pod) => pod ∈ c.versions
  | .listPods _, .ok (pods, _) => ∀ pod ∈ pods, pod ∈ c.versions
  | _, _ => True

instance (c : Cluster) (call : Call) (r : call.Answer) : Decidable (c.Honest call r) := by
  unfold Honest
  split
  · infer_instance
  · exact List.decidableBAll _ _
  · infer_instance

end Cluster

/-- A deploy and the cluster under it; what it removed and what it created. -/
structure DeployRun where
  cluster : Cluster
  process : Process
  log : List Event
  removed : List Pod
  created : List Pod

inductive DeployMove where
  /-- Another writes a version of a pod. -/
  | write (name : String) (pod : Pod)
  /-- Another removes a pod, or its grace period is over. -/
  | vanish (name : String)
  /-- The deploy's next call is answered. `landed` is whether it took effect in spite of an error; a
  pod that it creates is given a uid and a resource version. -/
  | answer (oracle : (c : Call) → c.Answer) (landed : Bool) (uid resourceVersion : String)

namespace DeployRun

variable (identity : AgentIdentity) (cfg : ProviderConfig) (desired : String)

/-- Whether a create took effect. -/
def creates (landed : Bool) : Except String CreateOutcome → Bool
  | .ok .created => true
  | .ok .alreadyExists => false
  | .error _ => landed

/-- Whether a delete took effect. -/
def deletes (landed : Bool) : Except String DeleteOutcome → Bool
  | .ok .accepted => true
  | .ok _ => false
  | .error _ => landed

/-- The pod gets its uid and its first resource version. -/
def createLands (s : DeployRun) (pod : Pod) (uid resourceVersion : String) : Option DeployRun :=
  let written := { pod with uid := some uid, resourceVersion := some resourceVersion }
  let name := pod.name.getD ""
  if hfresh : s.cluster.Fresh written ∧ s.cluster.pods.lookup name = none ∧
    ∀ q ∈ s.cluster.versions, q.uid ≠ some uid then
    some { s with
      cluster := s.cluster.write name written hfresh.1, created := s.created ++ [written] }
  else none

/-- Only the very version of the fence is removed. -/
def deleteLands (s : DeployRun) (name : String) (fence : Fence) : Option DeployRun :=
  match s.cluster.pods.lookup name with
  | none => none
  | some pod =>
    if pod.uid = some fence.uid ∧ pod.resourceVersion = some fence.resourceVersion then
      some { s with cluster := s.cluster.remove name, removed := s.removed ++ [pod] }
    else none

/-- What the cluster does on a call. -/
def lands (s : DeployRun) (landed : Bool) (uid resourceVersion : String) : (c : Call) → c.Answer →
    Option DeployRun
  | .createPod pod, r => if creates landed r then s.createLands pod uid resourceVersion else some s
  | .deletePod name fence, r => if deletes landed r then s.deleteLands name fence else some s
  | _, _ => some s

/-- A deploy whose block is done begins the next. -/
def begins (s : DeployRun) : Next → DeployRun
  | .inl b => { s with process := .running b (body identity cfg desired b) }
  | .inr result => { s with process := .finished result }

def step (s : DeployRun) : DeployMove → Option DeployRun
  | .write name pod =>
    if hfresh : s.cluster.Fresh pod then
      some { s with cluster := s.cluster.write name pod hfresh } else none
  | .vanish name => some { s with cluster := s.cluster.remove name }
  | .answer oracle landed uid resourceVersion =>
    match s.process with
    | .finished _ => none
    | .running _ (.done next) => some (s.begins identity cfg desired next)
    | .running b (.call c next) =>
      if s.cluster.Honest c (oracle c) then
        (s.lands landed uid resourceVersion c (oracle c)).map fun s =>
          { s with process := .running b (next (oracle c)), log := s.log ++ [⟨c, oracle c⟩] }
      else none

def machine : Machine DeployRun DeployMove := ⟨step identity cfg desired⟩

/-- Nothing has been called. -/
def start (cluster : Cluster) : DeployRun := ⟨cluster, .start cfg, [], [], []⟩

/-- What the reads of the preflight pass and of the wait for a winner have to show. -/
def FitsMove (s : DeployRun) : DeployMove → Prop
  | .answer oracle _ _ _ =>
    match s.process with
    | .running b (.call c _) => AnswerFits identity b c (oracle c)
    | _ => True
  | _ => True

/-- **A deploy deletes only what it may.** -/
structure DeletesOnly (s : DeployRun) : Prop where
  /-- Each delete is under a version of a pod that had been read and may be replaced. -/
  authorised : ∀ before after name fence r, s.log = before ++ ⟨.deletePod name fence, r⟩ :: after →
    Authorised identity desired before fence
  /-- What was removed might be replaced. -/
  removed : ∀ pod ∈ s.removed, Replaceable identity desired s.log pod
  not_foreign : ∀ pod ∈ s.removed, (verify pod identity .started).isSome
  not_started : ∀ pod ∈ s.removed, decodeStartup pod ≠ .resolved .started
  not_matching : ∀ pod ∈ s.removed, decodeStartup pod = .resolved .neverStartedRecoverable →
    pod.annotations.bind (·.lookup annotationCreateIntent) ≠ some desired
  /-- No pod of this call was removed by it. -/
  not_own : ∀ pod ∈ s.removed, ∀ mine ∈ s.created, pod.uid ≠ mine.uid
  confirmed : ∀ agentId, s.process = .finished (.ok agentId) → Confirmed identity s.log agentId

/-! ## What every step keeps -/

def ProcessInv (log : List Event) : Process → Prop
  | .running b rest => Prog.Keeps (record identity desired b) rest (NextInv identity) log
  | .finished (.ok agentId) => Confirmed identity log agentId
  | .finished (.error _) => True

structure Inv (s : DeployRun) : Prop where
  process : ProcessInv identity desired s.log s.process
  reads : ∀ name pod, (⟨.getPod name, .ok (some pod)⟩ : Event) ∈ s.log → pod ∈ s.cluster.versions
  authorised : ∀ before after name fence r, s.log = before ++ ⟨.deletePod name fence, r⟩ :: after →
    Authorised identity desired before fence
  removed : ∀ pod ∈ s.removed, Replaceable identity desired s.log pod ∧ pod ∈ s.cluster.versions
  created : NoCreate s.log → s.created = []
  apart : ∀ pod ∈ s.removed, ∀ mine ∈ s.created, pod.uid ≠ mine.uid

variable {identity cfg desired} {s s' : DeployRun}

theorem settled_append {log : List Event} {pod : Pod} {startup : Startup} (events : List Event)
    (h : Settled log pod startup) : Settled (log ++ events) pod startup := by
  unfold Settled at h ⊢
  split
  · rename_i s hdecode
    rw [hdecode] at h
    exact h
  rename_i name hdecode
  rw [hdecode] at h
  rcases h with ⟨hstartup, hmem⟩ | ⟨hstartup, hmem⟩
  · exact .inl ⟨hstartup, List.mem_append_left _ hmem⟩
  · exact .inr ⟨hstartup, List.mem_append_left _ hmem⟩

theorem replaceable_append {log : List Event} {pod : Pod} (events : List Event)
    (h : Replaceable identity desired log pod) :
    Replaceable identity desired (log ++ events) pod := by
  obtain ⟨startup, v, hsettled, hverify, hmarked, hmay⟩ := h
  exact ⟨startup, v, settled_append events hsettled, hverify, hmarked, hmay⟩

/-- A list that ends with one event, cut at an event. -/
theorem cut_push {log before after : List Event} {e e' : Event}
    (h : log ++ [e] = before ++ e' :: after) :
    (∃ rest, log = before ++ e' :: rest) ∨ (log = before ∧ e = e') := by
  rcases List.eq_nil_or_concat after with rfl | ⟨rest, last, rfl⟩
  · obtain ⟨hlog, he⟩ := List.append_inj' h rfl
    exact .inr ⟨hlog, (List.cons.inj he).1⟩
  have hassoc : before ++ e' :: (rest ++ [last]) = (before ++ e' :: rest) ++ [last] := by
    rw [List.append_assoc, List.cons_append]
  rw [List.concat_eq_append, hassoc] at h
  exact .inl ⟨rest, (List.append_inj' h rfl).1⟩

/-- What the others do to the cluster changes nothing of the deploy. -/
theorem Inv.cluster {c : Cluster} (hs : Inv identity desired s)
    (hversions : ∀ p ∈ s.cluster.versions, p ∈ c.versions) :
    Inv identity desired { s with cluster := c } where
  process := hs.process
  reads := fun name pod hmem => hversions pod (hs.reads name pod hmem)
  authorised := hs.authorised
  removed := fun pod hpod => ⟨(hs.removed pod hpod).1, hversions pod (hs.removed pod hpod).2⟩
  created := hs.created
  apart := hs.apart

/-- The next block begins, or the deploy is done. -/
theorem inv_begins {b : Block} {next : Next} (hs : Inv identity desired s)
    (hprocess : s.process = .running b (.done next)) :
    Inv identity desired (s.begins identity cfg desired next) := by
  have hnext : NextInv identity s.log next := by
    have hkeeps := hs.process
    rw [hprocess] at hkeeps
    exact Prog.Keeps.result hkeeps
  cases next with
  | inl b' =>
    refine ⟨?_, hs.reads, hs.authorised, hs.removed, hs.created, hs.apart⟩
    exact keeps_body b' hnext
  | inr result =>
    refine ⟨?_, hs.reads, hs.authorised, hs.removed, hs.created, hs.apart⟩
    cases result with
    | error e => trivial
    | ok agentId => exact hnext

/-- What landing a call does to the cluster and to what the deploy removed and created. -/
structure Landed (s s' : DeployRun) (c : Call) : Prop where
  log : s'.log = s.log
  versions : ∀ p ∈ s.cluster.versions, p ∈ s'.cluster.versions
  removed : s'.removed = s.removed ∨ ∃ name fence pod, c = .deletePod name fence ∧
    s'.removed = s.removed ++ [pod] ∧
    pod ∈ s.cluster.versions ∧ pod.uid = some fence.uid ∧
      pod.resourceVersion = some fence.resourceVersion
  created : s'.created = s.created ∨ ∃ pod uid, c.createsPod = true ∧
    s'.created = s.created ++ [pod] ∧
    pod.uid = some uid ∧ ∀ q ∈ s.cluster.versions, q.uid ≠ some uid

theorem landed_refl {c : Call} : Landed s s c := ⟨rfl, fun _ hp => hp, .inl rfl, .inl rfl⟩

theorem landed_create {pod : Pod} {uid resourceVersion : String}
    (h : s.createLands pod uid resourceVersion = some s') : Landed s s' (.createPod pod) := by
  unfold createLands at h
  dsimp only at h
  split at h
  · rename_i hfresh
    cases h
    exact ⟨rfl, fun _ hp => List.mem_append_left _ hp, .inl rfl,
      .inr ⟨_, uid, rfl, rfl, rfl, hfresh.2.2⟩⟩
  · cases h

theorem landed_delete {name : String} {fence : Fence} (h : s.deleteLands name fence = some s') :
    Landed s s' (.deletePod name fence) := by
  unfold deleteLands at h
  split at h
  · cases h
  rename_i pod hpod
  split at h
  · rename_i hsame
    cases h
    exact ⟨rfl, fun _ hp => hp, .inr ⟨name, fence, pod, rfl, rfl, s.cluster.current name pod hpod,
      hsame.1, hsame.2⟩, .inl rfl⟩
  · cases h

theorem landed_of_lands {landed : Bool} {uid resourceVersion : String} {c : Call} {r : c.Answer}
    (h : s.lands landed uid resourceVersion c r = some s') : Landed s s' c := by
  unfold lands at h
  split at h
  · split at h
    · exact landed_create h
    · cases h
      exact landed_refl
  · split at h
    · exact landed_delete h
    · cases h
      exact landed_refl
  · cases h
    exact landed_refl

/-- The current pod of a fence is the version that was read. -/
theorem replaceable_of_fence {pod : Pod} {fence : Fence} (hs : Inv identity desired s)
    (hauthorised : Authorised identity desired s.log fence) (hpod : pod ∈ s.cluster.versions)
    (huid : pod.uid = some fence.uid)
    (hversion : pod.resourceVersion = some fence.resourceVersion) :
    Replaceable identity desired s.log pod := by
  obtain ⟨name, seen, hread, hreplaceable, huid', hversion'⟩ := hauthorised
  have hseen : seen ∈ s.cluster.versions := hs.reads name seen hread
  obtain rfl : pod = seen :=
    s.cluster.unique pod hpod seen hseen (huid.trans huid'.symm) (hversion.trans hversion'.symm)
  exact hreplaceable

theorem inv_call {b : Block} {c : Call} {next : c.Answer → DeployM Next} {r : c.Answer}
    (hs : Inv identity desired s)
    (hprocess : s.process = .running b (.call c next)) (hhonest : s.cluster.Honest c r)
    (hfits : AnswerFits identity b c r) (hlanded : Landed s s' c) :
    Inv identity desired { s' with process := .running b (next r), log := s'.log ++ [⟨c, r⟩] } := by
  have hkeeps := hs.process
  rw [hprocess] at hkeeps
  obtain ⟨hallowed, hnext⟩ := Prog.Keeps.call hkeeps
  -- the block may call only what its guard allows
  have hpermit : ∀ name fence, c = .deletePod name fence → Authorised identity desired s.log fence ∧
      NoCreate s.log := by
    rintro name fence rfl
    exact hallowed
  obtain ⟨hlog, hversions, hremoved, hcreated⟩ := hlanded
  refine ⟨?_, ?_, ?_, ?_, ?_, ?_⟩
  · dsimp only
    rw [hlog]
    exact hnext r _ ⟨rfl, hfits⟩
  · intro name pod hmem
    dsimp only at hmem ⊢
    rw [hlog] at hmem
    rcases List.mem_append.mp hmem with hbefore | hnow
    · exact hversions pod (hs.reads name pod hbefore)
    · cases List.mem_singleton.mp hnow
      exact hversions pod hhonest
  · intro before after name fence answer heq
    dsimp only at heq
    rw [hlog] at heq
    rcases cut_push heq with ⟨rest, hcut⟩ | ⟨rfl, hevent⟩
    · exact hs.authorised before rest name fence answer hcut
    · cases hevent
      exact (hpermit name fence rfl).1
  · intro pod hpod
    dsimp only at hpod ⊢
    rw [hlog]
    -- what is removed had the fence the deploy read
    rcases hremoved with hsame | ⟨name, fence, gone, hc, hgone, hversion, huid, hrv⟩
    · rw [hsame] at hpod
      exact ⟨replaceable_append _ (hs.removed pod hpod).1, hversions pod (hs.removed pod hpod).2⟩
    rw [hgone] at hpod
    rcases List.mem_append.mp hpod with hbefore | hnow
    · exact ⟨replaceable_append _ (hs.removed pod hbefore).1,
        hversions pod (hs.removed pod hbefore).2⟩
    · rw [List.mem_singleton.mp hnow]
      exact ⟨replaceable_append _
        (replaceable_of_fence hs (hpermit name fence hc).1 hversion huid hrv),
        hversions gone hversion⟩
  · intro hnone
    dsimp only at hnone ⊢
    rw [hlog] at hnone
    have hbefore : NoCreate s.log := fun e he => hnone e (List.mem_append_left _ he)
    have hnow : c.createsPod = false := hnone ⟨c, r⟩ (List.mem_append_right _ List.mem_cons_self)
    rcases hcreated with hsame | ⟨_, _, hcreates, _⟩
    · rw [hsame]
      exact hs.created hbefore
    · rw [hnow] at hcreates
      cases hcreates
  · intro pod hpod mine hmine
    dsimp only at hpod hmine
    rcases hremoved with hsame | ⟨name, fence, gone, hc, hgone, _⟩
    · rw [hsame] at hpod
      rcases hcreated with hold | ⟨made, uid, _, hnew, huid, hfresh⟩
      · rw [hold] at hmine
        exact hs.apart pod hpod mine hmine
      rw [hnew] at hmine
      rcases List.mem_append.mp hmine with hbefore | hnow
      · exact hs.apart pod hpod mine hbefore
      · -- the uid of a pod that is created is new
        rw [List.mem_singleton.mp hnow, huid]
        exact hfresh pod (hs.removed pod hpod).2
    · -- a deploy that still deletes has created nothing
      have hnothing : s.created = [] := hs.created (hpermit name fence hc).2
      rcases hcreated with hold | ⟨_, _, hcreates, _⟩
      · rw [hold, hnothing] at hmine
        exact absurd hmine List.not_mem_nil
      · rw [hc] at hcreates
        cases hcreates

theorem inv_step {move : DeployMove} (hs : Inv identity desired s)
    (hfits : FitsMove identity s move)
    (hstep : (machine identity cfg desired).step s move = some s') : Inv identity desired s' := by
  cases move with
  | write name pod =>
    simp only [machine, step] at hstep
    split at hstep
    · cases hstep
      exact hs.cluster fun _ hp => List.mem_append_left _ hp
    · cases hstep
  | vanish name =>
    cases hstep
    exact hs.cluster fun _ hp => hp
  | answer oracle landed uid resourceVersion =>
    simp only [machine, step] at hstep
    split at hstep
    · cases hstep
    · rename_i b next hprocess
      cases hstep
      exact inv_begins hs hprocess
    · rename_i b c next hprocess
      split at hstep
      · rename_i hhonest
        obtain ⟨u, hlands, rfl⟩ := Option.map_eq_some_iff.mp hstep
        have hread : AnswerFits identity b c (oracle c) := by
          unfold FitsMove at hfits
          rw [hprocess] at hfits
          exact hfits
        exact inv_call hs hprocess hhonest hread (landed_of_lands hlands)
      · cases hstep

theorem inv_start (cluster : Cluster) : Inv identity desired (start cfg cluster) where
  process := keeps_start noCreate_nil
  reads := fun _ _ hmem => absurd hmem List.not_mem_nil
  authorised := by
    intro before after name fence r h
    cases before with
    | nil => cases h
    | cons e before => cases h
  removed := fun _ hmem => absurd hmem List.not_mem_nil
  created := fun _ => rfl
  apart := fun _ hmem => absurd hmem List.not_mem_nil

theorem Inv.deletesOnly (hs : Inv identity desired s) : DeletesOnly identity desired s where
  authorised := hs.authorised
  removed := fun pod hpod => (hs.removed pod hpod).1
  not_foreign := by
    intro pod hpod
    obtain ⟨startup, v, _, hverify, _⟩ := (hs.removed pod hpod).1
    rw [verify_any hverify]
    rfl
  not_started := by
    intro pod hpod hstarted
    obtain ⟨startup, v, hsettled, _, _, hmay⟩ := (hs.removed pod hpod).1
    unfold Settled at hsettled
    rw [hstarted] at hsettled
    obtain rfl : startup = .started := hsettled
    rcases hmay with h | h | ⟨h, _⟩
    · cases h
    · cases h
    · cases h
  not_matching := by
    intro pod hpod hrecoverable
    obtain ⟨startup, v, hsettled, hverify, _, hmay⟩ := (hs.removed pod hpod).1
    unfold Settled at hsettled
    rw [hrecoverable] at hsettled
    obtain rfl : startup = .neverStartedRecoverable := hsettled
    rcases hmay with h | h | ⟨_, h⟩
    · cases h
    · cases h
    · rw [← verify_recordedIntent hverify]
      exact h
  not_own := hs.apart
  confirmed := by
    intro agentId hprocess
    have hconfirmed := hs.process
    rw [hprocess] at hconfirmed
    exact hconfirmed

/-- **A deploy deletes only what it may**, and succeeds on a pod that is up, in every run where the
reads of the preflight pass show verified pods without a deletion mark and those of the wait for a
winner no deletion mark. -/
theorem deletes_only (identity : AgentIdentity) (cfg : ProviderConfig) (desired : String)
    (cluster : Cluster) (moves : List DeployMove) (s : DeployRun)
    (hfits : (machine identity cfg desired).Always (FitsMove identity) (start cfg cluster) moves)
    (hrun : (machine identity cfg desired).run (start cfg cluster) moves = some s) :
    DeletesOnly identity desired s :=
  (Machine.invariant (fun _ _ _ hs hmove hstep =>
    inv_step hs hmove hstep) (inv_start cluster) hfits hrun).deletesOnly

/-! ## Two runs -/

def exampleIdentity : AgentIdentity :=
  ⟨"aaaaaaaaaaaaaaaaaaaaaaaaaaaaaaaaaaaaaaaaaaaaaaaaaaaaaaaaaaaaaaaa"⟩

def exampleConfig : ProviderConfig := ⟨"buzz-agents", "ghcr.io/sprig@sha256:00"⟩

/-- A status with one state of the agent's container. -/
def statusOf (state : ContainerState) : PodStatus :=
  ⟨some "Running", some [⟨containerName, some state⟩], none⟩

def exited : PodStatus := statusOf ⟨false, some ⟨1, none⟩, none⟩

def up : PodStatus := statusOf ⟨true, none, none⟩

/-- A pod of the agent, as a deploy creates it. -/
def ownPod (uid resourceVersion : String) (status : PodStatus) : Pod :=
  { buildPod exampleIdentity exampleConfig "intent" "00000001" with
    uid := some uid, resourceVersion := some resourceVersion, status := some status }

/-- A pod of someone else under the agent's pod name. -/
def foreignPod (uid resourceVersion : String) (status : PodStatus) : Pod :=
  { ownPod uid resourceVersion status with labels := none, annotations := none }

/-- One pod, in one version. -/
def clusterOf (pod : Pod) : Cluster where
  pods := Finmap.singleton exampleIdentity.podName pod
  versions := [pod]
  current := by
    intro name q hq
    by_cases hname : name = exampleIdentity.podName
    · rw [hname, Finmap.lookup_singleton_eq] at hq
      cases hq
      exact List.mem_cons_self
    have habsent : ¬ (name ∈ (Finmap.singleton exampleIdentity.podName pod : Map String Pod)) := by
      rw [Finmap.mem_singleton]
      exact hname
    rw [Finmap.lookup_eq_none.mpr habsent] at hq
    cases hq
  unique := by
    intro p hp q hq _ _
    rw [List.mem_singleton.mp hp, List.mem_singleton.mp hq]

/-- A cluster that lists some pods, reads one and lets everything else happen. -/
def oracle (listed : List Pod) (read : Option Pod) : (c : Call) → c.Answer
  | .ensureNamespace _ => .ok ()
  | .listPods _ => .ok (listed, none)
  | .listSecrets _ => .ok []
  | .secretExists _ => .ok true
  | .createSecret _ => .ok ()
  | .createPod _ => .ok .created
  | .deletePod _ _ => .ok .accepted
  | .deleteSecret _ => .ok ()
  | .getPod _ => .ok read
  | .sleep => ()
  | .elapsed => 0
  | .newGeneration => "00000002"

def answers (n : Nat) (listed : List Pod) (read : Option Pod) : List DeployMove :=
  List.replicate n (.answer (oracle listed read) false "uid-2" "2")

/-- The residue is collected, a pod is created and it comes up. -/
def restarted : List DeployMove :=
  -- the namespace, the two lists and the plan, then the read, the delete and the Secret of the plan
  answers 5 [ownPod "uid-1" "1" exited] none ++ answers 4 [] (some (ownPod "uid-1" "1" exited)) ++
    -- no pod: a Secret and a pod are created
    answers 7 [] none ++ [.write exampleIdentity.podName (ownPod "uid-2" "3" up)] ++
    answers 3 [] (some (ownPod "uid-2" "3" up))

instance (b : Block) (c : Call) (r : c.Answer) : Decidable (AnswerFits exampleIdentity b c r) := by
  unfold AnswerFits
  split
  · infer_instance
  · infer_instance
  · infer_instance

instance (s : DeployRun) (move : DeployMove) : Decidable (FitsMove exampleIdentity s move) := by
  unfold FitsMove
  split
  · split
    · infer_instance
    · infer_instance
  · infer_instance

/-- The uids of the pods that a run removed and created. -/
def uids (s : DeployRun) : List (Option String) × List (Option String) :=
  (s.removed.map (·.uid), s.created.map (·.uid))

/-- The pod `uid-1` makes way for `uid-2`. -/
theorem deletes_only_restarted :
    ∃ s, (machine exampleIdentity exampleConfig "intent").run
        (start exampleConfig (clusterOf (ownPod "uid-1" "1" exited))) restarted = some s ∧
      DeletesOnly exampleIdentity "intent" s ∧ s.uids = ([some "uid-1"], [some "uid-2"]) := by
  have huids : ((machine exampleIdentity exampleConfig "intent").run
      (start exampleConfig (clusterOf (ownPod "uid-1" "1" exited))) restarted).map uids
        = some ([some "uid-1"], [some "uid-2"]) := by decide
  obtain ⟨s, hrun, hs⟩ := Option.map_eq_some_iff.mp huids
  exact ⟨s, hrun, deletes_only exampleIdentity exampleConfig "intent"
    (clusterOf (ownPod "uid-1" "1" exited)) restarted s (by decide) hrun, hs⟩

/-- Between the list and the read, another pod has the name. -/
def overtaken : List DeployMove :=
  answers 5 [ownPod "uid-1" "1" exited] none ++
    [.write exampleIdentity.podName (foreignPod "uid-9" "9" exited)] ++
    answers 2 [] (some (foreignPod "uid-9" "9" exited))

/-- The preflight pass removes a pod of someone else. -/
theorem foreign_deleted :
    ¬ ∀ (identity : AgentIdentity) (cfg : ProviderConfig) (desired : String) (cluster : Cluster)
      (moves : List DeployMove)
        (s : DeployRun), (machine identity cfg desired).run (start cfg cluster) moves = some s →
          DeletesOnly identity desired s := by
  intro hall
  have hremoved : ((machine exampleIdentity exampleConfig "intent").run
      (start exampleConfig (clusterOf (ownPod "uid-1" "1" exited))) overtaken).map (·.removed)
        = some [foreignPod "uid-9" "9" exited] := by decide
  obtain ⟨s, hrun, hs⟩ := Option.map_eq_some_iff.mp hremoved
  have hours := (hall _ _ _ _ _ s hrun).not_foreign (foreignPod "uid-9" "9" exited)
      (by rw [hs]; exact List.mem_cons_self)
  exact absurd hours (by decide)

end DeployRun

end Pkzz.Kube
