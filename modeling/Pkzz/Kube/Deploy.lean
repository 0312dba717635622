import Pkzz.Kube.Objects
import Pkzz.Lib.Interaction

/-!
# The deploy loop

A deploy makes its calls to the cluster one after the other and decides on their answers alone. It
is cut into blocks where the source loops: a block is one turn of a loop, or what comes before or
after it, and says which block is next or how the deploy ends. The preflight pass comes first: what
it may delete is planned on two lists.
-/

namespace Pkzz.Kube

open Pkzz.Lib

/-! ## Preflight collection -/

def operationDeadlineSecs : Int := 600

def orphanSecretMinAgeSecs : Int := 2 * operationDeadlineSecs

structure GcPlan where
  pods : List String
  secrets : List String
deriving DecidableEq

/-- One Secret of the orphan sweep. -/
def sweep (identity : AgentIdentity) (guarded : List String) (now : Int) (planned : List String)
    (secret : Secret) : List String :=
  if secretIsOurs secret identity then
    match secret.name, secret.creationTimestamp with
    | some name, some created =>
      if name ∈ guarded ∨ name ∈ planned then planned
      else if orphanSecretMinAgeSecs ≤ now - created then planned ++ [name]
      else planned
    | _, _ => planned
  else planned

/-- Pods that are verified, with a startup that does not matter. -/
def oursOf (identity : AgentIdentity) (pods : List Pod) : List Pod :=
  pods.filter fun p => (verify p identity .started).isSome

/-- The Secrets of the pods that stay. -/
def protectedBy (ours : List Pod) (doomedNames : List String) : List String :=
  (ours.filter fun p => !doomedNames.contains (p.name.getD "")).filterMap referencedSecret

def plan (identity : AgentIdentity) (pods : List Pod) (secrets : List Secret)
    (terminated : Pod → Bool) (now : Option Int) : GcPlan :=
  let ours := oursOf identity pods
  let doomedPods := ours.filter terminated
  let doomedNames := doomedPods.filterMap (·.name)
  let guarded := protectedBy ours doomedNames
  let doomedSecrets := doomedPods.filterMap referencedSecret
  { pods := doomedNames,
    secrets :=
      match now with
      | none => doomedSecrets
      | some now => secrets.foldl (sweep identity guarded now) doomedSecrets }

/-! ## Calls -/

inductive CreateOutcome where
  | created
  | alreadyExists
deriving DecidableEq

inductive DeleteOutcome where
  | accepted
  | notFound
  | preconditionFailed
deriving DecidableEq

/-- The calls of the substrate, and the two things a deploy asks its own machine for. -/
inductive Call where
  | ensureNamespace (namespace_ : String)
  | listPods (selector : String)
  | listSecrets (selector : String)
  | secretExists (name : String)
  | createSecret (secret : Secret)
  | createPod (pod : Pod)
  | deletePod (name : String) (fence : Fence)
  | deleteSecret (name : String)
  | getPod (name : String)
  | sleep
  | elapsed
  | newGeneration
deriving DecidableEq

@[reducible] def Call.Answer : Call → Type
  | .ensureNamespace _ => Except String Unit
  | .listPods _ => Except String (List Pod × Option Int)
  | .listSecrets _ => Except String (List Secret)
  | .secretExists _ => Except String Bool
  | .createSecret _ => Except String Unit
  | .createPod _ => Except String CreateOutcome
  | .deletePod _ _ => Except String DeleteOutcome
  | .deleteSecret _ => Except String Unit
  | .getPod _ => Except String (Option Pod)
  | .sleep => Unit
  | .elapsed => Nat
  | .newGeneration => String

/-- A piece of a deploy. -/
abbrev DeployM (α : Type) := Prog Call Call.Answer α

def ensureNamespace (n : String) : DeployM (Except String Unit) := Prog.ask (Call.ensureNamespace n)
def listPods (selector : String) : DeployM (Except String (List Pod × Option Int)) :=
  Prog.ask (Call.listPods selector)
def listSecrets (selector : String) : DeployM (Except String (List Secret)) :=
  Prog.ask (Call.listSecrets selector)
def secretExists (name : String) : DeployM (Except String Bool) := Prog.ask (Call.secretExists name)
def createSecret (secret : Secret) : DeployM (Except String Unit) :=
  Prog.ask (Call.createSecret secret)
def createPod (pod : Pod) : DeployM (Except String CreateOutcome) := Prog.ask (Call.createPod pod)
def deletePod (name : String) (fence : Fence) : DeployM (Except String DeleteOutcome) :=
  Prog.ask (Call.deletePod name fence)
def deleteSecret (name : String) : DeployM (Except String Unit) := Prog.ask (Call.deleteSecret name)
def getPod (name : String) : DeployM (Except String (Option Pod)) := Prog.ask (Call.getPod name)
def sleep : DeployM Unit := Prog.ask Call.sleep
def elapsed : DeployM Nat := Prog.ask Call.elapsed
def newGeneration : DeployM String := Prog.ask Call.newGeneration

/-- 600 s, in nanoseconds. -/
def deadline : Nat := 600 * 1000000000

/-! ## Texts -/

/-- The first condition that is false. -/
def conditionText (c : PodCondition) : String :=
  let detail := ": ".intercalate ([c.reason.getD "", c.message.getD ""].filter (· ≠ ""))
  if detail = "" then "pod condition " ++ c.type_ ++ " is false"
  else "pod condition " ++ c.type_ ++ " is false: " ++ detail

def exitText (terminated : ContainerStateTerminated) : String :=
  match terminated.reason with
  | some reason => "the container exited with code " ++ toString terminated.exitCode ++ " (" ++
      reason ++ ")"
  | none => "the container exited with code " ++ toString terminated.exitCode

/-- The latest condition of a pod, without the messages of its container. -/
def condition (pod : Pod) : Option String :=
  match pod.status with
  | none => none
  | some status =>
    match (pod.containerState.bind (·.waiting)).bind (·.reason),
        pod.containerState.bind (·.terminated) with
    | some reason, _ => some ("the container is waiting, reason " ++ reason)
    | none, some terminated => some (exitText terminated)
    | none, none =>
      match (status.conditions.getD []).find? (·.status == "False") with
      | some c => some (conditionText c)
      | none => status.phase.map fun p => "the pod is " ++ p

def pullFailureMessage (failure : PullFailure) (image : String) : String :=
  let registry := (Str.split image '/').head?.getD image
  match failure with
  | .unauthorized =>
    "the cluster is not authorized to pull " ++ image ++ " from " ++ registry ++
      ". This pull retries indefinitely " ++
     "and will not succeed on its own: grant the cluster's nodes access to that registry."
  | .manifestUnknown =>
      registry ++ " has no image at " ++ image ++ ". Check the digest and repository."
  | .archMismatch => image ++
      " has no variant for the architecture of the nodes it was scheduled on."

/-! ## Reading a pod -/

def settle (pod : Pod) : DeployM (Except String Startup) :=
  match decodeStartup pod with
  | .resolved startup => pure (.ok startup)
  | .configErrorPendingSecretCheck secretName => do
      match ← secretExists secretName with
      | .error e => pure (.error e)
      | .ok true => pure (.ok .neverStartedRecoverable)
      -- a confirmed absence is proof
      | .ok false => pure (.ok .neverStartedProvablyBroken)

def observePod (identity : AgentIdentity) : DeployM (Except String (Option VerifiedPod)) := do
  match ← getPod identity.podName with
  | .error e => pure (.error e)
  | .ok none => pure (.ok none)
  | .ok (some pod) =>
    match ← settle pod with
    | .error e => pure (.error e)
    | .ok startup => pure (.ok (verify pod identity startup))

def latestCondition (identity : AgentIdentity) : DeployM String := do
  match ← getPod identity.podName with
  | .ok (some pod) => pure ((condition pod).getD "no condition reported by the cluster")
  | .ok none => pure "the pod no longer exists"
  | .error e => pure ("the pod's condition could not be read: " ++ e)

/-! ## Blocks -/

structure ProviderConfig where
  namespace_ : String
  image : String
deriving DecidableEq

/-- What a deploy does next. -/
inductive Block where
  | start
  | preflight
  /-- Carries a plan out. -/
  | collect (plan : GcPlan)
  /-- A turn of the main loop; whether this call has created a pod. -/
  | turn (created : Bool)
  /-- A turn of the wait for a pod to disappear. -/
  | awaiting (name : String) (created : Bool)
  /-- Lost the create, with the Secret that was made for it. -/
  | adopt (own : String)
  /-- A turn of the wait for the winner. -/
  | adopting
  /-- Reads the latest condition, to say it between two texts. -/
  | report (before after : String)
deriving DecidableEq

/-- The next block, or the end of the deploy. -/
abbrev Next := Block ⊕ Except String String

section Blocks

variable (identity : AgentIdentity) (cfg : ProviderConfig) (desired : String)

/-- An error ends the deploy. -/
def failed (e : String) : DeployM Next := pure (.inr (.error e))

def goTo (b : Block) : DeployM Next := pure (.inl b)

def startBlock : DeployM Next := do
  match ← ensureNamespace cfg.namespace_ with
  | .error e => failed e
  | .ok _ => goTo .preflight

/-- The names of the listed pods that have terminated. -/
def settleAll : List Pod → DeployM (Except String (List String))
  | [] => pure (.ok [])
  | pod :: pods => do
      match ← settle pod with
      | .error e => pure (.error e)
      | .ok startup =>
        match ← settleAll pods with
        | .error e => pure (.error e)
        | .ok names => pure (.ok (if startup = .terminated then
            pod.name.toList ++ names else names))

/-- A failure skips the pass. -/
def preflightBlock : DeployM Next := do
  match ← listPods identity.selector with
  | .error _ => goTo (.turn false)
  | .ok (pods, serverNow) =>
    match ← listSecrets identity.selector with
    | .error _ => goTo (.turn false)
    | .ok secrets =>
      match ← settleAll pods with
      | .error _ => goTo (.turn false)
      | .ok terminated =>
        let isTerminated (pod : Pod) : Bool :=
          match pod.name with
          | some name => terminated.contains name
          | none => false
        goTo (.collect (plan identity pods secrets isTerminated serverNow))

/-- The planned pods, one after the other; false when a read failed, which ends the pass. -/
def collectPods : List String → DeployM Bool
  | [] => pure true
  | name :: names => do
      match ← getPod name with
      | .error _ => pure false
      | .ok none => collectPods names
      | .ok (some pod) =>
        match pod.uid, pod.resourceVersion with
        | some uid, some resourceVersion =>
          match ← settle pod with
          | .error _ => pure false
          | .ok startup =>
            if startup = .terminated then do
              -- neither the marker nor the key nor a deletion mark is looked at again
              let _ ← deletePod name ⟨uid, resourceVersion⟩
              collectPods names
            else collectPods names
        | _, _ => collectPods names

def collectSecrets : List String → DeployM Unit
  | [] => pure ()
  | name :: names => do
      let _ ← deleteSecret name
      collectSecrets names

def collectBlock (plan : GcPlan) : DeployM Next := do
  if ← collectPods plan.pods then do
    collectSecrets plan.secrets
    goTo (.turn false)
  else goTo (.turn false)

/-- The Secret of an attempt. -/
def buildSecret (generation : String) : Secret where
  name := some (identity.secretName generation)
  labels := some identity.labels
  annotations := some (Finmap.singleton annotationPubkeyFull identity.pubkeyHex)
  creationTimestamp := none

/-- The pod of an attempt: it takes its environment from the attempt's Secret. -/
def buildPod (generation : String) : Pod where
  name := some identity.podName
  uid := none
  resourceVersion := none
  labels := some identity.labels
  annotations := some (((Finmap.singleton annotationPubkeyFull identity.pubkeyHex).insert
    annotationCreateIntent desired).insert annotationImage cfg.image)
  deletionTimestamp := none
  spec := some ⟨[⟨some [⟨some (identity.secretName generation)⟩]⟩]⟩
  status := none

def createAttempt : DeployM Next := do
  let generation ← newGeneration
  -- Secret first: the pod names it
  match ← createSecret (buildSecret identity generation) with
  | .error e => failed e
  | .ok _ =>
    match ← createPod (buildPod identity cfg desired generation) with
    | .error e => failed e
    | .ok .created => do
        let _ ← sleep
        goTo (.turn true)
    | .ok .alreadyExists => goTo (.adopt (identity.secretName generation))

def turnBlock (created : Bool) : DeployM Next := do
  let spent ← elapsed
  if deadline ≤ spent then
    goTo (.report ("startup not confirmed within 600s for " ++ identity.podName ++ ": ") "")
  else
    match ← observePod identity with
    | .error e => failed e
    | .ok observed =>
      match classify observed desired with
      | .noOp agentId => pure (.inr (.ok agentId))
      | .observe _ => do
          let _ ← sleep
          goTo (.turn created)
      | .report name failure =>
          failed (name ++ " did not start: " ++ pullFailureMessage failure cfg.image)
      | .awaitDisappearance name => goTo (.awaiting name created)
      | .delete name fence =>
        if created then
          goTo (.report (name ++ " was created by this deploy and did not stay running: ")
            (". Not retrying in this " ++
            "call — an immediate exit recurs until its cause is fixed. Check the agent's configuration and press " ++
            "Start to try again."))
        else do
          match ← deletePod name fence with
          | .error e => failed e
          | .ok .accepted => goTo (.awaiting name created)
          | .ok .notFound => goTo (.awaiting name created)
          | .ok .preconditionFailed => do
              let _ ← sleep
              goTo (.turn created)
      | .create => createAttempt identity cfg desired

def awaitingBlock (name : String) (created : Bool) : DeployM Next := do
  let spent ← elapsed
  if deadline ≤ spent then
    failed ("timed out after 600s waiting for " ++ name ++ " to finish terminating")
  else
    match ← getPod name with
    | .error e => failed e
    | .ok none => goTo (.turn created)
    | .ok (some _) => do
        let _ ← sleep
        goTo (.awaiting name created)

def secretIsReferenced (secret : String) : DeployM (Except String Bool) := do
  match ← listPods identity.selector with
  | .error e => pure (.error e)
  | .ok (pods, _) => pure (.ok ((pods.filterMap referencedSecret).contains secret))

def dropOwnSecret (secret : String) : DeployM Unit := do
  match ← secretIsReferenced identity secret with
  | .ok false => do
      let _ ← deleteSecret secret
      pure ()
  | .ok true => pure ()
  | .error _ => pure ()

def adoptBlock (own : String) : DeployM Next := do
  match ← getPod identity.podName with
  | .error e => failed e
  | .ok none => do
      dropOwnSecret identity own
      goTo .adopting
  | .ok (some pod) =>
    match ← settle pod with
    | .error e => failed e
    | .ok startup =>
      if (verify pod identity startup).isNone then do
        dropOwnSecret identity own
        failed ("a pod named " ++ identity.podName ++
          " already exists in this namespace but is not managed by this " ++
          "provider for this agent (it lacks the management marker or carries a different agent identity). Remove it, " ++
          "or deploy this agent to a different namespace.")
      else do
        dropOwnSecret identity own
        goTo .adopting

def adoptingBlock : DeployM Next := do
  let spent ← elapsed
  if deadline ≤ spent then
    goTo (.report ("startup not confirmed within 600s for " ++ identity.podName ++
      " (another deploy of this agent created it): ") "")
  else
    match ← observePod identity with
    | .error e => failed e
    | .ok none => do
        let _ ← sleep
        goTo .adopting
    | .ok (some pod) =>
      -- started comes before the deletion mark here
      if pod.startup = .started then pure (.inr (.ok pod.name))
      else if pod.deletionMarked then
        failed (identity.podName ++
          " was created by another deploy of this agent and is already being deleted; " ++
          "try again")
      else if pod.startup = .terminated ∨ pod.startup = .neverStartedProvablyBroken then
        goTo (.report (identity.podName ++
          " was created by another deploy of this agent and did not start: ") "")
      else do
        let _ ← sleep
        goTo .adopting

def reportBlock (before after : String) : DeployM Next := do
  let latest ← latestCondition identity
  failed (before ++ latest ++ after)

/-- What a block does. -/
def body : Block → DeployM Next
  | .start => startBlock cfg
  | .preflight => preflightBlock identity
  | .collect plan => collectBlock plan
  | .turn created => turnBlock identity cfg desired created
  | .awaiting name created => awaitingBlock name created
  | .adopt own => adoptBlock identity own
  | .adopting => adoptingBlock identity
  | .report before after => reportBlock identity before after

end Blocks

/-- A deploy between two calls: in a block with what is left of it, or done. -/
inductive Process where
  | running (block : Block) (rest : DeployM Next)
  | finished (result : Except String String)

/-- A deploy that has not made a call. -/
def Process.start (cfg : ProviderConfig) : Process := .running .start (startBlock cfg)

end Pkzz.Kube
