import Pkzz.Lib.Map
import Pkzz.Lib.Str

/-!
# Pods and Secrets as the provider reads them

Names and labels follow from the agent's public key. A pod is verified when it has the management
marker and the whole public key, and its startup is read off the status of the agent's container;
only a container that waits for its configuration needs one more read, of the Secret. `classify`
says what a deploy does about a verified pod.
-/

namespace Pkzz.Kube

open Pkzz.Lib

def managedBy : String := "buzz-backend-kubernetes"
def labelManagedBy : String := "app.kubernetes.io/managed-by"
def labelBindingVersion : String := "buzz.block.xyz/binding-version"
def bindingVersion : String := "1"
def labelAgentPubkey : String := "buzz.block.xyz/agent-pubkey"
def annotationPubkeyFull : String := "buzz.block.xyz/agent-pubkey-full"
def annotationCreateIntent : String := "buzz.block.xyz/create-intent"
def annotationImage : String := "buzz.block.xyz/image"

/-- The container the provider creates. -/
def containerName : String := "agent"

/-! ## Objects -/

structure ContainerStateWaiting where
  reason : Option String
  message : Option String
deriving DecidableEq

structure ContainerStateTerminated where
  exitCode : Int
  reason : Option String
deriving DecidableEq

structure ContainerState where
  running : Bool
  terminated : Option ContainerStateTerminated
  waiting : Option ContainerStateWaiting
deriving DecidableEq

structure ContainerStatus where
  name : String
  state : Option ContainerState
deriving DecidableEq

structure PodCondition where
  type_ : String
  status : String
  reason : Option String
  message : Option String
deriving DecidableEq

structure PodStatus where
  phase : Option String
  containerStatuses : Option (List ContainerStatus)
  conditions : Option (List PodCondition)
deriving DecidableEq

/-- The Secret that an `envFrom` source names, if it names one. -/
structure EnvFromSource where
  secretRef : Option String
deriving DecidableEq

structure Container where
  envFrom : Option (List EnvFromSource)
deriving DecidableEq

structure PodSpec where
  containers : List Container
deriving DecidableEq

structure Pod where
  name : Option String
  uid : Option String
  resourceVersion : Option String
  labels : Option (Map String String)
  annotations : Option (Map String String)
  deletionTimestamp : Option Int
  spec : Option PodSpec
  status : Option PodStatus
deriving DecidableEq

structure Secret where
  name : Option String
  labels : Option (Map String String)
  annotations : Option (Map String String)
  creationTimestamp : Option Int
deriving DecidableEq

/-! ## Names -/

/-- The public key as text, 64 hex digits. -/
structure AgentIdentity where
  pubkeyHex : String
deriving DecidableEq

namespace AgentIdentity

variable (identity : AgentIdentity)

def labelPubkey : String := String.ofList (identity.pubkeyHex.toList.take 32)

def podName : String := "buzz-agent-" ++ String.ofList (identity.pubkeyHex.toList.take 12)

/-- One Secret for each attempt to create the pod. -/
def secretName (generation : String) : String := identity.podName ++ "-" ++ generation

def selector : String :=
  labelAgentPubkey ++ "=" ++ identity.labelPubkey ++ "," ++ labelManagedBy ++ "=" ++ managedBy

def labels : Map String String :=
  ((Finmap.singleton labelAgentPubkey identity.labelPubkey).insert labelManagedBy managedBy).insert
    labelBindingVersion bindingVersion

end AgentIdentity

/-! ## Observation -/

structure Fence where
  uid : String
  resourceVersion : String
deriving DecidableEq

inductive PullFailure where
  | unauthorized
  | manifestUnknown
  | archMismatch
deriving DecidableEq

inductive Startup where
  | started
  | terminated
  | neverStartedRecoverable
  | neverStartedProvablyBroken
  | neverStartedPullFailing (failure : PullFailure)
deriving DecidableEq

inductive StartupObservation where
  | resolved (startup : Startup)
  | configErrorPendingSecretCheck (secretName : String)
deriving DecidableEq

def hasMarker : Option (Map String String) → Bool
  | none => false
  | some labels =>
    labels.lookup labelManagedBy == some managedBy &&
      labels.lookup labelBindingVersion == some bindingVersion

def annotationMatches (annotations : Option (Map String String))
    (identity : AgentIdentity) : Bool :=
  match annotations.bind (·.lookup annotationPubkeyFull) with
  | none => false
  | some v => v == identity.pubkeyHex

def secretIsOurs (secret : Secret) (identity : AgentIdentity) : Bool :=
  hasMarker secret.labels && annotationMatches secret.annotations identity

/-- The first Secret that a container of the pod takes its environment from. -/
def referencedSecret (pod : Pod) : Option String :=
  match pod.spec with
  | none => none
  | some spec => (spec.containers.flatMap fun c => c.envFrom.getD []).findSome? (·.secretRef)

def classifyPullFailure (message : String) : Option PullFailure :=
  let m := Str.toAsciiLowercase message
  if Str.contains m "401" || Str.contains m "unauthorized" || Str.contains m "403" ||
    Str.contains m "denied"
      || Str.contains m "authentication required" then
    some .unauthorized
  else if Str.contains m "manifest unknown" || Str.contains m "not found" ||
    Str.contains m "manifest_unknown"
      || Str.contains m "repository does not exist" then
    some .manifestUnknown
  else if Str.contains m "no match for platform" || Str.contains m "no matching manifest" then
    some .archMismatch
  else none

/-- The state of the agent's container, once the kubelet has reported one. -/
def Pod.containerState (pod : Pod) : Option ContainerState :=
  ((pod.status.bind (·.containerStatuses)).bind (·.find? fun c => c.name == containerName)).bind
    (·.state)

/-- Without a container that has a state, the pod's phase. -/
def decodePhase (pod : Pod) : StartupObservation :=
  match pod.status.bind (·.phase) with
  | some "Succeeded" | some "Failed" => .resolved .terminated
  | _ => .resolved .neverStartedRecoverable

def decodeWaiting (pod : Pod) (waiting : ContainerStateWaiting) : StartupObservation :=
  match waiting.reason.getD "" with
  | "InvalidImageName" => .resolved .neverStartedProvablyBroken
  | "ErrImagePull" | "ImagePullBackOff" =>
    match classifyPullFailure (waiting.message.getD "") with
    | some failure => .resolved (.neverStartedPullFailing failure)
    | none => .resolved .neverStartedRecoverable
  | "CreateContainerConfigError" =>
    match referencedSecret pod with
    | some secretName => .configErrorPendingSecretCheck secretName
    | none => .resolved .neverStartedRecoverable
  | _ => .resolved .neverStartedRecoverable

def decodeStartup (pod : Pod) : StartupObservation :=
  match pod.containerState with
  | none => decodePhase pod
  | some state =>
    if state.running then .resolved .started
    else if state.terminated.isSome then .resolved .terminated
    else
      match state.waiting with
      | some waiting => decodeWaiting pod waiting
      | none => decodePhase pod

/-- A pod that passed verification. -/
structure VerifiedPod where
  name : String
  fence : Fence
  deletionMarked : Bool
  startup : Startup
  recordedIntent : Option String
deriving DecidableEq

def verify (pod : Pod) (identity : AgentIdentity) (startup : Startup) : Option VerifiedPod :=
  if !hasMarker pod.labels then none
  else if !annotationMatches pod.annotations identity then none
  else
    match pod.name, pod.uid, pod.resourceVersion with
    | some name, some uid, some resourceVersion =>
      some {
        name, fence := ⟨uid, resourceVersion⟩, deletionMarked := pod.deletionTimestamp.isSome,
        startup,
             recordedIntent := pod.annotations.bind (·.lookup annotationCreateIntent) }
    | _, _, _ => none

/-! ## The decision -/

inductive Action where
  | create
  | delete (name : String) (fence : Fence)
  | awaitDisappearance (name : String)
  | noOp (agentId : String)
  | observe (name : String)
  | report (name : String) (failure : PullFailure)
deriving DecidableEq

def classify (observed : Option VerifiedPod) (desired : String) : Action :=
  match observed with
  | none => .create
  | some pod =>
    if pod.deletionMarked then .awaitDisappearance pod.name
    else
      match pod.startup with
      | .started => .noOp pod.name
      | .terminated => .delete pod.name pod.fence
      | .neverStartedProvablyBroken => .delete pod.name pod.fence
      | .neverStartedPullFailing failure => .report pod.name failure
      | .neverStartedRecoverable =>
        if pod.recordedIntent = some desired then .observe pod.name else .delete pod.name pod.fence

/-! ## What a verified pod is -/

variable {pod : Pod} {identity : AgentIdentity} {startup : Startup} {v : VerifiedPod}

theorem verify_startup (h : verify pod identity startup = some v) : v.startup = startup := by
  unfold verify at h
  split at h
  · cases h
  split at h
  · cases h
  · split at h
    · rw [← Option.some.inj h]
    · cases h

theorem verify_fence (h : verify pod identity startup = some v) :
    pod.name = some v.name ∧ pod.uid = some v.fence.uid ∧
      pod.resourceVersion = some v.fence.resourceVersion := by
  unfold verify at h
  split at h
  · cases h
  split at h
  · cases h
  split at h
  · rename_i name uid resourceVersion hname huid hversion
    cases h
    exact ⟨hname, huid, hversion⟩
  · cases h

theorem verify_deletionMarked (h : verify pod identity startup = some v) :
    v.deletionMarked = pod.deletionTimestamp.isSome := by
  unfold verify at h
  split at h
  · cases h
  split at h
  · cases h
  · split at h
    · rw [← Option.some.inj h]
    · cases h

theorem verify_recordedIntent (h : verify pod identity startup = some v) :
    v.recordedIntent = pod.annotations.bind (·.lookup annotationCreateIntent) := by
  unfold verify at h
  split at h
  · cases h
  split at h
  · cases h
  · split at h
    · rw [← Option.some.inj h]
    · cases h

/-- Whether a pod is verified does not depend on how it started. -/
theorem verify_any (h : verify pod identity startup = some v) (other : Startup) :
    verify pod identity other = some { v with startup := other } := by
  unfold verify at h ⊢
  split at h
  · cases h
  rename_i hmarker
  rw [if_neg hmarker]
  split at h
  · cases h
  rename_i hannotation
  rw [if_neg hannotation]
  split at h
  · rw [← Option.some.inj h]
  · cases h

/-- What authorises a delete: residue, a proven defect or a changed intent. -/
def MayReplace (startup : Startup) (recordedIntent : Option String) (desired : String) : Prop :=
  startup = .terminated ∨ startup = .neverStartedProvablyBroken ∨
    (startup = .neverStartedRecoverable ∧ recordedIntent ≠ some desired)

theorem classify_delete {observed : Option VerifiedPod} {desired name : String} {fence : Fence}
    (h : classify observed desired = .delete name fence) :
    ∃ pod, observed = some pod ∧ pod.deletionMarked = false ∧ pod.name = name ∧ pod.fence = fence ∧
      MayReplace pod.startup pod.recordedIntent desired := by
  unfold classify at h
  split at h
  · cases h
  rename_i pod
  split at h
  · cases h
  rename_i hmarked
  have hdone : Action.delete pod.name pod.fence = .delete name fence →
      MayReplace pod.startup pod.recordedIntent desired →
      ∃ p, some pod = some p ∧ p.deletionMarked = false ∧ p.name = name ∧ p.fence = fence ∧
        MayReplace p.startup p.recordedIntent desired := by
    intro hsame hmay
    cases hsame
    exact ⟨pod, rfl, Bool.eq_false_iff.mpr hmarked, rfl, rfl, hmay⟩
  split at h
  · cases h
  · rename_i hstartup
    exact hdone h (.inl hstartup)
  · rename_i hstartup
    exact hdone h (.inr (.inl hstartup))
  · cases h
  · rename_i hstartup
    split at h
    · cases h
    · rename_i hintent
      exact hdone h (.inr (.inr ⟨hstartup, hintent⟩))

theorem classify_noOp {observed : Option VerifiedPod} {desired agentId : String}
    (h : classify observed desired = .noOp agentId) :
    ∃ pod, observed = some pod ∧ pod.deletionMarked = false ∧ pod.name = agentId ∧
      pod.startup = .started := by
  unfold classify at h
  split at h
  · cases h
  rename_i pod
  split at h
  · cases h
  rename_i hmarked
  split at h
  · rename_i hstartup
    cases h
    exact ⟨pod, rfl, Bool.eq_false_iff.mpr hmarked, rfl, hstartup⟩
  · cases h
  · cases h
  · cases h
  · split at h
    · cases h
    · cases h

end Pkzz.Kube
