import Pkzz.Kube.DeletesOnly
import Pkzz.Lib.OrderedMap

/-!
# Deploys of one agent on one apiserver

Any number of deploys of one agent call one server, each with its own configuration and its own
clock. The server has its own clock. Of its time a creation timestamp and the `Date` of a list keep
the whole seconds, and a list is dated some time after it was read. The server answers with what is
there, or fails, and a call that fails may have taken effect. Between the calls the kubelet reports
what becomes of pods, pods vanish, and others put pods of their own. What each attempt to create a
pod has come to is written down next to the objects: who made it, when its Secret was created, and
whether its create has been called.
-/

namespace Pkzz.Kube

open Pkzz.Lib

/-- The clock of the server runs in nanoseconds. -/
def nanosPerSec : Int := 1000000000

/-- What a timestamp and a `Date` keep of a time. -/
def wholeSeconds (time : Int) : Int := time / nanosPerSec

/-- An attempt to create a pod, by the name of its Secret. -/
structure Attempt where
  owner : Nat
  /-- When the Secret was created, to the nanosecond. -/
  born : Option Int
  closed : Bool
deriving DecidableEq

structure Server where
  clock : Int
  pods : OrderedMap String Pod
  secrets : OrderedMap String Secret
  attempts : OrderedMap String Attempt
  /-- The Secrets that a deploy has deleted. -/
  deleted : List String

/-- How a call turns out, as far as the server's state leaves it open. -/
structure Reply where
  /-- The call fails, with a text. -/
  error : Option String
  /-- It takes effect all the same. -/
  landed : Bool
  /-- The order of a list. -/
  pods : List Pod
  secrets : List Secret
  /-- The list carries the server's clock, read so much after the list was. -/
  dated : Option Nat
  /-- What is given to a pod that is created or marked for deletion. -/
  uid : String
  resourceVersion : String
  /-- A deleted pod is gone at once. -/
  gone : Bool
  /-- What the deploy's own machine says. -/
  elapsed : Nat
  generation : String

section Serve

variable (identity : AgentIdentity)

def Pod.IsOurs (pod : Pod) : Prop := (verify pod identity .started).isSome

def Pod.Terminated (pod : Pod) : Prop := decodeStartup pod = .resolved .terminated

instance (pod : Pod) : Decidable (pod.IsOurs identity) := inferInstanceAs (Decidable (_ = true))

instance (pod : Pod) : Decidable pod.Terminated := by
  unfold Pod.Terminated
  exact inferInstance

/-- The labels that the selector of the agent asks for. -/
def selects (labels : Option (Map String String)) : Bool :=
  match labels with
  | none => false
  | some labels =>
    labels.lookup labelAgentPubkey == some identity.labelPubkey &&
      labels.lookup labelManagedBy == some managedBy

namespace Server

/-- The reply's text, or a value. -/
def answer {α : Type} (reply : Reply) (a : α) : Except String α :=
  match reply.error with
  | some e => .error e
  | none => .ok a

/-- A call takes effect when it does not fail, or in spite of that. -/
def effective (reply : Reply) : Bool := reply.error.isNone || reply.landed

/-- An attempt is made. -/
def mint (w : Server) (i : Nat) (secretName : String) : Server :=
  { w with attempts := w.attempts.set secretName ⟨i, none, false⟩ }

/-- The Secret gets its creation timestamp. -/
def putSecret (w : Server) (name : String) (secret : Secret) : Server :=
  { w with
    secrets := w.secrets.set name { secret with creationTimestamp := some (wholeSeconds w.clock) },
    attempts :=
      match w.attempts.get name with
      | some a => w.attempts.set name { a with born := some w.clock }
      | none => w.attempts }

/-- The create of an attempt has been called. -/
def close (w : Server) (pod : Pod) : Server :=
  match referencedSecret pod with
  | none => w
  | some name =>
    match w.attempts.get name with
    | some a => { w with attempts := w.attempts.set name { a with closed := true } }
    | none => w

def putPod (w : Server) (name : String) (pod : Pod) (reply : Reply) : Server :=
  { w with
    pods := w.pods.set name { pod with
      uid := some reply.uid, resourceVersion := some reply.resourceVersion } }

/-- An accepted delete: the pod is gone, or marked and in a new version. -/
def endPod (w : Server) (name : String) (pod : Pod) (reply : Reply) : Server :=
  if reply.gone then { w with pods := w.pods.erase name }
  else
    { w with
      pods := w.pods.set name
        { pod with
          deletionTimestamp := some (wholeSeconds w.clock),
          resourceVersion := some reply.resourceVersion } }

def dropSecret (w : Server) (name : String) : Server :=
  { w with secrets := w.secrets.erase name, deleted := w.deleted ++ [name] }

/-- How the server answers a call of deploy `i`, and what becomes of it. -/
def serve (w : Server) (i : Nat) (reply : Reply) : (c : Call) → Option (c.Answer × Server)
  | .ensureNamespace _ => some (answer reply (), w)
  | .listPods _ =>
    if reply.pods.Perm (w.pods.values.filter fun p => selects identity p.labels) then
      some (answer reply (reply.pods, reply.dated.map fun late : Nat =>
        wholeSeconds (w.clock + late)), w)
    else none
  | .listSecrets _ =>
    if reply.secrets.Perm (w.secrets.values.filter fun s => selects identity s.labels) then
      some (answer reply reply.secrets, w)
    else none
  | .secretExists name => some (answer reply (w.secrets.get name).isSome, w)
  | .createSecret secret =>
    match secret.name with
    | none => none
    | some name =>
      if (w.secrets.get name).isSome then
        -- the name is taken
        match reply.error with
        | some e => some (.error e, w)
        | none => none
      else some (answer reply (), if effective reply then w.putSecret name secret else w)
  | .createPod pod =>
    match pod.name with
    | none => none
    | some name =>
      if (w.pods.get name).isSome then some (answer reply .alreadyExists, w.close pod)
      else some (answer reply .created, if effective reply then
        (w.close pod).putPod name pod reply else w.close pod)
  | .deletePod name fence =>
    match w.pods.get name with
    | none => some (answer reply .notFound, w)
    | some pod =>
      if pod.uid = some fence.uid ∧ pod.resourceVersion = some fence.resourceVersion then
        some (answer reply .accepted, if effective reply then w.endPod name pod reply else w)
      else some (answer reply .preconditionFailed, w)
  | .deleteSecret name => some (answer reply (), if effective reply then w.dropSecret name else w)
  | .getPod name => some (answer reply (w.pods.get name), w)
  | .sleep => some ((), w)
  | .elapsed => some (reply.elapsed, w)
  | .newGeneration => some (reply.generation, w.mint i (identity.secretName reply.generation))

/-- What the kubelet may change of a pod: its status, its version and a deletion mark. It never
restarts a container (the restart policy is `Never`), so a terminated pod stays terminated. -/
def Reports (old new : Pod) : Prop :=
  new.name = old.name ∧ new.uid = old.uid ∧ new.labels = old.labels ∧
    new.annotations = old.annotations ∧
    new.spec = old.spec ∧ new.resourceVersion.isSome = old.resourceVersion.isSome ∧
      (old.Terminated → new.Terminated)

instance (old new : Pod) : Decidable (Reports old new) := by
  unfold Reports
  exact inferInstance

end Server

end Serve

/-- Deploys by number, each with the record of its calls. -/
structure Deploys where
  server : Server
  processes : Nat → Process
  logs : Nat → List Event

inductive DeploysMove where
  | tick (nanos : Nat)
  /-- The kubelet, or whoever marks a pod for deletion. -/
  | report (name : String) (pod : Pod)
  | vanish (name : String)
  /-- A pod that is not the agent's, under a name that is free. -/
  | foreign (name : String) (pod : Pod)
  | call (i : Nat) (reply : Reply)

namespace Deploys

variable (identity : AgentIdentity) (cfg : Nat → ProviderConfig) (desired : Nat → String)

/-- Deploy `i` goes on. -/
def proceed (s : Deploys) (i : Nat) (w : Server) (process : Process) (log : List Event) : Deploys :=
  ⟨w, Function.update s.processes i process, Function.update s.logs i log⟩

def step (s : Deploys) : DeploysMove → Option Deploys
  | .tick nanos => some { s with server := { s.server with clock := s.server.clock + nanos } }
  | .report name pod =>
    match s.server.pods.get name with
    | none => none
    | some old =>
      if Server.Reports old pod then
        some { s with server := { s.server with pods := s.server.pods.set name pod } }
      else none
  | .vanish name => some { s with server := { s.server with pods := s.server.pods.erase name } }
  | .foreign name pod =>
    if (s.server.pods.get name).isNone ∧ pod.name = some name ∧ ¬ pod.IsOurs identity then
      some { s with server := { s.server with pods := s.server.pods.set name pod } }
    else none
  | .call i reply =>
    match s.processes i with
    | .finished _ => none
    | .running _ (.done (.inl b)) =>
      some (s.proceed i s.server (.running b (body identity (cfg i) (desired i) b)) (s.logs i))
    | .running _ (.done (.inr result)) => some (s.proceed i s.server (.finished result) (s.logs i))
    | .running b (.call c next) =>
      (s.server.serve identity i reply c).map fun served =>
        s.proceed i served.2 (.running b (next served.1)) (s.logs i ++ [⟨c, served.1⟩])

def machine : Machine Deploys DeploysMove := ⟨step identity cfg desired⟩

/-- An empty server, and every deploy before its first call. -/
def start : Deploys :=
  { server := ⟨0, .empty, .empty, .empty, []⟩, processes := fun i => .start (cfg i),
    logs := fun _ => [] }

/-- What the deploys are promised: a generation is new, and a pod is created less than `window`
after the Secret it names. -/
def Promised (window : Nat) (s : Deploys) : DeploysMove → Prop
  | .call i reply =>
    match s.processes i with
    | .running _ (.call .newGeneration _) =>
        s.server.attempts.get (identity.secretName reply.generation) = none
    | .running _ (.call (.createPod pod) _) =>
      ∀ name a born, referencedSecret pod = some name → s.server.attempts.get name = some a →
        a.born = some born → s.server.clock < born + window
    | _ => True
  | _ => True

/-- A list is dated at most `delay` after it was read. -/
def Prompt (delay : Int) : DeploysMove → Prop
  | .call _ reply => ∀ late, reply.dated = some late → late ≤ delay
  | _ => True

/-- How late a list may be dated, so that no Secret in it looks too old while its pod may yet be
created. A timestamp and a `Date`, each cut to whole seconds, are up to a second further apart than
the times they stand for. -/
def slack (window : Nat) : Int := (orphanSecretMinAgeSecs - 1) * nanosPerSec - window

end Deploys

end Pkzz.Kube
