import Mathlib.Data.Set.Basic
import Pkzz.Git.Manifest
import Pkzz.Lib.ContentStore
import Pkzz.Lib.FileTree

/-!
# Publishing a push

`buzz-relay`'s `api/git/store.rs`, `hydrate.rs` and `cas_publish.rs`: a push reads the
pointer of its repository once, hydrates a workspace from the manifest the pointer names,
lets `receive-pack` change the refs there, uploads what the new refs need, uploads a
manifest and swaps the pointer to it. Nothing but the conditional write of the pointer
orders two pushes.

The functions of the source come first, over a `Backend` that stands for the hash, the
entity tags of the object store and the JSON deserializer, and over `GitObjects`, which
says what git sees in a pack file. The second half runs any number of pushes on one
repository against one store, in any interleaving. Other repositories share the store of
packs and manifests (their puts are steps here too), but not the pointer.
-/

namespace Pkzz.Git

open Pkzz.Core Pkzz.Lib

/-! ## Code that is not part of the repository -/

/-- The hash, the store's entity tags and the JSON reader. -/
structure Backend where
  /-- SHA-256. -/
  sha256 : List UInt8 → FixedBytes 32
  /-- The entity tag under which the store serves an object with this body. -/
  etag : String → String
  /-- `serde_json::from_slice` at the type `Manifest`. -/
  fromSlice : List UInt8 → Option Manifest
  /-- What `serde_json` wrote it reads back. -/
  fromSlice_toVec : ∀ m, fromSlice m.toVec = some m

/-- Git objects, as `pack-objects` and `index-pack` see them. -/
structure GitObjects where
  Obj : Type
  /-- The objects reachable from the object with this id. -/
  reach : String → Set Obj
  /-- The objects a pack file holds. -/
  contents : List UInt8 → Set Obj
  contents_nil : contents [] = ∅

namespace GitObjects

def reachable (G : GitObjects) (tips : List String) : Set G.Obj := {o | ∃ t ∈ tips, o ∈ G.reach t}

/-- What `git pack-objects --revs` over `tips`, excluding `excluded`, writes: together the
pack files hold exactly the objects reachable from the one and not from the other. -/
def PackObjects (G : GitObjects) (tips excluded : List String) (outs : List (List UInt8)) : Prop :=
  ∀ o, (∃ b ∈ outs, o ∈ G.contents b) ↔ o ∈ G.reachable tips ∧ o ∉ G.reachable excluded

end GitObjects

/-! ## The object store -/

abbrev Objects := Map String (List UInt8)

inductive StoreError where
  | notFound (key : String)
  | digestMismatch (key expected actual : String)
  | objectTooLarge (key : String) (size max : Nat)
  deriving DecidableEq

inductive Precond where
  | ifMatch (etag : String)
  | ifNoneMatchStar
  deriving DecidableEq

inductive CasOutcome where
  | won (etag : String)
  | lostRace
  deriving DecidableEq

namespace Backend

variable (B : Backend)

def digestHex (bytes : List UInt8) : String := (B.sha256 bytes).toHex

/-- `<kind>/<hex sha256(bytes)>`. -/
def contentKey (kind : String) (bytes : List UInt8) : String := kind ++ "/" ++ B.digestHex bytes

def getVerifiedLimited (objects : Objects) (key digest : String) (maxBytes : Nat) :
    Except StoreError (List UInt8) :=
  match Finmap.lookup key objects with
  | none => .error (.notFound key)
  | some bytes =>
    if bytes.length > maxBytes then .error (.objectTooLarge key bytes.length maxBytes)
    else if B.digestHex bytes ≠ digest then
      .error (.digestMismatch key digest (B.digestHex bytes))
    else .ok bytes

def getPointer (pointer : Option String) : Option (String × String) :=
  pointer.map fun body => (B.etag body, body)

/-- The conditional write: the answer, and the pointer after it. -/
def putPointer (pointer : Option String) (body : String) (precond : Precond) :
    CasOutcome × Option String :=
  let holds :=
    match precond with
    | .ifMatch tag => decide (pointer.map B.etag = some tag)
    | .ifNoneMatchStar => pointer.isNone
  if holds then (.won (B.etag body), some body) else (.lostRace, pointer)

end Backend

/-! ## Hydration -/

def maxManifestBytes : Nat := 4 * 1024 * 1024

inductive HydrateError where
  | invalidPointer
  | manifest (error : ManifestError)
  | store (error : StoreError)
  | malformedPackKey (key : String)
  | unsafeRefname (refname : String)
  | malformedOid (refname : String)
  | unsafeHead (head : String)
  | resourceLimit (message : String)
  | malformedDigest
  | copyCachedPack (error : FsError)
  | mkdir (parent : List String) (error : FsError)
  | writeRef (refname : String) (error : FsError)
  | writeHead (error : FsError)
  deriving DecidableEq

/-- An object that is too large is a resource limit here. -/
def HydrateError.ofStore : StoreError → HydrateError
  | .objectTooLarge key size max =>
    .resourceLimit s!"object {key} is {size} bytes (max {max})"
  | e => .store e

structure HydrationOptions where
  maxPackBytes : Nat
  maxRepoBytes : Nat

/-- The bare repository a manifest is materialized into: its packs, its refs and its `HEAD`. -/
structure HydratedRepo where
  packs : List (List UInt8)
  refs : SortedMap String
  head : String
  hydratedBytes : Nat
  deriving DecidableEq

namespace Backend

variable (B : Backend)

/-- `load_pointer` once the pointer has been read: the digest and the verified manifest. -/
def loadManifest (objects : Objects) (body : String) : Except HydrateError (String × Manifest) :=
  let digest := Str.trim body
  if Str.len digest ≠ 64 || !(digest.toList.all Str.isAsciiHexdigit) then .error .invalidPointer
  else
    match B.getVerifiedLimited objects ("manifests/" ++ digest) digest maxManifestBytes with
    | .error e => .error (.ofStore e)
    | .ok bytes =>
      match Manifest.fromBytes B.fromSlice bytes with
      | .error e => .error (.manifest e)
      | .ok m =>
        match m.validate with
        | .error e => .error (.manifest e)
        | .ok () => .ok (digest, m)

/-- Phase 1 of `materialize_manifest`: fetch the packs one at a time. The pack cache hands
out only packs it fetched this way. -/
def materializePacks (objects : Objects) (options : HydrationOptions) :
    List String → Nat → Except HydrateError (List (List UInt8) × Nat)
  | [], total => .ok ([], total)
  | key :: keys, total =>
    match Str.stripPrefix key "packs/" with
    | none => .error (.malformedPackKey key)
    | some digest =>
      match B.getVerifiedLimited objects key digest options.maxPackBytes with
      | .error e => .error (.ofStore e)
      | .ok bytes =>
        let size := bytes.length
        let needed := total + size
        let max := options.maxRepoBytes
        if needed ≥ 2 ^ 64 then .error (.resourceLimit "repo byte count overflowed u64")
        else if needed > max then
          .error (.resourceLimit s!"repo needs {needed} hydrated bytes (max {max})")
        else
          match materializePacks objects options keys needed with
          | .error e => .error e
          | .ok (packs, sum) => .ok (bytes :: packs, sum)

/-- Phase 2, the refs. -/
def installRefs : List (String × String) → Except HydrateError Unit
  | [] => .ok ()
  | (refname, oid) :: rest =>
    if !isSafeRefname refname then .error (.unsafeRefname refname)
    else if !isHexOid oid then .error (.malformedOid refname)
    else installRefs rest

/-- The repository as a value. The files it consists of, which cannot always be written, are in
`Hydrate.lean`. -/
def materializeManifest (objects : Objects) (options : HydrationOptions) (m : Manifest) :
    Except HydrateError HydratedRepo :=
  match B.materializePacks objects options m.packs 0 with
  | .error e => .error e
  | .ok (packs, hydratedBytes) =>
    match installRefs m.refs.entries with
    | .error e => .error e
    | .ok () =>
      if !isSafeRefname m.head then .error (.unsafeHead m.head)
      else .ok { packs := packs, refs := m.refs, head := m.head, hydratedBytes := hydratedBytes }

end Backend

/-! ## Composing a manifest -/

/-- What a push read before `receive-pack` ran, and predicates its write on. -/
structure ParentState where
  ifMatch : Option String
  parentDigest : Option String
  parent : Manifest
  deriving DecidableEq

namespace ParentState

def fresh : ParentState where
  ifMatch := none
  parentDigest := none
  parent :=
    { version := manifestVersion, head := "", refs := SortedMap.empty, packs := [], parent := none }

def fromLoaded (etag digest : String) (parent : Manifest) : ParentState where
  ifMatch := some etag
  parentDigest := some digest
  parent := parent

def precond (ps : ParentState) : Precond :=
  match ps.ifMatch with
  | some e => .ifMatch e
  | none => .ifNoneMatchStar

end ParentState

inductive CasError where
  | manifestInvalid (error : ManifestError)
  | packCapture (message : String)
  | resourceLimit (message : String)
  deriving DecidableEq

structure PublishOptions where
  maxPackBytes : Nat
  maxRepoBytes : Nat
  compactionThreshold : Nat

def resolvePublishedHead (refs : SortedMap String) (observedHead parentHead : String) : String :=
  let isPublishedBranch := fun name => Str.startsWith name "refs/heads/" && refs.containsKey name
  if isPublishedBranch observedHead then observedHead
  else if isPublishedBranch parentHead then parentHead
  else
    match ["refs/heads/main", "refs/heads/master"].find? refs.containsKey with
    | some preferred => preferred
    | none =>
      match refs.keys.find? fun name => Str.startsWith name "refs/heads/" with
      | some branch => branch
      | none => if observedHead ≠ "" then observedHead else parentHead

/-- `capture_pack` once `pack-objects` has written `out`. -/
def capturePack (refsAfter : SortedMap String) (maxPackBytes : Nat) (out : List UInt8) :
    Except CasError (Option (List UInt8)) :=
  let packLen := out.length
  if refsAfter.values.isEmpty then .ok none
  else if packLen > maxPackBytes then
    .error (.resourceLimit s!"pack-objects output is {packLen} bytes (max {maxPackBytes})")
  else if packLen = 0 then .ok none
  else .ok (some out)

def shouldCompact (parentPackCount threshold : Nat) : Bool := parentPackCount ≥ threshold

def compactedPackSetIsUsable (parentPackCount compactedPackCount : Nat) : Bool :=
  compactedPackCount < parentPackCount
    || (parentPackCount ≥ maxManifestPacks && compactedPackCount ≤ maxManifestPacks)

/-- The size checks of `capture_compacted_packs`, pack by pack. -/
def checkCompactedSizes (options : PublishOptions) : List (List UInt8) → Nat → Except CasError Unit
  | [], _ => .ok ()
  | pack :: packs, total =>
    let packBytes := pack.length
    let totalPackBytes := total + packBytes
    let max := options.maxPackBytes
    let maxRepo := options.maxRepoBytes
    if packBytes > max then
      .error (.resourceLimit s!"compacted pack is {packBytes} bytes (max {max})")
    else if totalPackBytes ≥ 2 ^ 64 then
      .error (.resourceLimit "compacted byte count overflowed u64")
    else if totalPackBytes > maxRepo then
      .error (.resourceLimit s!"compacted repo needs {totalPackBytes} bytes (max {maxRepo})")
    else checkCompactedSizes options packs totalPackBytes

/-- `capture_compacted_packs` once `pack-objects` has written `outs`. -/
def captureCompactedPacks (options : PublishOptions) (refsAfter : SortedMap String)
    (outs : List (List UInt8)) : Except CasError (List (List UInt8)) :=
  let count := outs.length
  if refsAfter.entries.isEmpty then .ok []
  else if count > maxManifestPacks then
    .error (.resourceLimit s!"compaction produced {count} packs (max {maxManifestPacks})")
  else
    match checkCompactedSizes options outs 0 with
    | .error e => .error e
    | .ok () => .ok outs

/-- `prepare_compaction` up to its uploads. -/
def prepareCompaction (options : PublishOptions) (refsAfter : SortedMap String) (packsBefore : Nat)
    (outs : List (List UInt8)) : Except CasError (List (List UInt8)) :=
  match captureCompactedPacks options refsAfter outs with
  | .error e => .error e
  | .ok packs =>
    let packsAfter := packs.length
    if !compactedPackSetIsUsable packsBefore packsAfter then
      .error (.resourceLimit
        s!"compaction did not reduce pack count (before {packsBefore}, after {packsAfter})")
    else .ok packs

def composeAfter (parent : Manifest) (parentDigest : Option String) (head : String)
    (refs : SortedMap String) (newPackKey : Option String) : Manifest :=
  let packs :=
    match newPackKey with
    | some k => if parent.packs.any (· == k) then parent.packs else parent.packs ++ [k]
    | none => parent.packs
  { version := manifestVersion
    head := head
    refs := refs
    packs := sortDedup packs
    parent := parentDigest }

def composeCompactedAfter (parentDigest : Option String) (head : String) (refs : SortedMap String)
    (compactedPackKeys : List String) : Manifest where
  version := manifestVersion
  head := head
  refs := refs
  packs := sortDedup compactedPackKeys
  parent := parentDigest

/-- The manifest a repository is announced with (`seed_manifest_pointer`). -/
def emptyManifest : Manifest where
  version := manifestVersion
  head := "refs/heads/main"
  refs := SortedMap.empty
  packs := []
  parent := none

/-- A push after `receive-pack`: the refs of the workspace, and the `HEAD` to publish. -/
structure Push where
  parentState : ParentState
  parentHydratedBytes : Nat
  refsAfter : SortedMap String
  head : String
  deriving DecidableEq

namespace Push

def packsBefore (push : Push) : Nat := push.parentState.parent.packs.length

/-- The delta branch of `cas_publish_inner`, up to the upload: the pack to put, if any. A
compaction that failed before says why when the repository cannot take one pack more. -/
def deltaPack (push : Push) (options : PublishOptions) (compactionFailure : Option CasError)
    (out : List UInt8) : Except CasError (Option (List UInt8)) :=
  let packsBefore := push.packsBefore
  let max := options.maxRepoBytes
  match capturePack push.refsAfter options.maxPackBytes out with
  | .error e => .error e
  | .ok none => .ok none
  | .ok (some bytes) =>
    let totalBytes := push.parentHydratedBytes + bytes.length
    if packsBefore ≥ maxManifestPacks then
      .error (compactionFailure.getD (.resourceLimit
        s!"repository already names {packsBefore} packs and compaction failed"))
    else if totalBytes ≥ 2 ^ 64 then .error (.resourceLimit "repo byte count overflowed u64")
    else if totalBytes > max then
      .error (.resourceLimit s!"repo would need {totalBytes} hydrated bytes (max {max})")
    else .ok (some bytes)

end Push

/-! ## Interleaved pushes -/

/-- How far a push, or an announcement, has come. -/
inductive Phase where
  | idle
  /-- `get_pointer` has answered. -/
  | pointerRead (etag body : String)
  /-- The workspace stands; `receive-pack` may run. -/
  | hydrated (parentState : ParentState) (hydratedBytes : Nat)
  /-- `receive-pack` has run and the refs have been read back. -/
  | received (push : Push)
  /-- Uploading the packs of a compaction, with the keys of those already put. -/
  | compacting (push : Push) (todo : List (List UInt8)) (packKeys : List String)
  /-- On the delta path; a compaction may have failed before. -/
  | capturing (push : Push) (compactionFailure : Option CasError)
  | composed (parentState : ParentState) (mAfter : Manifest)
  /-- The manifest is stored under its digest. -/
  | staged (parentState : ParentState) (mAfter : Manifest) (manifestDigest : String)
  | succeeded (manifest : Manifest)
  | failed

/-- One repository, its pushes and the store. -/
structure World (P : Type) where
  objects : Objects
  /-- The body of the repository's pointer. -/
  pointer : Option String
  pushes : P → Phase
  /-- Ghost: the manifests the pointer was ever set to, newest first. -/
  published : List Manifest
  /-- Ghost: every immutable object that was ever put, with its kind. -/
  puts : List (String × List UInt8)

namespace World

variable {P : Type} [DecidableEq P]

def init : World P where
  objects := ∅
  pointer := none
  pushes := fun _ => .idle
  published := []
  puts := []

def setPhase (w : World P) (p : P) (ph : Phase) : World P :=
  { w with pushes := Function.update w.pushes p ph }

/-- `put_immutable`: a key that is taken answers 412, which counts as success. -/
def putImmutable (w : World P) (B : Backend) (kind : String) (bytes : List UInt8) : World P :=
  { w with
    objects := w.objects.putNew (B.contentKey kind bytes) bytes
    puts := (kind, bytes) :: w.puts }

end World

/-- One step of one party. Every failure of a push is `fail`: a failing push leaves behind
what it has put, and a put that failed may have been stored (`putForeign`). -/
inductive Step {P : Type} [DecidableEq P] (B : Backend) (G : GitObjects)
    (hydration : HydrationOptions) (options : PublishOptions) : World P → World P → Prop
  /-- The first push finds no pointer. -/
  | hydrateFresh {w : World P} {p : P} : w.pushes p = .idle → B.getPointer w.pointer = none →
      Step B G hydration options w (w.setPhase p (.hydrated .fresh 0))
  | getPointer {w : World P} {p : P} {etag body : String} : w.pushes p = .idle →
      B.getPointer w.pointer = some (etag, body) →
      Step B G hydration options w (w.setPhase p (.pointerRead etag body))
  | hydrateForWrite {w : World P} {p : P} {etag body digest : String} {m : Manifest}
      {repo : HydratedRepo} :
      w.pushes p = .pointerRead etag body → B.loadManifest w.objects body = .ok (digest, m) →
      B.materializeManifest w.objects hydration m = .ok repo →
      Step B G hydration options w
        (w.setPhase p (.hydrated (.fromLoaded etag digest m) repo.hydratedBytes))
  /-- `receive-pack` may leave any refs behind. -/
  | receivePack {w : World P} {p : P} {ps : ParentState} {hydratedBytes : Nat}
      (refsAfter : SortedMap String) (observedHead : String) :
      w.pushes p = .hydrated ps hydratedBytes →
      Step B G hydration options w (w.setPhase p (.received
        { parentState := ps
          parentHydratedBytes := hydratedBytes
          refsAfter := refsAfter
          head := resolvePublishedHead refsAfter observedHead ps.parent.head }))
  | startCompaction {w : World P} {p : P} {push : Push} {outs packs : List (List UInt8)} :
      w.pushes p = .received push →
      shouldCompact push.packsBefore options.compactionThreshold = true →
      G.PackObjects push.refsAfter.values [] outs →
      prepareCompaction options push.refsAfter push.packsBefore outs = .ok packs →
      Step B G hydration options w (w.setPhase p (.compacting push packs []))
  | uploadCompacted {w : World P} {p : P} {push : Push} {bytes : List UInt8}
      {todo : List (List UInt8)} {packKeys : List String} :
      w.pushes p = .compacting push (bytes :: todo) packKeys →
      Step B G hydration options w ((w.putImmutable B "packs" bytes).setPhase p
        (.compacting push todo (packKeys ++ [B.contentKey "packs" bytes])))
  | composeCompacted {w : World P} {p : P} {push : Push} {packKeys : List String} :
      w.pushes p = .compacting push [] packKeys →
      Step B G hydration options w (w.setPhase p (.composed push.parentState
        (composeCompactedAfter push.parentState.parentDigest push.head push.refsAfter packKeys)))
  | skipCompaction {w : World P} {p : P} {push : Push} : w.pushes p = .received push →
      shouldCompact push.packsBefore options.compactionThreshold = false →
      Step B G hydration options w (w.setPhase p (.capturing push none))
  /-- No permit, a git failure, an unusable pack set: nothing was put yet. -/
  | abandonCompaction {w : World P} {p : P} {push : Push} (error : CasError) :
      w.pushes p = .received push →
      shouldCompact push.packsBefore options.compactionThreshold = true →
      Step B G hydration options w (w.setPhase p (.capturing push (some error)))
  /-- An upload failed, or the time for the whole operation ran out. -/
  | abandonUpload {w : World P} {p : P} {push : Push} {todo : List (List UInt8)}
      {packKeys : List String} (error : CasError) : w.pushes p = .compacting push todo packKeys →
      Step B G hydration options w (w.setPhase p (.capturing push (some error)))
  | publishRefsOnly {w : World P} {p : P} {push : Push} {failure : Option CasError}
      {out : List UInt8} :
      w.pushes p = .capturing push failure →
      G.PackObjects push.refsAfter.values push.parentState.parent.refs.values [out] →
      push.deltaPack options failure out = .ok none →
      Step B G hydration options w (w.setPhase p (.composed push.parentState
        (composeAfter push.parentState.parent push.parentState.parentDigest push.head
          push.refsAfter none)))
  | publishDelta {w : World P} {p : P} {push : Push} {failure : Option CasError}
      {out bytes : List UInt8} :
      w.pushes p = .capturing push failure →
      G.PackObjects push.refsAfter.values push.parentState.parent.refs.values [out] →
      push.deltaPack options failure out = .ok (some bytes) →
      Step B G hydration options w ((w.putImmutable B "packs" bytes).setPhase p
        (.composed push.parentState
          (composeAfter push.parentState.parent push.parentState.parentDigest push.head
            push.refsAfter (some (B.contentKey "packs" bytes)))))
  /-- An announcement composes the empty manifest, for a pointer that is not there. -/
  | seed {w : World P} {p : P} : w.pushes p = .idle →
      Step B G hydration options w (w.setPhase p (.composed .fresh emptyManifest))
  | putManifest {w : World P} {p : P} {ps : ParentState} {m : Manifest} :
      w.pushes p = .composed ps m → m.validate = .ok () →
      Step B G hydration options w ((w.putImmutable B "manifests" m.canonicalBytes).setPhase p
        (.staged ps m (B.digestHex m.canonicalBytes)))
  /-- The write took effect; its answer may be lost on the way back. -/
  | casWon {w : World P} {p : P} {ps : ParentState} {m : Manifest} {digest etag : String}
      {pointer : Option String} {answer : Phase} :
      w.pushes p = .staged ps m digest →
      B.putPointer w.pointer digest ps.precond = (.won etag, pointer) →
      answer = .succeeded m ∨ answer = .failed →
      Step B G hydration options w
        { w.setPhase p answer with pointer := pointer, published := m :: w.published }
  | casLostRace {w : World P} {p : P} {ps : ParentState} {m : Manifest} {digest : String}
      {pointer : Option String} :
      w.pushes p = .staged ps m digest →
      B.putPointer w.pointer digest ps.precond = (.lostRace, pointer) →
      Step B G hydration options w (w.setPhase p .failed)
  | fail {w : World P} (p : P) : Step B G hydration options w (w.setPhase p .failed)
  /-- Someone puts an immutable object: a push of another repository, or an upload of this one
  whose answer was an error. -/
  | putForeign {w : World P} (kind : String) (bytes : List UInt8) :
      Step B G hydration options w (w.putImmutable B kind bytes)

/-- The worlds a run can come to. -/
inductive Reachable {P : Type} [DecidableEq P] (B : Backend) (G : GitObjects)
    (hydration : HydrationOptions) (options : PublishOptions) : World P → Prop
  | init : Reachable B G hydration options World.init
  | tail {w w' : World P} : Reachable B G hydration options w → Step B G hydration options w w' →
      Reachable B G hydration options w'

end Pkzz.Git
