import Pkzz.Git.Closure

/-!
# Writing a manifest out

`buzz-relay`'s `api/git/hydrate.rs` and the part of `pack_cache.rs` a single request sees:
`materialize_manifest` lays a manifest out as a bare repository in a fresh directory. It
installs every pack first and only then writes one file for each ref, at the path the ref's
name spells, and `HEAD`.

The checks a manifest passed looked at one ref at a time; the files share one tree.
-/

namespace Pkzz.Git

open Pkzz.Core Pkzz.Lib

namespace Hydrate

/-- The directory of one request. Paths are relative to it. -/
abbrev Tree := FileTree String (List UInt8)

/-! ## Code that is not part of the repository -/

/-- The limits of the file system below the directory, in octets. -/
structure FileSystem where
  nameMax : Nat
  pathMax : Nat

/-- The file system takes a path with these names. -/
def FileSystem.takes (fs : FileSystem) (path : List String) : Bool :=
  path.all (fun name => decide (Str.len name ≤ fs.nameMax))
    && decide ((path.map Str.len).sum + path.length ≤ fs.pathMax)

def headBytes (head : String) : List UInt8 := Str.asBytes ("ref: " ++ head ++ "\n")

/-- Loose ref format: oid and newline. -/
def refBytes (oid : String) : List UInt8 := Str.asBytes (oid ++ "\n")

/-- What `git init --bare` and `git symbolic-ref HEAD refs/heads/main` leave. -/
structure BareLayout where
  tree : Tree
  /-- The only things below `refs` are two empty directories. -/
  refs : ∀ p, tree.node ("refs" :: p) =
    if p = [] ∨ p = ["heads"] ∨ p = ["tags"] then some .dir else none
  head : tree.read ["HEAD"] = some (headBytes "refs/heads/main")
  packDir : tree.node ["objects", "pack"] = some .dir
  packDir_empty : ∀ a, tree.node ["objects", "pack", a] = none

/-- The packs the process has ready, by digest. An entry was copied from the object store,
where a pack is never written again. -/
structure GitPackCache (objects : Objects) where
  entry : String → Option (List UInt8)
  copies : ∀ digest pack, entry digest = some pack →
    ∀ stored, Finmap.lookup ("packs/" ++ digest) objects = some stored → stored = pack

/-! ## Packs -/

def packPath (digest ext : String) : List String := ["objects", "pack", "pack-" ++ digest ++ ext]

def validateDigest (digest : String) : Bool :=
  Str.len digest == 64 && digest.toList.all Str.isAsciiHexdigit

/-- `install_entry`: a hard link, or a copy where a file is in the way. -/
def installEntry (t : Tree) (digest : String) (pack idx : List UInt8) : Except HydrateError Tree :=
  match t.write (packPath digest ".pack") pack with
  | .error e => .error (.copyCachedPack e)
  | .ok t =>
    match t.write (packPath digest ".idx") idx with
    | .error e => .error (.copyCachedPack e)
    | .ok t => .ok t

variable (B : Backend) (index : List UInt8 → List UInt8) {objects : Objects}
  (cache : GitPackCache objects) (options : HydrationOptions) (fs : FileSystem)

/-- A miss: `populate`, where `index` is what `git index-pack` writes (a sidecar that does
not verify is made anew), and the installation. -/
def populate (objects : Objects) (t : Tree) (key digest : String) :
    Except HydrateError (Tree × Nat) :=
  match B.getVerifiedLimited objects key digest options.maxPackBytes with
  | .error e => .error (.ofStore e)
  | .ok pack =>
    let idx := index pack
    let size := idx.length
    let max := options.maxPackBytes
    if size > max then
      .error (.resourceLimit s!"generated idx {digest} is {size} bytes (max {max})")
    else
      match installEntry t digest pack idx with
      | .error e => .error e
      | .ok t => .ok (t, pack.length)

/-- The new tree and the length of the pack. An entry that cannot be installed is dropped. -/
def materializePack (t : Tree) (key digest : String) : Except HydrateError (Tree × Nat) :=
  if !validateDigest digest then .error .malformedDigest
  else
    match cache.entry digest with
    | none => populate B index options objects t key digest
    | some pack =>
      match installEntry t digest pack (index pack) with
      | .error _ => populate B index options objects t key digest
      | .ok t => .ok (t, pack.length)

/-- Phase 1, where `total` is `hydrated_bytes` so far. -/
def installPacks (t : Tree) : List String → Nat → Except HydrateError (Tree × Nat)
  | [], total => .ok (t, total)
  | key :: keys, total =>
    match Str.stripPrefix key "packs/" with
    | none => .error (.malformedPackKey key)
    | some digest =>
      match materializePack B index cache options t key digest with
      | .error e => .error e
      | .ok (t, size) =>
        let max := options.maxPackBytes
        let needed := total + size
        let maxRepo := options.maxRepoBytes
        if size > max then
          .error (.resourceLimit s!"pack {digest} is {size} bytes (max {max})")
        else if needed ≥ 2 ^ 64 then .error (.resourceLimit "repo byte count overflowed u64")
        else if needed > maxRepo then
          .error (.resourceLimit s!"repo needs {needed} hydrated bytes (max {maxRepo})")
        else installPacks t keys needed

/-! ## Refs -/

/-- The names of a ref's path, as they are written. -/
def components (refname : String) : List String := Str.split refname '/'

/-- Where the path leads: `.` is the directory it stands in. (An accepted name has neither an
empty component nor `..`.) -/
def resolve (path : List String) : List String := path.filter fun name => name ≠ "."

/-- `create_dir_all` on `Path::parent`, which passes over `.`. -/
def createParent (t : Tree) (path : List String) : Except FsError Tree :=
  if !fs.takes (resolve path).dropLast then .error .invalidFilename
  else t.mkdirAll (resolve path).dropLast

/-- `fs::write`. A path that ends in `.` names a directory, whatever is there. -/
def writeFile (t : Tree) (path : List String) (bytes : List UInt8) : Except FsError Tree :=
  if !fs.takes path then .error .invalidFilename
  else if path.getLast? = some "." then
    match t.node (resolve path) with
    | some .dir => .error .isADirectory
    | some (.file _) => .error .notADirectory
    | none => .error (t.lookupError (resolve path))
  else t.write (resolve path) bytes

/-- Phase 2, one ref. -/
def installRef (t : Tree) (refname oid : String) : Except HydrateError Tree :=
  if !isSafeRefname refname then .error (.unsafeRefname refname)
  else if !isHexOid oid then .error (.malformedOid refname)
  else
    let path := components refname
    match createParent fs t path with
    | .error e => .error (.mkdir (resolve path).dropLast e)
    | .ok t =>
      match writeFile fs t path (refBytes oid) with
      | .error e => .error (.writeRef refname e)
      | .ok t => .ok t

def installRefs (t : Tree) : List (String × String) → Except HydrateError Tree
  | [] => .ok t
  | (refname, oid) :: refs =>
    match installRef fs t refname oid with
    | .error e => .error e
    | .ok t => installRefs t refs

structure HydratedRepo where
  tree : Tree
  hydratedBytes : Nat
  hydratedPacks : Nat

/-- `materialize_manifest`, from the directory `git init` has filled. -/
def materializeManifest (layout : BareLayout) (m : Manifest) : Except HydrateError HydratedRepo :=
  match installPacks B index cache options layout.tree m.packs 0 with
  | .error e => .error e
  | .ok (t, hydratedBytes) =>
    match installRefs fs t m.refs.entries with
    | .error e => .error e
    | .ok t =>
      if !isSafeRefname m.head then .error (.unsafeHead m.head)
      else
        match t.write ["HEAD"] (headBytes m.head) with
        | .error e => .error (.writeHead e)
        | .ok tree => .ok { tree, hydratedBytes, hydratedPacks := m.packs.length }

end Hydrate

end Pkzz.Git
