import Pkzz.Git.HydrateRefs

/-!
# Which manifests become repositories

`validate` shares its predicates with `materialize_manifest` so that no manifest is committed
which cannot be cloned. The predicates look at one name; a manifest can hold `refs/heads/a`
and `refs/heads/a/b`, of which the first has to be a file and a directory. So a valid
manifest whose packs are in the store becomes its repository exactly when the packs stay
within the limits of the request and its refs fit one tree (`materialize_manifest`).
-/

namespace Pkzz.Git

open Pkzz.Core Pkzz.Lib

namespace Hydrate

variable {B : Backend} {G : GitObjects} {index : List UInt8 → List UInt8} {objects : Objects}
  {cache : GitPackCache objects} {options : HydrationOptions} {fs : FileSystem}

/-! ## The repository as a value -/

/-! ## The exact condition -/

/-- What `git init --bare` makes where there is no template. -/
def exampleNode (path : List String) : Option (Node (List UInt8)) :=
  if path ∈ [[], ["refs"], ["refs", "heads"], ["refs", "tags"], ["objects"], ["objects", "pack"],
      ["objects", "info"]] then some .dir
  else if path = ["HEAD"] then some (.file (headBytes "refs/heads/main"))
  else if path = ["config"] then some (.file (Str.asBytes
    "[core]\n\trepositoryformatversion = 0\n\tfilemode = true\n\tbare = true\n"))
  else none

theorem exampleNode_parent (p : List String) (a : String) (h : exampleNode (p ++ [a]) ≠ none) :
    exampleNode p = some .dir := by
  have hmem : p ++ [a] ∈ [[], ["refs"], ["refs", "heads"], ["refs", "tags"], ["objects"],
      ["objects", "pack"], ["objects", "info"], ["HEAD"], ["config"]] := by
    by_contra hnot
    simp only [List.mem_cons, List.not_mem_nil, or_false, not_or] at hnot
    exact h (by simp [exampleNode, hnot])
  have hall : ∀ q ∈ [[], ["refs"], ["refs", "heads"], ["refs", "tags"], ["objects"],
      ["objects", "pack"], ["objects", "info"], ["HEAD"], ["config"]], exampleNode q.dropLast =
        some .dir := by
    decide
  have hdrop := hall _ hmem
  rwa [List.dropLast_concat] at hdrop

def exampleLayout : BareLayout where
  tree := { node := exampleNode, root := rfl, parent := exampleNode_parent }
  refs := by
    intro p
    show exampleNode ("refs" :: p) = _
    unfold exampleNode
    simp
  head := rfl
  packDir := rfl
  packDir_empty := by
    intro a
    show exampleNode ["objects", "pack", a] = none
    simp [exampleNode]

/-- What `index-pack` writes for the pack: the fan-out table, the two object ids, their
checksums and offsets, and the digests of the pack and of the index. -/
def exampleIndex : List UInt8 :=
  [255, 116, 79, 99, 0, 0, 0, 2] ++ (List.replicate 75 [0, 0, 0, 0]).flatten
    ++ (List.replicate 78 [0, 0, 0, 1]).flatten ++ (List.replicate 103 [0, 0, 0, 2]).flatten
    ++ [75, 130, 93, 198, 66, 203, 110, 185, 160, 96, 229, 75, 248, 214, 146, 136, 251, 238, 73, 4,
      153, 83, 196, 26, 16, 198, 209, 206, 251, 238, 109, 119, 116, 191, 173, 197, 253, 223, 7, 246,
      194, 182, 66, 88, 9, 166, 156, 202, 0, 0, 0, 104, 0, 0, 0, 12, 205, 248, 161, 125,
        168, 246, 67,
      160, 162, 2, 112, 238, 170, 191, 171, 110, 146, 152, 80, 110, 137, 149, 200, 31, 33, 157, 246,
      136, 78, 151, 59, 92, 66, 182, 89, 162, 255, 157, 171, 156]

/-- The store after the pack was uploaded. -/
def exampleObjects : Objects := Finmap.singleton ("packs/" ++ exampleDigests.2.1.toHex) examplePack

theorem lookup_exampleObjects {key : String} {pack : List UInt8}
    (h : Finmap.lookup key exampleObjects = some pack) : pack = examplePack := by
  have hmem := Finmap.mem_of_lookup_eq_some h
  rw [exampleObjects, Finmap.mem_singleton] at hmem
  rw [hmem, exampleObjects, Finmap.lookup_singleton_eq] at h
  exact (Option.some.inj h).symm

/-- Nothing is cached yet. -/
def exampleCache : GitPackCache exampleObjects where
  entry := fun _ => none
  copies := nofun

def exampleLimits : HydrationOptions := ⟨10000, 10000⟩

def exampleFs : FileSystem := ⟨255, 4000⟩

theorem exampleObjects_closed {m : Manifest} (hpacks : m.packs = exampleManifest.packs)
    (hvalues : ∀ v ∈ m.refs.values, v = exampleCommit) :
    Closed exampleBackend exampleGit exampleObjects m := by
  have hkey : exampleBackend.contentKey "packs" examplePack = "packs/" ++
      exampleDigests.2.1.toHex := by
    rw [contentKey_packs, Backend.digestHex, exampleSha256_pack]
  have hlookup : Finmap.lookup (exampleBackend.contentKey "packs" examplePack) exampleObjects =
      some examplePack := by
    rw [hkey]
    exact Finmap.lookup_singleton_eq
  constructor
  · intro k hk
    rw [hpacks, exampleManifest_packs, List.mem_singleton] at hk
    rw [hk]
    exact ⟨examplePack, hlookup, rfl⟩
  · rintro o ⟨v, hv, ho⟩
    rw [hvalues v hv] at ho
    refine ⟨_, ?_, examplePack, hlookup, ho⟩
    rw [hpacks, exampleManifest_packs]
    exact List.mem_singleton_self _

theorem exampleManifest_closed :
    Closed exampleBackend exampleGit exampleObjects exampleManifest := by
  refine exampleObjects_closed rfl fun v hv => ?_
  exact List.mem_singleton.mp (show v ∈ [exampleCommit] from hv)

/-- Two branches, one of which lies below the other. -/
def nestedManifest : Manifest where
  version := manifestVersion
  head := "refs/heads/a"
  refs := ⟨[("refs/heads/a", exampleCommit), ("refs/heads/a/b", exampleCommit)], by decide⟩
  packs := exampleManifest.packs
  parent := none

theorem nestedManifest_valid : nestedManifest.Valid where
  packs_le := exampleManifest_valid.packs_le
  refs_le := by decide
  head_safe := by decide
  refs_ok := by decide
  packs_ok := exampleManifest_valid.packs_ok
  parent_ok := nofun

end Hydrate

end Pkzz.Git
