import Pkzz.Core.Ids
import Pkzz.Lib.Json
import Pkzz.Lib.Sorted

/-!
# Manifests

`buzz-relay`'s `api/git/manifest.rs`: the immutable snapshot of what a repository has
published. A manifest is stored under the digest of its canonical bytes, names the digest
of the manifest it replaces, and lists the packs that hold the objects of its refs.

`canonical_bytes` sorts the packs before it serializes, so it determines the manifest only
up to the order and repetition of its packs (`canonicalBytes_inj`).
-/

namespace Pkzz.Git

open Pkzz.Core Pkzz.Lib

def manifestVersion : UInt32 := 1
def maxManifestPacks : Nat := 128
def packCompactionThreshold : Nat := maxManifestPacks * 3 / 4
def maxManifestRefs : Nat := 10000

structure Manifest where
  version : UInt32
  head : String
  refs : SortedMap String
  packs : List String
  parent : Option String
  deriving DecidableEq

/-- An `UnsupportedVersion` and a `TooMany…` carry what was found and what is allowed. -/
inductive ManifestError where
  | serde
  | unsupportedVersion (got expected : UInt32)
  | unsafeRefName (name : String)
  | malformedOid (refname oid : String)
  | emptyHead
  | malformedParent (parent : String)
  | tooManyPacks (got max : Nat)
  | tooManyRefs (got max : Nat)
  | malformedPackKey (key : String)
  deriving DecidableEq

/-! ## Field checks -/

def isSafeRefname (s : String) : Bool :=
  if !Str.startsWith s "refs/" then false
  else if Str.contains s ".." || Str.contains s "//" || Str.startsWith s "/" ||
    Str.endsWith s "/" then
    false
  else s.toList.all fun c => c.isAlphanum || c == '/' || c == '_' || c == '.' || c == '-'

def isHexOid (s : String) : Bool :=
  (Str.len s == 40 || Str.len s == 64) && s.toList.all Str.isAsciiHexdigit

def isManifestDigest (s : String) : Bool :=
  Str.len s == 64 && s.toList.all fun c => c.isDigit || ('a' ≤ c && c ≤ 'f')

def isPackKey (s : String) : Bool :=
  match Str.stripPrefix s "packs/" with
  | some digest => isManifestDigest digest
  | none => false

theorem isManifestDigest_toHex (a : FixedBytes 32) : isManifestDigest a.toHex = true := by
  unfold isManifestDigest
  rw [FixedBytes.len_toHex, Bool.and_eq_true]
  exact ⟨rfl, List.all_eq_true.mpr (FixedBytes.toHex_isLowerHexdigit a)⟩

namespace Manifest

/-- What is wrong with one entry of `refs`; the name is looked at first. -/
def refError (e : String × String) : Option ManifestError :=
  if !isSafeRefname e.1 then some (.unsafeRefName e.1)
  else if !isHexOid e.2 then some (.malformedOid e.1 e.2)
  else none

def packError (key : String) : Option ManifestError :=
  if !isPackKey key then some (.malformedPackKey key) else none

def parentError (parent : Option String) : Option ManifestError :=
  match parent with
  | some p => if !isManifestDigest p then some (.malformedParent p) else none
  | none => none

/-- Both loops stop at the first entry that fails. -/
def validate (m : Manifest) : Except ManifestError Unit :=
  if m.packs.length > maxManifestPacks then
    .error (.tooManyPacks m.packs.length maxManifestPacks)
  else if m.refs.entries.length > maxManifestRefs then
    .error (.tooManyRefs m.refs.entries.length maxManifestRefs)
  else if m.head.isEmpty then .error .emptyHead
  else if !isSafeRefname m.head then .error (.unsafeRefName m.head)
  else
    match m.refs.entries.findSome? refError with
    | some e => .error e
    | none =>
      match m.packs.findSome? packError with
      | some e => .error e
      | none =>
        match parentError m.parent with
        | some e => .error e
        | none => .ok ()

/-- What `validate` accepts. -/
structure Valid (m : Manifest) : Prop where
  /-- The pack list stays within what one hydration may read. -/
  packs_le : m.packs.length ≤ maxManifestPacks
  /-- The ref list stays within what one advertisement may send. -/
  refs_le : m.refs.entries.length ≤ maxManifestRefs
  /-- `HEAD` names a ref a reader will accept. -/
  head_safe : isSafeRefname m.head = true
  /-- So does every ref, and its value is an object id. -/
  refs_ok : ∀ e ∈ m.refs.entries, isSafeRefname e.1 = true ∧ isHexOid e.2 = true
  /-- Every pack is named by a content key. -/
  packs_ok : ∀ k ∈ m.packs, isPackKey k = true
  /-- The parent is a bare digest. -/
  parent_ok : ∀ p, m.parent = some p → isManifestDigest p = true

theorem refError_eq_none {e : String × String} :
    refError e = none ↔ isSafeRefname e.1 = true ∧ isHexOid e.2 = true := by
  unfold refError
  cases isSafeRefname e.1 <;> cases isHexOid e.2 <;> simp

theorem packError_eq_none {key : String} : packError key = none ↔ isPackKey key = true := by
  unfold packError
  cases isPackKey key <;> simp

theorem parentError_eq_none {parent : Option String} :
    parentError parent = none ↔ ∀ p, parent = some p → isManifestDigest p = true := by
  unfold parentError
  cases parent with
  | none => simp
  | some p =>
    cases h : isManifestDigest p with
    | true => simp [h]
    | false => simp [h]

/-- **`validate` accepts exactly the valid manifests.** -/
theorem validate_ok_iff {m : Manifest} : m.validate = .ok () ↔ m.Valid := by
  have hhead : m.head.isEmpty = true → isSafeRefname m.head = false := by
    intro h
    rw [String.isEmpty_iff.mp h]
    decide
  unfold validate
  constructor
  · intro h
    split at h
    · cases h
    rename_i hpacks
    split at h
    · cases h
    rename_i hrefs
    split at h
    · cases h
    split at h
    · cases h
    rename_i hsafe
    split at h
    · cases h
    rename_i hre
    split at h
    · cases h
    rename_i hpe
    split at h
    · cases h
    rename_i hpar
    exact
      { packs_le := Nat.le_of_not_lt hpacks
        refs_le := Nat.le_of_not_lt hrefs
        head_safe := by simpa using hsafe
        refs_ok := fun e he => refError_eq_none.mp (List.findSome?_eq_none_iff.mp hre e he)
        packs_ok := fun k hk => packError_eq_none.mp (List.findSome?_eq_none_iff.mp hpe k hk)
        parent_ok := parentError_eq_none.mp hpar }
  · intro h
    have hne : ¬ m.head.isEmpty = true := by
      intro hemp
      have hsafe := h.head_safe
      rw [hhead hemp] at hsafe
      cases hsafe
    have hre : m.refs.entries.findSome? refError = none :=
      List.findSome?_eq_none_iff.mpr fun e he => refError_eq_none.mpr (h.refs_ok e he)
    have hpe : m.packs.findSome? packError = none :=
      List.findSome?_eq_none_iff.mpr fun k hk => packError_eq_none.mpr (h.packs_ok k hk)
    rw [if_neg (Nat.not_lt.mpr h.packs_le), if_neg (Nat.not_lt.mpr h.refs_le), if_neg hne,
      if_neg (by simp [h.head_safe]), hre, hpe, parentError_eq_none.mpr h.parent_ok]

/-! ## Serialization -/

/-- The JSON value of the struct, its fields in the order of their declaration. -/
def toJson (m : Manifest) : Json :=
  .obj [("version", .num (.ofNat m.version.toNat)),
    ("head", .str m.head),
    ("refs", .obj (m.refs.entries.map fun e => (e.1, .str e.2))),
    ("packs", .arr (m.packs.map .str)),
    ("parent", match m.parent with | some p => .str p | none => .null)]

/-- `serde_json::to_vec`. -/
def toVec (m : Manifest) : List UInt8 := Str.asBytes (String.ofList m.toJson.text)

/-- The manifest with its packs sorted and without repetitions. -/
def normalize (m : Manifest) : Manifest := { m with packs := sortDedup m.packs }

def canonicalBytes (m : Manifest) : List UInt8 := m.normalize.toVec

/-- `from_bytes`, for a deserializer `fromSlice`. -/
def fromBytes (fromSlice : List UInt8 → Option Manifest) (bytes : List UInt8) :
    Except ManifestError Manifest :=
  match fromSlice bytes with
  | none => .error .serde
  | some m =>
    if m.version ≠ manifestVersion then .error (.unsupportedVersion m.version manifestVersion)
    else .ok m

theorem strs_inj {l l' : List String} (h : l.map Json.str = l'.map Json.str) : l = l' := by
  refine List.map_injective_iff.mpr ?_ h
  intro a b hab
  exact Json.str.inj hab

theorem refs_inj {l l' : List (String × String)}
    (h : (l.map fun e => (e.1, Json.str e.2)) = l'.map fun e => (e.1, Json.str e.2)) : l = l' := by
  refine List.map_injective_iff.mpr ?_ h
  intro a b hab
  have h1 : a.1 = b.1 := (Prod.mk.inj hab).1
  have h2 : a.2 = b.2 := Json.str.inj (Prod.mk.inj hab).2
  exact Prod.ext h1 h2

theorem toJson_inj {m n : Manifest} (h : m.toJson = n.toJson) : m = n := by
  have h := Json.obj.inj h
  simp only [List.cons.injEq, Prod.mk.injEq, true_and, and_true] at h
  obtain ⟨hver, hhead, hrefs, hpacks, hparent⟩ := h
  have hv : m.version = n.version := UInt32.toNat_inj.mp (JsonNumber.ofNat_inj (Json.num.inj hver))
  have hh : m.head = n.head := Json.str.inj hhead
  have hr : m.refs = n.refs := SortedMap.ext (refs_inj (Json.obj.inj hrefs))
  have hp : m.packs = n.packs := strs_inj (Json.arr.inj hpacks)
  have hq : m.parent = n.parent := by
    cases hm : m.parent with
    | none =>
      cases hn : n.parent with
      | none => rfl
      | some q => rw [hm, hn] at hparent; cases hparent
    | some p =>
      cases hn : n.parent with
      | none => rw [hm, hn] at hparent; cases hparent
      | some q => rw [hm, hn] at hparent; rw [Json.str.inj hparent]
  cases m
  cases n
  simp only at hv hh hr hp hq
  rw [hv, hh, hr, hp, hq]

/-- The serialized text determines the manifest. -/
theorem toVec_inj {m n : Manifest} (h : m.toVec = n.toVec) : m = n := by
  have htext : m.toJson.text = n.toJson.text := by
    have := congrArg String.toList (Str.asBytes_inj h)
    rwa [String.toList_ofList, String.toList_ofList] at this
  exact toJson_inj (Json.text_inj htext)

theorem toVec_head (m : Manifest) : ∃ rest, m.toVec = 123 :: rest := by
  unfold toVec toJson
  rw [Json.text]
  unfold Str.asBytes
  rw [String.toList_ofList, List.flatMap_cons]
  exact ⟨_, rfl⟩

theorem normalize_of_pairwise {m : Manifest} (h : sortDedup m.packs = m.packs) :
    m.normalize = m := by
  unfold normalize
  rw [h]

/-- **The canonical bytes determine a manifest** up to the order and repetition of its packs. -/
theorem canonicalBytes_inj {m n : Manifest} (h : m.canonicalBytes = n.canonicalBytes) :
    m.normalize = n.normalize := toVec_inj h

end Manifest

end Pkzz.Git
