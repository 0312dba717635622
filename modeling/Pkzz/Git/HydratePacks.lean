import Pkzz.Git.Hydrate

/-!
# Installing the packs

The packs of a manifest are installed exactly when they stay within the limits of the
request. A digest that is listed twice is installed twice, with the same content.
-/

namespace Pkzz.Git

open Pkzz.Core Pkzz.Lib

namespace Hydrate

variable {B : Backend} {G : GitObjects} {index : List UInt8 → List UInt8} {objects : Objects}
  {cache : GitPackCache objects} {options : HydrationOptions} {fs : FileSystem}
  {t t' t₁ : Tree} {digest key : String} {pack idx : List UInt8} {keys : List String}

/-! ## Packs -/

theorem packPath_inj {d d' e : String} (h : packPath d e = packPath d' e) : d = d' := by
  unfold packPath at h
  simpa [String.ext_iff] using h

theorem packPath_ne (d d' : String) : packPath d ".idx" ≠ packPath d' ".pack" := by
  intro h
  unfold packPath at h
  simp only [List.cons.injEq, and_true, true_and] at h
  -- the last letters differ
  have hlast := congrArg (fun s => s.toList.reverse.head?) h
  simp [String.toList_append] at hlast

/-- Packs can be put into the pack directory. -/
structure PackDir (t : Tree) : Prop where
  dir : t.node ["objects", "pack"] = some .dir
  files : ∀ a, t.node ["objects", "pack", a] ≠ some .dir

theorem BareLayout.packDir_ok (layout : BareLayout) : PackDir layout.tree where
  dir := layout.packDir
  files a := by
    rw [layout.packDir_empty]
    simp

/-- The new tree differs in the two files of one pack. -/
def Installs (index : List UInt8 → List UInt8) (t : Tree) (digest : String) (pack : List UInt8)
    (t' : Tree) : Prop :=
  ∀ q, t'.node q =
    if q = packPath digest ".idx" then some (.file (index pack))
    else if q = packPath digest ".pack" then some (.file pack)
    else t.node q

/-- A pack and its index can be read. -/
structure Installed (index : List UInt8 → List UInt8) (t : Tree) (digest : String)
    (pack : List UInt8) : Prop where
  packFile : t.read (packPath digest ".pack") = some pack
  idxFile : t.read (packPath digest ".idx") = some (index pack)

theorem PackDir.of_node (h : PackDir t) {a : String} {bytes : List UInt8}
    (hnode : ∀ q, t'.node q = if q = ["objects", "pack", a] then some (.file bytes) else t.node q) :
    PackDir t' := by
  constructor
  · rw [hnode, if_neg (by simp), h.dir]
  · intro b
    rw [hnode]
    split
    · simp
    · exact h.files b

theorem installEntry_ok (index : List UInt8 → List UInt8) (h : PackDir t) (digest : String)
    (pack : List UInt8) :
    ∃ t', installEntry t digest pack (index pack) = .ok t' ∧ Installs index t digest pack t' ∧
      PackDir t' := by
  obtain ⟨t₁, h₁, hnode₁⟩ := FileTree.write_ok (h.files _) h.dir pack
  have hdir₁ := h.of_node hnode₁
  obtain ⟨t₂, h₂, hnode₂⟩ := FileTree.write_ok (hdir₁.files _) hdir₁.dir (index pack)
  refine ⟨t₂, ?_, fun q => ?_, hdir₁.of_node hnode₂⟩
  · unfold installEntry packPath
    rw [h₁]
    simp only
    rw [h₂]
  · rw [hnode₂ q, hnode₁ q]
    rfl

theorem Installs.installed (h : Installs index t digest pack t') :
    Installed index t' digest pack where
  packFile := by rw [FileTree.read_eq_some, h, if_neg (packPath_ne digest digest).symm, if_pos rfl]
  idxFile := by rw [FileTree.read_eq_some, h, if_pos rfl]

/-- Installing a pack anew does not take another one away. -/
theorem Installs.keep {d : String} {p : List UInt8} (h : Installs index t digest pack t')
    (hsame : d = digest → p = pack) (hold : Installed index t d p) : Installed index t' d p := by
  by_cases hd : d = digest
  · rw [hd, hsame hd]
    exact h.installed
  constructor
  · have hnode : t'.node (packPath d ".pack") = t.node (packPath d ".pack") := by
      rw [h, if_neg (packPath_ne digest d).symm, if_neg fun heq => hd (packPath_inj heq)]
    rw [FileTree.read_congr hnode, hold.packFile]
  · have hnode : t'.node (packPath d ".idx") = t.node (packPath d ".idx") := by
      rw [h, if_neg fun heq => hd (packPath_inj heq), if_neg (packPath_ne d digest)]
    rw [FileTree.read_congr hnode, hold.idxFile]

/-- Everything outside `objects` stays as it is. -/
theorem Installs.frame (h : Installs index t digest pack t') {q : List String}
    (hq : q.head? ≠ some "objects") : t'.node q = t.node q := by
  have hne : ∀ ext, q ≠ packPath digest ext := by
    rintro ext rfl
    exact hq rfl
  rw [h, if_neg (hne _), if_neg (hne _)]

/-- What a request has room for. -/
structure PackFits (index : List UInt8 → List UInt8) (cache : GitPackCache objects)
    (options : HydrationOptions) (digest : String) (pack : List UInt8) : Prop where
  pack_le : pack.length ≤ options.maxPackBytes
  /-- The index is looked at when it is made. -/
  idx_le : cache.entry digest = none → (index pack).length ≤ options.maxPackBytes

section Pack

variable (hdir : PackDir t) (hdigest : validateDigest digest = true)
  (hstored : Finmap.lookup ("packs/" ++ digest) objects = some pack)
    (hsum : B.digestHex pack = digest)
include hdir hstored hsum

theorem populate_ok (hfits : PackFits index cache options digest pack)
    (hmiss : cache.entry digest = none) :
    ∃ t', populate B index options objects t ("packs/" ++ digest) digest = .ok (t', pack.length)
      ∧ Installs index t digest pack t' ∧ PackDir t' := by
  have hget : B.getVerifiedLimited objects ("packs/" ++ digest) digest options.maxPackBytes =
      .ok pack := by
    unfold Backend.getVerifiedLimited
    rw [hstored]
    simp [Nat.not_lt.mpr hfits.pack_le, hsum]
  obtain ⟨t', hinstall, h⟩ := installEntry_ok index hdir digest pack
  refine ⟨t', ?_, h⟩
  unfold populate
  rw [hget]
  simp only [gt_iff_lt, Nat.not_lt.mpr (hfits.idx_le hmiss), if_false, hinstall]

omit hdir in
theorem populate_fits {r : Tree × Nat}
    (h : populate B index options objects t ("packs/" ++ digest) digest = .ok r) :
    pack.length ≤ options.maxPackBytes ∧ (index pack).length ≤ options.maxPackBytes := by
  have hle : pack.length ≤ options.maxPackBytes := by
    by_contra hgt
    simp [populate, Backend.getVerifiedLimited, hstored, Nat.lt_of_not_le hgt] at h
  refine ⟨hle, ?_⟩
  by_contra hgt
  simp [populate, Backend.getVerifiedLimited, hstored, Nat.not_lt.mpr hle, hsum,
    Nat.lt_of_not_le hgt] at h

include hdigest

/-- A pack in the store is installed, from the cache or from the store. -/
theorem materializePack_ok (hfits : PackFits index cache options digest pack) :
    ∃ t', materializePack B index cache options t ("packs/" ++ digest) digest =
      .ok (t', pack.length) ∧ Installs index t digest pack t' ∧ PackDir t' := by
  unfold materializePack
  rw [hdigest]
  cases hentry : cache.entry digest with
  | none => exact populate_ok hdir hstored hsum hfits hentry
  | some entry =>
    have hsame := cache.copies digest entry hentry pack hstored
    obtain ⟨t', hinstall, h⟩ := installEntry_ok index hdir digest pack
    subst hsame
    exact ⟨t', by simp [hinstall], h⟩

omit hdir in
theorem materializePack_fits {r : Tree × Nat}
    (h : materializePack B index cache options t ("packs/" ++ digest) digest = .ok r)
    (hle : pack.length ≤ options.maxPackBytes) : PackFits index cache options digest pack where
  pack_le := hle
  idx_le := by
    intro hmiss
    unfold materializePack at h
    rw [hdigest, hmiss] at h
    exact (populate_fits hstored hsum h).2

/-- A pack that is too large is refused by the store on a miss, by the caller on a hit. -/
theorem materializePack_size {r : Tree × Nat}
    (h : materializePack B index cache options t ("packs/" ++ digest) digest = .ok r) :
    r.2 = pack.length := by
  unfold materializePack at h
  rw [hdigest] at h
  cases hentry : cache.entry digest with
  | none =>
    rw [hentry] at h
    obtain ⟨hpack, hidx⟩ := populate_fits hstored hsum h
    obtain ⟨t', ht', _⟩ := populate_ok hdir hstored hsum
      (PackFits.mk hpack fun _ => hidx : PackFits index cache options digest pack) hentry
    rw [show populate B index options objects t ("packs/" ++ digest) digest = .ok r from h] at ht'
    rw [Except.ok.inj ht']
  | some entry =>
    have hsame := cache.copies digest entry hentry pack hstored
    obtain ⟨t', hinstall, _⟩ := installEntry_ok index hdir digest pack
    subst hsame
    simp only [Bool.not_true, Bool.false_eq_true, if_false, hentry, hinstall] at h
    rw [← Except.ok.inj h]

end Pack

/-! ### All packs -/

def packBytes (objects : Objects) (key : String) : Nat :=
  ((Finmap.lookup key objects).map List.length).getD 0

/-- The packs of a manifest stay within the limits of the request. -/
structure PacksFit (index : List UInt8 → List UInt8) (cache : GitPackCache objects)
    (options : HydrationOptions) (keys : List String) : Prop where
  each : ∀ digest pack, "packs/" ++ digest ∈ keys →
    Finmap.lookup ("packs/" ++ digest) objects = some pack →
      PackFits index cache options digest pack
  repo_le : (keys.map (packBytes objects)).sum ≤ options.maxRepoBytes
  u64 : (keys.map (packBytes objects)).sum < 2 ^ 64

/-- What phase 1 did: every pack it was given can be read, and nothing but packs is new. -/
structure PacksInstalled (index : List UInt8 → List UInt8) (objects : Objects) (t : Tree)
    (keys : List String) (t' : Tree) : Prop where
  packDir : PackDir t'
  frame : ∀ q : List String, q.head? ≠ some "objects" → t'.node q = t.node q
  installed : ∀ digest pack, "packs/" ++ digest ∈ keys →
    Finmap.lookup ("packs/" ++ digest) objects = some pack → Installed index t' digest pack
  keeps : ∀ digest pack, Finmap.lookup ("packs/" ++ digest) objects = some pack →
    Installed index t digest pack → Installed index t' digest pack

theorem PacksInstalled.cons (h : Installs index t digest pack t₁)
    (hstored : Finmap.lookup ("packs/" ++ digest) objects = some pack)
    (hrest : PacksInstalled index objects t₁ keys t') :
    PacksInstalled index objects t (("packs/" ++ digest) :: keys) t' where
  packDir := hrest.packDir
  frame q hq := (hrest.frame q hq).trans (h.frame hq)
  installed d p hmem hlookup := by
    rcases List.mem_cons.mp hmem with heq | hmem
    · have hd : d = digest := String.append_right_inj "packs/" |>.mp heq
      subst hd
      rw [hstored] at hlookup
      cases hlookup
      exact hrest.keeps d pack hstored h.installed
    · exact hrest.installed d p hmem hlookup
  keeps d p hlookup hold := by
    refine hrest.keeps d p hlookup (h.keep (fun hd => ?_) hold)
    rw [hd, hstored] at hlookup
    exact (Option.some.inj hlookup).symm

theorem contentKey_packs (pack : List UInt8) :
    B.contentKey "packs" pack = "packs/" ++ B.digestHex pack := by
  unfold Backend.contentKey
  rfl

theorem validateDigest_digestHex (pack : List UInt8) :
    validateDigest (B.digestHex pack) = true := by
  unfold validateDigest Backend.digestHex
  rw [FixedBytes.len_toHex, Bool.and_eq_true]
  refine ⟨rfl, List.all_eq_true.mpr fun c hc => ?_⟩
  have hlower := FixedBytes.toHex_isLowerHexdigit _ c hc
  unfold FixedBytes.isLowerHexdigit at hlower
  unfold Str.isAsciiHexdigit
  rw [hlower, Bool.true_or]

theorem packBytes_of_lookup {key : String} (h : Finmap.lookup key objects = some pack) :
    packBytes objects key = pack.length := by
  unfold packBytes
  rw [h]
  rfl

/-- A key of a pack in the store. -/
theorem Uploaded.head (h : Uploaded B objects (key :: keys)) :
    ∃ digest pack, key = "packs/" ++ digest
    ∧ Finmap.lookup ("packs/" ++ digest) objects = some pack ∧ B.digestHex pack = digest
    ∧ validateDigest digest = true := by
  obtain ⟨pack, hlookup, hkey⟩ := h key List.mem_cons_self
  rw [contentKey_packs] at hkey
  exact ⟨B.digestHex pack, pack, hkey, hkey ▸ hlookup, rfl, validateDigest_digestHex pack⟩

theorem installPacks_ok (hdir : PackDir t) (hup : Uploaded B objects keys) {total : Nat}
    (heach : ∀ digest pack, "packs/" ++ digest ∈ keys →
      Finmap.lookup ("packs/" ++ digest) objects = some pack →
        PackFits index cache options digest pack)
    (hrepo : total + (keys.map (packBytes objects)).sum ≤ options.maxRepoBytes)
    (hu64 : total + (keys.map (packBytes objects)).sum < 2 ^ 64) :
    ∃ t', installPacks B index cache options t keys total
        = .ok (t', total + (keys.map (packBytes objects)).sum)
      ∧ PacksInstalled index objects t keys t' := by
  induction keys generalizing t total with
  | nil => exact ⟨t, rfl, hdir, fun _ _ => rfl, nofun, fun _ _ _ h => h⟩
  | cons key keys ih =>
    obtain ⟨digest, pack, rfl, hlookup, hsum, hdigest⟩ := Uploaded.head hup
    have hfits := heach digest pack List.mem_cons_self hlookup
    obtain ⟨t₁, h₁, hinst, hdir₁⟩ := materializePack_ok hdir hdigest hlookup hsum hfits
    rw [List.map_cons, List.sum_cons, packBytes_of_lookup hlookup] at hrepo hu64
    have hrepo' : total + pack.length + (keys.map (packBytes objects)).sum ≤
        options.maxRepoBytes := by
      omega
    obtain ⟨t', h', hrest⟩ := ih hdir₁ (fun k hk => hup k (List.mem_cons_of_mem _ hk))
      (fun d p hd => heach d p (List.mem_cons_of_mem _ hd)) hrepo' (by omega)
    refine ⟨t', ?_, .cons hinst hlookup hrest⟩
    rw [installPacks, Str.stripPrefix_append]
    have hpack := hfits.pack_le
    simp only [h₁]
    rw [if_neg (by omega), if_neg (by omega), if_neg (by omega), h', List.map_cons, List.sum_cons,
      packBytes_of_lookup hlookup, Nat.add_assoc]

theorem installPacks_fits (hdir : PackDir t) (hup : Uploaded B objects keys) {total : Nat}
    {r : Tree × Nat} (hrepo : total ≤ options.maxRepoBytes) (hu64 : total < 2 ^ 64)
    (h : installPacks B index cache options t keys total = .ok r) :
    (∀ digest pack, "packs/" ++ digest ∈ keys →
      Finmap.lookup ("packs/" ++ digest) objects = some pack →
        PackFits index cache options digest pack)
    ∧ total + (keys.map (packBytes objects)).sum ≤ options.maxRepoBytes
    ∧ total + (keys.map (packBytes objects)).sum < 2 ^ 64 := by
  induction keys generalizing t total with
  | nil => exact ⟨nofun, hrepo, hu64⟩
  | cons key keys ih =>
    obtain ⟨digest, pack, rfl, hlookup, hsum, hdigest⟩ := Uploaded.head hup
    rw [installPacks, Str.stripPrefix_append] at h
    simp only at h
    split at h
    · cases h
    rename_i t₁ size hmat
    have hsize : size = pack.length := materializePack_size hdir hdigest hlookup hsum hmat
    subst hsize
    split at h
    · cases h
    rename_i hle
    split at h
    · cases h
    split at h
    · cases h
    have hfits := materializePack_fits hdigest hlookup hsum hmat (Nat.le_of_not_lt hle)
    -- the tree is the one the pack was installed in
    obtain ⟨t₂, h₂, _, hdir₂⟩ := materializePack_ok hdir hdigest hlookup hsum hfits
    rw [h₂] at hmat
    cases hmat
    obtain ⟨heach, hrepo', hu64'⟩ := ih hdir₂ (fun k hk => hup k (List.mem_cons_of_mem _ hk))
      (by omega) (by omega) h
    rw [List.map_cons, List.sum_cons, packBytes_of_lookup hlookup]
    refine ⟨fun d p hd hp => ?_, by omega, by omega⟩
    rcases List.mem_cons.mp hd with heq | hd
    · have hdd : d = digest := String.append_right_inj "packs/" |>.mp heq
      subst hdd
      rw [hlookup] at hp
      cases hp
      exact hfits
    · exact heach d p hd hp

end Hydrate

end Pkzz.Git
