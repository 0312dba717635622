import Mathlib.Algebra.Order.BigOperators.Group.List
import Pkzz.Git.HydratePacks

/-!
# When a manifest can be written out

The refs are installed as they are named exactly when their paths can all be files of one
tree. Neither phase touches what the other wrote, so this and the limits on the packs
decide whether a valid manifest becomes the repository it describes.
-/

namespace Pkzz.Git

open Pkzz.Core Pkzz.Lib

namespace Hydrate

variable {B : Backend} {G : GitObjects} {index : List UInt8 → List UInt8} {objects : Objects}
  {cache : GitPackCache objects} {options : HydrationOptions} {fs : FileSystem}
  {t t' t₁ : Tree}

/-! ## Refs -/

theorem FileSystem.takes_sublist {path path' : List String} (hsub : path.Sublist path')
    (h : fs.takes path' = true) : fs.takes path = true := by
  unfold FileSystem.takes at h ⊢
  rw [Bool.and_eq_true, List.all_eq_true, decide_eq_true_eq] at h ⊢
  refine ⟨fun name hname => h.1 name (hsub.subset hname), ?_⟩
  have hlen := hsub.length_le
  have hsum : (path.map Str.len).sum ≤ (path'.map Str.len).sum :=
    (hsub.map Str.len).sum_le_sum (by simp)
  omega

/-- The file a ref becomes. -/
def refFile (e : String × String) : List String × List UInt8 :=
  (resolve (components e.1), refBytes e.2)

/-- What is looked at for one ref by itself. -/
structure Installable (fs : FileSystem) (e : String × String) : Prop where
  safe : isSafeRefname e.1 = true
  hex : isHexOid e.2 = true
  takes : fs.takes (components e.1) = true
  not_dot : (components e.1).getLast? ≠ some "."

theorem installRef_ok_iff {e : String × String} : installRef fs t e.1 e.2 = .ok t' ↔
    Installable fs e ∧ t.place (refFile e).1 (refFile e).2 = .ok t' := by
  unfold installRef
  constructor
  · intro h
    split at h
    · cases h
    rename_i hsafe
    split at h
    · cases h
    rename_i hhex
    simp only at h
    split at h
    · cases h
    rename_i t₁ hmk
    split at h
    · cases h
    rename_i t₂ hwrite
    cases h
    unfold createParent at hmk
    split at hmk
    · cases hmk
    unfold writeFile at hwrite
    split at hwrite
    · cases hwrite
    rename_i htakes
    split at hwrite
    · -- a path that ends in `.` is never written
      split at hwrite <;> cases hwrite
    rename_i hdot
    refine ⟨⟨by simpa using hsafe, by simpa using hhex, by simpa using htakes, hdot⟩, ?_⟩
    unfold FileTree.place refFile
    rw [hmk]
    exact hwrite
  · rintro ⟨hi, hplace⟩
    have hsub : (resolve (components e.1)).dropLast.Sublist (components e.1) :=
      (List.dropLast_sublist _).trans List.filter_sublist
    have hparent := FileSystem.takes_sublist hsub hi.takes
    unfold FileTree.place refFile at hplace
    simp only [hi.safe, hi.hex, Bool.not_true, Bool.false_eq_true, if_false, createParent, hparent,
      writeFile, hi.takes, hi.not_dot]
    split at hplace
    · cases hplace
    rename_i t₁ hmk
    rw [hmk]
    simp only [hplace]

variable {refs : List (String × String)}

theorem installRefs_ok_iff : installRefs fs t refs = .ok t' ↔
    (∀ e ∈ refs, Installable fs e) ∧ t.placeAll (refs.map refFile) = .ok t' := by
  induction refs generalizing t with
  | nil => simp [installRefs, FileTree.placeAll]
  | cons e refs ih =>
    rw [List.map_cons, FileTree.placeAll_cons]
    constructor
    · intro h
      rw [installRefs] at h
      split at h
      · cases h
      rename_i t₁ h₁
      obtain ⟨hi, hplace⟩ := installRef_ok_iff.mp h₁
      obtain ⟨hall, hrest⟩ := ih.mp h
      exact ⟨List.forall_mem_cons.mpr ⟨hi, hall⟩, t₁, hplace, hrest⟩
    · rintro ⟨hall, t₁, hplace, hrest⟩
      obtain ⟨hi, hall⟩ := List.forall_mem_cons.mp hall
      rw [installRefs, installRef_ok_iff.mpr ⟨hi, hplace⟩]
      exact ih.mpr ⟨hall, hrest⟩

/-! ### The names of a manifest -/

theorem components_inj : Function.Injective components := fun _ _ h => Str.split_inj h

theorem components_of_startsWith {name : String} (h : Str.startsWith name "refs/" = true) :
    ∃ rest, components name = "refs" :: rest ∧ rest ≠ [] := by
  obtain ⟨l, hl⟩ := List.isPrefixOf_iff_prefix.mp h
  have hname : name = "refs" ++ "/" ++ String.ofList l := by
    rw [String.ext_iff, ← hl]
    simp
  refine ⟨components (String.ofList l), ?_, ?_⟩
  · rw [hname]
    exact Str.split_append (by decide) rfl
  · unfold components Str.split
    simp

/-- An accepted name is a path below `refs` and never leads out of it. -/
theorem components_of_safe {r : String} (h : isSafeRefname r = true) :
    (∃ rest, components r = "refs" :: rest ∧ rest ≠ []) ∧ ".." ∉ components r := by
  unfold isSafeRefname at h
  split at h
  · cases h
  rename_i hrefs
  split at h
  · cases h
  rename_i hclean
  constructor
  · exact components_of_startsWith (by simpa using hrefs)
  · intro hmem
    have := Str.contains_of_mem_split hmem
    simp [this] at hclean

theorem resolve_of_no_dot {path : List String} (h : "." ∉ path) : resolve path = path := by
  refine List.filter_eq_self.mpr fun name hname => ?_
  simp only [ne_eq, decide_not, Bool.not_eq_true', decide_eq_false_iff_not]
  rintro rfl
  exact h hname

theorem not_mem_resolve (path : List String) : "." ∉ resolve path := by
  unfold resolve
  simp

/-- **When the refs of a manifest can be files of one repository**: each path is one the file
system takes, no path has a `.` on it, none lies above another, and none is one of the two
directories that are there already. -/
structure RefsFit (fs : FileSystem) (names : List String) : Prop where
  takes : ∀ r ∈ names, fs.takes (components r) = true
  no_dot : ∀ r ∈ names, "." ∉ components r
  apart : ∀ r ∈ names, ∀ s ∈ names, components r <+: components s → r = s
  fresh : ∀ r ∈ names, r ≠ "refs/heads" ∧ r ≠ "refs/tags"

/-- Below `refs` stands only what `git init` made. -/
def NoRefs (t : Tree) : Prop :=
  ∀ p, t.node ("refs" :: p) = if p = [] ∨ p = ["heads"] ∨ p = ["tags"] then some .dir else none

theorem NoRefs.read (h : NoRefs t) (p : List String) : t.read ("refs" :: p) = none := by
  cases hread : t.read ("refs" :: p) with
  | none => rfl
  | some c =>
    rw [FileTree.read_eq_some, h p] at hread
    split at hread <;> cases hread

/-- A ref's path is free unless it is one of the two directories. -/
theorem NoRefs.free_iff (h : NoRefs t) {r : String} (hr : isSafeRefname r = true) :
    t.Free (components r) ↔ r ≠ "refs/heads" ∧ r ≠ "refs/tags" := by
  obtain ⟨⟨rest, hrest, hne⟩, _⟩ := components_of_safe hr
  have hheads : components "refs/heads" = ["refs", "heads"] := by decide
  have htags : components "refs/tags" = ["refs", "tags"] := by decide
  have h1 : rest = ["heads"] ↔ r = "refs/heads" := by
    rw [← (components_inj.eq_iff' hheads), hrest]
    simp
  have h2 : rest = ["tags"] ↔ r = "refs/tags" := by
    rw [← (components_inj.eq_iff' htags), hrest]
    simp
  have hnode : t.node (components r) ≠ some .dir ↔ r ≠ "refs/heads" ∧ r ≠ "refs/tags" := by
    rw [hrest, h rest, ne_eq, ne_eq, ne_eq, ← h1, ← h2, ← not_or]
    by_cases hs : rest = ["heads"] ∨ rest = ["tags"]
    · simp [hne, hs]
    · simp [hne, hs]
  rw [← hnode]
  refine ⟨fun hfree => hfree.not_dir, fun hdir => ⟨hdir, fun q hq _ => ?_⟩⟩
  -- above the path there are only directories, or nothing
  rw [FileTree.isFile_eq_false]
  rw [hrest] at hq
  cases q with
  | nil =>
    unfold FileTree.read
    rw [t.root]
  | cons a q =>
    rw [(List.cons_prefix_cons.mp hq).1]
    exact h.read q

/-- The refs that can be read below `t` are these. -/
def ShowsRefs (t : Tree) (refs : List (String × String)) : Prop :=
  ∀ name bytes, Str.startsWith name "refs/" = true →
    (t.read (components name) = some bytes ↔ ∃ oid, (name, oid) ∈ refs ∧ bytes = refBytes oid)

theorem startsWith_of_safe {r : String} (h : isSafeRefname r = true) :
    Str.startsWith r "refs/" = true := by
  unfold isSafeRefname at h
  split at h
  · cases h
  · rename_i hrefs
    simpa using hrefs

/-- Without `.` the path of a ref is its name. -/
theorem paths_eq (hdot : ∀ r ∈ refs.map Prod.fst, "." ∉ components r) :
    (refs.map refFile).map Prod.fst = (refs.map Prod.fst).map components := by
  rw [List.map_map, List.map_map]
  refine List.map_congr_left fun e he => ?_
  exact resolve_of_no_dot (hdot e.1 (List.mem_map_of_mem he))

theorem NoRefs.read_components (h : NoRefs t) {name : String}
    (hname : Str.startsWith name "refs/" = true) : t.read (components name) = none := by
  obtain ⟨rest, hrest, _⟩ := components_of_startsWith hname
  rw [hrest, h.read]

/-- **The refs are installed as they are named exactly when they fit.** -/
theorem installRefs_shows_iff (h : NoRefs t)
    (hok : ∀ e ∈ refs, isSafeRefname e.1 = true ∧ isHexOid e.2 = true)
    (hnd : (refs.map Prod.fst).Nodup) :
    (∃ t', installRefs fs t refs = .ok t' ∧ ShowsRefs t' refs) ↔ RefsFit fs
    (refs.map Prod.fst) := by
  have hsafe : ∀ r ∈ refs.map Prod.fst, isSafeRefname r = true := by
    intro r hr
    obtain ⟨e, he, rfl⟩ := List.mem_map.mp hr
    exact (hok e he).1
  constructor
  · rintro ⟨t', hinstall, hshows⟩
    obtain ⟨hall, hplace⟩ := installRefs_ok_iff.mp hinstall
    -- a name with `.` cannot be read back: no file is ever written under such a path
    have hdot : ∀ r ∈ refs.map Prod.fst, "." ∉ components r := by
      intro r hr
      obtain ⟨e, he, rfl⟩ := List.mem_map.mp hr
      have hstarts := startsWith_of_safe (hsafe e.1 hr)
      have hread := (hshows e.1 (refBytes e.2) hstarts).mpr ⟨e.2, he, rfl⟩
      by_cases hmem : components e.1 ∈ (refs.map refFile).map Prod.fst
      · obtain ⟨f, hf, hpath⟩ := List.mem_map.mp hmem
        obtain ⟨e', he', rfl⟩ := List.mem_map.mp hf
        rw [← hpath]
        exact not_mem_resolve _
      · rw [FileTree.placeAll_read_of_notMem hplace hmem, h.read_components hstarts] at hread
        cases hread
    have hfits := FileTree.placeAll_ok_iff.mp ⟨t', hplace⟩
    rw [paths_eq hdot] at hfits
    refine ⟨fun r hr => ?_, hdot, fun r hr s hs hrs => ?_, fun r hr => ?_⟩
    · obtain ⟨e, he, rfl⟩ := List.mem_map.mp hr
      exact (hall e he).takes
    · exact components_inj
        (hfits.apart _ (List.mem_map_of_mem hr) _ (List.mem_map_of_mem hs) hrs)
    · exact (h.free_iff (hsafe r hr)).mp (hfits.free _ (List.mem_map_of_mem hr))
  · intro hfit
    have hpaths := paths_eq hfit.no_dot
    have hfits : t.Fits ((refs.map refFile).map Prod.fst) := by
      rw [hpaths]
      refine ⟨fun p hp => ?_, fun p hp q hq hpq => ?_⟩
      · obtain ⟨r, hr, rfl⟩ := List.mem_map.mp hp
        exact (h.free_iff (hsafe r hr)).mpr (hfit.fresh r hr)
      · obtain ⟨r, hr, rfl⟩ := List.mem_map.mp hp
        obtain ⟨s, hs, rfl⟩ := List.mem_map.mp hq
        rw [hfit.apart r hr s hs hpq]
    obtain ⟨t', hplace⟩ := FileTree.placeAll_ok_iff.mpr hfits
    have hall : ∀ e ∈ refs, Installable fs e := by
      intro e he
      have hr : e.1 ∈ refs.map Prod.fst := List.mem_map_of_mem he
      refine ⟨(hok e he).1, (hok e he).2, hfit.takes e.1 hr, fun hlast => ?_⟩
      exact hfit.no_dot e.1 hr (List.mem_of_getLast? hlast)
    refine ⟨t', installRefs_ok_iff.mpr ⟨hall, hplace⟩, fun name bytes hname => ?_⟩
    have hndp : ((refs.map refFile).map Prod.fst).Nodup := by
      rw [hpaths]
      exact hnd.map components_inj
    rw [FileTree.placeAll_read hndp hplace, h.read_components hname]
    constructor
    · rintro (hmem | ⟨_, hread⟩)
      · obtain ⟨e, he, hfile⟩ := List.mem_map.mp hmem
        obtain ⟨hpath, hbytes⟩ := Prod.mk.inj hfile
        rw [resolve_of_no_dot (hfit.no_dot e.1 (List.mem_map_of_mem he))] at hpath
        rw [← components_inj hpath]
        exact ⟨e.2, he, hbytes.symm⟩
      · cases hread
    · rintro ⟨oid, he, rfl⟩
      refine .inl (List.mem_map.mpr ⟨(name, oid), he, ?_⟩)
      exact Prod.ext (resolve_of_no_dot (hfit.no_dot name (List.mem_map.mpr ⟨_, he, rfl⟩))) rfl

/-- Nothing outside `refs` changes. -/
theorem installRefs_frame (h : installRefs fs t refs = .ok t')
    {q : List String} (hq : q.head? ≠ some "refs") : t'.read q = t.read q := by
  obtain ⟨hall, hplace⟩ := installRefs_ok_iff.mp h
  refine FileTree.placeAll_read_of_notMem hplace fun hmem => ?_
  obtain ⟨f, hf, rfl⟩ := List.mem_map.mp hmem
  obtain ⟨e, he, rfl⟩ := List.mem_map.mp hf
  obtain ⟨⟨rest, hrest, _⟩, _⟩ := components_of_safe (hall e he).safe
  refine hq ?_
  unfold refFile resolve
  rw [hrest, List.filter_cons_of_pos (by decide)]
  rfl

/-! ## The repository -/

/-- **What a manifest promises**: these refs and this `HEAD`, and the objects the refs reach. -/
structure Shows (G : GitObjects) (index : List UInt8 → List UInt8) (repo : HydratedRepo)
    (m : Manifest) : Prop where
  refs : ShowsRefs repo.tree m.refs.entries
  head : repo.tree.read ["HEAD"] = some (headBytes m.head)
  objects : ∀ o ∈ G.reachable m.refs.values,
    ∃ digest pack, Installed index repo.tree digest pack ∧ o ∈ G.contents pack

variable {layout : BareLayout}

/-- Once the refs are there, only `HEAD` is written. -/
theorem materializeManifest_of_installed {m : Manifest} {t₂ : Tree} {bytes : Nat}
    (hhead : isSafeRefname m.head = true)
    (hpacks : installPacks B index cache options layout.tree m.packs 0 = .ok (t₁, bytes))
    (hinst : PacksInstalled index objects layout.tree m.packs t₁)
    (hrefs : installRefs fs t₁ m.refs.entries = .ok t₂) :
    ∃ tree, materializeManifest B index cache options fs layout m = .ok ⟨tree, bytes,
      m.packs.length⟩
      ∧ ∀ q, tree.read q = if q = ["HEAD"] then some (headBytes m.head) else t₂.read q := by
  have hold : t₂.node ["HEAD"] = some (.file (headBytes "refs/heads/main")) := by
    have hframe : t₁.node ["HEAD"] = layout.tree.node ["HEAD"] := hinst.frame _ (by decide)
    rw [← FileTree.read_eq_some, installRefs_frame hrefs (by decide), FileTree.read_congr hframe,
      layout.head]
  have hnot : t₂.node ["HEAD"] ≠ some .dir := by
    rw [hold]
    simp
  obtain ⟨tree, hwrite, hnode⟩ := FileTree.write_ok hnot t₂.root (headBytes m.head)
  refine ⟨tree, ?_, fun q => ?_⟩
  · unfold materializeManifest
    simp only [hpacks, hrefs, hhead, Bool.not_true, Bool.false_eq_true, if_false, hwrite]
  · by_cases hq : q = ["HEAD"]
    · rw [if_pos hq, FileTree.read_eq_some, hnode, if_pos hq]
    · have hsame : tree.node q = t₂.node q := by rw [hnode, if_neg hq]
      rw [if_neg hq, FileTree.read_congr hsame]

/-- Everything but the refs is in place whenever `materialize_manifest` succeeds. -/
theorem shows_iff {m : Manifest} {t₂ : Tree} {repo : HydratedRepo}
    (hclosed : Closed B G objects m) (hinst : PacksInstalled index objects layout.tree m.packs t₁)
    (hrefs : installRefs fs t₁ m.refs.entries = .ok t₂)
    (hread : ∀ q, repo.tree.read q = if q = ["HEAD"] then some (headBytes m.head) else t₂.read q) :
    Shows G index repo m ↔ ShowsRefs t₂ m.refs.entries := by
  have hsame : ∀ name, Str.startsWith name "refs/" = true →
      repo.tree.read (components name) = t₂.read (components name) := by
    intro name hname
    obtain ⟨rest, hrest, hne⟩ := components_of_startsWith hname
    rw [hread, hrest, if_neg (by simp)]
  constructor
  · intro h name bytes hname
    rw [← hsame name hname]
    exact h.refs name bytes hname
  · intro h
    refine ⟨fun name bytes hname => ?_, ?_, fun o ho => ?_⟩
    · rw [hsame name hname]
      exact h name bytes hname
    · rw [hread, if_pos rfl]
    · obtain ⟨key, hkey, pack, hlookup, hmem⟩ := hclosed.covered o ho
      obtain ⟨pack', _, hcontent⟩ := hclosed.uploaded key hkey
      rw [contentKey_packs] at hcontent
      subst hcontent
      have hin := hinst.installed _ pack hkey hlookup
      refine ⟨B.digestHex pack', pack, ⟨?_, ?_⟩, hmem⟩
      · rw [hread, if_neg (by unfold packPath; simp),
          installRefs_frame hrefs (by unfold packPath; simp), hin.packFile]
      · rw [hread, if_neg (by unfold packPath; simp),
          installRefs_frame hrefs (by unfold packPath; simp), hin.idxFile]

/-- **When a valid manifest becomes the repository it describes.** -/
theorem materializeManifest_shows_iff {m : Manifest} (hvalid : m.Valid)
    (hclosed : Closed B G objects m) :
    (∃ repo, materializeManifest B index cache options fs layout m = .ok repo ∧
      Shows G index repo m) ↔ PacksFit index cache options m.packs ∧ RefsFit fs m.refs.keys := by
  have hnd : (m.refs.entries.map Prod.fst).Nodup := by
    refine List.Pairwise.imp ?_ (List.pairwise_map.mpr m.refs.sorted)
    intro a b hab
    exact ne_of_lt hab
  have hnorefs : ∀ {t₁ : Tree}, PacksInstalled index objects layout.tree m.packs t₁ →
      NoRefs t₁ := by
    intro t₁ h p
    rw [h.frame ("refs" :: p) (by simp), layout.refs p]
  constructor
  · rintro ⟨repo, h, hshows⟩
    have hmat := h
    unfold materializeManifest at h
    split at h
    · cases h
    rename_i t₁ bytes hpacks
    obtain ⟨heach, hrepo, hu64⟩ :=
      installPacks_fits layout.packDir_ok hclosed.uploaded (Nat.zero_le _) (by decide) hpacks
    obtain ⟨t₁', h₁, hinst⟩ := installPacks_ok layout.packDir_ok hclosed.uploaded heach hrepo hu64
    rw [h₁] at hpacks
    cases hpacks
    split at h
    · cases h
    rename_i t₂ hrefs
    obtain ⟨tree, hok, hread⟩ := materializeManifest_of_installed hvalid.head_safe h₁ hinst hrefs
    rw [hok] at hmat
    cases hmat
    rw [Nat.zero_add] at hrepo hu64
    refine ⟨⟨heach, hrepo, hu64⟩, (installRefs_shows_iff (hnorefs hinst) hvalid.refs_ok hnd).mp ?_⟩
    exact ⟨t₂, hrefs, (shows_iff hclosed hinst hrefs hread).mp hshows⟩
  · rintro ⟨hpacks, hrefs⟩
    obtain ⟨t₁, h₁, hinst⟩ := installPacks_ok layout.packDir_ok hclosed.uploaded hpacks.each
      (by rw [Nat.zero_add]; exact hpacks.repo_le) (by rw [Nat.zero_add]; exact hpacks.u64)
    obtain ⟨t₂, h₂, hshows⟩ := (installRefs_shows_iff (hnorefs hinst) hvalid.refs_ok hnd).mpr hrefs
    obtain ⟨tree, hok, hread⟩ := materializeManifest_of_installed hvalid.head_safe h₁ hinst h₂
    exact ⟨_, hok, (shows_iff hclosed hinst h₂ hread).mpr hshows⟩

end Hydrate

end Pkzz.Git
