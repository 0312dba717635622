import Mathlib.Data.List.Infix

/-!
# File trees

A directory tree with files at its leaves, as a map from paths to nodes. Creating the
directories above a path and then writing a file there succeeds when nothing on the way is a
file and the path is not a directory (`place_ok_iff`).

Several files can be written one after the other, in whatever order, exactly when each fits
the tree by itself and no path lies above another (`placeAll_ok_iff`); what can be read
afterwards is what was written (`placeAll_read`).
-/

namespace Pkzz.Lib

/-- What stands at a path. -/
inductive Node (β : Type*) where
  | dir
  | file (content : β)
  deriving DecidableEq

inductive FsError where
  | notFound
  | alreadyExists
  | notADirectory
  | isADirectory
  | invalidFilename
  deriving DecidableEq

/-- A path is the list of the names on the way from the root. -/
structure FileTree (α β : Type*) where
  node : List α → Option (Node β)
  /-- The root is a directory. -/
  root : node [] = some .dir
  /-- Whatever exists lies in a directory. -/
  parent : ∀ p a, node (p ++ [a]) ≠ none → node p = some .dir

namespace FileTree

variable {α β : Type*} {t t' : FileTree α β} {p q : List α} {c : β}

instance (n : Option (Node β)) : Decidable (n = some .dir) :=
  match n with
  | none => isFalse nofun
  | some .dir => isTrue rfl
  | some (.file _) => isFalse nofun

/-- The content of the file at a path. -/
def read (t : FileTree α β) (p : List α) : Option β :=
  match t.node p with
  | some (.file c) => some c
  | _ => none

theorem read_eq_some : t.read p = some c ↔ t.node p = some (.file c) := by
  unfold read
  cases t.node p with
  | none => simp
  | some n => cases n <;> simp

/-- What is read depends on the node only. -/
theorem read_congr (h : t'.node p = t.node q) : t'.read p = t.read q := by
  unfold read
  rw [h]

def isFile (t : FileTree α β) (p : List α) : Bool := (t.read p).isSome

theorem isFile_eq_false : t.isFile p = false ↔ t.read p = none := by
  unfold isFile
  cases t.read p <;> simp

theorem prefix_dropLast_iff (hp : p ≠ []) : q <+: p.dropLast ↔ q <+: p ∧ q ≠ p := by
  constructor
  · intro h
    refine ⟨h.trans p.dropLast_prefix, ?_⟩
    rintro rfl
    have hlen := h.length_le
    have hpos := List.length_pos_iff.mpr hp
    rw [List.length_dropLast] at hlen
    omega
  · rintro ⟨⟨r, rfl⟩, hne⟩
    have hr : r ≠ [] := by
      rintro rfl
      exact hne (List.append_nil q).symm
    rw [List.dropLast_append_of_ne_nil hr]
    exact List.prefix_append q r.dropLast

/-- A file can be put at `p`: it is no directory, and nothing above it is a file. -/
structure Free (t : FileTree α β) (p : List α) : Prop where
  not_dir : t.node p ≠ some .dir
  above : ∀ q, q <+: p → q ≠ p → t.isFile q = false

theorem Free.ne_nil (h : t.Free p) : p ≠ [] := by
  rintro rfl
  exact h.not_dir t.root

variable [DecidableEq α]

/-! ## Directories -/

/-- Every path down to `p` becomes a directory. -/
def fill (t : FileTree α β) (p : List α) : FileTree α β where
  node q := if q <+: p then some .dir else t.node q
  root := if_pos p.nil_prefix
  parent q a hne := by
    by_cases hq : q <+: p
    · rw [if_pos hq]
    · have hqa : ¬ q ++ [a] <+: p := fun hqa => hq ((List.prefix_append q [a]).trans hqa)
      rw [if_neg hqa] at hne
      rw [if_neg hq, t.parent q a hne]

/-- `create_dir_all`. -/
def mkdirAll (t : FileTree α β) (p : List α) : Except FsError (FileTree α β) :=
  if ∀ q ∈ p.inits, t.isFile q = false then .ok (t.fill p)
  else if t.isFile p then .error .alreadyExists
  else .error .notADirectory

theorem mkdirAll_ok_iff :
    t.mkdirAll p = .ok t' ↔ (∀ q, q <+: p → t.isFile q = false) ∧ t' = t.fill p := by
  unfold mkdirAll
  constructor
  · intro h
    split at h
    · rename_i hfree
      exact ⟨fun q hq => hfree q ((List.mem_inits q p).mpr hq), (Except.ok.inj h).symm⟩
    · split at h <;> cases h
  · rintro ⟨hfree, rfl⟩
    rw [if_pos fun q hq => hfree q ((List.mem_inits q p).mp hq)]

/-! ## Files -/

/-- The file at `p` holds `c`. -/
def set (t : FileTree α β) (p : List α) (c : β) (hp : t.node p ≠ some .dir)
    (habove : t.node p.dropLast = some .dir) : FileTree α β where
  node q := if q = p then some (.file c) else t.node q
  root := by
    have hne : [] ≠ p := by
      rintro rfl
      exact hp t.root
    rw [if_neg hne, t.root]
  parent q a hne := by
    have hdir : t.node q = some .dir := by
      by_cases hqa : q ++ [a] = p
      · rwa [← hqa, List.dropLast_concat] at habove
      · rw [if_neg hqa] at hne
        exact t.parent q a hne
    have hqp : q ≠ p := by
      rintro rfl
      exact hp hdir
    rw [if_neg hqp, hdir]

/-- Why nothing can be looked up at `p`, where nothing is. -/
def lookupError (t : FileTree α β) (p : List α) : FsError :=
  if p.inits.any t.isFile then .notADirectory else .notFound

/-- Writing a file, with `O_CREAT` and `O_TRUNC`. -/
def write (t : FileTree α β) (p : List α) (c : β) : Except FsError (FileTree α β) :=
  if hp : t.node p = some .dir then .error .isADirectory
  else if habove : t.node p.dropLast = some .dir then .ok (t.set p c hp habove)
  else .error (t.lookupError p)

theorem write_ok_iff : t.write p c = .ok t' ↔
    ∃ (hp : t.node p ≠ some .dir) (habove : t.node p.dropLast = some .dir),
      t' = t.set p c hp habove := by
  unfold write
  constructor
  · intro h
    split at h
    · cases h
    rename_i hp
    split at h
    · rename_i habove
      exact ⟨hp, habove, (Except.ok.inj h).symm⟩
    · cases h
  · rintro ⟨hp, habove, rfl⟩
    rw [dif_neg hp, dif_pos habove]

@[simp] theorem node_set (hp : t.node p ≠ some .dir) (habove : t.node p.dropLast = some .dir) :
    (t.set p c hp habove).node q = if q = p then some (.file c) else t.node q := rfl

/-- A file in an existing directory can be written. -/
theorem write_ok (hp : t.node p ≠ some .dir) (habove : t.node p.dropLast = some .dir) (c : β) :
    ∃ t', t.write p c = .ok t' ∧ ∀ q, t'.node q = if q = p then some (.file c) else t.node q :=
  ⟨t.set p c hp habove, write_ok_iff.mpr ⟨hp, habove, rfl⟩, fun _ => rfl⟩

@[simp] theorem node_fill : (t.fill p).node q = if q <+: p then some .dir else t.node q := rfl

/-! ## A file and the directories above it -/

/-- `create_dir_all` on the parent, then a write. -/
def place (t : FileTree α β) (p : List α) (c : β) : Except FsError (FileTree α β) :=
  match t.mkdirAll p.dropLast with
  | .error e => .error e
  | .ok t => t.write p c

/-- What a successful `place` did. -/
theorem place_node (h : t.place p c = .ok t') :
    t.Free p ∧ ∀ q, t'.node q = if q = p then some (.file c) else if q <+: p then
      some .dir else t.node q := by
  unfold place at h
  split at h
  · cases h
  rename_i t₁ hmk
  obtain ⟨hfree, rfl⟩ := mkdirAll_ok_iff.mp hmk
  obtain ⟨hp, habove, rfl⟩ := write_ok_iff.mp h
  have hne : p ≠ [] := by
    rintro rfl
    exact hp (t.fill _).root
  have hnp : ¬ p <+: p.dropLast := fun hpp => ((prefix_dropLast_iff hne).mp hpp).2 rfl
  rw [node_fill, if_neg hnp] at hp
  refine ⟨⟨hp, fun q hq hqp => hfree q ((prefix_dropLast_iff hne).mpr ⟨hq, hqp⟩)⟩, fun q => ?_⟩
  rw [node_set, node_fill]
  by_cases hqp : q = p
  · rw [if_pos hqp, if_pos hqp]
  · simp only [prefix_dropLast_iff hne, hqp, ne_eq, not_false_eq_true, and_true]

theorem place_ok_iff : (∃ t', t.place p c = .ok t') ↔ t.Free p := by
  constructor
  · rintro ⟨t', h⟩
    exact (place_node h).1
  · intro h
    have hne := h.ne_nil
    have hfree : ∀ q, q <+: p.dropLast → t.isFile q = false := by
      intro q hq
      obtain ⟨hqp, hqne⟩ := (prefix_dropLast_iff hne).mp hq
      exact h.above q hqp hqne
    have hp : (t.fill p.dropLast).node p ≠ some .dir := by
      rw [node_fill, if_neg fun hpp => ((prefix_dropLast_iff hne).mp hpp).2 rfl]
      exact h.not_dir
    have habove : (t.fill p.dropLast).node p.dropLast = some .dir := by
      rw [node_fill, if_pos (List.prefix_refl _)]
    refine ⟨(t.fill p.dropLast).set p c hp habove, ?_⟩
    unfold place
    rw [mkdirAll_ok_iff.mpr ⟨hfree, rfl⟩]
    exact write_ok_iff.mpr ⟨hp, habove, rfl⟩

/-- The other files stay as they were. -/
theorem place_read (h : t.place p c = .ok t') (q : List α) :
    t'.read q = if q = p then some c else t.read q := by
  obtain ⟨hfree, hnode⟩ := place_node h
  unfold read
  rw [hnode q]
  by_cases hqp : q = p
  · rw [if_pos hqp, if_pos hqp]
  rw [if_neg hqp, if_neg hqp]
  by_cases hpre : q <+: p
  · rw [if_pos hpre]
    have := isFile_eq_false.mp (hfree.above q hpre hqp)
    unfold read at this
    rw [this]
  · rw [if_neg hpre]

theorem place_isFile (h : t.place p c = .ok t') (q : List α) :
    t'.isFile q = if q = p then true else t.isFile q := by
  unfold isFile
  rw [place_read h q]
  split <;> rfl

/-- What `place` leaves free: what was free before and is neither above nor below the file. -/
theorem free_place (h : t.place p c = .ok t') :
    t'.Free q ↔ t.Free q ∧ (p <+: q → p = q) ∧ (q <+: p → q = p) := by
  obtain ⟨hfree, hnode⟩ := place_node h
  constructor
  · intro hq
    have hpq : p <+: q → p = q := by
      intro hpre
      by_contra hne
      have := hq.above p hpre hne
      rw [place_isFile h, if_pos rfl] at this
      cases this
    have hqp : q <+: p → q = p := by
      intro hpre
      by_contra hne
      refine hq.not_dir ?_
      rw [hnode q, if_neg hne, if_pos hpre]
    refine ⟨⟨?_, fun r hr hrq => ?_⟩, hpq, hqp⟩
    · by_cases hqe : q = p
      · rw [hqe]
        exact hfree.not_dir
      · have := hq.not_dir
        rwa [hnode q, if_neg hqe, if_neg fun hpre => hqe (hqp hpre)] at this
    · have := hq.above r hr hrq
      rw [place_isFile h] at this
      split at this
      · cases this
      · exact this
  · rintro ⟨hq, hpq, hqp⟩
    refine ⟨?_, fun r hr hrq => ?_⟩
    · rw [hnode q]
      by_cases hqe : q = p
      · rw [if_pos hqe]
        simp
      · rw [if_neg hqe, if_neg fun hpre => hqe (hqp hpre)]
        exact hq.not_dir
    · have hrp : r ≠ p := by
        rintro rfl
        exact hrq (hpq hr)
      rw [place_isFile h, if_neg hrp]
      exact hq.above r hr hrq

/-! ## Several files -/

def placeAll (t : FileTree α β) : List (List α × β) → Except FsError (FileTree α β)
  | [] => .ok t
  | (p, c) :: files =>
    match t.place p c with
    | .error e => .error e
    | .ok t => t.placeAll files

/-- These paths can all be files of one tree. -/
structure Fits (t : FileTree α β) (ps : List (List α)) : Prop where
  free : ∀ p ∈ ps, t.Free p
  apart : ∀ p ∈ ps, ∀ q ∈ ps, p <+: q → p = q

variable {files : List (List α × β)}

theorem placeAll_cons : t.placeAll ((p, c) :: files) = .ok t' ↔
    ∃ t₁, t.place p c = .ok t₁ ∧ t₁.placeAll files = .ok t' := by
  rw [placeAll]
  constructor
  · intro h
    split at h
    · cases h
    · rename_i t₁ h₁
      exact ⟨t₁, h₁, h⟩
  · rintro ⟨t₁, h₁, h⟩
    rw [h₁]
    exact h

/-- Once the first file is in place, the others fit the new tree if all of them fit the old one. -/
theorem fits_cons {t₁ : FileTree α β} {ps : List (List α)} (h : t.place p c = .ok t₁) :
    t₁.Fits ps ↔ t.Fits (p :: ps) := by
  have hp := (place_node h).1
  constructor
  · intro hfit
    refine ⟨fun q hq => ?_, fun q hq r hr hqr => ?_⟩
    · rcases List.mem_cons.mp hq with rfl | hq
      · exact hp
      · exact ((free_place h).mp (hfit.free q hq)).1
    · rcases List.mem_cons.mp hq with rfl | hq
      · rcases List.mem_cons.mp hr with rfl | hr
        · rfl
        · exact ((free_place h).mp (hfit.free r hr)).2.1 hqr
      · rcases List.mem_cons.mp hr with hrp | hr
        · rw [hrp] at hqr ⊢
          exact ((free_place h).mp (hfit.free q hq)).2.2 hqr
        · exact hfit.apart q hq r hr hqr
  · intro hfit
    have hmem : ∀ q ∈ ps, q ∈ p :: ps := fun q hq => List.mem_cons_of_mem p hq
    have hself : p ∈ p :: ps := List.mem_cons_self
    exact
      { free := fun q hq => (free_place h).mpr
          ⟨hfit.free q (hmem q hq), hfit.apart p hself q (hmem q hq),
            hfit.apart q (hmem q hq) p hself⟩
        apart := fun q hq r hr => hfit.apart q (hmem q hq) r (hmem r hr) }

/-- **When files can be written together**: each of them fits, and none lies above another. -/
theorem placeAll_ok_iff :
    (∃ t', t.placeAll files = .ok t') ↔ t.Fits (files.map Prod.fst) := by
  induction files generalizing t with
  | nil =>
    constructor
    · intro _
      exact ⟨nofun, nofun⟩
    · intro _
      exact ⟨t, rfl⟩
  | cons file files ih =>
    obtain ⟨p, c⟩ := file
    constructor
    · rintro ⟨t', h⟩
      obtain ⟨t₁, h₁, h⟩ := placeAll_cons.mp h
      exact (fits_cons h₁).mp (ih.mp ⟨t', h⟩)
    · intro hfit
      obtain ⟨t₁, h₁⟩ := place_ok_iff.mpr (hfit.free p List.mem_cons_self)
      obtain ⟨t', h⟩ := ih.mpr ((fits_cons h₁).mpr hfit)
      exact ⟨t', placeAll_cons.mpr ⟨t₁, h₁, h⟩⟩

/-- **What can be read afterwards.** -/
theorem placeAll_read (hnd : (files.map Prod.fst).Nodup)
    (h : t.placeAll files = .ok t') : ∀ q c, t'.read q = some c ↔
      (q, c) ∈ files ∨ q ∉ files.map Prod.fst ∧ t.read q = some c := by
  induction files generalizing t with
  | nil =>
    cases h
    simp
  | cons file files ih =>
    obtain ⟨p, d⟩ := file
    obtain ⟨t₁, h₁, h⟩ := placeAll_cons.mp h
    rw [List.map_cons, List.nodup_cons] at hnd
    intro q c
    rw [ih hnd.2 h, place_read h₁ q]
    by_cases hqp : q = p
    · -- no later file is at `p`
      subst hqp
      have hnot : (q, c) ∉ files := fun hmem => hnd.1 (List.mem_map.mpr ⟨(q, c), hmem, rfl⟩)
      simp [hnd.1, hnot, eq_comm]
    · simp [hqp]

/-- Where no file was written, nothing new can be read. -/
theorem placeAll_read_of_notMem (h : t.placeAll files = .ok t')
    (hq : q ∉ files.map Prod.fst) : t'.read q = t.read q := by
  induction files generalizing t with
  | nil =>
    cases h
    rfl
  | cons file files ih =>
    obtain ⟨p, c⟩ := file
    obtain ⟨t₁, h₁, h⟩ := placeAll_cons.mp h
    rw [List.map_cons, List.mem_cons, not_or] at hq
    rw [ih h hq.2, place_read h₁ q, if_neg hq.1]

end FileTree

end Pkzz.Lib
