import Mathlib.Data.List.Basic

/-!
# Versions that name their predecessor

The history of a register that is only written by compare-and-swap, newest version first.
Each version carries the key of the one it replaced, and the first one carries none. When
the key of a version determines the key it names, such a history cannot come back to a key
it has left: the position of a version, counted from the first one, can be read off its
key.
-/

namespace Pkzz.Lib

variable {V K : Type}

/-- Newest first: every version names the one below it. -/
inductive Linked (key : V → K) (parent : V → Option K) : List V → Prop
  | nil : Linked key parent []
  | cons {v : V} {l : List V} : parent v = l.head?.map key → Linked key parent l →
      Linked key parent (v :: l)

namespace Linked

variable {key : V → K} {parent : V → Option K}

/-- The key of a version determines the key it names, over the versions in `l`. -/
def Determined (key : V → K) (parent : V → Option K) (l : List V) : Prop :=
  ∀ x ∈ l, ∀ y ∈ l, key x = key y → parent x = parent y

/-- Two histories that end in the same key are equally long. -/
theorem length_eq : ∀ {s t l : List V}, Linked key parent s → Linked key parent t →
    Determined key parent l → (∀ x ∈ s, x ∈ l) → (∀ x ∈ t, x ∈ l) →
    s.head?.map key = t.head?.map key → s.length = t.length
  | [], [], _, _, _, _, _, _, _ => rfl
  | [], y :: t, _, _, _, _, _, _, h => by simp at h
  | x :: s, [], _, _, _, _, _, _, h => by simp at h
  | x :: s, y :: t, l, hs, ht, hl, hsl, htl, h => by
    have hxy : key x = key y := by simpa using h
    have hpar : parent x = parent y := hl x (hsl x (by simp)) y (htl y (by simp)) hxy
    cases hs with
    | cons hx hs =>
      cases ht with
      | cons hy ht =>
        have hst : s.head?.map key = t.head?.map key := by rw [← hx, ← hy, hpar]
        have ih := length_eq hs ht hl (fun z hz => hsl z (List.mem_cons_of_mem _ hz))
          (fun z hz => htl z (List.mem_cons_of_mem _ hz)) hst
        rw [List.length_cons, List.length_cons, ih]

theorem suffix {s l : List V} (h : Linked key parent l) (hs : s <:+ l) : Linked key parent s := by
  induction h with
  | nil =>
    rw [List.suffix_nil.mp hs]
    exact nil
  | @cons v l hv hl ih =>
    rcases List.suffix_cons_iff.mp hs with hs | hs
    · rw [hs]
      exact cons hv hl
    · exact ih hs

/-- **No key recurs.** -/
theorem nodup_keys {l : List V} (h : Linked key parent l) (hdet : Determined key parent l) :
    (l.map key).Nodup := by
  induction h with
  | nil => exact List.nodup_nil
  | @cons v l hv hl ih =>
    have ih := ih fun x hx y hy =>
      hdet x (List.mem_cons_of_mem _ hx) y (List.mem_cons_of_mem _ hy)
    rw [List.map_cons, List.nodup_cons]
    refine ⟨?_, ih⟩
    intro hmem
    obtain ⟨w, hw, hkey⟩ := List.mem_map.mp hmem
    obtain ⟨pre, post, hsplit⟩ := List.append_of_mem hw
    have hsuf : w :: post <:+ l := ⟨pre, hsplit.symm⟩
    have hlen := length_eq (cons hv hl) (hl.suffix hsuf) hdet (fun _ hx => hx)
      (fun x hx => List.mem_cons_of_mem _ (hsuf.mem hx)) (by simp [hkey])
    have hle := hsuf.length_le
    rw [List.length_cons] at hlen hle
    rw [List.length_cons] at hlen
    omega

/-- Every version but the newest has its key named by the one above it, and by no other:
two versions that name the same key are the same version. -/
theorem nodup_parents {l : List V} (h : Linked key parent l) (hdet : Determined key parent l) :
    (l.map parent).Nodup := by
  induction h with
  | nil => exact List.nodup_nil
  | @cons v l hv hl ih =>
    have ih := ih fun x hx y hy =>
      hdet x (List.mem_cons_of_mem _ hx) y (List.mem_cons_of_mem _ hy)
    rw [List.map_cons, List.nodup_cons]
    refine ⟨?_, ih⟩
    intro hmem
    obtain ⟨w, hw, hpar⟩ := List.mem_map.mp hmem
    obtain ⟨pre, post, hsplit⟩ := List.append_of_mem hw
    have hsuf : w :: post <:+ l := ⟨pre, hsplit.symm⟩
    have hsub : ∀ x ∈ l, x ∈ v :: l := fun x hx => List.mem_cons_of_mem _ hx
    cases hl.suffix hsuf with
    | cons hw' hpost =>
      have hheads : l.head?.map key = post.head?.map key := by rw [← hv, ← hw', hpar]
      have hsuf' : post <:+ l := (List.suffix_cons w post).trans hsuf
      have hlen := length_eq hl hpost hdet hsub (fun x hx => hsub x (hsuf'.mem hx)) hheads
      have hle := hsuf.length_le
      rw [List.length_cons] at hle
      omega

end Linked

end Pkzz.Lib
