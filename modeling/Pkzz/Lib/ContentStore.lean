import Pkzz.Lib.Map

/-!
# A create-only object store

Objects are written under a key computed from their kind and their content, and a key that
is taken is never written again. As long as no two contents that were ever put share a
key, what a put leaves under its key is its own content, and it stays there.
-/

namespace Pkzz.Lib

namespace Map

variable {K V : Type} [DecidableEq K]

/-- A conditional write that succeeds only on a free key. -/
def putNew (s : Map K V) (k : K) (b : V) : Map K V := if k ∈ s then s else Finmap.insert k b s

/-- Everything stored in `s` is stored in `t`. -/
def Extends (s t : Map K V) : Prop := ∀ k b, Finmap.lookup k s = some b → Finmap.lookup k t = some b

theorem lookup_putNew (s : Map K V) (k k' : K) (b : V) :
    Finmap.lookup k' (putNew s k b) =
      if k' = k ∧ k ∉ s then some b else Finmap.lookup k' s := by
  unfold putNew
  by_cases hk : k ∈ s
  · rw [if_pos hk, if_neg (by simp [hk])]
  · rw [if_neg hk, lookup_insert_eq]
    simp only [hk, not_false_iff, and_true]

/-- A put takes nothing away. -/
theorem extends_putNew (s : Map K V) (k : K) (b : V) : Extends s (putNew s k b) := by
  intro k' c hc
  rw [lookup_putNew, if_neg]
  · exact hc
  · intro hkk
    rw [hkk.1] at hc
    rw [Finmap.lookup_eq_none.mpr hkk.2] at hc
    cases hc

/-! ## Keys computed from the content -/

variable {I : Type} {key : I → V → K} {puts : List (I × V)}

/-- No two contents that were put share a key. -/
def CollisionFree (key : I → V → K) (puts : List (I × V)) : Prop :=
  ∀ i b j c, (i, b) ∈ puts → (j, c) ∈ puts → key i b = key j c → b = c

omit [DecidableEq K] in
theorem CollisionFree.mono {more : List (I × V)} (h : CollisionFree key more)
    (hsub : ∀ x ∈ puts, x ∈ more) : CollisionFree key puts :=
  fun i b j c hb hc => h i b j c (hsub _ hb) (hsub _ hc)

/-- Every stored object was put, and lies under its own key. -/
def Addressed (key : I → V → K) (puts : List (I × V)) (s : Map K V) : Prop :=
  ∀ k b, Finmap.lookup k s = some b → ∃ i, (i, b) ∈ puts ∧ key i b = k

theorem addressed_empty (key : I → V → K) : Addressed key [] (∅ : Map K V) := by
  intro k b h
  rw [Finmap.lookup_empty] at h
  cases h

theorem Addressed.putNew {s : Map K V} (h : Addressed key puts s) (i : I) (b : V) :
    Addressed key ((i, b) :: puts) (putNew s (key i b) b) := by
  intro k c hc
  rw [lookup_putNew] at hc
  split at hc
  · rename_i hk
    cases hc
    exact ⟨i, by simp, hk.1.symm⟩
  · obtain ⟨j, hj, hkey⟩ := h k c hc
    exact ⟨j, List.mem_cons_of_mem _ hj, hkey⟩

/-- **What was put is what is stored**: also where the key was taken already. -/
theorem Addressed.lookup_putNew_self {s : Map K V} (h : Addressed key puts s) {i : I} {b : V}
    (hfree : CollisionFree key ((i, b) :: puts)) :
    Finmap.lookup (key i b) (Map.putNew s (key i b) b) = some b := by
  rw [Map.lookup_putNew]
  by_cases hk : key i b ∈ s
  · rw [if_neg (by simp [hk])]
    obtain ⟨c, hc⟩ := Finmap.mem_iff.mp hk
    obtain ⟨j, hj, hkey⟩ := h _ c hc
    have hcb : c = b := hfree j c i b (List.mem_cons_of_mem _ hj) (by simp) hkey
    rw [hc, hcb]
  · rw [if_pos ⟨rfl, hk⟩]

end Map

end Pkzz.Lib
