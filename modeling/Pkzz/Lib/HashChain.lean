import Mathlib.Data.List.Chain
import Mathlib.Data.List.Pairwise

/-!
# Hash chains

Entries with a number, a hash, and the hash of the entry before them. In a chain each entry
follows the one before it: its number is the next one, and it carries the hash.

The links alone say little about a list of entries. `follows_of_matched` says what they
show when each entry is known to have the number and the hash of some entry of a chain:
then no entry of the chain is missing between two that are there.
-/

namespace Pkzz.Lib.HashChain

variable {E H : Type} (seq : E → Int) (hash : E → H) (prev : E → Option H)

/-- `b` carries the hash of `a`. -/
def LinksTo (a b : E) : Prop := prev b = some (hash a)

/-- `b` is the entry after `a`. -/
def Follows (a b : E) : Prop := seq b = seq a + 1 ∧ LinksTo hash prev a b

variable {seq hash prev} {l chain es : List E} {a b c : E}

/-! ## The numbers of a chain -/

theorem pairwise_seq (h : l.IsChain (Follows seq hash prev)) : l.Pairwise fun a b =>
    seq a < seq b := by
  have hlt : l.IsChain fun a b => seq a < seq b := by
    refine h.imp ?_
    intro a b hab
    have hseq := hab.1
    omega
  have hmap : (l.map seq).IsChain (· < ·) := (List.isChain_map seq).mpr hlt
  exact List.pairwise_map.mp hmap.pairwise

theorem eq_of_seq (h : l.IsChain (Follows seq hash prev)) (ha : a ∈ l) (hb : b ∈ l)
    (hab : seq a = seq b) : a = b := by
  by_contra hne
  have hpair : l.Pairwise fun a b => seq a ≠ seq b := (pairwise_seq h).imp fun hlt =>
    Int.ne_of_lt hlt
  have hsymm : Std.Symm fun a b : E => seq a ≠ seq b := ⟨fun _ _ => Ne.symm⟩
  exact hpair.forall ha hb hne hab

theorem head_le (h : l.IsChain (Follows seq hash prev)) (ha : l.head? = some a) (hb : b ∈ l) :
    seq a ≤ seq b := by
  obtain ⟨l', rfl⟩ := List.head?_eq_some_iff.mp ha
  rcases List.mem_cons.mp hb with hb | hb
  · exact Int.le_of_eq (by rw [hb])
  · exact Int.le_of_lt ((List.pairwise_cons.mp (pairwise_seq h)).1 b hb)

/-- Every entry but the first follows another one. -/
theorem head_or_follows (h : l.IsChain (Follows seq hash prev)) (hb : b ∈ l) :
    l.head? = some b ∨ ∃ a ∈ l, Follows seq hash prev a b := by
  induction l with
  | nil => exact absurd hb List.not_mem_nil
  | cons x l ih =>
    obtain ⟨hx, hl⟩ := List.isChain_cons.mp h
    rcases List.mem_cons.mp hb with hb | hb
    · exact .inl (by rw [hb, List.head?_cons])
    · rcases ih hl hb with hhead | ⟨a, ha, hab⟩
      · exact .inr ⟨x, List.mem_cons_self, hx b hhead⟩
      · exact .inr ⟨a, List.mem_cons_of_mem _ ha, hab⟩

/-- A chain has no holes. -/
theorem exists_between (h : l.IsChain (Follows seq hash prev)) (ha : a ∈ l) (hc : c ∈ l) {k : Int}
    (hak : seq a ≤ k) (hkc : k ≤ seq c) : ∃ b ∈ l, seq b = k := by
  -- down from `c`, one entry at a time
  obtain ⟨d, hd⟩ : ∃ d : Nat, seq c = k + d := ⟨(seq c - k).toNat, by omega⟩
  induction d generalizing c with
  | zero => exact ⟨c, hc, by omega⟩
  | succ d ih =>
    rcases head_or_follows h hc with hhead | ⟨b, hb, hseq, _⟩
    · have hle := head_le h hhead ha
      omega
    · exact ih hb (by omega) (by omega)

theorem seq_getElem (h : l.IsChain (Follows seq hash prev)) (ha : l.head? = some a) (i : Nat)
    (hi : i < l.length) : seq l[i] = seq a + i := by
  induction i with
  | zero =>
    have hzero : l[0] = a := by
      rw [List.head?_eq_getElem?, List.getElem?_eq_getElem hi] at ha
      exact Option.some.inj ha
    rw [hzero]
    simp
  | succ i ih =>
    have hnext := (List.isChain_iff_getElem.mp h i hi).1
    rw [hnext, ih (by omega)]
    omega

/-! ## Parts of a chain -/

/-- The entries of a chain with a number in an interval are a chain. -/
theorem isChain_filter_between (h : l.IsChain (Follows seq hash prev)) (lo hi : Int) :
    (l.filter fun e => lo ≤ seq e && seq e ≤ hi).IsChain (Follows seq hash prev) := by
  induction l with
  | nil => exact List.isChain_nil
  | cons x l ih =>
    obtain ⟨hx, hl⟩ := List.isChain_cons.mp h
    have hrest := ih hl
    by_cases hkeep : (lo ≤ seq x && seq x ≤ hi) = true
    · rw [List.filter_cons, if_pos hkeep]
      refine List.isChain_cons.mpr ⟨?_, hrest⟩
      intro y hy
      cases l with
      | nil => cases hy
      | cons z l =>
        have hxz := hx z rfl
        have hseq := hxz.1
        rw [Bool.and_eq_true, decide_eq_true_eq, decide_eq_true_eq] at hkeep
        by_cases hz : (lo ≤ seq z && seq z ≤ hi) = true
        · rw [List.filter_cons, if_pos hz] at hy
          cases hy
          exact hxz
        -- `z` is above the interval, and so is what follows it
        have hmem : y ∈ (z :: l).filter fun e => lo ≤ seq e && seq e ≤ hi :=
          List.mem_of_head? hy
        obtain ⟨hyl, hkeepy⟩ := List.mem_filter.mp hmem
        have hle := head_le hl rfl hyl
        simp only [Bool.and_eq_true, decide_eq_true_eq, not_and, Int.not_le] at hz hkeepy
        omega
    · rw [List.filter_cons, if_neg hkeep]
      exact hrest

/-- **Linked entries that are all known from a chain are a part of it without holes.** -/
theorem follows_of_matched (hchain : chain.IsChain (Follows seq hash prev))
    (hinj : ∀ a ∈ chain, ∀ b ∈ chain, hash a = hash b → a = b)
    (hlinks : es.IsChain (LinksTo hash prev)) (hsorted : es.Pairwise fun a b => seq a < seq b)
    (hmatch : ∀ e ∈ es, ∃ o ∈ chain, seq o = seq e ∧ hash o = hash e
      ∧ ∀ d ∈ es, LinksTo hash prev d e → ∀ a ∈ chain, LinksTo hash prev a o → hash d = hash a) :
    es.IsChain (Follows seq hash prev) := by
  refine List.isChain_iff_getElem.mpr ?_
  intro i hi
  have hlink := List.isChain_iff_getElem.mp hlinks i hi
  have hlt := List.pairwise_iff_getElem.mp hsorted i (i + 1) (by omega) hi (by omega)
  obtain ⟨o, ho, hoseq, hohash, _⟩ := hmatch es[i] (List.getElem_mem _)
  obtain ⟨o', ho', hoseq', _, hprev⟩ := hmatch es[i + 1] (List.getElem_mem _)
  refine ⟨?_, hlink⟩
  rcases head_or_follows hchain ho' with hhead | ⟨a, ha, haseq, halink⟩
  · have hle := head_le hchain hhead ho
    omega
  · have hsame : hash o = hash a := hohash.trans (hprev _ (List.getElem_mem _) hlink a ha halink)
    have hoa := hinj o ho a ha hsame
    rw [← hoseq', haseq, ← hoa, hoseq]

end Pkzz.Lib.HashChain
