import Mathlib.Data.List.Basic

/-!
# Threads over a shared memory

A pool is a memory and the local states of the threads that share it. One thread moves at a
time. A proof about every interleaving gives each thread an assertion about the memory and
its own state, and every two threads a relation; a step has to establish the assertion of
the thread that moves and to keep those of the others.
-/

namespace Pkzz.Lib

structure Pool (G L : Type) where
  shared : G
  threads : List L

namespace Pool

variable {G L : Type} {p : Pool G L} {g : G} {i j : Nat} {l l' m : L}

/-- Thread `i` has moved. -/
def put (p : Pool G L) (i : Nat) (g : G) (l : L) : Pool G L := ⟨g, p.threads.set i l⟩

def spawn (p : Pool G L) (l : L) : Pool G L := { p with threads := p.threads ++ [l] }

theorem threads_put_self (h : p.threads[i]? = some l) : (p.put i g l').threads[i]? = some l' := by
  have hlt : i < p.threads.length := (List.getElem?_eq_some_iff.mp h).1
  exact List.getElem?_set_self hlt

theorem threads_put_of_ne (h : j ≠ i) : (p.put i g l').threads[j]? = p.threads[j]? :=
  List.getElem?_set_ne h.symm

/-- A thread of the moved pool is the one that moved, or one of the others. -/
theorem threads_put_cases (hi : p.threads[i]? = some l) (h : (p.put i g l').threads[j]? = some m) :
    (j = i ∧ m = l') ∨ (j ≠ i ∧ p.threads[j]? = some m) := by
  by_cases hj : j = i
  · rw [hj, threads_put_self hi] at h
    exact .inl ⟨hj, (Option.some.inj h).symm⟩
  · rw [threads_put_of_ne hj] at h
    exact .inr ⟨hj, h⟩

theorem threads_spawn_cases (h : (p.spawn l).threads[j]? = some m) :
    (j = p.threads.length ∧ m = l) ∨ p.threads[j]? = some m := by
  unfold spawn at h
  rw [List.getElem?_append] at h
  by_cases hj : j < p.threads.length
  · rw [if_pos hj] at h
    exact .inr h
  rw [if_neg hj, List.getElem?_singleton] at h
  by_cases hzero : j - p.threads.length = 0
  · rw [if_pos hzero] at h
    exact .inl ⟨by omega, (Option.some.inj h).symm⟩
  · rw [if_neg hzero] at h
    cases h

/-! ## Assertions -/

/-- Each thread meets its assertion, and every two of them the relation. -/
structure Proper (A : G → Nat → L → Prop) (B : L → L → Prop) (p : Pool G L) : Prop where
  each : ∀ (i : Nat) (l : L), p.threads[i]? = some l → A p.shared i l
  pair : ∀ (i j : Nat) (l m : L), i ≠ j → p.threads[i]? = some l → p.threads[j]? = some m → B l m

variable {A : G → Nat → L → Prop} {B : L → L → Prop}

theorem proper_nil : Proper A B (⟨g, []⟩ : Pool G L) :=
  ⟨fun _ _ h => by simp at h, fun _ _ _ _ _ h => by simp at h⟩

/-- **The rule of a step.** The thread that moves establishes its assertion, and keeps those
of the others. -/
theorem Proper.put (h : Proper A B p) (hi : p.threads[i]? = some l) (hown : A g i l')
    (hother : ∀ (j : Nat) (m : L), j ≠ i → p.threads[j]? = some m → A g j m ∧ B l' m ∧ B m l') :
    Proper A B (p.put i g l') := by
  refine ⟨?_, ?_⟩
  · intro j m hj
    rcases threads_put_cases hi hj with ⟨hji, hm⟩ | ⟨hji, hj⟩
    · rw [hji, hm]
      exact hown
    · exact (hother j m hji hj).1
  · intro j k m n hjk hj hk
    rcases threads_put_cases hi hj with ⟨hji, hm⟩ | ⟨hji, hj⟩
    · rcases threads_put_cases hi hk with ⟨hki, _⟩ | ⟨hki, hk⟩
      · exact absurd (hji.trans hki.symm) hjk
      · rw [hm]
        exact (hother k n hki hk).2.1
    · rcases threads_put_cases hi hk with ⟨hki, hn⟩ | ⟨hki, hk⟩
      · rw [hn]
        exact (hother j m hji hj).2.2
      · exact h.pair j k m n hjk hj hk

/-- **The rule of the environment.** The memory changes, and every thread keeps its assertion. -/
theorem Proper.change (h : Proper A B p)
    (hkeep : ∀ (j : Nat) (m : L), p.threads[j]? = some m → A g j m) :
    Proper A B { p with shared := g } :=
  ⟨hkeep, h.pair⟩

theorem Proper.spawn (h : Proper A B p) (hown : A p.shared p.threads.length l)
    (hother : ∀ m ∈ p.threads, B l m ∧ B m l) : Proper A B (p.spawn l) := by
  refine ⟨?_, ?_⟩
  · intro j m hj
    rcases threads_spawn_cases hj with ⟨hlen, hm⟩ | hj
    · rw [hlen, hm]
      exact hown
    · exact h.each j m hj
  · intro j k m n hjk hj hk
    rcases threads_spawn_cases hj with ⟨hlen, hm⟩ | hj
    · rcases threads_spawn_cases hk with ⟨hlen', _⟩ | hk
      · exact absurd (hlen.trans hlen'.symm) hjk
      · rw [hm]
        exact (hother n (List.mem_of_getElem? hk)).1
    · rcases threads_spawn_cases hk with ⟨_, hn⟩ | hk
      · rw [hn]
        exact (hother m (List.mem_of_getElem? hj)).2
      · exact h.pair j k m n hjk hj hk

end Pool

end Pkzz.Lib
