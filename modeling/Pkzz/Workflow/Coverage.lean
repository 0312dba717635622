import Pkzz.Workflow.Schedule
import Mathlib.Data.List.Chain

/-!
# Which cron instants a pod catches

A tick looks back over a window of sixty seconds that is open at its start, and returns the
first scheduled instant in it. Instants of minute granularity are so far apart that each
window has at most one (`cronFireInstant_eq_some_iff`). So the instants that are lost are
the ones in the part of the time line that no window covers: after one tick, and sixty
seconds or more before the next (`coversAll_iff`).
-/

namespace Pkzz.Workflow

open Pkzz.Lib

def windowSecs : Int := 60

variable {cron : CronCrate} {expr : String} {sched : cron.Schedule} {fires : Set Int}
    {ticks runs : List Int}
  {now x : Int}

/-- The runs after more ticks of one pod; an instant that is claimed is not fired again. -/
def cronRuns (cron : CronCrate) (expr : String) : List Int → List Int → List Int
  | runs, [] => runs
  | runs, now :: ticks =>
    match cronFireInstant cron expr now windowSecs with
    | some t => cronRuns cron expr (if t ∈ runs then runs else runs ++ [t]) ticks
    | none => cronRuns cron expr runs ticks

/-- Every scheduled instant between the first and the last tick is returned at some tick, and
there is exactly one run for it. -/
def CoversAll (cron : CronCrate) (expr : String) (fires : Set Int) (ticks : List Int) : Prop :=
  ∀ x ∈ fires, (∃ first ∈ ticks, first ≤ x) → (∃ last ∈ ticks, x ≤ last) →
    (∃ now ∈ ticks, cronFireInstant cron expr now windowSecs = some x)
      ∧ (cronRuns cron expr [] ticks).count x = 1

/-- No scheduled instant lies after `t` and a whole window or more before `u`. -/
def NoGap (fires : Set Int) (t u : Int) : Prop :=
  ∀ x ∈ fires, t < x → u < x + windowSecs * nanosPerSec

/-! ## One tick -/

/-- **A tick returns exactly the scheduled instants in its window.** -/
theorem cronFireInstant_eq_some_iff (hfires : cron.Fires sched fires)
    (hparse : cron.parse (normalizeCron expr) = some sched)
    (hminute : ∀ y ∈ fires, windowSecs * nanosPerSec ∣ y) :
    cronFireInstant cron expr now windowSecs = some x
      ↔ x ∈ fires ∧ now - windowSecs * nanosPerSec < x ∧ x ≤ now := by
  unfold cronFireInstant
  rw [hparse]
  dsimp only
  rw [Option.filter_eq_some_iff, hfires.next, decide_eq_true_eq]
  constructor
  · intro h
    exact ⟨h.1.1.1, h.1.1.2, h.2⟩
  · intro h
    obtain ⟨hx, hlo, hhi⟩ := h
    refine ⟨⟨⟨hx, hlo⟩, ?_⟩, hhi⟩
    intro y hy
    obtain ⟨hy, hylo⟩ := hy
    by_contra hlt
    -- two instants are a whole window apart
    obtain ⟨k, hk⟩ := hminute x hx
    obtain ⟨m, hm⟩ := hminute y hy
    unfold windowSecs nanosPerSec at hk hm hlo hylo
    omega

/-! ## The runs of one pod -/

theorem mem_cronRuns : x ∈ cronRuns cron expr runs ticks
    ↔ x ∈ runs ∨ ∃ now ∈ ticks, cronFireInstant cron expr now windowSecs = some x := by
  induction ticks generalizing runs with
  | nil => simp [cronRuns]
  | cons now ticks ih =>
    rw [cronRuns]
    cases hfire : cronFireInstant cron expr now windowSecs with
    | none =>
      rw [ih]
      simp [hfire]
    | some t =>
      have hmem : x ∈ (if t ∈ runs then runs else runs ++ [t]) ↔ x ∈ runs ∨ x = t := by
        by_cases ht : t ∈ runs
        · rw [if_pos ht]
          refine ⟨.inl, ?_⟩
          intro hx
          rcases hx with hx | hx
          · exact hx
          · rw [hx]
            exact ht
        · rw [if_neg ht, List.mem_append, List.mem_singleton]
      rw [ih, hmem]
      simp only [List.mem_cons, exists_eq_or_imp, hfire, Option.some.injEq]
      rw [or_assoc, eq_comm]

theorem nodup_cronRuns (h : runs.Nodup) : (cronRuns cron expr runs ticks).Nodup := by
  induction ticks generalizing runs with
  | nil => exact h
  | cons now ticks ih =>
    rw [cronRuns]
    cases hfire : cronFireInstant cron expr now windowSecs with
    | none => exact ih h
    | some t =>
      refine ih ?_
      by_cases ht : t ∈ runs
      · rw [if_pos ht]
        exact h
      rw [if_neg ht]
      exact h.append (List.nodup_singleton t) (List.disjoint_singleton.mpr ht)

/-- The claim makes one run of any number of ticks that return an instant. -/
theorem count_cronRuns (h : ∃ now ∈ ticks, cronFireInstant cron expr now windowSecs = some x) :
    (cronRuns cron expr [] ticks).count x = 1 :=
  List.count_eq_one_of_mem (nodup_cronRuns List.nodup_nil) (mem_cronRuns.mpr (.inr h))

/-! ## All ticks -/

/-- From a tick before an instant on, some tick has it in its window. -/
theorem exists_tick {t : Int} (hgap : (t :: ticks).IsChain (NoGap fires)) (hx : x ∈ fires)
    (htx : t ≤ x) (hlast : ∃ last ∈ t :: ticks, x ≤ last) :
    ∃ now ∈ t :: ticks, now - windowSecs * nanosPerSec < x ∧ x ≤ now := by
  induction ticks generalizing t with
  | nil =>
    obtain ⟨last, hmem, hxlast⟩ := hlast
    rw [List.mem_singleton.mp hmem] at hxlast
    refine ⟨t, List.mem_cons_self, ?_, hxlast⟩
    unfold windowSecs nanosPerSec
    omega
  | cons u ticks ih =>
    obtain ⟨htu, hrest⟩ := List.isChain_cons_cons.mp hgap
    by_cases heq : x = t
    · refine ⟨t, List.mem_cons_self, ?_, Int.le_of_eq heq⟩
      unfold windowSecs nanosPerSec
      omega
    have hu := htu x hx (by omega)
    by_cases hxu : x ≤ u
    · refine ⟨u, List.mem_cons_of_mem _ List.mem_cons_self, ?_, hxu⟩
      omega
    obtain ⟨last, hmem, hxlast⟩ := hlast
    have hmem' : last ∈ u :: ticks := by
      rcases List.mem_cons.mp hmem with hlast | hlast
      · omega
      · exact hlast
    obtain ⟨now, hnow, hwindow⟩ := ih hrest (by omega) ⟨last, hmem', hxlast⟩
    exact ⟨now, List.mem_cons_of_mem _ hnow, hwindow⟩

/-- **A pod catches every instant exactly if no instant falls into a gap between its windows.** -/
theorem coversAll_iff (hfires : cron.Fires sched fires)
    (hparse : cron.parse (normalizeCron expr) = some sched)
    (hminute : ∀ y ∈ fires, windowSecs * nanosPerSec ∣ y) (hsorted : ticks.IsChain (· ≤ ·)) :
    CoversAll cron expr fires ticks ↔ ticks.IsChain (NoGap fires) := by
  have hpair := List.pairwise_iff_getElem.mp hsorted.pairwise
  constructor
  · intro h
    refine List.isChain_iff_getElem.mpr ?_
    intro i hi x hx hlt
    by_contra hgap
    have hnext : x ≤ ticks[i + 1] := by
      unfold windowSecs nanosPerSec at hgap
      omega
    obtain ⟨⟨now, hnow, hfire⟩, _⟩ := h x hx ⟨ticks[i], List.getElem_mem _, Int.le_of_lt hlt⟩
      ⟨ticks[i + 1], List.getElem_mem _, hnext⟩
    obtain ⟨_, hlo, hhi⟩ := (cronFireInstant_eq_some_iff hfires hparse hminute).mp hfire
    obtain ⟨j, hj, rfl⟩ := List.mem_iff_getElem.mp hnow
    -- the tick is neither up to `i` nor after it
    rcases Nat.lt_or_ge i j with hij | hji
    · have hle : ticks[i + 1] ≤ ticks[j] := by
        rcases Nat.eq_or_lt_of_le hij with heq | hlt'
        · exact Int.le_of_eq (by simp only [← heq])
        · exact hpair (i + 1) j hi hj hlt'
      omega
    · have hle : ticks[j] ≤ ticks[i] := by
        rcases Nat.eq_or_lt_of_le hji with heq | hlt'
        · exact Int.le_of_eq (by simp only [heq])
        · exact hpair j i hj (by omega) hlt'
      omega
  · intro hgap x hx hfirst hlast
    have htick : ∃ now ∈ ticks, cronFireInstant cron expr now windowSecs = some x := by
      cases ticks with
      | nil =>
        obtain ⟨first, hmem, _⟩ := hfirst
        exact absurd hmem List.not_mem_nil
      | cons t ticks =>
        obtain ⟨first, hmem, hle⟩ := hfirst
        have htx : t ≤ x := by
          rcases List.mem_cons.mp hmem with heq | hmem
          · rw [← heq]
            exact hle
          · exact Int.le_trans ((List.pairwise_cons.mp hsorted.pairwise).1 first hmem) hle
        obtain ⟨now, hnow, hlo, hhi⟩ := exists_tick hgap hx htx hlast
        exact ⟨now, hnow, (cronFireInstant_eq_some_iff hfires hparse hminute).mpr ⟨hx, hlo, hhi⟩⟩
    exact ⟨htick, count_cronRuns htick⟩

/-! ## Ticks that are 61 seconds apart -/

def seconds (n : Int) : Int := n * nanosPerSec

/-- A crate that knows one expression: every minute. -/
def exampleCron : CronCrate where
  Schedule := Unit
  parse := fun s => if s = "0 * * * * * *" then some () else none
  next := fun _ t => some ((t / seconds 60 + 1) * seconds 60)

def everyMinute : Set Int := {x | seconds 60 ∣ x}

theorem exampleCron_fires : exampleCron.Fires () everyMinute where
  next := by
    intro t x
    have hleast : IsLeast {y | y ∈ everyMinute ∧ t < y} ((t / seconds 60 + 1) * seconds 60) := by
      refine ⟨⟨Dvd.intro_left _ rfl, ?_⟩, ?_⟩
      · unfold seconds nanosPerSec
        omega
      · intro y hy
        obtain ⟨⟨k, hk⟩, hlt⟩ := hy
        unfold seconds nanosPerSec at hk ⊢
        omega
    constructor
    · intro h
      cases h
      exact hleast
    · intro h
      exact congrArg some (hleast.unique h)

theorem exampleCron_parse : exampleCron.parse (normalizeCron "* * * * *") = some () := by
  have hnormal : normalizeCron "* * * * *" = "0 * * * * * *" := by decide
  rw [hnormal]
  rfl

/-- Half a second before the minute, and 61 seconds later. -/
def exampleTicks : List Int := [seconds 59 + 500000000, seconds 120 + 500000000]

/-- Ticks that are 60 seconds apart have no gap. -/
theorem coversAll_iff_regular :
    CoversAll exampleCron "* * * * *" everyMinute [seconds 59, seconds 119, seconds 179] := by
  refine (coversAll_iff exampleCron_fires exampleCron_parse (fun y hy => hy) (by decide)).mpr ?_
  refine List.isChain_cons_cons.mpr ⟨?_, List.isChain_cons_cons.mpr ⟨?_, List.isChain_singleton _⟩⟩
  · intro x _ hlt
    unfold seconds windowSecs nanosPerSec at *
    omega
  · intro x _ hlt
    unfold seconds windowSecs nanosPerSec at *
    omega

/-- The instant between two ticks that are 61 seconds apart is lost. -/
theorem not_coversAll :
    ¬ ∀ (cron : CronCrate) (expr : String) (sched : cron.Schedule) (fires : Set Int)
    (ticks : List Int), cron.Fires sched fires → cron.parse (normalizeCron expr) = some sched →
    (∀ y ∈ fires, windowSecs * nanosPerSec ∣ y) → ticks.IsChain (· ≤ ·) →
    ticks.IsChain (fun t u => u ≤ t + seconds 61) → CoversAll cron expr fires ticks := by
  intro hall
  have hcovers := hall exampleCron "* * * * *" () everyMinute exampleTicks exampleCron_fires
    exampleCron_parse (fun y hy => hy) (by decide) (by decide)
  obtain ⟨⟨now, hnow, hfire⟩, _⟩ := hcovers (seconds 60) (Dvd.intro_left 1 (by decide))
    ⟨_, List.mem_cons_self, by decide⟩ ⟨_, List.mem_cons_of_mem _ List.mem_cons_self, by decide⟩
  rcases List.mem_cons.mp hnow with hnow | hnow
  · rw [hnow] at hfire
    exact absurd hfire (by decide)
  · rw [List.mem_singleton.mp hnow] at hfire
    exact absurd hfire (by decide)

end Pkzz.Workflow
