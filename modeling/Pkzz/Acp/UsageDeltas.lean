import Pkzz.Acp.Usage

/-!
# Usage deltas telescope

What the tracker publishes for a session adds up to what its counters grew by, as long as no
notification arrives late: between two turns of its session, while no turn at all is in flight,
with news. Such a notification moves the baseline past tokens that no record has counted.
Repeated notifications, those of other sessions' turns and those of abandoned turns do no harm.
-/

namespace Pkzz.Acp

open Pkzz.Lib

namespace UsageRun

variable {r r' : UsageRun} {k : String} {published : List TurnUsage} {u v : TurnUsage}

theorem ofSession_append (k : String) (l : List TurnUsage) (u : TurnUsage) :
    ofSession k (l ++ [u]) = if u.sessionId = k then ofSession k l ++ [u] else ofSession k l := by
  unfold ofSession
  rw [List.filter_append, List.filter_singleton]
  by_cases h : u.sessionId = k
  · simp [h]
  · simp [h]

/-! ## What one session's records add up to -/

theorem total_append (f : TurnUsage → Option Nat) (l : List TurnUsage) (u : TurnUsage) :
    total f (l ++ [u]) = total f l + (f u).getD 0 := by
  simp [total]

/-- The sums follow from the differences, one record after the other. -/
theorem sums_of_follows (h : Justified Follows published) (k : String) {first last : TurnUsage}
    {rest : List TurnUsage}
    (hof : ofSession k published = first :: rest) (hlast : (first :: rest).getLast? = some last) :
    first.cumulativeInputTokens + total TurnUsage.turnInputTokens rest = last.cumulativeInputTokens
      ∧ first.cumulativeOutputTokens + total TurnUsage.turnOutputTokens rest =
        last.cumulativeOutputTokens := by
  induction published using List.reverseRecOn generalizing rest last with
  | nil => cases hof
  | append_singleton l u ih =>
    have hl : Justified Follows l := h.left
    rw [ofSession_append] at hof
    by_cases hk : u.sessionId = k
    · rw [if_pos hk] at hof
      have hu : Follows l u := h l u [] rfl
      rw [Follows, hk] at hu
      cases hol : ofSession k l with
      | nil =>
        rw [hol, List.nil_append] at hof
        obtain ⟨rfl, rfl⟩ := List.cons.inj hof
        cases hlast
        simp [total]
      | cons first' rest' =>
        rw [hol, List.cons_append] at hof
        obtain ⟨rfl, rfl⟩ := List.cons.inj hof
        obtain ⟨last', hlast'⟩ : ∃ last', (first' :: rest').getLast? = some last' :=
          ⟨_, List.getLast?_eq_some_getLast (List.cons_ne_nil first' rest')⟩
        obtain ⟨hin, hout⟩ := ih hl hol hlast'
        rw [hol] at hu
        have hm := hu.2 last' hlast'
        rw [← List.cons_append, List.getLast?_concat] at hlast
        cases hlast
        rw [total_append, total_append, hm.input, hm.output, Option.getD_some, Option.getD_some]
        have hile := hm.input_le
        have hole := hm.output_le
        omega
    · rw [if_neg hk] at hof
      exact ih hl hof hlast

/-! ## The invariant -/

/-- The baseline of a session is its last published record, and nothing that was never reported. -/
structure Baseline (r : UsageRun) (k : String) (b : SessionState) : Prop where
  seq : b.publishedSeq = (ofSession k r.published).length
  published : ∀ u ∈ (ofSession k r.published).getLast?,
    b.lastInput = u.cumulativeInputTokens ∧ b.lastOutput = u.cumulativeOutputTokens
  cost : b.lastCost = none
  heard : ∃ q, (k, q) ∈ r.heard ∧ b.lastInput = q.accumulatedInputTokens ∧
    b.lastOutput = q.accumulatedOutputTokens

/-- The record that waits for the end of its turn. -/
structure Waiting (r : UsageRun) (u : TurnUsage) : Prop where
  inFlight : r.tracker.inFlightSession = some u.sessionId
  follows : Follows r.published u
  cost : u.cumulativeCostUsd = none
  heard : ∃ q, (u.sessionId, q) ∈ r.heard ∧ u.cumulativeInputTokens = q.accumulatedInputTokens
    ∧ u.cumulativeOutputTokens = q.accumulatedOutputTokens

structure Inv (r : UsageRun) : Prop where
  baseline : ∀ k b, Finmap.lookup k r.tracker.sessions = some b → Baseline r k b
  unseen : ∀ k, Finmap.lookup k r.tracker.sessions = none → ofSession k r.published = []
  waiting : ∀ u ∈ r.tracker.pending, Waiting r u
  follows : Justified Follows r.published

theorem inv_init : Inv init where
  baseline := by
    intro k b h
    cases h
  unseen := by
    intro k _
    rfl
  waiting := by
    intro u h
    cases h
  follows := justified_nil

theorem Baseline.heard_mono {b : SessionState} (h : Baseline r k b)
    (hp : r'.published = r.published) (hh : ∀ x ∈ r.heard, x ∈ r'.heard) : Baseline r' k b where
  seq := by rw [hp]; exact h.seq
  published := by rw [hp]; exact h.published
  cost := h.cost
  heard := by
    obtain ⟨q, hq, hin, hout⟩ := h.heard
    exact ⟨q, hh _ hq, hin, hout⟩

/-- **A share is measured from the last published record**, since the baseline is. -/
theorem follows_turnUsage (h : Inv r) {payload : UsageUpdatePayload}
    (hnd : NonDecreasing r (.record k payload)) :
    Follows r.published (UsageTracker.turnUsage
      (Finmap.lookup k r.tracker.sessions) k payload) := by
  obtain ⟨hcost, hmono⟩ := hnd
  cases hb : Finmap.lookup k r.tracker.sessions with
  | none =>
    have hnil := h.unseen k hb
    refine ⟨?_, ?_⟩
    · show 1 = (ofSession k r.published).length + 1
      rw [hnil]
      rfl
    · show ∀ v ∈ (ofSession k r.published).getLast?, _
      rw [hnil]
      intro v hv
      cases hv
  | some b =>
    have hbase := h.baseline k b hb
    obtain ⟨q, hq, hqin, hqout⟩ := hbase.heard
    obtain ⟨hin, hout⟩ := hmono q hq
    have hdelta : UsageTracker.delta (some b) payload
        = ⟨true, some (payload.accumulatedInputTokens - b.lastInput),
            some (payload.accumulatedOutputTokens - b.lastOutput), none, b.publishedSeq + 1⟩ := by
      unfold UsageTracker.delta
      dsimp only
      rw [if_neg (by omega), hcost]
      rfl
    unfold UsageTracker.turnUsage
    rw [hdelta]
    refine ⟨?_, ?_⟩
    · show b.publishedSeq + 1 = (ofSession k r.published).length + 1
      rw [hbase.seq]
    · intro v hv
      obtain ⟨hvin, hvout⟩ := hbase.published v hv
      exact
        { reliable := rfl
          input := by rw [← hvin]
          output := by rw [← hvout]
          input_le := by
            show v.cumulativeInputTokens ≤ payload.accumulatedInputTokens
            omega
          output_le := by
            show v.cumulativeOutputTokens ≤ payload.accumulatedOutputTokens
            omega }

/-! ## One call -/

theorem inv_beginTurn (h : Inv r) (k : String) :
    Inv { r with tracker := r.tracker.beginTurn k } where
  baseline := by
    intro k' b hb
    exact (h.baseline k' b hb).heard_mono rfl fun _ hx => hx
  unseen := h.unseen
  waiting := by
    intro u hu
    cases hu
  follows := h.follows

theorem inv_record (h : Inv r) {payload : UsageUpdatePayload}
    (hnd : NonDecreasing r (.record k payload)) (hlate : NoneLate r (.record k payload)) :
    Inv { r with tracker := r.tracker.record k payload, heard := r.heard ++ [(k, payload)] } := by
  have hmono : ∀ x ∈ r.heard, x ∈ r.heard ++ [(k, payload)] := fun x hx => List.mem_append_left _ hx
  have hnew : (k, payload) ∈ r.heard ++ [(k, payload)] := by simp
  by_cases hfl : r.tracker.inFlightSession = some k
  · -- only the waiting record changes
    have hrec : r.tracker.record k payload
        = { r.tracker with
          pending := some
            (UsageTracker.turnUsage (Finmap.lookup k r.tracker.sessions) k payload) } := by
      unfold UsageTracker.record
      dsimp only
      rw [if_pos hfl]
    rw [hrec]
    refine ⟨?_, h.unseen, ?_, h.follows⟩
    · intro k' b hb
      exact (h.baseline k' b hb).heard_mono rfl hmono
    · intro u hu
      cases hu
      exact ⟨hfl, follows_turnUsage h hnd, hnd.1, payload, hnew, rfl, rfl⟩
  · by_cases hnone : r.tracker.inFlightSession = none
    · -- the baseline moves; it may, if it says what the last record says
      have hrec : r.tracker.record k payload
          = { r.tracker with
                sessions := Finmap.insert k
                  (UsageTracker.setupState (Finmap.lookup k r.tracker.sessions) payload)
                    r.tracker.sessions } := by
        unfold UsageTracker.record
        dsimp only
        rw [if_neg hfl, if_pos hnone]
      rw [hrec]
      refine ⟨?_, ?_, ?_, h.follows⟩
      · intro k' b hb
        dsimp only at hb
        rw [Map.lookup_insert_eq] at hb
        by_cases hk : k' = k
        · subst hk
          rw [if_pos rfl] at hb
          cases hb
          refine ⟨?_, ?_, hnd.1, payload, hnew, rfl, rfl⟩
          · show ((Finmap.lookup k' r.tracker.sessions).map SessionState.publishedSeq).getD 0 = _
            cases hb' : Finmap.lookup k' r.tracker.sessions with
            | none =>
              rw [h.unseen k' hb']
              rfl
            | some b' => exact (h.baseline k' b' hb').seq
          · exact hlate hnone
        · rw [if_neg hk] at hb
          exact (h.baseline k' b hb).heard_mono rfl hmono
      · intro k' hk'
        dsimp only at hk'
        rw [Map.lookup_insert_eq] at hk'
        by_cases hk : k' = k
        · rw [if_pos hk] at hk'
          cases hk'
        · rw [if_neg hk] at hk'
          exact h.unseen k' hk'
      · intro u hu
        have hw := (h.waiting u hu).inFlight
        rw [hnone] at hw
        cases hw
    · -- another session is in flight: the record is dropped
      have hrec : r.tracker.record k payload = r.tracker := by
        unfold UsageTracker.record
        dsimp only
        rw [if_neg hfl, if_neg hnone]
      rw [hrec]
      refine ⟨?_, h.unseen, ?_, h.follows⟩
      · intro k' b hb
        exact (h.baseline k' b hb).heard_mono rfl hmono
      · intro u hu
        obtain ⟨q, hq, hin, hout⟩ := (h.waiting u hu).heard
        exact ⟨(h.waiting u hu).inFlight, (h.waiting u hu).follows, (h.waiting u hu).cost, q,
          hmono _ hq, hin, hout⟩

/-- The session that publishes gets the record as its baseline; the others see no difference. -/
theorem inv_publish (h : Inv r) (hu : r.tracker.pending = some u) :
    Inv { r with
      tracker := ⟨Finmap.insert u.sessionId (UsageTracker.publishedState u) r.tracker.sessions,
        none, none⟩
      published := r.published ++ [u] } := by
  have hw := h.waiting u hu
  refine ⟨?_, ?_, ?_, justified_append h.follows hw.follows⟩
  · intro k b hb
    dsimp only at hb
    rw [Map.lookup_insert_eq] at hb
    by_cases hk : k = u.sessionId
    · subst hk
      rw [if_pos rfl] at hb
      cases hb
      have hof : ofSession u.sessionId (r.published ++ [u]) =
          ofSession u.sessionId r.published ++ [u] := by
        rw [ofSession_append, if_pos rfl]
      refine ⟨?_, ?_, hw.cost, hw.heard⟩
      · show u.turnSeq = _
        rw [hof, List.length_append, hw.follows.1]
        rfl
      · rw [hof, List.getLast?_concat]
        intro v hv
        cases hv
        exact ⟨rfl, rfl⟩
    · rw [if_neg hk] at hb
      have hbase := h.baseline k b hb
      have hof : ofSession k (r.published ++ [u]) = ofSession k r.published := by
        rw [ofSession_append, if_neg (Ne.symm hk)]
      exact ⟨by rw [hof]; exact hbase.seq, by rw [hof]; exact hbase.published,
    hbase.cost, hbase.heard⟩
  · intro k hk
    dsimp only at hk
    rw [Map.lookup_insert_eq] at hk
    by_cases hku : k = u.sessionId
    · rw [if_pos hku] at hk
      cases hk
    · rw [if_neg hku] at hk
      rw [ofSession_append, if_neg (Ne.symm hku)]
      exact h.unseen k hk
  · intro v hv
    cases hv

theorem inv_take (h : Inv r) : Inv { r with
    tracker := r.tracker.take.1, published := r.published ++ r.tracker.take.2.toList } := by
  cases hp : r.tracker.pending with
  | none =>
    have htake : r.tracker.take = ({ r.tracker with inFlightSession := none }, none) := by
      simp only [UsageTracker.take, hp]
    rw [htake]
    refine ⟨?_, ?_, ?_, ?_⟩
    · intro k b hb
      exact (h.baseline k b hb).heard_mono (List.append_nil _) fun _ hx => hx
    · intro k hk
      show ofSession k (r.published ++ []) = []
      rw [List.append_nil]
      exact h.unseen k hk
    · intro u hu
      have hu : r.tracker.pending = some u := hu
      rw [hp] at hu
      cases hu
    · show Justified Follows (r.published ++ [])
      rw [List.append_nil]
      exact h.follows
  | some u =>
    have htake : r.tracker.take
        = (⟨Finmap.insert u.sessionId (UsageTracker.publishedState u) r.tracker.sessions, none,
          none⟩, some u) := by
      simp only [UsageTracker.take, hp]
    rw [htake]
    exact inv_publish h hp

/-- **Each call keeps the invariant**, if it is not a late notification. -/
theorem inv_step (r : UsageRun) (c : UsageCall) (r' : UsageRun) (h : Inv r)
    (hc : NonDecreasing r c ∧ NoneLate r c) (hstep : step r c = some r') : Inv r' := by
  cases c with
  | beginTurn k =>
    cases hstep
    exact inv_beginTurn h k
  | record k payload =>
    cases hstep
    exact inv_record h hc.1 hc.2
  | take =>
    cases hstep
    exact inv_take h

/-! ## Runs -/

/-- **What is published adds up**, in every run without late notifications. -/
theorem telescopes_of_noneLate {calls : List UsageCall}
    (hcalls : machine.Always NonDecreasing init calls)
    (hlate : machine.Always NoneLate init calls) (h : machine.run init calls = some r) :
    Telescopes r.published := by
  have hinv : Inv r := Machine.invariant inv_step inv_init (hcalls.and hlate) h
  exact ⟨hinv.follows, fun k first rest last hof hlast => sums_of_follows hinv.follows k hof hlast⟩

/-- Counters as an agent reports them that knows neither costs nor caches. -/
def counters (input output : Nat) : UsageUpdatePayload := ⟨input, output, none, none, none, none⟩

/-- Two turns, with a notification during another session's turn and an abandoned turn between them.
-/
def twoTurns : List UsageCall :=
  [.beginTurn "a", .record "a" (counters 1000 100), .take, .beginTurn "b",
    .record "a" (counters 1200 120),
    .beginTurn "a", .record "a" (counters 1500 150), .beginTurn "a",
      .record "a" (counters 2000 250), .take]

/-- Two turns, with a notification after the end of the first. -/
def lateNotification : List UsageCall :=
  [.beginTurn "a", .record "a" (counters 1000 100), .take, .record "a" (counters 1500 150),
    .beginTurn "a", .record "a" (counters 2000 250), .take]

instance (r : UsageRun) : ∀ c, Decidable (NonDecreasing r c)
  | .beginTurn _ => isTrue trivial
  | .take => isTrue trivial
  | .record k payload =>
    decidable_of_iff (payload.accumulatedCost.isNone = true ∧ ∀ x ∈ r.heard, x.1 = k →
        x.2.accumulatedInputTokens ≤ payload.accumulatedInputTokens
          ∧ x.2.accumulatedOutputTokens ≤ payload.accumulatedOutputTokens)
      ⟨fun h => ⟨Option.isNone_iff_eq_none.mp h.1, fun q hq => h.2 (k, q) hq rfl⟩,
        fun h => ⟨Option.isNone_iff_eq_none.mpr h.1, by
          rintro ⟨k', q⟩ hx rfl
          exact h.2 q hx⟩⟩

instance (r : UsageRun) : ∀ c, Decidable (NoneLate r c)
  | .beginTurn _ => isTrue trivial
  | .take => isTrue trivial
  | .record k payload => inferInstanceAs (Decidable
      (r.tracker.inFlightSession = none → ∀ u ∈ (ofSession k r.published).getLast?,
        payload.accumulatedInputTokens = u.cumulativeInputTokens
          ∧ payload.accumulatedOutputTokens = u.cumulativeOutputTokens))

/-- Both turns of the run are published, and the deltas add up. -/
theorem telescopes_twoTurns :
    ∃ r, machine.run init twoTurns = some r ∧ r.published.length = 2 ∧ Telescopes r.published :=
  ⟨_, rfl, rfl, telescopes_of_noneLate (show machine.Always NonDecreasing init twoTurns by decide)
    (by decide) rfl⟩

/-- The second record counts 500 tokens of 1000. -/
theorem not_telescopes : ¬ ∀ calls r, machine.Always NonDecreasing init calls →
    machine.run init calls = some r → Telescopes r.published := by
  intro h
  have htel := h lateNotification _ (by decide) rfl
  have hsum := (htel.sums "a" _ _ _ rfl rfl).1
  revert hsum
  decide

end UsageRun

end Pkzz.Acp
