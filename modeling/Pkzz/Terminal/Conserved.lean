import Pkzz.Terminal.Ledger

/-!
# Charged, buffered, handed over

With the second fence off, a slice conserves the sum of charged and buffered bytes exactly when it
does not both show the parser bytes and leave more in the update buffer than it found there. So
`charged_bytes` is exact over a run as long as every slice is of that kind. Whether it is or not,
every accepted byte is handed over once, in order, waits in the tail, or was discarded with it.
-/

namespace Pkzz.Terminal

open Pkzz.Lib

variable {π σ τ : Type} {p : Processor π τ} {h : Handler π σ}

/-- What is known of the update buffer: it is empty at first and after a stop, and it holds only
bytes the parser was given. -/
structure SyncLaw (p : Processor π τ) : Prop where
  new : p.syncBytesCount p.new = 0
  stop : ∀ t, p.syncBytesCount (p.stopSync t).1 = 0
  advance_le : ∀ t bytes, p.syncBytesCount (p.advance t bytes).1 ≤ p.syncBytesCount t + bytes.length

/-! ## One slice -/

/-- The three-way split is exact but for a buffer that grew by less than the slice. -/
theorem visible_exact_iff {before after len : Nat} (hle : after ≤ before + len) :
    Feeder.visible before after len + after = before + len ↔
      (before < after → after = before + len) := by
  unfold Feeder.visible
  split
  · omega
  · split
    · omega
    · omega

namespace Feeder

variable {f : Feeder τ} {handler : σ} {spent : Nat} {stats : FenceStats} {bytes : List UInt8}

theorem fences_syncFence : (f.syncFence p h handler spent).1.fences = f.fences := by
  unfold syncFence
  split <;> rfl

theorem oscBudget_syncFence :
    (f.syncFence p h handler spent).1.fences.oscBudget = f.fences.oscBudget :=
  congrArg Fences.oscBudget fences_syncFence

theorem oscFence_of_off (hosc : f.fences.oscBudget = false) : f.oscFence p = f := by
  unfold oscFence
  rw [hosc]
  exact if_neg fun hfence => Bool.false_ne_true hfence.1

theorem oscFenceStats_of_off (hosc : f.fences.oscBudget = false) :
    f.oscFenceStats stats = stats := by
  unfold oscFenceStats
  rw [hosc]
  exact if_neg fun hfence => Bool.false_ne_true hfence.1

/-- The first fence charges what it releases. -/
theorem chargedBytes_syncFence (law : SyncLaw p) :
    (f.syncFenceStats p h handler stats).chargedBytes + p.syncBytesCount
    (f.syncFence p h handler spent).1.parser =
      stats.chargedBytes + p.syncBytesCount f.parser := by
  unfold syncFenceStats syncFence
  split
  · have hstop : p.syncBytesCount (charge { f with parser := (p.stopSync f.parser).1 }
        (p.syncBytesCount f.parser)).parser = 0 := law.stop f.parser
    dsimp only
    rw [hstop, FenceStats.chargedBytes_charge, FenceStats.chargedBytes_noteRelease]
    rfl
  · rfl

theorem abandonedBytes_syncFenceStats :
    (f.syncFenceStats p h handler stats).abandonedBytes = stats.abandonedBytes := by
  unfold syncFenceStats
  split
  · simp
  · rfl

/-- The two fences move bytes from the buffer to the charge, if the second one is off. -/
theorem chargedBytes_fences (law : SyncLaw p) (hosc : f.fences.oscBudget = false) :
    ((f.syncFence p h handler spent).1.oscFenceStats
      (f.syncFenceStats p h handler stats)).chargedBytes +
        p.syncBytesCount ((f.syncFence p h handler spent).1.oscFence p).parser =
      stats.chargedBytes + p.syncBytesCount f.parser := by
  rw [oscFence_of_off (oscBudget_syncFence.trans hosc),
    oscFenceStats_of_off (oscBudget_syncFence.trans hosc), chargedBytes_syncFence law]

theorem fences_fences (hosc : f.fences.oscBudget = false) :
    ((f.syncFence p h handler spent).1.oscFence p).fences = f.fences := by
  rw [oscFence_of_off (oscBudget_syncFence.trans hosc), fences_syncFence]

/-- A slice is charged what the split says is visible; the rest is in the buffer. -/
theorem chargedBytes_advanceSlice (law : SyncLaw p) (hosc : f.fences.oscBudget = false) :
    (f.advanceSliceStats p h handler bytes stats).chargedBytes +
        p.syncBytesCount (f.advanceSlice p h handler bytes).1.parser =
      stats.chargedBytes +
        (visible (p.syncBytesCount f.parser) (p.syncBytesCount (p.advance f.parser bytes).1)
        bytes.length + p.syncBytesCount (p.advance f.parser bytes).1) := by
  refine Eq.trans (chargedBytes_fences law hosc) ?_
  rw [FenceStats.chargedBytes_charge, Nat.add_assoc]
  congr 1
  split
  · rw [FenceStats.chargedBytes_noteRelease, FenceStats.chargedBytes_complete]
  · rfl

theorem fences_advanceSlice (hosc : f.fences.oscBudget = false) :
    (f.advanceSlice p h handler bytes).1.fences = f.fences :=
  fences_fences (f := charge { f with parser := (p.advance f.parser bytes).1 } _) hosc

theorem abandonedBytes_advanceSliceStats :
    (f.advanceSliceStats p h handler bytes stats).abandonedBytes = stats.abandonedBytes := by
  unfold advanceSliceStats oscFenceStats
  dsimp only
  have hcharged : ∀ (g : Feeder τ) (handler : σ) (stats' : FenceStats),
      stats'.abandonedBytes = stats.abandonedBytes →
        (g.syncFenceStats p h handler stats').abandonedBytes = stats.abandonedBytes := by
    intro g handler stats' hsame
    rw [abandonedBytes_syncFenceStats, hsame]
  split <;> refine hcharged _ _ _ ?_ <;> split <;> simp

end Feeder

namespace Ledger

variable {s s' t : Ledger σ τ} {op : LedgerOp} {ops : List LedgerOp} {spent : Nat}

/-! ## One step -/

/-- What a slice does to the accounts. -/
theorem advance_accounts (law : SyncLaw p) (hosc : s.feeder.fences.oscBudget = false) :
    (s.advance p h spent).stats.chargedBytes + p.syncBytesCount
    (s.advance p h spent).feeder.parser =
      s.stats.chargedBytes + (Feeder.visible (p.syncBytesCount s.feeder.parser)
        (p.syncBytesCount (p.advance s.feeder.parser (s.feeder.slice spent)).1)
          (s.feeder.slice spent).length +
          p.syncBytesCount (p.advance s.feeder.parser (s.feeder.slice spent)).1) :=
  Feeder.chargedBytes_advanceSlice (f :=
    { s.feeder with pending := s.feeder.pending.drop (s.feeder.width spent) }) law hosc

theorem parsed_advance : (s.advance p h spent).parsed = s.parsed ++ s.feeder.slice spent := by
  unfold parsed advance
  dsimp only
  have hall : ((s.feeder.slice spent).map fun b => (b, true)).filter Prod.snd =
      (s.feeder.slice spent).map fun b => (b, true) := by
    refine List.filter_eq_self.mpr ?_
    intro e he
    obtain ⟨b, _, rfl⟩ := List.mem_map.mp he
    rfl
  rw [List.filter_append, List.map_append, hall, List.map_map]
  congr 1
  exact List.map_id _

/-- A slice conserves exactly when it is not counted short. -/
theorem conserved_advance_iff (law : SyncLaw p) (hosc : s.feeder.fences.oscBudget = false)
    (hs : s.Conserved p) :
    (s.advance p h spent).Conserved p ↔ GrowsWhole p s.feeder.parser (s.feeder.slice spent) := by
  have hexact := visible_exact_iff (law.advance_le s.feeder.parser (s.feeder.slice spent))
  unfold Conserved at hs ⊢
  unfold GrowsWhole
  rw [advance_accounts law hosc, parsed_advance, List.length_append, ← hexact]
  omega

theorem conserved_endDrain : s.endDrain.Conserved p ↔ s.Conserved p := Iff.rfl

theorem conserved_turn_iff (law : SyncLaw p) (hosc : s.feeder.fences.oscBudget = false)
    (hs : s.Conserved p) : (s.turn p h spent).Conserved p ↔
      (s.feeder.pending ≠ [] → GrowsWhole p s.feeder.parser (s.feeder.slice spent)) := by
  by_cases hempty : s.feeder.pending = []
  · rw [turn_of_empty hempty, conserved_endDrain]
    exact iff_of_true hs fun hne => absurd hempty hne
  rw [turn_of_pending hempty]
  have hadvance : (s.advance p h spent).Conserved p ↔
      (s.feeder.pending ≠ [] → GrowsWhole p s.feeder.parser (s.feeder.slice spent)) := by
    rw [conserved_advance_iff law hosc hs]
    exact ⟨fun hg _ => hg, fun hg => hg hempty⟩
  split
  · rw [conserved_endDrain]
    exact hadvance
  · exact hadvance

/-- A byte that is discarded is not handed over. -/
theorem parsed_discard (settled : List (UInt8 × Bool)) (bytes : List UInt8) :
    ((settled ++ bytes.map fun b => (b, false)).filter Prod.snd).map Prod.fst =
      (settled.filter Prod.snd).map Prod.fst := by
  have hnone : (bytes.map fun b => (b, false)).filter Prod.snd = [] := by
    refine List.filter_eq_nil_iff.mpr ?_
    intro e he
    obtain ⟨b, _, rfl⟩ := List.mem_map.mp he
    exact Bool.false_ne_true
  rw [List.filter_append, hnone, List.append_nil]

/-- **One step.** The accounts stay exact exactly when the slice of the step, if it has one, is not
counted short. -/
theorem conserved_step_iff (law : SyncLaw p) (hosc : s.feeder.fences.oscBudget = false)
    (hs : s.Conserved p)
    (hstep : (machine p h).step s op = some s') : s'.Conserved p ↔ s.StepGrowsWhole p op := by
  change s.step p h op = some s' at hstep
  unfold step at hstep
  split at hstep
  · cases hstep
    exact iff_of_true hs trivial
  · cases hstep
    exact iff_of_true hs trivial
  · rename_i spent hdraining
    cases hstep
    unfold StepGrowsWhole
    rw [hdraining]
    exact conserved_turn_iff law hosc hs
  · cases hstep
    exact iff_of_true hs trivial
  · cases hstep
    refine iff_of_true ?_ trivial
    unfold Conserved parsed at hs ⊢
    dsimp only
    rw [parsed_discard]
    exact hs
  · cases hstep

theorem fences_step (hosc : s.feeder.fences.oscBudget = false)
    (hstep : (machine p h).step s op = some s') : s'.feeder.fences.oscBudget = false := by
  change s.step p h op = some s' at hstep
  unfold step at hstep
  split at hstep
  · cases hstep
    exact hosc
  · cases hstep
    exact hosc
  · rename_i spent _
    cases hstep
    have hadvance : (s.advance p h spent).feeder.fences.oscBudget = false := by
      refine (congrArg Fences.oscBudget ?_).trans hosc
      exact Feeder.fences_advanceSlice
        (f := { s.feeder with pending := s.feeder.pending.drop (s.feeder.width spent) }) hosc
    by_cases hempty : s.feeder.pending = []
    · rw [turn_of_empty hempty]
      exact hosc
    rw [turn_of_pending hempty]
    split
    · exact hadvance
    · exact hadvance
  · cases hstep
    exact hosc
  · cases hstep
    exact hosc
  · cases hstep

/-! ## What became of every byte -/

/-- The bytes a step accepts. -/
def fed : LedgerOp → List UInt8
  | .feed bytes => bytes
  | _ => []

/-- How many accepted bytes were discarded. -/
def discarded (s : Ledger σ τ) : Nat := s.settled.countP fun e => !e.2

theorem accepted_advance : (s.advance p h spent).accepted = s.accepted := by
  have hpending : (s.advance p h spent).feeder.pending =
      s.feeder.pending.drop (s.feeder.width spent) :=
    Feeder.pending_turn
  unfold accepted
  rw [hpending]
  unfold advance Feeder.slice
  dsimp only
  rw [List.map_append, List.map_map, List.append_assoc]
  congr 1
  refine Eq.trans ?_ (List.take_append_drop (s.feeder.width spent) s.feeder.pending)
  congr 1
  exact List.map_id _

theorem discarded_advance : (s.advance p h spent).discarded = s.discarded := by
  unfold discarded advance
  dsimp only
  rw [List.countP_append, List.countP_map, Nat.add_eq_left, List.countP_eq_zero]
  intro b _
  exact Bool.false_ne_true

/-- Every step accepts what it is fed, and counts what it discards. -/
theorem accounted_step (hstep : (machine p h).step s op = some s') :
    s'.accepted = s.accepted ++ fed op ∧
      s'.stats.abandonedBytes + s.discarded = s.stats.abandonedBytes + s'.discarded := by
  change s.step p h op = some s' at hstep
  unfold step at hstep
  split at hstep
  · cases hstep
    exact ⟨(List.append_assoc _ _ _).symm, rfl⟩
  · cases hstep
    exact ⟨(List.append_nil _).symm, rfl⟩
  · rename_i spent _
    cases hstep
    have hadvance : (s.advance p h spent).accepted = s.accepted ++ fed .turn ∧
        (s.advance p h spent).stats.abandonedBytes + s.discarded =
          s.stats.abandonedBytes + (s.advance p h spent).discarded := by
      rw [accepted_advance, discarded_advance]
      refine ⟨(List.append_nil _).symm, congrArg (· + s.discarded) ?_⟩
      exact Feeder.abandonedBytes_advanceSliceStats
    by_cases hempty : s.feeder.pending = []
    · rw [turn_of_empty hempty]
      exact ⟨(List.append_nil _).symm, rfl⟩
    rw [turn_of_pending hempty]
    split
    · exact hadvance
    · exact hadvance
  · cases hstep
    exact ⟨(List.append_nil _).symm, rfl⟩
  · cases hstep
    constructor
    · unfold accepted Feeder.abandonTail fed
      dsimp only
      rw [List.map_append, List.map_map, List.append_nil, List.append_nil]
      congr 1
      exact List.map_id _
    · unfold discarded
      dsimp only
      have hall : (s.feeder.pending.map fun b => (b, false)).countP (fun e => !e.2) =
          s.feeder.pending.length := by
        rw [List.countP_map]
        exact List.countP_eq_length.mpr fun _ _ => rfl
      rw [List.countP_append, hall]
      omega
  · cases hstep

/-- The accepted bytes are those handed over, those discarded and those that wait. -/
theorem length_accepted (s : Ledger σ τ) :
    s.accepted.length = s.parsed.length + s.feeder.pending.length + s.discarded := by
  have hsplit := List.length_eq_countP_add_countP (l := s.settled) Prod.snd
  have hparsed : s.parsed.length = s.settled.countP Prod.snd := by
    unfold parsed
    rw [List.length_map, List.countP_eq_length_filter]
  have hdiscarded : s.discarded = s.settled.countP fun e => decide (¬ e.2 = true) := by
    unfold discarded
    congr 1
    funext e
    simp
  unfold accepted
  rw [List.length_append, List.length_map, hparsed, hdiscarded]
  omega

/-- Nothing is handed over out of order or twice. -/
theorem parsed_sublist (s : Ledger σ τ) : s.parsed.Sublist s.accepted :=
  (List.Sublist.map _ List.filter_sublist).trans (List.sublist_append_left _ _)

/-- Where nothing was discarded, nothing was lost either. -/
theorem accepted_of_no_discard (hnone : s.discarded = 0) :
    s.accepted = s.parsed ++ s.feeder.pending := by
  unfold accepted parsed
  rw [List.filter_eq_self.mpr]
  intro e he
  have hkept := List.countP_eq_zero.mp hnone e he
  simpa using hkept

theorem accounted_run (hrun : (machine p h).run s ops = some t) :
    t.accepted = s.accepted ++ ops.flatMap fed ∧
      t.stats.abandonedBytes + s.discarded = s.stats.abandonedBytes + t.discarded := by
  induction ops generalizing s with
  | nil =>
    cases hrun
    exact ⟨(List.append_nil _).symm, rfl⟩
  | cons op ops ih =>
    obtain ⟨u, hstep, hrest⟩ := Machine.run_cons.mp hrun
    obtain ⟨haccepted, habandoned⟩ := accounted_step hstep
    obtain ⟨haccepted', habandoned'⟩ := ih hrest
    rw [haccepted', haccepted, List.append_assoc, List.flatMap_cons]
    exact ⟨rfl, by omega⟩

/-- **Fence accounting.** With the second fence off, the charged and the buffered bytes are the
bytes handed to the parser in every state of a run exactly when no slice of it both shows bytes and
leaves more in the update buffer than it found there; and in every run the accepted bytes are those
handed over, in order, those that wait and those discarded, however they were chunked. -/
theorem fence_accounting (law : SyncLaw p) (fences : Fences) (hosc : fences.oscBudget = false)
    (columns lines scrollback : Nat) (handler : σ)
    (hrun : (machine p h).run (start p fences columns lines scrollback handler) ops = some t) :
    ((machine p h).Always (StepGrowsWhole p) (start p fences columns lines scrollback handler) ops ↔
      ∀ n u, (machine p h).run (start p fences columns lines scrollback handler) (ops.take n) =
        some u → u.Conserved p) ∧
    t.accepted = ops.flatMap fed ∧ t.parsed.Sublist t.accepted ∧
    t.accepted.length = t.parsed.length + t.feeder.pending.length + t.stats.abandonedBytes ∧
    (t.stats.abandonedBytes = 0 → t.accepted = t.parsed ++ t.feeder.pending) := by
  obtain ⟨haccepted, habandoned⟩ := accounted_run hrun
  have hdiscarded : t.stats.abandonedBytes = t.discarded := by
    have hzero : (start p fences columns lines scrollback handler).discarded = 0 := rfl
    have hnone : (start p fences columns lines scrollback handler).stats.abandonedBytes = 0 := rfl
    omega
  refine ⟨?_, haccepted, parsed_sublist t, ?_, ?_⟩
  · refine Machine.always_iff (J := fun s => s.feeder.fences.oscBudget = false) ?_ ?_ hosc ?_ hrun
    · intro s op s' hs hstep
      exact fences_step hs hstep
    · intro s op s' hs hconserved hstep
      exact conserved_step_iff law hs hconserved hstep
    · exact (Nat.zero_add _).trans law.new
  · rw [length_accepted, hdiscarded]
  · intro hnone
    exact accepted_of_no_discard (hdiscarded.symm.trans hnone)

end Ledger

/-! ## The small parser -/

theorem syncBytesCount_step (s : SmallParser) (b : UInt8) :
    SmallParser.processor.syncBytesCount (s.step b).1 ≤
      SmallParser.processor.syncBytesCount s + 1 := by
  obtain ⟨mode, buffer⟩ := s
  cases buffer with
  | none =>
    change ((if mode = .control syncMode ∧ b = 0x68 then some [] else none).getD []).length ≤ 0 + 1
    split <;> simp
  | some buffer =>
    unfold SmallParser.step
    dsimp only
    split
    · exact Nat.zero_le _
    · exact Nat.le_of_eq List.length_append

/-- The small parser holds back only what it was given. -/
theorem syncLaw_small : SyncLaw SmallParser.processor where
  new := rfl
  stop := by
    intro s
    obtain ⟨mode, buffer⟩ := s
    cases buffer with
    | none => rfl
    | some buffer => rfl
  advance_le := by
    intro s bytes
    induction bytes generalizing s with
    | nil => exact Nat.le_refl _
    | cons b bytes ih =>
      have hfirst := syncBytesCount_step s b
      have hrest := ih (s.step b).1
      have hadvance : (SmallParser.processor.advance s (b :: bytes)).1 =
          (SmallParser.processor.advance (s.step b).1 bytes).1 := rfl
      rw [hadvance, List.length_cons]
      omega

namespace Ledger

/-- The small parser on a grid without scrollback. -/
def smallStart (fences : Fences) : Ledger Unit SmallParser :=
  start SmallParser.processor fences 80 24 0 ()

/-- Bytes that are fed and drained in one slice. -/
def feedOnce (bytes : List UInt8) : List LedgerOp := [.feed bytes, .turn, .turn]

instance StepGrowsWhole.decidable {σ τ π : Type} (p : Processor π τ) (s : Ledger σ τ)
    (op : LedgerOp) : Decidable (s.StepGrowsWhole p op) :=
  decidable_of_iff (∀ spent ∈ s.draining, op = .turn → s.feeder.pending ≠ [] →
      p.syncBytesCount s.feeder.parser <
        p.syncBytesCount (p.advance s.feeder.parser (s.feeder.slice spent)).1 →
        p.syncBytesCount (p.advance s.feeder.parser (s.feeder.slice spent)).1 =
          p.syncBytesCount s.feeder.parser + (s.feeder.slice spent).length) (by
    constructor
    · intro h
      unfold StepGrowsWhole
      split
      · rename_i spent hdraining
        exact h spent hdraining rfl
      · trivial
    · intro h spent hdraining hop
      rw [hop] at h
      unfold StepGrowsWhole at h
      rw [show s.draining = some spent from hdraining] at h
      exact h)

/-- An update of two characters, in three feeds. -/
def oneUpdate : List LedgerOp := feedOnce beginUpdate ++ feedOnce [0x61, 0x62] ++ feedOnce endUpdate

/-- The bytes of an update are charged when it is released. -/
theorem fence_accounting_characters :
    ∃ t, (machine SmallParser.processor SmallParser.handler).run (smallStart ⟨true,
      false⟩) oneUpdate = some t ∧
      t.Conserved SmallParser.processor ∧ t.stats.chargedBytes = 18 := by
  obtain ⟨t, hrun, hcharged⟩ :
      ∃ t, (machine SmallParser.processor SmallParser.handler).run (smallStart ⟨true, false⟩)
      oneUpdate = some t ∧ t.stats.chargedBytes = 18 := ⟨_, rfl, rfl⟩
  have hall := fence_accounting (h := SmallParser.handler) syncLaw_small ⟨true,
      false⟩ rfl 80 24 0 () hrun
  have hgrows : (machine SmallParser.processor SmallParser.handler).Always
      (StepGrowsWhole SmallParser.processor) (smallStart ⟨true, false⟩) oneUpdate := by decide
  exact ⟨t, hrun, hall.1.mp hgrows 9 t hrun, hcharged⟩

/-- A slice in which an update begins is charged nothing, though the sequence that begins it was
seen: nine bytes are handed over, one is buffered. -/
theorem not_fence_accounting :
    ¬ ∀ ops t, (machine SmallParser.processor SmallParser.handler).run (smallStart ⟨false,
      false⟩) ops = some t → t.Conserved SmallParser.processor := by
  intro hall
  have hconserved := hall (feedOnce (beginUpdate ++ [0x78])) _ rfl
  exact absurd hconserved (by unfold Conserved; decide)

end Ledger

end Pkzz.Terminal
