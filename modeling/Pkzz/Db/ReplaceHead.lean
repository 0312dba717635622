import Pkzz.Db.Replace

/-!
# The live row of a key is its head

Whatever order and however often calls arrive in, the one live row of a key is the submission
with the greatest `created_at` and, among equals, the lowest id. Rows of other keys are left
alone. A call whose row is more than the floor old when it commits fails in COMMIT, where the
guard of migration 0021 runs, and counts as no submission.

The argument never looks at how superseded rows are retired. Every row and every watermark was
submitted, so the head of its key is at least as good; a call that is not dominated by the head
is then dominated by no watermark either, and meets no row with its own key.
-/

namespace Pkzz.Db.Replace

open Pkzz.Core Pkzz.Lib
open Pkzz.Db.Thread (DateTime DbError asI64 byteaKey)

/-! ## Runs -/

/-- A call, and what `clock_timestamp()` reads in its COMMIT. -/
structure Timed where
  call : Call
  clock : Int
  deriving DecidableEq

namespace Timed

def key (c : Timed) : Key := c.call.key

/-- The row the call inserts, unless it is more than the floor old by then. -/
def row (c : Timed) : Option Row := c.call.row.filter (Row.guardPasses c.clock)

/-- The tables after a call; one that fails changes nothing. -/
def submit (t : Tables) (c : Timed) : Tables :=
  match c.call.commit t c.clock with
  | .ok (t', _) => t'
  | .error _ => t

/-- `was_inserted`. -/
def Inserted (t : Tables) (c : Timed) : Prop := ∃ t', c.call.commit t c.clock = .ok (t', true)

theorem row_eq_some {c : Timed} {row : Row} : c.row = some row ↔ c.call.row = some row ∧
    row.guardPasses c.clock = true :=
  Option.filter_eq_some_iff

end Timed

def submitAll (calls : List Timed) : Tables := calls.foldl Timed.submit Tables.empty

theorem submitAll_concat (calls : List Timed) (c : Timed) :
    submitAll (calls ++ [c]) = c.submit (submitAll calls) := by
  rw [submitAll, List.foldl_append]
  rfl

/-- What the callers see to: each kind is written by the function it belongs to, and an event, which
its id stands for, is submitted under one key. -/
structure Honest (calls : List Timed) : Prop where
  routed : ∀ c ∈ calls, c.call.Routed
  ids : ∀ c ∈ calls, ∀ c' ∈ calls, c.call.communityId = c'.call.communityId →
    c.call.event.id = c'.call.event.id → c.call.event = c'.call.event ∧ c.key = c'.key

theorem Honest.mono {calls calls' : List Timed} (h : Honest calls)
    (hsub : ∀ c ∈ calls', c ∈ calls) : Honest calls' := by
  refine ⟨?_, ?_⟩
  · intro c hc
    exact h.routed c (hsub c hc)
  · intro c hc c' hc'
    exact h.ids c (hsub c hc) c' (hsub c' hc')

/-! ## Keys -/

/-- A key of the function its kind belongs to. -/
def Key.Lawful : Key → Prop
  | addressable _ kind _ _ => isAddressableKind kind = true
  | parameterized _ kind _ _ => isAddressableKind kind = false

theorem Call.Routed.lawful {c : Call} (h : c.Routed) : c.key.Lawful := by
  cases c <;> exact h

/-- No row is of two keys. -/
theorem Key.eq_of_covers {k k' : Key} {row : Row} (hk : k.Lawful) (hk' : k'.Lawful)
    (h : k.covers row = true) (h' : k'.covers row = true) : k = k' := by
  cases k with
  | addressable communityId kind pubkey channelId =>
    cases k' with
    | addressable =>
      simp only [covers, Bool.and_eq_true, beq_iff_eq] at h h'
      obtain ⟨⟨⟨rfl, rfl⟩, rfl⟩, rfl⟩ := h
      obtain ⟨⟨⟨rfl, rfl⟩, rfl⟩, rfl⟩ := h'
      rfl
    | parameterized =>
      simp only [covers, Bool.and_eq_true, beq_iff_eq] at h h'
      have hkind : kind = _ := h.1.1.2.symm.trans h'.1.1.2
      exact absurd hk (Bool.eq_false_iff.mp (hkind ▸ hk'))
  | parameterized communityId kind pubkey dTag =>
    cases k' with
    | addressable =>
      simp only [covers, Bool.and_eq_true, beq_iff_eq] at h h'
      have hkind : kind = _ := h.1.1.2.symm.trans h'.1.1.2
      exact absurd hk' (Bool.eq_false_iff.mp (hkind ▸ hk))
    | parameterized =>
      simp only [covers, Bool.and_eq_true, beq_iff_eq] at h h'
      obtain ⟨⟨⟨rfl, rfl⟩, rfl⟩, hd⟩ := h
      obtain ⟨⟨⟨rfl, rfl⟩, rfl⟩, hd'⟩ := h'
      rw [hd] at hd'
      rw [Option.some.inj hd']

/-! ## The live rows after a call -/

theorem liveOf_retire (t : Tables) (c : Call) (k : Key) :
    (t.retire c).liveOf k = (t.liveOf k).filter fun row => !c.key.covers row := by
  rw [Tables.retire]
  split
  · exact Tables.liveOf_remove t k _
  · exact Tables.liveOf_softDelete t k _

theorem liveOf_retire_self (t : Tables) (c : Call) : (t.retire c).liveOf c.key = [] := by
  rw [liveOf_retire, List.filter_eq_nil_iff]
  intro row hrow
  simp [(Tables.mem_liveOf.mp hrow).2.1]

theorem liveOf_retire_ne {t : Tables} {c : Call} {k : Key} (hc : c.Routed) (hk : k.Lawful)
    (hne : k ≠ c.key) : (t.retire c).liveOf k = t.liveOf k := by
  rw [liveOf_retire, List.filter_eq_self]
  intro row hrow
  rw [Bool.not_eq_true', Bool.eq_false_iff]
  intro hcov
  exact hne (Key.eq_of_covers hk hc.lawful (Tables.mem_liveOf.mp hrow).2.1 hcov)

theorem liveOf_accept {t : Tables} {row : Row} {h : row.key ∉ t.events.map Row.key}
    (hlive : row.deleted = false) (k : Key) :
    (t.accept row h).liveOf k = t.liveOf k ++ if k.covers row then [row] else [] := by
  rw [Tables.liveOf, Tables.accept, List.filter_append, ← Tables.liveOf]
  congr 1
  rw [List.filter_cons, List.filter_nil, hlive, Bool.not_false, Bool.and_true]

/-- Every row was there before the call, perhaps without its deletion mark. -/
theorem mem_retire {t : Tables} {c : Call} {row : Row} (h : row ∈ (t.retire c).events) :
    ∃ old ∈ t.events, row = old ∨ row = old.markDeleted := by
  rw [Tables.retire] at h
  split at h
  · exact ⟨row, List.mem_of_mem_filter h, .inl rfl⟩
  obtain ⟨old, hold, hsoft⟩ := List.mem_filterMap.mp h
  refine ⟨old, hold, ?_⟩
  rw [Tables.softDeleteRow] at hsoft
  split at hsoft
  · split at hsoft
    · cases hsoft
    · exact .inr (Option.some.inj hsoft).symm
  · exact .inl (Option.some.inj hsoft).symm

/-! ## Submissions -/

/-- The rows that were submitted under a key, in the order of the calls. -/
def rowsOf (calls : List Timed) (k : Key) : List Row := calls.filterMap fun c =>
    if c.key = k then c.row else none

variable {calls : List Timed} {c : Timed} {k : Key} {row : Row} {t : Tables}

theorem mem_rowsOf : row ∈ rowsOf calls k ↔ ∃ c ∈ calls, c.key = k ∧ c.row = some row := by
  rw [rowsOf, List.mem_filterMap]
  refine exists_congr fun c => and_congr_right fun _ => ?_
  by_cases hk : c.key = k
  · rw [if_pos hk]
    exact (and_iff_right hk).symm
  rw [if_neg hk]
  constructor
  · intro h
    cases h
  · intro h
    exact absurd h.1 hk

theorem rowsOf_concat :
    rowsOf (calls ++ [c]) k = rowsOf calls k ++ (if c.key = k then c.row else none).toList := by
  rw [rowsOf, List.filterMap_append, ← rowsOf, List.filterMap_cons]
  cases hrow : if c.key = k then c.row else none with
  | none => simp
  | some row => simp

theorem rowsOf_concat_self (h : c.row = some row) :
    rowsOf (calls ++ [c]) c.key = rowsOf calls c.key ++ [row] := by
  rw [rowsOf_concat, if_pos rfl, h]
  rfl

theorem rowsOf_concat_none (h : c.row = none) : rowsOf (calls ++ [c]) k = rowsOf calls k := by
  rw [rowsOf_concat, h, ite_self]
  exact List.append_nil _

theorem rowsOf_concat_ne (h : k ≠ c.key) : rowsOf (calls ++ [c]) k = rowsOf calls k := by
  rw [rowsOf_concat, if_neg fun heq => h heq.symm]
  exact List.append_nil _

/-- The best submission; what came first among equals. -/
def headOf (calls : List Timed) (k : Key) : Option Row := (rowsOf calls k).argmin Row.place

/-- A submission that something at least as good came before. -/
theorem headOf_concat_of_le (h : c.row = some row)
    (hle : ∃ r ∈ rowsOf calls c.key, r.place ≤ row.place) :
    headOf (calls ++ [c]) c.key = headOf calls c.key := by
  obtain ⟨r, hr, hle⟩ := hle
  rw [headOf, headOf, rowsOf_concat_self h, List.argmin_concat]
  cases hhead : (rowsOf calls c.key).argmin Row.place with
  | none =>
    rw [List.argmin_eq_none.mp hhead] at hr
    cases hr
  | some head =>
    have hbest := List.le_of_mem_argmin hr hhead
    exact if_neg (not_lt_of_ge (le_trans hbest hle))

/-- A submission that beats all before it. -/
theorem headOf_concat_of_lt (h : c.row = some row)
    (hlt : ∀ r ∈ rowsOf calls c.key, row.place < r.place) :
    headOf (calls ++ [c]) c.key = some row := by
  rw [headOf, rowsOf_concat_self h, List.argmin_concat]
  cases hhead : (rowsOf calls c.key).argmin Row.place with
  | none => rfl
  | some head => exact if_pos (hlt head (List.argmin_mem hhead))

/-! ## The invariant -/

/-- The tables after some calls. -/
structure Reached (calls : List Timed) (t : Tables) : Prop where
  /-- Every row was submitted. -/
  rows : ∀ row ∈ t.events, ∃ c ∈ calls, ∃ r, c.row = some r ∧ (row = r ∨ row = r.markDeleted)
  /-- Every watermark was submitted. -/
  marks : ∀ coordinate stamp, Finmap.lookup coordinate t.watermarks = some stamp → ∃ c ∈ calls, ∃ r,
    c.row = some r ∧ r.stamp = stamp ∧
      c.key = .parameterized coordinate.communityId coordinate.kind coordinate.pubkey
        coordinate.dTag
  heads : ∀ k, k.Lawful → t.liveOf k = (headOf calls k).toList

theorem reached_empty : Reached [] Tables.empty := by
  refine ⟨?_, ?_, ?_⟩
  · intro row hrow
    cases hrow
  · intro coordinate stamp h
    cases h
  · intro k _
    rfl

/-- The key of a conforming row's call. -/
theorem key_of_conforming {dTag : String} (hc : c.call.Routed) (h : c.row = some row)
    (hd : row.dTag = some dTag)
    (hnip : isNipRs row.kind row.tags dTag = true) :
    c.key = .parameterized row.communityId row.kind row.pubkey dTag := by
  obtain ⟨createdAt, _, rfl⟩ := Option.map_eq_some_iff.mp (Timed.row_eq_some.mp h).1
  obtain ⟨call, clock⟩ := c
  cases call with
  | addressable communityId event channelId =>
    have hfalse := not_conforming_of_addressable hc event.tags dTag
    rw [show isNipRs event.kind event.tags dTag = true from hnip] at hfalse
    cases hfalse
  | parameterized communityId event d channelId =>
    cases hd
    rfl

/-- What stands against a submission is an earlier one that is at least as good. -/
theorem dominates_iff (hr : Reached calls t) (hc : c.call.Routed) (h : c.row = some row) :
    t.dominates c.key row = true ↔ ∃ r ∈ rowsOf calls c.key, r.place ≤ row.place := by
  have hlive := hr.heads c.key hc.lawful
  rw [Tables.dominates, Bool.or_eq_true, Tables.existing, hlive]
  constructor
  · rintro (hexisting | hmark)
    · cases hhead : headOf calls c.key with
      | none =>
        rw [hhead] at hexisting
        cases hexisting
      | some head =>
        rw [hhead] at hexisting
        exact ⟨head, List.argmin_mem hhead, dominatedBy_iff.mp hexisting⟩
    · obtain ⟨stamp, hstamp, hdom⟩ := (Option.any_eq_true _ _).mp hmark
      rw [Tables.watermarkOf] at hstamp
      cases hd : row.dTag with
      | none =>
        rw [hd] at hstamp
        cases hstamp
      | some dTag =>
        rw [hd] at hstamp
        dsimp only at hstamp
        by_cases hnip : isNipRs row.kind row.tags dTag = true
        · rw [if_pos hnip] at hstamp
          obtain ⟨c', hc', r, hrow, rfl, hkey⟩ := hr.marks _ _ hstamp
          refine ⟨r, mem_rowsOf.mpr ⟨c', hc', ?_, hrow⟩, dominatedBy_iff.mp hdom⟩
          rw [hkey, key_of_conforming hc h hd hnip]
        · rw [if_neg hnip] at hstamp
          cases hstamp
  · rintro ⟨r, hmem, hle⟩
    refine .inl ?_
    cases hhead : headOf calls c.key with
    | none =>
      rw [List.argmin_eq_none.mp hhead] at hmem
      cases hmem
    | some head =>
      have hbest : head.place ≤ r.place := List.le_of_mem_argmin hmem hhead
      exact dominatedBy_iff.mpr (le_trans hbest hle)

theorem not_dominates_lt (hr : Reached calls t) (hc : c.call.Routed) (h : c.row = some row)
    (hdom : t.dominates c.key row = false) : ∀ r ∈ rowsOf calls c.key, row.place < r.place := by
  intro r hmem
  refine lt_of_not_ge ?_
  intro hle
  rw [(dominates_iff hr hc h).mpr ⟨r, hmem, hle⟩] at hdom
  cases hdom

/-- A row with the primary key of a submission is an earlier submission of the same event. -/
theorem no_conflict (hr : Reached calls t) (honest : Honest (calls ++ [c])) (h : c.row = some row)
    (hdom : t.dominates c.key row = false) : row.key ∉ (t.retire c.call).events.map Row.key := by
  intro hconflict
  obtain ⟨row', hrow', hkey⟩ := List.mem_map.mp hconflict
  obtain ⟨old, hold, hmark⟩ := mem_retire hrow'
  obtain ⟨c', hc', r, hrow, hold'⟩ := hr.rows old hold
  have hrkey : r.key = row.key := by
    rw [← hkey]
    rcases hmark with rfl | rfl <;> rcases hold' with rfl | rfl <;> rfl
  have hcall := List.mem_append_left [c] hc'
  have hlast := List.mem_append_right calls (List.mem_singleton_self c)
  have hpair := Prod.ext_iff.mp hrkey
  have hstamp : r.stamp = row.stamp := hpair.2
  have hsame : c'.call.communityId = c.call.communityId ∧ c'.call.event.id = c.call.event.id := by
    obtain ⟨createdAt, _, rfl⟩ := Option.map_eq_some_iff.mp (Timed.row_eq_some.mp hrow).1
    obtain ⟨createdAt', _, rfl⟩ := Option.map_eq_some_iff.mp (Timed.row_eq_some.mp h).1
    exact ⟨hpair.1, congrArg Stamp.id hstamp⟩
  have hk := (honest.ids c' hcall c hlast hsame.1 hsame.2).2
  have hlt := not_dominates_lt hr (honest.routed c hlast) h hdom r (mem_rowsOf.mpr ⟨c',
      hc', hk, hrow⟩)
  have heq : r.place = row.place := congrArg Stamp.place hstamp
  rw [heq] at hlt
  exact lt_irrefl _ hlt

/-! ## One call -/

theorem submit_of_outcome {outcome : Except DbError (Tables × Bool)}
    (h : c.call.commit t c.clock = outcome)
    (hsame : outcome = .ok (t, false) ∨ ∃ e, outcome = .error e) : c.submit t = t ∧
    ¬c.Inserted t := by
  refine ⟨?_, ?_⟩
  · rw [Timed.submit, h]
    rcases hsame with rfl | ⟨e, rfl⟩ <;> rfl
  · rintro ⟨t', ht'⟩
    rw [h] at ht'
    rcases hsame with rfl | ⟨e, rfl⟩ <;> cases ht'

/-- A call whose event has no row, is late or is dominated changes nothing. -/
theorem submit_refused (hc : c.call.Routed)
    (h : ∀ row, c.row = some row → t.dominates c.key row = true) :
    c.submit t = t ∧ ¬c.Inserted t := by
  cases hrow : c.call.row with
  | none =>
    exact submit_of_outcome (by rw [Call.commit, Call.apply_of_row_none hc hrow]) (.inr ⟨_, rfl⟩)
  | some row =>
    have happly := @Call.apply_of_row t c.call row hc hrow
    by_cases hdom : t.dominates c.call.key row = true
    · rw [if_pos hdom] at happly
      exact submit_of_outcome (by rw [Call.commit, happly]) (.inl rfl)
    rw [if_neg hdom, Call.finish] at happly
    by_cases hconflict : row.key ∈ (t.retire c.call).events.map Row.key
    · rw [dif_pos hconflict] at happly
      exact submit_of_outcome (by rw [Call.commit, happly]) (.inl rfl)
    · -- the insert went through, and COMMIT finds the row late
      rw [dif_neg hconflict] at happly
      have hlate : ¬row.guardPasses c.clock = true := fun hpasses =>
        hdom (h row (Timed.row_eq_some.mpr ⟨hrow, hpasses⟩))
      have hcommit : c.call.commit t c.clock =
          .error (.sqlx "events.created_at is below the replica-fence floor") := by
        rw [Call.commit, happly]
        dsimp only
        rw [hrow, Option.all_some, if_neg hlate]
      exact submit_of_outcome hcommit (.inr ⟨_, rfl⟩)

/-- A call whose event is not dominated puts its row in the place of those it supersedes. -/
theorem commit_accepted (hr : Reached calls t) (honest : Honest (calls ++ [c]))
    (h : c.row = some row) (hdom : t.dominates c.key row = false) :
    c.call.commit t c.clock =
      .ok ((t.retire c.call).accept row (no_conflict hr honest h hdom), true) := by
  have hc := honest.routed c (List.mem_append_right calls (List.mem_singleton_self c))
  obtain ⟨hrow, hpasses⟩ := Timed.row_eq_some.mp h
  have happly := @Call.apply_of_row t c.call row hc hrow
  rw [if_neg (show ¬t.dominates c.call.key row = true from Bool.eq_false_iff.mp hdom), Call.finish,
    dif_neg (no_conflict hr honest h hdom)] at happly
  rw [Call.commit, happly]
  dsimp only
  rw [hrow, Option.all_some, if_pos hpasses]

theorem liveOf_accepted (hr : Reached calls t) (honest : Honest (calls ++ [c]))
    (h : c.row = some row) (hdom : t.dominates c.key row = false) (hk : k.Lawful) :
    (c.submit t).liveOf k = if k = c.key then [row] else t.liveOf k := by
  have hc := honest.routed c (List.mem_append_right calls (List.mem_singleton_self c))
  rw [Timed.submit, commit_accepted hr honest h hdom]
  dsimp only
  rw [liveOf_accept (Call.row_live (Timed.row_eq_some.mp h).1)]
  by_cases hkey : k = c.key
  · subst hkey
    rw [show (t.retire c.call).liveOf c.key = [] from liveOf_retire_self t c.call,
      if_pos (show c.key.covers row = true from Call.covers_row (Timed.row_eq_some.mp h).1),
        if_pos rfl]
    rfl
  · have hcov : ¬k.covers row = true := fun hcov =>
      hkey (Key.eq_of_covers hk hc.lawful hcov (Call.covers_row (Timed.row_eq_some.mp h).1))
    rw [liveOf_retire_ne hc hk hkey, if_neg hcov, if_neg hkey, List.append_nil]

/-- Rows and watermarks that were submitted stay submitted. -/
theorem Reached.later (hr : Reached calls t)
    (hheads : ∀ k, k.Lawful → t.liveOf k = (headOf (calls ++ [c]) k).toList) :
    Reached (calls ++ [c]) t := by
  refine ⟨?_, ?_, hheads⟩
  · intro row hrow
    obtain ⟨c', hc', hrest⟩ := hr.rows row hrow
    exact ⟨c', List.mem_append_left [c] hc', hrest⟩
  · intro coordinate stamp hlookup
    obtain ⟨c', hc', hrest⟩ := hr.marks coordinate stamp hlookup
    exact ⟨c', List.mem_append_left [c] hc', hrest⟩

theorem lookup_advance {watermarks : Map Coordinate Stamp} {coordinate : Coordinate} {stamp : Stamp}
    (h : Finmap.lookup coordinate (Tables.advance watermarks row) = some stamp) :
    Finmap.lookup coordinate watermarks = some stamp ∨
      ∃ dTag, row.dTag = some dTag ∧ isNipRs row.kind row.tags dTag = true ∧ stamp = row.stamp ∧
        coordinate = ⟨row.communityId, row.kind, row.pubkey, dTag⟩ := by
  rw [Tables.advance] at h
  cases hd : row.dTag with
  | none =>
    rw [hd] at h
    exact .inl h
  | some dTag =>
    rw [hd] at h
    dsimp only at h
    by_cases hnip : isNipRs row.kind row.tags dTag = true
    · rw [if_pos hnip, Map.lookup_insert_eq] at h
      by_cases hcoord : coordinate = ⟨row.communityId, row.kind, row.pubkey, dTag⟩
      · rw [if_pos hcoord] at h
        exact .inr ⟨dTag, rfl, hnip, (Option.some.inj h).symm, hcoord⟩
      · rw [if_neg hcoord] at h
        exact .inl h
    · rw [if_neg hnip] at h
      exact .inl h

/-- **The step.** -/
theorem reached_step (hr : Reached calls t) (honest : Honest (calls ++ [c])) :
    Reached (calls ++ [c]) (c.submit t) := by
  have hlast := List.mem_append_right calls (List.mem_singleton_self c)
  have hc := honest.routed c hlast
  cases hrow : c.row with
  | none =>
    rw [(submit_refused hc (by rw [hrow]; exact fun _ h => nomatch h)).1]
    refine hr.later ?_
    intro k hk
    rw [hr.heads k hk, headOf, headOf, rowsOf_concat_none hrow]
  | some row =>
    by_cases hdom : t.dominates c.key row = true
    · rw [(submit_refused hc (by rw [hrow]; exact fun r h => Option.some.inj h ▸ hdom)).1]
      refine hr.later ?_
      intro k hk
      rw [hr.heads k hk]
      by_cases hkey : k = c.key
      · rw [hkey, headOf_concat_of_le hrow ((dominates_iff hr hc hrow).mp hdom)]
      · rw [headOf, headOf, rowsOf_concat_ne hkey]
    · have hdom := Bool.eq_false_iff.mpr hdom
      have happly := commit_accepted hr honest hrow hdom
      have hsubmit : c.submit t =
          (t.retire c.call).accept row (no_conflict hr honest hrow hdom) := by
        rw [Timed.submit, happly]
      refine ⟨?_, ?_, ?_⟩
      · intro row' hmem
        rw [hsubmit] at hmem
        rcases List.mem_append.mp hmem with hmem | hmem
        · obtain ⟨old, hold, hmark⟩ := mem_retire hmem
          obtain ⟨c', hc', r, hr', hold'⟩ := hr.rows old hold
          refine ⟨c', List.mem_append_left [c] hc', r, hr', ?_⟩
          rcases hmark with rfl | rfl
          · exact hold'
          · refine .inr ?_
            rcases hold' with rfl | rfl <;> rfl
        · rw [List.mem_singleton.mp hmem]
          exact ⟨c, hlast, row, hrow, .inl rfl⟩
      · intro coordinate stamp hlookup
        rw [hsubmit] at hlookup
        rcases lookup_advance hlookup with hold | hnew
        · rw [Tables.retire_watermarks] at hold
          obtain ⟨c', hc', hrest⟩ := hr.marks coordinate stamp hold
          exact ⟨c', List.mem_append_left [c] hc', hrest⟩
        · obtain ⟨dTag, hd, hnip, rfl, rfl⟩ := hnew
          exact ⟨c, hlast, row, hrow, rfl, key_of_conforming hc hrow hd hnip⟩
      · intro k hk
        rw [liveOf_accepted hr honest hrow hdom hk]
        by_cases hkey : k = c.key
        · rw [if_pos hkey, hkey, headOf_concat_of_lt hrow (not_dominates_lt hr hc hrow hdom)]
          rfl
        · rw [if_neg hkey, hr.heads k hk, headOf, headOf, rowsOf_concat_ne hkey]

/-- **The run.** -/
theorem reached_run (honest : Honest calls) : Reached calls (submitAll calls) := by
  induction calls using List.reverseRecOn with
  | nil => exact reached_empty
  | append_singleton calls c ih =>
    rw [submitAll_concat]
    exact reached_step (ih (honest.mono fun _ h => List.mem_append_left [c] h)) honest

/-! ## Convergence -/

/-- The submission of a key with the greatest `created_at` and, among equals, the lowest id. -/
def IsHead (calls : List Timed) (k : Key) (row : Row) : Prop :=
  (∃ c ∈ calls, c.key = k ∧ c.row = some row) ∧
    ∀ c ∈ calls, c.key = k → ∀ r, c.row = some r →
      r.createdAt.secs < row.createdAt.secs ∨
        (r.createdAt.secs = row.createdAt.secs ∧ byteaKey row.id.bytes ≤ byteaKey r.id.bytes)

theorem place_le_iff {a b : Row} :
    a.place ≤ b.place ↔ b.createdAt.secs < a.createdAt.secs ∨
      (b.createdAt.secs = a.createdAt.secs ∧ byteaKey a.id.bytes ≤ byteaKey b.id.bytes) := by
  rw [Row.place, Row.place, ← dominatedBy_iff, Stamp.dominatedBy]
  simp only [Bool.or_eq_true, Bool.and_eq_true, decide_eq_true_eq]
  exact Iff.rfl

theorem isHead_of_headOf (h : headOf calls k = some row) : IsHead calls k row := by
  refine ⟨mem_rowsOf.mp (List.argmin_mem h), ?_⟩
  intro c hc hk r hr
  exact place_le_iff.mp (List.le_of_mem_argmin (mem_rowsOf.mpr ⟨c, hc, hk, hr⟩) h)

/-- The live rows of a key: its head, if anything was submitted under it. -/
theorem liveOf_head (hr : Reached calls t) (hk : k.Lawful) :
    (t.liveOf k = [] ∧ ∀ c ∈ calls, c.key = k → c.row = none) ∨ ∃ row, t.liveOf k = [row] ∧
    IsHead calls k row := by
  rw [hr.heads k hk]
  cases hhead : headOf calls k with
  | none =>
    refine .inl ⟨rfl, ?_⟩
    intro c hc hkey
    rw [Option.eq_none_iff_forall_not_mem]
    intro row hrow
    have hmem := mem_rowsOf.mpr ⟨c, hc, hkey, hrow⟩
    rw [List.argmin_eq_none.mp hhead] at hmem
    cases hmem
  | some row => exact .inr ⟨row, rfl, isHead_of_headOf hhead⟩

/-- Submissions of one place are of one event. -/
theorem id_eq_of_place {a b : Row} (h : a.place = b.place) : a.id = b.id :=
  congrArg Stamp.id (place_inj h)

/-- The head depends on what was submitted only. -/
theorem headOf_congr {calls' : List Timed}
    (hmem : ∀ row, row ∈ rowsOf calls' k ↔ row ∈ rowsOf calls k) :
    (headOf calls' k).map Row.id = (headOf calls k).map Row.id := by
  cases hhead : headOf calls k with
  | none =>
    have hnil : rowsOf calls' k = [] := by
      rw [List.eq_nil_iff_forall_not_mem]
      intro row hrow
      have hold := (hmem row).mp hrow
      rw [List.argmin_eq_none.mp hhead] at hold
      cases hold
    rw [headOf, hnil]
    rfl
  | some row =>
    cases hhead' : headOf calls' k with
    | none =>
      have hold := (hmem row).mpr (List.argmin_mem hhead)
      rw [List.argmin_eq_none.mp hhead'] at hold
      cases hold
    | some row' =>
      refine congrArg some (id_eq_of_place (le_antisymm ?_ ?_))
      · exact List.le_of_mem_argmin ((hmem row).mpr (List.argmin_mem hhead)) hhead'
      · exact List.le_of_mem_argmin ((hmem row').mp (List.argmin_mem hhead')) hhead

/-- A call reports `true` exactly when its row is what is live after it and was not before. -/
theorem inserted_iff (hr : Reached calls t) (honest : Honest (calls ++ [c])) :
    c.Inserted t ↔ ∃ row, c.row = some row ∧ (c.submit t).liveOf c.key = [row] ∧
      t.liveOf c.key ≠ [row] := by
  have hc := honest.routed c (List.mem_append_right calls (List.mem_singleton_self c))
  by_cases href : ∀ row, c.row = some row → t.dominates c.key row = true
  · obtain ⟨hsame, hnot⟩ := submit_refused hc href
    refine iff_of_false hnot ?_
    rintro ⟨row, _, hnew, hold⟩
    rw [hsame] at hnew
    exact hold hnew
  · obtain ⟨row, href⟩ := not_forall.mp href
    obtain ⟨hrow, hdom⟩ := Classical.not_imp.mp href
    have hdom := Bool.eq_false_iff.mpr hdom
    refine iff_of_true ⟨_, commit_accepted hr honest hrow hdom⟩ ⟨row, hrow, ?_, ?_⟩
    · rw [liveOf_accepted hr honest hrow hdom (show c.key.Lawful from hc.lawful), if_pos rfl]
    · intro hlive
      -- a live row is a submission, which the incoming one beats
      rw [hr.heads c.key hc.lawful] at hlive
      have hhead : headOf calls c.key = some row := Option.toList_eq_singleton_iff.mp hlive
      exact lt_irrefl _ (not_dominates_lt hr hc hrow hdom row (List.argmin_mem hhead))

theorem submit_of_not_inserted (hr : Reached calls t) (honest : Honest (calls ++ [c]))
    (h : ¬c.Inserted t) : c.submit t = t := by
  have hc := honest.routed c (List.mem_append_right calls (List.mem_singleton_self c))
  refine (submit_refused hc ?_).1
  intro row hrow
  by_contra hdom
  exact h ⟨_, commit_accepted hr honest hrow (Bool.eq_false_iff.mpr hdom)⟩

theorem liveOf_submit_ne (hr : Reached calls t) (honest : Honest (calls ++ [c])) (hk : k.Lawful)
    (hne : k ≠ c.key) : (c.submit t).liveOf k = t.liveOf k := by
  have hr' := reached_step hr honest
  rw [hr'.heads k hk, hr.heads k hk, headOf, headOf, rowsOf_concat_ne hne]

theorem asI64_of_lt {n : Nat} (h : n < 2 ^ 63) : asI64 n = n := by
  rw [asI64, BitVec.toInt_eq_toNat_cond, BitVec.toNat_ofNat, Nat.mod_eq_of_lt (by omega),
    if_pos (by omega)]

theorem createdAt_of_row (h : c.row = some row) (hlt : c.call.event.createdAt < 2 ^ 63) :
    row.createdAt.secs = c.call.event.createdAt := by
  obtain ⟨createdAt, hts, rfl⟩ := Option.map_eq_some_iff.mp (Timed.row_eq_some.mp h).1
  have hsecs : createdAt.secs = asI64 c.call.event.createdAt := by
    rw [DateTime.fromTimestamp] at hts
    split at hts
    · rw [← Option.some.inj hts]
    · cases hts
  show createdAt.secs = _
  rw [hsecs, asI64_of_lt hlt]

/-- Three versions of an article in a channel, the newest one too late, and a profile. -/
def sampleCalls : List Timed :=
  let community : CommunityId := ⟨FixedBytes.ofNat 16 1⟩
  let article (id createdAt clock : Nat) : Timed :=
    ⟨.parameterized community ⟨FixedBytes.ofNat 32 id, FixedBytes.ofNat 32 7, createdAt,
      30023, []⟩ "a" (some (FixedBytes.ofNat 16 4)), seconds clock⟩
  [article 2 20 900, article 1 10 960, article 5 30 1000,
    ⟨.addressable community ⟨FixedBytes.ofNat 32 3, FixedBytes.ofNat 32 7, 15, 0, []⟩ none,
      seconds 2000⟩]

def sampleKey : Key := .parameterized ⟨FixedBytes.ofNat 16 1⟩ 30023 (FixedBytes.ofNat 32 7) "a"

theorem honest_sampleCalls : Honest sampleCalls := by
  refine ⟨?_, by decide⟩
  intro c hc
  simp only [sampleCalls, List.mem_cons, List.not_mem_nil, or_false] at hc
  rcases hc with rfl | rfl | rfl | rfl
  · exact (by decide : isAddressableKind 30023 = false)
  · exact (by decide : isAddressableKind 30023 = false)
  · exact (by decide : isAddressableKind 30023 = false)
  · exact (by decide : isAddressableKind 0 = true)

end Pkzz.Db.Replace
