import Pkzz.Db.ReplaceHead

/-!
# Superseded and deleted events stay away

Runs of `replace_parameterized_event` and `soft_delete_by_coordinate`. An event that was live once
and is not live any more can be submitted again by anybody. What turns it away is its own retained
row, or the watermark of its coordinate, or a better live row.

Rows that leave the table without a watermark are turned away by the live row only. When a deletion
takes that one too, they can come back. This concerns the mesh-status rows, and rows at a NIP-RS
coordinate that are not of the NIP-RS form.
-/

namespace Pkzz.Db.Replace

open Pkzz.Core Pkzz.Lib
open Pkzz.Db.Thread (DateTime DbError asI64 byteaKey)

/-! ## Runs -/

/-- The arguments of a `replace_parameterized_event` call. -/
structure Submission where
  communityId : CommunityId
  event : Event
  dTag : String
  channelId : Option Uuid
  deriving DecidableEq

def Submission.call (s : Submission) : Call :=
  .parameterized s.communityId s.event s.dTag s.channelId

/-- The tables after a call on a connection without `buzz.created_at_floor`, where COMMIT refuses
nothing. -/
def Call.submit (t : Tables) (c : Call) : Tables :=
  match c.apply t with
  | .ok (t', _) => t'
  | .error _ => t

inductive Op where
  | replace (s : Submission)
  | delete (coordinate : Coordinate) (deletionCreatedAtSecs : Int)
  deriving DecidableEq

/-- The tables after an operation; one that fails changes nothing. -/
def Op.apply (t : Tables) : Op → Tables
  | replace s => s.call.submit t
  | delete coordinate secs =>
    match softDeleteByCoordinate t coordinate secs with
    | .ok (t', _) => t'
    | .error _ => t

def applyAll (ops : List Op) : Tables := ops.foldl Op.apply Tables.empty

theorem applyAll_concat (ops : List Op) (op : Op) :
    applyAll (ops ++ [op]) = op.apply (applyAll ops) := by
  rw [applyAll, List.foldl_append]
  rfl

/-- An event, which its id stands for, is submitted with one `d` tag. -/
def Signed (ops : List Op) : Prop :=
  ∀ s s', .replace s ∈ ops → .replace s' ∈ ops → s.communityId = s'.communityId →
    s.event.id = s'.event.id → s.event = s'.event ∧ s.dTag = s'.dTag

theorem Signed.mono {ops ops' : List Op} (h : Signed ops) (hsub : ∀ op ∈ ops', op ∈ ops) :
    Signed ops' := by
  intro s s' hs hs'
  exact h s s' (hsub _ hs) (hsub _ hs')

theorem Signed.concat_delete {ops : List Op} (h : Signed ops) (coordinate : Coordinate)
    (secs : Int) : Signed (ops ++ [.delete coordinate secs]) := by
  intro s s' hs hs'
  exact h s s' (by simpa using hs) (by simpa using hs')

/-- The event is live in its community. -/
def Tables.Live (t : Tables) (communityId : CommunityId) (id : EventId) : Prop :=
  ∃ row ∈ t.events, row.communityId = communityId ∧ row.id = id ∧ row.deleted = false

instance (t : Tables) (communityId : CommunityId) (id : EventId) :
    Decidable (t.Live communityId id) :=
  inferInstanceAs (Decidable (∃ row ∈ t.events, _ ∧ _ ∧ _))

/-- No event that was live and then was not is live again. -/
def NoResurrection (ops : List Op) : Prop :=
  ∀ first second third, first <+: second → second <+: third → third <+: ops →
    ∀ communityId id, (applyAll first).Live communityId id →
      ¬(applyAll second).Live communityId id → ¬(applyAll third).Live communityId id

/-- A run and what third parties add to it at any point: `replays` are submissions made before. -/
def ResistsReplays (ops : List Op) : Prop :=
  ∀ before replays, before <+: ops → (∀ op ∈ replays, ∃ s, op = .replace s ∧ op ∈ before) →
    NoResurrection (before ++ replays)

/-! ## Coordinates -/

def Coordinate.key (c : Coordinate) : Key := .parameterized c.communityId c.kind c.pubkey c.dTag

def Submission.coordinate (s : Submission) : Coordinate :=
  ⟨s.communityId, s.event.kind, s.event.pubkey, s.dTag⟩

def Row.coordinate (row : Row) : Option Coordinate :=
  row.dTag.map fun dTag => ⟨row.communityId, row.kind, row.pubkey, dTag⟩

variable {coordinate : Coordinate}

theorem covers_iff {row : Row} :
    coordinate.key.covers row = true ↔ row.coordinate = some coordinate := by
  rw [Coordinate.key, Key.covers, Row.coordinate]
  simp only [Bool.and_eq_true, beq_iff_eq, Option.map_eq_some_iff]
  constructor
  · rintro ⟨⟨⟨hcommunity, hkind⟩, hpubkey⟩, hd⟩
    refine ⟨coordinate.dTag, hd, ?_⟩
    rw [hcommunity, hkind, hpubkey]
  · rintro ⟨dTag, hd, rfl⟩
    exact ⟨⟨⟨rfl, rfl⟩, rfl⟩, hd⟩

theorem watermarkOf_conforming {t : Tables} {row : Row} (h : row.conforming = true) :
    ∃ coordinate, row.coordinate = some coordinate ∧
      t.watermarkOf row = Finmap.lookup coordinate t.watermarks := by
  obtain ⟨dTag, hd, hnip⟩ := (Option.any_eq_true _ _).mp h
  refine ⟨_, Option.map_eq_some_iff.mpr ⟨dTag, hd, rfl⟩, ?_⟩
  rw [Tables.watermarkOf, hd]
  exact if_pos hnip

theorem watermarkOf_not_conforming {t : Tables} {row : Row} (h : row.conforming = false) :
    t.watermarkOf row = none := by
  rw [Tables.watermarkOf]
  rw [Row.conforming] at h
  cases hd : row.dTag with
  | none => rfl
  | some dTag =>
    rw [hd] at h
    exact if_neg (Bool.eq_false_iff.mp h)

/-! ## What an operation does -/

variable {ops before : List Op} {op : Op} {s : Submission} {t : Tables} {row : Row}

theorem apply_of_row (h : s.call.row = some row) :
    s.call.apply t = if t.dominates s.call.key row then
      .ok (t, false) else s.call.finish t row := by
  obtain ⟨createdAt, hts, rfl⟩ := Option.map_eq_some_iff.mp h
  have hts : DateTime.fromTimestamp (asI64 s.event.createdAt) = some createdAt := hts
  show replaceParameterizedEvent t s.communityId s.event s.dTag s.channelId = _
  rw [replaceParameterizedEvent_eq, hts]
  rfl

theorem apply_of_row_none (h : s.call.row = none) :
    s.call.apply t = .error (.invalidTimestamp (asI64 s.event.createdAt)) := by
  have hts : DateTime.fromTimestamp (asI64 s.event.createdAt) = none := Option.map_eq_none_iff.mp h
  show replaceParameterizedEvent t s.communityId s.event s.dTag s.channelId = _
  rw [replaceParameterizedEvent_eq, hts]

/-- A submission is refused, or its row is accepted. -/
theorem replace_cases (t : Tables) (s : Submission) :
    (Op.replace s).apply t = t ∨ ∃ row, ∃ h : row.key ∉ (t.retire s.call).events.map Row.key,
      s.call.row = some row ∧ t.dominates s.call.key row = false ∧
        (Op.replace s).apply t = (t.retire s.call).accept row h := by
  show s.call.submit t = t ∨ ∃ row, ∃ h : row.key ∉ (t.retire s.call).events.map Row.key,
    s.call.row = some row ∧ t.dominates s.call.key row = false ∧
      s.call.submit t = (t.retire s.call).accept row h
  rw [Call.submit]
  cases hrow : s.call.row with
  | none =>
    rw [apply_of_row_none hrow]
    exact .inl rfl
  | some row =>
    rw [apply_of_row hrow]
    by_cases hdom : t.dominates s.call.key row = true
    · rw [if_pos hdom]
      exact .inl rfl
    rw [if_neg hdom, Call.finish]
    by_cases hkey : row.key ∈ (t.retire s.call).events.map Row.key
    · rw [dif_pos hkey]
      exact .inl rfl
    · rw [dif_neg hkey]
      exact .inr ⟨row, hkey, rfl, Bool.eq_false_iff.mpr hdom, rfl⟩

/-- The rows a deletion takes if they are live. A deletion whose time is no `DateTime` fails. -/
def Coordinate.takes (coordinate : Coordinate) (secs : Int) (row : Row) : Bool :=
  coordinate.key.covers row && (DateTime.fromTimestamp secs).any fun at' =>
    decide (row.createdAt.secs ≤ at'.secs)

theorem softDelete_of_none_hit {hit : Row → Bool}
    (h : ∀ row ∈ t.events, hit row = true → row.deleted = true) : t.softDelete hit = t := by
  refine Tables.ext ?_ rfl
  have hrow : ∀ row ∈ t.events, Tables.softDeleteRow hit row = some row := by
    intro row hrow
    rw [Tables.softDeleteRow, if_neg]
    intro hboth
    rw [Bool.and_eq_true, Bool.not_eq_true'] at hboth
    rw [h row hrow hboth.1] at hboth
    exact Bool.noConfusion hboth.2
  show t.events.filterMap (Tables.softDeleteRow hit) = t.events
  rw [List.filterMap_congr hrow, List.filterMap_some]

theorem delete_eq (t : Tables) (coordinate : Coordinate) (secs : Int) :
    (Op.delete coordinate secs).apply t = t.softDelete (coordinate.takes secs) := by
  rw [Op.apply, softDeleteByCoordinate]
  cases hts : DateTime.fromTimestamp secs with
  | none =>
    refine (softDelete_of_none_hit ?_).symm
    intro row _ htakes
    rw [Coordinate.takes, hts] at htakes
    simp at htakes
  | some at' =>
    dsimp only
    refine congrArg t.softDelete ?_
    funext row
    rw [Coordinate.takes, hts]
    rfl

/-- A row after an operation was there before, perhaps unmarked, or it is the one submitted. -/
theorem mem_apply (h : row ∈ (op.apply t).events) :
    (∃ old ∈ t.events, row = old ∨ row = old.markDeleted) ∨ ∃ s, op = .replace s ∧
    s.call.row = some row := by
  cases op with
  | replace s =>
    rcases replace_cases t s with hsame | ⟨new, hkey, hnew, _, haccept⟩
    · rw [hsame] at h
      exact .inl ⟨row, h, .inl rfl⟩
    rw [haccept] at h
    rcases List.mem_append.mp h with h | h
    · exact .inl (mem_retire h)
    · rw [List.mem_singleton.mp h]
      exact .inr ⟨s, rfl, hnew⟩
  | delete coordinate secs =>
    rw [delete_eq] at h
    obtain ⟨old, hold, hsoft⟩ := List.mem_filterMap.mp h
    refine .inl ⟨old, hold, ?_⟩
    rw [Tables.softDeleteRow] at hsoft
    split at hsoft
    · split at hsoft
      · cases hsoft
      · exact .inr (Option.some.inj hsoft).symm
    · exact .inl (Option.some.inj hsoft).symm

/-! ## Rows that were stored once -/

def EverStored (before : List Op) (row : Row) : Prop :=
  ∃ earlier, earlier <+: before ∧ row ∈ (applyAll earlier).events

theorem everStored_now (h : row ∈ (applyAll before).events) : EverStored before row :=
  ⟨before, List.prefix_rfl, h⟩

theorem EverStored.mono {before later : List Op} (h : EverStored before row)
    (hle : before <+: later) : EverStored later row := by
  obtain ⟨earlier, hearlier, hrow⟩ := h
  exact ⟨earlier, hearlier.trans hle, hrow⟩

theorem not_everStored_nil : ¬EverStored [] row := by
  rintro ⟨earlier, hearlier, hrow⟩
  rw [List.prefix_nil.mp hearlier] at hrow
  cases hrow

theorem everStored_concat (h : EverStored (before ++ [op]) row) :
    EverStored before row ∨ row ∈ (op.apply (applyAll before)).events := by
  obtain ⟨earlier, hearlier, hrow⟩ := h
  rcases List.prefix_concat_iff.mp hearlier with rfl | hle
  · rw [applyAll_concat] at hrow
    exact .inr hrow
  · exact .inl ⟨earlier, hle, hrow⟩

/-- What is stored was submitted. -/
theorem EverStored.submitted (h : EverStored before row) :
    ∃ s, .replace s ∈ before ∧ ∃ r, s.call.row = some r ∧ (row = r ∨ row = r.markDeleted) := by
  induction before using List.reverseRecOn generalizing row with
  | nil => exact (not_everStored_nil h).elim
  | append_singleton before op ih =>
    rcases everStored_concat h with hold | hnew
    · obtain ⟨s, hs, hrest⟩ := ih hold
      exact ⟨s, List.mem_append_left [op] hs, hrest⟩
    rcases mem_apply hnew with ⟨old, hold, hmark⟩ | ⟨s, rfl, hrow⟩
    · obtain ⟨s, hs, r, hr, hold⟩ := ih (everStored_now hold)
      refine ⟨s, List.mem_append_left [op] hs, r, hr, ?_⟩
      rcases hmark with rfl | rfl
      · exact hold
      · refine .inr ?_
        rcases hold with rfl | rfl <;> rfl
    · exact ⟨s, List.mem_append_right before (List.mem_singleton_self _), row, hrow, .inl rfl⟩

/-- Rows of one event. -/
structure SameEvent (a b : Row) : Prop where
  coordinate : a.coordinate = b.coordinate
  conforming : a.conforming = b.conforming
  meshStatus : a.meshStatus = b.meshStatus
  place : a.place = b.place

variable {a b : Row}

theorem SameEvent.symm (h : SameEvent a b) : SameEvent b a :=
  ⟨h.coordinate.symm, h.conforming.symm, h.meshStatus.symm, h.place.symm⟩

theorem SameEvent.trans {c : Row} (h : SameEvent a b) (h' : SameEvent b c) : SameEvent a c :=
  ⟨h.coordinate.trans h'.coordinate, h.conforming.trans h'.conforming,
    h.meshStatus.trans h'.meshStatus, h.place.trans h'.place⟩

theorem sameEvent_of_mark (h : a = b ∨ a = b.markDeleted) : SameEvent a b := by
  rcases h with rfl | rfl <;> exact ⟨rfl, rfl, rfl, rfl⟩

theorem key_of_mark (h : a = b ∨ a = b.markDeleted) : a.key = b.key := by
  rcases h with rfl | rfl <;> rfl

/-- Submissions with one primary key are of one event. -/
theorem sameEvent_of_submissions (signed : Signed ops) {s s' : Submission} {r r' : Row}
    (hs : .replace s ∈ ops)
    (hs' : .replace s' ∈ ops) (hr : s.call.row = some r) (hr' : s'.call.row = some r')
    (hkey : r.key = r'.key) : SameEvent r r' := by
  obtain ⟨createdAt, _, rfl⟩ := Option.map_eq_some_iff.mp hr
  obtain ⟨createdAt', _, rfl⟩ := Option.map_eq_some_iff.mp hr'
  have hpair := Prod.ext_iff.mp hkey
  have hcommunity : s.communityId = s'.communityId := hpair.1
  have hplace := congrArg Stamp.place hpair.2
  obtain ⟨hevent, hd⟩ := signed s s' hs hs' hcommunity (congrArg Stamp.id hpair.2)
  cases s
  cases s'
  cases hcommunity
  cases hevent
  cases hd
  exact ⟨rfl, rfl, rfl, hplace⟩

theorem sameEvent_of_key (signed : Signed before) (ha : EverStored before a)
    (hb : EverStored before b) (hkey : a.key = b.key) : SameEvent a b := by
  obtain ⟨s, hs, r, hr, hmark⟩ := ha.submitted
  obtain ⟨s', hs', r', hr', hmark'⟩ := hb.submitted
  have hrr' : r.key = r'.key := by rw [← key_of_mark hmark, hkey, key_of_mark hmark']
  have hsame := sameEvent_of_submissions signed hs hs' hr hr' hrr'
  exact ((sameEvent_of_mark hmark).trans hsame).trans (sameEvent_of_mark hmark').symm

/-! ## Watermarks -/

theorem advance_conforming {watermarks : Map Coordinate Stamp} (h : row.conforming = true)
    (hc : row.coordinate = some coordinate) :
    Tables.advance watermarks row = Finmap.insert coordinate row.stamp watermarks := by
  obtain ⟨dTag, hd, hnip⟩ := (Option.any_eq_true _ _).mp h
  rw [Row.coordinate, hd] at hc
  rw [Tables.advance, hd, ← Option.some.inj hc]
  exact if_pos hnip

theorem advance_not_conforming {watermarks : Map Coordinate Stamp} (h : row.conforming = false) :
    Tables.advance watermarks row = watermarks := by
  rw [Row.conforming] at h
  rw [Tables.advance]
  cases hd : row.dTag with
  | none => rfl
  | some dTag =>
    rw [hd] at h
    exact if_neg (Bool.eq_false_iff.mp h)

/-- A watermark of the coordinate stands against the row. -/
def Marked (t : Tables) (row : Row) : Prop :=
  ∃ coordinate stamp, row.coordinate = some coordinate ∧
    Finmap.lookup coordinate t.watermarks = some stamp ∧ stamp.place ≤ row.place

theorem Marked.congr (h : Marked t a) (hab : SameEvent b a) : Marked t b := by
  obtain ⟨coordinate, stamp, hc, hlookup, hle⟩ := h
  refine ⟨coordinate, stamp, ?_, hlookup, ?_⟩
  · rw [hab.coordinate, hc]
  · rw [hab.place]
    exact hle

theorem Marked.dominates {k : Key} (h : Marked t row) (hconf : row.conforming = true) :
    t.dominates k row = true := by
  obtain ⟨coordinate, stamp, hc, hlookup, hle⟩ := h
  obtain ⟨coordinate', hc', hmark⟩ := watermarkOf_conforming (t := t) hconf
  rw [hc] at hc'
  rw [Tables.dominates, hmark, ← Option.some.inj hc', hlookup, Bool.or_eq_true]
  exact .inr (dominatedBy_iff.mpr hle)

/-- A watermark moves on to better rows only. -/
theorem Marked.accept {new : Row} {h : new.key ∉ (t.retire s.call).events.map Row.key}
    (hm : Marked t row)
    (hdom : t.dominates s.call.key new = false) : Marked ((t.retire s.call).accept new h) row := by
  obtain ⟨coordinate, stamp, hc, hlookup, hle⟩ := hm
  by_cases hconf : new.conforming = true
  · obtain ⟨coordinate', hc', hmark⟩ := watermarkOf_conforming (t := t) hconf
    refine ⟨coordinate, if coordinate = coordinate' then new.stamp else stamp, hc, ?_, ?_⟩
    · show Finmap.lookup coordinate (Tables.advance (t.retire s.call).watermarks new) = _
      rw [advance_conforming hconf hc', Map.lookup_insert_eq, Tables.retire_watermarks, hlookup]
      split <;> rfl
    · split
      · rename_i heq
        subst heq
        -- the new row was held against the watermark it replaces
        rw [Tables.dominates, hmark, hlookup, Bool.or_eq_false_iff] at hdom
        have hlt : ¬stamp.place ≤ new.stamp.place := by
          intro hge
          have := dominatedBy_iff.mpr hge
          rw [Option.any_some, this] at hdom
          exact Bool.noConfusion hdom.2
        exact le_of_lt (lt_of_lt_of_le (lt_of_not_ge hlt) hle)
      · exact hle
  · refine ⟨coordinate, stamp, hc, ?_, hle⟩
    show Finmap.lookup coordinate (Tables.advance (t.retire s.call).watermarks new) = _
    rw [advance_not_conforming (Bool.eq_false_iff.mpr hconf), Tables.retire_watermarks]
    exact hlookup

/-- An accepted row of the NIP-RS form leaves its mark at once. -/
theorem marked_accepted {new : Row} {h : new.key ∉ (t.retire s.call).events.map Row.key}
    (hconf : new.conforming = true) : Marked ((t.retire s.call).accept new h) new := by
  obtain ⟨coordinate, hc, _⟩ := watermarkOf_conforming (t := t) hconf
  refine ⟨coordinate, new.stamp, hc, ?_, le_refl _⟩
  show Finmap.lookup coordinate (Tables.advance (t.retire s.call).watermarks new) = _
  rw [advance_conforming hconf hc, Finmap.lookup_insert]

/-- **Rows of the NIP-RS form are remembered by the watermark**, in every run. -/
theorem marked_run (h : EverStored before row) (hconf : row.conforming = true) :
    Marked (applyAll before) row := by
  induction before using List.reverseRecOn generalizing row with
  | nil => exact (not_everStored_nil h).elim
  | append_singleton before op ih =>
    rw [applyAll_concat]
    -- what was marked stays marked
    have hold : ∀ old, EverStored before old → old.conforming = true →
        Marked (op.apply (applyAll before)) old := by
      intro old hold hoconf
      have hm := ih hold hoconf
      cases op with
      | replace s =>
        rcases replace_cases (applyAll before) s with hsame | ⟨new, hkey, _, hdom, haccept⟩
        · rw [hsame]
          exact hm
        · rw [haccept]
          exact hm.accept hdom
      | delete coordinate secs =>
        rw [delete_eq]
        exact hm
    rcases everStored_concat h with hstored | hnow
    · exact hold row hstored hconf
    cases op with
    | replace s =>
      rcases replace_cases (applyAll before) s with hsame | ⟨new, hkey, _, _, haccept⟩
      · rw [hsame] at hnow
        exact hold row (everStored_now hnow) hconf
      rw [haccept] at hnow
      rcases List.mem_append.mp hnow with hrow | hrow
      · obtain ⟨old, hmem, hmark⟩ := mem_retire hrow
        have hsame := sameEvent_of_mark hmark
        exact (hold old (everStored_now hmem) (hsame.conforming ▸ hconf)).congr hsame
      · rw [haccept]
        rw [List.mem_singleton.mp hrow] at hconf ⊢
        exact marked_accepted hconf
    | delete coordinate secs =>
      rcases mem_apply hnow with ⟨old, hmem, hmark⟩ | ⟨s, hop, _⟩
      · have hsame := sameEvent_of_mark hmark
        exact (hold old (everStored_now hmem) (hsame.conforming ▸ hconf)).congr hsame
      · cases hop

/-! ## Rows without a watermark -/

/-- The deletion leaves a trace of the row: it is of the NIP-RS form, or it is in the table and is
not purged. -/
def Remembered (t : Tables) (row : Row) : Prop :=
  row.conforming = true ∨ ∃ row' ∈ t.events, row'.key = row.key ∧
    (row'.deleted = true ∨ row'.meshStatus = false)

/-- A deletion that takes the live row of a coordinate leaves a trace of every row the coordinate
ever had. -/
def Remembers (before : List Op) : Op → Prop
  | .replace _ => True
  | .delete coordinate secs =>
    (∃ row ∈ (applyAll before).events, coordinate.takes secs row = true ∧ row.deleted = false) →
      ∀ row, EverStored before row → row.coordinate = some coordinate →
        Remembered (applyAll before) row

/-- A row with the same key is in the table, or a live row of the coordinate is at least as good. -/
def Kept (t : Tables) (row : Row) : Prop :=
  (∃ row' ∈ t.events, row'.key = row.key) ∨
    ∃ head ∈ t.events, head.deleted = false ∧ head.coordinate = row.coordinate ∧
      head.place ≤ row.place

theorem coordinate_key (s : Submission) : s.coordinate.key = s.call.key := rfl

/-- A live row of the coordinate is not beaten by what the head is not beaten by. -/
theorem dominates_of_live {head : Row} (hmem : head ∈ t.events) (hlive : head.deleted = false)
    (hc : head.coordinate = some s.coordinate) (hle : head.place ≤ row.place) :
    t.dominates s.call.key row = true := by
  have hin : head ∈ t.liveOf s.call.key := by
    refine Tables.mem_liveOf.mpr ⟨hmem, ?_, hlive⟩
    rw [← coordinate_key]
    exact covers_iff.mpr hc
  rw [Tables.dominates, Bool.or_eq_true, Tables.existing]
  refine .inl ?_
  cases hbest : (t.liveOf s.call.key).argmin Row.place with
  | none =>
    rw [List.argmin_eq_none.mp hbest] at hin
    cases hin
  | some best =>
    have hmin : best.place ≤ head.place := List.le_of_mem_argmin hin hbest
    exact dominatedBy_iff.mpr (le_trans hmin hle)

/-- A row is still there after the rows of another coordinate, or the live ones of its own, are
retired. -/
theorem retire_keeps (s : Submission) (h : row ∈ t.events) :
    (row ∈ (t.retire s.call).events ∨ row.markDeleted ∈ (t.retire s.call).events) ∨
      (row.deleted = false ∧ row.coordinate = some s.coordinate) := by
  by_cases hlive : (s.call.key.covers row && !row.deleted) = true
  · rw [Bool.and_eq_true, Bool.not_eq_true', ← coordinate_key] at hlive
    exact .inr ⟨hlive.2, covers_iff.mp hlive.1⟩
  refine .inl (.inl ?_)
  rw [Tables.retire]
  split
  · refine List.mem_filter.mpr ⟨h, ?_⟩
    rw [Bool.not_eq_true']
    exact Bool.eq_false_iff.mpr hlive
  · exact List.mem_filterMap.mpr ⟨row, h, by rw [Tables.softDeleteRow, if_neg hlive]⟩

/-- A live row of another coordinate is left alone. -/
theorem retire_keeps_live (h : row ∈ t.events) (hc : row.coordinate ≠ some s.coordinate) :
    row ∈ (t.retire s.call).events := by
  have hcov : ¬(s.call.key.covers row && !row.deleted) = true := by
    intro hboth
    rw [Bool.and_eq_true, ← coordinate_key] at hboth
    exact hc (covers_iff.mp hboth.1)
  rw [Tables.retire]
  split
  · refine List.mem_filter.mpr ⟨h, ?_⟩
    rw [Bool.not_eq_true']
    exact Bool.eq_false_iff.mpr hcov
  · exact List.mem_filterMap.mpr ⟨row, h, by rw [Tables.softDeleteRow, if_neg hcov]⟩

theorem coordinate_of_row (h : s.call.row = some row) : row.coordinate = some s.coordinate := by
  obtain ⟨createdAt, _, rfl⟩ := Option.map_eq_some_iff.mp h
  rfl

/-- What an accepted row does to the others. -/
theorem kept_accept {new : Row} {h : new.key ∉ (t.retire s.call).events.map Row.key}
    (hnew : s.call.row = some new)
    (hdom : t.dominates s.call.key new = false)
    (hkeys : ∀ row' ∈ t.events, row'.key = row.key → SameEvent row' row)
    (hk : Kept t row) : Kept ((t.retire s.call).accept new h) row := by
  have hin : new ∈ ((t.retire s.call).accept new h).events :=
    List.mem_append_right _ (List.mem_singleton_self new)
  -- a live row of the coordinate that was at least as good as `row` was beaten by the new one
  have hbeaten : ∀ head ∈ t.events, head.deleted = false → head.coordinate = some s.coordinate →
      head.coordinate = row.coordinate → head.place ≤ row.place →
        Kept ((t.retire s.call).accept new h) row := by
    intro head hmem hlive hc hsame hle
    have hlt : ¬head.place ≤ new.place := by
      intro hge
      rw [dominates_of_live hmem hlive hc hge] at hdom
      cases hdom
    refine .inr ⟨new, hin, Call.row_live hnew, ?_, le_of_lt (lt_of_lt_of_le (lt_of_not_ge hlt) hle)⟩
    rw [coordinate_of_row hnew, ← hc, hsame]
  rcases hk with ⟨row', hmem, hkey⟩ | ⟨head, hmem, hlive, hc, hle⟩
  · rcases retire_keeps s hmem with (hkept | hkept) | ⟨hlive, hc⟩
    · exact .inl ⟨row', List.mem_append_left _ hkept, hkey⟩
    · exact .inl ⟨row'.markDeleted, List.mem_append_left _ hkept, hkey⟩
    · have hsame := hkeys row' hmem hkey
      exact hbeaten row' hmem hlive hc hsame.coordinate (le_of_eq hsame.place)
  · by_cases hcoord : head.coordinate = some s.coordinate
    · exact hbeaten head hmem hlive hcoord hc hle
    · exact .inr ⟨head, List.mem_append_left _ (retire_keeps_live hmem hcoord), hlive, hc, hle⟩

/-- What a soft delete leaves of a row that it does not purge. -/
theorem softDelete_keeps {hit : Row → Bool} (h : row ∈ t.events)
    (hkeep : row.deleted = true ∨ hit row = false ∨ row.purged = false) :
    ∃ row' ∈ (t.softDelete hit).events, row'.key = row.key := by
  by_cases hhit : (hit row && !row.deleted) = true
  · have hpurged : row.purged = false := by
      rw [Bool.and_eq_true, Bool.not_eq_true'] at hhit
      rcases hkeep with hdel | hout | hpurged
      · rw [hdel] at hhit
        exact Bool.noConfusion hhit.2
      · rw [hout] at hhit
        exact Bool.noConfusion hhit.1
      · exact hpurged
    refine ⟨row.markDeleted, List.mem_filterMap.mpr ⟨row, h, ?_⟩, Row.markDeleted_key row⟩
    rw [Tables.softDeleteRow, if_pos hhit, if_neg (Bool.eq_false_iff.mp hpurged)]
  · exact ⟨row, List.mem_filterMap.mpr ⟨row, h, by rw [Tables.softDeleteRow, if_neg hhit]⟩, rfl⟩

theorem takes_coordinate {secs : Int} (h : coordinate.takes secs row = true) :
    row.coordinate = some coordinate := by
  rw [Coordinate.takes, Bool.and_eq_true] at h
  exact covers_iff.mp h.1

/-- What a deletion that remembers does to the rows. -/
theorem kept_delete {secs : Int} (signed : Signed before)
    (hsafe : Remembers before (.delete coordinate secs))
    (hstored : EverStored before row) (hconf : row.conforming = false)
    (hk : Kept (applyAll before) row) :
    Kept ((Op.delete coordinate secs).apply (applyAll before)) row := by
  by_cases htaken : ∃ row ∈ (applyAll before).events, coordinate.takes secs row = true ∧
    row.deleted = false
  · rw [delete_eq]
    by_cases hc : row.coordinate = some coordinate
    · rcases hsafe htaken row hstored hc with hconf' | ⟨row', hmem, hkey, htrace⟩
      · rw [hconf] at hconf'
        cases hconf'
      · have hsame := sameEvent_of_key signed (everStored_now hmem) hstored hkey
        obtain ⟨row'', hmem'', hkey''⟩ := @softDelete_keeps _ _ (coordinate.takes secs) hmem (by
          rcases htrace with hdel | hmesh
          · exact .inl hdel
          · refine .inr (.inr ?_)
            rw [Row.purged, hsame.conforming, hconf, hmesh]
            rfl)
        exact .inl ⟨row'', hmem'', hkey''.trans hkey⟩
    · have hmiss : ∀ r : Row, r.coordinate = row.coordinate → coordinate.takes secs r = false := by
        intro r hr
        rw [Bool.eq_false_iff]
        intro htakes
        exact hc (hr.symm.trans (takes_coordinate htakes))
      rcases hk with ⟨row', hmem, hkey⟩ | ⟨head, hmem, hlive, hcoord, hle⟩
      · have hsame := sameEvent_of_key signed (everStored_now hmem) hstored hkey
        obtain ⟨row'', hmem'', hkey''⟩ :=
          @softDelete_keeps _ _ (coordinate.takes secs) hmem
            (.inr (.inl (hmiss row' hsame.coordinate)))
        exact .inl ⟨row'', hmem'', hkey''.trans hkey⟩
      · refine .inr ⟨head, List.mem_filterMap.mpr ⟨head, hmem, ?_⟩, hlive, hcoord, hle⟩
        rw [Tables.softDeleteRow, hmiss head hcoord]
        rfl
  · rw [delete_eq, softDelete_of_none_hit]
    · exact hk
    · intro r hr htakes
      by_contra hlive
      exact htaken ⟨r, hr, htakes, Bool.eq_false_iff.mpr hlive⟩

/-- **Rows of every other form are kept**, in runs whose deletions remember. -/
theorem kept_run (signed : Signed before)
    (hsafe : ∀ earlier op, earlier ++ [op] <+: before → Remembers earlier op)
    (h : EverStored before row) (hconf : row.conforming = false) : Kept (applyAll before) row := by
  induction before using List.reverseRecOn generalizing row with
  | nil => exact (not_everStored_nil h).elim
  | append_singleton before op ih =>
    have signed' := signed.mono fun op' h => List.mem_append_left [op] h
    have hsafe' : ∀ earlier op, earlier ++ [op] <+: before → Remembers earlier op :=
      fun earlier op' hle =>
      hsafe earlier op' (hle.trans (List.prefix_append before [op]))
    rcases everStored_concat h with hold | hnow
    · have hk := ih signed' hsafe' hold hconf
      rw [applyAll_concat]
      cases op with
      | replace s =>
        rcases replace_cases (applyAll before) s with hsame | ⟨new, hkey, hnew, hdom, haccept⟩
        · rw [hsame]
          exact hk
        rw [haccept]
        refine kept_accept hnew hdom ?_ hk
        intro row' hmem hkey'
        exact sameEvent_of_key signed' (everStored_now hmem) hold hkey'
      | delete coordinate secs =>
          exact kept_delete signed' (hsafe before _ List.prefix_rfl) hold hconf hk
    · rw [applyAll_concat]
      exact .inl ⟨row, hnow, rfl⟩

/-! ## No event comes back -/

/-- Rows of one event have one primary key. -/
theorem key_of_submissions (signed : Signed ops) {s s' : Submission} {r r' : Row}
    (hs : .replace s ∈ ops)
    (hs' : .replace s' ∈ ops) (hr : s.call.row = some r) (hr' : s'.call.row = some r')
    (hcommunity : r.communityId = r'.communityId) (hid : r.id = r'.id) : r.key = r'.key := by
  obtain ⟨createdAt, hts, rfl⟩ := Option.map_eq_some_iff.mp hr
  obtain ⟨createdAt', hts', rfl⟩ := Option.map_eq_some_iff.mp hr'
  obtain ⟨hevent, _⟩ := signed s s' hs hs' hcommunity hid
  have hts : DateTime.fromTimestamp (asI64 s.event.createdAt) = some createdAt := hts
  have hts' : DateTime.fromTimestamp (asI64 s'.event.createdAt) = some createdAt' := hts'
  rw [hevent, hts'] at hts
  rw [Row.key, Row.key, Row.stamp, Row.stamp, hcommunity, hid]
  have hat : createdAt = createdAt' := (Option.some.inj hts).symm
  subst hat
  rfl

theorem key_of_id (signed : Signed before) (ha : EverStored before a) (hb : EverStored before b)
    (hcommunity : a.communityId = b.communityId) (hid : a.id = b.id) : a.key = b.key := by
  obtain ⟨s, hs, r, hr, hmark⟩ := ha.submitted
  obtain ⟨s', hs', r', hr', hmark'⟩ := hb.submitted
  rw [key_of_mark hmark, key_of_mark hmark']
  refine key_of_submissions signed hs hs' hr hr' ?_ ?_
  · rcases hmark with rfl | rfl <;> rcases hmark' with rfl | rfl <;> exact hcommunity
  · rcases hmark with rfl | rfl <;> rcases hmark' with rfl | rfl <;> exact hid

/-- What a submission that meets a trace of its row changes: nothing. -/
theorem refused_again {old : Row} (signed : Signed (before ++ [.replace s]))
    (hstored : EverStored before old) (hnew : s.call.row = some row) (hkey : row.key = old.key)
    (hkept : old.conforming = false → Kept (applyAll before) old) :
    (Op.replace s).apply (applyAll before) = applyAll before := by
  have hlast := List.mem_append_right before (List.mem_singleton_self (Op.replace s))
  obtain ⟨s', hs', r, hr, hmark⟩ := hstored.submitted
  have hsame : SameEvent row old :=
    (sameEvent_of_submissions signed hlast (List.mem_append_left _ hs') hnew hr
      (hkey.trans (key_of_mark hmark))).trans (sameEvent_of_mark hmark).symm
  rcases replace_cases (applyAll before) s with hunchanged | ⟨new, hfree, hnew', hdom, _⟩
  · exact hunchanged
  rw [hnew] at hnew'
  rw [← Option.some.inj hnew'] at hfree hdom
  by_cases hconf : row.conforming = true
  · have hm := (marked_run hstored (hsame.conforming ▸ hconf)).congr hsame
    rw [hm.dominates hconf] at hdom
    cases hdom
  have hconf := Bool.eq_false_iff.mpr hconf
  rcases hkept (hsame.conforming ▸ hconf) with ⟨row', hmem, hkey'⟩ | ⟨head, hmem, hlive, hc, hle⟩
  · have hsame' : SameEvent row' row :=
      (sameEvent_of_key (signed.mono fun _ h =>
        List.mem_append_left _ h) (everStored_now hmem) hstored hkey').trans hsame.symm
    rcases retire_keeps s hmem with (hin | hin) | ⟨hlive, hc⟩
    · exact absurd (List.mem_map.mpr ⟨row', hin, hkey'.trans hkey.symm⟩) hfree
    · exact absurd (List.mem_map.mpr ⟨row'.markDeleted, hin, hkey'.trans hkey.symm⟩) hfree
    · rw [dominates_of_live hmem hlive hc (le_of_eq hsame'.place)] at hdom
      cases hdom
  · have hcoord : head.coordinate = some s.coordinate := by
      rw [hc, ← hsame.coordinate, coordinate_of_row hnew]
    rw [dominates_of_live hmem hlive hcoord (le_trans hle (le_of_eq hsame.place.symm))] at hdom
    cases hdom

/-- What is live after an operation was live before, or it was submitted now. -/
theorem live_apply {communityId : CommunityId} {id : EventId}
    (h : (op.apply t).Live communityId id) :
    t.Live communityId id ∨ ∃ s row, op = .replace s ∧ s.call.row = some row ∧
      row.communityId = communityId ∧ row.id = id := by
  obtain ⟨row, hrow, hcommunity, hid, hlive⟩ := h
  rcases mem_apply hrow with ⟨old, hold, rfl | rfl⟩ | ⟨s, hop, hnew⟩
  · exact .inl ⟨row, hold, hcommunity, hid, hlive⟩
  · cases hlive
  · exact .inr ⟨s, row, hop, hnew, hcommunity, hid⟩

/-- **Runs whose deletions remember bring nothing back.** -/
theorem noResurrection_of_remembers (signed : Signed ops)
    (hsafe : ∀ before op, before ++ [op] <+: ops → Remembers before op) : NoResurrection ops := by
  intro first second third hfirst hsecond hthird communityId id hlive hgone
  induction third using List.reverseRecOn with
  | nil =>
    rw [← List.prefix_nil.mp hsecond]
    exact hgone
  | append_singleton third op ih =>
    rcases List.prefix_concat_iff.mp hsecond with rfl | hle
    · exact hgone
    have hthird' : third <+: ops := (List.prefix_append third [op]).trans hthird
    have hnot := ih hle hthird'
    rw [applyAll_concat]
    intro hback
    rcases live_apply hback with hold | ⟨s, row, rfl, hnew, hcommunity, hid⟩
    · exact hnot hold
    have signed' := signed.mono fun op h => hthird.subset h
    obtain ⟨old, hold, hcommunity', hid', _⟩ := hlive
    have hstored : EverStored third old := ⟨first, hfirst.trans hle, hold⟩
    obtain ⟨s', hs', r, hr, hmark⟩ := hstored.submitted
    have hkey : row.key = old.key := by
      rw [key_of_mark hmark]
      refine key_of_submissions signed' (List.mem_append_right third (List.mem_singleton_self _))
        (List.mem_append_left _ hs') hnew hr ?_ ?_
      · rw [hcommunity, ← hcommunity']
        rcases hmark with rfl | rfl <;> rfl
      · rw [hid, ← hid']
        rcases hmark with rfl | rfl <;> rfl
    have hsame := refused_again signed' hstored hnew hkey fun hconf =>
      kept_run (signed'.mono fun _ h => List.mem_append_left _ h)
        (fun earlier op hle => hsafe earlier op (hle.trans hthird')) hstored hconf
    rw [hsame] at hback
    exact hnot hback

/-! ## What a deletion that does not remember leaves open -/

/-- A coordinate has one live row. -/
theorem live_unique (ha : a ∈ (applyAll ops).events) (hb : b ∈ (applyAll ops).events)
    (hla : a.deleted = false) (hlb : b.deleted = false) (hca : a.coordinate = some coordinate)
    (hcb : b.coordinate = some coordinate) : a = b := by
  induction ops using List.reverseRecOn generalizing a b coordinate with
  | nil => cases ha
  | append_singleton ops op ih =>
    rw [applyAll_concat] at ha hb
    cases op with
    | replace s =>
      rcases replace_cases (applyAll ops) s with hsame | ⟨new, hkey, hnew, _, haccept⟩
      · rw [hsame] at ha hb
        exact ih ha hb hla hlb hca hcb
      rw [haccept] at ha hb
      -- the live rows of the new row's coordinate were retired
      have hretired : ∀ r ∈ ((applyAll ops).retire s.call).events, r.deleted = false →
          r.coordinate ≠ new.coordinate := by
        intro r hr hlive hc
        have hnone := liveOf_retire_self (applyAll ops) s.call
        have hin : r ∈ ((applyAll ops).retire s.call).liveOf s.call.key := by
          refine Tables.mem_liveOf.mpr ⟨hr, ?_, hlive⟩
          rw [← coordinate_key]
          exact covers_iff.mpr (hc.trans (coordinate_of_row hnew))
        rw [hnone] at hin
        cases hin
      have hold : ∀ r ∈ ((applyAll ops).retire s.call).events, r.deleted = false →
          r ∈ (applyAll ops).events := by
        intro r hr hlive
        obtain ⟨old, hmem, rfl | rfl⟩ := mem_retire hr
        · exact hmem
        · cases hlive
      rcases List.mem_append.mp ha with ha | ha <;> rcases List.mem_append.mp hb with hb | hb
      · exact ih (hold a ha hla) (hold b hb hlb) hla hlb hca hcb
      · rw [List.mem_singleton.mp hb] at hcb
        exact absurd (hca.trans hcb.symm) (hretired a ha hla)
      · rw [List.mem_singleton.mp ha] at hca
        exact absurd (hcb.trans hca.symm) (hretired b hb hlb)
      · rw [List.mem_singleton.mp ha, List.mem_singleton.mp hb]
    | delete coordinate' secs =>
      have hold : ∀ r, r ∈ ((Op.delete coordinate' secs).apply (applyAll ops)).events →
          r.deleted = false → r ∈ (applyAll ops).events := by
        intro r hr hlive
        rcases mem_apply hr with ⟨old, hmem, rfl | rfl⟩ | ⟨s, hop, _⟩
        · exact hmem
        · cases hlive
        · cases hop
      exact ih (hold a ha hla) (hold b hb hlb) hla hlb hca hcb

/-- A row that was stored was live once. -/
theorem EverStored.live (h : EverStored before row) :
    ∃ earlier, earlier <+: before ∧ (applyAll earlier).Live row.communityId row.id := by
  induction before using List.reverseRecOn generalizing row with
  | nil => exact (not_everStored_nil h).elim
  | append_singleton before op ih =>
    have hold : ∀ old, EverStored before old →
        ∃ earlier, earlier <+: before ++ [op] ∧ (applyAll earlier).Live old.communityId old.id := by
      intro old hold
      obtain ⟨earlier, hearlier, hlive⟩ := ih hold
      exact ⟨earlier, hearlier.trans (List.prefix_append before [op]), hlive⟩
    rcases everStored_concat h with hstored | hnow
    · exact hold row hstored
    rcases mem_apply hnow with ⟨old, hmem, hmark⟩ | ⟨s, rfl, hnew⟩
    · have hrest := hold old (everStored_now hmem)
      rcases hmark with rfl | rfl <;> exact hrest
    · refine ⟨before ++ [.replace s], List.prefix_rfl, row, ?_, rfl, rfl, Call.row_live hnew⟩
      rw [applyAll_concat]
      exact hnow

/-- A submission that nothing stands against is accepted. -/
theorem accepted_of_free (hnew : s.call.row = some row) (hconf : row.conforming = false)
    (hnone : t.liveOf s.call.key = []) (hfree : ∀ row' ∈ t.events, row'.key ≠ row.key) :
    row ∈ ((Op.replace s).apply t).events := by
  have hdom : t.dominates s.call.key row = false := by
    rw [Tables.dominates, watermarkOf_not_conforming hconf, Tables.existing_eq_none.mpr hnone]
    rfl
  have hkey : row.key ∉ (t.retire s.call).events.map Row.key := by
    intro hin
    obtain ⟨row', hrow', heq⟩ := List.mem_map.mp hin
    obtain ⟨old, hold, hmark⟩ := mem_retire hrow'
    exact hfree old hold ((key_of_mark hmark).symm.trans heq)
  show row ∈ (s.call.submit t).events
  rw [Call.submit, apply_of_row hnew, if_neg (Bool.eq_false_iff.mp hdom), Call.finish, dif_neg hkey]
  exact List.mem_append_right _ (List.mem_singleton_self row)

/-- **After a deletion that does not remember, an earlier submission brings its event back.** -/
theorem replayed_of_not_remembers (signed : Signed before) (hforgets : ¬Remembers before op) :
    ∃ s, .replace s ∈ before ∧ ¬NoResurrection (before ++ [op] ++ [.replace s]) := by
  cases op with
  | replace s => exact absurd trivial hforgets
  | delete coordinate secs =>
    rw [Remembers] at hforgets
    push Not at hforgets
    obtain ⟨⟨head, hhead, htakes, hlive⟩, row, hstored, hcoord, hforgotten⟩ := hforgets
    rw [Remembered] at hforgotten
    push Not at hforgotten
    obtain ⟨hconf, hgone⟩ := hforgotten
    have hconf := Bool.eq_false_iff.mpr hconf
    obtain ⟨s, hs, r, hr, hmark⟩ := hstored.submitted
    have hsame := sameEvent_of_mark hmark
    have hscoord : s.coordinate = coordinate := by
      have hrc := coordinate_of_row hr
      rw [← hsame.coordinate, hcoord] at hrc
      exact (Option.some.inj hrc).symm
    have ht' : applyAll (before ++ [.delete coordinate secs]) =
        (applyAll before).softDelete (coordinate.takes secs) := by
      rw [applyAll_concat, delete_eq]
    -- the deletion takes the live row of the coordinate
    have htaken : ∀ old ∈ (applyAll before).events, old.deleted = false →
        old.coordinate = some coordinate → old = head := by
      intro old hold hlo hco
      exact live_unique hold hhead hlo hlive hco (takes_coordinate htakes)
    have hnone : ((applyAll before).softDelete (coordinate.takes secs)).liveOf s.call.key = [] := by
      rw [Tables.liveOf_softDelete, List.filter_eq_nil_iff]
      intro old hold
      obtain ⟨hmem, hcov, hlo⟩ := Tables.mem_liveOf.mp hold
      rw [← coordinate_key, hscoord] at hcov
      rw [htaken old hmem hlo (covers_iff.mp hcov), htakes]
      exact Bool.false_ne_true
    -- and no row of the event is left
    have hfree : ∀ row' ∈ ((applyAll before).softDelete (coordinate.takes secs)).events,
        row'.key ≠ r.key := by
      intro row' hrow' hkey
      obtain ⟨old, hold, hsoft⟩ := List.mem_filterMap.mp hrow'
      have hkey' : old.key = row.key := by
        rw [← Tables.softDeleteRow_key hsoft, hkey, key_of_mark hmark]
      obtain ⟨hlo, hmesh⟩ := hgone old hold hkey'
      have hlo := Bool.eq_false_iff.mpr hlo
      have hmesh : old.meshStatus = true := by simpa using hmesh
      have hold' := sameEvent_of_key signed (everStored_now hold) hstored hkey'
      have hoc : old.coordinate = some coordinate := hold'.coordinate.trans hcoord
      have heq := htaken old hold hlo hoc
      rw [Tables.softDeleteRow, heq, htakes, hlive, ← heq, Row.purged, hmesh, Bool.or_true] at hsoft
      cases hsoft
    refine ⟨s, hs, ?_⟩
    intro hno
    obtain ⟨earlier, hearlier, hbefore⟩ := hstored.live
    have hids : r.communityId = row.communityId ∧ r.id = row.id := by
      rcases hmark with rfl | rfl <;> exact ⟨rfl, rfl⟩
    refine hno earlier (before ++ [.delete coordinate secs]) _
      (hearlier.trans (List.prefix_append _ _))
      (List.prefix_append _ _) List.prefix_rfl row.communityId row.id hbefore ?_ ?_
    · rintro ⟨row', hrow', hcommunity, hid, _⟩
      have hnow := hrow'
      rw [ht'] at hrow'
      have hstored' := hstored.mono (List.prefix_append before [.delete coordinate secs])
      have hkey := key_of_id (signed.concat_delete coordinate secs)
          (everStored_now hnow) hstored' hcommunity hid
      exact hfree row' hrow' (hkey.trans (key_of_mark hmark))
    · rw [applyAll_concat, ht']
      refine ⟨r, ?_, hids.1, hids.2, Call.row_live hr⟩
      exact accepted_of_free hr (hsame.conforming ▸ hconf) hnone hfree

/-- **When nothing comes back.** A run keeps every event away that was live once and is not any
more, whatever earlier submissions are repeated at any point of it, exactly when every deletion that
takes the live row of a coordinate leaves a trace of every row the coordinate ever had. -/
theorem resists_replays_iff (signed : Signed ops) :
    ResistsReplays ops ↔ ∀ before op, before ++ [op] <+: ops → Remembers before op := by
  constructor
  · intro hresists before op hle
    by_contra hforgets
    have signed' := signed.mono fun _ h => hle.subset h
    obtain ⟨s, hs, hback⟩ :=
      replayed_of_not_remembers (signed'.mono fun _ h => List.mem_append_left [op] h) hforgets
    refine hback (hresists (before ++ [op]) [.replace s] hle ?_)
    intro op' hop'
    exact ⟨s, List.mem_singleton.mp hop', List.mem_singleton.mp hop' ▸ List.mem_append_left [op] hs⟩
  · intro hsafe before replays hle hreplays
    refine noResurrection_of_remembers ?_ ?_
    · refine signed.mono fun op hop => hle.subset ?_
      rcases List.mem_append.mp hop with h | h
      · exact h
      · obtain ⟨s, _, hin⟩ := hreplays op h
        exact hin
    · intro earlier op hprefix
      rcases List.prefix_or_prefix_of_prefix hprefix (List.prefix_append before replays) with h | h
      · exact hsafe earlier op (h.trans hle)
      rcases List.prefix_concat_iff.mp h with rfl | h
      · exact hsafe earlier op hle
      -- a replay deletes nothing
      obtain ⟨more, rfl⟩ := h
      rw [List.append_assoc, List.prefix_append_right_inj] at hprefix
      have hmem : op ∈ replays :=
        hprefix.subset (List.mem_append_right more (List.mem_singleton_self op))
      obtain ⟨s, rfl, _⟩ := hreplays op hmem
      trivial

/-! ## A deletion that leaves a trace -/

/-- Two versions of an article, and the deletion of its coordinate. -/
def articles : List Op :=
  let community : CommunityId := ⟨.ofNat 16 1⟩
  let version (id createdAt : Nat) : Op :=
    .replace ⟨community, ⟨.ofNat 32 id, FixedBytes.ofNat 32 7, createdAt, 30023,
      [⟨["d", "a"], by simp⟩]⟩, "a", none⟩
  [version 1 10, version 2 55, .delete ⟨community, 30023, FixedBytes.ofNat 32 7, "a"⟩ 60]

theorem signed_articles : Signed articles := by
  intro s s' hs hs' _ hid
  simp only [articles, List.mem_cons, Op.replace.injEq, reduceCtorEq, List.not_mem_nil,
    or_false] at hs hs'
  have hne : FixedBytes.ofNat 32 1 ≠ FixedBytes.ofNat 32 2 := by decide
  rcases hs with rfl | rfl <;> rcases hs' with rfl | rfl <;>
    first
    | exact ⟨rfl, rfl⟩
    | exact absurd hid hne
    | exact absurd hid.symm hne

/-- The deleted article does not come back, whatever is sent again. -/
theorem resists_replays_iff_heartbeats : ResistsReplays articles := by
  refine (resists_replays_iff signed_articles).mpr ?_
  intro before op hle
  cases op with
  | replace s => trivial
  | delete coordinate secs =>
    have hbefore : before = articles.take 2 := by
      obtain ⟨later, hlater⟩ := hle
      rcases before with _ | ⟨a, _ | ⟨b, _ | ⟨c, before⟩⟩⟩
      · simp [articles] at hlater
      · simp [articles] at hlater
      · simp only [articles, List.cons_append, List.nil_append, List.cons.injEq] at hlater
        obtain ⟨rfl, rfl, -⟩ := hlater
        rfl
      · simp [articles] at hlater
    rintro - row ⟨earlier, hearlier, hrow⟩ -
    rw [hbefore] at hearlier ⊢
    have hall : ∀ earlier ∈ (articles.take 2).inits, ∀ row ∈ (applyAll earlier).events,
        ∃ row' ∈ (applyAll (articles.take 2)).events, row'.key = row.key ∧
          (row'.deleted = true ∨ row'.meshStatus = false) := by
      decide
    exact .inr (hall earlier ((List.mem_inits _ _).mpr hearlier) row hrow)

/-! ## A mesh-status event that comes back -/

/-- Two heartbeats of one member, a deletion of the coordinate, and the first heartbeat again. -/
def meshReplay : List Op :=
  let community : CommunityId := ⟨.ofNat 16 1⟩
  let dTag := "buzz-mesh-member-status:m"
  let heartbeat (id createdAt : Nat) : Op :=
    .replace ⟨community, ⟨.ofNat 32 id, FixedBytes.ofNat 32 7, createdAt, 30003,
      [⟨["d", dTag], by simp⟩, ⟨["k", "buzz-mesh-status"], by simp⟩]⟩, dTag, none⟩
  [heartbeat 1 10, heartbeat 2 55, .delete ⟨community, 30003, FixedBytes.ofNat 32 7, dTag⟩ 60,
    heartbeat 1 10]

theorem signed_meshReplay : Signed meshReplay := by
  intro s s' hs hs' _ hid
  simp only [meshReplay, List.mem_cons, Op.replace.injEq, reduceCtorEq, List.not_mem_nil, or_false,
    false_or] at hs hs'
  have hne : FixedBytes.ofNat 32 1 ≠ FixedBytes.ofNat 32 2 := by decide
  rcases hs with rfl | rfl | rfl <;> rcases hs' with rfl | rfl | rfl <;>
    first
    | exact ⟨rfl, rfl⟩
    | exact absurd hid hne
    | exact absurd hid.symm hne

/-- A deleted heartbeat comes back when it is sent again. -/
theorem not_noResurrection : ¬∀ ops, Signed ops → NoResurrection ops := by
  intro h
  have hback := h meshReplay signed_meshReplay (meshReplay.take 1)
      (meshReplay.take 3) meshReplay (by decide)
    (List.take_prefix 3 meshReplay) List.prefix_rfl ⟨FixedBytes.ofNat 16 1⟩ (FixedBytes.ofNat 32 1)
  exact hback (by decide) (by decide) (by decide)

end Pkzz.Db.Replace
