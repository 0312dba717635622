import Pkzz.Audit.Isolation

/-!
# Tampering with a chain

Someone with access to the table deletes rows, renumbers them, changes their fields, moves
them from one community to another, and leaves the stored hashes as they are.
`verify_chain` walks over the range it is asked for and compares each row with the one
before it. So it sees every hole and every change of what is hashed (`verifyChain_ok_iff`).

The first row of a range is compared with nothing. Rows may be missing in front of it, and
also behind the last row: what is left is consistent in itself.
-/

namespace Pkzz.Audit

open Pkzz.Core Pkzz.Lib

variable {sha256 : List UInt8 → FixedBytes 32} {log t : AuditLog} {c : Uuid} {fromSeq toSeq : Int64}
  {r o : AuditRow}

/-- Every hash in the rows of the community is one that was written. -/
def HashesKept (log t : AuditLog) (c : Uuid) : Prop := ∀ r ∈ t.of c, ∃ o ∈ log.rows, o.hash = r.hash

/-- No two entries of the tables, before and after, have different preimages with one digest. -/
def NoCollision (sha256 : List UInt8 → FixedBytes 32) (log t : AuditLog) : Prop :=
  ∀ o ∈ log.rows, ∀ r ∈ t.rows, ∀ e e', rowToAuditEntry o = .ok e → rowToAuditEntry r = .ok e' →
    e.computeHash sha256 = e'.computeHash sha256 → e.preimage = e'.preimage

/-- The two rows read as entries that are related. -/
def ReadAs (R : AuditEntry → AuditEntry → Prop) (o r : AuditRow) : Prop :=
  ∃ e e', rowToAuditEntry o = .ok e ∧ rowToAuditEntry r = .ok e' ∧ R e e'

/-- The rows of a range that pass for a part of the chain. -/
structure PassesFor (log : AuditLog) (c : Uuid) (rows : List AuditRow) : Prop where
  nonempty : rows ≠ []
  /-- Nothing is missing between two rows. -/
  noHoles : ∀ a ∈ rows, ∀ b ∈ rows, ∀ o ∈ log.of c, a.seq.toInt ≤ o.seq.toInt →
    o.seq.toInt ≤ b.seq.toInt → ∃ r ∈ rows, r.seq = o.seq
  /-- The first row is hashed like the one written with its number. -/
  first : ∀ r, rows.head? = some r → ∃ o ∈ log.of c, o.seq = r.seq ∧ o.hash = r.hash
    ∧ ReadAs (fun e e' => e.preimage = e'.preimage) o r
  /-- The other rows agree with theirs, unless the preimage confuses the two. -/
  others : ∀ r ∈ rows.tail, ∃ o ∈ log.of c, o.seq = r.seq ∧ o.hash = r.hash
    ∧ ReadAs (fun e e' => Agree e e' ∨ Confused e e') o r

/-! ## The rows that are selected -/

theorem pairwise_seq_of (t : AuditLog) (c : Uuid) :
    (t.of c).Pairwise fun a b => a.seq.toInt ≠ b.seq.toInt := by
  refine ((t.keys.sublist List.filter_sublist).imp_of_mem ?_)
  intro a b ha hb hfree hseq
  have hcommunity := (AuditLog.mem_of.mp ha).2.trans (AuditLog.mem_of.mp hb).2.symm
  exact hfree ⟨hcommunity, .inl (Int64.toInt_inj.mp hseq)⟩

theorem pairwise_select (t : AuditLog) (c : Uuid) (fromSeq toSeq : Int64) :
    (t.select c fromSeq toSeq).Pairwise fun a b => a.seq.toInt < b.seq.toInt := by
  have hle : (t.select c fromSeq toSeq).Pairwise fun a b => a.seq.toInt ≤ b.seq.toInt :=
    List.pairwise_insertionSort _ _
  have hne : (t.select c fromSeq toSeq).Pairwise fun a b => a.seq.toInt ≠ b.seq.toInt := by
    have hperm := List.perm_insertionSort (fun a b : AuditRow => a.seq.toInt ≤ b.seq.toInt)
      ((t.of c).filter fun r => fromSeq.toInt ≤ r.seq.toInt && r.seq.toInt ≤ toSeq.toInt)
    exact (hperm.pairwise_iff fun h =>
      Ne.symm h).mpr ((pairwise_seq_of t c).sublist List.filter_sublist)
  refine (hle.and hne).imp ?_
  intro a b h
  obtain ⟨hab, hab'⟩ := h
  omega

variable {rows : List AuditRow}

/-- A row that lies between two neighbours is the second one. -/
theorem eq_next (h : rows.Pairwise fun a b => a.seq.toInt < b.seq.toInt) {i : Nat}
    (hi : i + 1 < rows.length) (hr : r ∈ rows) (hlo : rows[i].seq.toInt < r.seq.toInt)
    (hhi : r.seq.toInt ≤ rows[i + 1].seq.toInt) : r = rows[i + 1] := by
  obtain ⟨j, hj, rfl⟩ := List.mem_iff_getElem.mp hr
  have hmono := List.pairwise_iff_getElem.mp h
  have hij : i < j := by
    by_contra hle
    rcases Nat.lt_or_eq_of_le (Nat.le_of_not_lt hle) with hlt | heq
    · have := hmono j i hj (by omega) hlt
      omega
    · subst heq
      omega
  have hji : j ≤ i + 1 := by
    by_contra hlt
    have := hmono (i + 1) j hi hj (by omega)
    omega
  have heq : j = i + 1 := by omega
  subst heq
  rfl

/-! ## Where a row comes from -/

theorem hash_length (h : r.Sound sha256) : r.hash.length = 32 := by
  obtain ⟨e, he, hhash⟩ := h
  rw [← (rowToAuditEntry_ok he).2.2.1, ← hhash]
  exact FixedBytes.length_eq _

/-- A sound row with a hash that was written is hashed like the row written with its number. -/
theorem origin (hchain : ∀ d, IsChain sha256 (log.of d)) (hkept : HashesKept log t c)
    (hsha : NoCollision sha256 log t) (hr : r ∈ t.of c) (hsound : r.Sound sha256) :
    ∃ o ∈ log.of c, o.seq = r.seq ∧ o.hash = r.hash
      ∧ ReadAs (fun e e' => e.preimage = e'.preimage) o r := by
  obtain ⟨o, ho, hhash⟩ := hkept r hr
  obtain ⟨e, he, hehash⟩ := (hchain o.communityId).sound o (AuditLog.mem_of.mpr ⟨ho, rfl⟩)
  obtain ⟨e', he', hehash'⟩ := hsound
  obtain ⟨hrows, hc⟩ := AuditLog.mem_of.mp hr
  obtain ⟨hcommunity, hseq, hstored, _⟩ := rowToAuditEntry_ok he
  obtain ⟨hcommunity', hseq', hstored', _⟩ := rowToAuditEntry_ok he'
  have hdigest : e.computeHash sha256 = e'.computeHash sha256 := by
    refine FixedBytes.ext ?_
    rw [hehash, hehash', hstored, hstored', hhash]
  have hpre := hsha o ho r hrows e e' he he' hdigest
  obtain ⟨hfrontCommunity, hfrontSeq⟩ := preimage_front hpre
  have hoc : o.communityId = c := by
    rw [← hcommunity, hfrontCommunity, hcommunity', hc]
  have hos : o.seq = r.seq := by
    rw [← hseq, hfrontSeq, hseq']
  exact ⟨o, AuditLog.mem_of.mpr ⟨ho, hoc⟩, hos, hhash, e, e', he, he', hpre⟩

/-- Rows with one preimage that both carry a hash of 32 octets carry the same one. -/
theorem prevHash_eq {p q : List UInt8} (hp : o.prevHash = some p) (hplen : p.length = 32)
    (hq : r.prevHash = some q) (hqlen : q.length = 32)
    (hread : ReadAs (fun e e' => e.preimage = e'.preimage) o r) : p = q := by
  obtain ⟨e, e', he, he', hpre⟩ := hread
  have hep := (rowToAuditEntry_ok he).2.2.2.trans hp
  have heq := (rowToAuditEntry_ok he').2.2.2.trans hq
  have hparts := (preimage_parts (by rw [hep]; exact hplen) (by rw [heq]; exact hqlen) hpre).2.1
  rw [hep, heq] at hparts
  exact hparts

/-- The row after another one in the table comes from the row after that one in the chain. -/
theorem follows_select (hchain : ∀ d, IsChain sha256 (log.of d)) (hkept : HashesKept log t c)
    (hsha : NoCollision sha256 log t)
    (hsound : ∀ r ∈ t.select c fromSeq toSeq, r.Sound sha256)
    (hlinks : (t.select c fromSeq toSeq).IsChain
      (HashChain.LinksTo AuditRow.hash AuditRow.prevHash)) :
    (t.select c fromSeq toSeq).IsChain AuditRow.Follows := by
  refine HashChain.follows_of_matched (hchain c).follows ?_ hlinks
    (pairwise_select t c fromSeq toSeq) ?_
  · intro a ha b hb hab
    exact AuditLog.eq_of_hash ha hb hab
  · intro r hr
    obtain ⟨o, ho, hseq, hhash, hread⟩ :=
      origin hchain hkept hsha (AuditLog.mem_select.mp hr).1 (hsound r hr)
    refine ⟨o, ho, by rw [hseq], hhash, ?_⟩
    intro d hd hdr a ha hao
    exact (prevHash_eq hao (hash_length ((hchain c).sound a ha)) hdr
      (hash_length (hsound d hd)) hread).symm

/-! ## What passes -/

theorem preimage_of_agree_or_confused {e e' : AuditEntry} (h : Agree e e' ∨ Confused e e') :
    e.preimage = e'.preimage := by
  rcases h with h | h
  · exact h.preimage_eq
  · exact h.preimage_eq

/-- Every row of such a range comes from a row of the chain. -/
theorem PassesFor.origin (h : PassesFor log c rows) (hr : r ∈ rows) :
    ∃ o ∈ log.of c, o.seq = r.seq ∧ o.hash = r.hash
      ∧ ReadAs (fun e e' => e.preimage = e'.preimage) o r := by
  cases rows with
  | nil => exact absurd hr List.not_mem_nil
  | cons x rows =>
    rcases List.mem_cons.mp hr with hr | hr
    · rw [hr]
      exact h.first x rfl
    · obtain ⟨o, ho, hseq, hhash, e, e', he, he', halike⟩ := h.others r hr
      exact ⟨o, ho, hseq, hhash, e, e', he, he', preimage_of_agree_or_confused halike⟩

theorem PassesFor.sound (h : PassesFor log c rows)
    (hchain : IsChain sha256 (log.of c)) (hr : r ∈ rows) : r.Sound sha256 := by
  obtain ⟨o, ho, _, hhash, e, e', he, he', hpre⟩ := h.origin hr
  obtain ⟨e₀, he₀, hdigest⟩ := hchain.sound o ho
  have heq : e₀ = e := Except.ok.inj (he₀.symm.trans he)
  subst heq
  refine ⟨e', he', ?_⟩
  unfold AuditEntry.computeHash at hdigest ⊢
  rw [← hpre, hdigest, (rowToAuditEntry_ok he).2.2.1, (rowToAuditEntry_ok he').2.2.1, hhash]

theorem PassesFor.links (h : PassesFor log c rows)
    (hchain : IsChain sha256 (log.of c))
    (hsorted : rows.Pairwise fun a b => a.seq.toInt < b.seq.toInt) :
    rows.IsChain (HashChain.LinksTo AuditRow.hash AuditRow.prevHash) := by
  refine List.isChain_iff_getElem.mpr ?_
  intro i hi
  have hlt := List.pairwise_iff_getElem.mp hsorted i (i + 1) (by omega) hi (by omega)
  have hmem : rows[i] ∈ rows := List.getElem_mem _
  have hmem' : rows[i + 1] ∈ rows := List.getElem_mem _
  have htail : rows[i + 1] ∈ rows.tail := by
    rw [← List.getElem_tail (by rw [List.length_tail]; omega)]
    exact List.getElem_mem _
  obtain ⟨o, ho, hseq, hhash, _⟩ := h.origin hmem
  obtain ⟨o', ho', hseq', _, e, e', he, he', halike⟩ := h.others _ htail
  have hprev : rows[i + 1].prevHash = o'.prevHash := by
    rw [← (rowToAuditEntry_ok he).2.2.2, ← (rowToAuditEntry_ok he').2.2.2]
    rcases halike with halike | halike
    · exact halike.prevHash.symm
    · exact halike.prevHash.symm
  rw [← hseq, ← hseq'] at hlt
  rcases HashChain.head_or_follows hchain.follows ho' with hhead | ⟨a, ha, haseq, halink⟩
  · have hle := HashChain.head_le hchain.follows hhead ho
    omega
  have haseq : o'.seq.toInt = a.seq.toInt + 1 := haseq
  have ha' : a = o := by
    refine HashChain.eq_of_seq hchain.follows ha ho ?_
    by_contra hne
    -- the row with the number of `a` would lie between two neighbours
    have hlo : rows[i].seq.toInt < a.seq.toInt := by
      rw [← hseq]
      omega
    have hhi : a.seq.toInt ≤ rows[i + 1].seq.toInt := by
      rw [← hseq']
      omega
    obtain ⟨b, hb, hbseq⟩ := h.noHoles _ hmem _ hmem' a ha (Int.le_of_lt hlo) hhi
    rw [← hbseq] at hlo hhi
    have hnext := eq_next hsorted hi hb hlo hhi
    rw [← hbseq, hnext, ← hseq'] at haseq
    omega
  unfold HashChain.LinksTo at halink ⊢
  rw [hprev, halink, ha', hhash]

/-- The rows of a range that verifies pass for a part of the chain. -/
theorem passesFor_of_verified (hchain : ∀ d, IsChain sha256 (log.of d)) (hkept : HashesKept log t c)
    (hsha : NoCollision sha256 log t) (h : verifyChain sha256 t c fromSeq toSeq = .ok true) :
    PassesFor log c (t.select c fromSeq toSeq) := by
  obtain ⟨hnonempty, hsound, hlinks⟩ := verifyChain_iff.mp h
  have hfollows := follows_select hchain hkept hsha hsound hlinks
  have horigin : ∀ r ∈ t.select c fromSeq toSeq, ∃ o ∈ log.of c, o.seq = r.seq ∧ o.hash = r.hash
      ∧ ReadAs (fun e e' => e.preimage = e'.preimage) o r := fun r hr =>
    origin hchain hkept hsha (AuditLog.mem_select.mp hr).1 (hsound r hr)
  refine ⟨hnonempty, ?_, ?_, ?_⟩
  · intro a ha b hb o ho hao hob
    obtain ⟨r, hr, hseq⟩ := HashChain.exists_between hfollows ha hb hao hob
    exact ⟨r, hr, Int64.toInt_inj.mp hseq⟩
  · intro r hr
    exact horigin r (List.mem_of_head? hr)
  · intro r hr
    have hmem := List.mem_of_mem_tail hr
    obtain ⟨o, ho, hseq, hhash, hread⟩ := horigin r hmem
    refine ⟨o, ho, hseq, hhash, ?_⟩
    -- the row before it, here and in the chain
    obtain ⟨d, hd, hdseq, hdlink⟩ : ∃ d ∈ t.select c fromSeq toSeq, d.Follows r := by
      rcases HashChain.head_or_follows hfollows hmem with hhead | hd
      · obtain ⟨l, hl⟩ := List.head?_eq_some_iff.mp hhead
        rw [hl, List.tail_cons] at hr
        have hsorted := pairwise_select t c fromSeq toSeq
        rw [hl] at hsorted
        exact absurd ((List.pairwise_cons.mp hsorted).1 r hr) (Int.lt_irrefl _)
      · exact hd
    obtain ⟨od, hod, hodseq, _, _⟩ := horigin d hd
    obtain ⟨a, ha, _, halink⟩ : ∃ a ∈ log.of c, a.Follows o := by
      rcases HashChain.head_or_follows (hchain c).follows ho with hhead | ha
      · have hle := HashChain.head_le (hchain c).follows hhead hod
        dsimp only at hdseq
        rw [hseq, hodseq] at hle
        omega
      · exact ha
    have halen := hash_length ((hchain c).sound a ha)
    have hsame := prevHash_eq halink halen hdlink (hash_length (hsound d hd)) hread
    obtain ⟨e, e', he, he', hpre⟩ := hread
    have hprev : e.prevHash = some a.hash := (rowToAuditEntry_ok he).2.2.2.trans halink
    have hprev' : e'.prevHash = some a.hash := by
      rw [(rowToAuditEntry_ok he').2.2.2, hsame]
      exact hdlink
    exact ⟨e, e', he, he',
      agree_or_confused (hprev.trans hprev'.symm) (by rw [hprev]; exact halen) hpre⟩

/-- **A range of a tampered table verifies exactly if its rows pass for a part of the chain.** -/
theorem verifyChain_ok_iff {cols : Columns} {lockKey : Uuid → Int64} (hcols : cols.Faithful)
    {ops : List AppendOp} {w : Appends}
    (h : (appends sha256 cols lockKey).run Appends.init ops = some w)
    (hkept : HashesKept w.log t c) (hsha : NoCollision sha256 w.log t) :
    verifyChain sha256 t c fromSeq toSeq = .ok true ↔
      PassesFor w.log c (t.select c fromSeq toSeq) := by
  have hchain := (Appends.inv_run hcols h).chain
  constructor
  · intro hverified
    exact passesFor_of_verified hchain hkept hsha hverified
  · intro hpasses
    refine verifyChain_iff.mpr ⟨hpasses.nonempty, fun r hr => hpasses.sound (hchain c) hr, ?_⟩
    exact hpasses.links (hchain c) (pairwise_select t c fromSeq toSeq)

/-! ## A chain without its first row -/

/-- A row is gone, and a later one is still there. -/
def Deleted (log t : AuditLog) (c : Uuid) : Prop :=
  ∃ o ∈ log.of c, (∀ r ∈ t.of c, r.hash ≠ o.hash) ∧ ∃ r ∈ t.of c, o.seq.toInt < r.seq.toInt

def Renumbered (log t : AuditLog) (c : Uuid) : Prop :=
  ∃ r ∈ t.of c, ∃ o ∈ log.of c, o.hash = r.hash ∧ o.seq ≠ r.seq

def Changed (log t : AuditLog) (c : Uuid) : Prop :=
  ∃ r ∈ t.of c, ∃ o ∈ log.of c, o.hash = r.hash ∧ ReadAs (fun e e' => ¬ Agree e e') o r

def exampleFirst : AuditRow := exampleRow 1 none

def exampleSecond : AuditRow := exampleRow 1 (some (1, exampleFirst.hash))

def exampleChain : AuditLog where
  rows := [exampleFirst, exampleSecond]
  keys := by decide
  fits := by decide

def exampleCut : AuditLog where
  rows := [exampleSecond]
  keys := List.pairwise_singleton _ _
  fits := by decide

theorem exampleChain_run : ∃ w, (appends exampleSha256 exampleColumns fun _ => 0).run Appends.init
    (exampleLog 1 0 ++ exampleLog 1 1) = some w ∧ w.log = exampleChain := ⟨_, rfl, rfl⟩

theorem exampleCut_hashesKept : HashesKept exampleChain exampleCut (exampleCommunity 1) := by
  intro r hr
  exact ⟨r, List.mem_cons_of_mem _ (AuditLog.mem_of.mp hr).1, rfl⟩

theorem exampleCut_noCollision : NoCollision exampleSha256 exampleChain exampleCut := by
  intro o ho r hr e e' he he' hdigest
  rw [List.mem_singleton.mp hr] at he'
  rcases List.mem_cons.mp ho with ho | ho
  · rw [ho] at he
    rw [← Except.ok.inj he, ← Except.ok.inj he'] at hdigest
    exact absurd hdigest (by decide)
  · rw [List.mem_singleton.mp ho] at he
    rw [Except.ok.inj (he.symm.trans he')]

theorem exampleCut_verifies :
    verifyChain exampleSha256 exampleCut (exampleCommunity 1) 1 2 = .ok true := by
  have hselect : exampleCut.select (exampleCommunity 1) 1 2 = [exampleSecond] := rfl
  rw [verifyChain_iff, hselect]
  refine ⟨List.cons_ne_nil _ _, ?_, List.isChain_singleton _⟩
  intro r hr
  rw [List.mem_singleton.mp hr]
  exact nextEntry_sound exampleColumns_faithful _ _ _

/-- The second row of a chain passes for a part of it. -/
theorem verifyChain_ok_iff_cut :
    PassesFor exampleChain (exampleCommunity 1) (exampleCut.select (exampleCommunity 1) 1 2) := by
  obtain ⟨w, hw, hlog⟩ := exampleChain_run
  rw [← hlog]
  refine (verifyChain_ok_iff exampleColumns_faithful hw ?_ ?_).mp exampleCut_verifies
  · rw [hlog]
    exact exampleCut_hashesKept
  · rw [hlog]
    exact exampleCut_noCollision

/-- The first row is gone, and nothing tells. -/
theorem not_verifyChain_detects : ¬ ∀ (sha256 : List UInt8 → FixedBytes 32) (cols : Columns)
    (lockKey : Uuid → Int64) (ops : List AppendOp) (w : Appends) (t : AuditLog) (c : Uuid)
    (n : Int64), cols.Faithful → (appends sha256 cols lockKey).run Appends.init ops = some w →
    HashesKept w.log t c → NoCollision sha256 w.log t → (∀ r ∈ t.of c, r.seq.toInt ≤ n.toInt) →
    (Deleted w.log t c ∨ Renumbered w.log t c ∨ Changed w.log t c) →
    verifyChain sha256 t c 1 n ≠ .ok true := by
  intro hall
  obtain ⟨w, hw, hlog⟩ := exampleChain_run
  have hdetected := hall _ _ _ _ w exampleCut (exampleCommunity 1) 2 exampleColumns_faithful hw
  rw [hlog] at hdetected
  refine hdetected exampleCut_hashesKept exampleCut_noCollision ?_ (.inl ?_) exampleCut_verifies
  · decide
  · have hfirst : exampleFirst ∈ exampleChain.of (exampleCommunity 1) :=
      AuditLog.mem_of.mpr ⟨List.mem_cons_self, rfl⟩
    have hsecond : exampleSecond ∈ exampleCut.of (exampleCommunity 1) :=
      AuditLog.mem_of.mpr ⟨List.mem_cons_self, rfl⟩
    exact ⟨exampleFirst, hfirst, by decide, exampleSecond, hsecond, by decide⟩

end Pkzz.Audit
