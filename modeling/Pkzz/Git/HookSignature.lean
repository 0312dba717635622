import Pkzz.Git.HookBody

/-!
# The hook signs what the relay verifies

The hook sorts lines `ref old new flag`, the relay sorts requests by ref name. A blank is
smaller than every octet of a name, so the two orders are the same, also for names that begin
with one another. What the hook prints for a line is what the relay hashes for the ref, unless
the name has a backslash: the loop that splits the sorted lines is `read` without `-r`.
-/

namespace Pkzz.Git

open Pkzz.Core Pkzz.Lib

/-! ## The order -/

variable {r : HookRefUpdate}

/-- A name is a word for the shell. -/
theorem HookRefUpdate.Accepted.word (h : r.Accepted) : Word (Str.asBytes r.refName) :=
  word_asBytes h.named h.control

theorem hmacLine_eq (r : HookRefUpdate) : hmacLine r.toHookRef
    = Str.asBytes r.refName ++ Shell.space :: (Str.asBytes r.oldOid ++ Shell.space
      :: (Str.asBytes r.newOid ++ Shell.space :: Str.asBytes (if r.isAncestor then
        "1" else "0"))) := by
  have hblank : Str.asBytes " " = [Shell.space] := by decide
  rw [hmacLine, HookRefUpdate.toHookRef, hblank]
  simp only [List.append_assoc, List.cons_append, List.nil_append]

/-- Lines of different names compare as the names do. -/
theorem hmacLine_lt {a b : HookRefUpdate} (ha : a.Accepted) (hb : b.Accepted)
    (h : a.refName < b.refName) : hmacLine a.toHookRef < hmacLine b.toHookRef := by
  rw [hmacLine_eq, hmacLine_eq]
  exact Str.append_cons_lt_append_cons (fun c hc => UInt8.lt_iff_toNat_lt.mpr (ha.word.octets c hc))
    (fun c hc => UInt8.lt_iff_toNat_lt.mpr (hb.word.octets c hc)) (Str.asBytes_lt_iff.mpr h)

/-- **Sorting the lines is sorting by name.** -/
theorem sort_hmacLine {rs : List HookRefUpdate} (h : ∀ r ∈ rs, r.Accepted)
    (hnd : (rs.map HookRefUpdate.refName).Nodup) :
    Shell.sort (rs.map fun r => hmacLine r.toHookRef)
      = (refsSorted rs).map fun r => hmacLine r.toHookRef := by
  refine (List.map_insertionSort (fun a b : HookRefUpdate => a.refName ≤ b.refName) (· ≤ ·)
    (fun r => hmacLine r.toHookRef) rs fun a ha b hb => ?_).symm
  rcases lt_trichotomy a.refName b.refName with hlt | heq | hgt
  · have hline := hmacLine_lt (h a ha) (h b hb) hlt
    exact iff_of_true hlt.le (List.not_lt.mp (List.lt_asymm hline))
  · have hab : a = b := List.inj_on_of_nodup_map hnd ha hb heq
    rw [hab]
    exact iff_of_true le_rfl (List.not_lt.mp (List.lt_irrefl _))
  · have hline := hmacLine_lt (h b hb) (h a ha) hgt
    exact iff_of_false (not_le.mpr hgt) fun hle => List.not_lt.mpr hle hline

/-! ## What the hook prints for a line -/

/-- A name as `read` without `-r` leaves it, and whether a backslash at its end is pending. -/
def readName (r : HookRefUpdate) : List UInt8 × Bool :=
  let name := Shell.marks false false (Str.asBytes r.refName)
  (name.1.map Prod.fst, name.2)

/-- A backslash at the end of the name protects the blank after it: the old id joins the name. -/
def printedRef (r : HookRefUpdate) : List UInt8 :=
  if (readName r).2 then
    printRef [(readName r).1 ++ Shell.space :: Str.asBytes r.oldOid, Str.asBytes r.newOid,
      Str.asBytes (if r.isAncestor then "1" else "0"), []]
  else
    printRef [(readName r).1, Str.asBytes r.oldOid, Str.asBytes r.newOid,
      Str.asBytes (if r.isAncestor then "1" else "0")]

theorem word_flag (b : Bool) : Word (Str.asBytes (if b then "1" else "0")) := by
  have hall : ∀ b : Bool, Str.asBytes (if b then "1" else "0") ≠ []
      ∧ ∀ x ∈ Str.asBytes (if b then "1" else "0"), 32 < x.toNat := fun b =>
    ⟨by cases b <;> decide, List.forall_iff_forall_mem.mp (by cases b <;> decide)⟩
  exact ⟨(hall b).1, (hall b).2⟩

/-- Hex digits and flags give a backslash nothing to do. -/
theorem marks_hex {s : String} (h : isHex40 s = true) :
    Shell.marks false false (Str.asBytes s) = ((Str.asBytes s).map fun b => (b, false), false) := by
  refine Shell.marks_plain false (.inr ?_)
  rintro b hb rfl
  obtain ⟨c, hc, hcb⟩ := Str.ascii_of_mem_asBytes hb (by decide)
  refine (isPlain_of_isHex40 h c hc).2.2 (Char.ext (UInt32.toNat_inj.mp ?_))
  exact hcb

theorem marks_flag (b : Bool) : Shell.marks false false (Str.asBytes (if b then "1" else "0"))
    = ((Str.asBytes (if b then "1" else "0")).map fun x => (x, false), false) := by
  have hall : ∀ b : Bool, ∀ x ∈ Str.asBytes (if b then "1" else "0"), x ≠ Shell.backslash :=
    fun b => List.forall_iff_forall_mem.mp (by cases b <;> decide)
  exact Shell.marks_plain false (.inr (hall b))

/-- The marks of a whole line: only the name and the blank after it can be affected. -/
theorem marks_hmacLine (h : r.Accepted) :
    Shell.marks false false (hmacLine r.toHookRef)
      = ((Shell.marks false false (Str.asBytes r.refName)).1
          ++ (Shell.space, (readName r).2) :: ((Str.asBytes r.oldOid).map (fun b => (b, false))
          ++ (Shell.space, false) :: ((Str.asBytes r.newOid).map (fun b => (b, false))
          ++ (Shell.space, false) :: (Str.asBytes (if r.isAncestor then "1" else "0")).map fun b =>
            (b, false))),
        false) := by
  have hspace : ∀ (p : Bool) (l : List UInt8), Shell.marks false p (Shell.space :: l)
      = ((Shell.space, p) :: (Shell.marks false false l).1, (Shell.marks false false l).2) := by
    intro p l
    have hne : Shell.space ≠ Shell.backslash := by decide
    cases p <;> simp [Shell.marks, hne]
  rw [hmacLine_eq]
  simp only [Shell.marks_append, hspace, marks_hex h.oldOid, marks_hex h.newOid,
    marks_flag, readName]

/-- The marks of a name do not separate. -/
theorem solid_readName (h : r.Accepted) :
    Shell.Solid [Shell.space] (Shell.marks false false (Str.asBytes r.refName)).1 := by
  intro m hm
  have hgt := h.word.octets m.1 (Shell.mem_marks hm)
  have hne : m.1 ≠ Shell.space := by
    intro heq
    rw [heq] at hgt
    exact absurd hgt (by decide)
  simp [Shell.isSeparator, hne]

/-- A name that leaves no backslash pending leaves something. -/
theorem marks_ne_nil {l : List UInt8} (hne : l ≠ []) (hp : (Shell.marks false false l).2 = false) :
    (Shell.marks false false l).1 ≠ [] := by
  cases l with
  | nil => exact absurd rfl hne
  | cons b l =>
    rw [Shell.marks] at hp ⊢
    split at hp
    · rename_i hb
      rw [if_pos hb]
      cases l with
      | nil => simp [Shell.marks] at hp
      | cons c l => simp [Shell.marks]
    · rename_i hb
      rw [if_neg hb]
      simp

/-- **What phase 2 prints for a line.** -/
theorem printRef_fields (h : r.Accepted) :
    printRef (Shell.fields [Shell.space] 4 (Shell.marks false false (hmacLine r.toHookRef)).1)
      = printedRef r := by
  have hold := word_of_isHex40 h.oldOid
  have hnew := word_of_isHex40 h.newOid
  have hflag := word_flag r.isAncestor
  have hifs : ∀ b ∈ [Shell.space], b.toNat ≤ 32 := List.forall_iff_forall_mem.mp (by decide)
  have hsep : Shell.isSeparator [Shell.space] (Shell.space, false) = true := by decide
  have hprotected : Shell.Solid [Shell.space] [(Shell.space, true)] := by
    intro m hm
    rw [List.mem_singleton.mp hm]
    rfl
  have hmap : ∀ w : List UInt8, (w.map fun b => (b, false)).map Prod.fst = w := fun w => by
    rw [List.map_map]
    exact List.map_id w
  rw [marks_hmacLine h, printedRef]
  generalize Str.asBytes (if r.isAncestor then "1" else "0") = flag at hflag ⊢
  cases hp : (readName r).2 with
  | false =>
    have hname := marks_ne_nil h.word.ne_nil hp
    rw [Shell.fields_succ (solid_readName h) hname hsep, Shell.fields_cons hsep,
      Shell.fields_succ (hold.solid hifs false) (by simpa using hold.ne_nil) hsep,
        Shell.fields_cons hsep,
      Shell.fields_succ (hnew.solid hifs false) (by simpa using hnew.ne_nil) hsep,
        Shell.fields_cons hsep,
      Shell.fields_last (hflag.solid hifs false), hmap, hmap, hmap]
    rfl
  | true =>
    -- name, protected blank and old id are one field
    have hjoined := Shell.solid_append (solid_readName h)
      (Shell.solid_append hprotected (hold.solid hifs false))
    have hsplit : ∀ (l : List Shell.Mark) (m : Shell.Mark) (x y : List Shell.Mark),
        l ++ m :: (x ++ y) = (l ++ ([m] ++ x)) ++ y := by simp
    rw [hsplit, Shell.fields_succ hjoined (by simp) hsep, Shell.fields_cons hsep,
      Shell.fields_succ (hnew.solid hifs false) (by simpa using hnew.ne_nil) hsep,
        Shell.fields_cons hsep,
      Shell.fields_succ_end (hflag.solid hifs false) (by simpa using hflag.ne_nil),
        Shell.fields_nil,
      List.map_append, List.map_append, hmap, hmap, hmap]
    rfl

/-- `HMAC_FILE.concat`, ref by ref in the order of the names. -/
theorem concatRefs_eq {rs : List HookRefUpdate} (h : ∀ r ∈ rs, r.Accepted)
    (hnd : (rs.map HookRefUpdate.refName).Nodup) :
    concatRefs (rs.map HookRefUpdate.toHookRef) = (refsSorted rs).flatMap printedRef := by
  have hsorted : ∀ r ∈ refsSorted rs, r.Accepted := fun r hr =>
    h r ((List.perm_insertionSort _ _).mem_iff.mp hr)
  have hlines : ∀ l ∈ (refsSorted rs).map fun r => hmacLine r.toHookRef,
      Shell.newline ∉ l ∧ (Shell.marks false false l).2 = false := by
    intro l hl
    obtain ⟨r, hr, rfl⟩ := List.mem_map.mp hl
    have hr := hsorted r hr
    have hten : Shell.newline.toNat ≤ 32 := by decide
    have hspace : Shell.newline ≠ Shell.space := by decide
    refine ⟨?_, by rw [marks_hmacLine hr]⟩
    rw [hmacLine_eq]
    simp [hr.word.notMem hten, (word_of_isHex40 hr.oldOid).notMem hten,
      (word_of_isHex40 hr.newOid).notMem hten, (word_flag r.isAncestor).notMem hten, hspace]
  rw [concatRefs, Shell.readLoop, List.map_map]
  have hsort := sort_hmacLine h hnd
  simp only [Function.comp_def] at hsort ⊢
  rw [hsort, Shell.scan_unlines hlines, List.map_map, List.map_map, List.flatMap_map]
  refine List.flatMap_congr fun r hr => ?_
  exact printRef_fields (hsorted r hr)

/-! ## Where the two agree -/

theorem mem_readName {b : UInt8} (h : b ∈ (readName r).1) : b ∈ Str.asBytes r.refName := by
  obtain ⟨m, hm, rfl⟩ := List.mem_map.mp h
  exact Shell.mem_marks hm

/-- No line end is printed, so `$(cat …)` keeps everything. -/
theorem newline_notMem_printedRef (h : r.Accepted) : Shell.newline ∉ printedRef r := by
  have hten : Shell.newline.toNat ≤ 32 := by decide
  have hspace : Shell.newline ≠ Shell.space := by decide
  have hcolon : Shell.newline ∉ Str.asBytes ":" := by decide
  have hname : Shell.newline ∉ (readName r).1 := fun hmem => h.word.notMem hten (mem_readName hmem)
  have hold := (word_of_isHex40 h.oldOid).notMem hten
  have hnew := (word_of_isHex40 h.newOid).notMem hten
  have hflag := (word_flag r.isAncestor).notMem hten
  have hdigits : ∀ n, Shell.newline ∉ Str.decimal n := by
    intro n hmem
    have hge := (Str.decimal_isDigit n _ hmem).1
    exact absurd hge (by decide)
  unfold printedRef
  generalize Str.asBytes (if r.isAncestor then "1" else "0") = flag at hflag ⊢
  split <;> simp [printRef, hname, hold, hnew, hflag, hdigits, hcolon, hspace]

/-- Without a backslash the hook prints what the relay hashes. -/
theorem printedRef_of_notMem (h : Shell.backslash ∉ Str.asBytes r.refName) :
    printedRef r = refInput r := by
  have hplain := Shell.marks_plain false (l := Str.asBytes r.refName)
    (.inr fun b hb => ne_of_mem_of_not_mem hb h)
  have hread : readName r = (Str.asBytes r.refName, false) := by
    rw [readName, hplain]
    simp only [List.map_map, Prod.mk.injEq, and_true]
    exact List.map_id _
  rw [printedRef, hread]
  rfl

/-- The octets in front of the colon of a ref. -/
def refHead (r : HookRefUpdate) : List UInt8 :=
  Str.asBytes r.oldOid ++ Str.asBytes r.newOid ++ Str.decimal (Str.len r.refName)

def printedHead (r : HookRefUpdate) : List UInt8 :=
  if (readName r).2 then
    Str.asBytes r.newOid ++ Str.asBytes (if r.isAncestor then "1" else "0")
      ++ Str.decimal ((readName r).1.length + (Str.asBytes r.oldOid).length + 1)
  else Str.asBytes r.oldOid ++ Str.asBytes r.newOid ++ Str.decimal (readName r).1.length

theorem refInput_split (r : HookRefUpdate) : ∃ post, refInput r = refHead r ++ 58 :: post := by
  have hcolon : Str.asBytes ":" = [58] := by decide
  refine ⟨Str.asBytes r.refName ++ Str.asBytes (if r.isAncestor then "1" else "0"), ?_⟩
  rw [refInput, refHead, hcolon]
  simp only [List.append_assoc, List.cons_append, List.nil_append]

theorem printedRef_split (r : HookRefUpdate) :
    ∃ post, printedRef r = printedHead r ++ 58 :: post := by
  have hcolon : Str.asBytes ":" = [58] := by decide
  unfold printedRef printedHead
  generalize Str.asBytes (if r.isAncestor then "1" else "0") = flag
  split
  · refine ⟨(readName r).1 ++ Shell.space :: Str.asBytes r.oldOid, ?_⟩
    simp [printRef, hcolon, Nat.add_assoc]
  · refine ⟨(readName r).1 ++ flag, ?_⟩
    simp [printRef, hcolon]

theorem colon_notMem_hex {s : String} (h : isHex40 s = true) : ∀ b ∈ Str.asBytes s, b ≠ 58 := by
  rintro b hb rfl
  obtain ⟨c, hc, hcb⟩ := Str.ascii_of_mem_asBytes hb (by decide)
  have hcolon : c = ':' := Char.ext (UInt32.toNat_inj.mp hcb)
  have hhex := List.all_eq_true.mp (Bool.and_eq_true_iff.mp h).2 c hc
  rw [hcolon] at hhex
  exact absurd hhex (by decide)

theorem colon_notMem_decimal (n : Nat) : ∀ b ∈ Str.decimal n, b ≠ 58 := by
  rintro b hb rfl
  have hle := (Str.decimal_isDigit n _ hb).2
  exact absurd hle (by decide)

theorem colon_notMem_refHead (h : r.Accepted) : ∀ b ∈ refHead r, b ≠ 58 := by
  intro b hb
  simp only [refHead, List.mem_append] at hb
  rcases hb with (hb | hb) | hb
  · exact colon_notMem_hex h.oldOid b hb
  · exact colon_notMem_hex h.newOid b hb
  · exact colon_notMem_decimal _ b hb

theorem colon_notMem_printedHead (h : r.Accepted) : ∀ b ∈ printedHead r, b ≠ 58 := by
  have hflag : ∀ f : Bool, ∀ b ∈ Str.asBytes (if f then "1" else "0"), b ≠ 58 :=
    fun f => List.forall_iff_forall_mem.mp (by cases f <;> decide)
  intro b hb
  unfold printedHead at hb
  split at hb <;> simp only [List.mem_append] at hb <;> rcases hb with (hb | hb) | hb
  · exact colon_notMem_hex h.newOid b hb
  · exact hflag _ b hb
  · exact colon_notMem_decimal _ b hb
  · exact colon_notMem_hex h.oldOid b hb
  · exact colon_notMem_hex h.newOid b hb
  · exact colon_notMem_decimal _ b hb

theorem length_decimal (n : Nat) : (Str.decimal n).length = (Nat.toDigits 10 n).length := by
  have hlen : Str.len n.repr = n.repr.toList.length := by
    refine Str.len_ascii fun c hc => ?_
    rw [Nat.toList_repr] at hc
    exact (Str.isDigit_of_char (isDigit_toDigits c hc)).1
  rw [Nat.toList_repr] at hlen
  exact hlen

/-- Forty more makes a number longer by two digits at most. -/
theorem length_decimal_le {m n : Nat} (h : m ≤ n + 40) :
    (Str.decimal m).length ≤ (Str.decimal n).length + 2 := by
  rw [length_decimal, length_decimal]
  have hpos := Nat.length_toDigits_pos (b := 10) (n := n)
  have hn := (Nat.length_toDigits_le_iff (by decide) hpos).mp
      (Nat.le_refl (Nat.toDigits 10 n).length)
  refine (Nat.length_toDigits_le_iff (by decide) (by omega)).mpr ?_
  have hpow : 10 ^ ((Nat.toDigits 10 n).length + 2) = 100 * 10 ^ (Nat.toDigits 10 n).length := by
    rw [Nat.pow_add]
    omega
  omega

theorem length_of_isHex40 {s : String} (h : isHex40 s = true) : (Str.asBytes s).length = 40 := by
  simpa [Str.len] using (Bool.and_eq_true_iff.mp h).1

/--
**A backslash shows in front of the first colon**: either the name has become shorter, and its
length with it, or the old id has moved into the name.
-/
theorem notMem_of_heads_eq (h : r.Accepted) (heq : printedHead r = refHead r) :
    Shell.backslash ∉ Str.asBytes r.refName := by
  intro hmem
  have hflag : ∀ f : Bool, (Str.asBytes (if f then "1" else "0")).length = 1 := by decide
  have hle := Shell.length_marks_le false false (Str.asBytes r.refName)
  have hlen : (readName r).1.length =
      (Shell.marks false false (Str.asBytes r.refName)).1.length := by
    simp [readName]
  unfold printedHead refHead at heq
  split at heq
  · rename_i hp
    have hp : (Shell.marks false false (Str.asBytes r.refName)).2 = true := hp
    rw [hp] at hle
    simp only [Bool.toNat_true, Bool.false_and, Bool.toNat_false] at hle
    have hcount := congrArg List.length heq
    simp only [List.length_append, length_of_isHex40 h.oldOid, length_of_isHex40 h.newOid,
      hflag] at hcount
    have hdigits := length_decimal_le (m := (readName r).1.length + 40 + 1) (n :=
      Str.len r.refName) (by
      rw [hlen, Str.len]
      omega)
    omega
  · rename_i hp
    have hp : (Shell.marks false false (Str.asBytes r.refName)).2 = false :=
      Bool.eq_false_iff.mpr hp
    have hlt := Shell.length_marks_lt hmem hp
    have hnum := Str.decimal_inj (List.append_cancel_left heq)
    rw [hlen, Str.len] at hnum
    omega

/-- Ref by ref, the first difference is in front of a colon. -/
theorem flatMap_printedRef_iff : ∀ {rs : List HookRefUpdate}, (∀ r ∈ rs, r.Accepted) →
    (rs.flatMap printedRef = rs.flatMap refInput ↔ ∀ r ∈ rs,
      Shell.backslash ∉ Str.asBytes r.refName)
  | [], _ => by simp
  | r :: rs, h => by
    obtain ⟨hr, hrs⟩ := List.forall_mem_cons.mp h
    have ih := flatMap_printedRef_iff hrs
    rw [List.flatMap_cons, List.flatMap_cons, List.forall_mem_cons]
    constructor
    · intro heq
      have hname : Shell.backslash ∉ Str.asBytes r.refName := by
        obtain ⟨x, hx⟩ := printedRef_split r
        obtain ⟨y, hy⟩ := refInput_split r
        rw [hx, hy, List.append_assoc, List.append_assoc, List.cons_append, List.cons_append] at heq
        exact notMem_of_heads_eq hr (SelfDelimiting.append_inj_of_stop (colon_notMem_printedHead hr)
          (colon_notMem_refHead hr) (stopsAt_cons (by simp)) (stopsAt_cons (by simp)) heq).1
      rw [printedRef_of_notMem hname] at heq
      exact ⟨hname, ih.mp (List.append_cancel_left heq)⟩
    · rintro ⟨hname, hnames⟩
      rw [printedRef_of_notMem hname, ih.mpr hnames]

/-! ## The signature -/

/-- The HMAC input string of the hook, in the order of the names. -/
theorem HookPush.hmacInput_eq {mergeBase : List UInt8 → List UInt8 → Bool}
    (mac : List UInt8 → List UInt8 → List UInt8) {p : HookPush} (hp : p.WellFormed) :
    p.hmacInput mergeBase
      = Str.decimal (Str.len p.repoId) ++ Str.asBytes ":" ++ Str.asBytes p.repoId ++ Str.asBytes "|"
        ++ Str.asBytes p.repoOwner ++ Str.asBytes "|"
        ++ Str.asBytes p.communityId ++ Str.asBytes "|"
        ++ Str.asBytes p.pusherPubkey ++ Str.asBytes "|"
        ++ (refsSorted (p.request mac mergeBase).refUpdates).flatMap printedRef
        ++ Str.asBytes "|" ++ Str.decimal p.timestamp.toNat := by
  have haccepted : ∀ r ∈ p.updates.map (PushedRef.toUpdate mergeBase), r.Accepted := by
    intro r hr
    obtain ⟨u, hu, rfl⟩ := List.mem_map.mp hr
    exact (hp.updates u hu).toUpdate
  have hnames : ((p.updates.map (PushedRef.toUpdate mergeBase)).map
      HookRefUpdate.refName).Nodup := by
    rw [List.map_map]
    exact hp.distinct
  have hconcat := concatRefs_eq haccepted hnames
  have hcapture : Shell.capture (concatRefs ((p.updates.map (PushedRef.toUpdate mergeBase)).map
      HookRefUpdate.toHookRef)) =
        (refsSorted (p.updates.map (PushedRef.toUpdate mergeBase))).flatMap printedRef := by
    rw [hconcat, Shell.capture_of_notMem]
    intro hmem
    obtain ⟨r, hr, hb⟩ := List.mem_flatMap.mp hmem
    exact newline_notMem_printedRef (haccepted r ((List.perm_insertionSort _ _).mem_iff.mp hr)) hb
  have hbranch : (if (p.updates.map (PushedRef.toUpdate mergeBase)).map HookRefUpdate.toHookRef =
      [] then [] else Shell.capture (concatRefs ((p.updates.map (PushedRef.toUpdate mergeBase)).map
        HookRefUpdate.toHookRef)))
      = (refsSorted (p.updates.map (PushedRef.toUpdate mergeBase))).flatMap printedRef := by
    split
    · rename_i hnil
      have hnil : p.updates = [] := by simpa using hnil
      rw [hnil]
      rfl
    · exact hcapture
  rw [HookPush.hmacInput, readRefs_receivePackInput hp.updates, scriptHmacInput, hbranch]
  rfl

/-- The two strings agree exactly if no name has a backslash. -/
theorem HookPush.hmacInput_eq_iff (mac : List UInt8 → List UInt8 → List UInt8)
    (mergeBase : List UInt8 → List UInt8 → Bool) {p : HookPush} (hp : p.WellFormed) :
    p.hmacInput mergeBase = Git.hmacInput (p.request mac mergeBase)
      ↔ ∀ u ∈ p.updates, '\\' ∉ u.refName.toList := by
  have haccepted : ∀ r ∈ refsSorted (p.request mac mergeBase).refUpdates, r.Accepted := by
    intro r hr
    obtain ⟨u, hu, rfl⟩ := List.mem_map.mp ((List.perm_insertionSort _ _).mem_iff.mp hr)
    exact (hp.updates u hu).toUpdate
  have hnames : (∀ r ∈ refsSorted (p.request mac mergeBase).refUpdates,
      Shell.backslash ∉ Str.asBytes r.refName) ↔ ∀ u ∈ p.updates, '\\' ∉ u.refName.toList := by
    have hslash : ∀ s : String, '\\' ∈ s.toList ↔ Shell.backslash ∈ Str.asBytes s :=
      fun s => Str.mem_toList_iff (c := '\\') (by decide)
    simp only [refsSorted, List.mem_insertionSort, HookPush.request, List.forall_mem_map, hslash,
      PushedRef.toUpdate]
  rw [HookPush.hmacInput_eq mac hp, Git.hmacInput, ← hnames, ← flatMap_printedRef_iff haccepted]
  refine ⟨fun h => ?_, fun h => by rw [h]; rfl⟩
  exact List.append_cancel_left (List.append_cancel_right (List.append_cancel_right h))

/-- Where they agree, the signature passes. -/
theorem HookPush.verifyHmac_request (mac : List UInt8 → List UInt8 → List UInt8)
    (mergeBase : List UInt8 → List UInt8 → Bool) {p : HookPush}
    (h : p.hmacInput mergeBase = Git.hmacInput (p.request mac mergeBase)) :
    verifyHmac mac p.hookSecret (p.request mac mergeBase) = true := by
  have hsigned : decodeHex (p.request mac mergeBase).signature.toList
      = some (mac p.hookSecret (p.hmacInput mergeBase)) := by
    simp only [HookPush.request, HookPush.signature, scriptSignature, String.toList_ofList,
      decodeHex_hexByte]
    rfl
  rw [verifyHmac, hsigned, h]
  simp [computeHmac]

/--
**Hook and relay agree unless a name has a backslash.** The relay reads a request from the
body, and the string the hook signs is the one the relay hashes for it exactly if no ref name
has a backslash; the signature then passes, whatever the MAC.
-/
theorem HookPush.signature_agrees_iff {num : List Char → Option JsonNumber}
    (hnum : ∀ n < UInt64.size, num n.repr.toList = some (.ofNat n))
    (mac : List UInt8 → List UInt8 → List UInt8) (mergeBase : List UInt8 → List UInt8 → Bool)
    {p : HookPush} (hp : p.WellFormed) :
    ∃ req, HookCallbackRequest.ofBody num (p.body mac mergeBase) = some req
      ∧ (p.hmacInput mergeBase = Git.hmacInput req ↔ ∀ u ∈ p.updates, '\\' ∉ u.refName.toList)
      ∧ ((∀ u ∈ p.updates, '\\' ∉ u.refName.toList) → verifyHmac mac p.hookSecret req = true) := by
  have hagree := HookPush.hmacInput_eq_iff mac mergeBase hp
  exact ⟨_, HookPush.ofBody_body hnum mac mergeBase hp, hagree,
    fun h => HookPush.verifyHmac_request mac mergeBase (hagree.mpr h)⟩

/-- A push that creates branches. -/
def createPush (names : List String) : HookPush where
  repoId := "a\"b"
  repoOwner := "aaaaaaaaaaaaaaaaaaaaaaaaaaaaaaaaaaaaaaaaaaaaaaaaaaaaaaaaaaaaaaaa"
  communityId := "00000000-0000-0000-0000-000000000001"
  pusherPubkey := "bbbbbbbbbbbbbbbbbbbbbbbbbbbbbbbbbbbbbbbbbbbbbbbbbbbbbbbbbbbbbbbb"
  hookSecret := [1, 2, 3]
  updates := names.map fun n => ⟨zeroOid, "cccccccccccccccccccccccccccccccccccccccc", n⟩
  timestamp := 1700000000

theorem createPush_wellFormed {n : List String} (hnd : n.Nodup)
    (h : ∀ s ∈ n, s ≠ "" ∧ ∀ b ∈ Str.asBytes s, ¬ (b ≤ 0x20 ∨ b = 0x7f)) :
    (createPush n).WellFormed where
  repoId := by
    have hall : (createPush n).repoId.toList.all (fun c => decide (32 ≤ c.toNat)) = true := by
      simp only [createPush]
      decide
    exact fun c hc => of_decide_eq_true (List.all_eq_true.mp hall c hc)
  repoOwner := by simp only [createPush]; decide
  communityId := isUuidText_of_exampleParseUuid (u :=
    .ofNat 16 1) (by simp only [createPush]; decide)
  pusherPubkey := by simp only [createPush]; decide
  updates := by
    intro u hu
    obtain ⟨s, hs, rfl⟩ := List.mem_map.mp hu
    exact ⟨by dsimp only; decide, by dsimp only; decide, (h s hs).1, (h s hs).2⟩
  distinct := by
    rw [createPush, List.map_map]
    simpa [Function.comp_def] using hnd

/-- A reader of plain unsigned integers. -/
def readUnsigned (l : List Char) : Option JsonNumber :=
  let n := Nat.ofDigitChars 10 l 0
  if n.repr.toList = l then some (.ofNat n) else none

theorem readUnsigned_repr (n : Nat) : readUnsigned n.repr.toList = some (.ofNat n) := by
  have hval : Nat.ofDigitChars 10 n.repr.toList 0 = n := by
    rw [Nat.toList_repr, Nat.ofDigitChars_ten_toDigits]
  simp only [readUnsigned, hval, if_true]

/-- One name begins with the other. -/
theorem HookPush.signature_agrees_iff_prefix :
    ∃ req, HookCallbackRequest.ofBody readUnsigned
        ((createPush ["refs/heads/a-b", "refs/heads/a"]).body (fun k m => k ++ m) (fun _ _ =>
          false)) = some req
      ∧ verifyHmac (fun k m => k ++ m) [1, 2, 3] req = true := by
  obtain ⟨req, hreq, _, hverify⟩ := HookPush.signature_agrees_iff (fun n _ => readUnsigned_repr n)
    (fun k m => k ++ m) (fun _ _ => false)
    (createPush_wellFormed (n := ["refs/heads/a-b", "refs/heads/a"]) (by decide)
      (List.forall_iff_forall_mem.mp ⟨⟨by decide, List.forall_iff_forall_mem.mp (by decide)⟩,
        by decide, List.forall_iff_forall_mem.mp (by decide)⟩))
  exact ⟨req, hreq, hverify (by decide)⟩

/-- `refs/heads/a\b`: the hook signs `refs/heads/ab`, and the push is turned away. -/
theorem HookPush.not_signature_agrees :
    (createPush ["refs/heads/a\\b"]).WellFormed
      ∧ ¬ ∃ req, HookCallbackRequest.ofBody readUnsigned
            ((createPush ["refs/heads/a\\b"]).body (fun k m => k ++ m) (fun _ _ => false)) =
              some req
          ∧ (createPush ["refs/heads/a\\b"]).hmacInput (fun _ _ => false) = Git.hmacInput req := by
  have hp := createPush_wellFormed (n := ["refs/heads/a\\b"]) (by decide)
    (List.forall_iff_forall_mem.mp ⟨by decide, List.forall_iff_forall_mem.mp (by decide)⟩)
  refine ⟨hp, ?_⟩
  rintro ⟨req, hreq, heq⟩
  rw [HookPush.ofBody_body (fun n _ => readUnsigned_repr n) _ _ hp] at hreq
  rw [← Option.some.inj hreq, HookPush.hmacInput_eq_iff _ _ hp] at heq
  exact absurd heq (by decide)

end Pkzz.Git
