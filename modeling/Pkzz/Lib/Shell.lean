import Mathlib.Data.List.DropRight
import Mathlib.Data.List.Sort

/-!
# What a shell does to text

Octet by octet, as in the C locale: `read` in a loop, with and without `-r`, the split into
fields at blanks, `sort`, and what `$(…)` keeps of an output. Without `-r` a backslash
protects the octet after it and disappears, and one in front of a line end joins the line to
the next.
-/

namespace Pkzz.Lib.Shell

abbrev newline : UInt8 := 10
abbrev space : UInt8 := 32
abbrev backslash : UInt8 := 92

/-- An octet of a line as `read` holds it; the flag is set if a backslash protects it. -/
abbrev Mark := UInt8 × Bool

/--
The lines `read` sees in an input: `escaped` is set after a backslash, `line` is the line so
far. A last line without a line end makes `read` fail, so a loop does not see it.
-/
def scan (raw : Bool) : Bool → List Mark → List UInt8 → List (List Mark)
  | _, _, [] => []
  | true, line, b :: bs =>
    if b = newline then scan raw false line bs else scan raw false (line ++ [(b, true)]) bs
  | false, line, b :: bs =>
    if b = newline then line :: scan raw false [] bs
    else if b = backslash ∧ raw = false then scan raw true line bs
    else scan raw false (line ++ [(b, false)]) bs

/-- A field separator: one of `IFS` that no backslash protects. -/
def isSeparator (ifs : List UInt8) (m : Mark) : Bool := !m.2 && ifs.contains m.1

/--
The values of `n` variables, for an `IFS` of blanks only: the last variable takes what is
left of the line, up to the blanks at its end.
-/
def fields (ifs : List UInt8) : Nat → List Mark → List (List UInt8)
  | 0, _ => []
  | 1, line => [((line.dropWhile (isSeparator ifs)).rdropWhile (isSeparator ifs)).map Prod.fst]
  | n + 2, line =>
    let line := line.dropWhile (isSeparator ifs)
    (line.takeWhile fun m => !isSeparator ifs m).map Prod.fst
      :: fields ifs (n + 1) (line.dropWhile fun m => !isSeparator ifs m)

/-- `while IFS=ifs read x1 … xn; do … done < input`: the values of the variables, round by round. -/
def readLoop (raw : Bool) (ifs : List UInt8) (n : Nat) (input : List UInt8) :
    List (List (List UInt8)) :=
  (scan raw false [] input).map (fields ifs n)

/-- The text of a file of lines. -/
def unlines (lines : List (List UInt8)) : List UInt8 := lines.flatMap fun l => l ++ [newline]

/-- `LC_ALL=C sort`. -/
def sort (lines : List (List UInt8)) : List (List UInt8) := lines.insertionSort (· ≤ ·)

/-- `$(…)`: the output without the line ends at its end. -/
def capture (output : List UInt8) : List UInt8 := output.rdropWhile (· = newline)

/-- `sed 's/c/w/g'`. -/
def substitute (c : UInt8) (w : List UInt8) (text : List UInt8) : List UInt8 :=
  text.flatMap fun b => if b = c then w else [b]

/-! ## Lines -/

/-- What a piece of a line becomes, and whether a backslash at its end is still pending. -/
def marks (raw : Bool) : Bool → List UInt8 → List Mark × Bool
  | escaped, [] => ([], escaped)
  | true, b :: bs => ((b, true) :: (marks raw false bs).1, (marks raw false bs).2)
  | false, b :: bs =>
    if b = backslash ∧ raw = false then marks raw true bs
    else ((b, false) :: (marks raw false bs).1, (marks raw false bs).2)

theorem scan_escaped (raw : Bool) (line : List Mark) (b : UInt8) (bs : List UInt8) :
    scan raw true line (b :: bs)
      = if b = newline then scan raw false line bs else scan raw false (line ++ [(b, true)]) bs :=
        rfl

theorem scan_cons (raw : Bool) (line : List Mark) (b : UInt8) (bs : List UInt8) :
    scan raw false line (b :: bs)
      = if b = newline then line :: scan raw false [] bs
        else if b = backslash ∧ raw = false then scan raw true line bs
        else scan raw false (line ++ [(b, false)]) bs := rfl

@[simp] theorem marks_nil (raw escaped : Bool) : marks raw escaped [] = ([], escaped) := rfl

@[simp] theorem marks_escaped (raw : Bool) (b : UInt8) (bs : List UInt8) :
    marks raw true (b :: bs) = ((b, true) :: (marks raw false bs).1, (marks raw false bs).2) := rfl

theorem marks_cons (raw : Bool) (b : UInt8) (bs : List UInt8) :
    marks raw false (b :: bs)
      = if b = backslash ∧ raw = false then marks raw true bs
        else ((b, false) :: (marks raw false bs).1, (marks raw false bs).2) := rfl

theorem scan_append {raw : Bool} : ∀ (escaped : Bool) (line : List Mark) {l : List UInt8}
    (r : List UInt8), (∀ b ∈ l, b ≠ newline) →
      scan raw escaped line (l ++ r)
        = scan raw (marks raw escaped l).2 (line ++ (marks raw escaped l).1) r
  | escaped, line, [], r, _ => by simp
  | true, line, b :: l, r, h => by
    obtain ⟨hb, hl⟩ := List.forall_mem_cons.mp h
    simp [scan_escaped, if_neg hb, scan_append false _ r hl]
  | false, line, b :: l, r, h => by
    obtain ⟨hb, hl⟩ := List.forall_mem_cons.mp h
    rw [List.cons_append, scan_cons, marks_cons, if_neg hb]
    split
    · exact scan_append true line r hl
    · simp [scan_append false _ r hl]

theorem marks_append {raw : Bool} : ∀ (escaped : Bool) (l r : List UInt8),
    marks raw escaped (l ++ r)
      = ((marks raw escaped l).1 ++
        (marks raw (marks raw escaped l).2 r).1, (marks raw (marks raw escaped l).2 r).2)
  | escaped, [], r => by simp
  | true, b :: l, r => by simp [marks_append false l r]
  | false, b :: l, r => by
    rw [List.cons_append, marks_cons, marks_cons]
    split
    · exact marks_append true l r
    · simp [marks_append false l r]

/-- A loop over a file of lines, none of which a backslash joins to the next. -/
theorem scan_unlines {raw : Bool} : ∀ {lines : List (List UInt8)},
    (∀ l ∈ lines, newline ∉ l ∧ (marks raw false l).2 = false) →
      scan raw false [] (unlines lines) = lines.map fun l => (marks raw false l).1
  | [], _ => rfl
  | l :: lines, h => by
    obtain ⟨⟨hl, hp⟩, hlines⟩ := List.forall_mem_cons.mp h
    have ih := scan_unlines hlines
    have hcons : unlines (l :: lines) = l ++ newline :: unlines lines := by simp [unlines]
    rw [hcons, scan_append false [] _ fun b hb => ne_of_mem_of_not_mem hb hl, hp, scan_cons,
      if_pos rfl, ih]
    simp

/-- Text with nothing for a backslash to do is taken as it stands. -/
theorem marks_plain (raw : Bool) : ∀ {l : List UInt8}, (raw = true ∨ ∀ b ∈ l, b ≠ backslash) →
    marks raw false l = (l.map fun b => (b, false), false)
  | [], _ => rfl
  | b :: l, h => by
    have hb : ¬ (b = backslash ∧ raw = false) := by
      rintro ⟨rfl, hraw⟩
      rcases h with h | h
      · simp [hraw] at h
      · exact h backslash (by simp) rfl
    have ih := marks_plain raw
      (h.imp_right fun h c hc => h c (List.mem_cons_of_mem _ hc))
    rw [marks_cons, if_neg hb, ih]
    rfl

/-- No octet of a piece is made up. -/
theorem mem_marks {raw : Bool} : ∀ {escaped : Bool} {l : List UInt8} {m : Mark},
    m ∈ (marks raw escaped l).1 → m.1 ∈ l
  | escaped, [], m, h => by simp at h
  | true, b :: l, m, h => by
    simp only [marks_escaped, List.mem_cons] at h
    rcases h with rfl | h
    · simp
    · exact List.mem_cons_of_mem _ (mem_marks h)
  | false, b :: l, m, h => by
    rw [marks_cons] at h
    split at h
    · exact List.mem_cons_of_mem _ (mem_marks h)
    · rcases List.mem_cons.mp h with rfl | h
      · simp
      · exact List.mem_cons_of_mem _ (mem_marks h)

/-- A backslash costs an octet, the pending one at the end included. -/
theorem length_marks_le (raw : Bool) : ∀ (escaped : Bool) (l : List UInt8),
    (marks raw escaped l).1.length + (marks raw escaped l).2.toNat
      ≤ l.length + (escaped && l.isEmpty).toNat
  | escaped, [] => by cases escaped <;> simp
  | true, b :: l => by
    have ih := length_marks_le raw false l
    simp only [marks_escaped, List.length_cons, List.isEmpty_cons, Bool.and_false, Bool.false_and,
      Bool.toNat_false] at ih ⊢
    omega
  | false, b :: l => by
    rw [marks_cons]
    split
    · have ih := length_marks_le raw true l
      have hone := Bool.toNat_le (true && l.isEmpty)
      simp only [List.length_cons, Bool.false_and, Bool.toNat_false]
      omega
    · have ih := length_marks_le raw false l
      simp only [List.length_cons, Bool.false_and, Bool.toNat_false] at ih ⊢
      omega

/-- Where a backslash is gone for good, the text has become shorter. -/
theorem length_marks_lt : ∀ {l : List UInt8}, backslash ∈ l → (marks false false l).2 = false →
    (marks false false l).1.length < l.length
  | [], h, _ => by simp at h
  | b :: l, h, hp => by
    rw [marks_cons] at hp ⊢
    split at hp
    · rename_i hb
      rw [if_pos hb]
      have hle := length_marks_le false true l
      have hne : l ≠ [] := by
        rintro rfl
        simp at hp
      have hempty : l.isEmpty = false := by simpa using hne
      rw [hempty] at hle
      simp only [hp, Bool.and_false, Bool.toNat_false, List.length_cons] at hle ⊢
      omega
    · rename_i hb
      rw [if_neg hb]
      have hmem : backslash ∈ l := by
        rcases List.mem_cons.mp h with rfl | h
        · exact absurd ⟨rfl, rfl⟩ hb
        · exact h
      have ih := length_marks_lt hmem hp
      simp only [List.length_cons]
      omega

/-! ## Fields -/

theorem fields_one (ifs : List UInt8) (line : List Mark) :
    fields ifs 1 line
      = [((line.dropWhile (isSeparator ifs)).rdropWhile (isSeparator ifs)).map Prod.fst] := rfl

theorem fields_add_two (ifs : List UInt8) (n : Nat) (line : List Mark) :
    fields ifs (n + 2) line
      = ((line.dropWhile (isSeparator ifs)).takeWhile fun m => !isSeparator ifs m).map Prod.fst
        :: fields ifs (n + 1)
          ((line.dropWhile (isSeparator ifs)).dropWhile fun m => !isSeparator ifs m) := rfl

/-- Text in which nothing separates. -/
def Solid (ifs : List UInt8) (line : List Mark) : Prop := ∀ m ∈ line, isSeparator ifs m = false

variable {ifs : List UInt8}

theorem solid_map {l : List UInt8} (h : ∀ b ∈ l, b ∉ ifs) (p : Bool) :
    Solid ifs (l.map fun b => (b, p)) := by
  intro m hm
  obtain ⟨b, hb, rfl⟩ := List.mem_map.mp hm
  simp [isSeparator, h b hb]

variable {l : List Mark}

theorem solid_append {m : List Mark} (hl : Solid ifs l) (hm : Solid ifs m) :
    Solid ifs (l ++ m) := by
  intro x hx
  rcases List.mem_append.mp hx with hx | hx
  · exact hl x hx
  · exact hm x hx

theorem dropWhile_solid (r : List Mark) (h : Solid ifs l) (hne : l ≠ []) :
    (l ++ r).dropWhile (isSeparator ifs) = l ++ r := by
  cases l with
  | nil => exact absurd rfl hne
  | cons m l => simp [h m (by simp)]

/-- A field that a separator ends. -/
theorem fields_succ {n : Nat} {r : List Mark} {s : Mark} (h : Solid ifs l)
    (hne : l ≠ []) (hs : isSeparator ifs s = true) :
    fields ifs (n + 2) (l ++ s :: r) = l.map Prod.fst :: fields ifs (n + 1) (s :: r) := by
  have hall : ∀ m ∈ l, (!isSeparator ifs m) = true := fun m hm => by simp [h m hm]
  have hstop : (!isSeparator ifs s) = false := by simp [hs]
  rw [fields_add_two, dropWhile_solid (s :: r) h hne]
  rw [List.takeWhile_append_of_pos hall, List.dropWhile_append_of_pos hall,
    List.takeWhile_cons_of_neg (by simp [hs]), List.dropWhile_cons_of_neg (by simp [hs]),
    List.append_nil]

/-- Separators in front of a field are skipped. -/
theorem fields_cons {n : Nat} {s : Mark} {r : List Mark} (hs : isSeparator ifs s = true) :
    fields ifs (n + 1) (s :: r) = fields ifs (n + 1) r := by
  cases n with
  | zero => simp [fields_one, hs]
  | succ n => simp [fields_add_two, hs]

/-- The last field takes what is left. -/
theorem fields_last (h : Solid ifs l) :
    fields ifs 1 l = [l.map Prod.fst] := by
  rw [fields_one]
  cases l with
  | nil => rfl
  | cons m l =>
    have hlast : ∀ hne : m :: l ≠ [], ¬ isSeparator ifs ((m :: l).getLast hne) = true := by
      intro hne
      simp [h _ (List.getLast_mem hne)]
    rw [List.dropWhile_cons_of_neg (by simp [h m (by simp)]), List.rdropWhile_eq_self_iff.mpr hlast]

/-- A field that the end of the line ends. -/
theorem fields_succ_end {n : Nat} (h : Solid ifs l) (hne : l ≠ []) :
    fields ifs (n + 2) l = l.map Prod.fst :: fields ifs (n + 1) [] := by
  have hall : ∀ m ∈ l, (!isSeparator ifs m) = true := fun m hm => by simp [h m hm]
  have hskip := dropWhile_solid [] h hne
  rw [List.append_nil] at hskip
  rw [fields_add_two, hskip, List.takeWhile_eq_self_iff.mpr hall,
    List.dropWhile_eq_nil_iff.mpr hall]

/-- With the line used up, the remaining variables are empty. -/
theorem fields_nil (ifs : List UInt8) : fields ifs 1 [] = [[]] := by
  simp [fields_one]

/-! ## Filters -/

theorem capture_of_notMem {l : List UInt8} (h : newline ∉ l) : capture l = l := by
  refine List.rdropWhile_eq_self_iff.mpr fun hne => ?_
  have hlast := ne_of_mem_of_not_mem (List.getLast_mem hne) h
  simpa using hlast

theorem substitute_append (c : UInt8) (w l m : List UInt8) :
    substitute c w (l ++ m) = substitute c w l ++ substitute c w m := List.flatMap_append

theorem substitute_of_notMem {c : UInt8} {w l : List UInt8} (h : c ∉ l) : substitute c w l = l := by
  induction l with
  | nil => rfl
  | cons b l ih =>
    have hb : b ≠ c := fun hbc => h (by simp [hbc])
    have hl : c ∉ l := fun hc => h (List.mem_cons_of_mem _ hc)
    have ih := ih hl
    rw [substitute] at ih ⊢
    rw [List.flatMap_cons, if_neg hb, ih, List.singleton_append]

end Pkzz.Lib.Shell
