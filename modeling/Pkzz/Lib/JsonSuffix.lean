import Mathlib.Tactic.SplitIfs
import Pkzz.Lib.Json

/-!
# When one JSON text ends with another

A text delimits itself towards its end, but not towards its beginning: `12` ends with `2`,
and a string ends with the text of another one when the part that is cut off stops right
before an escaped quote. These are the only two ways (`text_eq_append_iff`).

For the rest the last character decides the kind of value. That an array or an object ends
with no other one is shown with a scanner that counts open brackets outside strings. A
text that is cut outside a string still has a bracket to close when its end is reached.
One that is cut inside a string is read with strings and gaps exchanged from there on, so
it would have to end inside a string.
-/

namespace Pkzz.Lib

namespace Json

/-! ## No control characters -/

theorem escapeChar_printable (c : Char) : ∀ e ∈ escapeChar c, 32 ≤ e.toNat := by
  have hvalues : shortEscapes.all (fun p => decide (32 ≤ p.2.toNat)) = true := by decide
  have hdigit : ∀ n < 16, 32 ≤ (Nat.digitChar n).toNat := by decide
  intro e he
  unfold escapeChar at he
  cases hs : shortEscape c with
  | some x =>
    rw [hs] at he
    simp only [List.mem_cons, List.not_mem_nil, or_false] at he
    rcases he with he | he
    · rw [he]
      decide
    · rw [he]
      exact of_decide_eq_true (List.all_eq_true.mp hvalues _ (mem_shortEscapes hs))
  | none =>
    rw [hs] at he
    by_cases hlt : c.toNat < 32
    · simp only [if_pos hlt, List.mem_cons, List.not_mem_nil, or_false] at he
      rcases he with he | he | he | he | he | he <;> rw [he]
      · decide
      · decide
      · decide
      · decide
      · exact hdigit _ (by omega)
      · exact hdigit _ (by omega)
    · simp only [if_neg hlt] at he
      rw [List.mem_singleton.mp he]
      exact Nat.le_of_not_lt hlt

theorem quote_printable (s : String) : ∀ e ∈ quote s, 32 ≤ e.toNat := by
  intro e he
  unfold quote at he
  rcases List.mem_cons.mp he with he | he
  · rw [he]
    decide
  rcases List.mem_append.mp he with he | he
  · obtain ⟨c, _, hec⟩ := List.mem_flatMap.mp he
    exact escapeChar_printable c e hec
  · rw [List.mem_singleton.mp he]
    decide

variable {c : Char}

theorem isNumberChar_printable (h : isNumberChar c = true) : 32 ≤ c.toNat := by
  simp only [isNumberChar, Char.isDigit, ge_iff_le, Bool.or_eq_true, Bool.and_eq_true,
    decide_eq_true_eq, beq_iff_eq] at h
  rcases h with ((((⟨h, _⟩ | h) | h) | h) | h) | h
  · have h48 : 48 ≤ c.toNat := UInt32.le_iff_toNat_le.mp h
    omega
  all_goals
    rw [h]
    decide

theorem comma_printable (first : Bool) : ∀ e ∈ comma first, 32 ≤ e.toNat := by
  intro e he
  cases first with
  | true => cases he
  | false =>
    rw [List.mem_singleton.mp he]
    decide

mutual

/-- The text of a value has no control character. -/
theorem text_printable : ∀ (v : Json), ∀ e ∈ text v, 32 ≤ e.toNat
  | .null => by
    rw [text]
    exact fun e he => of_decide_eq_true (List.all_eq_true.mp (show ['n', 'u', 'l', 'l'].all
      (fun e => decide (32 ≤ e.toNat)) = true by decide) e he)
  | .bool true => by
    rw [text]
    exact fun e he => of_decide_eq_true (List.all_eq_true.mp (show ['t', 'r', 'u', 'e'].all
      (fun e => decide (32 ≤ e.toNat)) = true by decide) e he)
  | .bool false => by
    rw [text]
    exact fun e he => of_decide_eq_true (List.all_eq_true.mp (show ['f', 'a', 'l', 's', 'e'].all
      (fun e => decide (32 ≤ e.toNat)) = true by decide) e he)
  | .num n => by
    rw [text]
    exact fun e he => isNumberChar_printable (n.alphabet e he)
  | .str s => by
    rw [text]
    exact quote_printable s
  | .arr items => by
    rw [text]
    intro e he
    rcases List.mem_cons.mp he with he | he
    · rw [he]
      decide
    rcases List.mem_append.mp he with he | he
    · exact itemsText_printable true items e he
    · rw [List.mem_singleton.mp he]
      decide
  | .obj fields => by
    rw [text]
    intro e he
    rcases List.mem_cons.mp he with he | he
    · rw [he]
      decide
    rcases List.mem_append.mp he with he | he
    · exact fieldsText_printable true fields e he
    · rw [List.mem_singleton.mp he]
      decide

theorem itemsText_printable : ∀ (first : Bool) (vs : List Json),
    ∀ e ∈ itemsText first vs, 32 ≤ e.toNat
  | _, [] => by
    rw [itemsText]
    exact fun e he => absurd he List.not_mem_nil
  | first, v :: vs => by
    rw [itemsText]
    intro e he
    rcases List.mem_append.mp he with he | he
    · exact comma_printable first e he
    rcases List.mem_append.mp he with he | he
    · exact text_printable v e he
    · exact itemsText_printable false vs e he

theorem fieldsText_printable : ∀ (first : Bool) (fs : List (String × Json)),
    ∀ e ∈ fieldsText first fs, 32 ≤ e.toNat
  | _, [] => by
    rw [fieldsText]
    exact fun e he => absurd he List.not_mem_nil
  | first, (key, v) :: fs => by
    rw [fieldsText]
    intro e he
    rcases List.mem_append.mp he with he | he
    · exact comma_printable first e he
    rcases List.mem_append.mp he with he | he
    · exact quote_printable key e he
    rcases List.mem_cons.mp he with he | he
    · rw [he]
      decide
    rcases List.mem_append.mp he with he | he
    · exact text_printable v e he
    · exact fieldsText_printable false fs e he

end

/-! ## Strings -/

/-- A quote stands in escaped text only behind the backslash that escapes it. -/
theorem escapeChar_quote {x y : List Char} (h : escapeChar c = x ++ '"' :: y) :
    c = '"' ∧ x = ['\\'] ∧ y = [] := by
  have hdigit : ∀ n < 16, Nat.digitChar n ≠ '"' := by decide
  rcases escapeChar_cases c with ⟨e, he, hc⟩ | ⟨hlt, hc⟩ | ⟨_, hq, hc⟩
  · rw [hc] at h
    match x, h with
    | [], h => exact absurd (List.cons.inj h).1 (by decide)
    | [b], h =>
      simp only [List.cons_append, List.nil_append, List.cons.injEq] at h
      rw [h.2.1] at he
      exact ⟨shortEscape_inj he shortEscape_quote, by rw [← h.1], h.2.2.symm⟩
    | _ :: _ :: _, h => simp at h
  · have hmem : '"' ∈ escapeChar c := by
      rw [h]
      simp
    rw [hc] at hmem
    simp only [List.mem_cons, List.not_mem_nil, or_false] at hmem
    rcases hmem with hm | hm | hm | hm | hm | hm
    · exact absurd hm (by decide)
    · exact absurd hm (by decide)
    · exact absurd hm (by decide)
    · exact absurd hm (by decide)
    · exact absurd hm.symm (hdigit _ (by omega))
    · exact absurd hm.symm (hdigit _ (by omega))
  · have hmem : '"' ∈ escapeChar c := by
      rw [h]
      simp
    rw [hc] at hmem
    exact absurd (List.mem_singleton.mp hmem).symm hq

/-- Cutting escaped text before a quote cuts the string before a quote. -/
theorem flatMap_escapeChar_quote : ∀ {s x y : List Char}, s.flatMap escapeChar = x ++ '"' :: y →
    ∃ u w, s = u ++ '"' :: w ∧ x = u.flatMap escapeChar ++ ['\\'] ∧ y = w.flatMap escapeChar
  | [], x, y, h => by simp at h
  | c :: s, x, y, h => by
    rw [List.flatMap_cons] at h
    rcases List.append_eq_append_iff.mp h with ⟨m, hx, hs⟩ | ⟨m, hc, hy⟩
    · obtain ⟨u, w, hu, hxu, hyw⟩ := flatMap_escapeChar_quote hs
      refine ⟨c :: u, w, ?_, ?_, hyw⟩
      · rw [hu, List.cons_append]
      · rw [hx, hxu, List.flatMap_cons, List.append_assoc]
    · cases m with
      | nil =>
        -- the cut falls between two characters
        rw [List.nil_append] at hy
        rw [List.append_nil] at hc
        obtain ⟨u, w, hu, hxu, hyw⟩ := @flatMap_escapeChar_quote s [] y hy.symm
        cases u with
        | nil => cases hxu
        | cons d u =>
          obtain ⟨a, l, ha, _⟩ := escapeChar_head d
          rw [List.flatMap_cons, ha] at hxu
          cases hxu
      | cons q m =>
        obtain ⟨hq, hy⟩ := List.cons.inj hy
        rw [← hq] at hc
        obtain ⟨hcq, hx, hm⟩ := escapeChar_quote hc
        refine ⟨[], s, ?_, ?_, ?_⟩
        · rw [hcq, List.nil_append]
        · rw [hx, List.flatMap_nil, List.nil_append]
        · rw [hy, hm]
          rfl

theorem flatMap_escapeChar_inj {s t : List Char}
    (h : s.flatMap escapeChar = t.flatMap escapeChar) : s = t := by
  have hq : quote (String.ofList s) = quote (String.ofList t) := by
    unfold quote
    rw [String.toList_ofList, String.toList_ofList, h]
  have hst := quote_selfDelimiting.inj trivial trivial trivial hq
  exact String.ofList_injective hst

/-! ## The last character -/

/-- What the last character of a value's text says about the value. -/
def closer : Json → Char
  | .null => 'l'
  | .bool _ => 'e'
  | .num _ => '0'
  | .str _ => '"'
  | .arr _ => ']'
  | .obj _ => '}'

/-- Digits stand for one another. -/
def closerClass (c : Char) : Char := if c.isDigit then '0' else c

theorem text_last (v : Json) : ∃ l c, text v = l ++ [c] ∧ closerClass c = closer v := by
  cases v with
  | null => exact ⟨['n', 'u', 'l'], 'l', by rw [text]; rfl, by decide⟩
  | bool b =>
    cases b with
    | true => exact ⟨['t', 'r', 'u'], 'e', by rw [text]; rfl, by decide⟩
    | false => exact ⟨['f', 'a', 'l', 's'], 'e', by rw [text]; rfl, by decide⟩
  | num n =>
    obtain ⟨l, d, hl, hd⟩ := n.last_digit
    exact ⟨l, d, by rw [text, hl], if_pos hd⟩
  | str s => exact ⟨_, '"', by rw [text, quote, ← List.cons_append], by rw [closer]; decide⟩
  | arr items => exact ⟨_, ']', by rw [text, ← List.cons_append], by rw [closer]; decide⟩
  | obj fields => exact ⟨_, '}', by rw [text, ← List.cons_append], by rw [closer]; decide⟩

/-- A text that ends with another one belongs to a value of the same kind. -/
theorem closer_eq_of_text {a b : Json} {x : List Char} (h : text a = x ++ text b) :
    closer a = closer b := by
  obtain ⟨la, c, hla, hca⟩ := text_last a
  obtain ⟨lb, d, hlb, hcb⟩ := text_last b
  rw [hla, hlb, ← List.append_assoc] at h
  have hcd : c = d := List.singleton_inj.mp (List.append_inj_right' h rfl)
  rw [← hca, ← hcb, hcd]

/-! ## A scanner -/

/-- Where a scan stands: between strings, inside one, or behind a backslash there. Each time
with the number of brackets that are open. -/
inductive Scan where
  | out (depth : Int)
  | str (depth : Int)
  | esc (depth : Int)

def Scan.depth : Scan → Int
  | .out d | .str d | .esc d => d

def scanStep : Scan → Char → Scan
  | .out d, c =>
    if c = '"' then .str d
    else if c = '[' ∨ c = '{' then .out (d + 1)
    else if c = ']' ∨ c = '}' then .out (d - 1)
    else .out d
  | .str d, c => if c = '"' then .out d else if c = '\\' then .esc d else .str d
  | .esc d, _ => .str d

theorem scanStep_out (d : Int) (c : Char) : scanStep (.out d) c =
    if c = '"' then .str d
    else if c = '[' ∨ c = '{' then .out (d + 1)
    else if c = ']' ∨ c = '}' then .out (d - 1)
    else .out d := rfl

theorem scanStep_inside (d : Int) (c : Char) : scanStep (.str d) c =
    if c = '"' then .out d else if c = '\\' then .esc d else .str d := rfl

def scan (s : Scan) (l : List Char) : Scan := l.foldl scanStep s

@[simp] theorem scan_nil (s : Scan) : scan s [] = s := rfl

@[simp] theorem scan_cons (s : Scan) (c : Char) (l : List Char) :
    scan s (c :: l) = scan (scanStep s c) l := rfl

@[simp] theorem scan_append (s : Scan) (l m : List Char) : scan s (l ++ m) = scan (scan s l) m :=
  List.foldl_append

/-- What a scanner meets in JSON text that opens no fewer brackets than it closes: no backslash
between strings, and no bracket behind one. -/
def Legal (k : Int) (s : Scan) (c : Char) : Prop :=
  k ≤ s.depth ∧
    match s with
    | .out _ => c ≠ '\\'
    | .str _ => True
    | .esc _ => c ≠ '[' ∧ c ≠ '{'

/-- Every character is met legally. -/
def Reads (k : Int) : Scan → List Char → Prop
  | _, [] => True
  | s, c :: l => Legal k s c ∧ Reads k (scanStep s c) l

variable {k : Int}

theorem reads_append : ∀ {s : Scan} {l m : List Char},
    Reads k s (l ++ m) ↔ Reads k s l ∧ Reads k (scan s l) m
  | s, [], m => by simp [Reads]
  | s, c :: l, m => by
    rw [List.cons_append, Reads, Reads, reads_append, scan_cons, and_assoc]

theorem Reads.mono {j : Int} (hjk : j ≤ k) : ∀ {s : Scan} {l : List Char}, Reads k s l → Reads j s l
  | _, [], _ => trivial
  | _, _ :: _, h => ⟨⟨le_trans hjk h.1.1, h.1.2⟩, Reads.mono hjk h.2⟩

/-- A character that means nothing to the scanner. -/
def isNeutral (c : Char) : Bool :=
  c != '"' && c != '\\' && c != '[' && c != '{' && c != ']' && c != '}'

theorem scanStep_neutral (d : Int) (h : isNeutral c = true) :
    scanStep (.out d) c = .out d := by
  simp only [isNeutral, Bool.and_eq_true, bne_iff_ne] at h
  obtain ⟨⟨⟨⟨⟨h1, h2⟩, h3⟩, h4⟩, h5⟩, h6⟩ := h
  rw [scanStep_out]
  simp [h1, h3, h4, h5, h6]

theorem scan_neutral {d : Int} (hk : k ≤ d) : ∀ {l : List Char}, (∀ c ∈ l, isNeutral c = true) →
    scan (.out d) l = .out d ∧ Reads k (.out d) l
  | [], _ => ⟨rfl, trivial⟩
  | c :: l, h => by
    have hc := h c (by simp)
    obtain ⟨hs, hr⟩ := scan_neutral hk fun e he => h e (List.mem_cons_of_mem _ he)
    have hb : c ≠ '\\' := by
      simp only [isNeutral, Bool.and_eq_true, bne_iff_ne] at hc
      exact hc.1.1.1.1.2
    refine ⟨?_, ?_⟩
    · rw [scan_cons, scanStep_neutral d hc, hs]
    · rw [Reads, scanStep_neutral d hc]
      exact ⟨⟨hk, hb⟩, hr⟩

theorem isNeutral_of_isNumberChar (h : isNumberChar c = true) : isNeutral c = true := by
  have hne : ∀ d : Char, isNumberChar d = false → c ≠ d := by
    intro d hd hcd
    rw [hcd, hd] at h
    cases h
  simp only [isNeutral, Bool.and_eq_true, bne_iff_ne]
  exact ⟨⟨⟨⟨⟨hne _ (by decide), hne _ (by decide)⟩, hne _ (by decide)⟩, hne _ (by decide)⟩,
    hne _ (by decide)⟩, hne _ (by decide)⟩

/-! ### Strings are read from quote to quote -/

theorem scanStep_str (d : Int) (hq : c ≠ '"') (hb : c ≠ '\\') :
    scanStep (.str d) c = .str d := by
  rw [scanStep_inside, if_neg hq, if_neg hb]

theorem digitChar_plain {n : Nat} (h : n < 16) :
    Nat.digitChar n ≠ '"' ∧ Nat.digitChar n ≠ '\\' := by
  have hall : ∀ n < 16, Nat.digitChar n ≠ '"' ∧ Nat.digitChar n ≠ '\\' := by decide
  exact hall n h

theorem shortEscape_not_bracket {e : Char} (h : shortEscape c = some e) : e ≠ '[' ∧ e ≠ '{' := by
  have hall : shortEscapes.all (fun p => p.2 != '[' && p.2 != '{') = true := by decide
  have he := List.all_eq_true.mp hall _ (mem_shortEscapes h)
  simpa using he

theorem scan_escapeChar {d : Int} (hk : k ≤ d) (c : Char) :
    scan (.str d) (escapeChar c) = .str d ∧ Reads k (.str d) (escapeChar c) := by
  have hback : scanStep (.str d) '\\' = .esc d := by
    rw [scanStep_inside, if_neg (by decide), if_pos rfl]
  rcases escapeChar_cases c with ⟨e, he, hc⟩ | ⟨hlt, hc⟩ | ⟨hb, hq, hc⟩
  · rw [hc]
    refine ⟨?_, ?_⟩
    · rw [scan_cons, hback]
      rfl
    · rw [Reads, Reads, hback]
      exact ⟨⟨hk, trivial⟩, ⟨hk, shortEscape_not_bracket he⟩, trivial⟩
  · have hhi := digitChar_plain (show c.toNat / 16 < 16 by omega)
    have hlo := digitChar_plain (show c.toNat % 16 < 16 by omega)
    have hu : scanStep (.esc d) 'u' = .str d := rfl
    have h0 : scanStep (.str d) '0' = .str d := scanStep_str d (by decide) (by decide)
    have h1 := scanStep_str d hhi.1 hhi.2
    have h2 := scanStep_str d hlo.1 hlo.2
    rw [hc]
    refine ⟨?_, ?_⟩
    · simp only [scan_cons, scan_nil, hback, hu, h0, h1, h2]
    · have hesc : Legal k (.esc d) 'u' := ⟨hk, by decide, by decide⟩
      have hstr : ∀ c, Legal k (.str d) c := fun _ => ⟨hk, trivial⟩
      simp only [Reads, hback, hu, h0, h1, hesc, hstr, and_true]
  · rw [hc]
    refine ⟨?_, ?_⟩
    · rw [scan_cons, scanStep_str d hq hb, scan_nil]
    · rw [Reads]
      exact ⟨⟨hk, trivial⟩, trivial⟩

theorem scan_flatMap_escapeChar {d : Int} (hk : k ≤ d) : ∀ l : List Char,
    scan (.str d) (l.flatMap escapeChar) = .str d ∧ Reads k (.str d) (l.flatMap escapeChar)
  | [] => ⟨rfl, trivial⟩
  | c :: l => by
    obtain ⟨h1, h2⟩ := scan_escapeChar hk c
    obtain ⟨ih1, ih2⟩ := scan_flatMap_escapeChar hk l
    rw [List.flatMap_cons]
    refine ⟨?_, ?_⟩
    · rw [scan_append, h1, ih1]
    · rw [reads_append, h1]
      exact ⟨h2, ih2⟩

theorem scan_quote {d : Int} (hk : k ≤ d) (s : String) :
    scan (.out d) (quote s) = .out d ∧ Reads k (.out d) (quote s) := by
  have hopen : scanStep (.out d) '"' = .str d := by
    rw [scanStep_out, if_pos rfl]
  have hclose : scanStep (.str d) '"' = .out d := by
    rw [scanStep_inside, if_pos rfl]
  have hq : '"' ≠ '\\' := by decide
  obtain ⟨h1, h2⟩ := scan_flatMap_escapeChar hk s.toList
  unfold quote
  refine ⟨?_, ?_⟩
  · rw [scan_cons, hopen, scan_append, h1, scan_cons, hclose, scan_nil]
  · rw [Reads, hopen, reads_append, h1]
    exact ⟨⟨hk, hq⟩, h2, ⟨hk, trivial⟩, trivial⟩

/-! ### Values are read from depth to depth -/

theorem scan_comma {d : Int} (hk : k ≤ d) (first : Bool) :
    scan (.out d) (comma first) = .out d ∧ Reads k (.out d) (comma first) := by
  refine scan_neutral hk ?_
  intro c hc
  cases first with
  | true => cases hc
  | false =>
    rw [List.mem_singleton.mp hc]
    decide

/-- What an opening and a closing bracket do to a scan of what stands between them. -/
theorem scan_bracket {d : Int} {o : Char} {inner : List Char} (hk : k ≤ d)
    (ho : o = '[' ∨ o = '{') (hc : c = ']' ∨ c = '}')
    (h : scan (.out (d + 1)) inner = .out (d + 1) ∧ Reads (d + 1) (.out (d + 1)) inner) :
    scan (.out d) (o :: (inner ++ [c])) = .out d ∧ Reads k (.out d) (o :: (inner ++ [c])) := by
  have hopen : scanStep (.out d) o = .out (d + 1) := by
    rw [scanStep_out, if_neg (by rcases ho with ho | ho <;> rw [ho] <;> decide), if_pos ho]
  have hclose : scanStep (.out (d + 1)) c = .out d := by
    rw [scanStep_out, if_neg (by rcases hc with hc | hc <;> rw [hc] <;> decide),
      if_neg (by rcases hc with hc | hc <;> rw [hc] <;> decide), if_pos hc]
    congr 1
    omega
  have hob : o ≠ '\\' := by rcases ho with ho | ho <;> rw [ho] <;> decide
  have hcb : c ≠ '\\' := by rcases hc with hc | hc <;> rw [hc] <;> decide
  refine ⟨?_, ?_⟩
  · rw [scan_cons, hopen, scan_append, h.1, scan_cons, hclose, scan_nil]
  · rw [Reads, hopen, reads_append, h.1]
    refine ⟨⟨hk, hob⟩, h.2.mono (by omega), ⟨?_, hcb⟩, trivial⟩
    show k ≤ d + 1
    omega

mutual

/-- A value is read without leaving the depth it is met at, and leaves the scanner where it was. -/
theorem scan_text (k d : Int) (hk : k ≤ d) : ∀ v : Json,
    scan (.out d) (text v) = .out d ∧ Reads k (.out d) (text v)
  | .null => by
    rw [text]
    exact scan_neutral hk fun c hc => List.all_eq_true.mp
      (show ['n', 'u', 'l', 'l'].all isNeutral = true by decide) c hc
  | .bool true => by
    rw [text]
    exact scan_neutral hk fun c hc => List.all_eq_true.mp
      (show ['t', 'r', 'u', 'e'].all isNeutral = true by decide) c hc
  | .bool false => by
    rw [text]
    exact scan_neutral hk fun c hc => List.all_eq_true.mp
      (show ['f', 'a', 'l', 's', 'e'].all isNeutral = true by decide) c hc
  | .num n => by
    rw [text]
    exact scan_neutral hk fun c hc => isNeutral_of_isNumberChar (n.alphabet c hc)
  | .str s => by
    rw [text]
    exact scan_quote hk s
  | .arr items => by
    rw [text]
    exact scan_bracket hk (.inl rfl) (.inl rfl) (scan_itemsText (d + 1) (d + 1) le_rfl true items)
  | .obj fields => by
    rw [text]
    exact scan_bracket hk (.inr rfl) (.inr rfl)
      (scan_fieldsText (d + 1) (d + 1) le_rfl true fields)

theorem scan_itemsText (k d : Int) (hk : k ≤ d) : ∀ (first : Bool) (vs : List Json),
    scan (.out d) (itemsText first vs) = .out d ∧ Reads k (.out d) (itemsText first vs)
  | _, [] => by
    rw [itemsText]
    exact ⟨rfl, trivial⟩
  | first, v :: vs => by
    obtain ⟨h1, h2⟩ := scan_comma hk first
    obtain ⟨h3, h4⟩ := scan_text k d hk v
    obtain ⟨h5, h6⟩ := scan_itemsText k d hk false vs
    rw [itemsText]
    refine ⟨?_, ?_⟩
    · rw [scan_append, h1, scan_append, h3, h5]
    · rw [reads_append, h1, reads_append, h3]
      exact ⟨h2, h4, h6⟩

theorem scan_fieldsText (k d : Int) (hk : k ≤ d) : ∀ (first : Bool) (fs : List (String × Json)),
    scan (.out d) (fieldsText first fs) = .out d ∧ Reads k (.out d) (fieldsText first fs)
  | _, [] => by
    rw [fieldsText]
    exact ⟨rfl, trivial⟩
  | first, (key, v) :: fs => by
    have hcolon : scanStep (.out d) ':' = .out d := scanStep_neutral d (by decide)
    have hnot : ':' ≠ '\\' := by decide
    obtain ⟨h1, h2⟩ := scan_comma hk first
    obtain ⟨h3, h4⟩ := scan_quote hk key
    obtain ⟨h5, h6⟩ := scan_text k d hk v
    obtain ⟨h7, h8⟩ := scan_fieldsText k d hk false fs
    rw [fieldsText]
    refine ⟨?_, ?_⟩
    · rw [scan_append, h1, scan_append, h3, scan_cons, hcolon, scan_append, h5, h7]
    · rw [reads_append, h1, reads_append, h3, Reads, hcolon, reads_append, h5]
      exact ⟨h2, h4, ⟨hk, hnot⟩, h6, h8⟩

end

/-! ## Arrays and objects -/

/-- What stands behind the first bracket of an array or an object. -/
theorem bracketed {v : Json} (h : closer v = ']' ∨ closer v = '}') :
    ∃ o inner, text v = o :: inner ∧ (o = '[' ∨ o = '{')
      ∧ scan (.out 1) inner = .out 0 ∧ Reads 1 (.out 1) inner := by
  have hscan := scan_text 0 0 le_rfl v
  cases v with
  | null => simp [closer] at h
  | bool b => simp [closer] at h
  | num n => simp [closer] at h
  | str s => simp [closer] at h
  | arr items =>
    rw [text] at hscan ⊢
    refine ⟨'[', _, rfl, .inl rfl, hscan.1, ?_⟩
    obtain ⟨h1, h2⟩ := scan_itemsText 1 1 le_rfl true items
    have hc : ']' ≠ '\\' := by decide
    rw [reads_append, h1]
    exact ⟨h2, ⟨le_rfl, hc⟩, trivial⟩
  | obj fields =>
    rw [text] at hscan ⊢
    refine ⟨'{', _, rfl, .inr rfl, hscan.1, ?_⟩
    obtain ⟨h1, h2⟩ := scan_fieldsText 1 1 le_rfl true fields
    have hc : '}' ≠ '\\' := by decide
    rw [reads_append, h1]
    exact ⟨h2, ⟨le_rfl, hc⟩, trivial⟩

/-- One scan is inside a string where the other is between two. -/
def Opposite (s t : Scan) : Prop :=
  (∃ d e, s = .str d ∧ t = .out e) ∨ ∃ d e, s = .out d ∧ t = .str e

/-- As long as neither meets a backslash between strings, they stay so. -/
theorem opposite_scan {j : Int} : ∀ {l : List Char} {s t : Scan}, Opposite s t → Reads j s l →
    Reads k t l → Opposite (scan s l) (scan t l)
  | [], _, _, h, _, _ => h
  | c :: l, s, t, h, hs, ht => by
    rw [scan_cons, scan_cons]
    refine opposite_scan ?_ hs.2 ht.2
    have key : ∀ d e : Int, c ≠ '\\' → Opposite (scanStep (.str d) c) (scanStep (.out e) c) := by
      intro d e hb
      rw [scanStep_inside, scanStep_out]
      by_cases hq : c = '"'
      · rw [if_pos hq, if_pos hq]
        exact .inr ⟨d, e, rfl, rfl⟩
      rw [if_neg hq, if_neg hq, if_neg hb]
      refine .inl ?_
      split_ifs
      · exact ⟨d, e + 1, rfl, rfl⟩
      · exact ⟨d, e - 1, rfl, rfl⟩
      · exact ⟨d, e, rfl, rfl⟩
    rcases h with ⟨d, e, hsd, hte⟩ | ⟨d, e, hsd, hte⟩
    · rw [hte] at ht
      rw [hsd, hte]
      exact key d e ht.1.2
    rw [hsd] at hs
    rw [hsd, hte]
    rcases key e d hs.1.2 with h | h
    · exact .inr (by obtain ⟨a, b, h1, h2⟩ := h; exact ⟨b, a, h2, h1⟩)
    · exact .inl (by obtain ⟨a, b, h1, h2⟩ := h; exact ⟨b, a, h2, h1⟩)

/-- An array or object text ends with no other one. -/
theorem bracketed_suffix {a b : Json} {x : List Char} (ha : closer a = ']' ∨ closer a = '}')
    (hb : closer b = ']' ∨ closer b = '}') (h : text a = x ++ text b) : x = [] := by
  obtain ⟨oa, inner, hta, _, hend, hreads⟩ := bracketed ha
  obtain ⟨ob, rest, htb, hob, _, _⟩ := bracketed hb
  obtain ⟨hscan, hlegal⟩ := scan_text 0 0 le_rfl b
  match x, h with
  | [], _ => rfl
  | c :: x, h =>
    rw [hta, List.cons_append] at h
    obtain ⟨_, h⟩ := List.cons.inj h
    rw [h, scan_append] at hend
    rw [h, reads_append] at hreads
    have hmet := hreads.2
    rw [htb] at hmet
    cases hs : scan (.out 1) x with
    | out d =>
      -- cut outside a string: at least the first bracket is still open
      rw [hs] at hend hmet
      have hd : 1 ≤ d := hmet.1.1
      have hzero := (scan_text d d le_rfl b).1
      rw [hend] at hzero
      have hzero : (0 : Int) = d := Scan.out.inj hzero
      omega
    | str d =>
      rw [hs] at hend hreads
      have hopp := opposite_scan (.inl ⟨d, 0, rfl, rfl⟩) hreads.2 hlegal
      rw [hend, hscan] at hopp
      rcases hopp with ⟨_, _, h1, _⟩ | ⟨_, _, _, h2⟩
      · cases h1
      · cases h2
    | esc d =>
      -- a bracket is never escaped
      rw [hs] at hmet
      rcases hob with hob | hob
      · exact absurd hob hmet.1.2.1
      · exact absurd hob hmet.1.2.2

/-! ## The two ways to cut -/

/-- `Cut x a b`: the text of `b` is what is left when `x` is cut off the front of the text of `a`.
-/
inductive Cut : List Char → Json → Json → Prop
  /-- The digits behind some number characters. -/
  | num {x : List Char} {m n : JsonNumber} : x ≠ [] → m.text.toList = x ++ n.text.toList →
      Cut x (.num m) (.num n)
  /-- What follows a backslash in a string: an escaped quote, read as an opening one. -/
  | str (u w : List Char) :
      Cut ('"' :: (u.flatMap escapeChar ++ ['\\'])) (.str (String.ofList (u ++ '"' :: w)))
        (.str (String.ofList w))

theorem Cut.ne_nil {x : List Char} {a b : Json} (h : Cut x a b) : x ≠ [] := by
  cases h with
  | num hx _ => exact hx
  | str u w => exact List.cons_ne_nil _ _

theorem Cut.text_eq {x : List Char} {a b : Json} (h : Cut x a b) : text a = x ++ text b := by
  cases h with
  | num _ ht => rw [text, text, ht]
  | str u w =>
    have hq : escapeChar '"' = ['\\', '"'] := by decide
    rw [text, text, quote, quote, String.toList_ofList, String.toList_ofList, List.flatMap_append,
      List.flatMap_cons, hq]
    simp

theorem strText_cut {s t : String} {x : List Char} (hx : x ≠ []) (h : quote s = x ++ quote t) :
    Cut x (.str s) (.str t) := by
  unfold quote at h
  match x, hx, h with
  | c :: x, _, h =>
    obtain ⟨hc, h⟩ := List.cons.inj h
    have h : s.toList.flatMap escapeChar ++ ['"']
        = (x ++ '"' :: t.toList.flatMap escapeChar) ++ ['"'] := by
      simpa using h
    have hcut := List.append_cancel_right h
    obtain ⟨u, w, hs, hxu, hw⟩ := flatMap_escapeChar_quote hcut
    have ht : t = String.ofList w := by
      rw [← flatMap_escapeChar_inj hw, String.ofList_toList]
    have hs : s = String.ofList (u ++ '"' :: w) := by
      rw [← hs, String.ofList_toList]
    rw [← hc, hxu, ht, hs]
    exact Cut.str u w

/-- **One JSON text ends with another, shorter one only if the two are cut numbers or strings.** -/
theorem text_eq_append_iff {a b : Json} {x : List Char} (hx : x ≠ []) :
    text a = x ++ text b ↔ Cut x a b := by
  refine ⟨?_, Cut.text_eq⟩
  intro h
  have hclose := closer_eq_of_text h
  cases a <;> cases b <;> try (simp [closer] at hclose; done)
  case null.null => exact absurd (List.self_eq_append_left.mp h) hx
  case bool.bool p q =>
    have hlen := congrArg List.length h
    rw [List.length_append] at hlen
    cases p <;> cases q
    · exact absurd (List.self_eq_append_left.mp h) hx
    · -- `false` would be one character and `true`
      rw [text, text] at h hlen
      obtain ⟨c, hc⟩ := List.length_eq_one_iff.mp (show x.length = 1 by simp at hlen; omega)
      rw [hc] at h
      exact absurd (List.cons.inj (List.cons.inj h).2).1 (by decide)
    · rw [text, text] at hlen
      simp at hlen
    · exact absurd (List.self_eq_append_left.mp h) hx
  case num.num m n =>
    rw [text, text] at h
    exact Cut.num hx h
  case str.str s t =>
    rw [text, text] at h
    exact strText_cut hx h
  case arr.arr vs ws => exact absurd (bracketed_suffix (.inl rfl) (.inl rfl) h) hx
  case obj.obj fs gs => exact absurd (bracketed_suffix (.inr rfl) (.inr rfl) h) hx

end Json

end Pkzz.Lib
