import Mathlib.Data.List.Sort
import Pkzz.Lib.Str

/-!
# JSON as a serializer writes it

Compact JSON text: no blanks, the short escapes where JSON has one, `\u00xx` for the other
control characters, every other character as it is. A number is identified by the text the
serializer prints for it, which is all a format ever does with it.

The main result is that the text of a value delimits itself: in front of anything that
could not continue a number, it can be read back in one way only. In particular the text
determines the value.
-/

namespace Pkzz.Lib

/-- A character that can occur in a number. -/
def isNumberChar (c : Char) : Bool :=
  c.isDigit || c == '-' || c == '+' || c == '.' || c == 'e' || c == 'E'

/-- The text of a number: it consists of number characters and ends with a digit. -/
structure JsonNumber where
  text : String
  alphabet : ∀ c ∈ text.toList, isNumberChar c = true
  last_digit : ∃ l d, text.toList = l ++ [d] ∧ d.isDigit = true

inductive Json where
  | null
  | bool (b : Bool)
  | num (n : JsonNumber)
  | str (s : String)
  | arr (items : List Json)
  | obj (fields : List (String × Json))

theorem JsonNumber.ext_text {m n : JsonNumber} (h : m.text = n.text) : m = n := by
  cases m
  cases n
  simpa using h

theorem isDigit_toDigits {n : Nat} : ∀ c ∈ Nat.toDigits 10 n, c.isDigit = true :=
  fun _ hc => Nat.isDigit_of_mem_toDigits (by decide) (by decide) hc

/-- An unsigned integer. -/
def JsonNumber.ofNat (n : Nat) : JsonNumber where
  text := n.repr
  alphabet := by
    intro c hc
    rw [Nat.toList_repr] at hc
    simp [isNumberChar, isDigit_toDigits c hc]
  last_digit := by
    rw [Nat.toList_repr]
    have hne : Nat.toDigits 10 n ≠ [] := Nat.toDigits_ne_nil
    exact ⟨_, _, (List.dropLast_append_getLast hne).symm,
      isDigit_toDigits _ (List.getLast_mem hne)⟩

theorem JsonNumber.ofNat_inj {m n : Nat} (h : JsonNumber.ofNat m = JsonNumber.ofNat n) : m = n := by
  have ht : m.repr = n.repr := congrArg JsonNumber.text h
  exact Str.decimal_inj (congrArg Str.asBytes ht)

/-! ## Writing -/

/-- The characters that have a short escape, each with the one after its backslash. -/
def shortEscapes : List (Char × Char) :=
  [('"', '"'), ('\\', '\\'), ('\x08', 'b'), ('\x0c', 'f'), ('\n', 'n'), ('\r', 'r'), ('\t', 't')]

def shortEscape (c : Char) : Option Char := shortEscapes.lookup c

def escapeChar (c : Char) : List Char :=
  match shortEscape c with
  | some x => ['\\', x]
  | none =>
    if c.toNat < 32 then
      ['\\', 'u', '0', '0', Nat.digitChar (c.toNat / 16), Nat.digitChar (c.toNat % 16)]
    else [c]

def quote (s : String) : List Char := '"' :: (s.toList.flatMap escapeChar ++ ['"'])

/-- `if !first { out.push(',') }`. -/
def comma (first : Bool) : List Char := if first then [] else [',']

namespace Json

mutual

def text : Json → List Char
  | .null => ['n', 'u', 'l', 'l']
  | .bool true => ['t', 'r', 'u', 'e']
  | .bool false => ['f', 'a', 'l', 's', 'e']
  | .num n => n.text.toList
  | .str s => quote s
  | .arr items => '[' :: (itemsText true items ++ [']'])
  | .obj fields => '{' :: (fieldsText true fields ++ ['}'])

def itemsText (first : Bool) : List Json → List Char
  | [] => []
  | v :: vs => comma first ++ (text v ++ itemsText false vs)

def fieldsText (first : Bool) : List (String × Json) → List Char
  | [] => []
  | (k, v) :: fs => comma first ++ (quote k ++ ':' :: (text v ++ fieldsText false fs))

end

end Json

/-! ## Strings -/

theorem mem_shortEscapes {c x : Char} (h : shortEscape c = some x) : (c, x) ∈ shortEscapes := by
  obtain ⟨l, r, hlr, _⟩ := List.lookup_eq_some_iff.mp h
  rw [hlr]
  simp

theorem shortEscape_inj {c d x : Char} (hc : shortEscape c = some x) (hd : shortEscape d = some x) :
    c = d := by
  have hall : shortEscapes.all (fun p => shortEscapes.all fun q => p.2 != q.2 || p.1 == q.1)
      = true := by decide
  have hcd := List.all_eq_true.mp (List.all_eq_true.mp hall _ (mem_shortEscapes hc)) _
    (mem_shortEscapes hd)
  simpa using hcd

theorem shortEscape_ne_u {c : Char} : shortEscape c ≠ some 'u' := by
  intro h
  have hall : shortEscapes.all (fun p => p.2 != 'u') = true := by decide
  exact absurd (List.all_eq_true.mp hall _ (mem_shortEscapes h)) (by simp)

theorem shortEscape_backslash : shortEscape '\\' = some '\\' := by decide

theorem shortEscape_quote : shortEscape '"' = some '"' := by decide

/-- The three shapes an escaped character takes. -/
theorem escapeChar_cases (c : Char) :
    (∃ x, shortEscape c = some x ∧ escapeChar c = ['\\', x])
      ∨ (c.toNat < 32 ∧ escapeChar c = ['\\', 'u', '0', '0', Nat.digitChar (c.toNat / 16),
          Nat.digitChar (c.toNat % 16)])
      ∨ (c ≠ '\\' ∧ c ≠ '"' ∧ escapeChar c = [c]) := by
  unfold escapeChar
  cases hs : shortEscape c with
  | some x => exact .inl ⟨x, rfl, rfl⟩
  | none =>
    have hb : c ≠ '\\' := by
      rintro rfl
      rw [shortEscape_backslash] at hs
      exact absurd hs (by simp)
    have hq : c ≠ '"' := by
      rintro rfl
      rw [shortEscape_quote] at hs
      exact absurd hs (by simp)
    dsimp only
    by_cases hlt : c.toNat < 32
    · rw [if_pos hlt]
      exact .inr (.inl ⟨hlt, rfl⟩)
    · rw [if_neg hlt]
      exact .inr (.inr ⟨hb, hq, rfl⟩)

theorem escapeChar_selfDelimiting : SelfDelimiting (fun _ => True) AnyRest escapeChar := by
  intro c d r s _ _ _ _ he
  rcases escapeChar_cases c with ⟨x, hx, hc⟩ | ⟨hc32, hc⟩ | ⟨hcb, _, hc⟩ <;>
    rcases escapeChar_cases d with ⟨y, hy, hd⟩ | ⟨hd32, hd⟩ | ⟨hdb, _, hd⟩ <;>
    rw [hc, hd] at he <;>
    simp only [List.cons_append, List.nil_append, List.cons.injEq] at he
  · obtain ⟨_, hxy, hrs⟩ := he
    subst hxy
    exact ⟨shortEscape_inj hx hy, hrs⟩
  · rw [he.2.1] at hx
    exact absurd hx shortEscape_ne_u
  · exact absurd he.1.symm hdb
  · rw [← he.2.1] at hy
    exact absurd hy shortEscape_ne_u
  · obtain ⟨_, _, _, _, hhi, hlo, hrs⟩ := he
    have h1 := Str.digitChar_inj (by omega) (by omega) hhi
    have h2 := Str.digitChar_inj (by omega) (by omega) hlo
    refine ⟨Char.ext (UInt32.toNat_inj.mp ?_), hrs⟩
    show c.toNat = d.toNat
    omega
  · exact absurd he.1.symm hdb
  · exact absurd he.1 hcb
  · exact absurd he.1 hcb
  · exact he

theorem escapeChar_head (c : Char) : ∃ x l, escapeChar c = x :: l ∧ x ≠ '"' := by
  rcases escapeChar_cases c with ⟨x, _, hc⟩ | ⟨_, hc⟩ | ⟨_, hq, hc⟩
  · exact ⟨_, _, hc, by decide⟩
  · exact ⟨_, _, hc, by decide⟩
  · exact ⟨_, _, hc, hq⟩

/-- A quoted string delimits itself, whatever it contains. -/
theorem quote_selfDelimiting : SelfDelimiting (fun _ => True) AnyRest quote := by
  intro a b r s _ _ _ _ he
  have hbody := SelfDelimiting.flatMap escapeChar_selfDelimiting
    (fun c _ => escapeChar_head c)
  simp only [quote, List.cons_append, List.append_assoc, List.nil_append, List.cons.injEq,
    true_and] at he
  obtain ⟨hl, ht⟩ := hbody.peel (by simp) (by simp) (stopsAt_cons (by simp))
    (stopsAt_cons (by simp)) he
  obtain ⟨_, ht⟩ := List.cons.inj ht
  exact ⟨String.toList_inj.mp hl, ht⟩

/-! ## Values -/

namespace Json

/-- What the first character of a value's text says about the value. -/
def opener : Json → Char
  | .null => 'n'
  | .bool true => 't'
  | .bool false => 'f'
  | .num _ => '0'
  | .str _ => '"'
  | .arr _ => '['
  | .obj _ => '{'

/-- Number characters stand for one another. -/
def openerClass (c : Char) : Char := if isNumberChar c then '0' else c

theorem openerClass_of_number {c : Char} (h : isNumberChar c = true) : openerClass c = '0' :=
  if_pos h

theorem text_head (v : Json) : ∃ c l, text v = c :: l ∧ openerClass c = opener v := by
  cases v with
  | null => exact ⟨'n', _, by rw [text], by decide⟩
  | bool b =>
    cases b with
    | true => exact ⟨'t', _, by rw [text], by decide⟩
    | false => exact ⟨'f', _, by rw [text], by decide⟩
  | num n =>
    obtain ⟨l, d, hl, _⟩ := n.last_digit
    cases ht : n.text.toList with
    | nil =>
      rw [ht] at hl
      exact absurd hl (by simp)
    | cons c l' =>
      exact ⟨c, l', by rw [text, ht], openerClass_of_number (n.alphabet c (by rw [ht]; simp))⟩
  | str s => exact ⟨'"', _, by rw [text, quote], by rw [opener]; decide⟩
  | arr items => exact ⟨'[', _, by rw [text], by rw [opener]; decide⟩
  | obj fields => exact ⟨'{', _, by rw [text], by rw [opener]; decide⟩

theorem eq_null_of_opener {v : Json} (h : opener v = 'n') : v = null := by
  cases v with
  | bool b => cases b <;> simp [opener] at h
  | _ => simp_all [opener]

theorem eq_bool_of_opener {v : Json} {b : Bool} (h : opener v = opener (bool b)) : v = bool b := by
  cases v with
  | bool c => cases b <;> cases c <;> simp_all [opener]
  | _ => cases b <;> simp [opener] at h

theorem eq_num_of_opener {v : Json} (h : opener v = '0') : ∃ n, v = num n := by
  cases v with
  | bool b => cases b <;> simp [opener] at h
  | _ => simp_all [opener]

theorem eq_str_of_opener {v : Json} (h : opener v = '"') : ∃ s, v = str s := by
  cases v with
  | bool b => cases b <;> simp [opener] at h
  | _ => simp_all [opener]

theorem eq_arr_of_opener {v : Json} (h : opener v = '[') : ∃ items, v = arr items := by
  cases v with
  | bool b => cases b <;> simp [opener] at h
  | _ => simp_all [opener]

theorem eq_obj_of_opener {v : Json} (h : opener v = '{') : ∃ fields, v = obj fields := by
  cases v with
  | bool b => cases b <;> simp [opener] at h
  | _ => simp_all [opener]

theorem opener_eq_of_text {a b : Json} {r s : List Char} (h : text a ++ r = text b ++ s) :
    opener a = opener b := by
  obtain ⟨c, l, ha, hca⟩ := text_head a
  obtain ⟨d, m, hb, hdb⟩ := text_head b
  rw [ha, hb, List.cons_append, List.cons_append] at h
  rw [← hca, ← hdb, (List.cons.inj h).1]

/-- No value begins with a character that closes or separates. -/
theorem text_head_ne {v : Json} {c : Char} {l r : List Char} (hc : openerClass c = c)
    (hv : ∀ w : Json, opener w ≠ c) (h : text v ++ r = c :: l) : False := by
  obtain ⟨d, m, hd, hdv⟩ := text_head v
  rw [hd, List.cons_append] at h
  rw [(List.cons.inj h).1, hc] at hdv
  exact hv v hdv.symm

theorem opener_ne_closer (v : Json) : opener v ≠ ']' := by
  cases v with
  | bool b => cases b <;> simp [opener]
  | _ => simp [opener]

/-- What may follow a value: nothing that continues a number. -/
abbrev Follows : List Char → Prop := StopsAt fun c => isNumberChar c = true

theorem follows_itemsText {vs : List Json} {r : List Char} :
    Follows (itemsText false vs ++ ']' :: r) := by
  cases vs with
  | nil => rw [itemsText]; exact stopsAt_cons (by decide)
  | cons v vs => rw [itemsText]; exact stopsAt_cons (by decide)

theorem follows_fieldsText {fs : List (String × Json)} {r : List Char} :
    Follows (fieldsText false fs ++ '}' :: r) := by
  cases fs with
  | nil => rw [fieldsText]; exact stopsAt_cons (by decide)
  | cons f fs => obtain ⟨k, v⟩ := f; rw [fieldsText]; exact stopsAt_cons (by decide)

mutual

/-- **The text of a value delimits itself.** -/
theorem text_peel : ∀ (a b : Json) {r s : List Char}, Follows r → Follows s →
    text a ++ r = text b ++ s → a = b ∧ r = s
  | .null, b, r, s, _, _, he => by
    have hb := eq_null_of_opener (opener_eq_of_text he).symm
    subst hb
    exact ⟨rfl, List.append_cancel_left he⟩
  | .bool x, b, r, s, _, _, he => by
    have hb := eq_bool_of_opener (opener_eq_of_text he).symm
    subst hb
    exact ⟨rfl, List.append_cancel_left he⟩
  | .num m, b, r, s, hr, hs, he => by
    obtain ⟨n, hb⟩ := eq_num_of_opener (opener_eq_of_text he).symm
    subst hb
    rw [text, text] at he
    obtain ⟨h1, h2⟩ := SelfDelimiting.append_inj_of_stop m.alphabet n.alphabet hr hs he
    exact ⟨by rw [JsonNumber.ext_text (String.toList_inj.mp h1)], h2⟩
  | .str x, b, r, s, _, _, he => by
    obtain ⟨y, hb⟩ := eq_str_of_opener (opener_eq_of_text he).symm
    subst hb
    rw [text, text] at he
    obtain ⟨hxy, hrs⟩ := quote_selfDelimiting.peel trivial trivial trivial trivial he
    exact ⟨by rw [hxy], hrs⟩
  | .arr as, b, r, s, _, _, he => by
    obtain ⟨bs, hb⟩ := eq_arr_of_opener (opener_eq_of_text he).symm
    subst hb
    rw [text, text] at he
    simp only [List.cons_append, List.append_assoc, List.nil_append, List.cons.injEq,
      true_and] at he
    obtain ⟨hab, hrs⟩ := itemsText_peel true as bs he
    exact ⟨by rw [hab], hrs⟩
  | .obj as, b, r, s, _, _, he => by
    obtain ⟨bs, hb⟩ := eq_obj_of_opener (opener_eq_of_text he).symm
    subst hb
    rw [text, text] at he
    simp only [List.cons_append, List.append_assoc, List.nil_append, List.cons.injEq,
      true_and] at he
    obtain ⟨hab, hrs⟩ := fieldsText_peel true as bs he
    exact ⟨by rw [hab], hrs⟩

theorem itemsText_peel : ∀ (first : Bool) (as bs : List Json) {r s : List Char},
    itemsText first as ++ ']' :: r = itemsText first bs ++ ']' :: s → as = bs ∧ r = s
  | first, [], [], r, s, he => by
    rw [itemsText] at he
    exact ⟨rfl, (List.cons.inj he).2⟩
  | first, [], b :: bs, r, s, he => by
    rw [itemsText, itemsText] at he
    cases first with
    | true =>
      simp only [comma, if_true, List.nil_append, List.append_assoc] at he
      exact (text_head_ne (by decide) (fun w => opener_ne_closer w) he.symm).elim
    | false => exact absurd (List.cons.inj he).1 (by decide)
  | first, a :: as, [], r, s, he => by
    rw [itemsText, itemsText] at he
    cases first with
    | true =>
      simp only [comma, if_true, List.nil_append, List.append_assoc] at he
      exact (text_head_ne (by decide) (fun w => opener_ne_closer w) he).elim
    | false => exact absurd (List.cons.inj he).1 (by decide)
  | first, a :: as, b :: bs, r, s, he => by
    rw [itemsText, itemsText] at he
    simp only [List.append_assoc] at he
    obtain ⟨hab, ht⟩ := text_peel a b follows_itemsText follows_itemsText
      (List.append_cancel_left he)
    obtain ⟨hrest, hrs⟩ := itemsText_peel false as bs ht
    exact ⟨by rw [hab, hrest], hrs⟩

theorem fieldsText_peel : ∀ (first : Bool) (as bs : List (String × Json)) {r s : List Char},
    fieldsText first as ++ '}' :: r = fieldsText first bs ++ '}' :: s → as = bs ∧ r = s
  | first, [], [], r, s, he => by
    rw [fieldsText] at he
    exact ⟨rfl, (List.cons.inj he).2⟩
  | first, [], (k, b) :: bs, r, s, he => by
    rw [fieldsText, fieldsText] at he
    cases first with
    | true => exact absurd (List.cons.inj he).1 (by decide)
    | false => exact absurd (List.cons.inj he).1 (by decide)
  | first, (k, a) :: as, [], r, s, he => by
    rw [fieldsText, fieldsText] at he
    cases first with
    | true => exact absurd (List.cons.inj he).1 (by decide)
    | false => exact absurd (List.cons.inj he).1 (by decide)
  | first, (j, a) :: as, (k, b) :: bs, r, s, he => by
    rw [fieldsText, fieldsText] at he
    simp only [List.append_assoc, List.cons_append] at he
    obtain ⟨hjk, ht⟩ := quote_selfDelimiting.peel trivial trivial trivial trivial
      (List.append_cancel_left he)
    obtain ⟨_, ht⟩ := List.cons.inj ht
    obtain ⟨hab, ht⟩ := text_peel a b follows_fieldsText follows_fieldsText ht
    obtain ⟨hrest, hrs⟩ := fieldsText_peel false as bs ht
    exact ⟨by rw [hjk, hab, hrest], hrs⟩

end

/-- The text determines the value. -/
theorem text_inj {a b : Json} (h : text a = text b) : a = b :=
  (text_peel a b (stopsAt_nil _) (stopsAt_nil _) (by rw [h])).1

end Json

end Pkzz.Lib
