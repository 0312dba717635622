import Pkzz.Lib.Json

/-!
# Reading JSON text

A recursive-descent reader. It bounds how deep arrays and objects may nest, as a reader does
that has to protect its stack, and it leaves to its caller which number a number's text
stands for. Duplicate keys are kept: what to do about them is the caller's business too.

The main result is that the reader gives back every value that is not too deep and whose
numbers are read back, from the text the serializer writes for it.
-/

namespace Pkzz.Lib

namespace Json

/-! ## The reader -/

def isBlank (c : Char) : Bool := c == ' ' || c == '\n' || c == '\t' || c == '\r'

def skipBlanks (cs : List Char) : List Char := cs.dropWhile isBlank

def hexDigit? (c : Char) : Option Nat :=
  if c.isDigit then some (c.toNat - 48)
  else if 'a' ≤ c ∧ c ≤ 'f' then some (c.toNat - 87)
  else if 'A' ≤ c ∧ c ≤ 'F' then some (c.toNat - 55)
  else none

/-- The four digits of a `\u` escape. -/
def readUnit : List Char → Option (Nat × List Char)
  | a :: b :: c :: d :: cs => do
      let a ← hexDigit? a
      let b ← hexDigit? b
      let c ← hexDigit? c
      let d ← hexDigit? d
      some (((a * 16 + b) * 16 + c) * 16 + d, cs)
  | _ => none

def isHighSurrogate (n : Nat) : Bool := decide (0xD800 ≤ n) && decide (n < 0xDC00)

def isLowSurrogate (n : Nat) : Bool := decide (0xDC00 ≤ n) && decide (n < 0xE000)

/-- The second half of a surrogate pair; a half without the other stands for nothing. -/
def readLowSurrogate (hi : Nat) : List Char → Option (Char × List Char)
  | '\\' :: 'u' :: cs => do
      let (lo, cs) ← readUnit cs
      if isLowSurrogate lo then
        some (Char.ofNat (0x10000 + (hi - 0xD800) * 0x400 + (lo - 0xDC00)), cs)
      else none
  | _ => none

/-- What follows a backslash. -/
def readEscape : List Char → Option (Char × List Char)
  | [] => none
  | x :: cs =>
    if x = 'u' then do
      let (n, cs) ← readUnit cs
      if isHighSurrogate n then readLowSurrogate n cs
      else if isLowSurrogate n then none
      else some (Char.ofNat n, cs)
    else if x = '/' then some ('/', cs)
    else (shortEscapes.find? fun e => e.2 == x).map fun e => (e.1, cs)

/-- The rest of a string, after the quote that opens it. -/
def readChars : Nat → List Char → Option (List Char × List Char)
  | 0, _ => none
  | _ + 1, [] => none
  | fuel + 1, c :: cs =>
    if c = '"' then some ([], cs)
    else if c = '\\' then do
      let (x, cs) ← readEscape cs
      let (l, cs) ← readChars fuel cs
      some (x :: l, cs)
    else if c.toNat < 32 then none
    else do
      let (l, cs) ← readChars fuel cs
      some (c :: l, cs)

/-- The three words. -/
def readWord (cs : List Char) : Option (Json × List Char) :=
  if ['n', 'u', 'l', 'l'].isPrefixOf cs then some (.null, cs.drop 4)
  else if ['t', 'r', 'u', 'e'].isPrefixOf cs then some (.bool true, cs.drop 4)
  else if ['f', 'a', 'l', 's', 'e'].isPrefixOf cs then some (.bool false, cs.drop 5)
  else none

section

variable (num : List Char → Option JsonNumber)

def readNumber (cs : List Char) : Option (Json × List Char) :=
  (num (cs.takeWhile isNumberChar)).map fun n => (.num n, cs.dropWhile isNumberChar)

mutual

/-- A value. `depth` is one more than the number of levels that may still be opened. -/
def readValue : Nat → Nat → List Char → Option (Json × List Char)
  | 0, _, _ => none
  | fuel + 1, depth, cs =>
    match skipBlanks cs with
    | [] => none
    | c :: cs =>
      if c = '"' then (readChars fuel cs).map fun (l, cs) => (.str (String.ofList l), cs)
      else if c = '[' then
        if depth ≤ 1 then none
        else if (skipBlanks cs).head? = some ']' then some (.arr [], (skipBlanks cs).tail)
        else (readItems fuel (depth - 1) cs).map fun (vs, cs) => (.arr vs, cs)
      else if c = '{' then
        if depth ≤ 1 then none
        else if (skipBlanks cs).head? = some '}' then some (.obj [], (skipBlanks cs).tail)
        else (readFields fuel (depth - 1) cs).map fun (fs, cs) => (.obj fs, cs)
      else if isNumberChar c then readNumber num (c :: cs)
      else readWord (c :: cs)

/-- One item or more, up to the closing bracket. -/
def readItems : Nat → Nat → List Char → Option (List Json × List Char)
  | 0, _, _ => none
  | fuel + 1, depth, cs => do
      let (v, cs) ← readValue fuel depth cs
      match skipBlanks cs with
      | [] => none
      | c :: cs =>
        if c = ']' then some ([v], cs)
        else if c = ',' then (readItems fuel depth cs).map fun (vs, cs) => (v :: vs, cs)
        else none

/-- One field or more, up to the closing brace. -/
def readFields : Nat → Nat → List Char → Option (List (String × Json) × List Char)
  | 0, _, _ => none
  | fuel + 1, depth, cs =>
    match skipBlanks cs with
    | [] => none
    | c :: cs =>
      if c = '"' then do
        let (k, cs) ← readChars fuel cs
        match skipBlanks cs with
        | [] => none
        | c :: cs =>
          if c = ':' then do
            let (v, cs) ← readValue fuel depth cs
            match skipBlanks cs with
            | [] => none
            | c :: cs =>
              if c = '}' then some ([(String.ofList k, v)], cs)
              else if c = ',' then
                (readFields fuel depth cs).map fun (fs, cs) => ((String.ofList k, v) :: fs, cs)
              else none
          else none
      else none

end

/-- A whole text: one value and blanks. -/
def parse (depth : Nat) (cs : List Char) : Option Json :=
  match readValue num cs.length depth cs with
  | none => none
  | some (v, rest) => if skipBlanks rest = [] then some v else none

end

/-! ## Blanks -/

theorem skipBlanks_cons {c : Char} {cs : List Char} (h : isBlank c = false) :
    skipBlanks (c :: cs) = c :: cs := by
  simp [skipBlanks, h]

/-! ## Strings -/

theorem hexDigit?_digitChar {n : Nat} (h : n < 16) : hexDigit? (Nat.digitChar n) = some n := by
  have hall : ∀ n < 16, hexDigit? (Nat.digitChar n) = some n := by decide
  exact hall n h

/-- The escape of a control character is read back. -/
theorem readEscape_control {c : Char} {r : List Char} (h : c.toNat < 32) :
    readEscape ('u' :: '0' :: '0' :: Nat.digitChar (c.toNat / 16) :: Nat.digitChar
      (c.toNat % 16) :: r) = some (c, r) := by
  have hzero : hexDigit? '0' = some 0 := by decide
  have hhi := hexDigit?_digitChar (n := c.toNat / 16) (by omega)
  have hlo := hexDigit?_digitChar (n := c.toNat % 16) (by omega)
  have hval : ((0 * 16 + 0) * 16 + c.toNat / 16) * 16 + c.toNat % 16 = c.toNat := by omega
  have hhigh : isHighSurrogate c.toNat = false := by simp [isHighSurrogate]; omega
  have hlow : isLowSurrogate c.toNat = false := by simp [isLowSurrogate]; omega
  simp only [readEscape, readUnit, hzero, hhi, hlo, Option.bind_eq_bind, Option.bind_some, hval,
    hhigh, hlow, if_true, Bool.false_eq_true, if_false, Char.ofNat_toNat]

/-- The short escapes are read back. -/
theorem readEscape_short {c x : Char} {r : List Char} (h : shortEscape c = some x) :
    readEscape (x :: r) = some (c, r) := by
  have hall : shortEscapes.all (fun e => e.2 != 'u' && e.2 != '/'
      && (shortEscapes.find? fun e' => e'.2 == e.2) == some e) = true := by decide
  have hx := List.all_eq_true.mp hall _ (mem_shortEscapes h)
  simp only [Bool.and_eq_true, bne_iff_ne, ne_eq, beq_iff_eq] at hx
  obtain ⟨⟨hu, hslash⟩, hfind⟩ := hx
  simp only [readEscape, if_neg hu, if_neg hslash, hfind, Option.map_some]

/-- One character of a quoted string. -/
theorem readChars_escapeChar (fuel : Nat) (c : Char) (r : List Char) :
    readChars (fuel + 1) (escapeChar c ++ r)
      = (readChars fuel r).map fun p => (c :: p.1, p.2) := by
  rcases escapeChar_cases c with ⟨x, hx, hc⟩ | ⟨hlt, hc⟩ | ⟨hb, hq, hc⟩
  · rw [hc]
    simp only [List.cons_append, List.nil_append, readChars, readEscape_short hx,
      Option.bind_eq_bind, Option.bind_some, if_true]
    cases readChars fuel r <;> rfl
  · rw [hc]
    simp only [List.cons_append, List.nil_append, readChars, readEscape_control hlt,
      Option.bind_eq_bind, Option.bind_some, if_true]
    cases readChars fuel r <;> rfl
  · rw [hc]
    have hge : ¬ c.toNat < 32 := by
      intro hlt
      -- a control character is never written as it is
      have hlen := congrArg List.length hc
      unfold escapeChar at hlen
      cases hs : shortEscape c with
      | some x => simp [hs] at hlen
      | none => simp [hs, hlt] at hlen
    simp only [List.cons_append, List.nil_append, readChars, if_neg hq, if_neg hb, if_neg hge,
      Option.bind_eq_bind]
    cases readChars fuel r <;> rfl

/-- **A quoted string is read back**, whatever it contains. -/
theorem readChars_quote : ∀ (l : List Char) (fuel : Nat) (r : List Char), l.length < fuel →
    readChars fuel (l.flatMap escapeChar ++ '"' :: r) = some (l, r)
  | [], fuel, r, hf => by
    obtain ⟨fuel, rfl⟩ : ∃ k, fuel = k + 1 := ⟨fuel - 1, by omega⟩
    simp [readChars]
  | c :: l, fuel, r, hf => by
    obtain ⟨fuel, rfl⟩ : ∃ k, fuel = k + 1 := ⟨fuel - 1, by omega⟩
    rw [List.length_cons] at hf
    rw [List.flatMap_cons, List.append_assoc, readChars_escapeChar,
      readChars_quote l _ _ (by omega), Option.map_some]

/-! ## Values -/

mutual

/-- How many levels of arrays and objects a value has. -/
def levels : Json → Nat
  | .null => 0
  | .bool _ => 0
  | .num _ => 0
  | .str _ => 0
  | .arr items => levelsItems items + 1
  | .obj fields => levelsFields fields + 1

def levelsItems : List Json → Nat
  | [] => 0
  | v :: vs => max (levels v) (levelsItems vs)

def levelsFields : List (String × Json) → Nat
  | [] => 0
  | (_, v) :: fs => max (levels v) (levelsFields fs)

end

mutual

/-- Every number in the value satisfies `P`. -/
def AllNumbers (P : JsonNumber → Prop) : Json → Prop
  | .null => True
  | .bool _ => True
  | .num n => P n
  | .str _ => True
  | .arr items => AllNumbersItems P items
  | .obj fields => AllNumbersFields P fields

def AllNumbersItems (P : JsonNumber → Prop) : List Json → Prop
  | [] => True
  | v :: vs => AllNumbers P v ∧ AllNumbersItems P vs

def AllNumbersFields (P : JsonNumber → Prop) : List (String × Json) → Prop
  | [] => True
  | (_, v) :: fs => AllNumbers P v ∧ AllNumbersFields P fs

end

section

variable {num : List Char → Option JsonNumber}

theorem takeWhile_of_follows : ∀ {l r : List Char}, (∀ c ∈ l, isNumberChar c = true) → Follows r →
    (l ++ r).takeWhile isNumberChar = l ∧ (l ++ r).dropWhile isNumberChar = r
  | [], r, _, hr => by
    cases r with
    | nil => exact ⟨rfl, rfl⟩
    | cons c r =>
      have hc : isNumberChar c = false := by simpa using hr c rfl
      simp [hc]
  | c :: l, r, hl, hr => by
    obtain ⟨h1, h2⟩ := takeWhile_of_follows (fun d hd => hl d (List.mem_cons_of_mem _ hd)) hr
    have hc := hl c (by simp)
    simp [hc, h1, h2]

theorem text_length_pos (v : Json) : 0 < (text v).length := by
  obtain ⟨c, l, h, _⟩ := text_head v
  rw [h]
  simp

/-- No text of a value begins with a blank. -/
theorem skipBlanks_text (v : Json) (r : List Char) : skipBlanks (text v ++ r) = text v ++ r := by
  obtain ⟨c, l, h, hc⟩ := text_head v
  rw [h, List.cons_append]
  refine skipBlanks_cons ?_
  cases hb : isBlank c with
  | false => rfl
  | true =>
    have hclass : openerClass c = c := by
      simp only [isBlank, Bool.or_eq_true, beq_iff_eq] at hb
      rcases hb with ((rfl | rfl) | rfl) | rfl <;> decide
    have hopen : isBlank (opener v) = false := by
      cases v with
      | bool b => cases b <;> rfl
      | _ => rfl
    rw [← hc, hclass, hb] at hopen
    exact absurd hopen (by decide)

/-- The text of a value does not begin with the bracket that would close an array. -/
theorem head?_skipBlanks_text_ne (v : Json) (r : List Char) :
    (skipBlanks (text v ++ r)).head? ≠ some ']' := by
  rw [skipBlanks_text]
  intro h
  cases htext : text v ++ r with
  | nil => simp [htext] at h
  | cons c l =>
    rw [htext] at h
    exact text_head_ne (by decide) opener_ne_closer (htext.trans (by rw [Option.some.inj h]))

theorem itemsText_cons (v : Json) (vs : List Json) :
    itemsText true (v :: vs) = text v ++ itemsText false vs := by
  rw [itemsText]
  rfl

theorem itemsText_false (v : Json) (vs : List Json) :
    itemsText false (v :: vs) = ',' :: itemsText true (v :: vs) := by
  rw [itemsText, itemsText]
  rfl

theorem fieldsText_cons (k : String) (v : Json) (fs : List (String × Json)) :
    fieldsText true ((k, v) :: fs) = quote k ++ ':' :: (text v ++ fieldsText false fs) := by
  rw [fieldsText]
  rfl

theorem fieldsText_false (f : String × Json) (fs : List (String × Json)) :
    fieldsText false (f :: fs) = ',' :: fieldsText true (f :: fs) := by
  obtain ⟨k, v⟩ := f
  rw [fieldsText, fieldsText]
  rfl

theorem length_le_length_escape (l : List Char) : l.length ≤ (l.flatMap escapeChar).length := by
  induction l with
  | nil => simp
  | cons c l ih =>
    obtain ⟨x, m, hx, _⟩ := escapeChar_head c
    simp only [List.flatMap_cons, List.length_append, List.length_cons, hx]
    omega

mutual

/-- **The reader gives back what the serializer wrote.** -/
theorem readValue_text : ∀ (v : Json) (fuel depth : Nat) (r : List Char),
    AllNumbers (fun n => num n.text.toList = some n) v → levels v < depth →
    (text v).length ≤ fuel → Follows r → readValue num fuel depth (text v ++ r) = some (v, r)
  | v, 0, _, _, _, _, hf, _ => absurd hf (by have := text_length_pos v; omega)
  | .null, fuel + 1, depth, r, _, _, _, _ => by
    simp [text, readValue, skipBlanks_cons, isBlank, isNumberChar, readWord]
  | .bool true, fuel + 1, depth, r, _, _, _, _ => by
    simp [text, readValue, skipBlanks_cons, isBlank, isNumberChar, readWord]
  | .bool false, fuel + 1, depth, r, _, _, _, _ => by
    simp [text, readValue, skipBlanks_cons, isBlank, isNumberChar, readWord]
  | .num n, fuel + 1, depth, r, hn, _, _, hr => by
    have hskip := skipBlanks_text (.num n) r
    rw [AllNumbers] at hn
    rw [text] at hskip ⊢
    obtain ⟨htake, hdrop⟩ := takeWhile_of_follows n.alphabet hr
    obtain ⟨l, d, hl, _⟩ := n.last_digit
    cases htext : n.text.toList with
    | nil => simp [hl] at htext
    | cons c m =>
      have hc : isNumberChar c = true := n.alphabet c (by rw [htext]; simp)
      have hne : c ≠ '"' ∧ c ≠ '[' ∧ c ≠ '{' := by
        refine ⟨?_, ?_, ?_⟩ <;> rintro rfl <;> exact absurd hc (by decide)
      rw [htext] at hskip htake hdrop hn
      rw [readValue, hskip, List.cons_append]
      dsimp only
      rw [if_neg hne.1, if_neg hne.2.1, if_neg hne.2.2, if_pos hc, ← List.cons_append,
        readNumber, htake, hdrop, hn, Option.map_some]
  | .str s, fuel + 1, depth, r, _, _, hf, _ => by
    rw [text, quote, List.length_cons, List.length_append, List.length_singleton] at hf
    have hlen := length_le_length_escape s.toList
    have hread := readChars_quote s.toList fuel r (by omega)
    rw [text, quote, List.cons_append, List.append_assoc, List.singleton_append, readValue,
      skipBlanks_cons (by decide)]
    dsimp only
    rw [if_pos rfl, hread, Option.map_some, String.ofList_toList]
  | .arr [], fuel + 1, depth, r, _, hd, _, _ => by
    rw [levels, levelsItems] at hd
    have hdepth : ¬ depth ≤ 1 := by omega
    simp [text, itemsText, readValue, skipBlanks_cons, isBlank, hdepth]
  | .arr (v :: vs), fuel + 1, depth, r, hn, hd, hf, _ => by
    rw [AllNumbers] at hn
    rw [levels] at hd
    rw [text, List.length_cons, List.length_append, List.length_singleton] at hf
    have hitems := readItems_text (v :: vs) fuel (depth - 1) r
      (by simp) hn (by omega) (by omega)
    have hhead := head?_skipBlanks_text_ne v (itemsText false vs ++ ']' :: r)
    rw [← List.append_assoc, ← itemsText_cons] at hhead
    rw [text, List.cons_append, List.append_assoc, List.singleton_append, readValue,
      skipBlanks_cons (by decide)]
    dsimp only
    rw [if_neg (by decide), if_pos rfl, if_neg (by omega), if_neg hhead, hitems, Option.map_some]
  | .obj [], fuel + 1, depth, r, _, hd, _, _ => by
    rw [levels, levelsFields] at hd
    have hdepth : ¬ depth ≤ 1 := by omega
    simp [text, fieldsText, readValue, skipBlanks_cons, isBlank, hdepth]
  | .obj (f :: fs), fuel + 1, depth, r, hn, hd, hf, _ => by
    rw [AllNumbers] at hn
    rw [levels] at hd
    rw [text, List.length_cons, List.length_append, List.length_singleton] at hf
    have hfields := readFields_text (f :: fs) fuel (depth - 1) r
      (by simp) hn (by omega) (by omega)
    have hhead : (skipBlanks (fieldsText true (f :: fs) ++ '}' :: r)).head? ≠ some '}' := by
      obtain ⟨k, v⟩ := f
      rw [fieldsText_cons, quote, List.cons_append, List.cons_append, skipBlanks_cons (by decide)]
      simp
    rw [text, List.cons_append, List.append_assoc, List.singleton_append, readValue,
      skipBlanks_cons (by decide)]
    dsimp only
    rw [if_neg (by decide), if_neg (by decide), if_pos rfl, if_neg (by omega), if_neg hhead,
      hfields, Option.map_some]

theorem readItems_text : ∀ (items : List Json) (fuel depth : Nat) (r : List Char), items ≠ [] →
    AllNumbersItems (fun n => num n.text.toList = some n) items → levelsItems items < depth →
    (itemsText true items).length < fuel →
    readItems num fuel depth (itemsText true items ++ ']' :: r) = some (items, r)
  | [], _, _, _, hne, _, _, _ => absurd rfl hne
  | _ :: _, 0, _, _, _, _, _, hf => absurd hf (by omega)
  | v :: vs, fuel + 1, depth, r, _, hn, hd, hf => by
    rw [AllNumbersItems] at hn
    rw [levelsItems] at hd
    rw [itemsText_cons, List.length_append] at hf
    have hv := readValue_text v fuel depth (itemsText false vs ++ ']' :: r)
      hn.1 (by omega) (by omega) follows_itemsText
    rw [itemsText_cons, List.append_assoc, readItems, hv]
    simp only [Option.bind_eq_bind, Option.bind_some]
    cases hvs : vs with
    | nil => simp [itemsText, skipBlanks_cons, isBlank]
    | cons w ws =>
      rw [← hvs]
      have hrest := readItems_text vs fuel depth r
        (by simp [hvs]) hn.2 (by omega) (by
          rw [hvs, itemsText_false, List.length_cons] at hf
          rw [hvs]
          omega)
      rw [hvs] at hrest ⊢
      rw [itemsText_false, List.cons_append, skipBlanks_cons (by decide)]
      dsimp only
      rw [if_neg (by decide), if_pos rfl, hrest, Option.map_some]

theorem readFields_text : ∀ (fields : List (String × Json)) (fuel depth : Nat) (r : List Char),
    fields ≠ [] → AllNumbersFields (fun n => num n.text.toList = some n) fields →
    levelsFields fields < depth → (fieldsText true fields).length < fuel →
    readFields num fuel depth (fieldsText true fields ++ '}' :: r) = some (fields, r)
  | [], _, _, _, hne, _, _, _ => absurd rfl hne
  | _ :: _, 0, _, _, _, _, _, hf => absurd hf (by omega)
  | (k, v) :: fs, fuel + 1, depth, r, _, hn, hd, hf => by
    rw [AllNumbersFields] at hn
    rw [levelsFields] at hd
    rw [fieldsText_cons, quote] at hf
    simp only [List.length_append, List.length_cons, List.length_nil] at hf
    have hlen := length_le_length_escape k.toList
    have hk := readChars_quote k.toList fuel
      (':' :: (text v ++ (fieldsText false fs ++ '}' :: r))) (by omega)
    have hv := readValue_text v fuel depth (fieldsText false fs ++ '}' :: r) hn.1 (by omega)
        (by omega) follows_fieldsText
    rw [fieldsText_cons, quote, readFields]
    simp only [List.cons_append, List.append_assoc, List.nil_append]
    rw [skipBlanks_cons (by decide)]
    dsimp only
    rw [if_pos rfl, hk]
    simp only [Option.bind_eq_bind, Option.bind_some]
    rw [skipBlanks_cons (by decide)]
    dsimp only
    rw [if_pos rfl, hv]
    simp only [Option.bind_some, String.ofList_toList]
    cases hfs : fs with
    | nil => simp [fieldsText, skipBlanks_cons, isBlank]
    | cons g gs =>
      rw [← hfs]
      have hrest := readFields_text fs fuel depth r
        (by simp [hfs]) hn.2 (by omega) (by
          rw [hfs, fieldsText_false, List.length_cons] at hf
          rw [hfs]
          omega)
      rw [hfs] at hrest ⊢
      rw [fieldsText_false, List.cons_append, skipBlanks_cons (by decide)]
      dsimp only
      rw [if_neg (by decide), if_pos rfl, hrest, Option.map_some]

end

/-- **A text that the serializer wrote parses to its value.** -/
theorem parse_text {v : Json} {depth : Nat}
    (hn : AllNumbers (fun n => num n.text.toList = some n) v)
    (hd : levels v < depth) : parse num depth (text v) = some v := by
  have hread := readValue_text v (text v).length depth [] hn hd
    (Nat.le_refl _) (stopsAt_nil _)
  rw [List.append_nil] at hread
  rw [parse, hread]
  rfl

end

end Json

end Pkzz.Lib
