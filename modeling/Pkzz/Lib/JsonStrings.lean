import Pkzz.Lib.ByteIndex
import Pkzz.Lib.JsonRead

/-!
# The strings in a JSON text

An escape is never shorter than the character it stands for. So the strings of a value that was read
are, all together, no longer than the text it was read from, and a limit on a text is a limit on
what can be taken out of it.
-/

namespace Pkzz.Lib.Json

open ByteIndex

mutual

/-- The octets of all strings in a value, its keys included. -/
def stringBytes : Json → Nat
  | .null => 0
  | .bool _ => 0
  | .num _ => 0
  | .str s => byteLen s.toList
  | .arr items => stringBytesItems items
  | .obj fields => stringBytesFields fields

def stringBytesItems : List Json → Nat
  | [] => 0
  | v :: vs => stringBytes v + stringBytesItems vs

def stringBytesFields : List (String × Json) → Nat
  | [] => 0
  | (k, v) :: fs => byteLen k.toList + (stringBytes v + stringBytesFields fs)

end

/-! ## What is left of a text -/

theorem byteLen_dropWhile_le (p : Char → Bool) (cs : List Char) :
    byteLen (cs.dropWhile p) ≤ byteLen cs := by
  conv_rhs => rw [← List.takeWhile_append_dropWhile (p := p) (l := cs), byteLen_append]
  exact Nat.le_add_left _ _

theorem byteLen_drop_le (n : Nat) (cs : List Char) : byteLen (cs.drop n) ≤ byteLen cs := by
  conv_rhs => rw [← List.take_append_drop n cs, byteLen_append]
  exact Nat.le_add_left _ _

theorem byteLen_skipBlanks_le (cs : List Char) : byteLen (skipBlanks cs) ≤ byteLen cs :=
  byteLen_dropWhile_le _ cs

variable {cs rest : List Char}

theorem byteLen_of_skipBlanks {c : Char} (h : skipBlanks cs = c :: rest) :
    byteLen rest + 1 ≤ byteLen cs := by
  have hle := byteLen_skipBlanks_le cs
  have hpos := Char.utf8Size_pos c
  rw [h, byteLen_cons] at hle
  omega

theorem byteLen_readUnit {n : Nat} (h : readUnit cs = some (n, rest)) :
    byteLen rest + 4 ≤ byteLen cs := by
  match cs, h with
  | a :: b :: c :: d :: cs, h =>
    simp only [readUnit, Option.bind_eq_bind, Option.bind_eq_some_iff, Option.some.injEq,
      Prod.mk.injEq] at h
    obtain ⟨_, _, _, _, _, _, _, _, _, rfl⟩ := h
    have ha := Char.utf8Size_pos a
    have hb := Char.utf8Size_pos b
    have hc := Char.utf8Size_pos c
    have hd := Char.utf8Size_pos d
    simp only [byteLen_cons]
    omega

theorem byteLen_readLowSurrogate {hi : Nat} {x : Char}
    (h : readLowSurrogate hi cs = some (x, rest)) : byteLen rest ≤ byteLen cs := by
  unfold readLowSurrogate at h
  split at h
  · rename_i cs'
    simp only [Option.bind_eq_bind, Option.bind_eq_some_iff] at h
    obtain ⟨⟨n, cs''⟩, hunit, h⟩ := h
    have hle := byteLen_readUnit hunit
    split at h
    · obtain ⟨_, rfl⟩ := Prod.mk.inj (Option.some.inj h)
      simp only [byteLen_cons]
      omega
    · cases h
  · cases h

/-- An escape is no shorter than its character. -/
theorem byteLen_readEscape {x : Char} (h : readEscape cs = some (x, rest)) :
    x.utf8Size + byteLen rest ≤ byteLen cs := by
  have hx := Char.utf8Size_le_four x
  match cs, h with
  | e :: cs, h =>
    have he := Char.utf8Size_pos e
    rw [readEscape] at h
    split at h
    · simp only [Option.bind_eq_bind, Option.bind_eq_some_iff] at h
      obtain ⟨⟨n, cs'⟩, hunit, h⟩ := h
      have hle := byteLen_readUnit hunit
      rw [byteLen_cons]
      dsimp only at h
      split at h
      · have hlow := byteLen_readLowSurrogate h
        omega
      split at h
      · cases h
      · cases h
        omega
    · split at h
      · rename_i hslash
        cases h
        rw [byteLen_cons, hslash]
      · obtain ⟨entry, hfind, hentry⟩ := Option.map_eq_some_iff.mp h
        cases hentry
        -- all short escapes are for characters of one octet
        have hall : shortEscapes.all (fun entry => entry.1.utf8Size == 1) = true := by decide
        have hone := List.all_eq_true.mp hall entry (List.mem_of_find?_eq_some hfind)
        rw [byteLen_cons, eq_of_beq hone]
        omega

theorem byteLen_readChars : ∀ {fuel : Nat} {cs l rest : List Char}, readChars fuel cs =
    some (l, rest) → byteLen l + byteLen rest + 1 ≤ byteLen cs
  | 0, _, _, _, h => by cases h
  | _ + 1, [], _, _, h => by cases h
  | fuel + 1, c :: cs, l, rest, h => by
    have hc := Char.utf8Size_pos c
    rw [readChars] at h
    rw [byteLen_cons]
    split at h
    · cases h
      rw [byteLen_nil]
      omega
    split at h
    · simp only [Option.bind_eq_bind, Option.bind_eq_some_iff, Option.some.injEq,
        Prod.mk.injEq] at h
      obtain ⟨⟨x, cs'⟩, hescape, ⟨l', rest'⟩, hchars, rfl, rfl⟩ := h
      have hx := byteLen_readEscape hescape
      have hl : byteLen l' + byteLen rest' + 1 ≤ byteLen cs' := byteLen_readChars hchars
      rw [byteLen_cons]
      dsimp only
      omega
    · split at h
      · cases h
      · simp only [Option.bind_eq_bind, Option.bind_eq_some_iff, Option.some.injEq,
          Prod.mk.injEq] at h
        obtain ⟨⟨l', rest'⟩, hchars, rfl, rfl⟩ := h
        have hl : byteLen l' + byteLen rest' + 1 ≤ byteLen cs := byteLen_readChars hchars
        rw [byteLen_cons]
        dsimp only
        omega

/-! ## Values -/

section

variable {num : List Char → Option JsonNumber}

theorem byteLen_readWord {cs rest : List Char} {v : Json} (h : readWord cs = some (v, rest)) :
    stringBytes v + byteLen rest ≤ byteLen cs := by
  unfold readWord at h
  split at h
  · cases h
    rw [stringBytes, Nat.zero_add]
    exact byteLen_drop_le _ _
  split at h
  · cases h
    rw [stringBytes, Nat.zero_add]
    exact byteLen_drop_le _ _
  · split at h
    · cases h
      rw [stringBytes, Nat.zero_add]
      exact byteLen_drop_le _ _
    · cases h

theorem byteLen_readNumber {cs rest : List Char} {v : Json}
    (h : readNumber num cs = some (v, rest)) : stringBytes v + byteLen rest ≤ byteLen cs := by
  obtain ⟨n, _, hn⟩ := Option.map_eq_some_iff.mp h
  cases hn
  rw [stringBytes, Nat.zero_add]
  exact byteLen_dropWhile_le _ _

mutual

/-- A value that was read and what is left of the text. -/
theorem stringBytes_readValue : ∀ (fuel depth : Nat) {cs rest : List Char} {v : Json},
    readValue num fuel depth cs = some (v, rest) → stringBytes v + byteLen rest ≤ byteLen cs
  | 0, _, _, _, _, h => by cases h
  | fuel + 1, depth, cs, rest, v, h => by
    rw [readValue] at h
    split at h
    · cases h
    rename_i c cs' hskip
    have hcs := byteLen_of_skipBlanks hskip
    have htail : byteLen (skipBlanks cs').tail ≤ byteLen cs' := by
      rw [← List.drop_one]
      exact Nat.le_trans (byteLen_drop_le _ _) (byteLen_skipBlanks_le _)
    split at h
    · obtain ⟨⟨l, cs''⟩, hchars, hv⟩ := Option.map_eq_some_iff.mp h
      obtain ⟨rfl, rfl⟩ := Prod.mk.inj hv
      have hl : byteLen l + byteLen cs'' + 1 ≤ byteLen cs' := byteLen_readChars hchars
      rw [stringBytes, String.toList_ofList (l := l)]
      omega
    · split at h
      · split at h
        · cases h
        · split at h
          · obtain ⟨rfl, rfl⟩ := Prod.mk.inj (Option.some.inj h)
            rw [stringBytes, stringBytesItems]
            omega
          · obtain ⟨⟨vs, cs''⟩, hitems, hv⟩ := Option.map_eq_some_iff.mp h
            obtain ⟨rfl, rfl⟩ := Prod.mk.inj hv
            have hle := stringBytes_readItems fuel (depth - 1) hitems
            rw [stringBytes]
            omega
      · split at h
        · split at h
          · cases h
          · split at h
            · obtain ⟨rfl, rfl⟩ := Prod.mk.inj (Option.some.inj h)
              rw [stringBytes, stringBytesFields]
              omega
            · obtain ⟨⟨fs, cs''⟩, hfields, hv⟩ := Option.map_eq_some_iff.mp h
              obtain ⟨rfl, rfl⟩ := Prod.mk.inj hv
              have hle := stringBytes_readFields fuel (depth - 1) hfields
              rw [stringBytes]
              omega
        · have hall : byteLen (c :: cs') ≤ byteLen cs := by
            rw [← hskip]
            exact byteLen_skipBlanks_le cs
          split at h
          · exact Nat.le_trans (byteLen_readNumber h) hall
          · exact Nat.le_trans (byteLen_readWord h) hall

theorem stringBytes_readItems : ∀ (fuel depth : Nat) {cs rest : List Char} {vs : List Json},
    readItems num fuel depth cs = some (vs, rest) → stringBytesItems vs + byteLen rest ≤ byteLen cs
  | 0, _, _, _, _, h => by cases h
  | fuel + 1, depth, cs, rest, vs, h => by
    rw [readItems] at h
    obtain ⟨⟨v, cs'⟩, hvalue, h⟩ := Option.bind_eq_some_iff.mp h
    have hv := stringBytes_readValue fuel depth hvalue
    dsimp only at h
    split at h
    · cases h
    rename_i c cs'' hskip
    have hcs := byteLen_of_skipBlanks hskip
    split at h
    · cases h
      rw [stringBytesItems, stringBytesItems]
      omega
    split at h
    · obtain ⟨⟨vs', rest'⟩, hitems, heq⟩ := Option.map_eq_some_iff.mp h
      cases heq
      have hle := stringBytes_readItems fuel depth hitems
      rw [stringBytesItems]
      dsimp only
      omega
    · cases h

theorem stringBytes_readFields :
    ∀ (fuel depth : Nat) {cs rest : List Char} {fs : List (String × Json)},
    readFields num fuel depth cs = some (fs, rest) →
      stringBytesFields fs + byteLen rest ≤ byteLen cs
  | 0, _, _, _, _, h => by cases h
  | fuel + 1, depth, cs, rest, fs, h => by
    rw [readFields] at h
    split at h
    · cases h
    rename_i c cs' hskip
    have hcs := byteLen_of_skipBlanks hskip
    split at h
    · obtain ⟨⟨k, cs''⟩, hchars, h⟩ := Option.bind_eq_some_iff.mp h
      have hk : byteLen k + byteLen cs'' + 1 ≤ byteLen cs' := byteLen_readChars hchars
      dsimp only at h
      split at h
      · cases h
      rename_i d cs3 hskip3
      have hcs3 := byteLen_of_skipBlanks hskip3
      split at h
      · obtain ⟨⟨v, cs4⟩, hvalue, h⟩ := Option.bind_eq_some_iff.mp h
        have hv := stringBytes_readValue fuel depth hvalue
        dsimp only at h
        split at h
        · cases h
        rename_i e cs5 hskip5
        have hcs5 := byteLen_of_skipBlanks hskip5
        split at h
        · cases h
          rw [stringBytesFields, stringBytesFields, String.toList_ofList (l := k)]
          omega
        split at h
        · obtain ⟨⟨fs', rest'⟩, hfields, heq⟩ := Option.map_eq_some_iff.mp h
          cases heq
          have hle := stringBytes_readFields fuel depth hfields
          rw [stringBytesFields, String.toList_ofList (l := k)]
          dsimp only
          omega
        · cases h
      · cases h
    · cases h

end

/-- **The strings of a value are no longer than its text.** -/
theorem stringBytes_parse {depth : Nat} {cs : List Char} {v : Json}
    (h : parse num depth cs = some v) : stringBytes v ≤ byteLen cs := by
  unfold parse at h
  split at h
  · cases h
  rename_i w rest hread
  split at h
  · cases h
    exact Nat.le_trans (Nat.le_add_right _ _) (stringBytes_readValue _ _ hread)
  · cases h

end

end Pkzz.Lib.Json
