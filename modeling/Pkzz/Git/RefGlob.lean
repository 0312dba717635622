import Pkzz.Git.Perms
import Pkzz.Lib.Glob

/-!
# What a ref pattern means

A pattern that is accepted is a glob over the segments of a ref name. `parse` and `matches` meet in
one fact about the list of segments: a `**` stands nowhere but at the end. `parse` establishes it,
and `matches`, which cuts a last `**` off and compares the rest one to one, relies on it where it
says `unreachable!`.
-/

namespace Pkzz.Git

open Pkzz.Lib

/-! ## The panics of `matches` -/

namespace RefPattern

/-- `zip` and `all`, where a `**` panics. -/
def zipOrPanic : List PatternSegment → List String → Option Bool
  | [], _ => some true
  | _ :: _, [] => some true
  | .wildcard :: segments, _ :: refSegments => zipOrPanic segments refSegments
  | .literal lit :: segments, seg :: refSegments =>
    if lit == seg then zipOrPanic segments refSegments else some false
  | .recursiveWildcard :: _, _ :: _ => none

/-- `matches` on any list of segments. -/
def matchesOrPanic (segments : List PatternSegment) (refName : String) : Option Bool :=
  let refSegments := Str.split refName '/'
  if segments.getLast? = some .recursiveWildcard then
    let prefixLen := segments.length - 1
    if refSegments.length ≤ prefixLen then some false
    else zipOrPanic (segments.take prefixLen) (refSegments.take prefixLen)
  else if refSegments.length ≠ segments.length then some false
  else zipOrPanic segments refSegments

theorem zipOrPanic_eq :
    ∀ {segments : List PatternSegment} (h : ∀ s ∈ segments, s ≠ .recursiveWildcard)
    (refSegments : List String), zipOrPanic segments refSegments = some
    (zipMatches segments h refSegments)
  | [], _, _ => rfl
  | _ :: _, _, [] => by
    rw [zipOrPanic, zipMatches]
  | .wildcard :: segments, h, _ :: refSegments => by
    rw [zipOrPanic, zipMatches]
    exact zipOrPanic_eq _ refSegments
  | .literal lit :: segments, h, seg :: refSegments => by
    rw [zipOrPanic, zipMatches]
    by_cases hlit : lit == seg
    · rw [if_pos hlit, hlit, Bool.true_and]
      exact zipOrPanic_eq _ refSegments
    · rw [if_neg hlit, Bool.eq_false_iff.mpr hlit, Bool.false_and]
  | .recursiveWildcard :: _, h, _ :: _ => absurd rfl (h _ List.mem_cons_self)

/-- **No pattern panics.** -/
theorem matchesOrPanic_eq (p : RefPattern) (refName : String) :
    matchesOrPanic p.segments refName = some (p.matches refName) := by
  unfold matchesOrPanic «matches»
  dsimp only
  by_cases h : p.segments.getLast? = some .recursiveWildcard
  · rw [if_pos h, dif_pos h]
    split
    · rfl
    · rw [← List.dropLast_eq_take]
      exact zipOrPanic_eq _ _
  · rw [if_neg h, dif_neg h]
    split
    · rfl
    · exact zipOrPanic_eq _ _

end RefPattern

/-! ## The glob of a pattern -/

def PatternSegment.piece : PatternSegment → Glob.Piece String
  | .literal s => .exactly s
  | .wildcard => .any
  | .recursiveWildcard => .rest

/-- What a part of the pattern's text stands for. -/
def pieceOf (part : String) : Glob.Piece String :=
  if part = "**" then .rest else if part = "*" then .any else .exactly part

theorem piece_ne_rest {s : PatternSegment} (h : s ≠ .recursiveWildcard) : s.piece ≠ .rest := by
  cases s with
  | literal s => nofun
  | wildcard => nofun
  | recursiveWildcard => exact absurd rfl h

theorem zipMatches_iff :
    ∀ {segments : List PatternSegment} (h : ∀ s ∈ segments, s ≠ .recursiveWildcard)
    {refSegments : List String}, refSegments.length = segments.length →
      (RefPattern.zipMatches segments h refSegments = true
        ↔ List.Forall₂ Glob.Piece.Admits (segments.map PatternSegment.piece) refSegments)
  | [], _, [], _ => by simp [RefPattern.zipMatches]
  | .wildcard :: segments, h, _ :: refSegments, hlen => by
    rw [RefPattern.zipMatches, List.map_cons, List.forall₂_cons,
      zipMatches_iff _ (Nat.succ.inj hlen)]
    exact (and_iff_right trivial).symm
  | .literal lit :: segments, h, seg :: refSegments, hlen => by
    rw [RefPattern.zipMatches, List.map_cons, List.forall₂_cons, Bool.and_eq_true, beq_iff_eq,
      zipMatches_iff _ (Nat.succ.inj hlen)]
    rfl
  | .recursiveWildcard :: _, h, _, _ => absurd rfl (h _ List.mem_cons_self)

/-- **A pattern matches as the glob of its segments.** -/
theorem matches_iff_glob (p : RefPattern) (refName : String) :
    p.matches refName = true ↔
      Glob.Matches (p.segments.map PatternSegment.piece) (Str.split refName '/') := by
  unfold RefPattern.matches
  dsimp only
  by_cases h : p.segments.getLast? = some .recursiveWildcard
  · -- the last piece takes what the ones before it leave
    have hne : p.segments ≠ [] := by
      intro hnil
      rw [hnil] at h
      cases h
    have hlast : p.segments.getLast hne = .recursiveWildcard := by
      rw [List.getLast?_eq_some_getLast hne] at h
      exact Option.some.inj h
    have hsplit : p.segments.map PatternSegment.piece
        = p.segments.dropLast.map PatternSegment.piece ++ [.rest] := by
      conv => lhs; rw [← List.dropLast_append_getLast hne, hlast]
      rw [List.map_append]
      rfl
    have hnot : ∀ q ∈ p.segments.dropLast.map PatternSegment.piece, q ≠ .rest := by
      intro q hq
      obtain ⟨s, hs, rfl⟩ := List.mem_map.mp hq
      exact piece_ne_rest (p.recursive_last s hs)
    rw [dif_pos h, hsplit, Glob.matches_append_rest hnot, List.length_map, List.length_dropLast]
    split
    next hle => exact iff_of_false (by simp) (fun hlt => absurd hlt.1 (Nat.not_lt.mpr hle))
    next hgt =>
      have hlen : ((Str.split refName '/').take (p.segments.length - 1)).length =
          p.segments.dropLast.length := by
        rw [List.length_take, List.length_dropLast]
        omega
      rw [zipMatches_iff _ hlen]
      exact (and_iff_right (Nat.not_le.mp hgt)).symm
  · have hnot : ∀ q ∈ p.segments.map PatternSegment.piece, q ≠ .rest := by
      intro q hq
      obtain ⟨s, hs, rfl⟩ := List.mem_map.mp hq
      exact piece_ne_rest (RefPattern.not_recursive_of_getLast p.recursive_last h s hs)
    rw [dif_neg h, Glob.matches_iff_forall₂ hnot]
    split
    next hlen =>
      refine iff_of_false (by simp) ?_
      intro hall
      exact hlen (by rw [← hall.length_eq, List.length_map])
    next hlen => exact zipMatches_iff _ (Decidable.not_not.mp hlen)

/-! ## What `parse` accepts -/

/-- `[a-zA-Z0-9._-]+`. -/
def IsLiteral (part : String) : Prop := part ≠ "" ∧ part.toList.all isLiteralChar = true

instance (part : String) : Decidable (IsLiteral part) := inferInstanceAs (Decidable (_ ∧ _))

def isWildcard (part : String) : Bool := part == "*" || part == "**"

/-- The grammar of patterns. -/
structure Grammar (pattern : String) : Prop where
  refs : Str.startsWith pattern "refs/" = true
  length : Str.len pattern ≤ maxPatternLength
  wildcards : (Str.split pattern '/').countP isWildcard ≤ maxWildcardsPerPattern
  /-- A `**` is the last segment. -/
  recursive : ∀ part ∈ (Str.split pattern '/').dropLast, part ≠ "**"
  segments : ∀ part ∈ Str.split pattern '/', part = "*" ∨ part = "**" ∨ IsLiteral part

/-- What is left to parse, when some wildcards have been seen. -/
structure Parts (wildcardCount : Nat) (parts : List String) : Prop where
  wildcards : wildcardCount + parts.countP isWildcard ≤ maxWildcardsPerPattern
  recursive : ∀ part ∈ parts.dropLast, part ≠ "**"
  segments : ∀ part ∈ parts, part = "*" ∨ part = "**" ∨ IsLiteral part

theorem parts_cons {n : Nat} {part : String} {rest : List String} : Parts n (part :: rest) ↔
    (rest ≠ [] → part ≠ "**") ∧ (part = "*" ∨ part = "**" ∨ IsLiteral part)
      ∧ Parts (n + if isWildcard part then 1 else 0) rest := by
  have hcount : (part :: rest).countP isWildcard = (if isWildcard part then
      1 else 0) + rest.countP isWildcard := by
    rw [List.countP_cons, Nat.add_comm]
  constructor
  · intro h
    have hwildcards := h.wildcards
    rw [hcount, ← Nat.add_assoc] at hwildcards
    refine ⟨?_, h.segments part List.mem_cons_self, hwildcards, ?_, fun q hq =>
      h.segments q (List.mem_cons_of_mem _ hq)⟩
    · intro hne
      refine h.recursive part ?_
      rw [List.dropLast_cons_of_ne_nil hne]
      exact List.mem_cons_self
    · intro q hq
      cases rest with
      | nil => cases hq
      | cons r rest => exact h.recursive q (List.mem_cons_of_mem _ hq)
  · rintro ⟨hlast, hpart, hrest⟩
    refine ⟨?_, ?_, ?_⟩
    · rw [hcount, ← Nat.add_assoc]
      exact hrest.wildcards
    · intro q hq
      cases rest with
      | nil => cases hq
      | cons r rest =>
        rw [List.dropLast_cons_cons] at hq
        rcases List.mem_cons.mp hq with hq | hq
        · rw [hq]
          exact hlast (List.cons_ne_nil _ _)
        · exact hrest.recursive q hq
    · intro q hq
      rcases List.mem_cons.mp hq with hq | hq
      · rw [hq]
        exact hpart
      · exact hrest.segments q hq

theorem isOk_map_cons {α ε : Type} {x : Except ε (List α)} {a : α} :
    (∃ l, x.map (a :: ·) = .ok l) ↔ ∃ l, x = .ok l := by
  cases x with
  | error e => simp [Except.map]
  | ok l => simp [Except.map]

/-- A literal has none of the characters that are looked for before. -/
theorem no_glob_of_isLiteral {part : String} (h : part.toList.all isLiteralChar = true) :
    (part.toList.any fun c => c == '*' || c == '?' || c == '[' || c == ']') = false := by
  refine List.any_eq_false.mpr ?_
  intro c hc
  have hlit := List.all_eq_true.mp h c hc
  simp only [Bool.or_eq_true, beq_iff_eq]
  rintro (((h | h) | h) | h) <;> rw [h] at hlit <;> exact absurd hlit (by decide)

/-- The loop goes through exactly when what is left is as the grammar has it. -/
theorem parseSegments_isOk_iff : ∀ {parts : List String} {n : Nat}, n ≤ maxWildcardsPerPattern →
    ((∃ segments, parseSegments n parts = .ok segments) ↔ Parts n parts)
  | [], n, hn => by
    refine iff_of_true ⟨[], rfl⟩ ⟨?_, by simp, by simp⟩
    exact hn
  | part :: rest, n, hn => by
    rw [parts_cons, parseSegments]
    have hfull : ∀ m, maxWildcardsPerPattern < m → ¬ Parts m rest := by
      intro m hm h
      have hle := h.wildcards
      omega
    by_cases hrec : part = "**"
    · rw [if_pos hrec]
      have hwild : isWildcard part = true := by
        rw [hrec]
        rfl
      rw [hwild, if_pos rfl]
      by_cases hrest : rest ≠ []
      · rw [if_pos hrest]
        exact iff_of_false (by simp) (fun h => h.1 hrest hrec)
      rw [if_neg hrest]
      by_cases hcount : n + 1 > maxWildcardsPerPattern
      · rw [if_pos hcount]
        exact iff_of_false (by simp) (fun h => hfull _ hcount h.2.2)
      · rw [if_neg hcount, isOk_map_cons, parseSegments_isOk_iff (Nat.not_lt.mp hcount)]
        exact ⟨fun h => ⟨fun hne => absurd hne hrest, .inr (.inl hrec), h⟩, fun h => h.2.2⟩
    rw [if_neg hrec]
    by_cases hstar : part = "*"
    · rw [if_pos hstar]
      have hwild : isWildcard part = true := by
        rw [hstar]
        rfl
      rw [hwild, if_pos rfl]
      by_cases hcount : n + 1 > maxWildcardsPerPattern
      · rw [if_pos hcount]
        exact iff_of_false (by simp) (fun h => hfull _ hcount h.2.2)
      · rw [if_neg hcount, isOk_map_cons, parseSegments_isOk_iff (Nat.not_lt.mp hcount)]
        exact ⟨fun h => ⟨fun _ => hrec, .inl hstar, h⟩, fun h => h.2.2⟩
    rw [if_neg hstar]
    have hplain : isWildcard part = false := by
      unfold isWildcard
      simp [hrec, hstar]
    have hneeds : (part = "*" ∨ part = "**" ∨ IsLiteral part) → IsLiteral part :=
      fun h => (h.resolve_left hstar).resolve_left hrec
    rw [hplain]
    by_cases hempty : part = ""
    · rw [if_pos hempty]
      exact iff_of_false (by simp) (fun h => (hneeds h.2.1).1 hempty)
    rw [if_neg hempty]
    by_cases hall : part.toList.all isLiteralChar = true
    · rw [no_glob_of_isLiteral hall, hall, if_neg Bool.false_ne_true, if_neg (by decide),
        isOk_map_cons, parseSegments_isOk_iff hn]
      exact ⟨fun h => ⟨fun _ => hrec, .inr (.inr ⟨hempty, hall⟩), h⟩, fun h => h.2.2⟩
    -- either check refuses it
    refine iff_of_false ?_ (fun h => hall (hneeds h.2.1).2)
    rintro ⟨segments, h⟩
    split at h
    · cases h
    · rw [if_pos (by simpa using hall)] at h
      cases h

theorem parseSegments_pieces : ∀ {parts : List String} {n : Nat} {segments : List PatternSegment},
    parseSegments n parts = .ok segments → segments.map PatternSegment.piece = parts.map pieceOf
  | [], n, segments, h => by
    cases h
    rfl
  | part :: rest, n, segments, h => by
    have hcons : ∀ {m : Nat} {seg : PatternSegment}, (parseSegments m rest).map (seg :: ·) =
        .ok segments →
        seg.piece = pieceOf part →
          segments.map PatternSegment.piece = (part :: rest).map pieceOf := by
      intro m seg hm hpiece
      obtain ⟨l, hl, rfl⟩ := map_cons_eq_ok hm
      rw [List.map_cons, List.map_cons, hpiece, parseSegments_pieces hl]
    unfold parseSegments at h
    split at h
    next hrec =>
      split at h
      · cases h
      split at h
      · cases h
      · refine hcons h ?_
        rw [hrec]
        rfl
    next hrec =>
      split at h
      next hstar =>
        split at h
        · cases h
        · refine hcons h ?_
          rw [hstar]
          rfl
      next hstar =>
        split at h
        · cases h
        split at h
        · cases h
        split at h
        · cases h
        · refine hcons h ?_
          unfold pieceOf
          rw [if_neg hrec, if_neg hstar]
          rfl

namespace RefPattern

theorem segments_of_parse {pattern : String} {p : RefPattern} (h : parse pattern = .ok p) :
    parseSegments 0 (Str.split pattern '/') = .ok p.segments := by
  unfold parse at h
  split at h
  · cases h
  split at h
  · cases h
  split at h
  · cases h
  · split at h
    · cases h
    next segments hsegments =>
      cases h
      exact hsegments

theorem parse_isOk_iff (pattern : String) : (∃ p, parse pattern = .ok p) ↔ Grammar pattern := by
  have hgrammar : ∀ (_ : Str.startsWith pattern "refs/" = true)
      (_ : Str.len pattern ≤ maxPatternLength),
      Parts 0 (Str.split pattern '/') ↔ Grammar pattern := by
    intro hrefs hlen
    constructor
    · intro h
      exact ⟨hrefs, hlen, by simpa using h.wildcards, h.recursive, h.segments⟩
    · intro h
      exact ⟨by simpa using h.wildcards, h.recursive, h.segments⟩
  unfold parse
  by_cases hempty : pattern = ""
  · rw [if_pos hempty]
    refine iff_of_false nofun ?_
    intro h
    have hrefs := h.refs
    rw [hempty] at hrefs
    exact absurd hrefs (by decide)
  rw [if_neg hempty]
  by_cases hlen : Str.len pattern > maxPatternLength
  · rw [if_pos hlen]
    exact iff_of_false nofun (fun h => absurd h.length (Nat.not_le.mpr hlen))
  rw [if_neg hlen]
  by_cases hrefs : Str.startsWith pattern "refs/" = true
  · rw [hrefs, if_neg (by decide), ← hgrammar hrefs (Nat.not_lt.mp hlen),
      ← parseSegments_isOk_iff (Nat.zero_le _)]
    constructor
    · rintro ⟨p, h⟩
      split at h
      · cases h
      next segments hsegments => exact ⟨segments, hsegments⟩
    · rintro ⟨segments, hsegments⟩
      split
      next e herror =>
        rw [hsegments] at herror
        cases herror
      next segments' _ => exact ⟨_, rfl⟩
  · rw [Bool.eq_false_iff.mpr hrefs, if_pos (by decide)]
    exact iff_of_false nofun (fun h => hrefs h.refs)

/-- **Ref patterns are globs.** `parse` accepts the grammar. A pattern it returns matches a ref name
exactly when the glob of the pattern's parts matches the segments of the name, and it never panics.
-/
theorem ref_pattern_exact (pattern : String) :
    ((∃ p, parse pattern = .ok p) ↔ Grammar pattern)
      ∧ ∀ p, parse pattern = .ok p → ∀ refName,
          matchesOrPanic p.segments refName = some (p.matches refName)
            ∧ (p.matches refName = true
              ↔ Glob.Matches ((Str.split pattern '/').map pieceOf) (Str.split refName '/')) := by
  refine ⟨parse_isOk_iff pattern, ?_⟩
  intro p h refName
  refine ⟨matchesOrPanic_eq p refName, ?_⟩
  rw [matches_iff_glob, parseSegments_pieces (segments_of_parse h)]

/-- A branch of any depth. -/
theorem ref_pattern_exact_heads :
    ∃ p, parse "refs/heads/**" = .ok p ∧ p.matches "refs/heads/a/b" = true ∧
      p.matches "refs/heads" = false := by
  have hexact := ref_pattern_exact "refs/heads/**"
  obtain ⟨p, hp⟩ := hexact.1.mpr ⟨by decide, by decide, by decide, by decide, by decide⟩
  refine ⟨p, hp, ((hexact.2 p hp "refs/heads/a/b").2).mpr ?_, ?_⟩
  · exact .cons rfl (.cons rfl .rest)
  · refine Bool.eq_false_iff.mpr fun hmatches => ?_
    have hglob := ((hexact.2 p hp "refs/heads").2).mp hmatches
    have hsplit : Str.split "refs/heads" '/' = ["refs", "heads"] := by decide
    rw [hsplit] at hglob
    cases hglob with
    | cons _ h =>
      cases h with
      | cons _ h => cases h

end RefPattern

end Pkzz.Git
