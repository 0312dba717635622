import Pkzz.Lib.Str

/-!
# Git permissions

`buzz-core`'s `git_perms.rs` with the roles of `channel.rs`. A repository announcement
carries `buzz-protect` tags; each is parsed into a rule for the refs that match a pattern.
A push is decided ref by ref: the rules whose pattern matches are unioned, and when there
is none the built-in default role of the ref decides alone.
-/

namespace Pkzz.Git

open Pkzz.Lib

/-! ## Roles -/

inductive MemberRole where
  | owner
  | admin
  | member
  | guest
  | bot
  deriving DecidableEq

namespace MemberRole

def asStr : MemberRole → String
  | owner => "owner"
  | admin => "admin"
  | member => "member"
  | guest => "guest"
  | bot => "bot"

def fromStr : String → Option MemberRole
  | "owner" => some owner
  | "admin" => some admin
  | "member" => some member
  | "guest" => some guest
  | "bot" => some bot
  | _ => none

def permissionLevel : MemberRole → Nat
  | owner => 4
  | admin => 3
  | member => 2
  | guest => 1
  | bot => 0

def hasAtLeast (role required : MemberRole) : Bool :=
  role.permissionLevel ≥ required.permissionLevel

/-- Keep the role with the higher permission level; the earlier one on a tie. -/
def strictest (current : Option MemberRole) (role : MemberRole) : MemberRole :=
  match current with
  | none => role
  | some existing => if role.permissionLevel > existing.permissionLevel then role else existing

end MemberRole

/-! ## Ref patterns -/

def maxProtectionRules : Nat := 50
def maxPatternLength : Nat := 256
def maxWildcardsPerPattern : Nat := 3

inductive PatternSegment where
  | literal (s : String)
  | wildcard
  | recursiveWildcard
  deriving DecidableEq

inductive PatternError where
  | empty
  | tooLong
  | missingRefsPrefix
  | invalidSegment (segment : String)
  | tooManyWildcards
  deriving DecidableEq

/-- A ref pattern. A `**` stands nowhere but at the end. -/
structure RefPattern where
  raw : String
  segments : List PatternSegment
  recursive_last : ∀ s ∈ segments.dropLast, s ≠ .recursiveWildcard

def isLiteralChar (c : Char) : Bool := c.isAlphanum || c == '.' || c == '_' || c == '-'

/-- The loop of `parse` over the parts of a pattern. -/
def parseSegments (wildcardCount : Nat) : List String → Except PatternError (List PatternSegment)
  | [] => .ok []
  | part :: rest =>
    if part = "**" then
      if rest ≠ [] then .error (.invalidSegment "** must be the last segment")
      else if wildcardCount + 1 > maxWildcardsPerPattern then .error .tooManyWildcards
      else (parseSegments (wildcardCount + 1) rest).map (.recursiveWildcard :: ·)
    else if part = "*" then
      if wildcardCount + 1 > maxWildcardsPerPattern then .error .tooManyWildcards
      else (parseSegments (wildcardCount + 1) rest).map (.wildcard :: ·)
    else if part = "" then .error (.invalidSegment "")
    else if part.toList.any fun c => c == '*' || c == '?' || c == '[' || c == ']' then
      .error (.invalidSegment part)
    else if !(part.toList.all isLiteralChar) then .error (.invalidSegment part)
    else (parseSegments wildcardCount rest).map (.literal part :: ·)

theorem map_cons_eq_ok {α ε : Type} {x : Except ε (List α)} {a : α} {l : List α}
    (h : x.map (a :: ·) = .ok l) : ∃ l', x = .ok l' ∧ l = a :: l' := by
  cases x with
  | error e => exact absurd h (by simp [Except.map])
  | ok l' => exact ⟨l', rfl, by simpa [Except.map, eq_comm] using h⟩

theorem parseSegments_recursive_last :
    ∀ {parts : List String} {n : Nat} {segments : List PatternSegment},
      parseSegments n parts = .ok segments → ∀ s ∈ segments.dropLast, s ≠ .recursiveWildcard
  | [], n, segments, h => by
    have hs : segments = [] := by simpa [parseSegments, eq_comm] using h
    subst hs
    simp
  | part :: rest, n, segments, h => by
    -- a segment other than `**` keeps the property of what follows it
    have keep : ∀ {m : Nat} {seg : PatternSegment}, seg ≠ .recursiveWildcard →
        (parseSegments m rest).map (seg :: ·) = .ok segments →
        ∀ s ∈ segments.dropLast, s ≠ .recursiveWildcard := by
      intro m seg hseg hm s hs
      obtain ⟨l, hl, rfl⟩ := map_cons_eq_ok hm
      cases l with
      | nil => exact absurd hs (by simp)
      | cons b l =>
        rw [List.dropLast_cons_cons, List.mem_cons] at hs
        rcases hs with rfl | hs
        · exact hseg
        · exact parseSegments_recursive_last hl s hs
    unfold parseSegments at h
    split at h
    · split at h
      · exact absurd h (by simp)
      · split at h
        · exact absurd h (by simp)
        · rename_i hrest _
          obtain ⟨l, hl, rfl⟩ := map_cons_eq_ok h
          have hr : rest = [] := by simpa using hrest
          subst hr
          have hl' : l = [] := by simpa [parseSegments, eq_comm] using hl
          subst hl'
          simp
    · split at h
      · split at h
        · exact absurd h (by simp)
        · exact keep (by simp) h
      · split at h
        · exact absurd h (by simp)
        · split at h
          · exact absurd h (by simp)
          · split at h
            · exact absurd h (by simp)
            · exact keep (by simp) h

namespace RefPattern

def parse (pattern : String) : Except PatternError RefPattern :=
  if pattern = "" then .error .empty
  else if Str.len pattern > maxPatternLength then .error .tooLong
  else if !Str.startsWith pattern "refs/" then .error .missingRefsPrefix
  else
    match h : parseSegments 0 (Str.split pattern '/') with
    | .error e => .error e
    | .ok segments => .ok ⟨pattern, segments, parseSegments_recursive_last h⟩

/--
`zip` and `all` over segments among which there is no `**`: the source's `unreachable!`
branch needs a proof that it is one.
-/
def zipMatches :
    (segments : List PatternSegment) → (∀ s ∈ segments, s ≠ .recursiveWildcard) →
      List String → Bool
  | [], _, _ => true
  | _ :: _, _, [] => true
  | .wildcard :: segments, h, _ :: refSegments =>
    zipMatches segments (fun s hs => h s (List.mem_cons_of_mem _ hs)) refSegments
  | .literal lit :: segments, h, seg :: refSegments =>
    lit == seg
      && zipMatches segments (fun s hs => h s (List.mem_cons_of_mem _ hs)) refSegments
  | .recursiveWildcard :: _, h, _ :: _ => absurd rfl (h _ (by simp))

theorem not_recursive_of_getLast {segments : List PatternSegment}
    (h : ∀ s ∈ segments.dropLast, s ≠ .recursiveWildcard)
    (hlast : segments.getLast? ≠ some .recursiveWildcard) :
    ∀ s ∈ segments, s ≠ .recursiveWildcard := by
  intro s hs
  have hne : segments ≠ [] := List.ne_nil_of_mem hs
  rw [← List.dropLast_append_getLast hne, List.mem_append, List.mem_singleton] at hs
  rcases hs with hs | hs
  · exact h s hs
  · intro hr
    rw [List.getLast?_eq_some_getLast hne, ← hs, hr] at hlast
    exact hlast rfl

def «matches» (p : RefPattern) (refName : String) : Bool :=
  let refSegments := Str.split refName '/'
  if h : p.segments.getLast? = some .recursiveWildcard then
    let prefixLen := p.segments.length - 1
    if refSegments.length ≤ prefixLen then false
    else zipMatches p.segments.dropLast p.recursive_last (refSegments.take prefixLen)
  else if refSegments.length ≠ p.segments.length then false
  else zipMatches p.segments (not_recursive_of_getLast p.recursive_last h) refSegments

end RefPattern

/-! ## Ref updates -/

inductive UpdateKind where
  | create
  | fastForward
  | nonFastForward
  | delete
  deriving DecidableEq

def zeroOid : String := "0000000000000000000000000000000000000000"

def UpdateKind.classify (oldOid newOid : String) (isAncestor : Bool) : UpdateKind :=
  if oldOid = zeroOid then .create
  else if newOid = zeroOid then .delete
  else if isAncestor then .fastForward
  else .nonFastForward

structure RefUpdate where
  refName : String
  kind : UpdateKind
  oldOid : String
  newOid : String
  deriving DecidableEq

/-! ## Protection rules -/

structure ProtectionRule where
  pattern : RefPattern
  pushRole : Option MemberRole
  noForcePush : Bool
  noDelete : Bool
  requirePatch : Bool

inductive RuleParseError where
  | tooFewValues
  | tooManyRules
  | invalidPattern (e : PatternError)
  | invalidRole (role : String)
  deriving DecidableEq

/-- One rule string of a `buzz-protect` tag; an unknown one is collected and skipped. -/
def parseRuleString (acc : ProtectionRule × List String) (ruleStr : String) :
    Except RuleParseError (ProtectionRule × List String) :=
  let (rule, unknown) := acc
  match Str.stripPrefix ruleStr "push:" with
  | some roleStr =>
    match MemberRole.fromStr roleStr with
    | none => .error (.invalidRole roleStr)
    | some .bot => .error (.invalidRole roleStr)
    | some .guest => .error (.invalidRole roleStr)
    | some role =>
      .ok ({ rule with pushRole := some (MemberRole.strictest rule.pushRole role) }, unknown)
  | none =>
    if ruleStr = "no-force-push" then .ok ({ rule with noForcePush := true }, unknown)
    else if ruleStr = "no-delete" then .ok ({ rule with noDelete := true }, unknown)
    else if ruleStr = "require-patch" then .ok ({ rule with requirePatch := true }, unknown)
    else .ok (rule, unknown ++ [ruleStr])

def parseProtectionTagWithWarnings (values : List String) :
    Except RuleParseError (ProtectionRule × List String) :=
  match values with
  | [] => .error .tooFewValues
  | [_] => .error .tooFewValues
  | pattern :: ruleStrs => do
      let pattern ← (RefPattern.parse pattern).mapError .invalidPattern
      ruleStrs.foldlM parseRuleString (⟨pattern, none, false, false, false⟩, [])

/-- One round of the loop in `parse_protection_tags`. -/
def parseProtectionTagsStep (acc : List ProtectionRule × List String) (tag : List String) :
    Except RuleParseError (List ProtectionRule × List String) :=
  match tag with
  | "buzz-protect" :: values =>
    if acc.1.length ≥ maxProtectionRules then .error .tooManyRules
    else do
      let (rule, unknown) ← parseProtectionTagWithWarnings values
      .ok (acc.1 ++ [rule], acc.2 ++ unknown)
  | _ => .ok acc

/-- The rules of a repository, and the rule strings nobody knows. -/
def parseProtectionTags (tags : List (List String)) :
    Except RuleParseError (List ProtectionRule × List String) :=
  tags.foldlM parseProtectionTagsStep ([], [])

/-! ## Evaluation -/

/-- The role an operation takes when no rule matches the ref. -/
def defaultMinRole (refName : String) (kind : UpdateKind) : MemberRole :=
  let isBranch := Str.startsWith refName "refs/heads/"
  let isTag := Str.startsWith refName "refs/tags/"
  match kind with
  | .create => if isBranch || isTag then .member else .admin
  | .fastForward =>
    if isBranch then .member
    -- moving a tag
    else if isTag then .admin
    else .admin
  | .nonFastForward => .admin
  | .delete => .admin

/-- The constraints on a ref after unioning all the rules that match it. -/
structure EffectiveRules where
  pushRole : Option MemberRole
  noForcePush : Bool
  noDelete : Bool
  requirePatch : Bool
  hasExplicitMatch : Bool
  deriving DecidableEq

namespace EffectiveRules

/-- One round of the loop in `for_ref`. -/
def union (refName : String) (e : EffectiveRules) (rule : ProtectionRule) : EffectiveRules :=
  if !rule.pattern.matches refName then e
  else
    { pushRole :=
        match rule.pushRole with
        | some role => some (MemberRole.strictest e.pushRole role)
        | none => e.pushRole
      noForcePush := e.noForcePush || rule.noForcePush
      noDelete := e.noDelete || rule.noDelete
      requirePatch := e.requirePatch || rule.requirePatch
      hasExplicitMatch := true }

def forRef (refName : String) (rules : List ProtectionRule) : EffectiveRules :=
  rules.foldl (union refName) ⟨none, false, false, false, false⟩

end EffectiveRules

structure Denial where
  refName : String
  reason : String
  deriving DecidableEq

/-- An explicit role never weakens the default: the higher of the two counts. -/
def explicitMinRole (pushRole : Option MemberRole) (defaultRole : MemberRole) : MemberRole :=
  match pushRole with
  | some explicit =>
    if explicit.permissionLevel ≥ defaultRole.permissionLevel then explicit else defaultRole
  | none => defaultRole

def evaluateRefUpdate (update : RefUpdate) (role : MemberRole) (rules : List ProtectionRule) :
    Except Denial Unit :=
  let effective := EffectiveRules.forRef update.refName rules
  let defaultRole := defaultMinRole update.refName update.kind
  if !effective.hasExplicitMatch then
    if !role.hasAtLeast defaultRole then
      .error ⟨update.refName,
        s!"requires {defaultRole.asStr} role (you have {role.asStr}), using built-in defaults"⟩
    else .ok ()
  else if effective.requirePatch then
    .error ⟨update.refName, "direct push denied: require-patch is set, submit a NIP-34 patch"⟩
  else
    let minRole := explicitMinRole effective.pushRole defaultRole
    if !role.hasAtLeast minRole then
      .error ⟨update.refName, s!"requires {minRole.asStr} role (you have {role.asStr})"⟩
    else if effective.noForcePush ∧ update.kind = .nonFastForward then
      .error ⟨update.refName, "non-fast-forward update denied: no-force-push is set"⟩
    else if effective.noDelete ∧ update.kind = .delete then
      .error ⟨update.refName, "ref deletion denied: no-delete is set"⟩
    else .ok ()

/-- The denial of an update, if it is denied. -/
def denialOf (role : MemberRole) (rules : List ProtectionRule) (update : RefUpdate) :
    Option Denial :=
  match evaluateRefUpdate update role rules with
  | .ok () => none
  | .error d => some d

/-- A push is atomic: one denied ref rejects all of it. -/
def evaluatePush (updates : List RefUpdate) (role : MemberRole) (rules : List ProtectionRule) :
    Except (List Denial) Unit :=
  let denials := updates.filterMap (denialOf role rules)
  if denials.isEmpty then .ok () else .error denials

end Pkzz.Git
