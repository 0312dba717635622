import Mathlib.Data.List.Perm.Basic
import Pkzz.Git.Perms

/-!
# Protection rules only ever restrict

What a push has to satisfy, said without any of the machinery that decides it: the role
reaches the built-in default of the ref, and every rule that matches the ref admits the
update. `evaluate_ref_update` unions the rules first and takes one of two paths depending
on whether any matched; it decides exactly this. Everything else about the policy can be
read off the specification, because nothing in it gets easier when a rule is added.
-/

namespace Pkzz.Git

/-- What one matching rule asks of an update and of the role that pushes it. -/
structure ProtectionRule.Admits (rule : ProtectionRule) (update : RefUpdate) (role : MemberRole) :
    Prop where
  /-- The ref is not reserved for the patch workflow. -/
  direct : rule.requirePatch = false
  /-- The role reaches the rule's own minimum. -/
  role : ∀ required, rule.pushRole = some required →
    required.permissionLevel ≤ role.permissionLevel
  /-- A forbidden force push is not one. -/
  force : rule.noForcePush = true → update.kind ≠ .nonFastForward
  /-- A forbidden deletion is not one. -/
  delete : rule.noDelete = true → update.kind ≠ .delete

/-- What a ref update has to satisfy. -/
structure UpdateAllowed (update : RefUpdate) (role : MemberRole) (rules : List ProtectionRule) :
    Prop where
  /-- The role reaches the built-in default of the ref. -/
  default : (defaultMinRole update.refName update.kind).permissionLevel ≤ role.permissionLevel
  /-- Every matching rule admits the update. -/
  rules : ∀ rule ∈ rules, rule.pattern.matches update.refName = true → rule.Admits update role

variable {update : RefUpdate} {role : MemberRole} {rules : List ProtectionRule}

theorem UpdateAllowed.of_subset {rules' : List ProtectionRule}
    (h : UpdateAllowed update role rules')
    (hsub : ∀ rule ∈ rules, rule ∈ rules') : UpdateAllowed update role rules :=
  ⟨h.default, fun rule hr => h.rules rule (hsub rule hr)⟩

theorem UpdateAllowed.of_role_le {role' : MemberRole} (h : UpdateAllowed update role rules)
    (hle : role.permissionLevel ≤ role'.permissionLevel) : UpdateAllowed update role' rules := by
  refine ⟨Nat.le_trans h.default hle, ?_⟩
  intro rule hr hm
  have ha := h.rules rule hr hm
  exact ⟨ha.direct, fun required hreq => Nat.le_trans (ha.role required hreq) hle, ha.force,
    ha.delete⟩

/-! ## What the union of the matching rules says -/

namespace EffectiveRules

/-- The unioned constraints admit an update: the shape `Admits` has for one rule. -/
structure Admits (e : EffectiveRules) (update : RefUpdate) (role : MemberRole) : Prop where
  direct : e.requirePatch = false
  role : ∀ required, e.pushRole = some required → required.permissionLevel ≤ role.permissionLevel
  force : e.noForcePush = true → update.kind ≠ .nonFastForward
  delete : e.noDelete = true → update.kind ≠ .delete

/-- The strictest of two roles is reached exactly when both are. -/
theorem strictest_le {current : Option MemberRole} {role : MemberRole} {n : Nat} :
    (MemberRole.strictest current role).permissionLevel ≤ n
      ↔ (∀ existing, current = some existing → existing.permissionLevel ≤ n)
        ∧ role.permissionLevel ≤ n := by
  unfold MemberRole.strictest
  cases current with
  | none => simp
  | some existing =>
    simp only [Option.some.injEq, forall_eq']
    split <;> omega

variable {refName : String}

/-- **One rule of the union.** A rule that does not match changes nothing; one that does
adds its own demands to those already there. -/
theorem admits_union {e : EffectiveRules} {rule : ProtectionRule}
    {update : RefUpdate} {role : MemberRole} :
    (union refName e rule).Admits update role
      ↔ e.Admits update role ∧ (rule.pattern.matches refName = true → rule.Admits update role) := by
  unfold union
  cases hm : rule.pattern.matches refName with
  | false => simp
  | true =>
    rw [if_neg (by simp)]
    constructor
    · rintro ⟨hd, hr, hf, hdel⟩
      dsimp only at hd hr hf hdel
      obtain ⟨hd1, hd2⟩ := Bool.or_eq_false_iff.mp hd
      refine ⟨⟨hd1, ?_, fun h => hf (by simp [h]), fun h => hdel (by simp [h])⟩, fun _ =>
        ⟨hd2, ?_, fun h => hf (by simp [h]), fun h => hdel (by simp [h])⟩⟩
      · intro required hreq
        cases hp : rule.pushRole with
        | none =>
          rw [hp] at hr
          exact hr required hreq
        | some own =>
          rw [hp] at hr
          exact (strictest_le.mp (hr _ rfl)).1 required hreq
      · intro required hreq
        rw [hreq] at hr
        exact (strictest_le.mp (hr _ rfl)).2
    · rintro ⟨⟨hd, hr, hf, hdel⟩, hrule⟩
      obtain ⟨hd', hr', hf', hdel'⟩ := hrule rfl
      refine ⟨by simp [hd, hd'], ?_, ?_, ?_⟩
      · intro required hreq
        dsimp only at hreq
        cases hp : rule.pushRole with
        | none =>
          rw [hp] at hreq
          exact hr required hreq
        | some own =>
          rw [hp, Option.some.injEq] at hreq
          rw [← hreq]
          exact strictest_le.mpr ⟨hr, hr' own hp⟩
      · intro h
        rcases Bool.or_eq_true_iff.mp h with h | h
        · exact hf h
        · exact hf' h
      · intro h
        rcases Bool.or_eq_true_iff.mp h with h | h
        · exact hdel h
        · exact hdel' h

theorem admits_foldl_union {update : RefUpdate} {role : MemberRole} :
    ∀ (rules : List ProtectionRule) (e : EffectiveRules),
      (rules.foldl (union refName) e).Admits update role
        ↔ e.Admits update role
          ∧ ∀ rule ∈ rules, rule.pattern.matches refName = true → rule.Admits update role
  | [], e => by simp
  | rule :: rules, e => by
    rw [List.foldl_cons, admits_foldl_union rules, admits_union, List.forall_mem_cons, and_assoc]

theorem hasExplicitMatch_foldl_union :
    ∀ (rules : List ProtectionRule) (e : EffectiveRules),
      (rules.foldl (union refName) e).hasExplicitMatch = true
        ↔ e.hasExplicitMatch = true ∨ ∃ rule ∈ rules, rule.pattern.matches refName = true
  | [], e => by simp
  | rule :: rules, e => by
    rw [List.foldl_cons, hasExplicitMatch_foldl_union rules]
    unfold union
    cases hm : rule.pattern.matches refName with
    | false => simp [hm]
    | true => simp [hm]

theorem admits_forRef {rules : List ProtectionRule} {update : RefUpdate} {role : MemberRole} :
    (forRef refName rules).Admits update role
      ↔ ∀ rule ∈ rules, rule.pattern.matches refName = true → rule.Admits update role := by
  unfold forRef
  rw [admits_foldl_union]
  constructor
  · exact And.right
  · intro h
    exact ⟨⟨rfl, by simp, by simp, by simp⟩, h⟩

theorem hasExplicitMatch_forRef {rules : List ProtectionRule} :
    (forRef refName rules).hasExplicitMatch = true
      ↔ ∃ rule ∈ rules, rule.pattern.matches refName = true := by
  unfold forRef
  rw [hasExplicitMatch_foldl_union]
  simp

end EffectiveRules

/-! ## The decision -/

theorem explicitMinRole_le {pushRole : Option MemberRole} {defaultRole : MemberRole} {n : Nat} :
    (explicitMinRole pushRole defaultRole).permissionLevel ≤ n
      ↔ (∀ required, pushRole = some required → required.permissionLevel ≤ n)
        ∧ defaultRole.permissionLevel ≤ n := by
  unfold explicitMinRole
  cases pushRole with
  | none => simp
  | some explicit =>
    simp only [Option.some.injEq, forall_eq']
    split <;> omega

/-- **A ref update is accepted exactly when it is allowed.** -/
theorem evaluateRefUpdate_eq_ok :
    evaluateRefUpdate update role rules = .ok () ↔ UpdateAllowed update role rules := by
  have hadmits := @EffectiveRules.admits_forRef update.refName rules update role
  have hmatch := @EffectiveRules.hasExplicitMatch_forRef update.refName rules
  unfold evaluateRefUpdate MemberRole.hasAtLeast
  dsimp only
  split
  · -- no rule matches, so the default decides alone
    rename_i hno
    have hnone : ∀ rule ∈ rules, rule.pattern.matches update.refName = true →
        rule.Admits update role := by
      intro rule hr hm
      rw [hmatch.mpr ⟨rule, hr, hm⟩] at hno
      exact absurd hno (by simp)
    split
    · rename_i hlt
      constructor
      · intro h
        exact absurd h (by simp)
      · intro h
        exact absurd h.default (by simpa using hlt)
    · rename_i hge
      constructor
      · intro _
        exact ⟨by simpa using hge, hnone⟩
      · intro _
        rfl
  · generalize EffectiveRules.forRef update.refName rules = e at hadmits
    -- the checks run in the order of the source, each for one part of `Admits`
    have hspec : UpdateAllowed update role rules
        ↔ (defaultMinRole update.refName update.kind).permissionLevel ≤ role.permissionLevel
          ∧ e.Admits update role := by
      rw [hadmits]
      exact ⟨fun h => ⟨h.default, h.rules⟩, fun h => ⟨h.1, h.2⟩⟩
    rw [hspec]
    split
    · rename_i hpatch
      constructor
      · intro h
        exact absurd h (by simp)
      · rintro ⟨_, ha⟩
        rw [ha.direct] at hpatch
        exact absurd hpatch (by simp)
    · rename_i hpatch
      split
      · rename_i hlt
        rw [Bool.not_eq_true', decide_eq_false_iff_not, ge_iff_le] at hlt
        constructor
        · intro h
          exact absurd h (by simp)
        · rintro ⟨hd, ha⟩
          exact absurd (explicitMinRole_le.mpr ⟨ha.role, hd⟩) hlt
      · rename_i hge
        rw [Bool.not_eq_true', decide_eq_false_iff_not, not_not, ge_iff_le] at hge
        obtain ⟨hrole, hdefault⟩ := explicitMinRole_le.mp hge
        split
        · rename_i hf
          constructor
          · intro h
            exact absurd h (by simp)
          · rintro ⟨_, ha⟩
            exact absurd hf.2 (ha.force hf.1)
        · rename_i hf
          split
          · rename_i hd
            constructor
            · intro h
              exact absurd h (by simp)
            · rintro ⟨_, ha⟩
              exact absurd hd.2 (ha.delete hd.1)
          · rename_i hd
            constructor
            · intro _
              exact ⟨hdefault, by simpa using hpatch, hrole, fun h1 h2 => hf ⟨h1, h2⟩,
                fun h1 h2 => hd ⟨h1, h2⟩⟩
            · intro _
              rfl

theorem denialOf_eq_none :
    denialOf role rules update = none ↔ evaluateRefUpdate update role rules = .ok () := by
  unfold denialOf
  split
  · rename_i h
    simp [h]
  · rename_i h
    simp [h]

/-- **A push is accepted exactly when every one of its updates is allowed.** -/
theorem evaluatePush_eq_ok {updates : List RefUpdate} :
    evaluatePush updates role rules = .ok () ↔ ∀ u ∈ updates, UpdateAllowed u role rules := by
  have hnil : updates.filterMap (denialOf role rules) = []
      ↔ ∀ u ∈ updates, UpdateAllowed u role rules := by
    rw [List.filterMap_eq_nil_iff]
    refine forall₂_congr fun u _ => ?_
    rw [denialOf_eq_none, evaluateRefUpdate_eq_ok]
  rw [← hnil]
  unfold evaluatePush
  dsimp only
  split
  · rename_i h
    simpa using h
  rename_i h
  constructor
  · intro he
    exact absurd he (by simp)
  · intro he
    exact absurd (by simpa using he) h

/-! ## What is parsed -/

/-- A rule asks for a member at least. -/
def ProtectionRule.AsksMember (rule : ProtectionRule) : Prop :=
  ∀ role, rule.pushRole = some role → MemberRole.member.permissionLevel ≤ role.permissionLevel

theorem bind_ok {α β ε : Type} {x : Except ε α} {f : α → Except ε β} {b : β}
    (h : x >>= f = .ok b) : ∃ a, x = .ok a ∧ f a = .ok b := by
  cases x with
  | error e => cases h
  | ok a => exact ⟨a, rfl, h⟩

theorem foldlM_keeps {α β ε : Type} {P : β → Prop} {f : β → α → Except ε β}
    (hstep : ∀ b a b', P b → f b a = .ok b' → P b') (l : List α) :
    ∀ {b b' : β}, P b → l.foldlM f b = .ok b' → P b' := by
  induction l with
  | nil =>
    intro b b' hb h
    cases h
    exact hb
  | cons a l ih =>
    intro b b' hb h
    rw [List.foldlM_cons] at h
    obtain ⟨mid, hmid, hrest⟩ := bind_ok h
    exact ih (hstep b a mid hb hmid) hrest

theorem asksMember_parseRuleString (acc : ProtectionRule × List String) (ruleStr : String)
    (acc' : ProtectionRule × List String) (hacc : acc.1.AsksMember)
    (h : parseRuleString acc ruleStr = .ok acc') : acc'.1.AsksMember := by
  obtain ⟨rule, unknown⟩ := acc
  rw [parseRuleString] at h
  split at h
  · split at h
    · cases h
    · cases h
    · cases h
    · rename_i role hbot hguest _
      cases h
      have hmember : MemberRole.member.permissionLevel ≤ role.permissionLevel := by
        cases role with
        | bot => exact absurd rfl hbot
        | guest => exact absurd rfl hguest
        | owner | admin | member => decide
      intro strictest hrole
      cases hrole
      unfold MemberRole.strictest
      split
      · exact hmember
      · split
        · exact hmember
        · exact hacc _ ‹_›
  · split at h
    · cases h
      exact hacc
    · split at h
      · cases h
        exact hacc
      · split at h <;> cases h <;> exact hacc

/-- A repository has at most 50 rules, and none asks for less than a member. -/
theorem parseProtectionTags_ok {tags : List (List String)} {unknown : List String}
    (h : parseProtectionTags tags = .ok (rules, unknown)) :
    rules.length ≤ maxProtectionRules ∧ ∀ rule ∈ rules, rule.AsksMember := by
  have hnone : ([] : List ProtectionRule).length ≤ maxProtectionRules ∧
      ∀ rule ∈ ([] : List ProtectionRule), rule.AsksMember := by simp
  refine foldlM_keeps (P := fun acc : List ProtectionRule × List String =>
    acc.1.length ≤ maxProtectionRules ∧ ∀ rule ∈ acc.1, rule.AsksMember) ?_ tags hnone h
  intro acc tag acc' hacc hstep
  unfold parseProtectionTagsStep at hstep
  split at hstep
  · split at hstep
    · cases hstep
    · rename_i values hroom
      obtain ⟨⟨rule, skipped⟩, hrule, hpushed⟩ := bind_ok hstep
      cases hpushed
      unfold parseProtectionTagWithWarnings at hrule
      split at hrule
      · cases hrule
      · cases hrule
      · obtain ⟨pattern, _, hrule⟩ := bind_ok hrule
        have hasks := foldlM_keeps asksMember_parseRuleString _
          (by intro role hrole; cases hrole) hrule
        refine ⟨by rw [List.length_append]; exact Nat.lt_of_not_le hroom, ?_⟩
        intro rule' hmem
        rcases List.mem_append.mp hmem with hold | hnew
        · exact hacc.2 rule' hold
        · rw [List.mem_singleton.mp hnew]
          exact hasks
  · cases hstep
    exact hacc

/-! ## What follows for the policy -/

/--
**Rules restrict, roles extend, order is irrelevant.** More rules admit no more pushes; a
role of the same or a higher level is accepted wherever the lower one is; permuting rules
or updates changes no verdict; and the verdict is the conjunction over the updates, each of
which needs at least the default role of its ref and kind.
-/
theorem evaluatePush_authorization (updates : List RefUpdate) (role : MemberRole)
    (rules : List ProtectionRule) :
    (∀ rules', (∀ rule ∈ rules, rule ∈ rules') →
        evaluatePush updates role rules' = .ok () → evaluatePush updates role rules = .ok ())
    ∧ (∀ role', role.permissionLevel ≤ role'.permissionLevel →
        evaluatePush updates role rules = .ok () → evaluatePush updates role' rules = .ok ())
    ∧ (∀ updates' rules', updates.Perm updates' → rules.Perm rules' →
        (evaluatePush updates role rules = .ok () ↔ evaluatePush updates' role rules' = .ok ()))
    ∧ (evaluatePush updates role rules = .ok ()
        ↔ ∀ u ∈ updates, evaluateRefUpdate u role rules = .ok ())
    ∧ ∀ u, evaluateRefUpdate u role rules = .ok () →
        (defaultMinRole u.refName u.kind).permissionLevel ≤ role.permissionLevel := by
  refine ⟨?_, ?_, ?_, ?_, ?_⟩
  · intro rules' hsub h
    rw [evaluatePush_eq_ok] at h ⊢
    intro u hu
    exact (h u hu).of_subset hsub
  · intro role' hle h
    rw [evaluatePush_eq_ok] at h ⊢
    intro u hu
    exact (h u hu).of_role_le hle
  · intro updates' rules' hu hr
    rw [evaluatePush_eq_ok, evaluatePush_eq_ok]
    constructor
    · intro h u hmem
      exact (h u (hu.mem_iff.mpr hmem)).of_subset fun rule hrule => hr.mem_iff.mpr hrule
    · intro h u hmem
      exact (h u (hu.mem_iff.mp hmem)).of_subset fun rule hrule => hr.mem_iff.mp hrule
  · rw [evaluatePush_eq_ok]
    refine forall₂_congr fun u _ => ?_
    rw [evaluateRefUpdate_eq_ok]
  · intro u h
    exact (evaluateRefUpdate_eq_ok.mp h).default

/-- A fast-forward of `main` that a rule admits is admitted without it, and for an admin. -/
theorem evaluatePush_authorization_main :
    let updates := [⟨"refs/heads/main", .fastForward, "aa", "bb"⟩]
    let rule : ProtectionRule :=
      ⟨⟨"refs/heads/*", [.literal "refs", .literal "heads", .wildcard], by decide⟩, some .member,
        true, true, false⟩
    evaluatePush updates .member [] = .ok () ∧ evaluatePush updates .admin [rule] = .ok () := by
  intro updates rule
  have hok : evaluatePush updates .member [rule] = .ok () := by decide
  exact ⟨(evaluatePush_authorization updates .member []).1 [rule] (by simp) hok,
    (evaluatePush_authorization updates .member [rule]).2.1 .admin (by decide) hok⟩

end Pkzz.Git
