import Pkzz.Core.Ids
import Pkzz.Lib.Map

/-!
# Subscription rules

An agent in `Config` mode asks the relay for one filter per channel, merged from the rules that
apply to it, and then takes each event that comes by the first rule that matches it. The merge has
to let through whatever some rule could match, so it must not be narrower than any of the rules: it
is the union of their kinds, and asks for a mention only where all of them do.

Whether a rule concerns a channel is decided twice. The subscription parses the ids of a rule, and
the match compares them with the text of the channel. The second is narrower: an id in another
spelling is subscribed to and never matched.
-/

namespace Pkzz.Acp.Rules

open Pkzz.Core Lib
open Finmap (lookup)

/-! ## Rules -/

/-- What is read of a `nostr::Event`. -/
structure Event where
  content : String
  pubkey : FixedBytes 32
  kind : Nat
  tags : List (List String)
  createdAt : Nat

/-- Variables extracted from an event for use in filter expressions. -/
structure FilterContext where
  content : String
  author : String
  kind : Nat
  channelId : String
  timestamp : Nat

def FilterContext.fromEvent (event : Event) (channelId : Uuid) : FilterContext :=
  ⟨event.content, event.pubkey.toHex, event.kind, channelId.toString, event.createdAt⟩

inductive FilterError where
  | expressionTooLong (len max : Nat)
  | timeout
  | evalError (message : String)

/-- How a rule decides an event warrants a turn, beyond channel and kind. -/
inductive EngagementMode where
  | all
  | mentions
  | thread
deriving DecidableEq

inductive ChannelScope where
  /-- The literal string `"all"`. -/
  | all (s : String)
  /-- An explicit list of channel UUID strings. -/
  | list (ids : List String)
deriving DecidableEq

def ChannelScope.matches (scope : ChannelScope) (channelId : Uuid) : Bool :=
  match scope with
  | .all s => s == "all"
  | .list ids => ids.any fun id => id == channelId.toString

/-- A single subscription rule from the agent config. `Node` is a compiled filter expression. -/
structure SubscriptionRule (Node : Type) where
  name : String
  channels : ChannelScope
  /-- Empty for all kinds. -/
  kinds : List Nat
  requireMention : Bool
  engagement : Option EngagementMode
  filter : Option String
  promptTag : Option String
  compiledFilter : Option Node
  consecutiveTimeouts : Nat

variable {Node : Type}

def SubscriptionRule.effectiveEngagement (rule : SubscriptionRule Node) : EngagementMode :=
  rule.engagement.getD (if rule.requireMention then .mentions else .all)

/-! ## Loading -/

section Load

variable (toml : String → Except String (List (SubscriptionRule Node)))
    (buildOperatorTree : String → Except String Node)
  (debug : String → String)

/-- The loop of `load_rules`, behind the names it has seen. -/
def checkRules (seen : List String) : List (SubscriptionRule Node) →
    Except String (List (SubscriptionRule Node))
  | [] => .ok []
  | rule :: rules => do
      if Str.trim rule.name = "" then throw "rule name must not be empty"
      if rule.name ∈ seen then throw ("duplicate rule name: " ++ rule.name)
      let compiled ←
        match rule.filter with
        | none => pure rule.compiledFilter
        | some expr =>
          if Str.len expr > 4096 then
            throw ("rule '" ++ rule.name ++ "': filter too long (" ++ (Str.len expr).repr ++
              " bytes, max 4096)")
          else
            match buildOperatorTree expr with
            | .ok node => pure (some node)
            | .error e => throw ("rule '" ++ rule.name ++ "': invalid filter expression: " ++ e)
      match rule.channels with
      | .all s =>
        if s ≠ "all" then
          throw ("rule '" ++ rule.name ++ "': channels must be \"all\" or a list, got " ++ debug s)
      | .list _ => pure ()
      let later ← checkRules (rule.name :: seen) rules
      return { rule with compiledFilter := compiled, consecutiveTimeouts := 0 } :: later

/-- `load_rules` on the content of the file: the rules, or the text of the error. -/
def loadRules (content : String) : Except String (List (SubscriptionRule Node)) := do
  let rules ← toml content
  if rules.length > 100 then throw ("too many rules (" ++ rules.length.repr ++ ", max 100)")
  checkRules buildOperatorTree debug [] rules

end Load

/-! ## Matching -/

structure MatchedRule where
  ruleIndex : Nat
  promptTag : String
  viaThread : Bool

def MAX_CONSECUTIVE_TIMEOUTS : Nat := 5

/-- Whether an event has a `p` tag with the key of the agent. -/
def mentioned (event : Event) (agentPubkeyHex : String) : Bool :=
  event.tags.any fun s => s[0]? == some "p" && s[1]? == some agentPubkeyHex

/-- The engagement gate: whether the rule engages through a thread, if it engages. -/
def engages (mode : EngagementMode) (mentioned threadEngaged : Bool) : Option Bool :=
  match mode with
  | .all => some false
  | .mentions => if mentioned then some false else none
  | .thread => if mentioned || threadEngaged then some (!mentioned) else none

section Match

-- the outcome of a filter expression, which may time out at any rule
variable (evaluateFilter : Nat → String → FilterContext → Option Node → Except FilterError Bool)

/-- The loop of `match_event`, from a rule on: the rules with their counters, and the rule that
wins. -/
def matchRules (ctx : FilterContext) (channelId : Uuid) (mentioned threadEngaged : Bool) :
    Nat → List (SubscriptionRule Node) → List (SubscriptionRule Node) × Option MatchedRule
  | _, [] => ([], none)
  | index, rule :: rules =>
    let skip (rule : SubscriptionRule Node) :=
      let (later, won) := matchRules ctx channelId mentioned threadEngaged (index + 1) rules
      (rule :: later, won)
    if !rule.channels.matches channelId then skip rule
    else if !rule.kinds.isEmpty && !rule.kinds.contains ctx.kind then skip rule
    else
      match engages rule.effectiveEngagement mentioned threadEngaged with
      | none => skip rule
      | some viaThread =>
        let won : MatchedRule := ⟨index, rule.promptTag.getD rule.name, viaThread⟩
        match rule.filter with
        | none => (rule :: rules, some won)
        | some expr =>
          if MAX_CONSECUTIVE_TIMEOUTS ≤ rule.consecutiveTimeouts then (rule :: rules, none)
          else
            match evaluateFilter index expr ctx rule.compiledFilter with
            | .ok true => ({ rule with consecutiveTimeouts := 0 } :: rules, some won)
            | .ok false => skip { rule with consecutiveTimeouts := 0 }
            | .error .timeout =>
              ({ rule with consecutiveTimeouts := (rule.consecutiveTimeouts + 1) % 2 ^ 32 } ::
                rules, none)
            | .error _ => (rule :: rules, none)

/-- Match a Nostr event against an ordered list of subscription rules. -/
def matchEvent (event : Event) (channelId : Uuid) (rules : List (SubscriptionRule Node))
    (agentPubkeyHex : String)
    (threadEngaged : Bool) : List (SubscriptionRule Node) × Option MatchedRule :=
  matchRules evaluateFilter (FilterContext.fromEvent event channelId) channelId
    (mentioned event agentPubkeyHex) threadEngaged 0 rules

end Match

/-! ## Subscribing -/

inductive SubscribeMode where
  | mentions
  | all
  | config
deriving DecidableEq

/-- What is read of the `Config`. -/
structure Config where
  subscribeMode : SubscribeMode
  kindsOverride : Option (List Nat)
  channelsOverride : Option (List String)
  noMentionFilter : Bool
  engagement : Option EngagementMode

def Config.mentionsModeEngagement (config : Config) : EngagementMode :=
  config.engagement.getD (if config.noMentionFilter then .all else .mentions)

/-- Merged subscription filter for a single channel. There are no kinds for all kinds. -/
structure ChannelFilter where
  kinds : Option (List Nat)
  requireMention : Bool
deriving DecidableEq

def KIND_STREAM_MESSAGE : Nat := 9
def KIND_STREAM_REMINDER : Nat := 40007
def KIND_WORKFLOW_APPROVAL_REQUESTED : Nat := 46010

def ruleAppliesToChannel (rule : SubscriptionRule Node) (channelId : Uuid) : Bool :=
  match rule.channels with
  | .all s => s == "all"
  | .list ids => ids.any fun id => Uuid.parse id == some channelId

/-- What the rules have been merged to. -/
structure Merged where
  hasRule : Bool
  kinds : Option (List Nat)
  requireMention : Bool

def pushKind (kinds : List Nat) (k : Nat) : List Nat :=
    if kinds.contains k then kinds else kinds ++ [k]

def mergeRule (channelId : Uuid) (merged : Merged) (rule : SubscriptionRule Node) : Merged :=
  if !ruleAppliesToChannel rule channelId then merged
  else
    { hasRule := true
      kinds := if rule.kinds.isEmpty then none else merged.kinds.map fun kinds =>
        rule.kinds.foldl pushKind kinds
      requireMention := merged.requireMention && decide (rule.effectiveEngagement = .mentions) }

/-- The `Config` branch for one channel, the same in both functions. -/
def mergedFilter (rules : List (SubscriptionRule Node)) (channelId : Uuid) : Option ChannelFilter :=
  let merged := rules.foldl (mergeRule channelId) ⟨false, some [], true⟩
  if merged.hasRule then some ⟨merged.kinds, merged.requireMention⟩ else none

def Config.mentionsFilter (config : Config) : ChannelFilter :=
  { kinds := some (config.kindsOverride.getD [KIND_STREAM_MESSAGE,
      KIND_WORKFLOW_APPROVAL_REQUESTED, KIND_STREAM_REMINDER])
    requireMention := decide (config.mentionsModeEngagement = .mentions) }

def Config.allFilter (config : Config) : ChannelFilter := ⟨config.kindsOverride, false⟩

/-- Insert one filter for each of these channels. -/
def insertAll (filter : ChannelFilter) (channels : List Uuid) (result : Map Uuid ChannelFilter) :
    Map Uuid ChannelFilter :=
  channels.foldl (fun result ch => Finmap.insert ch filter result) result

/-- Resolve per-channel filters from config and discovered channels. -/
def resolveChannelFilters (config : Config) (discovered : List Uuid)
    (rules : List (SubscriptionRule Node)) : Map Uuid ChannelFilter :=
  let target :=
    match config.channelsOverride with
    | some overrides => (overrides.filterMap Uuid.parse).filter fun id => discovered.contains id
    | none => discovered
  match config.subscribeMode with
  | .mentions => insertAll config.mentionsFilter target ∅
  | .all => insertAll config.allFilter target ∅
  | .config =>
    discovered.foldl (fun result ch =>
      match mergedFilter rules ch with
      | some filter => Finmap.insert ch filter result
      | none => result) ∅

/-- Resolve the subscription filter for a single dynamically-discovered channel. -/
def resolveDynamicChannelFilter (config : Config) (channelId : Uuid)
    (rules : List (SubscriptionRule Node)) : Option ChannelFilter :=
  let allowed :=
    match config.channelsOverride with
    | some overrides => overrides.any fun s => Uuid.parse s == some channelId
    | none => true
  if config.subscribeMode ≠ .config ∧ allowed = false then none
  else
    match config.subscribeMode with
    | .mentions => some config.mentionsFilter
    | .all => some config.allFilter
    | .config => mergedFilter rules channelId

/-- An event comes through a filter. -/
structure ChannelFilter.Admits (filter : ChannelFilter) (event : Event)
    (agentPubkeyHex : String) : Prop where
  kind : ∀ kinds, filter.kinds = some kinds → event.kind ∈ kinds
  mention : filter.requireMention = true → mentioned event agentPubkeyHex = true

/-! ## The rule that wins -/

/-- What is known of a rule that wins, whatever its filter does. -/
structure Wins (rule : SubscriptionRule Node) (channelId : Uuid) (kind : Nat)
    (mentioned : Bool) : Prop where
  channel : rule.channels.matches channelId = true
  kind : rule.kinds = [] ∨ kind ∈ rule.kinds
  mention : rule.effectiveEngagement = .mentions → mentioned = true

theorem mentioned_of_engages {mode : EngagementMode} {mentioned threadEngaged viaThread : Bool}
    (h : engages mode mentioned threadEngaged = some viaThread) (hmode : mode = .mentions) :
    mentioned = true := by
  subst hmode
  cases mentioned with
  | true => rfl
  | false => cases h

theorem matchRules_wins
    (evaluateFilter : Nat → String → FilterContext → Option Node → Except FilterError Bool)
    (ctx : FilterContext) (channelId : Uuid) (mentioned threadEngaged : Bool)
    (rules : List (SubscriptionRule Node)) (index : Nat) {won : MatchedRule}
    (h : (matchRules evaluateFilter ctx channelId mentioned threadEngaged index rules).2 =
      some won) :
    ∃ rule ∈ rules, Wins rule channelId ctx.kind mentioned := by
  induction rules generalizing index with
  | nil => cases h
  | cons rule rules ih =>
    have hlater : (matchRules evaluateFilter ctx channelId mentioned threadEngaged
        (index + 1) rules).2 = some won →
        ∃ r ∈ rule :: rules, Wins r channelId ctx.kind mentioned := by
      intro hwon
      obtain ⟨r, hr, hwins⟩ := ih _ hwon
      exact ⟨r, List.mem_cons_of_mem _ hr, hwins⟩
    unfold matchRules at h
    dsimp only at h
    split at h
    · exact hlater h
    rename_i hchannel
    split at h
    · exact hlater h
    rename_i hkind
    split at h
    · exact hlater h
    rename_i viaThread hengages
    -- past the three gates it is this rule, unless its filter sends the loop on
    have hwins : Wins rule channelId ctx.kind mentioned := by
      refine ⟨by simpa using hchannel, ?_, mentioned_of_engages hengages⟩
      cases hkinds : rule.kinds with
      | nil => exact .inl rfl
      | cons k kinds =>
        refine .inr (List.mem_cons.mpr (or_iff_not_imp_left.mpr ?_))
        simpa [hkinds] using hkind
    split at h
    · exact ⟨rule, List.mem_cons_self, hwins⟩
    split at h
    · cases h
    split at h
    · exact ⟨rule, List.mem_cons_self, hwins⟩
    · exact hlater h
    · cases h
    · cases h

/-! ## The merge is as wide as each of the rules -/

/-- What has been merged is not narrower than a rule. -/
structure Covers (merged : Merged) (rule : SubscriptionRule Node) : Prop where
  hasRule : merged.hasRule = true
  kinds : ∀ kinds, merged.kinds = some kinds → rule.kinds ≠ [] ∧ ∀ k ∈ rule.kinds, k ∈ kinds
  mention : merged.requireMention = true → rule.effectiveEngagement = .mentions

theorem mem_foldl_pushKind {kinds more : List Nat} {k : Nat} : k ∈ more.foldl pushKind kinds ↔
    k ∈ kinds ∨ k ∈ more := by
  induction more generalizing kinds with
  | nil => simp
  | cons m more ih =>
    have hpush : k ∈ pushKind kinds m ↔ k ∈ kinds ∨ k = m := by
      unfold pushKind
      split
      · rename_i hmem
        have hm : m ∈ kinds := by simpa using hmem
        constructor
        · exact .inl
        · rintro (h | rfl)
          · exact h
          · exact hm
      · simp
    rw [List.foldl_cons, ih, hpush, List.mem_cons]
    tauto

variable {channelId : Uuid} {rule : SubscriptionRule Node}

theorem covers_mergeRule_self (happlies : ruleAppliesToChannel rule channelId = true)
    (merged : Merged) : Covers (mergeRule channelId merged rule) rule := by
  unfold mergeRule
  rw [happlies]
  refine ⟨rfl, ?_, ?_⟩
  · intro kinds hkinds
    cases hrule : rule.kinds with
    | nil =>
      rw [hrule] at hkinds
      cases hkinds
    | cons k rest =>
      rw [hrule] at hkinds
      obtain ⟨old, _, rfl⟩ := Option.map_eq_some_iff.mp hkinds
      exact ⟨List.cons_ne_nil k rest, fun k' hk' => mem_foldl_pushKind.mpr (.inr hk')⟩
  · intro hmention
    exact of_decide_eq_true (Bool.and_eq_true_iff.mp hmention).2

variable {merged : Merged}

theorem covers_mergeRule (h : Covers merged rule) (channelId : Uuid)
    (next : SubscriptionRule Node) : Covers (mergeRule channelId merged next) rule := by
  unfold mergeRule
  split
  · exact h
  refine ⟨rfl, ?_, ?_⟩
  · intro kinds hkinds
    dsimp only at hkinds
    split at hkinds
    · cases hkinds
    · obtain ⟨old, hold, rfl⟩ := Option.map_eq_some_iff.mp hkinds
      refine ⟨(h.kinds old hold).1, fun k hk => mem_foldl_pushKind.mpr (.inl ?_)⟩
      exact (h.kinds old hold).2 k hk
  · intro hmention
    exact h.mention (Bool.and_eq_true_iff.mp hmention).1

/-- The merge of all rules, begun with anything that covers a rule or with the rule among them. -/
theorem covers_foldl (rules : List (SubscriptionRule Node))
    (h : Covers merged rule ∨ (rule ∈ rules ∧ ruleAppliesToChannel rule channelId = true)) :
    Covers (rules.foldl (mergeRule channelId) merged) rule := by
  induction rules generalizing merged with
  | nil =>
    rcases h with h | ⟨h, _⟩
    · exact h
    · cases h
  | cons next rules ih =>
    rw [List.foldl_cons]
    refine ih ?_
    rcases h with h | ⟨h, happlies⟩
    · exact .inl (covers_mergeRule h channelId next)
    · rcases List.mem_cons.mp h with rfl | h
      · exact .inl (covers_mergeRule_self happlies merged)
      · exact .inr ⟨h, happlies⟩

theorem hasRule_foldl (rules : List (SubscriptionRule Node))
    (h : (rules.foldl (mergeRule channelId) merged).hasRule = true) :
    merged.hasRule = true ∨ ∃ rule ∈ rules, ruleAppliesToChannel rule channelId = true := by
  induction rules generalizing merged with
  | nil => exact .inl h
  | cons next rules ih =>
    rcases ih h with hmerged | ⟨rule, hrule, happlies⟩
    · cases hnext : ruleAppliesToChannel next channelId with
      | true => exact .inr ⟨next, List.mem_cons_self, hnext⟩
      | false => exact .inl (by simpa [mergeRule, hnext] using hmerged)
    · exact .inr ⟨rule, List.mem_cons_of_mem _ hrule, happlies⟩

variable {rules : List (SubscriptionRule Node)}

/-- A channel has a merged filter exactly when some rule applies to it. -/
theorem mergedFilter_isSome :
    (mergedFilter rules channelId).isSome = true ↔
    ∃ rule ∈ rules, ruleAppliesToChannel rule channelId = true := by
  unfold mergedFilter
  constructor
  · intro h
    have hrule : (rules.foldl (mergeRule channelId) ⟨false, some [], true⟩).hasRule = true := by
      by_contra hnone
      rw [if_neg hnone] at h
      cases h
    exact (hasRule_foldl rules hrule).resolve_left (by simp)
  · rintro ⟨rule, hrule, happlies⟩
    rw [if_pos (covers_foldl rules (.inr ⟨hrule, happlies⟩)).hasRule]
    rfl

/-- The merged filter admits what a rule lets through. -/
theorem mergedFilter_admits
    (hrule : rule ∈ rules) (happlies : ruleAppliesToChannel rule channelId = true) {event : Event}
    {agentPubkeyHex : String}
    (hwins : Wins rule channelId event.kind (mentioned event agentPubkeyHex)) :
    ∃ filter, mergedFilter rules channelId = some filter ∧ filter.Admits event agentPubkeyHex := by
  have hcovers : Covers (rules.foldl (mergeRule channelId) ⟨false, some [], true⟩) rule :=
    covers_foldl rules (.inr ⟨hrule, happlies⟩)
  unfold mergedFilter
  refine ⟨_, if_pos hcovers.hasRule, ?_, ?_⟩
  · intro kinds hkinds
    obtain ⟨hne, hmem⟩ := hcovers.kinds kinds hkinds
    rcases hwins.kind with hnil | hk
    · exact (hne hnil).elim
    · exact hmem _ hk
  · intro hmention
    exact hwins.mention (hcovers.mention hmention)

/-! ## Both resolutions agree -/

theorem lookup_insertAll (filter : ChannelFilter) (channels : List Uuid)
    (result : Map Uuid ChannelFilter) (ch : Uuid) : lookup ch (insertAll filter channels result)
      = if ch ∈ channels then some filter else lookup ch result := by
  unfold insertAll
  induction channels generalizing result with
  | nil => simp
  | cons c channels ih =>
    rw [List.foldl_cons, ih, Map.lookup_insert_eq]
    by_cases hmem : ch ∈ channels
    · simp [hmem]
    · simp [hmem]

theorem lookup_insertAll_empty {channels : List Uuid} {ch : Uuid} {allowed : Bool}
    (h : ch ∈ channels ↔ allowed = true) (filter : ChannelFilter) :
    lookup ch (insertAll filter channels ∅) = if allowed = false then none else some filter := by
  rw [lookup_insertAll, Finmap.lookup_empty]
  cases allowed with
  | true => rw [if_pos (h.mpr rfl), if_neg (by decide)]
  | false => rw [if_neg (fun hmem => absurd (h.mp hmem) (by decide)), if_pos rfl]

theorem lookup_merged (rules : List (SubscriptionRule Node)) (discovered : List Uuid)
    (result : Map Uuid ChannelFilter)
    (ch : Uuid) (hresult : ∀ filter, lookup ch result = some filter →
      mergedFilter rules ch = some filter) :
    lookup ch (discovered.foldl (fun result ch =>
        match mergedFilter rules ch with
        | some filter => Finmap.insert ch filter result
        | none => result) result)
      = if ch ∈ discovered then mergedFilter rules ch else lookup ch result := by
  induction discovered generalizing result with
  | nil => simp
  | cons c discovered ih =>
    rw [List.foldl_cons]
    cases hfilter : mergedFilter rules c with
    | none =>
      simp only
      rw [ih result hresult]
      by_cases hc : ch = c
      · subst hc
        have hgone : lookup ch result = none := by
          cases hlookup : lookup ch result with
          | none => rfl
          | some filter =>
            rw [hresult filter hlookup] at hfilter
            cases hfilter
        simp [hfilter, hgone]
      · simp [hc]
    | some filter =>
      simp only
      rw [ih _ ?_, Map.lookup_insert_eq]
      · by_cases hc : ch = c
        · subst hc
          simp [hfilter]
        · simp [hc]
      · intro f hf
        rw [Map.lookup_insert_eq] at hf
        split at hf
        · rename_i hc
          rw [hc, hfilter, ← hf]
        · exact hresult f hf

/-- The filter of a discovered channel is the same, whenever the channel is discovered. -/
theorem resolveDynamicChannelFilter_eq (config : Config) {discovered : List Uuid} {ch : Uuid}
    (hch : ch ∈ discovered) (rules : List (SubscriptionRule Node)) :
    resolveDynamicChannelFilter config ch rules =
      lookup ch (resolveChannelFilters config discovered rules) := by
  unfold resolveDynamicChannelFilter resolveChannelFilters
  extract_lets allowed target
  have htarget : ch ∈ target ↔ allowed = true := by
    unfold target allowed
    cases config.channelsOverride with
    | none => simp [hch]
    | some overrides => simp [hch]
  cases hmode : config.subscribeMode with
  | mentions | all =>
    dsimp only
    rw [lookup_insertAll_empty htarget]
    simp
  | config =>
    dsimp only
    rw [lookup_merged rules discovered ∅ ch (by simp [Finmap.lookup_empty]), if_pos hch]
    simp

/-! ## What is subscribed to and what is matched -/

theorem applies_of_matches {ch : Uuid} (h : rule.channels.matches ch = true) :
    ruleAppliesToChannel rule ch = true := by
  unfold ruleAppliesToChannel
  cases hscope : rule.channels with
  | all s =>
    rw [hscope] at h
    exact h
  | list ids =>
    rw [hscope] at h
    obtain ⟨id, hid, heq⟩ := List.any_eq_true.mp h
    refine List.any_eq_true.mpr ⟨id, hid, ?_⟩
    rw [beq_iff_eq.mp heq, Uuid.parse_toString]
    exact beq_self_eq_true _

/-- Some rule is for all channels or lists the channel by its text. -/
def ListedByText (rules : List (SubscriptionRule Node)) (ch : Uuid) : Prop :=
  ∃ rule ∈ rules, rule.channels = .all "all" ∨ ∃ ids, rule.channels = .list ids ∧ ch.toString ∈ ids

/-- Some rule lists the channel in another spelling. -/
def ListedOtherwise (rules : List (SubscriptionRule Node)) (ch : Uuid) : Prop :=
  ∃ rule ∈ rules, ∃ ids, rule.channels = .list ids ∧ ∃ id ∈ ids, Uuid.parse id = some ch ∧
    id ≠ ch.toString

theorem listedByText_iff {ch : Uuid} :
    ListedByText rules ch ↔ ∃ rule ∈ rules, rule.channels.matches ch = true := by
  refine exists_congr fun rule => and_congr_right fun _ => ?_
  cases rule.channels with
  | all s => simp [ChannelScope.matches]
  | list ids => simp [ChannelScope.matches]

theorem applies_cases {ch : Uuid} :
    (∃ rule ∈ rules, ruleAppliesToChannel rule ch = true) ↔ ListedByText rules ch ∨
    ListedOtherwise rules ch := by
  constructor
  · rintro ⟨rule, hrule, happlies⟩
    unfold ruleAppliesToChannel at happlies
    cases hscope : rule.channels with
    | all s =>
      rw [hscope] at happlies
      exact .inl ⟨rule, hrule, .inl (by rw [hscope, beq_iff_eq.mp happlies])⟩
    | list ids =>
      rw [hscope] at happlies
      obtain ⟨id, hid, hparse⟩ := List.any_eq_true.mp happlies
      by_cases htext : id = ch.toString
      · exact .inl ⟨rule, hrule, .inr ⟨ids, hscope, htext ▸ hid⟩⟩
      · exact .inr ⟨rule, hrule, ids, hscope, id, hid, beq_iff_eq.mp hparse, htext⟩
  · rintro (h | ⟨rule, hrule, ids, hscope, id, hid, hparse, _⟩)
    · obtain ⟨rule, hrule, hmatches⟩ := listedByText_iff.mp h
      exact ⟨rule, hrule, applies_of_matches hmatches⟩
    · refine ⟨rule, hrule, ?_⟩
      unfold ruleAppliesToChannel
      rw [hscope]
      exact List.any_eq_true.mpr ⟨id, hid, beq_iff_eq.mpr hparse⟩

/-- A match is subscribed to, a subscription can be matched, and both resolutions give the same
filter. -/
structure Agree (rules : List (SubscriptionRule Node)) (config : Config) (discovered : List Uuid)
    (ch : Uuid) : Prop where
  admitted : ∀ (evaluateFilter : Nat → String → FilterContext → Option Node →
    Except FilterError Bool) (event : Event)
    (agentPubkeyHex : String) (threadEngaged : Bool) (won : MatchedRule),
    (matchEvent evaluateFilter event ch rules agentPubkeyHex threadEngaged).2 = some won →
    ∃ filter, lookup ch (resolveChannelFilters config discovered rules) = some filter
      ∧ filter.Admits event agentPubkeyHex
  matchable : (lookup ch (resolveChannelFilters config discovered rules)).isSome = true →
    ∃ rule ∈ rules, rule.channels.matches ch = true
  dynamic : ∀ config' : Config,
    resolveDynamicChannelFilter config' ch rules =
      lookup ch (resolveChannelFilters config' discovered rules)

/-- **Subscription and rules agree** on a channel exactly when no other spelling of its id stands
alone: where a rule lists the channel in another spelling, some rule is for all channels or lists it
by its text. -/
theorem subscription_agrees_iff (rules : List (SubscriptionRule Node)) (config : Config)
    (hconfig : config.subscribeMode = .config) (discovered : List Uuid) (ch : Uuid)
    (hch : ch ∈ discovered) :
    Agree rules config discovered ch ↔ (ListedOtherwise rules ch → ListedByText rules ch) := by
  have hlookup : lookup ch (resolveChannelFilters config discovered rules) =
      mergedFilter rules ch := by
    rw [← resolveDynamicChannelFilter_eq config hch, resolveDynamicChannelFilter, hconfig]
    simp
  constructor
  · intro h hother
    rw [listedByText_iff]
    refine h.matchable ?_
    rw [hlookup]
    exact mergedFilter_isSome.mpr (applies_cases.mpr (.inr hother))
  · intro h
    refine ⟨?_, ?_, fun config' => resolveDynamicChannelFilter_eq config' hch rules⟩
    · intro evaluateFilter event agentPubkeyHex threadEngaged won hwon
      obtain ⟨rule, hrule, hwins⟩ :=
        matchRules_wins evaluateFilter _ ch _ threadEngaged rules 0 hwon
      rw [hlookup]
      exact mergedFilter_admits hrule (applies_of_matches hwins.channel) hwins
    · intro hsome
      rw [hlookup] at hsome
      rw [← listedByText_iff]
      rcases applies_cases.mp (mergedFilter_isSome.mp hsome) with htext | hother
      · exact htext
      · exact h hother

/-- A rule for these channels and nothing else. -/
def channelRule (channels : ChannelScope) : SubscriptionRule Empty :=
  ⟨"rule", channels, [], false, none, none, none, none, 0⟩

def configMode : Config := ⟨.config, none, none, false, none⟩

def smallChannel : Uuid := FixedBytes.ofNat 16 0xab

/-- A rule that lists the channel by its text. -/
theorem subscription_agrees_iff_byText :
    Agree [channelRule (.list ["00000000-0000-0000-0000-0000000000ab"])] configMode
      [smallChannel] smallChannel :=
  (subscription_agrees_iff _ configMode rfl [smallChannel] smallChannel (by decide)).mpr fun _ =>
    ⟨_, List.mem_cons_self, .inr ⟨_, rfl, by decide⟩⟩

/-- An id in upper case is accepted and subscribed to, and no rule matches the channel. -/
theorem upperCase_subscribed_not_matched :
    ∃ (toml : String → Except String (List (SubscriptionRule Empty))) (content : String)
      (rules : List (SubscriptionRule Empty)),
      loadRules toml (fun _ => .error "") id content = .ok rules
        ∧ (lookup smallChannel (resolveChannelFilters configMode [smallChannel] rules)).isSome =
          true
        ∧ ¬ ∃ rule ∈ rules, rule.channels.matches smallChannel = true := by
  refine ⟨fun _ => .ok [channelRule (.list ["00000000-0000-0000-0000-0000000000AB"])], "", _,
    rfl, ?_, ?_⟩
  · rw [← resolveDynamicChannelFilter_eq configMode (by decide)]
    decide
  · decide

end Pkzz.Acp.Rules
