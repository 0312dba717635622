import Mathlib.Data.List.Sort
import Pkzz.Core.Ids
import Pkzz.Git.Perms

/-!
# The pre-receive callback

`buzz-relay`'s `api/git/policy.rs`: the hook that runs inside `git receive-pack` posts the
ref updates of a push back to the relay, signed with an HMAC over a canonical payload. The
payload is a concatenation of fixed-width fields, length-prefixed fields, a separator that
may occur in both, and a group of refs that is repeated without a count. What is proved
here is that none of that matters: over requests that pass the field checks, the octets
fed to the MAC determine the request, up to the order in which refs were listed.
-/

namespace Pkzz.Git

open Pkzz.Core Pkzz.Lib

structure HookRefUpdate where
  oldOid : String
  newOid : String
  refName : String
  isAncestor : Bool
  deriving DecidableEq

structure HookCallbackRequest where
  repoId : String
  repoOwner : String
  communityId : String
  pusherPubkey : String
  refUpdates : List HookRefUpdate
  timestamp : UInt64
  signature : String
  deriving DecidableEq

/-! ## The payload -/

/-- `sort_by_key(|r| r.ref_name)`: a stable sort, in the order of the octets of the name. -/
def refsSorted (refs : List HookRefUpdate) : List HookRefUpdate :=
  refs.insertionSort fun a b => a.refName ≤ b.refName

/-- What the MAC is fed for one ref. -/
def refInput (r : HookRefUpdate) : List UInt8 :=
  Str.asBytes r.oldOid ++ Str.asBytes r.newOid ++ Str.decimal (Str.len r.refName) ++ Str.asBytes ":"
    ++ Str.asBytes r.refName ++ Str.asBytes (if r.isAncestor then "1" else "0")

/-- What the MAC is fed, from the first `update` to the last. -/
def hmacInput (req : HookCallbackRequest) : List UInt8 :=
  Str.decimal (Str.len req.repoId) ++ Str.asBytes ":" ++ Str.asBytes req.repoId ++ Str.asBytes "|"
    ++ Str.asBytes req.repoOwner ++ Str.asBytes "|"
    ++ Str.asBytes req.communityId ++ Str.asBytes "|"
    ++ Str.asBytes req.pusherPubkey ++ Str.asBytes "|"
    ++ (refsSorted req.refUpdates).flatMap refInput
    ++ Str.asBytes "|" ++ Str.decimal req.timestamp.toNat

/-- `compute_hmac`, for a MAC that takes a key and a message. -/
def computeHmac (mac : List UInt8 → List UInt8 → List UInt8) (secret : List UInt8)
    (req : HookCallbackRequest) : List UInt8 :=
  mac secret (hmacInput req)

/-! ## The field checks -/

/-- A public key or owner field: 64 lower-case hex digits. -/
def isLowerHex64 (s : String) : Bool :=
  Str.len s == 64 && s.toList.all fun c => Str.isAsciiHexdigit c && !c.isUpper

def isHex40 (s : String) : Bool := Str.len s == 40 && s.toList.all Str.isAsciiHexdigit

def isValidRefName (s : String) : Bool :=
  !(s = "" || decide (Str.len s > 256) || !Str.startsWith s "refs/" || Str.contains s ".."
    || (Str.asBytes s).any fun b => b ≤ 0x20 || b == 0x7f)

/-- The loop over `ref_updates`; an error is the text of the 403 response. -/
def validateRefUpdates : List HookRefUpdate → Except String Unit
  | [] => .ok ()
  | r :: rs =>
    if !isHex40 r.oldOid then .error "invalid old_oid"
    else if !isHex40 r.newOid then .error "invalid new_oid"
    else if !isValidRefName r.refName then .error "invalid ref_name"
    else validateRefUpdates rs

/-- The checks of `hook_policy_check` that come before the signature is looked at. -/
def validateFields (parseUuid : String → Option Uuid) (req : HookCallbackRequest) :
    Except String CommunityId :=
  if req.repoId = "" ∨ Str.len req.repoId > 64 then .error "invalid repo_id"
  else if !isLowerHex64 req.repoOwner then .error "invalid repo_owner"
  else if !isLowerHex64 req.pusherPubkey then .error "invalid pusher_pubkey"
  else
    match parseUuid req.communityId with
    | none => .error "invalid community_id"
    | some uuid =>
      if req.refUpdates = [] ∨ req.refUpdates.length > 500 then .error "invalid ref_updates count"
      else
        match validateRefUpdates req.refUpdates with
        | .error e => .error e
        | .ok () => .ok ⟨uuid⟩

/-! ### What a request that passed looks like -/

/-- The text forms `Uuid::parse_str` reads: simple, hyphenated, braced and URN. -/
def IsUuidText (s : String) : Prop :=
  let hex := fun (n : Nat) (l : List Char) => l.length = n ∧ l.all Str.isAsciiHexdigit = true
  let hyphenated := fun l : List Char => ∃ a b c d e, hex 8 a ∧ hex 4 b ∧ hex 4 c ∧ hex 4 d
    ∧ hex 12 e ∧ l = a ++ '-' :: b ++ '-' :: c ++ '-' :: d ++ '-' :: e
  hex 32 s.toList ∨ hyphenated s.toList ∨ (∃ l, hyphenated l ∧ s.toList = '{' :: l ++ ['}'])
    ∨ ∃ l, hyphenated l ∧ s.toList = "urn:uuid:".toList ++ l

/-- A character of such a text, as far as the payload is concerned. -/
def IsUuidChar (c : Char) : Prop := c.toNat < 128 ∧ c ≠ '|'

/-- What holds of hex digits and of the other characters of a UUID text holds of all of them. -/
theorem forall_of_isUuidText {P : Char → Prop} (hhex : ∀ c, Str.isAsciiHexdigit c = true → P c)
    (hsep : ∀ c ∈ '{' :: '}' :: '-' :: "urn:uuid:".toList, P c) {s : String} (h : IsUuidText s) :
    ∀ c ∈ s.toList, P c := by
  have hall : ∀ {l : List Char}, l.all Str.isAsciiHexdigit = true → ∀ c ∈ l, P c :=
    fun hl c hc => hhex c (List.all_eq_true.mp hl c hc)
  have hhyph : ∀ {l a b c d e : List Char}, a.all Str.isAsciiHexdigit = true →
      b.all Str.isAsciiHexdigit = true → c.all Str.isAsciiHexdigit = true →
      d.all Str.isAsciiHexdigit = true → e.all Str.isAsciiHexdigit = true →
      l = a ++ '-' :: b ++ '-' :: c ++ '-' :: d ++ '-' :: e → ∀ x ∈ l, P x := by
    intro l a b c d e ha hb hc hd he hl x hx
    rw [hl] at hx
    simp only [List.mem_append, List.mem_cons] at hx
    rcases hx with (((hx | rfl | hx) | rfl | hx) | rfl | hx) | rfl | hx
    · exact hall ha x hx
    · exact hsep '-' (by simp)
    · exact hall hb x hx
    · exact hsep '-' (by simp)
    · exact hall hc x hx
    · exact hsep '-' (by simp)
    · exact hall hd x hx
    · exact hsep '-' (by simp)
    · exact hall he x hx
  rcases h with h | ⟨a, b, c, d, e, ha, hb, hc, hd, he, hl⟩
    | ⟨l, ⟨a, b, c, d, e, ha, hb, hc, hd, he, hl⟩, hs⟩
    | ⟨l, ⟨a, b, c, d, e, ha, hb, hc, hd, he, hl⟩, hs⟩
  · exact hall h.2
  · exact hhyph ha.2 hb.2 hc.2 hd.2 he.2 hl
  · intro x hx
    rw [hs, List.mem_append, List.mem_cons, List.mem_singleton] at hx
    rcases hx with (rfl | hx) | rfl
    · exact hsep '{' (by simp)
    · exact hhyph ha.2 hb.2 hc.2 hd.2 he.2 hl x hx
    · exact hsep '}' (by simp)
  · intro x hx
    rw [hs, List.mem_append] at hx
    rcases hx with hx | hx
    · exact hsep x (List.mem_cons_of_mem _ (List.mem_cons_of_mem _ (List.mem_cons_of_mem _ hx)))
    · exact hhyph ha.2 hb.2 hc.2 hd.2 he.2 hl x hx

theorem isUuidChar_of_isUuidText {s : String} (h : IsUuidText s) :
    ∀ c ∈ s.toList, IsUuidChar c := by
  refine forall_of_isUuidText ?_ ?_ h
  · intro c hc
    have hle := Str.toNat_le_of_isAsciiHexdigit hc
    refine ⟨by omega, ?_⟩
    rintro rfl
    exact absurd hle (by decide)
  · have hall : ('{' :: '}' :: '-' :: "urn:uuid:".toList).all
        (fun c => decide (c.toNat < 128 ∧ c ≠ '|')) = true := by decide
    intro c hc
    have h := of_decide_eq_true (List.all_eq_true.mp hall c hc)
    exact h

/-- What the checks establish about a ref, as far as the payload is concerned. -/
structure ValidRefUpdate (r : HookRefUpdate) : Prop where
  oldOid : isHex40 r.oldOid = true
  newOid : isHex40 r.newOid = true
  refName : isValidRefName r.refName = true

theorem valid_of_validateRefUpdates :
    ∀ {refs : List HookRefUpdate}, validateRefUpdates refs = .ok () → ∀ r ∈ refs, ValidRefUpdate r
  | [], _ => by simp
  | r :: rs, h => by
    unfold validateRefUpdates at h
    split at h
    · exact absurd h (by simp)
    rename_i hold
    split at h
    · exact absurd h (by simp)
    rename_i hnew
    split at h
    · exact absurd h (by simp)
    · rename_i hname
      have hr : ValidRefUpdate r := ⟨by simpa using hold, by simpa using hnew, by simpa using hname⟩
      exact List.forall_mem_cons.mpr ⟨hr, valid_of_validateRefUpdates h⟩

/-- What the checks establish about a request. -/
structure ValidRequest (parseUuid : String → Option Uuid) (req : HookCallbackRequest) : Prop where
  repoOwner : isLowerHex64 req.repoOwner = true
  pusherPubkey : isLowerHex64 req.pusherPubkey = true
  communityId : ∃ u, parseUuid req.communityId = some u
  refUpdates : ∀ r ∈ req.refUpdates, ValidRefUpdate r

theorem valid_of_validateFields {parseUuid : String → Option Uuid} {req : HookCallbackRequest}
    {c : CommunityId} (h : validateFields parseUuid req = .ok c) : ValidRequest parseUuid req := by
  unfold validateFields at h
  split at h
  · exact absurd h (by simp)
  split at h
  · exact absurd h (by simp)
  rename_i howner
  split at h
  · exact absurd h (by simp)
  rename_i hpusher
  split at h
  · exact absurd h (by simp)
  rename_i uuid huuid
  split at h
  · exact absurd h (by simp)
  split at h
  · exact absurd h (by simp)
  · rename_i hrefs
    exact ⟨by simpa using howner, by simpa using hpusher, ⟨uuid, huuid⟩,
      valid_of_validateRefUpdates hrefs⟩

/-! ## Reading the payload back -/

/-- A text field of fixed width. -/
theorem fixedText_selfDelimiting (n : Nat) :
    SelfDelimiting (fun s => Str.len s = n) AnyRest Str.asBytes :=
  SelfDelimiting.of_length (fun _ h => h) (fun _ _ _ _ h => Str.asBytes_inj h)

/-- `len:text`, whatever the text contains. -/
theorem prefixedText_selfDelimiting :
    SelfDelimiting (fun _ => True) AnyRest
      (fun s => Str.decimal (Str.len s) ++ 58 :: Str.asBytes s) :=
  SelfDelimiting.of_lengthPrefix Str.decimal_selfDelimiting
    (by unfold Str.IsDigit; decide) (fun _ _ _ _ h => Str.asBytes_inj h)

/-- A text field that the next `|` ends. -/
theorem barText_selfDelimiting :
    SelfDelimiting (fun s : String => ∀ c ∈ s.toList, IsUuidChar c) (StopsAt (· ≠ 124))
      Str.asBytes := by
  refine SelfDelimiting.of_alphabet ?_ (fun _ _ _ _ h => Str.asBytes_inj h)
  intro s hs
  refine Str.forall_asBytes fun c hc => ⟨(hs c hc).1, ?_⟩
  intro hb
  refine (hs c hc).2 (Char.ext (UInt32.toNat_inj.mp ?_))
  have hn := congrArg UInt8.toNat hb
  rw [UInt8.toNat_ofNat_of_lt' (by have := (hs c hc).1; simp [UInt8.size]; omega)] at hn
  exact hn

/-- One ref: two object ids of fixed width, a prefixed name, one flag octet. -/
theorem refInput_selfDelimiting : SelfDelimiting ValidRefUpdate AnyRest refInput := by
  intro a b r s ha hb _ _ he
  have hlen : ∀ {t : String}, isHex40 t = true → Str.len t = 40 := by
    intro t ht
    simpa using (Bool.and_eq_true_iff.mp ht).1
  have hcolon : Str.asBytes ":" = [58] := by decide
  unfold refInput at he
  rw [hcolon] at he
  simp only [List.append_assoc, List.singleton_append] at he
  obtain ⟨hold, he⟩ := (fixedText_selfDelimiting 40).peel (hlen ha.oldOid) (hlen hb.oldOid)
    trivial trivial he
  obtain ⟨hnew, he⟩ := (fixedText_selfDelimiting 40).peel (hlen ha.newOid) (hlen hb.newOid)
    trivial trivial he
  rw [← List.append_assoc (Str.decimal _), ← List.append_assoc (Str.decimal _)] at he
  obtain ⟨hname, he⟩ := prefixedText_selfDelimiting.peel trivial trivial trivial trivial he
  have hflag : ∀ x : Bool, Str.len (if x then "1" else "0") = 1 := by decide
  obtain ⟨hanc, hrest⟩ := (fixedText_selfDelimiting 1).peel (hflag _) (hflag _) trivial trivial he
  refine ⟨?_, hrest⟩
  obtain ⟨ao, an, aname, af⟩ := a
  obtain ⟨bo, bn, bname, bf⟩ := b
  dsimp only at hold hnew hname hanc
  have hinj : ∀ x y : Bool, (if x then "1" else "0") = (if y then "1" else "0") → x = y := by decide
  rw [hold, hnew, hname, hinj af bf hanc]

/--
The group of refs. It has no count; it ends where something other than a hex digit
follows, because every ref begins with one.
-/
theorem refsInput_selfDelimiting :
    SelfDelimiting (fun refs => ∀ r ∈ refs, ValidRefUpdate r)
      (StopsAt fun b : UInt8 => b.toNat ≤ 102) (fun refs => List.flatMap refInput refs) := by
  refine SelfDelimiting.flatMap refInput_selfDelimiting ?_
  intro r hr
  obtain ⟨hlen, hhex⟩ := Bool.and_eq_true_iff.mp hr.oldOid
  have hb := Str.asBytes_le_of_isAsciiHexdigit hhex
  unfold Str.len at hlen
  unfold refInput
  cases hold : Str.asBytes r.oldOid with
  | nil =>
    rw [hold] at hlen
    exact absurd hlen (by decide)
  | cons x l =>
    refine ⟨x, _, rfl, ?_⟩
    exact hb x (by rw [hold]; simp)

/--
**The payload is unambiguous.** Two requests that pass the field checks and feed the same
octets to the MAC agree on every signed field, and list the same refs up to order.
-/
theorem hmacInput_unambiguous {parseUuid : String → Option Uuid}
    (hparse : ∀ s u, parseUuid s = some u → IsUuidText s) {a b : HookCallbackRequest}
    {ca cb : CommunityId} (ha : validateFields parseUuid a = .ok ca)
    (hb : validateFields parseUuid b = .ok cb) (h : hmacInput a = hmacInput b) :
    a.repoId = b.repoId ∧ a.repoOwner = b.repoOwner ∧ a.communityId = b.communityId
      ∧ a.pusherPubkey = b.pusherPubkey ∧ a.timestamp = b.timestamp
      ∧ a.refUpdates.Perm b.refUpdates := by
  have va := valid_of_validateFields ha
  have vb := valid_of_validateFields hb
  have hkey : ∀ {t : String}, isLowerHex64 t = true → Str.len t = 64 := by
    intro t ht
    simpa using (Bool.and_eq_true_iff.mp ht).1
  have huuid : ∀ {req : HookCallbackRequest}, ValidRequest parseUuid req →
      ∀ c ∈ req.communityId.toList, IsUuidChar c := by
    intro req v
    obtain ⟨u, hu⟩ := v.communityId
    exact isUuidChar_of_isUuidText (hparse _ u hu)
  have hsorted : ∀ {req : HookCallbackRequest}, ValidRequest parseUuid req →
      ∀ r ∈ refsSorted req.refUpdates, ValidRefUpdate r := by
    intro req v r hr
    exact v.refUpdates r ((List.perm_insertionSort _ _).mem_iff.mp hr)
  have hcolon : Str.asBytes ":" = [58] := by decide
  have hbar : Str.asBytes "|" = [124] := by decide
  unfold hmacInput at h
  rw [hcolon, hbar] at h
  simp only [List.append_assoc, List.singleton_append] at h
  -- the fields, from left to right
  rw [← List.append_assoc (Str.decimal _), ← List.append_assoc (Str.decimal _)] at h
  obtain ⟨hrepo, h⟩ := prefixedText_selfDelimiting.peel trivial trivial trivial trivial h
  obtain ⟨_, h⟩ := List.cons.inj h
  obtain ⟨howner, h⟩ := (fixedText_selfDelimiting 64).peel (hkey va.repoOwner) (hkey vb.repoOwner)
    trivial trivial h
  obtain ⟨_, h⟩ := List.cons.inj h
  obtain ⟨hcomm, h⟩ := barText_selfDelimiting.peel (huuid va) (huuid vb)
    (stopsAt_cons (by simp)) (stopsAt_cons (by simp)) h
  obtain ⟨_, h⟩ := List.cons.inj h
  obtain ⟨hpusher, h⟩ := (fixedText_selfDelimiting 64).peel (hkey va.pusherPubkey)
    (hkey vb.pusherPubkey) trivial trivial h
  obtain ⟨_, h⟩ := List.cons.inj h
  obtain ⟨hrefs, h⟩ := refsInput_selfDelimiting.peel (hsorted va) (hsorted vb)
    (stopsAt_cons (by decide)) (stopsAt_cons (by decide)) h
  obtain ⟨_, h⟩ := List.cons.inj h
  refine ⟨hrepo, howner, hcomm, hpusher, UInt64.toNat_inj.mp (Str.decimal_inj h), ?_⟩
  calc a.refUpdates.Perm (refsSorted a.refUpdates) := (List.perm_insertionSort _ _).symm
    _ = refsSorted b.refUpdates := hrefs
    List.Perm _ b.refUpdates := List.perm_insertionSort _ _

/-- A callback that creates one branch, or two of them in some order. -/
def exampleRequest (refs : List HookRefUpdate) : HookCallbackRequest where
  repoId := "a|b"
  repoOwner := "aaaaaaaaaaaaaaaaaaaaaaaaaaaaaaaaaaaaaaaaaaaaaaaaaaaaaaaaaaaaaaaa"
  communityId := "00000000-0000-0000-0000-000000000001"
  pusherPubkey := "bbbbbbbbbbbbbbbbbbbbbbbbbbbbbbbbbbbbbbbbbbbbbbbbbbbbbbbbbbbbbbbb"
  refUpdates := refs
  timestamp := 1700000000
  signature := ""

def exampleRef (name : String) : HookRefUpdate where
  oldOid := zeroOid
  newOid := "cccccccccccccccccccccccccccccccccccccccc"
  refName := name
  isAncestor := false

/-- `Uuid::parse_str` on the one community of the example. -/
def exampleParseUuid (s : String) : Option Uuid :=
  if s = "00000000-0000-0000-0000-000000000001" then some (.ofNat 16 1) else none

theorem isUuidText_of_exampleParseUuid {s : String} {u : Uuid} (h : exampleParseUuid s = some u) :
    IsUuidText s := by
  unfold exampleParseUuid at h
  split at h
  · rename_i hs
    subst hs
    exact .inr (.inl ⟨"00000000".toList, "0000".toList, "0000".toList, "0000".toList,
      "000000000001".toList, by decide, by decide, by decide, by decide, by decide, by decide⟩)
  · exact absurd h (by simp)

/-- The order in which the hook lists two refs does not show in the payload. -/
theorem hmacInput_unambiguous_two_refs :
    (exampleRequest [exampleRef "refs/heads/b", exampleRef "refs/heads/a"]).refUpdates.Perm
      (exampleRequest [exampleRef "refs/heads/a", exampleRef "refs/heads/b"]).refUpdates := by
  have hsorted : refsSorted [exampleRef "refs/heads/b", exampleRef "refs/heads/a"]
      = refsSorted [exampleRef "refs/heads/a", exampleRef "refs/heads/b"] := by decide
  have hinput : hmacInput (exampleRequest [exampleRef "refs/heads/b", exampleRef "refs/heads/a"])
      = hmacInput (exampleRequest [exampleRef "refs/heads/a", exampleRef "refs/heads/b"]) := by
    unfold hmacInput exampleRequest
    dsimp only
    rw [hsorted]
  have hba : validateFields exampleParseUuid
      (exampleRequest [exampleRef "refs/heads/b", exampleRef "refs/heads/a"])
        = .ok ⟨.ofNat 16 1⟩ := by decide
  have hab : validateFields exampleParseUuid
      (exampleRequest [exampleRef "refs/heads/a", exampleRef "refs/heads/b"])
        = .ok ⟨.ofNat 16 1⟩ := by decide +kernel
  exact (hmacInput_unambiguous (fun _ _ => isUuidText_of_exampleParseUuid) hba hab hinput).2.2.2.2.2

end Pkzz.Git
