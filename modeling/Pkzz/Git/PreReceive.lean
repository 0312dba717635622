import Pkzz.Git.HookPolicy
import Pkzz.Lib.JsonRead
import Pkzz.Lib.Shell
import Pkzz.Lib.Utf8

/-!
# The pre-receive hook

`PRE_RECEIVE_HOOK` of `buzz-relay`'s `api/git/hook.rs`: the shell script `git receive-pack`
runs before it moves a ref. It reads the ref updates, builds a JSON body and a file of lines
next to each other, sorts the lines, splits them again, and signs what it prints for them.
And the other end: `policy.rs` reads the body, puts the refs in order itself and recomputes
the signature. The script is kept in octets, as the shell has it.
-/

namespace Pkzz.Git

open Pkzz.Core Pkzz.Lib

/-! ## The script -/

/-- What the relay sets before it spawns `git receive-pack`. -/
structure HookEnv where
  repoId : List UInt8
  repoOwner : List UInt8
  communityId : List UInt8
  pusherPubkey : List UInt8
  hookSecret : List UInt8

/-- The variables at the end of one round of the phase 1 loop. -/
structure HookRef where
  oldOid : List UInt8
  newOid : List UInt8
  refName : List UInt8
  isAncestor : Bool

/-- The default `IFS`: blank, tab, line end. -/
def defaultIfs : List UInt8 := [32, 9, 10]

/-- `git merge-base --is-ancestor` is asked only if neither end is the zero id. -/
def readRef (mergeBase : List UInt8 → List UInt8 → Bool) (vars : List (List UInt8)) : HookRef where
  oldOid := vars.getD 0 []
  newOid := vars.getD 1 []
  refName := vars.getD 2 []
  isAncestor := vars.getD 0 [] != Str.asBytes zeroOid && vars.getD 1 [] != Str.asBytes zeroOid
    && mergeBase (vars.getD 0 []) (vars.getD 1 [])

/-- Phase 1's loop: `while read -r old_oid new_oid ref_name`. -/
def readRefs (mergeBase : List UInt8 → List UInt8 → Bool) (stdin : List UInt8) : List HookRef :=
  (Shell.readLoop true defaultIfs 3 stdin).map (readRef mergeBase)

/-- `$(printf '%s' "$x" | sed 's/\\/\\\\/g; s/"/\\"/g')`. -/
def sedQuote (x : List UInt8) : List UInt8 :=
  Shell.capture (Shell.substitute 34 [92, 34] (Shell.substitute 92 [92, 92] x))

def jsonEntry (r : HookRef) : List UInt8 :=
  Str.asBytes "\x7b\"old_oid\":\"" ++ r.oldOid ++ Str.asBytes "\",\"new_oid\":\"" ++ r.newOid
    ++ Str.asBytes "\",\"ref_name\":\"" ++ sedQuote r.refName ++ Str.asBytes "\",\"is_ancestor\":"
    ++ Str.asBytes (if r.isAncestor then "true" else "false") ++ Str.asBytes "\x7d"

/-- `REFS`, with a comma in front of every entry but the first. -/
def refsJson (refs : List HookRef) : List UInt8 :=
  refs.foldl (fun acc r => (if acc ≠ [] then acc ++ Str.asBytes "," else acc) ++ jsonEntry r) []

/-- A line of `HMAC_FILE`. -/
def hmacLine (r : HookRef) : List UInt8 :=
  r.refName ++ Str.asBytes " " ++ r.oldOid ++ Str.asBytes " " ++ r.newOid ++ Str.asBytes " "
    ++ Str.asBytes (if r.isAncestor then "1" else "0")

/-- Phase 2's `printf '%s%s%s:%s%s'`, of `ref_name old_oid new_oid is_anc`. -/
def printRef (vars : List (List UInt8)) : List UInt8 :=
  vars.getD 1 [] ++ vars.getD 2 [] ++ Str.decimal (vars.getD 0 []).length ++ Str.asBytes ":"
    ++ vars.getD 0 [] ++ vars.getD 3 []

/-- `HMAC_FILE.concat`: the loop is `while IFS=' ' read`, without `-r`. -/
def concatRefs (refs : List HookRef) : List UInt8 :=
  (Shell.readLoop false [32] 4 (Shell.unlines (Shell.sort (refs.map hmacLine)))).flatMap printRef

/-- `HMAC_INPUT`; there is no `HMAC_FILE` unless phase 1 wrote a line. -/
def scriptHmacInput (env : HookEnv) (refs : List HookRef) (timestamp : UInt64) : List UInt8 :=
  Str.decimal env.repoId.length ++ Str.asBytes ":" ++ env.repoId ++ Str.asBytes "|" ++ env.repoOwner
    ++ Str.asBytes "|" ++ env.communityId ++ Str.asBytes "|" ++ env.pusherPubkey ++ Str.asBytes "|"
    ++ (if refs = [] then [] else Shell.capture (concatRefs refs))
    ++ Str.asBytes "|" ++ Str.decimal timestamp.toNat

/-- `openssl dgst -sha256 -hmac … -hex`, for a MAC that takes a key and a message. -/
def scriptSignature (mac : List UInt8 → List UInt8 → List UInt8) (env : HookEnv)
    (refs : List HookRef) (timestamp : UInt64) : String :=
  String.ofList ((mac env.hookSecret (scriptHmacInput env refs timestamp)).flatMap
    FixedBytes.hexByte)

/-- `BODY`. -/
def scriptBody (env : HookEnv) (refs : List HookRef) (timestamp : UInt64) (signature : String) :
    List UInt8 :=
  Str.asBytes "\x7b\"repo_id\":\"" ++ sedQuote env.repoId
    ++ Str.asBytes "\",\"repo_owner\":\"" ++ env.repoOwner
    ++ Str.asBytes "\",\"community_id\":\"" ++ env.communityId
    ++ Str.asBytes "\",\"pusher_pubkey\":\"" ++ env.pusherPubkey
    ++ Str.asBytes "\",\"ref_updates\":[" ++ refsJson refs
    ++ Str.asBytes "],\"timestamp\":" ++ Str.decimal timestamp.toNat
    ++ Str.asBytes ",\"signature\":\"" ++ Str.asBytes signature ++ Str.asBytes "\"\x7d"

/-! ## The relay's end -/

/-- The members of a struct that derives `Deserialize`, by name or in a row. -/
def members (names : List String) : Json → Option (List Json)
  | .obj fields => names.mapM fun name =>
    match fields.filter fun f => f.1 == name with
    | [(_, v)] => some v
    | _ => none
  | .arr items => if items.length = names.length then some items else none
  | _ => none

def HookRefUpdate.ofJson (v : Json) : Option HookRefUpdate :=
  match members ["old_oid", "new_oid", "ref_name", "is_ancestor"] v with
  | some [.str oldOid, .str newOid, .str refName, .bool isAncestor] =>
    some ⟨oldOid, newOid, refName, isAncestor⟩
  | _ => none

/-- A number that is a `u64`. -/
def u64OfNumber (n : JsonNumber) : Option UInt64 :=
  let value := Nat.ofDigitChars 10 n.text.toList 0
  if n.text.toList.all Char.isDigit ∧ value < UInt64.size then some (.ofNat value) else none

def HookCallbackRequest.ofJson (v : Json) : Option HookCallbackRequest :=
  match members ["repo_id", "repo_owner", "community_id", "pusher_pubkey", "ref_updates",
      "timestamp", "signature"] v with
  | some [.str repoId, .str repoOwner, .str communityId, .str pusherPubkey, .arr refUpdates,
      .num timestamp, .str signature] => do
      let refUpdates ← refUpdates.mapM HookRefUpdate.ofJson
      let timestamp ← u64OfNumber timestamp
      some { repoId, repoOwner, communityId, pusherPubkey, refUpdates, timestamp, signature }
  | _ => none

/-- `Json(req)`: `serde_json` allows 127 levels; `num` is how it reads a number. -/
def HookCallbackRequest.ofBody (num : List Char → Option JsonNumber) (body : List UInt8) :
    Option HookCallbackRequest := do
  let text ← Str.fromUtf8 body
  let v ← Json.parse num 128 text.toList
  HookCallbackRequest.ofJson v

/-- `verify_hmac`. -/
def verifyHmac (mac : List UInt8 → List UInt8 → List UInt8) (secret : List UInt8)
    (req : HookCallbackRequest) : Bool :=
  match decodeHex req.signature.toList with
  | none => false
  | some provided => computeHmac mac secret req == provided

/-! ## A push -/

/-- A ref update as `git receive-pack` hands it to the hook. -/
structure PushedRef where
  oldOid : String
  newOid : String
  refName : String
  deriving DecidableEq

/-- The lines on the hook's standard input. -/
def receivePackInput (updates : List PushedRef) : List UInt8 :=
  Shell.unlines (updates.map fun u =>
    Str.asBytes u.oldOid ++ Str.asBytes " " ++ Str.asBytes u.newOid ++ Str.asBytes " " ++
      Str.asBytes u.refName)

/-- An update whose name consists of octets that `hook_policy_check` accepts. -/
structure PushedRef.Accepted (u : PushedRef) : Prop where
  oldOid : isHex40 u.oldOid = true
  newOid : isHex40 u.newOid = true
  named : u.refName ≠ ""
  octets : ∀ b ∈ Str.asBytes u.refName, ¬ (b ≤ 0x20 ∨ b = 0x7f)

/-- A push as the relay sets it up for the hook. -/
structure HookPush where
  repoId : String
  repoOwner : String
  communityId : String
  pusherPubkey : String
  hookSecret : List UInt8
  updates : List PushedRef
  timestamp : UInt64

namespace HookPush

def env (p : HookPush) : HookEnv where
  repoId := Str.asBytes p.repoId
  repoOwner := Str.asBytes p.repoOwner
  communityId := Str.asBytes p.communityId
  pusherPubkey := Str.asBytes p.pusherPubkey
  hookSecret := p.hookSecret

/-- The HMAC input string of the hook. -/
def hmacInput (mergeBase : List UInt8 → List UInt8 → Bool) (p : HookPush) : List UInt8 :=
  scriptHmacInput p.env (readRefs mergeBase (receivePackInput p.updates)) p.timestamp

def signature (mac : List UInt8 → List UInt8 → List UInt8)
    (mergeBase : List UInt8 → List UInt8 → Bool) (p : HookPush) : String :=
  scriptSignature mac p.env (readRefs mergeBase (receivePackInput p.updates)) p.timestamp

/-- The body the hook posts. -/
def body (mac : List UInt8 → List UInt8 → List UInt8) (mergeBase : List UInt8 → List UInt8 → Bool)
    (p : HookPush) : List UInt8 :=
  scriptBody p.env (readRefs mergeBase (receivePackInput p.updates)) p.timestamp
    (p.signature mac mergeBase)

/--
What the relay and git see to: `validate_repo_id` lets no control character through, the owner
and the pusher are public keys, the community is a UUID, and no ref is updated twice.
-/
structure WellFormed (p : HookPush) : Prop where
  repoId : ∀ c ∈ p.repoId.toList, 32 ≤ c.toNat
  repoOwner : isLowerHex64 p.repoOwner = true
  communityId : IsUuidText p.communityId
  pusherPubkey : isLowerHex64 p.pusherPubkey = true
  updates : ∀ u ∈ p.updates, u.Accepted
  distinct : (p.updates.map PushedRef.refName).Nodup

end HookPush

end Pkzz.Git
