import Pkzz.Db.Replace
import Pkzz.Lib.JsonKeys
import Pkzz.Lib.Machine
import Pkzz.Lib.Threads

/-!
# Workflow definitions

`handle_workflow_def` of `buzz-relay` with `persist_command_event` and `upsert_workflow`, for the
definitions that one owner sends for one workflow of a channel. The event goes into a transaction
that holds an advisory lock on the event's coordinate; the row of the workflow is read before the
transaction begins, and written outside it.

Every statement outside the transaction is a step of its own. The statements inside it see and touch
only rows of the locked coordinate, so they are one step up to the insert, and one at the commit.
-/

namespace Pkzz.Relay.Workflow

open Pkzz.Core Pkzz.Lib
open Pkzz.Db.Replace (Stamp)
open Pkzz.Db.Thread (DateTime SignedEvent asI64)

def KIND_WORKFLOW_DEF : Kind := 30620

def D_TAG_MAX_LEN : Nat := 1024

/-! ## Definitions -/

inductive TriggerDef where
  | messagePosted (filter : Option String)
  | reactionAdded (emoji : Option String)
  | diffPosted (filter : Option String)
  | schedule (cron interval : Option String)
  | webhook
  deriving DecidableEq

/-- A step as it is serialized, and whether its action is `call_webhook`. -/
structure Step where
  json : Json
  callsWebhook : Bool

structure WorkflowDef where
  name : String
  description : Option String
  trigger : TriggerDef
  steps : List Step
  enabled : Bool

def optionJson : Option String → Json
  | none => .null
  | some s => .str s

def TriggerDef.toJson : TriggerDef → Json
  | .messagePosted filter => .obj [("filter", optionJson filter), ("on", .str "message_posted")]
  | .reactionAdded emoji => .obj [("emoji", optionJson emoji), ("on", .str "reaction_added")]
  | .diffPosted filter => .obj [("filter", optionJson filter), ("on", .str "diff_posted")]
  | .schedule cron interval =>
    .obj [("cron", optionJson cron), ("interval", optionJson interval), ("on", .str "schedule")]
  | .webhook => .obj [("on", .str "webhook")]

/-- The definition as `serde_json` reads it back: an object in the order of its keys. -/
def WorkflowDef.fields (d : WorkflowDef) : List (String × Json) :=
  [("description", optionJson d.description), ("enabled", .bool d.enabled), ("name", .str d.name),
    ("steps", .arr (d.steps.map Step.json)), ("trigger", d.trigger.toJson)]

def WorkflowDef.toJson (d : WorkflowDef) : Json := .obj d.fields

def WorkflowDef.requiresElevatedAuthority (d : WorkflowDef) : Bool := d.steps.any Step.callsWebhook

/-! ## The webhook secret -/

def secretKey : String := "_webhook_secret"

def injectSecret (definition : Json) (secret : String) : Json :=
  match definition with
  | .obj fields =>
      .obj (Json.sortByKey ((secretKey, .str secret) :: fields.filter fun f => f.1 ≠ secretKey))
  | other => other

def extractSecret (definition : Json) : Option String :=
  match definition with
  | .obj fields =>
    match fields.lookup secretKey with
    | some (.str s) => some s
    | _ => none
  | _ => none

/-! ## Rows -/

/-- A row of `workflows`. -/
structure WorkflowRow where
  name : String
  ownerPubkey : PublicKey
  channelId : Option Uuid
  definition : Json
  definitionHash : List UInt8

/-- A row of `events` of this kind, author and community. -/
structure EventRow where
  event : SignedEvent
  createdAt : DateTime
  dTag : String
  deleted : Bool
  deriving DecidableEq

def EventRow.stamp (r : EventRow) : Stamp := ⟨r.createdAt, r.event.event.id⟩

def EventRow.place (r : EventRow) : Intᵒᵈ ×ₗ List Nat := r.stamp.place

/-- `upsert_workflow`: the row afterwards; none if the row belongs to someone else. -/
def upsertWorkflow (row : Option WorkflowRow) (new : WorkflowRow) : Option WorkflowRow :=
  match row with
  | none => some new
  | some old =>
    if old.ownerPubkey = new.ownerPubkey ∧ old.channelId = new.channelId then
      some { old with
        name := new.name, definition := new.definition, definitionHash := new.definitionHash }
    else none

/-! ## Answers -/

inductive IngestError where
  | rejected (message : String)
  | internal (message : String)
  deriving DecidableEq

/-- The message of an accepted event. -/
inductive Message where
  | duplicate
  | response (workflowId : Uuid) (webhookSecret : Option String)
  deriving DecidableEq

def Message.text : Message → List Char
  | .duplicate => "duplicate: already processed".toList
  | .response workflowId webhookSecret =>
    "response:".toList ++
      Json.text (.obj (webhookSecret.toList.map (fun s => ("webhook_secret", .str s))
      ++ [("workflow_id", .str workflowId.toString)]))

structure IngestResult where
  eventId : String
  accepted : Bool
  message : Message
  deriving DecidableEq

abbrev Answer := Except IngestError IngestResult

/-- What the calls have in common: whose workflow it is, and what the code is given to read YAML and
to hash. -/
structure Site where
  communityId : CommunityId
  owner : PublicKey
  channelId : Uuid
  workflowId : Uuid
  parseYaml : String → Except String WorkflowDef
  sha256 : List UInt8 → List UInt8

/-! ## Up to the transaction -/

/-- A call that has passed the checks of steps 1 to 3. -/
structure Parsed where
  event : SignedEvent
  dTag : String
  defn : WorkflowDef
  workflowName : String

/-- `extract_tag`. -/
def extractTag (event : Event) (tagName : String) : Option String :=
  (event.tagContents tagName).head?

/-- The tags, membership, YAML and role, in this order. The two ids are checked against the site by
the caller. -/
def parseCall (site : Site) (event : SignedEvent) (isMember : Except String Bool)
    (role : Except String (Option String)) : Except IngestError (Uuid × Uuid × Parsed) :=
  match extractTag event.event "h" with
  | none => .error (.rejected "invalid: missing h tag (channel_id)")
  | some channelIdStr =>
  match Uuid.parse channelIdStr with
  | none => .error (.rejected "invalid: bad channel_id format")
  | some channelId =>
  match extractTag event.event "d" with
  | none => .error (.rejected "invalid: missing d tag (workflow_id)")
  | some workflowIdStr =>
  match Uuid.parse workflowIdStr with
  | none => .error (.rejected "invalid: bad workflow_id format")
  | some workflowId =>
  match isMember with
  | .error e => .error (.internal ("error: membership check: " ++ e))
  | .ok false => .error (.rejected "forbidden: not a member of this channel")
  | .ok true =>
  match site.parseYaml event.content with
  | .error e => .error (.rejected ("invalid: workflow YAML parse error: " ++ e))
  | .ok defn =>
    let parsed : Parsed :=
      ⟨event, workflowIdStr, defn, (extractTag event.event "name").getD defn.name⟩
    if defn.requiresElevatedAuthority then
      match role with
      | .error e => .error (.internal ("error: role check: " ++ e))
      | .ok role =>
        if role = some "owner" ∨ role = some "admin" then .ok (channelId, workflowId, parsed)
        else .error (.rejected
          "forbidden: workflows with call_webhook actions require the owner or admin role")
    else .ok (channelId, workflowId, parsed)

/-- A call that has read the row: the secret it found there, and one it generated. -/
structure Draft where
  parsed : Parsed
  existingSecret : Option String
  generated : String

namespace Draft

variable (d : Draft)

def isWebhook : Bool := d.parsed.defn.trigger = .webhook

/-- The secret that is put into the definition. -/
def secret : Option String := if d.isWebhook then some (d.existingSecret.getD d.generated) else none

/-- The secret that the answer tells the owner. -/
def newSecret : Option String :=
    if d.isWebhook ∧ d.existingSecret = none then some d.generated else none

def definition : Json :=
  match d.secret with
  | some secret => injectSecret d.parsed.defn.toJson secret
  | none => d.parsed.defn.toJson

def row (site : Site) : WorkflowRow where
  name := d.parsed.workflowName
  ownerPubkey := site.owner
  channelId := some site.channelId
  definition := d.definition
  definitionHash := site.sha256 (Str.asBytes (String.ofList d.definition.text))

end Draft

/-- The check of ownership, and what is taken from the row. -/
def readWorkflow (site : Site) (row : Option WorkflowRow) (parsed : Parsed) (generated : String) :
    Except IngestError Draft :=
  match row with
  | none => .ok ⟨parsed, none, generated⟩
  | some workflow =>
    if workflow.ownerPubkey ≠ site.owner ∨ workflow.channelId ≠ some site.channelId then
      .error (.rejected "forbidden: workflow belongs to a different owner or channel")
    else .ok ⟨parsed, extractSecret workflow.definition, generated⟩

/-! ## The transaction -/

def fnv (bytes : List UInt8) : UInt64 :=
  bytes.foldl (fun h b => (h ^^^ b.toUInt64) * 0x100000001b3) 0xcbf29ce484222325

/-- `i32::to_le_bytes` of a kind. -/
def kindBytes (kind : Kind) : List UInt8 :=
  [UInt8.ofNat kind.toNat, UInt8.ofNat (kind.toNat / 256), 0, 0]

def lockKey (site : Site) (kind : Kind) (pubkey : PublicKey) (dTag : String) : UInt64 :=
  fnv (site.communityId.uuid.bytes ++ kindBytes kind ++ pubkey.bytes ++ Str.asBytes dTag)

/-- An open transaction: the timestamp and the coordinate of the row it has inserted. -/
structure Tx where
  createdAt : DateTime
  dTag : String
  deriving DecidableEq

/-- The call that a statement of the transaction failed in. -/
inductive PersistFault where
  | beginTransaction (e : String)
  | lock (e : String)
  | query (e : String)
  | replace (e : String)
  | insert (e : String)

def PersistFault.error : PersistFault → IngestError
  | .beginTransaction e => .internal ("error: begin transaction: " ++ e)
  | .lock e => .internal ("error: lock event coordinate: " ++ e)
  | .query e => .internal ("error: query event coordinate: " ++ e)
  | .replace e => .internal ("error: replace old event: " ++ e)
  | .insert e => .internal ("error: insert event: " ++ e)

/-- The fault comes before the lock is held. -/
def PersistFault.early : PersistFault → Bool
  | .beginTransaction _ | .lock _ => true
  | _ => false

/-- The live row of the coordinate that the incoming event is compared with. -/
def existingEvent (events : List EventRow) (dTag : String) : Option EventRow :=
  (events.filter fun r => r.dTag = dTag && !r.deleted).argmin EventRow.place

/-- The column `d_tag`. Definitions are of a parameterized replaceable kind, so it is not null. -/
def dTagOf (event : Event) : String := (extractTag event "d").getD ""

/-- `persist_command_event`, if no statement fails: the open transaction, or none for a duplicate.
-/
def persistCommandEvent (events : List EventRow) (event : SignedEvent) :
    Except IngestError (Option Tx) :=
  match DateTime.fromTimestamp (asI64 event.event.createdAt) with
  | none => .error (.rejected ("invalid: bad timestamp " ++ toString (asI64 event.event.createdAt)))
  | some createdAt =>
    let dTag := dTagOf event.event
    if Str.len dTag > D_TAG_MAX_LEN then
      .error (.rejected ("invalid: d tag too long (" ++ (Str.len dTag).repr ++ " bytes, max " ++
        D_TAG_MAX_LEN.repr ++ ")"))
    else if (existingEvent events dTag).any fun r =>
      Stamp.dominatedBy ⟨createdAt, event.event.id⟩ r.stamp then .ok none
    -- `ON CONFLICT DO NOTHING`; the marks on the old rows are rolled back with the rest
    else if events.any fun r => r.stamp = ⟨createdAt, event.event.id⟩ then .ok none
    else .ok (some ⟨createdAt, dTag⟩)

/-- `UPDATE events SET deleted_at` for the rows of a coordinate. -/
def EventRow.retire (dTag : String) (r : EventRow) : EventRow :=
    if r.dTag = dTag then { r with deleted := true } else r

/-- The rows after the commit: the superseded ones are marked, the new one is there. -/
def commitEvent (events : List EventRow) (event : SignedEvent) (tx : Tx) : List EventRow :=
  events.map (EventRow.retire tx.dTag) ++ [⟨event, tx.createdAt, tx.dTag, false⟩]

/-! ## The system -/

/-- Where a call stands. From `inserted` on its transaction is open and holds the lock. -/
inductive Phase where
  | reading (parsed : Parsed)
  | ready (draft : Draft)
  | inserted (draft : Draft) (tx : Tx)
  | checked (draft : Draft) (tx : Tx)
  | written (draft : Draft) (tx : Tx)
  | done (answer : Answer)

/-- The transaction that a call holds. -/
def Phase.open? : Phase → Option (Draft × Tx)
  | .inserted d tx | .checked d tx | .written d tx => some (d, tx)
  | _ => none

/-- A write of the row: which call made it, and for which event. -/
structure RowWrite where
  call : Nat
  draft : Draft
  tx : Tx

def stampOf (d : Draft) (tx : Tx) : Stamp := ⟨tx.createdAt, d.parsed.event.event.id⟩

def RowWrite.stamp (w : RowWrite) : Stamp := stampOf w.draft w.tx

/-- The tables, and what has been written so far. -/
structure Tables where
  events : List EventRow
  row : Option WorkflowRow
  writes : List RowWrite
  commits : List Nat

abbrev State := Pool Tables Phase

def State.init : State := ⟨⟨[], none, [], []⟩, []⟩

inductive Move where
  | call (event : SignedEvent) (isMember : Except String Bool)
      (role : Except String (Option String))
  | getWorkflow (i : Nat) (fault : Option String) (generated : String)
  | persist (i : Nat) (fault : Option PersistFault)
  | getChannel (i : Nat) (found : Bool)
  /-- A call that fails may have been run by the server. -/
  | upsert (i : Nat) (fault : Option (Bool × String))
  | commit (i : Nat) (fault : Option (Bool × String))

section

variable (site : Site)

/-- No other transaction holds the lock, or is about to insert the same row. -/
def lockFree (s : State) (d : Draft) : Bool :=
  let event := d.parsed.event.event
  s.threads.all fun phase =>
    match phase.open? with
    | some (d', tx) =>
      lockKey site event.kind event.pubkey tx.dTag ≠
        lockKey site event.kind event.pubkey (dTagOf event)
        && (some tx.createdAt ≠ DateTime.fromTimestamp (asI64 event.createdAt) ||
          d'.parsed.event.event.id ≠ event.id)
    | none => true

def responseOf (d : Draft) : IngestResult :=
  ⟨d.parsed.event.event.id.toHex, true, .response site.workflowId d.newSecret⟩

def duplicateOf (d : Draft) : IngestResult := ⟨d.parsed.event.event.id.toHex, true, .duplicate⟩

/-- The statement that writes the row has been run. -/
def Tables.upsert (t : Tables) (i : Nat) (d : Draft) (tx : Tx) : Option Tables :=
  (upsertWorkflow t.row (d.row site)).map fun row =>
    { t with row := some row, writes := t.writes ++ [⟨i, d, tx⟩] }

def Tables.commit (t : Tables) (i : Nat) (d : Draft) (tx : Tx) : Tables :=
  { t with events := commitEvent t.events d.parsed.event tx, commits := t.commits ++ [i] }

def step (s : State) : Move → Option State
  | .call event isMember role =>
    if event.event.kind = KIND_WORKFLOW_DEF ∧ event.event.pubkey = site.owner then
      match parseCall site event isMember role with
      | .error e => some (s.spawn (.done (.error e)))
      | .ok (channelId, workflowId, parsed) =>
        -- calls for other channels and workflows are not looked at
        if channelId = site.channelId ∧ workflowId = site.workflowId then
          some (s.spawn (.reading parsed))
        else none
    else none
  | .getWorkflow i fault generated =>
    match s.threads[i]? with
    | some (.reading parsed) =>
      match fault with
      | some e => some (s.put i s.shared
          (.done (.error (.internal ("error: db get_workflow: " ++ e)))))
      | none =>
        match readWorkflow site s.shared.row parsed generated with
        | .error e => some (s.put i s.shared (.done (.error e)))
        | .ok draft => some (s.put i s.shared (.ready draft))
    | _ => none
  | .persist i fault =>
    match s.threads[i]? with
    | some (.ready d) =>
      match fault with
      | some f =>
        if f.early ∨ lockFree site s d then
          some (s.put i s.shared (.done (.error f.error))) else none
      | none =>
        match persistCommandEvent s.shared.events d.parsed.event with
        | .error e => some (s.put i s.shared (.done (.error e)))
        | .ok tx =>
          if lockFree site s d then
            match tx with
            | none => some (s.put i s.shared (.done (.ok (duplicateOf d))))
            | some tx => some (s.put i s.shared (.inserted d tx))
          else none
    | _ => none
  | .getChannel i found =>
    match s.threads[i]? with
    | some (.inserted d tx) =>
      if found then some (s.put i s.shared (.checked d tx))
      else some (s.put i s.shared
        (.done (.error (.rejected "invalid: workflow channel not found"))))
    | _ => none
  | .upsert i fault =>
    match s.threads[i]? with
    | some (.checked d tx) =>
      match fault, s.shared.upsert site i d tx with
      | none, some t => some (s.put i t (.written d tx))
      | none, none =>
        some (s.put i s.shared
          (.done (.error (.rejected
            "forbidden: workflow belongs to a different owner or channel"))))
      | some (ran, e), t =>
        some (s.put i (if ran then t.getD s.shared else s.shared)
          (.done (.error (.internal ("error: db upsert_workflow: " ++ e)))))
    | _ => none
  | .commit i fault =>
    match s.threads[i]? with
    | some (.written d tx) =>
      match fault with
      | none => some (s.put i (s.shared.commit i d tx) (.done (.ok (responseOf site d))))
      | some (committed, e) =>
        some (s.put i (if committed then s.shared.commit i d tx else s.shared)
          (.done (.error (.internal ("error: commit transaction: " ++ e)))))
    | _ => none

def machine : Machine State Move := ⟨step site⟩

end

end Pkzz.Relay.Workflow
