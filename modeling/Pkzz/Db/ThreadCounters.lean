import Pkzz.Db.ThreadWrites
import Pkzz.Lib.Machine

/-!
# Threads and their counters

Runs of the four calls, each a transaction of its own. Beside the tables the state keeps, as
proof-only history, what the calls said about the events that were live then: which of them is a
reply to which. From it follows what the counters should hold.

`Orderly` says when a call keeps them right. It leaves out: a reply whose metadata row is there
already as somebody's parent, a stub under another timestamp than the row that is there, metadata
for an event that is not live, a reply deleted without its counters, and a caller that passes
another parent or root than the event has.
-/

namespace Pkzz.Db.Thread

open Pkzz.Core Pkzz.Lib

/-- A call said that `message` is a reply to `parent`. -/
structure Link where
  message : Message
  parent : EventId
  deriving DecidableEq

def Link.parentMessage (l : Link) : Message := (l.message.1, l.parent)

structure State where
  store : Store
  /-- What was said so far, the latest first. -/
  links : List Link

inductive Call where
  | insertEvent (communityId : CommunityId) (ev : SignedEvent) (channelId : Option Uuid)
      (threadMeta : Option ThreadMetadataParams) (now : Int)
  | insertMetadata (communityId : CommunityId) (p : ThreadMetadataParams) (now : Int)
  | softDelete (communityId : CommunityId) (eventId : EventId)
  | softDeleteAndUpdate (communityId : CommunityId) (eventId : EventId)
      (parentEventId rootEventId : Option EventId)

/-- What metadata says about an event, if the event is live after the call. -/
def declare (links : List Link) (store : Store) (communityId : CommunityId)
    (p : ThreadMetadataParams) : List Link :=
  match p.parentEventId with
  | none => links
  | some parent =>
    if store.Live (p.message communityId) ∧ (⟨p.message communityId, parent⟩ : Link) ∉ links then
      ⟨p.message communityId, parent⟩ :: links
    else links

/-- A call that fails leaves everything as it was. -/
def call (s : State) : Call → State
  | .insertEvent communityId ev channelId threadMeta now =>
    match insertEventWithThreadMetadata s.store communityId ev channelId threadMeta now with
    | .error _ => s
    | .ok (store, _, _) =>
      match threadMeta with
      | some p => ⟨store, declare s.links store communityId p⟩
      | none => ⟨store, s.links⟩
  | .insertMetadata communityId p now =>
    match insertThreadMetadata s.store communityId p now with
    | .error _ => s
    | .ok store => ⟨store, declare s.links store communityId p⟩
  | .softDelete communityId eventId => ⟨(softDeleteEvent s.store communityId eventId).1, s.links⟩
  | .softDeleteAndUpdate communityId eventId parentEventId rootEventId =>
    ⟨(softDeleteEventAndUpdateThread s.store communityId eventId parentEventId rootEventId).1,
      s.links⟩

def threads : Machine State Call := ⟨fun s c => some (call s c)⟩

def State.empty : State := ⟨⟨[], [], List.nodup_nil, List.nodup_nil, by simp⟩, []⟩

/-! ## What the counters should hold -/

/-- `e` is a direct reply to `m`. -/
def IsReply (links : List Link) (e m : Message) : Prop :=
  ∃ l ∈ links, l.message = e ∧ l.parentMessage = m

/-- `e` is a reply to `m`, or to a descendant of `m`. -/
inductive Descends (links : List Link) : Message → Message → Prop where
  | reply {l : Link} : l ∈ links → Descends links l.message l.parentMessage
  | under {l : Link} {m : Message} : l ∈ links → Descends links l.parentMessage m →
      Descends links l.message m

/-- `n` messages are `P`. -/
def CountIs (P : Message → Prop) (n : Int) : Prop :=
  ∃ l : List Message, l.Nodup ∧ (∀ e, e ∈ l ↔ P e) ∧ n = l.length

/-- The counters are those of the live replies and descendants. -/
structure Exact (s : State) : Prop where
  one_row : (s.store.threadMetadata.map ThreadMetadataRow.message).Nodup
  replies : ∀ tm ∈ s.store.threadMetadata, s.store.Live tm.message →
    CountIs (fun e => s.store.Live e ∧ IsReply s.links e tm.message) tm.replyCount
  /-- A thread root is a message that is no reply itself. -/
  descendants : ∀ tm ∈ s.store.threadMetadata, s.store.Live tm.message →
    (∀ m, ¬ IsReply s.links tm.message m) →
    CountIs (fun e => s.store.Live e ∧ Descends s.links e tm.message) tm.descendantCount
  nonneg : ∀ tm ∈ s.store.threadMetadata, 0 ≤ tm.replyCount ∧ 0 ≤ tm.descendantCount

/-! ## Orderly calls -/

/-- The message at the top of the thread. -/
def rootIn : List Link → Message → Message
  | [], m => m
  | l :: links, m => if l.message = m then rootIn links l.parentMessage else rootIn links m

def linkOf (links : List Link) (m : Message) : Option Link := links.find? fun l => l.message = m

/-- Every row of the message has this timestamp. -/
def Fits (s : Store) (m : Message) (createdAt : DateTime) : Prop :=
  ∀ tm ∈ s.threadMetadata, tm.message = m → tm.eventCreatedAt = createdAt

instance (s : Store) (m : Message) (createdAt : DateTime) : Decidable (Fits s m createdAt) :=
  inferInstanceAs (Decidable (∀ tm ∈ s.threadMetadata,
    tm.message = m → tm.eventCreatedAt = createdAt))

/-- A reply that gets its metadata row: there is none yet, its parent and its root have none under
another timestamp, and the root is that of the parent. -/
structure Places (s : State) (communityId : CommunityId) (p : ThreadMetadataParams)
    (parent : EventId) : Prop where
  own_absent : p.message communityId ∉ s.store.threadMetadata.map ThreadMetadataRow.message
  not_itself : parent ≠ p.eventId
  root_eq : p.rootEventId = some (rootIn s.links (communityId, parent)).2
  parent_fits : Fits s.store (communityId, parent) p.parentTs
  root_fits : p.rootEventId ≠ some parent →
    Fits s.store (rootIn s.links (communityId, parent)) p.rootTs

/-- What was said about the event before is not contradicted. -/
def Said (s : State) (communityId : CommunityId) (p : ThreadMetadataParams) : Prop :=
  s.store.Live (p.message communityId) →
    ∀ parent ∈ p.parentEventId, (⟨p.message communityId, parent⟩ : Link) ∈ s.links

/-- The call keeps the counters right. -/
def Orderly (s : State) : Call → Prop
  | .insertEvent communityId ev _ threadMeta _ =>
    -- The id is a digest of the event, so of its timestamp.
    (∀ row ∈ s.store.events, row.message = (communityId, ev.event.id) →
      row.createdAt.secs = asI64 ev.event.createdAt)
      ∧ ∀ p ∈ threadMeta, p.eventId = ev.event.id ∧
        p.eventCreatedAt.secs = asI64 ev.event.createdAt ∧
        if (communityId, ev.event.id) ∈ s.store.events.map EventsRow.message then
          Said s communityId p
        else Fits s.store (p.message communityId) p.eventCreatedAt
          ∧ ∀ parent ∈ p.parentEventId, Places s communityId p parent
  | .insertMetadata communityId p _ =>
    if (p.row communityId).key ∈ s.store.threadMetadata.map ThreadMetadataRow.key then
      Said s communityId p
    else Fits s.store (p.message communityId) p.eventCreatedAt
      ∧ ∀ parent ∈ p.parentEventId, s.store.Live (p.message communityId) ∧
        Places s communityId p parent
  | .softDelete communityId eventId => s.store.Live (communityId, eventId) →
      linkOf s.links (communityId, eventId) = none
  | .softDeleteAndUpdate communityId eventId parentEventId rootEventId =>
    s.store.Live (communityId, eventId) →
      parentEventId = (linkOf s.links (communityId, eventId)).map Link.parent
        ∧ (parentEventId ≠ none → rootEventId = some (rootIn s.links (communityId, eventId)).2)

instance (s : State) (communityId : CommunityId) (p : ThreadMetadataParams) (parent : EventId) :
    Decidable (Places s communityId p parent) :=
  decidable_of_iff
    (p.message communityId ∉ s.store.threadMetadata.map ThreadMetadataRow.message ∧
      parent ≠ p.eventId ∧ p.rootEventId = some (rootIn s.links (communityId, parent)).2
      ∧ Fits s.store (communityId, parent) p.parentTs
      ∧ (p.rootEventId ≠ some parent →
        Fits s.store (rootIn s.links (communityId, parent)) p.rootTs))
    ⟨fun ⟨h₁, h₂, h₃, h₄, h₅⟩ => ⟨h₁, h₂, h₃, h₄, h₅⟩, fun ⟨h₁, h₂, h₃, h₄, h₅⟩ =>
      ⟨h₁, h₂, h₃, h₄, h₅⟩⟩

instance (s : State) (communityId : CommunityId) (p : ThreadMetadataParams) :
    Decidable (Said s communityId p) :=
  inferInstanceAs (Decidable (s.store.Live (p.message communityId) →
    ∀ parent ∈ p.parentEventId, (⟨p.message communityId, parent⟩ : Link) ∈ s.links))

instance decidableOrderly (s : State) : ∀ c : Call, Decidable (Orderly s c)
  | .insertEvent _ _ _ _ _ => inferInstanceAs (Decidable (_ ∧ _))
  | .insertMetadata communityId p _ => by
    unfold Orderly
    infer_instance
  | .softDelete _ _ => inferInstanceAs (Decidable (_ → _))
  | .softDeleteAndUpdate _ _ _ _ => inferInstanceAs (Decidable (_ → _ ∧ _))

end Pkzz.Db.Thread
