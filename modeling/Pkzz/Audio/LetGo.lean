import Pkzz.Audio.Duties

/-!
# An empty huddle is let go

The last cleanup of a local connection takes the room out of the map and releases the lease. A
stream that closes takes its peers out of the room and does neither, and some returns before the
admission do nothing at all; so it matters who is the last.

As long as whoever closes without doing its duty leaves another one with that duty behind, and a
stream drops nobody from its list who stays in a room, every peer, every room of the map and every
entry has an open connection or stream that answers for it.
-/

namespace Pkzz.Audio

open Pkzz.Core Pkzz.Lib Pkzz.Tunnel
open Finmap (lookup)

/-! ## Who is open -/

/-- A connection or a stream of some kind is open. -/
def AnyOpen (connections : Map Nat Connection) (streams : Map Nat ControlStream)
    (P : Connection → Prop) (Q : ControlStream → Prop) : Prop :=
  (∃ e ∈ connections.entries, P e.2) ∨ ∃ e ∈ streams.entries, Q e.2

instance AnyOpen.decidable (connections : Map Nat Connection) (streams : Map Nat ControlStream)
    (P : Connection → Prop)
    (Q : ControlStream → Prop) [DecidablePred P] [DecidablePred Q] :
    Decidable (AnyOpen connections streams P Q) :=
  @instDecidableOr _ _ Multiset.decidableExistsMultiset Multiset.decidableExistsMultiset

/-- A connection or a stream of the huddle is open. -/
abbrev IsOpen (connections : Map Nat Connection) (streams : Map Nat ControlStream)
    (key : HuddleKey) : Prop :=
  AnyOpen connections streams (fun conn => conn.key = key) fun st => st.key = some key

/-- One of them has got a room of the huddle, and if it is a connection, has not cleaned up yet. -/
abbrev Obtained (connections : Map Nat Connection) (streams : Map Nat ControlStream)
    (key : HuddleKey) : Prop :=
  AnyOpen connections streams (fun conn => conn.key = key ∧ conn.stage.toClean = true) fun st =>
    st.key = some key

/-- One of the connections has yet to release the generation. -/
abbrev Owed (connections : Map Nat Connection) (streams : Map Nat ControlStream) (key : HuddleKey)
    (generation : Nat) : Prop :=
  AnyOpen connections streams (fun conn =>
    conn.key = key ∧ conn.stage.toRelease = some generation) fun _ => False

/-- One of them answers for the peer of a room. -/
abbrev Seated (connections : Map Nat Connection) (streams : Map Nat ControlStream) (handle : Nat)
    (key : HuddleKey) (peerId : Uuid) : Prop :=
  AnyOpen connections streams (fun conn => conn.key = key ∧ conn.stage.seat = some (handle, peerId))
    fun st => st.key = some key ∧ peerId ∈ st.registered.map Prod.snd

/-- The pod has nothing of the huddle. -/
structure Gone (r : Relay) (key : HuddleKey) : Prop where
  peers : ∀ room ∈ r.rooms.created, room.key = key → room.peers = []
  room : r.rooms.get key = none
  owner : r.owners.entryFor key = none

/-- **Huddles are let go.** -/
def LetGo (s : Pod) : Prop := ∀ key, ¬ IsOpen s.connections s.streams key → Gone s.relay key

/-! ## Safe departures -/

/-- A connection may close: it cleans up the room or leaves that to another, and it releases its
lease or leaves that to another of the same generation. -/
structure Connection.MayClose (s : Pod) (c : Nat) (conn : Connection)
    (event : ConnectionEvent) : Prop where
  room : conn.stage.toClean = true → conn.cleansUp event = true ∨
    s.relay.rooms.get conn.key = none ∨ Obtained (Finmap.erase c s.connections) s.streams conn.key
  lease : ∀ generation ∈ conn.stage.toRelease, conn.releases event = some generation ∨
    (∀ entry ∈ s.relay.owners.entryFor conn.key, entry.generation ≠ generation) ∨
    Owed (Finmap.erase c s.connections) s.streams conn.key generation

instance Connection.MayClose.decidable (s : Pod) (c : Nat) (conn : Connection)
    (event : ConnectionEvent) : Decidable (conn.MayClose s c event) :=
  decidable_of_iff
    ((conn.stage.toClean = true → conn.cleansUp event = true ∨ s.relay.rooms.get conn.key = none ∨
        Obtained (Finmap.erase c s.connections) s.streams conn.key) ∧
      ∀ generation ∈ conn.stage.toRelease, conn.releases event = some generation ∨
        (∀ entry ∈ s.relay.owners.entryFor conn.key, entry.generation ≠ generation) ∨
        Owed (Finmap.erase c s.connections) s.streams conn.key generation)
    ⟨fun h => ⟨h.1, h.2⟩, fun h => ⟨h.room, h.lease⟩⟩

variable (cfg : Config)

def Connection.closes (r : Relay) (conn : Connection) (event : ConnectionEvent) : Bool :=
  (conn.step cfg r event).any fun next => next.2.isNone

def ControlStream.closes (r : Relay) (st : ControlStream) (event : StreamEvent) : Bool :=
  (st.step r event).any fun next => next.2.isNone

/-- Whom a stream drops from its list. A pubkey that registers again takes the place of the one
before. -/
def ControlStream.drops (r : Relay) (st : ControlStream) (event : StreamEvent) :
    List (String × Uuid) :=
  if st.closes r event then st.registered
  else
    match event, st.pending with
    | .unregister pubkey, _ => st.registered.filter fun p => p.1 = pubkey
    | .fence _, some (_, pubkey, _) => st.registered.filter fun p => p.1 = pubkey
    | _, _ => []

/-- The room it takes them out of: the one that the map has now. -/
def ControlStream.reaches (r : Relay) (st : ControlStream) (event : StreamEvent) : Option Nat :=
  match event with
  | .fence _ => if st.closes r event then st.currentRoom r else none
  | _ => st.currentRoom r

/-- A stream may go on: it closes only if another one has got the room, or the map has none, and
whom it drops is in no room that it does not reach. -/
structure ControlStream.MayStep (s : Pod) (n : Nat) (st : ControlStream)
    (event : StreamEvent) : Prop where
  room : st.closes s.relay event = true → ∀ key ∈ st.key, s.relay.rooms.get key = none ∨
    Obtained s.connections (Finmap.erase n s.streams) key
  peers : ∀ e ∈ s.relay.rooms.created.zipIdx, st.reaches s.relay event ≠ some e.2 →
    ∀ p ∈ e.1.peers, p.id ∉ (st.drops s.relay event).map Prod.snd

instance ControlStream.MayStep.decidable (s : Pod) (n : Nat) (st : ControlStream)
    (event : StreamEvent) : Decidable (st.MayStep s n event) :=
  decidable_of_iff
    ((st.closes s.relay event = true → ∀ key ∈ st.key, s.relay.rooms.get key = none ∨
        Obtained s.connections (Finmap.erase n s.streams) key) ∧
      ∀ e ∈ s.relay.rooms.created.zipIdx, st.reaches s.relay event ≠ some e.2 →
        ∀ p ∈ e.1.peers, ∀ q ∈ st.drops s.relay event, q.2 ≠ p.id)
    ⟨fun h => ⟨h.1, fun e he hne p hp hdrop => by
        obtain ⟨q, hq, heq⟩ := List.mem_map.mp hdrop
        exact h.2 e he hne p hp q hq heq⟩,
      fun h => ⟨h.room, fun e he hne p hp q hq heq =>
        h.peers e he hne p hp (List.mem_map.mpr ⟨q, hq, heq⟩)⟩⟩

/-- Nobody departs as the last one with a duty that it does not do. -/
def SafeDeparture (s : Pod) : Event → Prop
  | .connection c event => ∀ conn ∈ lookup c s.connections, conn.closes cfg s.relay event = true →
      conn.MayClose s c event
  | .stream n event => ∀ st ∈ lookup n s.streams, st.MayStep s n event
  | _ => True

instance SafeDeparture.decidable (s : Pod) : ∀ a : Event, Decidable (SafeDeparture cfg s a)
  | .connection c event => inferInstanceAs (Decidable (∀ conn ∈ lookup c s.connections,
      conn.closes cfg s.relay event = true → conn.MayClose s c event))
  | .stream n event => inferInstanceAs (Decidable (∀ st ∈ lookup n s.streams, st.MayStep s n event))
  | .connect _ _ _ _ _ | .accept _ _ | .renewer _ _ | .drain _ _ | .startDrain | .world _ =>
      isTrue trivial

variable {cfg} {r r' : Relay} {conn : Connection} {st : ControlStream} {stage' : Option JoinStage}
    {st' : Option ControlStream}
  {s s' : Pod} {a : Event} {key : HuddleKey} {c n : Nat} {connections : Map Nat Connection}
    {streams : Map Nat ControlStream}
  {P P' : Connection → Prop} {Q Q' : ControlStream → Prop}

/-! ## What is open stays open -/

theorem anyOpen_iff : AnyOpen connections streams P Q ↔
    (∃ c conn, lookup c connections = some conn ∧ P conn) ∨
    ∃ n st, lookup n streams = some st ∧ Q st := by
  constructor
  · rintro (⟨e, he, hP⟩ | ⟨e, he, hQ⟩)
    · exact .inl ⟨e.1, e.2, Finmap.lookup_eq_some_iff.mpr he, hP⟩
    · exact .inr ⟨e.1, e.2, Finmap.lookup_eq_some_iff.mpr he, hQ⟩
  · rintro (⟨c, conn, hlookup, hP⟩ | ⟨n, st, hlookup, hQ⟩)
    · exact .inl ⟨⟨c, conn⟩, Finmap.lookup_eq_some_iff.mp hlookup, hP⟩
    · exact .inr ⟨⟨n, st⟩, Finmap.lookup_eq_some_iff.mp hlookup, hQ⟩

theorem AnyOpen.imp (h : AnyOpen connections streams P Q) (hP : ∀ conn, P conn → P' conn)
    (hQ : ∀ st, Q st → Q' st) : AnyOpen connections streams P' Q' := by
  rcases h with ⟨e, he, hPe⟩ | ⟨e, he, hQe⟩
  · exact .inl ⟨e, he, hP _ hPe⟩
  · exact .inr ⟨e, he, hQ _ hQe⟩

/-- Without a connection that is not meant. -/
theorem AnyOpen.eraseConnection (h : AnyOpen connections streams P Q)
    (hnot : ∀ conn ∈ lookup c connections, ¬ P conn) :
    AnyOpen (Finmap.erase c connections) streams P Q := by
  rcases anyOpen_iff.mp h with ⟨c', conn', hconn', hP⟩ | hstream
  · have hne : c' ≠ c := by
      intro heq
      rw [heq] at hconn'
      exact hnot conn' hconn' hP
    exact anyOpen_iff.mpr (.inl ⟨c',
      conn', by rw [Map.lookup_erase_eq, if_neg hne]; exact hconn', hP⟩)
  · exact anyOpen_iff.mpr (.inr hstream)

theorem AnyOpen.eraseStream (h : AnyOpen connections streams P Q)
    (hnot : ∀ st ∈ lookup n streams, ¬ Q st) :
    AnyOpen connections (Finmap.erase n streams) P Q := by
  rcases anyOpen_iff.mp h with hconn | ⟨n', st', hst', hQ⟩
  · exact anyOpen_iff.mpr (.inl hconn)
  · have hne : n' ≠ n := by
      intro heq
      rw [heq] at hst'
      exact hnot st' hst' hQ
    exact anyOpen_iff.mpr (.inr ⟨n', st', by rw [Map.lookup_erase_eq, if_neg hne]; exact hst', hQ⟩)

theorem AnyOpen.putConnection (h : AnyOpen (Finmap.erase c connections) streams P Q)
    (next : Option Connection) : AnyOpen (put connections c next) streams P Q := by
  rcases anyOpen_iff.mp h with ⟨c', conn', hconn', hP⟩ | hstream
  · rw [Map.lookup_erase_eq] at hconn'
    split at hconn'
    · cases hconn'
    rename_i hne
    exact anyOpen_iff.mpr (.inl ⟨c', conn', by rw [lookup_put, if_neg hne]; exact hconn', hP⟩)
  · exact anyOpen_iff.mpr (.inr hstream)

theorem AnyOpen.putStream (h : AnyOpen connections (Finmap.erase n streams) P Q)
    (next : Option ControlStream) : AnyOpen connections (put streams n next) P Q := by
  rcases anyOpen_iff.mp h with hconn | ⟨n', st', hst', hQ⟩
  · exact anyOpen_iff.mpr (.inl hconn)
  · rw [Map.lookup_erase_eq] at hst'
    split at hst'
    · cases hst'
    rename_i hne
    exact anyOpen_iff.mpr (.inr ⟨n', st', by rw [lookup_put, if_neg hne]; exact hst', hQ⟩)

theorem anyOpen_putConnection {next : Connection} (h : P next) :
    AnyOpen (put connections c (some next)) streams P Q :=
  anyOpen_iff.mpr (.inl ⟨c, next, by rw [lookup_put, if_pos rfl], h⟩)

theorem anyOpen_putStream {next : ControlStream} (h : Q next) :
    AnyOpen connections (put streams n (some next)) P Q :=
  anyOpen_iff.mpr (.inr ⟨n, next, by rw [lookup_put, if_pos rfl], h⟩)

/-- What another one than this connection is of stays open. -/
theorem AnyOpen.others (h : AnyOpen connections streams P Q)
    (hconn : lookup c connections = some conn) (hnot : ¬ P conn)
    (next : Option Connection) : AnyOpen (put connections c next) streams P Q := by
  refine (h.eraseConnection ?_).putConnection next
  intro conn' hconn'
  rw [← Option.some.inj (hconn.symm.trans hconn')]
  exact hnot

theorem AnyOpen.otherStreams (h : AnyOpen connections streams P Q)
    (hst : lookup n streams = some st) (hnot : ¬ Q st)
    (next : Option ControlStream) : AnyOpen connections (put streams n next) P Q := by
  refine (h.eraseStream ?_).putStream next
  intro st' hst'
  rw [← Option.some.inj (hst.symm.trans hst')]
  exact hnot

/-- A connection that goes on keeps open what it is of, and leaves alone what others are of. -/
theorem AnyOpen.stepConnection (h : AnyOpen connections streams P Q)
    (hconn : lookup c connections = some conn)
    {stage : JoinStage} (hnext : P conn → P { conn with stage }) :
    AnyOpen (put connections c (some { conn with stage })) streams P Q := by
  by_cases hP : P conn
  · exact anyOpen_putConnection (hnext hP)
  · exact h.others hconn hP _

theorem AnyOpen.stepStream (h : AnyOpen connections streams P Q) (hst : lookup n streams = some st)
    {next : ControlStream} (hnext : Q st → Q next) :
    AnyOpen connections (put streams n (some next)) P Q := by
  by_cases hQ : Q st
  · exact anyOpen_putStream (hnext hQ)
  · exact h.otherStreams hst hQ _

/-! ## The invariant -/

/-- Somebody answers for all that the pod has. -/
structure Answered (s : Pod) : Prop where
  peers : ∀ handle room, s.relay.rooms.created[handle]? = some room → ∀ p ∈ room.peers,
    Seated s.connections s.streams handle room.key p.id
  room : ∀ key handle, s.relay.rooms.get key = some handle → Obtained s.connections s.streams key
  owner : ∀ key entry, s.relay.owners.entryFor key = some entry →
    Owed s.connections s.streams key entry.generation
  /-- A stream has a pubkey on its list once. -/
  pubkeys : ∀ n st, lookup n s.streams = some st → (st.registered.map Prod.fst).Nodup

/-- Where nothing of the huddle is open, nobody could answer for what is left of it. -/
theorem letGo_of_answered (h : Answered s) : LetGo s := by
  intro key hclosed
  refine ⟨?_, ?_, ?_⟩
  · intro room hroom hkey
    obtain ⟨handle, hhandle⟩ := List.mem_iff_getElem?.mp hroom
    refine List.eq_nil_iff_forall_not_mem.mpr fun p hp => hclosed ?_
    rw [← hkey]
    exact (h.peers handle room hhandle p hp).imp (fun _ hconn => hconn.1) fun _ hst => hst.1
  · refine Option.eq_none_iff_forall_ne_some.mpr fun handle hget => hclosed ?_
    exact (h.room key handle hget).imp (fun _ hconn => hconn.1) fun _ hst => hst
  · refine Option.eq_none_iff_forall_ne_some.mpr fun entry hentry => hclosed ?_
    exact (h.owner key entry hentry).imp (fun _ hconn => hconn.1) fun _ hst => hst.elim

theorem answered_start : Answered .start where
  peers := fun handle room hroom => by cases hroom
  room := fun key handle hget => by cases hget
  owner := fun key entry hentry => by cases hentry
  pubkeys := fun n st hst => by cases hst

/-! ## A connection's step -/

section Connection

variable {event : ConnectionEvent} {handle : Nat} {room' : Room} {p : AudioPeer}
    {entry : HuddleOwnerEntry}

theorem peers_connection (h : Answered s) (hconn : lookup c s.connections = some conn)
    (hduty : Duty s.relay conn event r' stage') (hroom' : r'.rooms.created[handle]? = some room')
    (hp : p ∈ room'.peers) :
    Seated (put s.connections c (stage'.map fun stage =>
      { conn with stage })) s.streams handle room'.key p.id := by
  -- a connection without a place answers for nobody
  have hothers : conn.stage.seat = none →
      (∃ room, s.relay.rooms.created[handle]? = some room ∧ room.key = room'.key ∧ p ∈ room.peers) →
      Seated (put s.connections c (stage'.map fun stage =>
        { conn with stage })) s.streams handle room'.key p.id := by
    rintro hseat ⟨room, hroom, hkey, hpeer⟩
    rw [← hkey]
    refine (h.peers handle room hroom p hpeer).others hconn ?_ _
    rintro ⟨_, hsits⟩
    rw [hseat] at hsits
    cases hsits
  cases hduty with
  | idle hseat _ _ hrooms _ | releases hseat _ _ hrooms _ =>
    rw [hrooms] at hroom'
    exact hothers hseat ⟨room', hroom', rfl, hp⟩
  | obtains hseat _ _ hrooms _ =>
    rw [hrooms] at hroom'
    have heffect : Effect (some conn.key) s.relay.rooms none
        (s.relay.rooms.getOrCreate conn.key).1 := .getOrCreate rfl
    exact hothers hseat (peers_effect heffect hroom' hp)
  | enters hseat _ _ hroom hkey hentered hseat' hrooms _ =>
    rw [hrooms] at hroom'
    rcases peers_entered hroom hentered hroom' hp with hold | ⟨heq, hkey', hpeer⟩
    · exact hothers hseat hold
    · rw [hpeer, hkey', hkey, ← heq]
      exact anyOpen_putConnection ⟨rfl, hseat'⟩
  | onward hseat _ _ hrooms _ =>
    rw [hrooms] at hroom'
    exact (h.peers handle room' hroom' p hp).stepConnection hconn fun hsits =>
      ⟨hsits.1, hseat.trans hsits.2⟩
  | @parts stage handle' peerId f hseat hthins hgone _ _ hrooms _ =>
    rw [hrooms] at hroom'
    have heffect : Effect (some conn.key) s.relay.rooms none (s.relay.rooms.update handle' f) :=
      .thin hthins
    obtain ⟨room, hroom, hkey, hpeer⟩ := peers_effect heffect hroom' hp
    rw [← hkey]
    refine (h.peers handle room hroom p hpeer).others hconn ?_ _
    rintro ⟨_, hsits⟩
    obtain ⟨heq, hid⟩ := Prod.mk.inj (Option.some.inj (hseat.symm.trans hsits))
    -- its own peer is not in the room any more
    rw [AudioRoomManager.getElem?_update, if_pos heq, hroom] at hroom'
    rw [← Option.some.inj hroom'] at hp
    exact hgone room p hp hid.symm
  | @cleans stage' hseat _ _ hrooms _ =>
    rw [hrooms] at hroom'
    have heffect : Effect (some conn.key) s.relay.rooms none
        (s.relay.rooms.cleanupIfEmpty conn.key).1 := .cleanup rfl
    exact hothers hseat (peers_effect heffect hroom' hp)
  | drops hseat _ _ hpeers _ _ => exact hothers hseat (hpeers handle room' p hroom' hp)

theorem room_connection (h : Answered s) (hkeyed : s.relay.rooms.Keyed)
    (hconn : lookup c s.connections = some conn)
    (hsafe : stage' = none → conn.MayClose s c event) (hduty : Duty s.relay conn event r' stage')
    (hget : r'.rooms.get key = some handle) :
    Obtained (put s.connections c (stage'.map fun stage => { conn with stage })) s.streams key := by
  cases hduty with
  | idle _ hclean _ hrooms _ | releases _ hclean _ hrooms _ =>
    rw [hrooms] at hget
    refine (h.room key handle hget).others hconn ?_ _
    rintro ⟨_, htrue⟩
    rw [hclean] at htrue
    cases htrue
  | obtains _ _ hclean hrooms _ =>
    by_cases hkey : key = conn.key
    · exact anyOpen_putConnection ⟨hkey.symm, hclean⟩
    · rw [hrooms, get_getOrCreate hkey] at hget
      exact (h.room key handle hget).others hconn (fun hown => hkey hown.1.symm) _
  | enters _ _ hclean _ _ _ _ hrooms _ | onward _ hclean _ hrooms _
  | parts _ _ _ hclean _ hrooms _ =>
    rw [hrooms] at hget
    exact (h.room key handle hget).stepConnection hconn fun hown => ⟨hown.1, hclean⟩
  | cleans hseat _ _ hrooms _ =>
    rw [hrooms] at hget
    obtain ⟨hold, hvacant⟩ := get_cleanup hget
    by_cases hkey : key = conn.key
    · -- whoever keeps the room in the map is open
      obtain ⟨room, p, hroom, hroomkey, hp⟩ := exists_peer_of_get hkeyed hold (hvacant hkey)
      have hseated := h.peers handle room hroom p hp
      rw [hroomkey] at hseated
      refine AnyOpen.imp (hseated.others hconn ?_ _) (fun _ hsits =>
        ⟨hsits.1, toClean_of_seat hsits.2⟩) fun _ hlisted => hlisted.1
      rintro ⟨_, hsits⟩
      rw [hseat] at hsits
      cases hsits
    · exact (h.room key handle hold).others hconn (fun hown => hkey hown.1.symm) _
  | drops _ hcleans _ _ hmap _ =>
    have hget : s.relay.rooms.get key = some handle := by
      rw [← hget, AudioRoomManager.get, AudioRoomManager.get, hmap]
    by_cases hown : conn.key = key ∧ conn.stage.toClean = true
    · obtain ⟨rfl, hclean⟩ := hown
      rcases (hsafe rfl).room hclean with htrue | hnone | hother
      · rw [hcleans] at htrue
        cases htrue
      · rw [hnone] at hget
        cases hget
      · exact hother.putConnection _
    · exact (h.room key handle hget).others hconn hown _

theorem owner_connection (h : Answered s) (hconn : lookup c s.connections = some conn)
    (hsafe : stage' = none → conn.MayClose s c event) (hduty : Duty s.relay conn event r' stage')
    (hentry : r'.owners.entryFor key = some entry) :
    Owed (put s.connections c (stage'.map fun stage =>
      { conn with stage })) s.streams key entry.generation := by
  -- a connection that owes nothing leaves the entries to others
  have hothers : conn.stage.toRelease = none → s.relay.owners.entryFor key = some entry →
      Owed (put s.connections c (stage'.map fun stage =>
        { conn with stage })) s.streams key entry.generation := by
    intro hrelease hold
    refine (h.owner key entry hold).others hconn ?_ _
    rintro ⟨_, howes⟩
    rw [hrelease] at howes
    cases howes
  -- and one that closes without a release may leave them to others too
  have hcloses : stage' = none → conn.releases event = none →
      s.relay.owners.entryFor key = some entry →
      Owed (put s.connections c (stage'.map fun stage =>
        { conn with stage })) s.streams key entry.generation := by
    intro hnone hreleases hold
    by_cases hown : conn.key = key ∧ conn.stage.toRelease = some entry.generation
    · obtain ⟨rfl, howes⟩ := hown
      rcases (hsafe hnone).lease entry.generation howes with htrue | hother | hother
      · rw [hreleases] at htrue
        cases htrue
      · exact absurd rfl (hother entry hold)
      · exact hother.putConnection _
    · exact (h.owner key entry hold).others hconn hown _
  cases hduty with
  | idle _ _ hrelease _ howners | obtains _ hrelease _ _ howners
  | enters _ hrelease _ _ _ _ _ _ howners =>
    exact hothers hrelease (by rw [← howners]; exact hentry)
  | onward _ _ hrelease _ howners =>
    rcases howners key entry hentry with hold | ⟨hkey, hnew⟩
    · exact (h.owner key entry hold).stepConnection hconn fun hown =>
        ⟨hown.1, hrelease.trans hown.2⟩
    · exact anyOpen_putConnection ⟨hkey.symm, hnew⟩
  | parts _ _ _ _ hrelease _ howners =>
    rw [howners] at hentry
    exact (h.owner key entry hentry).stepConnection hconn fun hown =>
      ⟨hown.1, hrelease.trans hown.2⟩
  | @cleans stage' _ hreleases hrelease _ howners =>
    rw [howners] at hentry
    cases stage' with
    | none => exact hcloses rfl hreleases hentry
    | some stage =>
      exact (h.owner key entry hentry).stepConnection hconn fun hown =>
        ⟨hown.1, hrelease _ hown.2 stage rfl⟩
  | drops _ _ hreleases _ _ howners => exact hcloses rfl hreleases (by rw [← howners]; exact hentry)
  | releases _ _ hrelease _ howners =>
    rw [howners, HuddleOwnerRegistry.release] at hentry
    obtain ⟨hold, hother⟩ := entryFor_removeIf (by exact fun _ => rfl) hentry
    refine (h.owner key entry hold).others hconn ?_ _
    rintro ⟨rfl, howes⟩
    exact hother rfl (Option.some.inj (howes.symm.trans hrelease))

end Connection

/-! ## A stream's step -/

section Stream

variable {event : StreamEvent} {handle : Nat} {room' : Room} {p : AudioPeer} {st₁ : ControlStream}

theorem drops_of_closes (hstep : st.step r event = some (r', none)) :
    st.drops r event = st.registered ∧ st.reaches r event = st.currentRoom r := by
  have hcloses : st.closes r event = true := by
    rw [ControlStream.closes, hstep]
    rfl
  refine ⟨?_, ?_⟩
  · unfold ControlStream.drops
    exact if_pos hcloses
  · unfold ControlStream.reaches
    split
    · exact if_pos hcloses
    · rfl

theorem drops_of_goesOn {next : ControlStream} (hstep : st.step r event = some (r', some next)) :
    st.closes r event = false := by
  rw [ControlStream.closes, hstep]
  rfl

/-- Whoever is on the list under another pubkey stays on it. -/
theorem listed_filter {pubkey : String} {peerId : Uuid}
    (hlisted : peerId ∈ st.registered.map Prod.snd)
    (hnot : peerId ∉ (st.registered.filter fun e => e.1 = pubkey).map Prod.snd) :
    peerId ∈ (st.registered.filter fun e => e.1 ≠ pubkey).map Prod.snd := by
  obtain ⟨e, he, rfl⟩ := List.mem_map.mp hlisted
  refine List.mem_map_of_mem (List.mem_filter.mpr ⟨he, ?_⟩)
  by_contra hsame
  exact hnot (List.mem_map_of_mem (List.mem_filter.mpr ⟨he, by simpa using hsame⟩))

/-- Whoever a stream keeps on its list it goes on answering for. -/
theorem peers_stream (h : Answered s) (hst : lookup n s.streams = some st)
    (hsafe : st.MayStep s n event)
    (hstep : st.step s.relay event = some (r', st')) (hduty : StreamDuty s.relay st r' event st')
    (hroom' : r'.rooms.created[handle]? = some room') (hp : p ∈ room'.peers) :
    Seated s.connections (put s.streams n st') handle room'.key p.id := by
  have hreached : ∀ room, s.relay.rooms.created[handle]? = some room → p ∈ room.peers →
      st.reaches s.relay event ≠ some handle → p.id ∉ (st.drops s.relay event).map Prod.snd := by
    intro room hroom hpeer hne
    exact hsafe.peers (room, handle) (List.mem_zipIdx_iff_getElem?.mpr hroom) hne p hpeer
  cases hduty with
  | @closes event st₁ hregistered hkeys hrooms =>
    rw [hrooms] at hroom'
    obtain ⟨room, hroom, hkey, hpeer, hgone⟩ := peers_teardown hroom' hp
    rw [← hkey]
    refine (h.peers handle room hroom p hpeer).otherStreams hst ?_ none
    rintro ⟨hown, hlisted⟩
    by_cases hcurrent : st.currentRoom s.relay = some handle
    · refine hgone ?_ (by rw [hregistered]; exact hlisted)
      rw [ControlStream.currentRoom, hkeys room.key hown, ← hown]
      exact hcurrent
    · obtain ⟨hdrops, hreaches⟩ := drops_of_closes hstep
      refine hreached room hroom hpeer ?_ (by rw [hdrops]; exact hlisted)
      rw [hreaches]
      exact hcurrent
  | @obtains event next key hkeys _ hregistered hrooms =>
    rw [hrooms] at hroom'
    have heffect : Effect (some key) s.relay.rooms none (s.relay.rooms.getOrCreate key).1 :=
      .getOrCreate rfl
    obtain ⟨room, hroom, hkey, hpeer⟩ := peers_effect heffect hroom' hp
    rw [← hkey]
    exact (h.peers handle room hroom p hpeer).stepStream hst fun hlisted =>
      ⟨hkeys _ hlisted.1, by rw [hregistered]; exact hlisted.2⟩
  | stays hkey hregistered hrooms =>
    rw [hrooms] at hroom'
    exact (h.peers handle room' hroom' p hp).stepStream hst fun hlisted =>
      ⟨hkey.trans hlisted.1, by rw [hregistered]; exact hlisted.2⟩
  | @enters handle' version pubkey room₀ room₁ q hpending hroom₀ hentered hkey hrooms =>
    rw [hrooms] at hroom'
    rcases peers_entered hroom₀ hentered hroom' hp with ⟨room, hroom, hroomkey, hpeer⟩ |
      ⟨_, hroomkey, hnew⟩
    · rw [← hroomkey]
      refine (h.peers handle room hroom p hpeer).stepStream hst ?_
      rintro ⟨hown, hlisted⟩
      have hgoesOn := drops_of_goesOn hstep
      refine ⟨hown, ?_⟩
      rw [ControlStream.insert, List.map_append]
      refine List.mem_append_left _ (listed_filter hlisted ?_)
      have hdropped := hreached room hroom hpeer
      rw [ControlStream.reaches.eq_def, ControlStream.drops.eq_def, hgoesOn, hpending] at hdropped
      exact hdropped (by simp)
    · rw [hnew, hroomkey]
      refine anyOpen_putStream ⟨hkey, ?_⟩
      rw [ControlStream.insert, List.map_append]
      exact List.mem_append_right _ List.mem_cons_self
  | @drops pubkey peerId hfound hrooms =>
    have hgoesOn := drops_of_goesOn hstep
    -- whoever is in the stream's room is not the one that was taken out
    have hold : ∃ room, s.relay.rooms.created[handle]? = some room ∧ room.key = room'.key ∧
        p ∈ room.peers ∧ (st.currentRoom s.relay = some handle → p.id ≠ peerId) := by
      rw [hrooms] at hroom'
      cases hcurrent : st.currentRoom s.relay with
      | none =>
        rw [hcurrent] at hroom'
        exact ⟨room', hroom', rfl, hp, fun hsome => by cases hsome⟩
      | some current =>
        rw [hcurrent] at hroom'
        change (s.relay.rooms.update current _).created[handle]? = some room' at hroom'
        rw [AudioRoomManager.getElem?_update] at hroom'
        split at hroom'
        · obtain ⟨room, hroom, rfl⟩ := Option.map_eq_some_iff.mp hroom'
          have hthins := Room.thins_removePeer room peerId
          exact ⟨room, hroom, hthins.key.symm, hthins.peers p hp, fun _ => notMem_removePeer hp⟩
        · rename_i hne
          exact ⟨room', hroom', rfl, hp, fun heq => absurd (Option.some.inj heq) hne⟩
    obtain ⟨room, hroom, hkey, hpeer, hgone⟩ := hold
    rw [← hkey]
    refine (h.peers handle room hroom p hpeer).stepStream hst ?_
    rintro ⟨hown, hlisted⟩
    refine ⟨hown, listed_filter hlisted ?_⟩
    by_cases hcurrent : st.currentRoom s.relay = some handle
    · intro hmem
      obtain ⟨e, he, hid⟩ := List.mem_map.mp hmem
      obtain ⟨he, hpubkey⟩ := List.mem_filter.mp he
      -- the pubkey is on the list once
      have hsame : e = (pubkey, peerId) :=
        List.inj_on_of_nodup_map (h.pubkeys n st hst) he (List.mem_of_find?_eq_some hfound)
          (by simpa using hpubkey)
      exact hgone hcurrent (by rw [← hid, hsame])
    · have hdropped := hreached room hroom hpeer
      rw [ControlStream.reaches.eq_def, ControlStream.drops.eq_def, hgoesOn] at hdropped
      exact hdropped hcurrent

theorem room_stream (h : Answered s) (hst : lookup n s.streams = some st)
    (hsafe : st.MayStep s n event)
    (hstep : st.step s.relay event = some (r', st')) (hduty : StreamDuty s.relay st r' event st')
    (hget : r'.rooms.get key = some handle) : Obtained s.connections (put s.streams n st') key := by
  cases hduty with
  | @closes event st₁ _ _ hrooms =>
    have hget : s.relay.rooms.get key = some handle := by
      rw [← hget, hrooms, ControlStream.teardown]
      split <;> rfl
    by_cases hown : st.key = some key
    · have hcloses : st.closes s.relay event = true := by
        rw [ControlStream.closes, hstep]
        rfl
      rcases hsafe.room hcloses key hown with hnone | hother
      · rw [hnone] at hget
        cases hget
      · exact hother.putStream none
    · exact (h.room key handle hget).otherStreams hst hown none
  | @obtains event next key' hkeys hnext _ hrooms =>
    by_cases hkey : key = key'
    · exact anyOpen_putStream (hkey ▸ hnext)
    · rw [hrooms, get_getOrCreate hkey] at hget
      exact (h.room key handle hget).stepStream hst (hkeys key)
  | stays hkey _ hrooms =>
    rw [hrooms] at hget
    exact (h.room key handle hget).stepStream hst hkey.trans
  | enters _ _ _ _ hrooms =>
    rw [hrooms] at hget
    exact (h.room key handle hget).stepStream hst id
  | drops _ hrooms =>
    have hget : s.relay.rooms.get key = some handle := by
      rw [← hget, hrooms]
      cases st.currentRoom s.relay <;> rfl
    exact (h.room key handle hget).stepStream hst id

theorem pubkeys_stream (h : (st.registered.map Prod.fst).Nodup)
    (hduty : StreamDuty r st r' event (some st₁)) : (st₁.registered.map Prod.fst).Nodup := by
  have hfilter : ∀ keep : String × Uuid → Bool, ((st.registered.filter keep).map Prod.fst).Nodup :=
    fun keep => h.sublist (List.filter_sublist.map Prod.fst)
  cases hduty with
  | obtains _ _ hregistered _ =>
    rw [hregistered]
    exact h
  | stays _ hregistered _ =>
    rw [hregistered]
    exact h
  | @enters handle version pubkey room room' q _ _ _ _ _ =>
    rw [ControlStream.insert, List.map_append]
    refine List.Nodup.append (hfilter _) (List.nodup_singleton pubkey) ?_
    intro other hmem hsame
    obtain ⟨e, he, rfl⟩ := List.mem_map.mp hmem
    have hne := (List.mem_filter.mp he).2
    exact absurd (List.mem_singleton.mp hsame) (by simpa using hne)
  | drops _ _ => exact hfilter _

end Stream

/-! ## Every step -/

/-- A step that leaves the rooms and who is open alone, and brings no entry. -/
theorem answered_of_owners (h : Answered s) (hconnections : s'.connections = s.connections)
    (hstreams : s'.streams = s.streams) (hrooms : s'.relay.rooms = s.relay.rooms)
    (howners : ∀ key entry, s'.relay.owners.entryFor key = some entry →
      s.relay.owners.entryFor key = some entry) : Answered s' where
  peers := by
    rw [hconnections, hstreams, hrooms]
    exact h.peers
  room := by
    rw [hconnections, hstreams, hrooms]
    exact h.room
  owner := by
    rw [hconnections, hstreams]
    exact fun key entry hentry => h.owner key entry (howners key entry hentry)
  pubkeys := by
    rw [hstreams]
    exact h.pubkeys

theorem answered_connection {event : ConnectionEvent} (h : Answered s) (hplaced : Placed s)
    (hleases : Leases s)
    (hsafe : SafeDeparture cfg s (.connection c event)) (hconn : lookup c s.connections = some conn)
    (hstep : conn.step cfg s.relay event = some (r', stage')) :
    Answered { s with
      relay := r',
      connections := put s.connections c (stage'.map fun stage => { conn with stage }) } := by
  have hduty := duty_step hplaced.owners (hplaced.connections c conn hconn)
      (hleases.agrees c conn hconn) hstep
  have hclosed : stage' = none → conn.MayClose s c event := by
    rintro rfl
    refine hsafe conn hconn ?_
    rw [Connection.closes, hstep]
    rfl
  exact {
    peers := fun handle room' hroom' p hp => peers_connection h hconn hduty hroom' hp
    room := fun key handle hget => room_connection h hplaced.keyed hconn hclosed hduty hget
    owner := fun key entry hentry => owner_connection h hconn hclosed hduty hentry
    pubkeys := h.pubkeys }

theorem answered_stream {event : StreamEvent} (h : Answered s) (hplaced : Placed s)
    (hsafe : SafeDeparture cfg s (.stream n event)) (hst : lookup n s.streams = some st)
    (hstep : st.step s.relay event = some (r', st')) :
    Answered { s with relay := r', streams := put s.streams n st' } := by
  have hduty := streamDuty_step (hplaced.streams n st hst) hstep
  have hmay := hsafe st hst
  refine ⟨fun handle room' hroom' p hp => peers_stream h hst hmay hstep hduty hroom' hp,
    fun key handle hget => room_stream h hst hmay hstep hduty hget, ?_, ?_⟩
  · intro key entry hentry
    have hold : s.relay.owners.entryFor key = some entry := by
      rw [← stream_owners hstep]
      exact hentry
    exact (h.owner key entry hold).otherStreams hst id st'
  · intro n' next hnext
    have hnext : lookup n' (put s.streams n st') = some next := hnext
    rw [lookup_put] at hnext
    split at hnext
    · rw [hnext] at hduty
      exact pubkeys_stream (h.pubkeys n st hst) hduty
    · exact h.pubkeys n' next hnext

/-- **A safe departure leaves somebody who answers for what is left.** -/
theorem answered_step (h : Answered s) (hplaced : Placed s) (hleases : Leases s)
    (hsafe : SafeDeparture cfg s a) (hstep : (pod cfg).step s a = some s') : Answered s' := by
  cases a with
  | connect c communityId channelId pubkey protocolVersion =>
    rw [pod] at hstep
    dsimp only at hstep
    split at hstep
    · cases hstep
    rename_i hfresh
    cases hstep
    -- the number is new
    have hnone : ∀ conn ∈ lookup c s.connections, False := by
      intro conn hconn
      refine hfresh (.inl (Finmap.lookup_isSome.mp ?_))
      rw [Option.mem_def.mp hconn]
      rfl
    have hstays : ∀ {P : Connection → Prop} {Q : ControlStream → Prop} (conn : Connection),
        AnyOpen s.connections s.streams P Q →
        AnyOpen (Finmap.insert c conn s.connections) s.streams P Q :=
      fun conn hopen =>
        (hopen.eraseConnection fun conn hconn => (hnone conn hconn).elim).putConnection (some conn)
    exact ⟨fun handle room hroom p hp => hstays _ (h.peers handle room hroom p hp),
      fun key handle hget => hstays _ (h.room key handle hget),
      fun key entry hentry => hstays _ (h.owner key entry hentry), h.pubkeys⟩
  | connection c event =>
    rw [pod] at hstep
    dsimp only at hstep
    split at hstep
    · rename_i conn hconn
      obtain ⟨⟨r', stage'⟩, hstage, rfl⟩ := Option.map_eq_some_iff.mp hstep
      exact answered_connection h hplaced hleases hsafe hconn hstage
    · cases hstep
  | accept n fenced =>
    rw [pod] at hstep
    dsimp only at hstep
    split at hstep
    · cases hstep
    rename_i hfresh
    cases hstep
    have hnone : ∀ st ∈ lookup n s.streams, False := by
      intro st hst
      refine hfresh (.inl (Finmap.lookup_isSome.mp ?_))
      rw [Option.mem_def.mp hst]
      rfl
    have hstays : ∀ {P : Connection → Prop} {Q : ControlStream → Prop} (st : ControlStream),
        AnyOpen s.connections s.streams P Q →
        AnyOpen s.connections (Finmap.insert n st s.streams) P Q :=
      fun st hopen => (hopen.eraseStream fun st hst => (hnone st hst).elim).putStream (some st)
    refine ⟨fun handle room hroom p hp => hstays _ (h.peers handle room hroom p hp),
      fun key handle hget => hstays _ (h.room key handle hget),
      fun key entry hentry => hstays _ (h.owner key entry hentry), ?_⟩
    intro n' st hst
    dsimp only at hst
    rw [Map.lookup_insert_eq] at hst
    split at hst
    · cases hst
      exact List.nodup_nil
    · exact h.pubkeys n' st hst
  | stream n event =>
    rw [pod] at hstep
    dsimp only at hstep
    split at hstep
    · rename_i st hst
      obtain ⟨⟨r', next⟩, hnext, rfl⟩ := Option.map_eq_some_iff.mp hstep
      exact answered_stream h hplaced hsafe hst hnext
    · cases hstep
  | renewer i event =>
    rw [pod] at hstep
    dsimp only at hstep
    split at hstep
    · rename_i renewer hrenewer
      obtain ⟨⟨redis, renewer'⟩, hrenewer', rfl⟩ := Option.map_eq_some_iff.mp hstep
      exact answered_of_owners h rfl rfl rfl fun key entry hentry =>
        entryFor_set hrenewer hrenewer' hentry
    · cases hstep
  | drain sessionId generation =>
    cases hstep
    refine answered_of_owners h rfl rfl rfl fun key entry hentry => ?_
    have hentry : (s.relay.owners.drain sessionId generation).entryFor key = some entry := hentry
    rw [HuddleOwnerRegistry.drain] at hentry
    exact (entryFor_removeIf (by exact fun _ => rfl) hentry).1
  | startDrain =>
    cases hstep
    exact answered_of_owners h rfl rfl rfl fun key entry hentry => hentry
  | world call =>
    obtain ⟨next, _, rfl⟩ := Option.map_eq_some_iff.mp hstep
    exact answered_of_owners h rfl rfl rfl fun key entry hentry => hentry

/-- A pod of a mesh. -/
def meshPod : Config := ⟨.ofNat 32 3, ⟨30000⟩, true⟩

/-- A client acquires the huddle and gets its signals. -/
def ownsHuddle (c : Nat) (pubkey : String) (peerId : Uuid) : List Event :=
  [.connect c sampleKey.1 sampleKey.2 pubkey 2, .connection c (.resolve 0),
    .connection c (.resolve 0),
    .connection c .getOrCreate, .connection c (.addPeer peerId 0), .connection c .attach,
      .connection c .attach]

/-- The owner leaves after the stream of another pod, whose client was in the room; it ends the
huddle and releases the lease. -/
def ownerLast : List Event :=
  ownsHuddle 1 "a" (.ofNat 16 11) ++
    [.accept 1 ⟨sampleKey.2, 1, meshPod.localRuntimeId⟩, .stream 1 (.register sampleKey.1 "b" 2),
      .stream 1 (.fence (.ofNat 16 12)), .stream 1 .close] ++
    [.connection 1 (.leave true), .connection 1 (.leave true), .connection 1 (.leave true),
      .connection 1 (.leave true)]

/-- The owner leaves while a client of another pod is still in the room, and then that pod's stream
closes. -/
def streamLast : List Event :=
  ownsHuddle 1 "a" (.ofNat 16 11) ++
    [.accept 1 ⟨sampleKey.2, 1, meshPod.localRuntimeId⟩, .stream 1 (.register sampleKey.1 "b" 2),
      .stream 1 (.fence (.ofNat 16 12)), .connection 1 (.leave true),
        .connection 1 (.leave true), .stream 1 .close]

end Pkzz.Audio
