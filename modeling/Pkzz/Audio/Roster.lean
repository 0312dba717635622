import Pkzz.Audio.Room
import Pkzz.Lib.Machine

/-!
# The roster of a huddle on another pod

The owner of a huddle publishes each change of its roster on a bounded broadcast channel. Its
control loop forwards the deltas to a non-owner, or a snapshot where the channel has lost some, and
the non-owner's `read_owner_control` forwards them to its client, which keeps a map from indices to
keys.

Deltas come from the channel and snapshots from the room itself, so a snapshot may be ahead of
deltas that are still to come. What reaches the non-owner never leaves a gap behind it.
-/

namespace Pkzz.Audio

open Pkzz.Core Pkzz.Lib

/-! ## Rosters as the client keeps them -/

/-- The map a client makes of a list of peers. -/
def rosterMap (peers : List RosterPeer) : Map Nat String :=
  peers.foldl (fun m p => Finmap.insert p.peerIndex p.pubkey m) ∅

/-- What a delta does to the map; a join goes before a leave. -/
def RosterDelta.apply (m : Map Nat String) (d : RosterDelta) : Map Nat String :=
  match d.joined, d.left with
  | some p, _ => Finmap.insert p.peerIndex p.pubkey m
  | none, some p => Finmap.erase p.peerIndex m
  | none, none => m

/-- The roster after the deltas of a log. -/
def replay (log : List RosterDelta) : Map Nat String := log.foldl RosterDelta.apply ∅

/-- The owner's roster at a revision. -/
def Room.rosterAt (room : Room) (revision : Nat) : Map Nat String :=
  replay (room.published.take revision)

theorem lookup_foldl_insert {peers : List RosterPeer} {m : Map Nat String} {i : Nat} {pk : String}
    (hnodup : (peers.map RosterPeer.peerIndex).Nodup) :
    Finmap.lookup i (peers.foldl (fun m p => Finmap.insert p.peerIndex p.pubkey m) m) = some pk ↔
      ⟨pk, i⟩ ∈ peers ∨ (Finmap.lookup i m = some pk ∧ i ∉ peers.map RosterPeer.peerIndex) := by
  induction peers generalizing m with
  | nil => simp
  | cons p peers ih =>
    rw [List.map_cons, List.nodup_cons] at hnodup
    rw [List.foldl_cons, ih hnodup.2, Map.lookup_insert_eq]
    by_cases hi : i = p.peerIndex
    · subst hi
      rw [if_pos rfl]
      have hnot : (⟨pk, p.peerIndex⟩ : RosterPeer) ∉ peers :=
        fun hmem => hnodup.1 (List.mem_map.mpr ⟨_, hmem, rfl⟩)
      constructor
      · rintro (hmem | ⟨heq, _⟩)
        · exact absurd hmem hnot
        · cases heq
          exact .inl List.mem_cons_self
      · rintro (hmem | ⟨_, hnot'⟩)
        · rcases List.mem_cons.mp hmem with heq | hmem
          · exact .inr ⟨congrArg (fun p => some p.pubkey) heq.symm, hnodup.1⟩
          · exact absurd hmem hnot
        · exact absurd (List.mem_map.mpr ⟨p, List.mem_cons_self, rfl⟩) hnot'
    · rw [if_neg hi]
      have hne : (⟨pk, i⟩ : RosterPeer) ≠ p := fun heq => hi (congrArg RosterPeer.peerIndex heq)
      rw [List.mem_cons, List.map_cons, List.mem_cons]
      simp only [hne, hi, false_or]

/-- An index stands for the peer that has it. -/
theorem lookup_rosterMap {peers : List RosterPeer} {i : Nat} {pk : String}
    (hnodup : (peers.map RosterPeer.peerIndex).Nodup) :
    Finmap.lookup i (rosterMap peers) = some pk ↔ ⟨pk, i⟩ ∈ peers := by
  rw [rosterMap, lookup_foldl_insert hnodup]
  simp

/-- The order of the peers does not matter. -/
theorem rosterMap_perm {peers peers' : List RosterPeer} (h : peers.Perm peers')
    (hnodup : (peers.map RosterPeer.peerIndex).Nodup) : rosterMap peers = rosterMap peers' := by
  refine Finmap.ext_lookup fun i => Option.ext fun pk => ?_
  rw [lookup_rosterMap hnodup, lookup_rosterMap ((h.map _).nodup_iff.mp hnodup), h.mem_iff]

theorem rosterMap_concat (peers : List RosterPeer) (p : RosterPeer) :
    rosterMap (peers ++ [p]) = Finmap.insert p.peerIndex p.pubkey (rosterMap peers) := by
  rw [rosterMap, List.foldl_append]
  rfl

/-! ## The allocator -/

/-- The indices in use are apart from the free ones, and the fresh one is above all, while there is
one. -/
structure Indexed (g : AdmissionGuard) (used : List Nat) : Prop where
  nodup : used.Nodup
  free : g.free.Nodup
  apart : ∀ idx ∈ used, idx ∉ g.free
  fresh : g.nextFresh ≠ 255 → (∀ idx ∈ used, idx < g.nextFresh) ∧ ∀ idx ∈ g.free, idx < g.nextFresh

variable {g g' : AdmissionGuard} {used : List Nat} {idx : Nat}

theorem nodup_concat {l : List Nat} (h : l.Nodup) (hidx : idx ∉ l) : (l ++ [idx]).Nodup :=
  h.append (List.nodup_singleton _) (List.disjoint_singleton.mpr hidx)

/-- An allocated index was not in use. -/
theorem indexed_alloc (h : Indexed g used) (halloc : g.alloc = some (idx, g')) :
    idx ∉ used ∧ Indexed g' (used ++ [idx]) ∧ g'.rosterRevision = g.rosterRevision := by
  rw [AdmissionGuard.alloc] at halloc
  split at halloc
  · rename_i free hfree
    cases halloc
    have hnodup := h.free
    have hfresh := h.fresh
    rw [hfree, List.nodup_cons] at hnodup
    rw [hfree] at hfresh
    have hidx : idx ∉ used := fun hmem => h.apart idx hmem (by rw [hfree]; exact List.mem_cons_self)
    refine ⟨hidx, ⟨nodup_concat h.nodup hidx, hnodup.2, ?_, ?_⟩, rfl⟩
    · intro i hi hmem
      rcases List.mem_append.mp hi with hi | hi
      · exact h.apart i hi (by rw [hfree]; exact List.mem_cons_of_mem _ hmem)
      · rw [List.mem_singleton.mp hi] at hmem
        exact hnodup.1 hmem
    · intro hne
      refine ⟨?_, ?_⟩
      · intro i hi
        rcases List.mem_append.mp hi with hi | hi
        · exact (hfresh hne).1 i hi
        · rw [List.mem_singleton.mp hi]
          exact (hfresh hne).2 _ List.mem_cons_self
      · intro i hi
        exact (hfresh hne).2 i (List.mem_cons_of_mem _ hi)
  · rename_i hfree
    split at halloc
    · cases halloc
    rename_i hne
    cases halloc
    have hidx : g.nextFresh ∉ used := fun hmem => absurd ((h.fresh hne).1 _ hmem) (lt_irrefl _)
    refine ⟨hidx, ⟨nodup_concat h.nodup hidx, h.free, ?_, ?_⟩, rfl⟩
    · intro i _ hmem
      rw [hfree] at hmem
      cases hmem
    · intro _
      refine ⟨?_, ?_⟩
      · intro i hi
        rcases List.mem_append.mp hi with hi | hi
        · exact lt_trans ((h.fresh hne).1 i hi) (Nat.lt_succ_self _)
        · rw [List.mem_singleton.mp hi]
          exact Nat.lt_succ_self _
      · intro i hi
        rw [hfree] at hi
        cases hi

/-- An index of somebody else is taken out of the allocator. -/
theorem indexed_occupy (h : Indexed g used) (hidx : idx ∉ used) :
    Indexed (Room.occupy g idx) (used ++ [idx]) := by
  refine ⟨nodup_concat h.nodup hidx, h.free.filter _, ?_, ?_⟩
  · intro i hi hmem
    obtain ⟨hfree, hne⟩ := List.mem_filter.mp hmem
    rcases List.mem_append.mp hi with hi | hi
    · exact h.apart i hi hfree
    · simp [List.mem_singleton.mp hi] at hne
  · intro hne
    -- below the new fresh index: what was below the old one, and the index itself
    have hbound : (g.nextFresh ≠ 255 → g.nextFresh ≤ (Room.occupy g idx).nextFresh) ∧
        idx < (Room.occupy g idx).nextFresh ∧ g.nextFresh ≠ 255 := by
      rw [Room.occupy] at hne ⊢
      dsimp only at hne ⊢
      split at hne <;> split <;> omega
    obtain ⟨hle, hlt, hold⟩ := hbound
    have hle := hle hold
    refine ⟨?_, ?_⟩
    · intro i hi
      rcases List.mem_append.mp hi with hi | hi
      · exact lt_of_lt_of_le ((h.fresh hold).1 i hi) hle
      · rw [List.mem_singleton.mp hi]
        exact hlt
    · intro i hi
      exact lt_of_lt_of_le ((h.fresh hold).2 i (List.mem_filter.mp hi).1) hle

/-- A released index is free. -/
theorem indexed_release (h : Indexed g used) (hidx : idx ∈ used) :
    Indexed (g.release idx) (used.filter fun i => i ≠ idx) := by
  refine ⟨h.nodup.filter _, List.nodup_cons.mpr ⟨h.apart idx hidx, h.free⟩, ?_, ?_⟩
  · intro i hi hmem
    obtain ⟨hused, hne⟩ := List.mem_filter.mp hi
    rcases List.mem_cons.mp hmem with rfl | hfree
    · simp at hne
    · exact h.apart i hused hfree
  · intro hne
    refine ⟨?_, ?_⟩
    · intro i hi
      exact (h.fresh hne).1 i (List.mem_filter.mp hi).1
    · intro i hi
      rcases List.mem_cons.mp hi with rfl | hfree
      · exact (h.fresh hne).1 _ hidx
      · exact (h.fresh hne).2 i hfree

/-! ## A room and its log -/

/-- **The log of a room tells its roster.** -/
structure Room.Logged (room : Room) : Prop where
  ids : (room.peers.map AudioPeer.id).Nodup
  indexed : Indexed room.guard (room.peers.map AudioPeer.peerIndex)
  revision : room.guard.rosterRevision = room.published.length % 2 ^ 64
  numbered : ∀ i d, room.published[i]? = some d → d.revision = (i + 1) % 2 ^ 64
  roster : rosterMap (room.peers.map AudioPeer.entry) = replay room.published

variable {room room' : Room} {peerId : Uuid} {pubkey : String} {requestedVersion peerIndex : Nat}
    {p : AudioPeer}

theorem logged_new (communityId : CommunityId) (channelId : Uuid) :
    (Room.new communityId channelId).Logged := by
  refine ⟨List.nodup_nil, ⟨List.nodup_nil, List.nodup_nil, ?_, ?_⟩, rfl, ?_, rfl⟩
  · intro idx hidx
    cases hidx
  · intro _
    refine ⟨?_, ?_⟩
    · intro idx hidx
      cases hidx
    · intro idx hidx
      cases hidx
  · intro i d h
    cases h

theorem map_entry_peerIndex (peers : List AudioPeer) :
    (peers.map AudioPeer.entry).map RosterPeer.peerIndex = peers.map AudioPeer.peerIndex := by
  rw [List.map_map]
  rfl

/-- A published delta has the next number. -/
theorem numbered_concat {log : List RosterDelta}
    (h : ∀ i d, log[i]? = some d → d.revision = (i + 1) % 2 ^ 64) {d : RosterDelta}
    (hd : d.revision = (log.length + 1) % 2 ^ 64) :
    ∀ i e, (log ++ [d])[i]? = some e → e.revision = (i + 1) % 2 ^ 64 := by
  intro i e he
  rw [List.getElem?_append] at he
  split at he
  · exact h i e he
  rename_i hge
  obtain ⟨hlt, rfl⟩ := List.getElem?_eq_some_iff.mp he
  rw [List.length_singleton] at hlt
  have hi : i = log.length := by omega
  simp [hd, hi]

theorem logged_insertPeer (h : room.Logged) (hrev : g.rosterRevision = room.guard.rosterRevision)
    (hindexed : Indexed g (room.peers.map AudioPeer.peerIndex ++ [p.peerIndex]))
    (hid : p.id ∉ room.peers.map AudioPeer.id) :
    (Room.insertPeer { room with guard := g } p).Logged := by
  refine ⟨?_, ?_, ?_, ?_, ?_⟩
  · show ((room.peers ++ [p]).map AudioPeer.id).Nodup
    rw [List.map_append, List.map_singleton]
    exact h.ids.append (List.nodup_singleton _) (List.disjoint_singleton.mpr hid)
  · have hmap : (room.peers ++ [p]).map AudioPeer.peerIndex = room.peers.map AudioPeer.peerIndex ++
        [p.peerIndex] := by
      rw [List.map_append, List.map_singleton]
    show Indexed _ ((room.peers ++ [p]).map AudioPeer.peerIndex)
    rw [hmap]
    exact ⟨hindexed.nodup, hindexed.free, hindexed.apart, hindexed.fresh⟩
  · show (g.rosterRevision + 1) % 2 ^ 64 = (room.published ++ [_]).length % 2 ^ 64
    rw [hrev, h.revision, List.length_append, List.length_singleton, Nat.mod_add_mod]
  · exact numbered_concat h.numbered (by rw [hrev, h.revision, Nat.mod_add_mod])
  · show rosterMap ((room.peers ++ [p]).map AudioPeer.entry) = replay (room.published ++ [_])
    rw [List.map_append, List.map_singleton, rosterMap_concat, h.roster, replay, replay,
      List.foldl_append]
    rfl

theorem eq_of_id (h : room.Logged) {q : AudioPeer} (hp : p ∈ room.peers) (hq : q ∈ room.peers)
    (heq : p.id = q.id) : p = q :=
  List.inj_on_of_nodup_map h.ids hp hq heq

theorem eq_of_peerIndex (h : room.Logged) {q : AudioPeer} (hp : p ∈ room.peers)
    (hq : q ∈ room.peers) (heq : p.peerIndex = q.peerIndex) : p = q :=
  List.inj_on_of_nodup_map h.indexed.nodup hp hq heq

theorem logged_dropPeer (h : room.Logged) (hp : p ∈ room.peers) : (room.dropPeer p).Logged := by
  -- a peer has another id exactly when it has another index
  have hsame : ∀ q ∈ room.peers, (q.id ≠ p.id ↔ q.peerIndex ≠ p.peerIndex) := by
    intro q hq
    rw [not_iff_not]
    constructor
    · intro heq
      rw [eq_of_id h hq hp heq]
    · intro heq
      rw [eq_of_peerIndex h hq hp heq]
  have hmap : (room.peers.filter fun q => q.id ≠ p.id).map AudioPeer.peerIndex =
      (room.peers.map AudioPeer.peerIndex).filter fun i => i ≠ p.peerIndex := by
    rw [List.filter_map, Function.comp_def]
    refine congrArg (List.map AudioPeer.peerIndex) (List.filter_congr ?_)
    intro q hq
    rw [decide_eq_decide]
    exact hsame q hq
  have hentries : (room.peers.map AudioPeer.entry).map RosterPeer.peerIndex |>.Nodup := by
    rw [map_entry_peerIndex]
    exact h.indexed.nodup
  have hnext : (room.guard.rosterRevision + 1) % 2 ^ 64 = (room.published.length + 1) % 2 ^ 64 := by
    rw [h.revision, Nat.mod_add_mod]
  refine ⟨?_, ?_, ?_, ?_, ?_⟩
  · exact List.Sublist.nodup (List.Sublist.map AudioPeer.id List.filter_sublist) h.ids
  · show Indexed _ ((room.peers.filter fun q => q.id ≠ p.id).map AudioPeer.peerIndex)
    rw [hmap]
    have hreleased := indexed_release h.indexed (List.mem_map.mpr ⟨p, hp, rfl⟩)
    exact ⟨hreleased.nodup, hreleased.free, hreleased.apart, hreleased.fresh⟩
  · show (room.guard.rosterRevision + 1) % 2 ^ 64 = (room.published ++ [_]).length % 2 ^ 64
    rw [hnext, List.length_append, List.length_singleton]
  · exact numbered_concat h.numbered hnext
  · show rosterMap ((room.peers.filter fun q => q.id ≠ p.id).map AudioPeer.entry) =
      replay (room.published ++ [_])
    rw [replay, List.foldl_append, ← replay, ← h.roster]
    refine Finmap.ext_lookup fun i => Option.ext fun pk => ?_
    show _ ↔ Finmap.lookup i
      (Finmap.erase p.peerIndex (rosterMap (room.peers.map AudioPeer.entry))) = some pk
    rw [lookup_rosterMap (by rw [map_entry_peerIndex, hmap]; exact h.indexed.nodup.filter _),
      Map.lookup_erase_eq]
    constructor
    · intro hmem
      obtain ⟨q, hq, heq⟩ := List.mem_map.mp hmem
      obtain ⟨hq, hne⟩ := List.mem_filter.mp hq
      have hidx : q.peerIndex = i := congrArg RosterPeer.peerIndex heq
      have hne : q.peerIndex ≠ p.peerIndex := (hsame q hq).mp (by simpa using hne)
      rw [if_neg (hidx ▸ hne), lookup_rosterMap hentries]
      exact List.mem_map.mpr ⟨q, hq, heq⟩
    · intro hlookup
      split at hlookup
      · cases hlookup
      rename_i hne
      rw [lookup_rosterMap hentries] at hlookup
      obtain ⟨q, hq, heq⟩ := List.mem_map.mp hlookup
      have hidx : q.peerIndex = i := congrArg RosterPeer.peerIndex heq
      refine List.mem_map.mpr ⟨q, List.mem_filter.mpr ⟨hq, ?_⟩, heq⟩
      rw [decide_eq_true_eq, hsame q hq, hidx]
      exact hne

/-- A room that is ended or not has the same log. -/
theorem logged_ended (h : room.Logged) (ended : Bool) :
    ({ room with guard := { room.guard with ended } } : Room).Logged :=
  ⟨h.ids, ⟨h.indexed.nodup, h.indexed.free, h.indexed.apart, h.indexed.fresh⟩, h.revision,
    h.numbered, h.roster⟩

/-! ### The methods of a room -/

inductive RoomCall where
  | join (peerId : Uuid) (pubkey : String) (requestedVersion : Nat)
  | joinAt (peerId : Uuid) (pubkey : String) (requestedVersion peerIndex : Nat)
  | leave (peerId : Uuid)
  | leaveAndCheck (peerId : Uuid)
  | clearEnded

/-- A call on the room. The id that `Uuid::new_v4` gives is new. -/
def RoomCall.apply (room : Room) : RoomCall → Option Room
  | join peerId pubkey requestedVersion =>
    if peerId ∈ room.peers.map AudioPeer.id then none
    else
      match room.addPeer peerId pubkey requestedVersion with
      | .ok (room', _) => some room'
      | .error _ => some room
  | joinAt peerId pubkey requestedVersion peerIndex =>
    if peerId ∈ room.peers.map AudioPeer.id then none
    else
      match room.addPeerAtIndex peerId pubkey requestedVersion peerIndex with
      | .ok room' => some room'
      | .error _ => some room
  | leave peerId => some (room.removePeer peerId)
  | leaveAndCheck peerId => some (room.removePeerAndCheckEnded peerId).1
  | clearEnded => some room.clearEnded

/-- The room goes on: its log still tells its roster, and it has grown by one delta at most. -/
structure Grows (room room' : Room) : Prop where
  logged : room'.Logged
  log : room.published <+: room'.published
  next : room'.published.length ≤ room.published.length + 1

theorem grows_refl (h : room.Logged) : Grows room room := ⟨h, List.prefix_rfl, Nat.le_succ _⟩

theorem grows_addPeer (h : room.Logged) (hid : peerId ∉ room.peers.map AudioPeer.id)
    (hok : room.addPeer peerId pubkey requestedVersion = .ok (room', peerIndex)) :
    Grows room room' := by
  obtain ⟨_, guard, halloc, rfl⟩ := Room.addPeer_ok hok
  obtain ⟨_, hindexed, hrev⟩ := indexed_alloc h.indexed halloc
  refine ⟨logged_insertPeer h hrev ?_ hid, List.prefix_append _ _, le_of_eq List.length_append⟩
  exact ⟨hindexed.nodup, hindexed.free, hindexed.apart, hindexed.fresh⟩

theorem grows_addPeerAtIndex (h : room.Logged) (hid : peerId ∉ room.peers.map AudioPeer.id)
    (hok : room.addPeerAtIndex peerId pubkey requestedVersion peerIndex = .ok room') :
    Grows room room' := by
  obtain ⟨_, hfree, rfl⟩ := Room.addPeerAtIndex_ok hok
  have hidx : peerIndex ∉ room.peers.map AudioPeer.peerIndex := by
    intro hmem
    obtain ⟨p, hp, heq⟩ := List.mem_map.mp hmem
    exact hfree p hp heq
  have hpinned : Indexed (room.guard.pin requestedVersion) (room.peers.map AudioPeer.peerIndex) :=
    ⟨h.indexed.nodup, h.indexed.free, h.indexed.apart, h.indexed.fresh⟩
  exact ⟨logged_insertPeer h rfl (indexed_occupy hpinned hidx) hid, List.prefix_append _ _,
    le_of_eq List.length_append⟩

theorem grows_removePeer (h : room.Logged) (peerId : Uuid) :
    Grows room (room.removePeer peerId) := by
  rcases Room.removePeer_cases room peerId with ⟨hsame, _⟩ | ⟨p, hp, _, hdrop⟩
  · rw [hsame]
    exact grows_refl h
  · rw [hdrop]
    exact ⟨logged_dropPeer h hp, List.prefix_append _ _, le_of_eq List.length_append⟩

/-- **Every call keeps the log.** -/
theorem grows_apply {call : RoomCall} (h : room.Logged) (hcall : call.apply room = some room') :
    Grows room room' := by
  cases call with
  | join peerId pubkey requestedVersion =>
    rw [RoomCall.apply] at hcall
    split at hcall
    · cases hcall
    rename_i hid
    split at hcall
    · rename_i hok
      cases hcall
      exact grows_addPeer h hid hok
    · cases hcall
      exact grows_refl h
  | joinAt peerId pubkey requestedVersion peerIndex =>
    rw [RoomCall.apply] at hcall
    split at hcall
    · cases hcall
    rename_i hid
    split at hcall
    · rename_i hok
      cases hcall
      exact grows_addPeerAtIndex h hid hok
    · cases hcall
      exact grows_refl h
  | leave peerId =>
    cases hcall
    exact grows_removePeer h peerId
  | leaveAndCheck peerId =>
    cases hcall
    obtain ⟨ended, heq⟩ := Room.removePeerAndCheckEnded_fst room peerId
    obtain ⟨hlogged, hlog, hnext⟩ := grows_removePeer h peerId
    rw [heq]
    exact ⟨logged_ended hlogged ended, hlog, hnext⟩
  | clearEnded =>
    cases hcall
    exact ⟨logged_ended h false, List.prefix_rfl, Nat.le_succ _⟩

/-- The roster of a revision that was reached stays what it was. -/
theorem rosterAt_of_prefix {revision : Nat} (h : room.published <+: room'.published)
    (hle : revision ≤ room.published.length) :
    room'.rosterAt revision = room.rosterAt revision := by
  obtain ⟨more, hmore⟩ := h
  rw [Room.rosterAt, Room.rosterAt, ← hmore, List.take_append_of_le_length hle]

/-- A snapshot is the roster of its revision. -/
theorem rosterMap_snapshot (h : room.Logged) (hlen : room.published.length < 2 ^ 64) :
    room.rosterSnapshot.revision = room.published.length ∧
      rosterMap room.rosterSnapshot.peers = room.rosterAt room.published.length := by
  refine ⟨h.revision.trans (Nat.mod_eq_of_lt hlen), ?_⟩
  have hperm := List.perm_insertionSort (fun a b : RosterPeer =>
    a.peerIndex ≤ b.peerIndex) (room.peers.map AudioPeer.entry)
  rw [Room.rosterAt, List.take_length, ← h.roster]
  refine rosterMap_perm hperm ((hperm.map _).nodup_iff.mpr ?_)
  rw [map_entry_peerIndex]
  exact h.indexed.nodup

end Pkzz.Audio
