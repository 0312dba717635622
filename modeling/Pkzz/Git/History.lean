import Pkzz.Git.Publish
import Pkzz.Lib.VersionChain

/-!
# The published history is a chain

Pushes on one repository are ordered by nothing but the conditional write of its pointer.
What makes that enough is that a push predicates its write on the very pointer it was
derived from, and that it names that pointer in its manifest: `ParentKnown` carries the
pair from the read to the write, and a write that is applied therefore extends the chain
of manifests at its end (`linked_step`).

That the pointer never comes back to an earlier value is not a fact about one write. The
entity tag of a pointer depends on its body alone, so a pointer that came back would carry
a tag some push may still hold. It cannot come back because each manifest embeds the
digest of the one before it.
-/

namespace Pkzz.Git

open Pkzz.Core Pkzz.Lib

variable {P : Type} [DecidableEq P] {B : Backend} {G : GitObjects} {hydration : HydrationOptions}
  {options : PublishOptions}

/-! ## Digests and keys -/

/-- The pointer body that names a manifest. -/
def Backend.digest (B : Backend) (m : Manifest) : String := B.digestHex m.canonicalBytes

theorem digestHex_length (b : List UInt8) : (B.digestHex b).toList.length = 64 :=
  FixedBytes.length_toHex _

/-- A content key ends with the digest. -/
theorem sha256_eq_of_contentKey_eq {b c : List UInt8} {kind kind' : String}
    (h : B.contentKey kind b = B.contentKey kind' c) : B.sha256 b = B.sha256 c := by
  have hl := congrArg String.toList h
  unfold Backend.contentKey at hl
  rw [String.toList_append, @String.toList_append (kind' ++ "/")] at hl
  have hlen : (B.digestHex b).toList.length = (B.digestHex c).toList.length := by
    rw [digestHex_length, digestHex_length]
  have hhex := (List.append_inj' hl hlen).2
  exact FixedBytes.toHex_inj (String.toList_inj.mp hhex)

theorem isPackKey_contentKey (bytes : List UInt8) :
    isPackKey (B.contentKey "packs" bytes) = true := by
  have hstrip : Str.stripPrefix (B.contentKey "packs" bytes) "packs/" =
      some (B.digestHex bytes) := by
    unfold Str.stripPrefix Backend.contentKey
    rw [String.toList_append]
    have hdrop : ("packs".toList ++ "/".toList ++
        (B.digestHex bytes).toList).dropPrefix? "packs/".toList
        = some (B.digestHex bytes).toList := by
      rw [List.dropPrefix?_eq_some_iff]
      exact ⟨"packs/".toList, rfl, by decide⟩
    rw [String.toList_append, hdrop, Option.map_some, String.ofList_toList]
  unfold isPackKey
  rw [hstrip]
  exact isManifestDigest_toHex _

theorem contentKey_eq_of_digestHex_eq {b c : List UInt8} (kind : String)
    (h : B.digestHex b = B.digestHex c) : B.contentKey kind b = B.contentKey kind c := by
  unfold Backend.contentKey
  rw [h]

/-! ## One write -/

theorem getPointer_eq_some {pointer : Option String} {etag body : String}
    (h : B.getPointer pointer = some (etag, body)) : pointer = some body ∧ etag = B.etag body := by
  unfold Backend.getPointer at h
  cases pointer with
  | none => cases h
  | some b =>
    cases h
    exact ⟨rfl, rfl⟩

/-- What a conditional write that succeeded says about the pointer before and after it. -/
theorem putPointer_won {pointer pointer' : Option String} {body etag : String} {ps : ParentState}
    (h : B.putPointer pointer body ps.precond = (.won etag, pointer')) :
    pointer' = some body
      ∧ ((ps.ifMatch = none ∧ pointer = none)
        ∨ ∃ current, pointer = some current ∧ ps.ifMatch = some (B.etag current)) := by
  unfold Backend.putPointer ParentState.precond at h
  cases hm : ps.ifMatch with
  | none =>
    rw [hm] at h
    cases pointer with
    | none =>
      simp only [Option.isNone_none, if_pos] at h
      exact ⟨(Prod.mk.inj h).2.symm, .inl ⟨rfl, rfl⟩⟩
    | some current => simp at h
  | some tag =>
    rw [hm] at h
    cases pointer with
    | none => simp at h
    | some current =>
      by_cases htag : B.etag current = tag
      · simp only [Option.map_some, htag, decide_true, if_pos] at h
        exact ⟨(Prod.mk.inj h).2.symm, .inr ⟨current, rfl, by rw [htag]⟩⟩
      · simp [htag] at h

/-! ## What a push holds -/

/-- What a push predicates its write on: that there is no pointer, or the tag of a manifest
that was published, whose digest it will name. -/
def ParentKnown (B : Backend) (published : List Manifest) (ps : ParentState) : Prop :=
  (ps.ifMatch = none ∧ ps.parentDigest = none)
    ∨ ∃ m ∈ published, ps.ifMatch = some (B.etag (B.digest m))
        ∧ ps.parentDigest = some (B.digest m)

/-- A manifest that has been uploaded. -/
structure Stored (puts : List (String × List UInt8)) (m : Manifest) : Prop where
  /-- Its canonical bytes were put. -/
  put : ("manifests", m.canonicalBytes) ∈ puts
  /-- It passed the checks before that. -/
  valid : m.Valid
  /-- Its packs are sorted, so that a reader gets this very manifest back. -/
  sorted : m.normalize = m

def PhaseInv (B : Backend) (published : List Manifest) (puts : List (String × List UInt8)) :
    Phase → Prop
  | .idle | .failed => True
  | .pointerRead etag body => ∃ m ∈ published, body = B.digest m ∧ etag = B.etag body
  | .hydrated ps _ => ParentKnown B published ps
  | .received push | .compacting push _ _ | .capturing push _ =>
    ParentKnown B published push.parentState
  | .composed ps m => ParentKnown B published ps ∧ m.parent = ps.parentDigest ∧ m.normalize = m
  | .staged ps m digest =>
    ParentKnown B published ps ∧ m.parent = ps.parentDigest ∧ digest = B.digest m
      ∧ Stored puts m
  | .succeeded m => m ∈ published

/-- The history invariants. -/
structure HistoryInv (B : Backend) (w : World P) : Prop where
  /-- The pointer names the newest published manifest. -/
  pointer : w.pointer = w.published.head?.map B.digest
  /-- Published manifests are uploaded. -/
  stored : ∀ m ∈ w.published, Stored w.puts m
  /-- Every push is where it should be. -/
  phases : ∀ p, PhaseInv B w.published w.puts (w.pushes p)
  /-- Objects lie under the keys of their contents. -/
  addressed : w.objects.Addressed B.contentKey w.puts

theorem ParentKnown.mono {published more : List Manifest} {ps : ParentState}
    (h : ParentKnown B published ps) (hsub : ∀ m ∈ published, m ∈ more) :
    ParentKnown B more ps := by
  rcases h with h | ⟨m, hm, h⟩
  · exact .inl h
  · exact .inr ⟨m, hsub m hm, h⟩

theorem Stored.mono {puts more : List (String × List UInt8)} {m : Manifest} (h : Stored puts m)
    (hsub : ∀ x ∈ puts, x ∈ more) : Stored more m :=
  ⟨hsub _ h.put, h.valid, h.sorted⟩

theorem PhaseInv.mono {published published' : List Manifest}
    {puts puts' : List (String × List UInt8)}
    {ph : Phase} (h : PhaseInv B published puts ph) (hpub : ∀ m ∈ published, m ∈ published')
    (hputs : ∀ x ∈ puts, x ∈ puts') : PhaseInv B published' puts' ph := by
  cases ph with
  | idle => trivial
  | failed => trivial
  | pointerRead etag body =>
    obtain ⟨m, hm, h⟩ := h
    exact ⟨m, hpub m hm, h⟩
  | hydrated ps n | received push | compacting push todo keys | capturing push failure =>
    exact ParentKnown.mono h hpub
  | composed ps m => exact ⟨h.1.mono hpub, h.2⟩
  | staged ps m digest =>
    obtain ⟨hps, hpar, hdig, hst⟩ := h
    exact ⟨hps.mono hpub, hpar, hdig, hst.mono hputs⟩
  | succeeded m => exact hpub m h

/-! ## Preservation -/

theorem setPhase_pushes (w : World P) (p q : P) (ph : Phase) :
    (w.setPhase p ph).pushes q = if q = p then ph else w.pushes q := by
  unfold World.setPhase
  exact Function.update_apply w.pushes p ph q

theorem setPhase_pushes_self (w : World P) (p : P) (ph : Phase) :
    (w.setPhase p ph).pushes p = ph := by
  rw [setPhase_pushes, if_pos rfl]

variable {w : World P}

/-- A property of every push's phase survives a change of one phase. -/
theorem forall_setPhase {I : Phase → Prop} {p : P} {ph : Phase}
    (h : ∀ q, I (w.pushes q)) (hph : I ph) : ∀ q, I ((w.setPhase p ph).pushes q) := by
  intro q
  rw [setPhase_pushes]
  by_cases hq : q = p
  · rw [if_pos hq]
    exact hph
  · rw [if_neg hq]
    exact h q

omit [DecidableEq P] in
theorem HistoryInv.phase (h : HistoryInv B w) {p : P} {ph : Phase}
    (hp : w.pushes p = ph) : PhaseInv B w.published w.puts ph := by
  rw [← hp]
  exact h.phases p

theorem HistoryInv.setPhase (h : HistoryInv B w) {p : P} {ph : Phase}
    (hph : PhaseInv B w.published w.puts ph) : HistoryInv B (w.setPhase p ph) where
  pointer := h.pointer
  stored := h.stored
  phases := forall_setPhase h.phases hph
  addressed := h.addressed

omit [DecidableEq P] in
theorem HistoryInv.putImmutable (h : HistoryInv B w) (kind : String)
    (bytes : List UInt8) : HistoryInv B (w.putImmutable B kind bytes) where
  pointer := h.pointer
  stored := fun m hm => (h.stored m hm).mono fun _ hx => List.mem_cons_of_mem _ hx
  phases := fun p => (h.phases p).mono (fun _ hm => hm) fun _ hx => List.mem_cons_of_mem _ hx
  addressed := h.addressed.putNew kind bytes

theorem composeAfter_normalize (parent : Manifest) (digest : Option String) (head : String)
    (refs : SortedMap String) (key : Option String) :
    (composeAfter parent digest head refs key).normalize =
    composeAfter parent digest head refs key :=
  Manifest.normalize_of_pairwise (sortDedup_sortDedup _)

theorem composeCompactedAfter_normalize (digest : Option String) (head : String)
    (refs : SortedMap String) (keys : List String) :
    (composeCompactedAfter digest head refs keys).normalize
      = composeCompactedAfter digest head refs keys :=
  Manifest.normalize_of_pairwise (sortDedup_sortDedup _)

/-- What `load_pointer` hands back is what the pointer names. -/
theorem loadManifest_ok {objects : Objects} {body digest : String} {m : Manifest}
    (h : B.loadManifest objects body = .ok (digest, m)) :
    digest = Str.trim body ∧ m.Valid
      ∧ ∃ bytes, Finmap.lookup ("manifests/" ++ digest) objects = some bytes
          ∧ B.digestHex bytes = digest ∧ B.fromSlice bytes = some m := by
  unfold Backend.loadManifest at h
  simp only at h
  split at h
  · cases h
  split at h
  · cases h
  rename_i bytes hget
  split at h
  · cases h
  rename_i m' hbytes
  split at h
  · cases h
  rename_i hvalid
  cases h
  refine ⟨rfl, Manifest.validate_ok_iff.mp hvalid, bytes, ?_⟩
  unfold Backend.getVerifiedLimited at hget
  split at hget
  · cases hget
  rename_i found hlookup
  split at hget
  · cases hget
  split at hget
  · cases hget
  rename_i hdigest
  cases hget
  unfold Manifest.fromBytes at hbytes
  split at hbytes
  · cases hbytes
  rename_i parsed hparse
  split at hbytes
  · cases hbytes
  cases hbytes
  exact ⟨hlookup, by simpa using hdigest, hparse⟩

/-- A manifest that was stored is loaded again, unless it is too large to be read. -/
theorem loadManifest_of_stored {objects : Objects} {m : Manifest} (hvalid : m.Valid)
    (hsorted : m.normalize = m) (hversion : m.version = manifestVersion)
    (hlookup : Finmap.lookup (B.contentKey "manifests" m.canonicalBytes) objects
      = some m.canonicalBytes)
    (hsize : m.canonicalBytes.length ≤ maxManifestBytes) :
    B.loadManifest objects (B.digest m) = .ok (B.digest m, m) := by
  have htrim : Str.trim (B.digest m) = B.digest m := FixedBytes.trim_toHex _
  have hlen : Str.len (B.digest m) = 64 := FixedBytes.len_toHex _
  have hhex : (B.digest m).toList.all Str.isAsciiHexdigit = true := by
    refine List.all_eq_true.mpr fun c hc => ?_
    have hlow := FixedBytes.toHex_isLowerHexdigit _ c hc
    unfold FixedBytes.isLowerHexdigit at hlow
    unfold Str.isAsciiHexdigit
    rw [hlow, Bool.true_or]
  have hkey : "manifests/" ++ B.digest m = B.contentKey "manifests" m.canonicalBytes := rfl
  have hget : B.getVerifiedLimited objects ("manifests/" ++ B.digest m)
      (B.digest m) maxManifestBytes = .ok m.canonicalBytes := by
    unfold Backend.getVerifiedLimited
    rw [hkey, hlookup]
    simp only
    rw [if_neg (Nat.not_lt.mpr hsize), if_neg (fun hne => hne rfl)]
  have hbytes : Manifest.fromBytes B.fromSlice m.canonicalBytes = .ok m := by
    unfold Manifest.fromBytes Manifest.canonicalBytes
    rw [hsorted, B.fromSlice_toVec]
    simp only
    rw [if_neg (fun hne => hne hversion)]
  unfold Backend.loadManifest
  simp only
  rw [htrim, if_neg (by simp [hlen, hhex]), hget]
  simp only
  rw [hbytes]
  simp only
  rw [Manifest.validate_ok_iff.mpr hvalid]

omit [DecidableEq P] in
theorem historyInv_init : HistoryInv (P := P) B World.init where
  pointer := rfl
  stored := by intro m hm; cases hm
  phases := fun _ => trivial
  addressed := Map.addressed_empty _

/-- **The history invariants are preserved by every step.** -/
theorem historyInv_step {w' : World P} (h : HistoryInv B w)
    (hs : Step B G hydration options w w') : HistoryInv B w' := by
  cases hs with
  | hydrateFresh hp hptr => exact h.setPhase (.inl ⟨rfl, rfl⟩)
  | getPointer hp hptr =>
    obtain ⟨hcur, htag⟩ := getPointer_eq_some hptr
    rw [h.pointer] at hcur
    obtain ⟨m, hm, hbody⟩ := Option.map_eq_some_iff.mp hcur
    exact h.setPhase ⟨m, List.mem_of_mem_head? hm, hbody.symm, htag⟩
  | @hydrateForWrite p etag body digest m repo hp hload hmat =>
    obtain ⟨m0, hm0, hbody, htag⟩ := h.phase hp
    obtain ⟨hdig, _, _⟩ := loadManifest_ok hload
    have hdig : digest = B.digest m0 := by
      rw [hdig, hbody]
      exact FixedBytes.trim_toHex _
    refine h.setPhase (.inr ⟨m0, hm0, ?_, ?_⟩)
    · show some etag = _
      rw [htag, hbody]
    · show some digest = _
      rw [hdig]
  | @receivePack p ps n refsAfter observed hp
  | @startCompaction p push outs packs hp hc hpack hprep | @skipCompaction p push hp hc
  | @abandonCompaction p push error hp hc | @abandonUpload p push todo keys error hp =>
    have hph := h.phase hp
    exact h.setPhase hph
  | @uploadCompacted p push bytes todo keys hp =>
    have hput := h.putImmutable "packs" bytes
    have hph := hput.phase hp
    exact hput.setPhase hph
  | @composeCompacted p push keys hp =>
    exact h.setPhase ⟨h.phase hp, rfl, composeCompactedAfter_normalize _ _ _ _⟩
  | @publishRefsOnly p push failure out hp hpack hdelta =>
    exact h.setPhase ⟨h.phase hp, rfl, composeAfter_normalize _ _ _ _ _⟩
  | @publishDelta p push failure out bytes hp hpack hdelta =>
    have hput := h.putImmutable "packs" bytes
    exact hput.setPhase ⟨hput.phase hp, rfl, composeAfter_normalize _ _ _ _ _⟩
  | seed hp => exact h.setPhase ⟨.inl ⟨rfl, rfl⟩, rfl, rfl⟩
  | @putManifest p ps m hp hvalid =>
    have hput := h.putImmutable "manifests" m.canonicalBytes
    obtain ⟨hps, hpar, hsorted⟩ := hput.phase hp
    exact hput.setPhase ⟨hps, hpar, rfl, List.mem_cons_self, Manifest.validate_ok_iff.mp hvalid,
      hsorted⟩
  | @casWon p ps m digest etag pointer answer hp hput hanswer =>
    obtain ⟨_, _, hdig, hstored⟩ := h.phase hp
    obtain ⟨hptr, _⟩ := putPointer_won hput
    refine ⟨?_, ?_, ?_, h.addressed⟩
    · show pointer = some (B.digest m)
      rw [hptr, hdig]
    · intro n hn
      rcases List.mem_cons.mp hn with hn | hn
      · rw [hn]
        exact hstored
      · exact h.stored n hn
    · refine forall_setPhase (I := PhaseInv B (m :: w.published) w.puts) (fun q => ?_) ?_
      · exact (h.phases q).mono (fun _ hn => List.mem_cons_of_mem _ hn) fun _ hx => hx
      · rcases hanswer with hanswer | hanswer
        · rw [hanswer]
          exact List.mem_cons_self
        · rw [hanswer]
          trivial
  | casLostRace hp hput => exact h.setPhase trivial
  | fail p => exact h.setPhase trivial
  | putForeign kind bytes => exact h.putImmutable kind bytes

theorem historyInv_reachable (h : Reachable B G hydration options w) :
    HistoryInv B w := by
  induction h with
  | init => exact historyInv_init
  | tail _ hs ih => exact historyInv_step ih hs

/-! ## The chain -/

/-- What one step does to the history: nothing, or one manifest more, by a conditional write
of a push that had staged it. -/
theorem step_history {w' : World P} (hs : Step B G hydration options w w') :
    w'.published = w.published
      ∨ ∃ p ps m digest etag pointer, w.pushes p = .staged ps m digest
          ∧ B.putPointer w.pointer digest ps.precond = (.won etag, pointer)
          ∧ w'.published = m :: w.published := by
  cases hs with
  | @casWon p ps m digest etag pointer answer hp hput hanswer =>
    exact .inr ⟨p, ps, m, digest, etag, pointer, hp, hput, rfl⟩
  | hydrateFresh | getPointer | hydrateForWrite | receivePack | startCompaction | uploadCompacted
  | composeCompacted | skipCompaction | abandonCompaction | abandonUpload | publishRefsOnly
  | publishDelta | seed | putManifest | casLostRace | fail | putForeign => exact .inl rfl

/-- No two published pointers share an entity tag. -/
def TagsDistinct (B : Backend) (published : List Manifest) : Prop :=
  ∀ m ∈ published, ∀ n ∈ published,
    B.etag (B.digest m) = B.etag (B.digest n) → B.digest m = B.digest n

/-- A write that is applied names the newest manifest. -/
theorem linked_step {w' : World P} (h : HistoryInv B w)
    (hl : Linked B.digest Manifest.parent w.published) (htags : TagsDistinct B w'.published)
    (hs : Step B G hydration options w w') : Linked B.digest Manifest.parent w'.published := by
  rcases step_history hs with hsame | ⟨p, ps, m, digest, etag, pointer, hp, hput, hpub⟩
  · rw [hsame]
    exact hl
  obtain ⟨hps, hpar, _, _⟩ := h.phase hp
  rw [hpub] at htags ⊢
  refine Linked.cons ?_ hl
  rw [← h.pointer, hpar]
  rcases (putPointer_won hput).2 with ⟨htag, hptr⟩ | ⟨current, hptr, htag⟩
  · -- the first write: only a push that found no pointer asks for this
    rw [hptr]
    rcases hps with ⟨_, hnone⟩ | ⟨n, _, hn, _⟩
    · exact hnone
    · rw [htag] at hn
      cases hn
  · rw [hptr]
    rcases hps with ⟨hnone, _⟩ | ⟨n, hn, hntag, hndig⟩
    · rw [htag] at hnone
      cases hnone
    -- the tag the push holds is the tag of the pointer it overwrites
    rw [h.pointer] at hptr
    obtain ⟨newest, hnewest, hcur⟩ := Option.map_eq_some_iff.mp hptr
    have hmem := List.mem_of_mem_head? hnewest
    have hsame : B.digest n = B.digest newest := by
      refine htags n (List.mem_cons_of_mem _ hn) newest (List.mem_cons_of_mem _ hmem) ?_
      rw [hntag, ← hcur] at htag
      exact Option.some.inj htag
    rw [hndig, hsame, hcur]

theorem published_subset {w' : World P} (hs : Step B G hydration options w w') :
    ∀ m ∈ w.published, m ∈ w'.published := by
  intro m hm
  rcases step_history hs with hsame | ⟨_, _, n, _, _, _, _, _, hpub⟩
  · rw [hsame]
    exact hm
  · rw [hpub]
    exact List.mem_cons_of_mem _ hm

theorem linked_reachable (h : Reachable B G hydration options w)
    (htags : TagsDistinct B w.published) : Linked B.digest Manifest.parent w.published := by
  induction h with
  | init => exact Linked.nil
  | tail hr hs ih =>
    have hinv := historyInv_reachable hr
    have hsub := published_subset hs
    exact linked_step hinv (ih fun m hm n hn => htags m (hsub m hm) n (hsub n hn)) htags hs

omit [DecidableEq P] in
/-- Published manifests with one digest are one manifest, as long as content keys do not
collide. -/
theorem eq_of_digest_eq (h : HistoryInv B w)
    (hfree : Map.CollisionFree B.contentKey w.puts) {m n : Manifest} (hm : m ∈ w.published)
    (hn : n ∈ w.published) (hdig : B.digest m = B.digest n) : m = n := by
  have hm := h.stored m hm
  have hn := h.stored n hn
  have hkey : B.contentKey "manifests" m.canonicalBytes =
      B.contentKey "manifests" n.canonicalBytes :=
    contentKey_eq_of_digestHex_eq "manifests" hdig
  have hbytes : m.canonicalBytes = n.canonicalBytes :=
    hfree "manifests" _ "manifests" _ hm.put hn.put hkey
  calc m = m.normalize := hm.sorted.symm
    _ = n.normalize := Manifest.canonicalBytes_inj hbytes
    _ = n := hn.sorted

/-- What the pushes on one repository have made of its pointer. -/
structure LinearHistory (B : Backend) (w : World P) : Prop where
  /-- The pointer is the newest manifest's. -/
  pointer : w.pointer = w.published.head?.map B.digest
  /-- Each manifest names the digest of the one that was the pointer before it. -/
  linked : Linked B.digest Manifest.parent w.published
  /-- No two manifests name the same parent. -/
  parents : (w.published.map Manifest.parent).Nodup
  /-- The pointer never had the same value twice. -/
  pointers : (w.published.map B.digest).Nodup
  /-- A push that reports success has published its manifest. -/
  reported : ∀ p m, w.pushes p = .succeeded m → m ∈ w.published

/-- **Whatever the interleaving, the published manifests form one chain.** -/
theorem published_linear {w : World P} (h : Reachable B G hydration options w)
    (hfree : Map.CollisionFree B.contentKey w.puts) (htags : TagsDistinct B w.published) :
    LinearHistory B w := by
  have hinv := historyInv_reachable h
  have hlinked := linked_reachable h htags
  have hdet : Linked.Determined B.digest Manifest.parent w.published := by
    intro m hm n hn hdig
    rw [eq_of_digest_eq hinv hfree hm hn hdig]
  have hreported : ∀ p m, w.pushes p = .succeeded m → m ∈ w.published := by
    intro p m hp
    have hph := hinv.phase hp
    exact hph
  exact ⟨hinv.pointer, hlinked, hlinked.nodup_parents hdet, hlinked.nodup_keys hdet, hreported⟩

theorem emptyManifest_valid : emptyManifest.Valid :=
  Manifest.validate_ok_iff.mp (by decide)

/-! ## A run: an announcement, and the first push onto it -/

/-- The commit of an empty tree, and the tree. -/
def exampleCommit : String := "9953c41a10c6d1cefbee6d7774bfadc5fddf07f6"
def exampleTree : String := "4b825dc642cb6eb9a060e54bf8d69288fbee4904"

/-- What `pack-objects` writes for the commit. -/
def examplePack : List UInt8 :=
  [80, 65, 67, 75, 0, 0, 0, 2, 0, 0, 0, 2, 148, 7, 120, 156, 125, 202, 49, 10, 128, 48, 12, 64, 209,
    61, 167, 200, 238, 18, 75, 90, 91, 16, 241, 42, 77, 155, 162, 67, 41, 72, 188, 191, 8, 206, 254,
    225, 77, 223, 46, 85, 100, 137, 206, 215, 18, 216, 21, 9, 42, 41, 83, 32, 245, 44, 45, 214, 144,
    92, 140, 77, 84, 57, 17, 67, 190, 237, 24, 23, 102, 92, 243, 46, 27, 206, 11, 125, 225, 244, 10,
    101, 244, 126, 154, 233, 207, 2, 29, 30, 117, 252, 30, 105, 32, 120, 156, 3, 0, 0, 0, 0, 1, 205,
    248, 161, 125, 168, 246, 67, 160, 162, 2, 112, 238, 170, 191, 171, 110, 146, 152, 80, 110]

def exampleGit : GitObjects where
  Obj := String
  reach := fun oid =>
    if oid = exampleCommit then {exampleCommit, exampleTree}
    else if oid = exampleTree then {exampleTree} else ∅
  contents := fun bytes => if bytes = examplePack then {exampleCommit, exampleTree} else ∅
  contents_nil := rfl

/-- The digests of the announced manifest, of the pack and of the pushed manifest. -/
def exampleDigests : FixedBytes 32 × FixedBytes 32 × FixedBytes 32 :=
  (.ofNat 32 0xb965e85e22f02c090a6857aa243d1765be73643e8e2a0c1759c30683180bfd17, .ofNat 32
    0xa5e385b959dbca567b7d293d1ef2debaee7874d8a2d3b6fd0947ce29df0d997e,
    .ofNat 32 0xe2e5709a16f2ceb3ecaf555704b8c2c4efae204f581564b91f7b7d6a0972c797)

/-- The manifest of the push; its parent is the announced one. -/
def exampleManifest : Manifest :=
  composeAfter emptyManifest (some exampleDigests.1.toHex) "refs/heads/main"
    ⟨[("refs/heads/main", exampleCommit)], List.pairwise_singleton _ _⟩
    (some ("packs/" ++ exampleDigests.2.1.toHex))

/-- The tags are the quoted MD5 digests of the two pointers. -/
def exampleEtag (body : String) : String :=
  if body = exampleDigests.1.toHex then "\"c64c6531818d9e8492d3b841cc0acacb\""
  else "\"63596131a309ba303587a1fbc78916b5\""

open Classical in
/-- Reads exactly what `toVec` writes. -/
noncomputable def exampleFromSlice (bytes : List UInt8) : Option Manifest :=
  if h : ∃ m : Manifest, m.toVec = bytes then some h.choose else none

theorem exampleFromSlice_toVec (m : Manifest) : exampleFromSlice m.toVec = some m := by
  have hex : ∃ n : Manifest, n.toVec = m.toVec := ⟨m, rfl⟩
  unfold exampleFromSlice
  rw [dif_pos hex, Manifest.toVec_inj hex.choose_spec]

noncomputable def exampleBackend : Backend where
  sha256 := fun bytes =>
    if bytes = emptyManifest.canonicalBytes then exampleDigests.1
    else if bytes = examplePack then exampleDigests.2.1
    else if bytes = exampleManifest.canonicalBytes then exampleDigests.2.2
    else .ofNat 32 0
  etag := exampleEtag
  fromSlice := exampleFromSlice
  fromSlice_toVec := exampleFromSlice_toVec

theorem examplePack_ne (m : Manifest) : examplePack ≠ m.canonicalBytes := by
  obtain ⟨rest, hrest⟩ := m.normalize.toVec_head
  intro h
  unfold Manifest.canonicalBytes at h
  rw [hrest] at h
  exact absurd (List.cons.inj h).1 (by decide)

theorem exampleManifest_ne : exampleManifest.canonicalBytes ≠ emptyManifest.canonicalBytes := by
  intro h
  have hparent := congrArg Manifest.parent (Manifest.canonicalBytes_inj h)
  cases hparent

theorem exampleBackend_sha256 (bytes : List UInt8) : exampleBackend.sha256 bytes =
    if bytes = emptyManifest.canonicalBytes then exampleDigests.1
    else if bytes = examplePack then exampleDigests.2.1
    else if bytes = exampleManifest.canonicalBytes then exampleDigests.2.2
    else .ofNat 32 0 := rfl

theorem exampleSha256_empty :
    exampleBackend.sha256 emptyManifest.canonicalBytes = exampleDigests.1 := by
  rw [exampleBackend_sha256, if_pos rfl]

theorem exampleSha256_pack : exampleBackend.sha256 examplePack = exampleDigests.2.1 := by
  rw [exampleBackend_sha256, if_neg (examplePack_ne _), if_pos rfl]

theorem exampleSha256_manifest :
    exampleBackend.sha256 exampleManifest.canonicalBytes = exampleDigests.2.2 := by
  rw [exampleBackend_sha256, if_neg exampleManifest_ne, if_neg (fun h => examplePack_ne _ h.symm),
    if_pos rfl]

theorem exampleManifest_packs :
    exampleManifest.packs = [exampleBackend.contentKey "packs" examplePack] := by
  unfold Backend.contentKey Backend.digestHex
  rw [exampleSha256_pack]
  rfl

theorem exampleManifest_valid : exampleManifest.Valid where
  packs_le := by
    rw [exampleManifest_packs]
    decide
  refs_le := by decide
  head_safe := by decide
  refs_ok := by
    intro e he
    have he : e ∈ [("refs/heads/main", exampleCommit)] := he
    rw [List.mem_singleton.mp he]
    decide
  packs_ok := by
    intro k hk
    rw [exampleManifest_packs] at hk
    rw [List.mem_singleton.mp hk]
    exact isPackKey_contentKey _
  parent_ok := by
    intro p hp
    cases hp
    exact isManifestDigest_toHex _

def exampleHydration : HydrationOptions := ⟨1000, 1000⟩

def exampleOptions : PublishOptions := ⟨1000, 1000, packCompactionThreshold⟩

def exampleRefs : SortedMap String :=
  ⟨[("refs/heads/main", exampleCommit)], List.pairwise_singleton _ _⟩

theorem examplePackObjects : exampleGit.PackObjects [exampleCommit] [] [examplePack] := by
  intro o
  have hreach : o ∈ exampleGit.reachable [exampleCommit] ↔ o ∈ exampleGit.contents examplePack := by
    constructor
    · intro h
      obtain ⟨t, ht, ho⟩ := h
      rw [List.mem_singleton.mp ht] at ho
      exact ho
    · intro h
      exact ⟨exampleCommit, List.mem_singleton_self _, h⟩
  have hnone : o ∉ exampleGit.reachable [] := by
    intro h
    obtain ⟨t, ht, _⟩ := h
    cases ht
  constructor
  · intro h
    obtain ⟨b, hb, hob⟩ := h
    rw [List.mem_singleton.mp hb] at hob
    exact ⟨hreach.mpr hob, hnone⟩
  · intro h
    exact ⟨examplePack, List.mem_singleton_self _, hreach.mp h.1⟩

theorem exampleDeltaPack {push : Push} (hparent : push.parentState.parent = emptyManifest)
    (hbytes : push.parentHydratedBytes = 0) (hrefs : push.refsAfter = exampleRefs) :
    push.deltaPack exampleOptions none examplePack = .ok (some examplePack) := by
  have hlen : examplePack.length = 133 := rfl
  have hcap : capturePack push.refsAfter exampleOptions.maxPackBytes examplePack
      = .ok (some examplePack) := by
    have hvalues : exampleRefs.values = [exampleCommit] := rfl
    unfold capturePack
    rw [hrefs]
    simp [hvalues, hlen, exampleOptions]
  have hbefore : push.packsBefore = 0 := by
    unfold Push.packsBefore
    rw [hparent]
    rfl
  unfold Push.deltaPack
  rw [hcap, hbefore, hbytes]
  simp [hlen, exampleOptions, maxManifestPacks]

/-- The announcement is one party. -/
theorem exampleAnnouncement : ∃ w : World Bool,
    Reachable exampleBackend exampleGit exampleHydration exampleOptions w
      ∧ w.pushes true = .idle
      ∧ w.pointer = some (exampleBackend.digest emptyManifest)
      ∧ w.published = [emptyManifest]
      ∧ w.puts = [("manifests", emptyManifest.canonicalBytes)]
      ∧ Finmap.lookup (exampleBackend.contentKey "manifests" emptyManifest.canonicalBytes) w.objects
          = some emptyManifest.canonicalBytes := by
  have h1 := Reachable.tail (Reachable.init) (@Step.seed Bool _ exampleBackend exampleGit
    exampleHydration exampleOptions World.init false rfl)
  have h2 := Reachable.tail h1 (Step.putManifest (setPhase_pushes_self _ _ _)
    (Manifest.validate_ok_iff.mpr emptyManifest_valid))
  have hput : exampleBackend.putPointer none (exampleBackend.digest emptyManifest)
      ParentState.fresh.precond
        = (.won (exampleBackend.etag (exampleBackend.digest emptyManifest)),
          some (exampleBackend.digest emptyManifest)) := rfl
  have h3 := Reachable.tail h2 (Step.casWon (setPhase_pushes_self _ _ _) hput (.inl rfl))
  have hlookup := Map.lookup_putNew ∅
    (exampleBackend.contentKey "manifests" emptyManifest.canonicalBytes)
    (exampleBackend.contentKey "manifests" emptyManifest.canonicalBytes)
      emptyManifest.canonicalBytes
  rw [if_pos ⟨rfl, Finmap.notMem_empty⟩] at hlookup
  exact ⟨_, h3, rfl, rfl, rfl, rfl, hlookup⟩

/-- The push onto it is the other one. -/
theorem exampleRun : ∃ w : World Bool,
    Reachable exampleBackend exampleGit exampleHydration exampleOptions w
      ∧ w.published = [exampleManifest, emptyManifest]
      ∧ w.puts = [("manifests", exampleManifest.canonicalBytes), ("packs", examplePack),
          ("manifests", emptyManifest.canonicalBytes)] := by
  obtain ⟨w, hw, hidle, hptr, hpub, hputs, hlookup⟩ := exampleAnnouncement
  have hget : exampleBackend.getPointer w.pointer
      = some (exampleBackend.etag
          (exampleBackend.digest emptyManifest), exampleBackend.digest emptyManifest) := by
    rw [hptr]
    rfl
  have h4 := Reachable.tail hw (Step.getPointer hidle hget)
  have hload : exampleBackend.loadManifest w.objects (exampleBackend.digest emptyManifest)
      = .ok (exampleBackend.digest emptyManifest, emptyManifest) :=
    loadManifest_of_stored emptyManifest_valid rfl rfl hlookup (by decide)
  have hmat : exampleBackend.materializeManifest w.objects exampleHydration emptyManifest
      = .ok ⟨[], SortedMap.empty, "refs/heads/main", 0⟩ := rfl
  have h5 := Reachable.tail h4 (Step.hydrateForWrite (setPhase_pushes_self _ _ _) hload hmat)
  have h6 := Reachable.tail h5 (Step.receivePack exampleRefs "refs/heads/main"
    (setPhase_pushes_self _ _ _))
  have h7 := Reachable.tail h6 (Step.skipCompaction (setPhase_pushes_self _ _ _) (by decide))
  have h8 := Reachable.tail h7 (Step.publishDelta (setPhase_pushes_self _ _ _) examplePackObjects
    (exampleDeltaPack rfl rfl rfl))
  have hhead : resolvePublishedHead exampleRefs "refs/heads/main" emptyManifest.head
      = "refs/heads/main" := by decide
  have hmanifest : composeAfter emptyManifest (some (exampleBackend.digest emptyManifest))
      (resolvePublishedHead exampleRefs "refs/heads/main" emptyManifest.head) exampleRefs
      (some (exampleBackend.contentKey "packs" examplePack)) = exampleManifest := by
    rw [hhead]
    unfold Backend.digest Backend.contentKey Backend.digestHex
    rw [exampleSha256_empty, exampleSha256_pack]
    rfl
  have h9 := Reachable.tail h8 (Step.putManifest
    ((setPhase_pushes_self _ _ _).trans (congrArg (Phase.composed _) hmanifest))
    (Manifest.validate_ok_iff.mpr exampleManifest_valid))
  have hput : exampleBackend.putPointer w.pointer (exampleBackend.digest exampleManifest)
      (.ifMatch (exampleBackend.etag (exampleBackend.digest emptyManifest)))
        = (.won (exampleBackend.etag (exampleBackend.digest exampleManifest)),
          some (exampleBackend.digest exampleManifest)) := by
    unfold Backend.putPointer
    rw [hptr]
    simp
  have h10 := Reachable.tail h9 (Step.casWon (setPhase_pushes_self _ _ _) hput (.inl rfl))
  refine ⟨_, h10, ?_, ?_⟩
  · show exampleManifest :: w.published = _
    rw [hpub]
  · show ("manifests", exampleManifest.canonicalBytes) :: ("packs", examplePack) :: w.puts = _
    rw [hputs]

theorem exampleDigests_distinct : exampleDigests.2.2 ≠ exampleDigests.2.1
    ∧ exampleDigests.2.2 ≠ exampleDigests.1 ∧ exampleDigests.2.1 ≠ exampleDigests.1 := by
  decide

theorem examplePuts_collisionFree : Map.CollisionFree exampleBackend.contentKey
    [("manifests", exampleManifest.canonicalBytes), ("packs", examplePack),
      ("manifests", emptyManifest.canonicalBytes)] := by
  obtain ⟨h1, h2, h3⟩ := exampleDigests_distinct
  intro i b j c hb hc hkey
  have hsha := sha256_eq_of_contentKey_eq hkey
  simp only [List.mem_cons, Prod.mk.injEq, List.not_mem_nil, or_false] at hb hc
  rcases hb with ⟨_, hb⟩ | ⟨_, hb⟩ | ⟨_, hb⟩ <;> rcases hc with ⟨_, hc⟩ | ⟨_, hc⟩ | ⟨_, hc⟩ <;>
    rw [hb, hc] at hsha ⊢ <;>
    simp only [exampleSha256_empty, exampleSha256_pack, exampleSha256_manifest] at hsha
  · exact absurd hsha h1
  · exact absurd hsha h2
  · exact absurd hsha h1.symm
  · exact absurd hsha h3
  · exact absurd hsha h2.symm
  · exact absurd hsha h3.symm

theorem exampleTags_distinct : TagsDistinct exampleBackend [exampleManifest, emptyManifest] := by
  have hempty : exampleBackend.digest emptyManifest = exampleDigests.1.toHex := by
    unfold Backend.digest Backend.digestHex
    rw [exampleSha256_empty]
  have hpushed : exampleBackend.digest exampleManifest = exampleDigests.2.2.toHex := by
    unfold Backend.digest Backend.digestHex
    rw [exampleSha256_manifest]
  have hne : exampleDigests.2.2.toHex ≠ exampleDigests.1.toHex := by
    intro h
    exact exampleDigests_distinct.2.1 (FixedBytes.toHex_inj h)
  have htag : exampleBackend.etag exampleDigests.1.toHex
      ≠ exampleBackend.etag exampleDigests.2.2.toHex := by
    have hetag : ∀ body, exampleBackend.etag body = exampleEtag body := fun _ => rfl
    rw [hetag, hetag]
    unfold exampleEtag
    rw [if_pos rfl, if_neg hne]
    decide
  intro m hm n hn h
  simp only [List.mem_cons, List.not_mem_nil, or_false] at hm hn
  rcases hm with hm | hm <;> rcases hn with hn | hn <;> rw [hm, hn] at h ⊢ <;>
    simp only [hempty, hpushed] at h
  · exact absurd h htag.symm
  · exact absurd h htag

/-- The push names the announced manifest, and both ever were the pointer. -/
theorem published_linear_push : ∃ w : World Bool,
    w.published = [exampleManifest, emptyManifest] ∧ LinearHistory exampleBackend w := by
  obtain ⟨w, hw, hpub, hputs⟩ := exampleRun
  have hfree : Map.CollisionFree exampleBackend.contentKey w.puts := by
    rw [hputs]
    exact examplePuts_collisionFree
  have htags : TagsDistinct exampleBackend w.published := by
    rw [hpub]
    exact exampleTags_distinct
  exact ⟨w, hpub, published_linear hw hfree htags⟩

end Pkzz.Git
