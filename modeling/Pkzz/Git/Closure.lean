import Pkzz.Git.History

/-!
# Every published manifest can be reconstructed

A delta pack is computed against the *refs* of the parent manifest: it leaves out whatever
those refs reach. That the parent's *packs* hold what it leaves out is a property of the
parent, so the coverage of a manifest is an invariant of the whole history, and it has to
hold of the manifest a push hydrated from although that manifest came out of the store as
bytes. A compaction starts over: it covers the new refs by itself.
-/

namespace Pkzz.Git

open Pkzz.Core Pkzz.Lib

variable {P : Type} [DecidableEq P] {B : Backend} {G : GitObjects} {hydration : HydrationOptions}
  {options : PublishOptions}

/-! ## Packs that cover refs -/

/-- The store holds a pack under each of these keys. -/
def Uploaded (B : Backend) (objects : Objects) (keys : List String) : Prop :=
  ∀ k ∈ keys, ∃ bytes, Finmap.lookup k objects = some bytes ∧ k = B.contentKey "packs" bytes

/-- One of the packs under these keys holds the object. -/
def Holds (G : GitObjects) (objects : Objects) (keys : List String) (o : G.Obj) : Prop :=
  ∃ k ∈ keys, ∃ bytes, Finmap.lookup k objects = some bytes ∧ o ∈ G.contents bytes

/-- A manifest whose refs can be reconstructed from the packs it lists. -/
structure Closed (B : Backend) (G : GitObjects) (objects : Objects) (m : Manifest) : Prop where
  /-- Every pack it lists is in the store. -/
  uploaded : Uploaded B objects m.packs
  /-- What its refs reach is in those packs. -/
  covered : ∀ o ∈ G.reachable m.refs.values, Holds G objects m.packs o

variable {objects more : Objects} {keys : List String}

theorem Uploaded.mono (h : Uploaded B objects keys)
    (hext : objects.Extends more) : Uploaded B more keys := by
  intro k hk
  obtain ⟨bytes, hlookup, hkey⟩ := h k hk
  exact ⟨bytes, hext k bytes hlookup, hkey⟩

theorem Uploaded.append {bytes : List UInt8} (h : Uploaded B objects keys)
    (hput : Finmap.lookup (B.contentKey "packs" bytes) objects = some bytes) :
    Uploaded B objects (keys ++ [B.contentKey "packs" bytes]) := by
  intro k hk
  rcases List.mem_append.mp hk with hk | hk
  · exact h k hk
  · rw [List.mem_singleton.mp hk]
    exact ⟨bytes, hput, rfl⟩

theorem Holds.mono {o : G.Obj}
    (h : Holds G objects keys o) (hext : objects.Extends more) : Holds G more keys o := by
  obtain ⟨k, hk, bytes, hlookup, ho⟩ := h
  exact ⟨k, hk, bytes, hext k bytes hlookup, ho⟩

theorem Holds.of_subset {more : List String} {o : G.Obj}
    (h : Holds G objects keys o) (hsub : ∀ k ∈ keys, k ∈ more) : Holds G objects more o := by
  obtain ⟨k, hk, h⟩ := h
  exact ⟨k, hsub k hk, h⟩

theorem Closed.mono {m : Manifest} (h : Closed B G objects m)
    (hext : objects.Extends more) : Closed B G more m :=
  ⟨h.uploaded.mono hext, fun o ho => (h.covered o ho).mono hext⟩

/-- A manifest without refs and packs has nothing to cover. -/
theorem closed_of_empty {m : Manifest} (hrefs : m.refs = SortedMap.empty)
    (hpacks : m.packs = []) : Closed B G objects m where
  uploaded := by
    intro k hk
    rw [hpacks] at hk
    cases hk
  covered := by
    intro o ho
    obtain ⟨t, ht, _⟩ := ho
    rw [hrefs] at ht
    cases ht

/-! ## What the capture functions return -/

variable {refs : SortedMap String} {out : List UInt8}

theorem capturePack_ok {max : Nat}
    {pack : Option (List UInt8)} (h : capturePack refs max out = .ok pack) :
    (pack = none ∧ (refs.values = [] ∨ out = [])) ∨ pack = some out := by
  unfold capturePack at h
  simp only at h
  split at h
  · rename_i hemp
    exact .inl ⟨(Except.ok.inj h).symm, .inl (List.isEmpty_iff.mp hemp)⟩
  split at h
  · cases h
  split at h
  · rename_i hlen
    exact .inl ⟨(Except.ok.inj h).symm, .inr (List.length_eq_zero_iff.mp hlen)⟩
  · exact .inr (Except.ok.inj h).symm

variable {push : Push}

theorem deltaPack_ok {failure : Option CasError}
    {pack : Option (List UInt8)} (h : push.deltaPack options failure out = .ok pack) :
    (pack = none ∧ (push.refsAfter.values = [] ∨ out = [])) ∨ pack = some out := by
  unfold Push.deltaPack at h
  simp only at h
  split at h
  · cases h
  · rename_i hcap
    cases h
    exact capturePack_ok hcap
  · rename_i bytes hcap
    split at h
    · cases h
    split at h
    · cases h
    split at h
    · cases h
    cases h
    exact capturePack_ok hcap

theorem prepareCompaction_ok {packsBefore : Nat} {outs packs : List (List UInt8)}
    (h : prepareCompaction options refs packsBefore outs = .ok packs) :
    refs.entries = [] ∨ packs = outs := by
  unfold prepareCompaction at h
  split at h
  · cases h
  rename_i captured hcap
  simp only at h
  split at h
  · cases h
  cases h
  unfold captureCompactedPacks at hcap
  simp only at hcap
  split at hcap
  · rename_i hemp
    exact .inl (List.isEmpty_iff.mp hemp)
  split at hcap
  · cases hcap
  split at hcap
  · cases hcap
  exact .inr (Except.ok.inj hcap).symm

theorem values_eq_nil (h : refs.entries = []) : refs.values = [] := by
  unfold SortedMap.values
  rw [h, List.map_nil]

/-! ## Composed manifests -/

theorem mem_composeAfter_packs {parent : Manifest} {digest : Option String} {head : String}
 {key : Option String} {k : String} :
    k ∈ (composeAfter parent digest head refs key).packs ↔ k ∈ parent.packs ∨ key = some k := by
  unfold composeAfter
  simp only [mem_sortDedup]
  cases key with
  | none => simp
  | some new =>
    simp only [Option.some.injEq]
    split
    · rename_i hany
      obtain ⟨p, hp, hpn⟩ := List.any_eq_true.mp hany
      have hpn : p = new := by simpa using hpn
      constructor
      · intro h
        exact .inl h
      · intro h
        rcases h with h | h
        · exact h
        · rw [← h, ← hpn]
          exact hp
    · rw [List.mem_append, List.mem_singleton, eq_comm]

theorem mem_composeCompactedAfter_packs {digest : Option String} {head : String} {k : String} :
    k ∈ (composeCompactedAfter digest head refs keys).packs ↔ k ∈ keys := by
  unfold composeCompactedAfter
  exact mem_sortDedup

/-- A push that adds no pack: what its refs reach, the parent's packs hold. -/
theorem closed_refsOnly (hparent : Closed B G objects push.parentState.parent)
    (hpack : G.PackObjects push.refsAfter.values push.parentState.parent.refs.values [out])
    (hnone : push.refsAfter.values = [] ∨ out = []) :
    Closed B G objects (composeAfter push.parentState.parent push.parentState.parentDigest push.head
      push.refsAfter none) := by
  have hpacks : ∀ k, k ∈ (composeAfter push.parentState.parent push.parentState.parentDigest
      push.head push.refsAfter none).packs ↔ k ∈ push.parentState.parent.packs := by
    intro k
    rw [mem_composeAfter_packs]
    simp
  refine ⟨fun k hk => hparent.uploaded k ((hpacks k).mp hk), ?_⟩
  intro o ho
  rcases hnone with hrefs | hout
  · obtain ⟨t, ht, _⟩ := ho
    have ht : t ∈ push.refsAfter.values := ht
    rw [hrefs] at ht
    cases ht
  · -- an empty pack: nothing is reachable from the new refs only
    have hold : o ∈ G.reachable push.parentState.parent.refs.values := by
      by_contra hnew
      obtain ⟨b, hb, hob⟩ := (hpack o).mpr ⟨ho, hnew⟩
      rw [List.mem_singleton.mp hb, hout, G.contents_nil] at hob
      exact hob
    exact (hparent.covered o hold).of_subset fun k hk => (hpacks k).mpr hk

/-- A push that adds a delta pack: what its refs reach is in the parent's packs or in that. -/
theorem closed_delta (hparent : Closed B G objects push.parentState.parent)
    (hpack : G.PackObjects push.refsAfter.values push.parentState.parent.refs.values [out])
    (hput : Finmap.lookup (B.contentKey "packs" out) objects = some out) :
    Closed B G objects (composeAfter push.parentState.parent push.parentState.parentDigest push.head
      push.refsAfter (some (B.contentKey "packs" out))) := by
  refine ⟨?_, ?_⟩
  · intro k hk
    rcases mem_composeAfter_packs.mp hk with hk | hk
    · exact hparent.uploaded k hk
    · cases hk
      exact ⟨out, hput, rfl⟩
  · intro o ho
    by_cases hold : o ∈ G.reachable push.parentState.parent.refs.values
    · exact (hparent.covered o hold).of_subset fun k hk => mem_composeAfter_packs.mpr (.inl hk)
    · obtain ⟨b, hb, hob⟩ := (hpack o).mpr ⟨ho, hold⟩
      rw [List.mem_singleton.mp hb] at hob
      exact ⟨_, mem_composeAfter_packs.mpr (.inr rfl), out, hput, hob⟩

/-! ## The invariant -/

/-- Between its first upload and its last, a compaction covers the new refs by what it has put
and what it still has to put. -/
structure CompactionCovers (B : Backend) (G : GitObjects) (objects : Objects) (push : Push)
    (todo : List (List UInt8)) (packKeys : List String) : Prop where
  uploaded : Uploaded B objects packKeys
  covered : ∀ o ∈ G.reachable push.refsAfter.values,
    (∃ b ∈ todo, o ∈ G.contents b) ∨ Holds G objects packKeys o

def PhaseClosed (B : Backend) (G : GitObjects) (objects : Objects) : Phase → Prop
  | .idle | .pointerRead _ _ | .succeeded _ | .failed => True
  | .hydrated ps _ => Closed B G objects ps.parent
  | .received push | .capturing push _ => Closed B G objects push.parentState.parent
  | .compacting push todo packKeys =>
    Closed B G objects push.parentState.parent
      ∧ CompactionCovers B G objects push todo packKeys
  | .composed _ m | .staged _ m _ => Closed B G objects m

/-- The closure invariants. -/
structure ClosureInv (B : Backend) (G : GitObjects) (w : World P) : Prop where
  /-- Published manifests can be reconstructed. -/
  published : ∀ m ∈ w.published, Closed B G w.objects m
  /-- So can those a push started from, and those it is about to publish. -/
  phases : ∀ p, PhaseClosed B G w.objects (w.pushes p)

theorem CompactionCovers.mono {todo : List (List UInt8)}
 (h : CompactionCovers B G objects push todo keys)
    (hext : objects.Extends more) : CompactionCovers B G more push todo keys := by
  refine ⟨h.uploaded.mono hext, ?_⟩
  intro o ho
  rcases h.covered o ho with htodo | hheld
  · exact .inl htodo
  · exact .inr (hheld.mono hext)

theorem PhaseClosed.mono {ph : Phase} (h : PhaseClosed B G objects ph)
    (hext : objects.Extends more) : PhaseClosed B G more ph := by
  cases ph with
  | idle => trivial
  | pointerRead etag body => trivial
  | succeeded m => trivial
  | failed => trivial
  | hydrated ps n | received push | capturing push failure | composed ps m | staged ps m digest =>
    exact Closed.mono h hext
  | compacting push todo keys => exact ⟨h.1.mono hext, h.2.mono hext⟩

variable {w : World P}

theorem ClosureInv.setPhase (h : ClosureInv B G w) {p : P} {ph : Phase}
    (hph : PhaseClosed B G w.objects ph) : ClosureInv B G (w.setPhase p ph) where
  published := h.published
  phases := forall_setPhase h.phases hph

omit [DecidableEq P] in
theorem ClosureInv.phase (h : ClosureInv B G w) {p : P} {ph : Phase}
    (hp : w.pushes p = ph) : PhaseClosed B G w.objects ph := by
  rw [← hp]
  exact h.phases p

omit [DecidableEq P] in
theorem ClosureInv.putImmutable (h : ClosureInv B G w) (kind : String)
    (bytes : List UInt8) : ClosureInv B G (w.putImmutable B kind bytes) where
  published := fun m hm => (h.published m hm).mono (Map.extends_putNew _ _ _)
  phases := fun p => (h.phases p).mono (Map.extends_putNew _ _ _)

/-- Before the first upload everything is still to put. -/
theorem CompactionCovers.start {outs packs : List (List UInt8)}
    (hpack : G.PackObjects push.refsAfter.values [] outs)
    (hprep : prepareCompaction options push.refsAfter push.packsBefore outs = .ok packs) :
    CompactionCovers B G objects push packs [] := by
  refine ⟨fun k hk => absurd hk List.not_mem_nil, ?_⟩
  intro o ho
  rcases prepareCompaction_ok hprep with hrefs | hpacks
  · obtain ⟨t, ht, _⟩ := ho
    rw [values_eq_nil hrefs] at ht
    cases ht
  -- nothing was excluded
  have hnot : o ∉ G.reachable [] := by
    intro hmem
    obtain ⟨t, ht, _⟩ := hmem
    cases ht
  rw [hpacks]
  exact .inl ((hpack o).mpr ⟨ho, hnot⟩)

/-- One upload of a compaction. -/
theorem CompactionCovers.upload {bytes : List UInt8} {todo : List (List UInt8)}
    (h : CompactionCovers B G objects push (bytes :: todo) keys)
    (hput : Finmap.lookup (B.contentKey "packs" bytes) objects = some bytes) :
    CompactionCovers B G objects push todo (keys ++ [B.contentKey "packs" bytes]) := by
  refine ⟨h.uploaded.append hput, ?_⟩
  intro o ho
  rcases h.covered o ho with ⟨b, hb, hob⟩ | hheld
  · rcases List.mem_cons.mp hb with hb | hb
    · rw [hb] at hob
      exact .inr ⟨_, List.mem_append_right _ (by simp), bytes, hput, hob⟩
    · exact .inl ⟨b, hb, hob⟩
  · exact .inr (hheld.of_subset fun k hk => List.mem_append_left _ hk)

omit [DecidableEq P] in
/-- What a push hydrates from is the published manifest itself, not just bytes with its digest. -/
theorem loadManifest_published (h : HistoryInv B w)
    (hfree : Map.CollisionFree B.contentKey w.puts) {m0 m : Manifest} (hm0 : m0 ∈ w.published)
    {digest : String} (hload : B.loadManifest w.objects (B.digest m0) = .ok (digest, m)) :
    m = m0 := by
  obtain ⟨hdig, _, bytes, hlookup, _, hparse⟩ := loadManifest_ok hload
  have hstored := h.stored m0 hm0
  have hdig : digest = B.digest m0 := by
    rw [hdig]
    exact FixedBytes.trim_toHex _
  obtain ⟨kind, hput, hkey⟩ := h.addressed _ _ hlookup
  have hkey : B.contentKey kind bytes = B.contentKey "manifests" m0.canonicalBytes := by
    rw [hkey, hdig]
    rfl
  have hbytes : bytes = m0.canonicalBytes := hfree kind _ "manifests" _ hput hstored.put hkey
  have hvec : bytes = m0.toVec := by
    rw [hbytes]
    unfold Manifest.canonicalBytes
    rw [hstored.sorted]
  rw [hvec, B.fromSlice_toVec] at hparse
  exact (Option.some.inj hparse).symm

omit [DecidableEq P] in
theorem closureInv_init : ClosureInv (P := P) B G World.init where
  published := by intro m hm; cases hm
  phases := fun _ => trivial

/-- **The closure invariants are preserved by every step.** -/
theorem closureInv_step {w' : World P} (hist : HistoryInv B w)
    (hfree : Map.CollisionFree B.contentKey w'.puts) (h : ClosureInv B G w)
    (hs : Step B G hydration options w w') : ClosureInv B G w' := by
  cases hs with
  | hydrateFresh hp hptr => exact h.setPhase (closed_of_empty rfl rfl)
  | getPointer hp hptr => exact h.setPhase trivial
  | @hydrateForWrite p etag body digest m repo hp hload hmat =>
    obtain ⟨m0, hm0, hbody, _⟩ := hist.phase hp
    rw [hbody] at hload
    -- the pointer names a published manifest, and its packs are stored
    have hm : m = m0 := loadManifest_published hist hfree hm0 hload
    have hclosed : Closed B G w.objects m := by
      rw [hm]
      exact h.published m0 hm0
    exact h.setPhase hclosed
  | @receivePack p ps n refsAfter observed hp | @skipCompaction p push hp hc
  | @abandonCompaction p push error hp hc =>
    have hph := h.phase hp
    exact h.setPhase hph
  | @startCompaction p push outs packs hp hc hpack hprep =>
    have hph := h.phase hp
    exact h.setPhase ⟨hph, CompactionCovers.start hpack hprep⟩
  | @uploadCompacted p push bytes todo keys hp =>
    have hput := h.putImmutable (B := B) "packs" bytes
    have hstored := hist.addressed.lookup_putNew_self hfree
    -- the uploaded pack is stored under its digest from now on
    obtain ⟨hparent, hcov⟩ := hput.phase hp
    exact hput.setPhase ⟨hparent, hcov.upload hstored⟩
  | @composeCompacted p push keys hp =>
    obtain ⟨_, hcov⟩ := h.phase hp
    refine h.setPhase ⟨?_, ?_⟩
    · intro k hk
      exact hcov.uploaded k (mem_composeCompactedAfter_packs.mp hk)
    · intro o ho
      rcases hcov.covered o ho with ⟨b, hb, _⟩ | hheld
      · cases hb
      · exact hheld.of_subset fun k hk => mem_composeCompactedAfter_packs.mpr hk
  | @abandonUpload p push todo keys error hp =>
    have hph := h.phase hp
    exact h.setPhase hph.1
  | @publishRefsOnly p push failure out hp hpack hdelta =>
    have hph := h.phase hp
    rcases deltaPack_ok hdelta with ⟨_, hnone⟩ | hsome
    · exact h.setPhase (closed_refsOnly hph hpack hnone)
    · cases hsome
  | @publishDelta p push failure out bytes hp hpack hdelta =>
    have hput := h.putImmutable (B := B) "packs" bytes
    have hstored := hist.addressed.lookup_putNew_self hfree
    have hph := hput.phase hp
    rcases deltaPack_ok hdelta with ⟨hsome, _⟩ | hsome
    · cases hsome
    · cases hsome
      exact hput.setPhase (closed_delta hph hpack hstored)
  | seed hp => exact h.setPhase (closed_of_empty rfl rfl)
  | @putManifest p ps m hp hvalid =>
    have hput := h.putImmutable (B := B) "manifests" m.canonicalBytes
    have hph := hput.phase hp
    exact hput.setPhase hph
  | @casWon p ps m digest etag pointer answer hp hput hanswer =>
    -- the manifest was closed when it was staged, and objects only grow
    have hph : Closed B G w.objects m := h.phase hp
    refine ⟨?_, ?_⟩
    · intro n hn
      rcases List.mem_cons.mp hn with hn | hn
      · rw [hn]
        exact hph
      · exact h.published n hn
    · refine forall_setPhase (I := PhaseClosed B G w.objects) h.phases ?_
      rcases hanswer with hanswer | hanswer
      · rw [hanswer]
        trivial
      · rw [hanswer]
        trivial
  | casLostRace hp hput => exact h.setPhase trivial
  | fail p => exact h.setPhase trivial
  | putForeign kind bytes => exact h.putImmutable kind bytes

/-- A step forgets nothing that was put. -/
theorem puts_subset {w' : World P} (hs : Step B G hydration options w w') :
    ∀ x ∈ w.puts, x ∈ w'.puts := by
  intro x hx
  cases hs with
  | uploadCompacted | publishDelta | putManifest | putForeign => exact List.mem_cons_of_mem _ hx
  | hydrateFresh | getPointer | hydrateForWrite | receivePack | startCompaction
  | composeCompacted | skipCompaction | abandonCompaction | abandonUpload | publishRefsOnly
  | seed | casWon | casLostRace | fail => exact hx

theorem closureInv_reachable (h : Reachable B G hydration options w)
    (hfree : Map.CollisionFree B.contentKey w.puts) : ClosureInv B G w := by
  induction h with
  | init => exact closureInv_init
  | tail hr hs ih =>
    exact closureInv_step (historyInv_reachable hr) hfree (ih (hfree.mono (puts_subset hs))) hs

/-- **Reconstruction closure.** What the refs of a published manifest reach is in the packs it
lists, and it lists at most as many as one hydration may read; and the packs of a manifest
were in the store before the pointer moved to it. -/
theorem reconstruction_closure {w : World P} (h : Reachable B G hydration options w)
    (hfree : Map.CollisionFree B.contentKey w.puts) :
    (∀ m ∈ w.published, Closed B G w.objects m ∧ m.packs.length ≤ maxManifestPacks)
      ∧ ∀ w' m, Step B G hydration options w w' → w'.published = m :: w.published →
          Closed B G w.objects m := by
  have hinv := closureInv_reachable h hfree
  have hist := historyInv_reachable h
  refine ⟨?_, ?_⟩
  · intro m hm
    exact ⟨hinv.published m hm, (hist.stored m hm).valid.packs_le⟩
  · intro w' m hs hpub
    rcases step_history hs with hsame | ⟨p, ps, n, digest, etag, pointer, hp, _, hpub'⟩
    · rw [hsame] at hpub
      exact absurd (congrArg List.length hpub) (by simp)
    · rw [hpub'] at hpub
      rw [← (List.cons.inj hpub).1]
      exact hinv.phase hp

/-- The commit of the first push, and its tree, are in the pack it put. -/
theorem reconstruction_closure_push : ∃ w : World Bool,
    w.published = [exampleManifest, emptyManifest]
      ∧ Closed exampleBackend exampleGit w.objects exampleManifest
      ∧ exampleManifest.packs.length ≤ maxManifestPacks := by
  obtain ⟨w, hw, hpub, hputs⟩ := exampleRun
  have hfree : Map.CollisionFree exampleBackend.contentKey w.puts := by
    rw [hputs]
    exact examplePuts_collisionFree
  have hclosed := (reconstruction_closure hw hfree).1 exampleManifest (by rw [hpub]; simp)
  exact ⟨w, hpub, hclosed⟩

end Pkzz.Git
