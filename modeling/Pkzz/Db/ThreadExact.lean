import Pkzz.Db.ThreadCounters

/-!
# Orderly calls keep the counters exact

The invariant counts messages: a row's counters are the numbers of live messages that the links
place under it. A new row counts nothing, because whatever is linked has the rows of its parent
and its root already. A new link adds one to the counts of two messages, a deleted message takes
one off.
-/

namespace Pkzz.Db.Thread

open Pkzz.Core Pkzz.Lib

/-! ## Links -/

/-- Something was said about the message. -/
def IsLinked (links : List Link) (e : Message) : Prop := ∃ l ∈ links, l.message = e

instance (links : List Link) (e m : Message) : Decidable (IsReply links e m) :=
  inferInstanceAs (Decidable (∃ l ∈ links, l.message = e ∧ l.parentMessage = m))

instance (links : List Link) (e : Message) : Decidable (IsLinked links e) :=
  inferInstanceAs (Decidable (∃ l ∈ links, l.message = e))

/-- One link for a message, said before anything was said to be a reply to it. -/
def Threaded : List Link → Prop
  | [] => True
  | l :: links =>
    Threaded links ∧ l.parentMessage ≠ l.message ∧ ∀ l' ∈ links, l'.message ≠ l.message ∧
      l'.parentMessage ≠ l.message

variable {links : List Link} {e m : Message}

theorem isReply_cons {l : Link} :
    IsReply (l :: links) e m ↔ (l.message = e ∧ l.parentMessage = m) ∨ IsReply links e m := by
  simp [IsReply]

theorem isLinked_cons {l : Link} :
    IsLinked (l :: links) e ↔ l.message = e ∨ IsLinked links e := by
  simp [IsLinked]

theorem IsReply.isLinked (h : IsReply links e m) : IsLinked links e := by
  obtain ⟨l, hl, he, -⟩ := h
  exact ⟨l, hl, he⟩

theorem rootIn_of_not_linked (h : ¬ IsLinked links m) : rootIn links m = m := by
  induction links with
  | nil => rfl
  | cons l links ih =>
    rw [isLinked_cons, not_or] at h
    rw [rootIn, if_neg h.1]
    exact ih h.2

theorem rootIn_community (links : List Link) (m : Message) : (rootIn links m).1 = m.1 := by
  induction links generalizing m with
  | nil => rfl
  | cons l links ih =>
    rw [rootIn]
    split
    · rename_i hm
      rw [ih, ← hm]
      rfl
    · exact ih m

/-- Up from a reply to another message, no later link is met. -/
theorem descends_cons {l : Link} (hnew : ∀ l' ∈ links, l'.parentMessage ≠ l.message)
    (he : e ≠ l.message) : Descends (l :: links) e m ↔ Descends links e m := by
  constructor
  · intro h
    induction h with
    | @reply l' hl' =>
      rcases List.mem_cons.mp hl' with rfl | hl'
      · exact absurd rfl he
      · exact .reply hl'
    | @under l' m hl' _ ih =>
      rcases List.mem_cons.mp hl' with rfl | hl'
      · exact absurd rfl he
      · exact .under hl' (ih (hnew l' hl'))
  · intro h
    induction h with
    | reply hl' => exact .reply (List.mem_cons_of_mem _ hl')
    | @under l' m hl' _ ih => exact .under (List.mem_cons_of_mem _ hl') (ih (hnew l' hl'))

theorem Descends.isLinked (h : Descends links e m) : IsLinked links e := by
  cases h with
  | reply hl => exact ⟨_, hl, rfl⟩
  | under hl _ => exact ⟨_, hl, rfl⟩

/-- Below a thread root are the replies whose thread it tops. -/
theorem descends_iff (h : Threaded links) (hm : ¬ IsLinked links m) :
    Descends links e m ↔ IsLinked links e ∧ rootIn links e = m := by
  induction links generalizing e with
  | nil =>
    constructor
    · intro hd
      obtain ⟨_, hl, _⟩ := hd.isLinked
      cases hl
    · rintro ⟨⟨_, hl, _⟩, _⟩
      cases hl
  | cons l links ih =>
    obtain ⟨hlinks, hself, hnew⟩ := h
    rw [isLinked_cons, not_or] at hm
    by_cases he : e = l.message
    · subst he
      have hparent : Descends (l :: links) l.message m ↔ l.parentMessage = m ∨
          Descends links l.parentMessage m := by
        constructor
        · intro hd
          generalize hstart : l.message = start at hd
          cases hd with
          | @reply l' hl' =>
            rcases List.mem_cons.mp hl' with rfl | hl'
            · exact .inl rfl
            · exact absurd hstart.symm (hnew l' hl').1
          | @under l' m hl' hup =>
            rcases List.mem_cons.mp hl' with rfl | hl'
            · exact .inr ((descends_cons (fun l' hl' => (hnew l' hl').2) hself).mp hup)
            · exact absurd hstart.symm (hnew l' hl').1
        · rintro (rfl | hup)
          · exact .reply List.mem_cons_self
          · exact .under List.mem_cons_self
              ((descends_cons (fun l' hl' => (hnew l' hl').2) hself).mpr hup)
      rw [hparent, ih hlinks hm.2, isLinked_cons, rootIn, if_pos rfl]
      by_cases hp : IsLinked links l.parentMessage
      · have hne : l.parentMessage ≠ m := fun heq => hm.2 (heq ▸ hp)
        simp [hp, hne]
      · simp [hp, rootIn_of_not_linked hp]
    · rw [descends_cons (fun l' hl' => (hnew l' hl').2) he, ih hlinks hm.2, isLinked_cons, rootIn,
        if_neg (Ne.symm he), or_iff_right (Ne.symm he)]

theorem linkOf_some {l : Link} (h : linkOf links m = some l) : l ∈ links ∧ l.message = m :=
  ⟨List.mem_of_find?_eq_some h, by simpa using List.find?_some h⟩

theorem linkOf_none : linkOf links m = none ↔ ¬ IsLinked links m := by
  rw [linkOf, List.find?_eq_none]
  simp [IsLinked]

/-- The one parent of a message. -/
theorem isReply_iff_of_mem (h : Threaded links) {l : Link} (hl : l ∈ links) :
    IsReply links l.message m ↔ l.parentMessage = m := by
  induction links with
  | nil => cases hl
  | cons l' links ih =>
    obtain ⟨hlinks, _, hnew⟩ := h
    rw [isReply_cons]
    rcases List.mem_cons.mp hl with rfl | hl
    · have hnone : ¬ IsReply links l.message m := by
        rintro ⟨l', hl', heq, -⟩
        exact (hnew l' hl').1 heq
      simp [hnone]
    · have hne : l'.message ≠ l.message := Ne.symm (hnew l hl).1
      rw [ih hlinks hl]
      simp [hne]

/-! ## Counting -/

/-- One element more counts. -/
theorem countP_add {L : List Message} {f g : Message → Bool} {a : Message} (hnodup : L.Nodup)
    (ha : a ∈ L)
    (hf : f a = false) (hg : ∀ x, x ≠ a → g x = f x) : L.countP g = L.countP f + (g a).toNat := by
  induction L with
  | nil => cases ha
  | cons x L ih =>
    obtain ⟨hx, hL⟩ := List.nodup_cons.mp hnodup
    rw [List.countP_cons, List.countP_cons]
    rcases List.mem_cons.mp ha with rfl | ha
    · have hrest : L.countP g = L.countP f := by
        refine List.countP_congr fun y hy => ?_
        rw [hg y (by rintro rfl; exact hx hy)]
      rw [hrest, hf]
      cases g a <;> rfl
    · rw [ih hL ha, hg x (by rintro rfl; exact hx ha)]
      omega

/-- One element is taken out. -/
theorem countP_remove {L : List Message} {f : Message → Bool} {a : Message} (hnodup : L.Nodup)
    (ha : a ∈ L) : L.countP f = (L.filter fun x => x ≠ a).countP f + (f a).toNat := by
  rw [List.countP_filter]
  exact countP_add hnodup ha (by simp) fun x hx => by simp [hx]

/-! ## Rows and what they count -/

structure RowsInv (live : List Message) (links : List Link)
    (rows : List ThreadMetadataRow) : Prop where
  one_row : (rows.map ThreadMetadataRow.message).Nodup
  linked : ∀ l ∈ links, l.message ∈ rows.map ThreadMetadataRow.message
    ∧ l.parentMessage ∈ rows.map ThreadMetadataRow.message
    ∧ rootIn links l.message ∈ rows.map ThreadMetadataRow.message
  replies : ∀ tm ∈ rows, tm.replyCount = (live.countP fun e => IsReply links e tm.message : Nat)
  descendants : ∀ tm ∈ rows, tm.descendantCount
    = (live.countP fun e => IsLinked links e ∧ rootIn links e = tm.message : Nat)

section Rows

variable {live : List Message} {links : List Link} {rows rows' : List ThreadMetadataRow}

/-- A message without a row has no replies and no descendants. -/
theorem RowsInv.unlinked (h : RowsInv live links rows) {m : Message}
    (hm : m ∉ rows.map ThreadMetadataRow.message) :
    ¬ IsLinked links m ∧ (∀ e, ¬ IsReply links e m) ∧ ∀ e, IsLinked links e →
      rootIn links e ≠ m := by
  refine ⟨?_, ?_, ?_⟩
  · rintro ⟨l, hl, rfl⟩
    exact hm (h.linked l hl).1
  · rintro e ⟨l, hl, -, rfl⟩
    exact hm (h.linked l hl).2.1
  · rintro e ⟨l, hl, rfl⟩ rfl
    exact hm (h.linked l hl).2.2

theorem RowsInv.addRow (h : RowsInv live links rows) {row : ThreadMetadataRow}
    (hrow : row.message ∉ rows.map ThreadMetadataRow.message) (hreply : row.replyCount = 0)
    (hdesc : row.descendantCount = 0) : RowsInv live links (row :: rows) := by
  obtain ⟨-, hnoReply, hnoDesc⟩ := h.unlinked hrow
  refine ⟨?_, ?_, ?_, ?_⟩
  · rw [List.map_cons]
    exact List.nodup_cons.mpr ⟨hrow, h.one_row⟩
  · intro l hl
    obtain ⟨hmsg, hparent, hroot⟩ := h.linked l hl
    rw [List.map_cons]
    exact ⟨List.mem_cons_of_mem _ hmsg, List.mem_cons_of_mem _ hparent,
      List.mem_cons_of_mem _ hroot⟩
  · intro tm htm
    rcases List.mem_cons.mp htm with rfl | htm
    · have hzero : live.countP (fun e => decide (IsReply links e tm.message)) = 0 := by
        rw [List.countP_eq_zero]
        intro e _
        simp [hnoReply e]
      rw [hreply, hzero]
      rfl
    · exact h.replies tm htm
  · intro tm htm
    rcases List.mem_cons.mp htm with rfl | htm
    · have hzero : live.countP (fun e => decide (IsLinked links e ∧ rootIn links e = tm.message)) =
          0 := by
        rw [List.countP_eq_zero]
        intro e _
        simpa using hnoDesc e
      rw [hdesc, hzero]
      rfl
    · exact h.descendants tm htm

/-- A new message about which nothing was said. -/
theorem RowsInv.addLive (h : RowsInv live links rows) {e : Message} (he : ¬ IsLinked links e) :
    RowsInv (e :: live) links rows := by
  refine ⟨h.one_row, h.linked, ?_, ?_⟩
  · intro tm htm
    have hno : ¬ IsReply links e tm.message := fun hr => he hr.isLinked
    rw [List.countP_cons_of_neg (by simpa using hno)]
    exact h.replies tm htm
  · intro tm htm
    rw [List.countP_cons_of_neg (by simp [he])]
    exact h.descendants tm htm

/-- The root of a message with a row has a row. -/
theorem RowsInv.root_mem (h : RowsInv live links rows) {m : Message}
    (hm : m ∈ rows.map ThreadMetadataRow.message) :
    rootIn links m ∈ rows.map ThreadMetadataRow.message := by
  by_cases hl : IsLinked links m
  · obtain ⟨l, hmem, rfl⟩ := hl
    exact (h.linked l hmem).2.2
  · rw [rootIn_of_not_linked hl]
    exact hm

/-- A live message becomes a reply, and its parent and its root count one more. -/
theorem RowsInv.link (h : RowsInv live links rows) {l : Link} (hlive : live.Nodup)
    (hmem : l.message ∈ live)
    (hnew : ¬ IsLinked links l.message) (hown : l.message ∈ rows.map ThreadMetadataRow.message)
    (hparent : l.parentMessage ∈ rows.map ThreadMetadataRow.message)
    (hids : rows'.map ThreadMetadataRow.message = rows.map ThreadMetadataRow.message)
    (hrows : ∀ tm' ∈ rows', ∃ tm ∈ rows, tm'.message = tm.message
      ∧ tm'.replyCount = tm.replyCount + (decide (l.parentMessage = tm.message)).toNat
      ∧ tm'.descendantCount =
        tm.descendantCount + (decide (rootIn links l.parentMessage = tm.message)).toNat) :
    RowsInv live (l :: links) rows' := by
  have hother : ∀ e, e ≠ l.message → rootIn (l :: links) e = rootIn links e := by
    intro e he
    rw [rootIn, if_neg (Ne.symm he)]
  have hself : rootIn (l :: links) l.message =
      rootIn links l.parentMessage := by rw [rootIn, if_pos rfl]
  refine ⟨by rw [hids]; exact h.one_row, ?_, ?_, ?_⟩
  · intro l' hl'
    rw [hids]
    rcases List.mem_cons.mp hl' with rfl | hl'
    · rw [hself]
      exact ⟨hown, hparent, h.root_mem hparent⟩
    · have hne : l'.message ≠ l.message := fun heq => hnew ⟨l', hl', heq⟩
      rw [hother _ hne]
      exact h.linked l' hl'
  · intro tm' htm'
    obtain ⟨tm, htm, hmsg, hcount, -⟩ := hrows tm' htm'
    have hadd := countP_add (f := fun e => decide (IsReply links e tm.message))
      (g := fun e => decide (IsReply (l :: links) e tm.message)) hlive hmem
      (by simpa using fun hr => hnew (IsReply.isLinked hr))
      (fun e he => by simp [isReply_cons, Ne.symm he])
    have hone : decide (IsReply (l :: links) l.message tm.message) =
        decide (l.parentMessage = tm.message) := by
      have hno : ¬ IsReply links l.message tm.message := fun hr => hnew hr.isLinked
      simp [isReply_cons, hno]
    rw [hcount, hmsg, h.replies tm htm, hadd, hone]
    exact (Int.natCast_add _ _).symm
  · intro tm' htm'
    obtain ⟨tm, htm, hmsg, -, hcount⟩ := hrows tm' htm'
    have hadd := countP_add (f := fun e => decide (IsLinked links e ∧ rootIn links e = tm.message))
      (g := fun e => decide (IsLinked (l :: links) e ∧
        rootIn (l :: links) e = tm.message)) hlive hmem
      (by simp [hnew]) (fun e he => by simp [isLinked_cons, Ne.symm he, hother e he])
    have hone : decide (IsLinked (l :: links) l.message ∧
        rootIn (l :: links) l.message = tm.message)
        = decide (rootIn links l.parentMessage = tm.message) := by
      simp [isLinked_cons, hself]
    rw [hcount, hmsg, h.descendants tm htm, hadd, hone]
    exact (Int.natCast_add _ _).symm

/-- A live message is deleted, and the counters of its parent and its root go down. -/
theorem RowsInv.remove (h : RowsInv live links rows) (hlive : live.Nodup) {e : Message}
    (hmem : e ∈ live)
    (hids : rows'.map ThreadMetadataRow.message = rows.map ThreadMetadataRow.message)
    (hrows : ∀ tm' ∈ rows', ∃ tm ∈ rows, tm'.message = tm.message
      ∧ tm'.replyCount = (if IsReply links e tm.message then
        max (tm.replyCount - 1) 0 else tm.replyCount)
      ∧ tm'.descendantCount = (if IsLinked links e ∧ rootIn links e = tm.message then
        max (tm.descendantCount - 1) 0
          else tm.descendantCount)) :
    RowsInv (live.filter fun x => x ≠ e) links rows' := by
  refine ⟨by rw [hids]; exact h.one_row, by rw [hids]; exact h.linked, ?_, ?_⟩
  · intro tm' htm'
    obtain ⟨tm, htm, hmsg, hcount, -⟩ := hrows tm' htm'
    have hremove := countP_remove (f := fun x => decide (IsReply links x tm.message)) hlive hmem
    have hold := h.replies tm htm
    rw [hmsg, hcount]
    by_cases hr : IsReply links e tm.message
    · simp only [hr, decide_true, Bool.toNat_true] at hremove
      rw [if_pos hr]
      omega
    · simp only [hr, decide_false, Bool.toNat_false] at hremove
      rw [if_neg hr]
      omega
  · intro tm' htm'
    obtain ⟨tm, htm, hmsg, -, hcount⟩ := hrows tm' htm'
    have hremove := countP_remove (f := fun x =>
      decide (IsLinked links x ∧ rootIn links x = tm.message)) hlive hmem
    have hold := h.descendants tm htm
    rw [hmsg, hcount]
    by_cases hr : IsLinked links e ∧ rootIn links e = tm.message
    · simp only [decide_eq_true hr, Bool.toNat_true] at hremove
      rw [if_pos hr]
      omega
    · simp only [decide_eq_false hr, Bool.toNat_false] at hremove
      rw [if_neg hr]
      omega

end Rows

/-! ## The tables after a call -/

/-- The live messages. -/
def liveIds (s : Store) : List Message :=
  (s.events.filter fun row => !row.deleted).map EventsRow.message

variable {s : Store}

theorem mem_liveIds : m ∈ liveIds s ↔ s.Live m := by
  simp only [liveIds, Store.Live, List.mem_map, List.mem_filter, Bool.not_eq_true']
  constructor
  · rintro ⟨row, ⟨hrow, hlive⟩, hm⟩
    exact ⟨row, hrow, hm, hlive⟩
  · rintro ⟨row, hrow, hm, hlive⟩
    exact ⟨row, ⟨hrow, hlive⟩, hm⟩

theorem nodup_liveIds (h : (s.events.map EventsRow.message).Nodup) : (liveIds s).Nodup :=
  (List.filter_sublist.map EventsRow.message).nodup h

/-- With one timestamp to a message the conflict is on the message. -/
theorem key_mem_iff {row : ThreadMetadataRow} (h : Fits s row.message row.eventCreatedAt) :
    row.key ∈ s.threadMetadata.map ThreadMetadataRow.key ↔
      row.message ∈ s.threadMetadata.map ThreadMetadataRow.message := by
  constructor
  · intro hkey
    obtain ⟨tm, htm, heq⟩ := List.mem_map.mp hkey
    obtain ⟨hc, _, hid⟩ := RowKey.mk.inj heq
    exact List.mem_map.mpr ⟨tm, htm, Prod.ext hc hid⟩
  · intro hmsg
    obtain ⟨tm, htm, heq⟩ := List.mem_map.mp hmsg
    obtain ⟨hc, hid⟩ := Prod.mk.inj heq
    refine List.mem_map.mpr ⟨tm, htm, ?_⟩
    rw [ThreadMetadataRow.key, ThreadMetadataRow.key, hc, hid, h tm htm heq]

@[simp] theorem insertMetadata_events (s : Store) (row : ThreadMetadataRow) :
    (s.insertMetadata row).1.events = s.events := by
  rw [Store.insertMetadata]
  split <;> rfl

theorem insertMetadata_old {row : ThreadMetadataRow} (h : Fits s row.message row.eventCreatedAt)
    (hrow : row.message ∈ s.threadMetadata.map ThreadMetadataRow.message) :
    s.insertMetadata row = (s, false) := by
  rw [Store.insertMetadata, dif_pos ((key_mem_iff h).mpr hrow)]

theorem insertMetadata_new {row : ThreadMetadataRow} (h : Fits s row.message row.eventCreatedAt)
    (hrow : row.message ∉ s.threadMetadata.map ThreadMetadataRow.message) :
    (s.insertMetadata row).2 = true ∧
    (s.insertMetadata row).1.threadMetadata = row :: s.threadMetadata := by
  rw [Store.insertMetadata, dif_neg fun hkey => hrow ((key_mem_iff h).mp hkey)]
  exact ⟨rfl, rfl⟩

/-- A stub is made where there is no row, and counts nothing. -/
theorem insertMetadata_stub {live : List Message} {row : ThreadMetadataRow}
    (h : RowsInv live links s.threadMetadata) (hfits : Fits s row.message row.eventCreatedAt)
    (hreply : row.replyCount = 0) (hdesc : row.descendantCount = 0) :
    RowsInv live links (s.insertMetadata row).1.threadMetadata
      ∧ row.message ∈ (s.insertMetadata row).1.threadMetadata.map ThreadMetadataRow.message
      ∧ (∀ m ∈ s.threadMetadata.map ThreadMetadataRow.message,
          m ∈ (s.insertMetadata row).1.threadMetadata.map ThreadMetadataRow.message)
      ∧ ∀ m t, m ≠ row.message → Fits s m t → Fits (s.insertMetadata row).1 m t := by
  by_cases hrow : row.message ∈ s.threadMetadata.map ThreadMetadataRow.message
  · rw [insertMetadata_old hfits hrow]
    exact ⟨h, hrow, fun m hm => hm, fun m t _ hm => hm⟩
  obtain ⟨-, hnew⟩ := insertMetadata_new hfits hrow
  rw [hnew]
  refine ⟨h.addRow hrow hreply hdesc, List.mem_cons_self, fun m hm => List.mem_cons_of_mem _ hm, ?_⟩
  intro m t hne hm tm htm heq
  rw [hnew] at htm
  rcases List.mem_cons.mp htm with rfl | htm
  · exact absurd heq.symm hne
  · exact hm tm htm heq

/-- Every row comes from one of the same message, with what `R` says of the two. -/
structure Updated (s s' : Store) (R : ThreadMetadataRow → ThreadMetadataRow → Prop) : Prop where
  events : s'.events = s.events
  ids : s'.threadMetadata.map ThreadMetadataRow.message =
    s.threadMetadata.map ThreadMetadataRow.message
  rows : ∀ tm' ∈ s'.threadMetadata, ∃ tm ∈ s.threadMetadata, tm'.message = tm.message ∧ R tm tm'

theorem updateMetadata_updated {f : ThreadMetadataRow → ThreadMetadataRow}
    {hf : ∀ tm, (f tm).key = tm.key} {R : ThreadMetadataRow → ThreadMetadataRow → Prop}
    (hthere : ∀ tm, tm.message = m → R tm (f tm)) (helse : ∀ tm, tm.message ≠ m → R tm tm) :
    Updated s (s.updateMetadata m f hf) R := by
  have hmsg : ∀ tm, (if tm.message = m then f tm else tm).message = tm.message := by
    intro tm
    split
    · obtain ⟨hc, _, hid⟩ := RowKey.mk.inj (hf tm)
      exact Prod.ext hc hid
    · rfl
  refine ⟨rfl, ?_, ?_⟩
  · show (s.threadMetadata.map _).map _ = _
    rw [List.map_map]
    exact List.map_congr_left fun tm _ => hmsg tm
  · intro tm' htm'
    obtain ⟨tm, htm, rfl⟩ := List.mem_map.mp htm'
    refine ⟨tm, htm, hmsg tm, ?_⟩
    split
    · rename_i h
      exact hthere tm h
    · rename_i h
      exact helse tm h

theorem Updated.trans {s' s'' : Store} {R R' R'' : ThreadMetadataRow → ThreadMetadataRow → Prop}
    (h : Updated s s' R) (h' : Updated s' s'' R')
    (hR : ∀ tm tm' tm'', tm'.message = tm.message → R tm tm' → R' tm' tm'' → R'' tm tm'') :
    Updated s s'' R'' := by
  refine ⟨h'.events.trans h.events, h'.ids.trans h.ids, ?_⟩
  intro tm'' htm''
  obtain ⟨tm', htm', hmsg', hr'⟩ := h'.rows tm'' htm''
  obtain ⟨tm, htm, hmsg, hr⟩ := h.rows tm' htm'
  exact ⟨tm, htm, hmsg'.trans hmsg, hR tm tm' tm'' hmsg hr hr'⟩

theorem incrementReplyCount_ok {s' : Store} {now : Int} (h : s.incrementReplyCount m now = .ok s') :
    Updated s s' fun tm tm' =>
      tm'.replyCount = tm.replyCount + (decide (m = tm.message)).toNat ∧
        tm'.descendantCount = tm.descendantCount := by
  rw [Store.incrementReplyCount] at h
  split at h
  · cases h
  · cases h
    exact updateMetadata_updated (fun tm htm => by simp [htm]) (fun tm htm => by simp [Ne.symm htm])

theorem incrementDescendantCount_ok {s' : Store} (h : s.incrementDescendantCount m = .ok s') :
    Updated s s' fun tm tm' =>
      tm'.replyCount = tm.replyCount ∧
        tm'.descendantCount = tm.descendantCount + (decide (m = tm.message)).toNat := by
  rw [Store.incrementDescendantCount] at h
  split at h
  · cases h
  · cases h
    exact updateMetadata_updated (fun tm htm => by simp [htm]) (fun tm htm => by simp [Ne.symm htm])

theorem decrementReplyCount_updated (s : Store) (m : Message) :
    Updated s (s.decrementReplyCount m) fun tm tm' =>
      tm'.replyCount = (if m = tm.message then max (tm.replyCount - 1) 0 else tm.replyCount)
        ∧ tm'.descendantCount = tm.descendantCount :=
  updateMetadata_updated (fun tm htm => by simp [htm]) (fun tm htm => by simp [Ne.symm htm])

theorem decrementDescendantCount_updated (s : Store) (m : Message) :
    Updated s (s.decrementDescendantCount m) fun tm tm' =>
      tm'.replyCount = tm.replyCount
        ∧ tm'.descendantCount = (if m = tm.message then
          max (tm.descendantCount - 1) 0 else tm.descendantCount) :=
  updateMetadata_updated (fun tm htm => by simp [htm]) (fun tm htm => by simp [Ne.symm htm])

/-! ## Metadata is inserted -/

section Insert

variable {s s' : Store} {communityId : CommunityId} {p : ThreadMetadataParams}
    {parent root : EventId} {now : Int}
  {live : List Message} {links : List Link}

/-- With the stubs the parent has a row, and nothing else about the counts has changed. -/
theorem ensureStubs_inv (h : RowsInv live links s.threadMetadata)
    (hparent : Fits s (communityId, parent) p.parentTs)
    (hroot : ∀ root, p.rootEventId = some root → root ≠ parent →
      Fits s (communityId, root) p.rootTs) :
    RowsInv live links (ensureStubs s communityId p parent).threadMetadata
      ∧ (communityId, parent) ∈
        (ensureStubs s communityId p parent).threadMetadata.map ThreadMetadataRow.message
      ∧ (∀ m ∈ s.threadMetadata.map ThreadMetadataRow.message,
          m ∈ (ensureStubs s communityId p parent).threadMetadata.map ThreadMetadataRow.message)
      ∧ (ensureStubs s communityId p parent).events = s.events := by
  obtain ⟨hrows, hmem, hkeep, hfits⟩ :=
    @insertMetadata_stub _ _ _ (p.stub communityId p.parentTs parent) h hparent rfl rfl
  rw [ensureStubs]
  cases hr : p.rootEventId with
  | none => exact ⟨hrows, hmem, hkeep, insertMetadata_events _ _⟩
  | some root =>
    by_cases hne : root ≠ parent
    · have hother : (communityId, root) ≠ (p.stub communityId p.parentTs parent).message := by
        intro heq
        exact hne (Prod.mk.inj heq).2
      obtain ⟨hrows', -, hkeep', -⟩ :=
        @insertMetadata_stub _ _ _ (p.stub communityId p.rootTs root) hrows
        (hfits _ _ hother (hroot root hr hne)) rfl rfl
      simp only [if_pos hne]
      exact ⟨hrows', hkeep' _ hmem, fun m hm => hkeep' m (hkeep m hm), by simp⟩
    · simp only [if_neg hne]
      exact ⟨hrows, hmem, hkeep, insertMetadata_events _ _⟩

/-- The updates add one to a counter of the parent and one of the root. -/
theorem bumpCounters_ok (hroot : p.rootEventId = some root)
    (h : bumpCounters s communityId p parent now = .ok s') : Updated s s' fun tm tm' =>
      tm'.replyCount = tm.replyCount + (decide ((communityId, parent) = tm.message)).toNat
        ∧ tm'.descendantCount =
          tm.descendantCount + (decide ((communityId, root) = tm.message)).toNat := by
  rw [bumpCounters] at h
  split at h
  · cases h
  rename_i s₁ hreply
  rw [hroot] at h
  refine (incrementReplyCount_ok hreply).trans (incrementDescendantCount_ok h) ?_
  rintro tm tm' tm'' hmsg ⟨hr, hd⟩ ⟨hr', hd'⟩
  rw [hr', hd', hr, hd, hmsg]
  exact ⟨rfl, rfl⟩

/-- Metadata without parent, for a message that has no row. -/
theorem insertThreadMetadata_plain (hrows : RowsInv live links s.threadMetadata)
    (hfits : Fits s (p.message communityId) p.eventCreatedAt)
    (hnew : p.message communityId ∉ s.threadMetadata.map ThreadMetadataRow.message)
    (hparent : p.parentEventId = none) (h : insertThreadMetadata s communityId p now = .ok s') :
    RowsInv live links s'.threadMetadata ∧ s'.events = s.events := by
  obtain ⟨hflag, htms⟩ := @insertMetadata_new _ (p.row communityId) hfits hnew
  have hevents := insertMetadata_events s (p.row communityId)
  rw [insertThreadMetadata] at h
  generalize s.insertMetadata (p.row communityId) = inserted at h hflag htms hevents
  obtain ⟨s₁, flag⟩ := inserted
  cases hflag
  simp only [hparent] at h
  cases h
  rw [htms]
  exact ⟨hrows.addRow hnew rfl rfl, hevents⟩

/-- The row of a live message becomes that of a reply. -/
theorem insertThreadMetadata_reply (hrows : RowsInv live links s.threadMetadata)
    (hlive : live.Nodup)
    (hmem : p.message communityId ∈ live) (hparent : p.parentEventId = some parent)
    (hplaces : Places ⟨s, links⟩ communityId p parent)
    (h : insertThreadMetadata s communityId p now = .ok s') :
    RowsInv live (⟨p.message communityId, parent⟩ :: links) s'.threadMetadata ∧
      s'.events = s.events := by
  have hfits : Fits s (p.message communityId) p.eventCreatedAt := by
    intro tm htm heq
    exact absurd (List.mem_map.mpr ⟨tm, htm, heq⟩) hplaces.own_absent
  have hunlinked := (hrows.unlinked hplaces.own_absent).1
  have hrootmsg : (communityId, (rootIn links (communityId, parent)).2) =
      rootIn links (communityId, parent) :=
    Prod.ext (rootIn_community links (communityId, parent)).symm rfl
  have hne : ∀ id, (communityId, id) ∈ s.threadMetadata.map ThreadMetadataRow.message ∨
      id = parent → (communityId, id) ≠ p.message communityId := by
    rintro id (hid | rfl) heq
    · exact hplaces.own_absent (heq ▸ hid)
    · exact hplaces.not_itself (Prod.mk.inj heq).2
  obtain ⟨hflag, htms⟩ := @insertMetadata_new _ (p.row communityId) hfits hplaces.own_absent
  have hevents := insertMetadata_events s (p.row communityId)
  obtain ⟨hrows₁, hown, -, hkeepFits⟩ :=
    @insertMetadata_stub _ _ _ (p.row communityId) hrows hfits rfl rfl
  rw [insertThreadMetadata] at h
  generalize s.insertMetadata (p.row communityId) =
    inserted at h hflag htms hevents hrows₁ hown hkeepFits
  obtain ⟨s₁, flag⟩ := inserted
  cases hflag
  simp only [hparent] at h
  have hparentFits : Fits s₁ (communityId, parent) p.parentTs :=
    hkeepFits _ _ (hne parent (.inr rfl)) hplaces.parent_fits
  have hrootFits : ∀ root, p.rootEventId = some root → root ≠ parent →
      Fits s₁ (communityId, root) p.rootTs := by
    intro root hroot hrne
    have hrooteq : root = (rootIn links (communityId, parent)).2 :=
      Option.some.inj (hroot.symm.trans hplaces.root_eq)
    have hfitsRoot := hplaces.root_fits (by rw [hroot]; exact fun heq => hrne (Option.some.inj heq))
    have hmsg : (communityId, root) =
        rootIn links (communityId, parent) := by rw [hrooteq, hrootmsg]
    rw [hmsg]
    refine hkeepFits _ _ ?_ hfitsRoot
    -- The root of a reply that is there has a row; otherwise the root is the parent.
    by_cases hlinked : IsLinked links (communityId, parent)
    · obtain ⟨l, hl, heq⟩ := hlinked
      have hmemRoot := (hrows.linked l hl).2.2
      rw [heq] at hmemRoot
      intro hsame
      rw [hsame] at hmemRoot
      exact hplaces.own_absent hmemRoot
    · rw [rootIn_of_not_linked hlinked] at hmsg
      exact absurd (Prod.mk.inj hmsg).2 hrne
  obtain ⟨hrows₂, hparentMem, hkeep, hevents₂⟩ := ensureStubs_inv hrows₁ hparentFits hrootFits
  have hcounts := bumpCounters_ok hplaces.root_eq h
  refine ⟨?_, by rw [hcounts.events, hevents₂, hevents]⟩
  refine hrows₂.link hlive hmem hunlinked (hkeep _ hown) hparentMem hcounts.ids ?_
  intro tm' htm'
  obtain ⟨tm, htm, hmsg, hreply, hdesc⟩ := hcounts.rows tm' htm'
  refine ⟨tm, htm, hmsg, hreply, ?_⟩
  rw [hdesc]
  show _ = tm.descendantCount +
    ((decide (rootIn links (communityId, parent) = tm.message)).toNat : Int)
  rw [← hrootmsg]

end Insert

/-! ## The invariant -/

structure Inv (s : State) : Prop where
  /-- An id has one event. -/
  one_event : (s.store.events.map EventsRow.message).Nodup
  /-- Things are said about events that are there. -/
  known : ∀ l ∈ s.links, l.message ∈ s.store.events.map EventsRow.message
  threaded : Threaded s.links
  rows : RowsInv (liveIds s.store) s.links s.store.threadMetadata

theorem inv_init : Inv State.empty where
  one_event := List.nodup_nil
  known := by simp [State.empty]
  threaded := trivial
  rows := ⟨List.nodup_nil, by simp [State.empty], by simp [State.empty], by simp [State.empty]⟩

section Step

variable {s : State} {store : Store} {communityId : CommunityId}
    {p : ThreadMetadataParams} {now : Int}

/-- Nothing new is said by metadata without a parent, or again. -/
theorem declare_said (h : store.Live (p.message communityId) →
      ∀ parent ∈ p.parentEventId, (⟨p.message communityId, parent⟩ : Link) ∈ s.links) :
    declare s.links store communityId p = s.links := by
  rw [declare]
  split
  · rfl
  rename_i parent hparent
  rw [if_neg]
  rintro ⟨hlive, hnew⟩
  exact hnew (h hlive parent hparent)

/-- Metadata for a message; if a row is there, it is a thread root's. -/
theorem inv_insertThreadMetadata (h : Inv s)
    (hfits : Fits s.store (p.message communityId) p.eventCreatedAt)
    (hparent : ∀ parent ∈ p.parentEventId, s.store.Live (p.message communityId) ∧
      Places s communityId p parent)
    (hok : insertThreadMetadata s.store communityId p now = .ok store) :
    Inv ⟨store, declare s.links store communityId p⟩ := by
  by_cases hnew : p.message communityId ∈ s.store.threadMetadata.map ThreadMetadataRow.message
  · have hsame := @insertMetadata_old _ (p.row communityId) hfits hnew
    rw [insertThreadMetadata, hsame] at hok
    rw [← Except.ok.inj hok, declare_said fun _ parent hp =>
      absurd hnew (hparent parent hp).2.own_absent]
    exact h
  cases hp : p.parentEventId with
  | none =>
    obtain ⟨hrows, hevents⟩ := insertThreadMetadata_plain h.rows hfits hnew hp hok
    have hlinks : declare s.links store communityId p = s.links := declare_said (by simp [hp])
    have hlive : liveIds store = liveIds s.store := by rw [liveIds, liveIds, hevents]
    rw [hlinks]
    exact ⟨by rw [hevents]; exact h.one_event, by rw [hevents]; exact h.known,
      h.threaded, by rw [hlive]; exact hrows⟩
  | some parent =>
    obtain ⟨hliveMsg, hplaces⟩ := hparent parent hp
    have hmem := mem_liveIds.mpr hliveMsg
    obtain ⟨hunlinked, hnoReply, -⟩ := h.rows.unlinked hnew
    obtain ⟨hrows, hevents⟩ :=
      insertThreadMetadata_reply h.rows (nodup_liveIds h.one_event) hmem hp hplaces hok
    have hlive : liveIds store = liveIds s.store := by rw [liveIds, liveIds, hevents]
    have hlinks : declare s.links store communityId p = ⟨p.message communityId,
        parent⟩ :: s.links := by
      have hnotMem : (⟨p.message communityId, parent⟩ : Link) ∉ s.links := fun hl =>
        hunlinked ⟨_, hl, rfl⟩
      have hliveStore : store.Live (p.message communityId) := by
        rw [← mem_liveIds, hlive]
        exact hmem
      simp only [declare, hp]
      rw [if_pos ⟨hliveStore, hnotMem⟩]
    rw [hlinks]
    refine ⟨by rw [hevents]; exact h.one_event, ?_, ?_, by rw [hlive]; exact hrows⟩
    · rw [hevents]
      refine List.forall_mem_cons.mpr ⟨?_, h.known⟩
      obtain ⟨row, hrow, hmsg, -⟩ := hliveMsg
      exact List.mem_map.mpr ⟨row, hrow, hmsg⟩
    · refine ⟨h.threaded, fun heq => hplaces.not_itself (Prod.mk.inj heq).2, ?_⟩
      intro l hl
      exact ⟨fun heq => hunlinked ⟨l, hl, heq⟩, fun heq => hnoReply l.message ⟨l, hl, rfl, heq⟩⟩

theorem inv_insertMetadata (h : Inv s) (ho : Orderly s (.insertMetadata communityId p now)) :
    Inv (call s (.insertMetadata communityId p now)) := by
  rw [call]
  rw [Orderly] at ho
  split
  · exact h
  rename_i hok
  split at ho
  · -- The row is there already.
    rename_i hkey
    have hsame : insertThreadMetadata s.store communityId p now = .ok s.store := by
      rw [insertThreadMetadata, Store.insertMetadata, dif_pos hkey]
    rw [hsame] at hok
    cases hok
    rw [declare_said ho]
    exact h
  · exact inv_insertThreadMetadata h ho.1 ho.2 hok

theorem fromTimestamp_some {secs : Int} {t : DateTime} (h : DateTime.fromTimestamp secs = some t) :
    t.secs = secs := by
  rw [DateTime.fromTimestamp] at h
  split at h
  · rw [← Option.some.inj h]
  · cases h

/-- What a successful call did: the event was there, or its row is new and the metadata follows. -/
theorem insertEventWithThreadMetadata_ok {st : Store} {ev : SignedEvent} {channelId : Option Uuid}
    {threadMeta : Option ThreadMetadataParams} {stored : StoredEvent} {inserted : Bool}
    (h : insertEventWithThreadMetadata st communityId ev channelId threadMeta now = .ok
      (store, stored, inserted)) :
    ∃ row : EventsRow, ∃ hkind, row.message = (communityId, ev.event.id) ∧
      row.createdAt.secs = asI64 ev.event.createdAt ∧ row.deleted = false
      ∧ ((row.key ∈ st.events.map EventsRow.key ∧ store = st)
        ∨ (row.key ∉ st.events.map EventsRow.key ∧ match threadMeta with
            | none => store = (st.insertEvent row hkind).1
            | some p => insertThreadMetadata (st.insertEvent row hkind).1 communityId p now =
                .ok store)) := by
  rw [insertEventWithThreadMetadata] at h
  split at h
  · cases h
  split at h
  · cases h
  split at h
  · cases h
  rename_i createdAt hts
  refine ⟨eventsRow communityId ev createdAt channelId now, eventsRow_kind .., rfl,
    fromTimestamp_some hts, rfl, ?_⟩
  by_cases hkey : (eventsRow communityId ev createdAt channelId now).key ∈
    st.events.map EventsRow.key
  · rw [Store.insertEvent, dif_pos hkey] at h
    cases h
    exact .inl ⟨hkey, rfl⟩
  refine .inr ⟨hkey, ?_⟩
  rw [Store.insertEvent, dif_neg hkey] at h ⊢
  cases threadMeta with
  | none =>
    cases h
    rfl
  | some p =>
    simp only at h ⊢
    cases hmeta : insertThreadMetadata _ communityId p now with
    | error e =>
      rw [hmeta] at h
      cases h
    | ok st' =>
      rw [hmeta] at h
      cases h
      rfl

/-- A new event row: one more live message, about which nothing was said. -/
theorem inv_insertEvent_row (h : Inv s) {row : EventsRow} {hkind : 0 ≤ row.kind ∧ row.kind < 65536}
    (hkey : row.key ∉ s.store.events.map EventsRow.key)
    (hmsg : row.message ∉ s.store.events.map EventsRow.message)
    (hlive : row.deleted = false) : Inv ⟨(s.store.insertEvent row hkind).1, s.links⟩ := by
  have hunlinked : ¬ IsLinked s.links row.message := by
    rintro ⟨l, hl, heq⟩
    exact hmsg (heq ▸ h.known l hl)
  rw [Store.insertEvent, dif_neg hkey]
  refine ⟨List.nodup_cons.mpr ⟨hmsg, h.one_event⟩, fun l hl =>
    List.mem_cons_of_mem _ (h.known l hl), h.threaded, ?_⟩
  have hids : ((row :: s.store.events).filter fun r => !r.deleted).map EventsRow.message
      = row.message :: liveIds s.store := by
    rw [List.filter_cons_of_pos (by simp [hlive]), List.map_cons]
    rfl
  show RowsInv (((row :: s.store.events).filter fun r => !r.deleted).map EventsRow.message) _ _
  rw [hids]
  exact h.rows.addLive hunlinked

theorem inv_insertEvent {ev : SignedEvent} {channelId : Option Uuid}
    {threadMeta : Option ThreadMetadataParams}
    (h : Inv s) (ho : Orderly s (.insertEvent communityId ev channelId threadMeta now)) :
    Inv (call s (.insertEvent communityId ev channelId threadMeta now)) := by
  obtain ⟨hstamp, hmeta⟩ := ho
  rw [call]
  split
  · exact h
  rename_i store stored inserted hok
  obtain ⟨row, hkind, hmsg, hsecs, hlive, hcases⟩ := insertEventWithThreadMetadata_ok hok
  have hmsgKey : row.message ∈ s.store.events.map EventsRow.message →
      row.key ∈ s.store.events.map EventsRow.key := by
    intro hmem
    obtain ⟨old, hold, heq⟩ := List.mem_map.mp hmem
    have hts : old.createdAt = row.createdAt :=
      DateTime.ext ((hstamp old hold (heq.trans hmsg)).trans hsecs.symm)
    obtain ⟨hc, hid⟩ := Prod.mk.inj heq
    refine List.mem_map.mpr ⟨old, hold, ?_⟩
    rw [EventsRow.key, EventsRow.key, hc, hid, hts]
  rcases hcases with ⟨hkey, rfl⟩ | ⟨hkey, hstore⟩
  · -- A duplicate: the metadata is not looked at.
    cases threadMeta with
    | none => exact h
    | some p =>
      obtain ⟨hid, -, hrest⟩ := hmeta p rfl
      have hthere : (communityId, ev.event.id) ∈ s.store.events.map EventsRow.message := by
        obtain ⟨old, hold, heq⟩ := List.mem_map.mp hkey
        obtain ⟨hc, _, hid⟩ := RowKey.mk.inj heq
        exact List.mem_map.mpr ⟨old, hold, (Prod.ext hc hid : old.message = row.message).trans hmsg⟩
      rw [if_pos hthere] at hrest
      simp only [declare_said hrest]
      exact h
  · have hfresh : row.message ∉ s.store.events.map EventsRow.message := fun hmem =>
      hkey (hmsgKey hmem)
    have hnew := @inv_insertEvent_row _ h _ hkind hkey hfresh hlive
    cases threadMeta with
    | none =>
      rw [hstore]
      exact hnew
    | some p =>
      obtain ⟨hid, -, hrest⟩ := hmeta p rfl
      rw [if_neg (hmsg ▸ hfresh)] at hrest
      obtain ⟨hfits, hparent⟩ := hrest
      have hpmsg : p.message communityId =
          row.message := by rw [hmsg, ThreadMetadataParams.message, hid]
      have hnewStore : (s.store.insertEvent row hkind).1.threadMetadata = s.store.threadMetadata
          ∧ (s.store.insertEvent row hkind).1.Live (p.message communityId) := by
        rw [Store.insertEvent, dif_neg hkey]
        exact ⟨rfl, row, List.mem_cons_self, hpmsg.symm, hlive⟩
      have hfitsNew : ∀ {m t}, Fits s.store m t → Fits (s.store.insertEvent row hkind).1 m t := by
        intro m t hm tm htm
        rw [hnewStore.1] at htm
        exact hm tm htm
      refine inv_insertThreadMetadata (s := ⟨(s.store.insertEvent row hkind).1, s.links⟩) hnew
        (hfitsNew hfits) ?_ hstore
      intro parent hp
      have hplaces := hparent parent hp
      refine ⟨hnewStore.2, ?_, hplaces.not_itself, hplaces.root_eq,
        hfitsNew hplaces.parent_fits, ?_⟩
      · rw [hnewStore.1]
        exact hplaces.own_absent
      · intro hroot
        exact hfitsNew (hplaces.root_fits hroot)

/-! ### Deleting -/

variable {eventId : EventId}

theorem softDeleteEvent_spec (st : Store) :
    (softDeleteEvent st communityId eventId).1.threadMetadata = st.threadMetadata
      ∧ (softDeleteEvent st communityId eventId).1.events.map EventsRow.message =
        st.events.map EventsRow.message
      ∧ liveIds (softDeleteEvent st communityId eventId).1
        = (liveIds st).filter fun m => m ≠ (communityId, eventId) := by
  have hmsg : ∀ row, (markDeleted (communityId, eventId) row).message = row.message := by
    intro row
    rw [markDeleted]
    split <;> rfl
  refine ⟨rfl, ?_, ?_⟩
  · show (st.events.map _).map _ = _
    rw [List.map_map]
    exact List.map_congr_left fun row _ => hmsg row
  · show (((st.events.map (markDeleted (communityId, eventId))).filter fun row =>
      !row.deleted).map EventsRow.message) = _
    rw [liveIds]
    induction st.events with
    | nil => rfl
    | cons row rows ih =>
      rw [List.map_cons, List.filter_cons, List.filter_cons]
      by_cases hrow : row.message = (communityId, eventId)
      · cases hdel : row.deleted <;> simp [markDeleted, hrow, ih]
      · cases hdel : row.deleted <;> simp [markDeleted, hrow, hdel, ih]

/-- Nothing is deleted where nothing is live. -/
theorem inv_delete_absent (h : Inv s) (hlive : ¬ s.store.Live (communityId, eventId)) :
    Inv ⟨(softDeleteEvent s.store communityId eventId).1, s.links⟩ := by
  obtain ⟨htms, hevents, hids⟩ := @softDeleteEvent_spec communityId eventId s.store
  have hsame : liveIds (softDeleteEvent s.store communityId eventId).1 = liveIds s.store := by
    rw [hids, List.filter_eq_self]
    intro m hm
    simp only [decide_eq_true_eq]
    rintro rfl
    exact hlive (mem_liveIds.mp hm)
  refine ⟨?_, ?_, h.threaded, ?_⟩
  · show ((softDeleteEvent s.store communityId eventId).1.events.map EventsRow.message).Nodup
    rw [hevents]
    exact h.one_event
  · show ∀ l ∈ s.links,
      l.message ∈ (softDeleteEvent s.store communityId eventId).1.events.map EventsRow.message
    rw [hevents]
    exact h.known
  · rw [hsame]
    exact h.rows

/-- A live message is deleted with the counters that count it. -/
theorem inv_delete (h : Inv s) (hlive : s.store.Live (communityId, eventId)) {store : Store}
    (hupdated : Updated (softDeleteEvent s.store communityId eventId).1 store fun tm tm' =>
      tm'.replyCount = (if IsReply s.links (communityId, eventId) tm.message then
        max (tm.replyCount - 1) 0
          else tm.replyCount)
        ∧ tm'.descendantCount = (if IsLinked s.links (communityId, eventId)
            ∧ rootIn s.links (communityId, eventId) = tm.message then max (tm.descendantCount - 1) 0
          else tm.descendantCount)) : Inv ⟨store, s.links⟩ := by
  obtain ⟨htms, hevents, hids⟩ := @softDeleteEvent_spec communityId eventId s.store
  have hstore : store.events.map EventsRow.message = s.store.events.map EventsRow.message := by
    rw [hupdated.events, hevents]
  have hliveIds : liveIds store = (liveIds s.store).filter fun m => m ≠ (communityId, eventId) := by
    rw [← hids, liveIds, liveIds, hupdated.events]
  refine ⟨?_, ?_, h.threaded, ?_⟩
  · show (store.events.map EventsRow.message).Nodup
    rw [hstore]
    exact h.one_event
  · show ∀ l ∈ s.links, l.message ∈ store.events.map EventsRow.message
    rw [hstore]
    exact h.known
  · show RowsInv (liveIds store) s.links store.threadMetadata
    rw [hliveIds]
    exact h.rows.remove (nodup_liveIds h.one_event) (mem_liveIds.mpr hlive)
      (hupdated.ids.trans (by rw [htms])) (by rw [← htms]; exact hupdated.rows)

theorem Updated.refl_of {st : Store} {R : ThreadMetadataRow → ThreadMetadataRow → Prop}
    (h : ∀ tm, R tm tm) : Updated st st R :=
  ⟨rfl, rfl, fun tm htm => ⟨tm, htm, rfl, h tm⟩⟩

/-- A message about which nothing was said is deleted without counters. -/
theorem inv_softDelete_unlinked (h : Inv s)
    (ho : s.store.Live (communityId, eventId) → linkOf s.links (communityId, eventId) = none) :
    Inv ⟨(softDeleteEvent s.store communityId eventId).1, s.links⟩ := by
  by_cases hlive : s.store.Live (communityId, eventId)
  · have hunlinked := linkOf_none.mp (ho hlive)
    refine inv_delete h hlive (Updated.refl_of fun tm => ?_)
    have hno : ¬ IsReply s.links (communityId, eventId) tm.message := fun hr =>
      hunlinked hr.isLinked
    simp [hno, hunlinked]
  · exact inv_delete_absent h hlive

theorem inv_softDeleteAndUpdate {parentEventId rootEventId : Option EventId} (h : Inv s)
    (ho : Orderly s (.softDeleteAndUpdate communityId eventId parentEventId rootEventId)) :
    Inv (call s (.softDeleteAndUpdate communityId eventId parentEventId rootEventId)) := by
  rw [Orderly] at ho
  rw [call]
  by_cases hlive : s.store.Live (communityId, eventId)
  · obtain ⟨hparent, hroot⟩ := ho hlive
    have hflag : (softDeleteEvent s.store communityId eventId).2 = true := decide_eq_true hlive
    cases hlink : linkOf s.links (communityId, eventId) with
    | none =>
      rw [hlink, Option.map_none] at hparent
      have hsame : (softDeleteEventAndUpdateThread s.store communityId eventId parentEventId
          rootEventId).1 = (softDeleteEvent s.store communityId eventId).1 := by
        rw [softDeleteEventAndUpdateThread, hparent]
        split <;> simp_all
      rw [hsame]
      exact inv_softDelete_unlinked h fun _ => hlink
    | some l =>
      obtain ⟨hl, hmsg⟩ := linkOf_some hlink
      rw [hlink, Option.map_some] at hparent
      have hrootEq := hroot (by rw [hparent]; simp)
      have hstore : (softDeleteEventAndUpdateThread s.store communityId eventId parentEventId
          rootEventId).1
          = ((softDeleteEvent s.store communityId eventId).1.decrementReplyCount
            (communityId, l.parent)).decrementDescendantCount
              (communityId, (rootIn s.links (communityId, eventId)).2) := by
        rw [softDeleteEventAndUpdateThread, hparent, hrootEq]
        split <;> simp_all
      rw [hstore]
      refine inv_delete h hlive
        ((decrementReplyCount_updated _ _).trans (decrementDescendantCount_updated _ _) ?_)
      rintro tm tm' tm'' hsame ⟨hr, hd⟩ ⟨hr', hd'⟩
      have hparentMsg : (communityId, l.parent) =
          l.parentMessage := by rw [Link.parentMessage, hmsg]
      have hrootMsg : (communityId, (rootIn s.links (communityId, eventId)).2) =
          rootIn s.links (communityId, eventId) :=
        Prod.ext (rootIn_community s.links (communityId, eventId)).symm rfl
      have hreply : IsReply s.links (communityId, eventId) tm.message ↔
          l.parentMessage = tm.message := by
        rw [← hmsg]
        exact isReply_iff_of_mem h.threaded hl
      have hlinked : IsLinked s.links (communityId, eventId) := ⟨l, hl, hmsg⟩
      rw [hr', hd', hr, hd, hsame, hparentMsg, hrootMsg]
      simp [hreply, hlinked]
  · have hflag : (softDeleteEvent s.store communityId eventId).2 = false := decide_eq_false hlive
    have hsame : (softDeleteEventAndUpdateThread s.store communityId eventId parentEventId
        rootEventId).1 = (softDeleteEvent s.store communityId eventId).1 := by
      rw [softDeleteEventAndUpdateThread]
      split <;> simp_all
    rw [hsame]
    exact inv_delete_absent h hlive

theorem inv_step {c : Call} {s' : State} (h : Inv s) (ho : Orderly s c)
    (hstep : threads.step s c = some s') : Inv s' := by
  cases hstep
  cases c with
  | insertEvent => exact inv_insertEvent h ho
  | insertMetadata => exact inv_insertMetadata h ho
  | softDelete => exact inv_softDelete_unlinked h ho
  | softDeleteAndUpdate => exact inv_softDeleteAndUpdate h ho

end Step

theorem inv_run {calls : List Call} {s s' : State} (h : Inv s) (ho : threads.Always Orderly s calls)
    (hrun : threads.run s calls = some s') : Inv s' :=
  Machine.invariant (fun _ _ _ hs ho hstep => inv_step hs ho hstep) h ho hrun

/-! ## The counters -/

theorem countIs_countP {s : State} {f : Message → Prop} [DecidablePred f] (h : Inv s) :
    CountIs (fun e => s.store.Live e ∧ f e) ((liveIds s.store).countP fun e => f e : Nat) := by
  refine ⟨(liveIds s.store).filter fun e => f e, (nodup_liveIds h.one_event).filter _, ?_, ?_⟩
  · intro e
    rw [List.mem_filter, mem_liveIds, decide_eq_true_eq]
  · rw [List.countP_eq_length_filter]

theorem Inv.exact {s : State} (h : Inv s) : Exact s where
  one_row := h.rows.one_row
  replies := by
    intro tm htm _
    rw [h.rows.replies tm htm]
    exact countIs_countP h
  descendants := by
    intro tm htm _ hroot
    have hunlinked : ¬ IsLinked s.links tm.message := by
      rintro ⟨l, hl, heq⟩
      exact hroot _ ⟨l, hl, heq, rfl⟩
    have hcount := countIs_countP (f := fun e =>
      IsLinked s.links e ∧ rootIn s.links e = tm.message) h
    rw [h.rows.descendants tm htm]
    obtain ⟨l, hnodup, hmem, hlen⟩ := hcount
    refine ⟨l, hnodup, ?_, hlen⟩
    intro e
    rw [hmem]
    exact and_congr_right fun _ => (descends_iff h.threaded hunlinked).symm
  nonneg := by
    intro tm htm
    rw [h.rows.replies tm htm, h.rows.descendants tm htm]
    exact ⟨Int.natCast_nonneg _, Int.natCast_nonneg _⟩

/-! ### A thread -/

namespace Sample

def community : CommunityId := ⟨FixedBytes.ofNat 16 1⟩

def channel : Uuid := FixedBytes.ofNat 16 2

def author : PublicKey := FixedBytes.ofNat 32 3

/-- Message `n` is written at second `n`. -/
def id (n : Nat) : EventId := FixedBytes.ofNat 32 n

def secs (n : Nat) : Option DateTime := DateTime.fromTimestamp n

def post (n : Nat) (threadMeta : Option ThreadMetadataParams) : Call :=
  .insertEvent community ⟨⟨id n, author, n, 9, []⟩, "hi",
    FixedBytes.ofNat 64 4⟩ (some channel) threadMeta 0

/-- Metadata of message `n`, a reply to `parent` under `root`, with the timestamp given for the
root. -/
def replyTo (n parent root rootSecs : Nat) : Option ThreadMetadataParams :=
  (secs n).map fun eventCreatedAt =>
    { eventId := id n, eventCreatedAt, channelId := channel
      parentEventId := some (id parent), parentEventCreatedAt := secs parent
      rootEventId := some (id root), rootEventCreatedAt := secs rootSecs
      depth := if parent = root then 1 else 2, broadcast := false }

/-- A root, a reply to it, a reply to that, the first reply deleted and posted again, and a reply
to a message that comes later. -/
def orderly : List Call :=
  [post 10 none, post 11 (replyTo 11 10 10 10), post 12 (replyTo 12 11 10 10),
    .softDeleteAndUpdate community (id 11) (some (id 10)) (some (id 10)),
      post 11 (replyTo 11 10 10 10),
    post 14 (replyTo 14 13 13 13), post 13 none]

/-- A reply is deleted without its counters. -/
def deletedReply : List Call :=
  [post 10 none, post 11 (replyTo 11 10 10 10), .softDelete community (id 11)]

/-- The root is deleted before the second reply; its timestamp is not found and that of the
parent is passed instead. -/
def deletedRoot : List Call :=
  [post 10 none, post 11 (replyTo 11 10 10 10), .softDeleteAndUpdate community (id 10) none none,
    post 12 (replyTo 12 11 10 11)]

end Sample

/-- **Orderly runs keep the counters exact**, in every state they reach. -/
theorem counters_exact (calls : List Call) (s : State)
    (hrun : threads.run State.empty calls = some s)
    (ho : threads.Always Orderly State.empty calls) : Exact s :=
  (inv_run inv_init ho hrun).exact

/-- The rows after that run, whose counters are exact. -/
theorem counters_exact_orderly :
    ∃ s, threads.run State.empty Sample.orderly = some s
      ∧ s.store.threadMetadata.map (fun tm => (tm.eventId, tm.replyCount, tm.descendantCount))
        = [(Sample.id 13, 1, 1), (Sample.id 14, 0, 0), (Sample.id 12, 0, 0), (Sample.id 10, 0, 1),
          (Sample.id 11, 1, 0)]
      ∧ Exact s := by
  have hran : ((threads.run State.empty Sample.orderly).map fun s =>
      s.store.threadMetadata.map fun tm => (tm.eventId, tm.replyCount, tm.descendantCount))
      = some [(Sample.id 13, 1, 1), (Sample.id 14, 0, 0), (Sample.id 12, 0, 0),
        (Sample.id 10, 0, 1), (Sample.id 11, 1, 0)] := by decide
  obtain ⟨s, hrun, hrows⟩ := Option.map_eq_some_iff.mp hran
  exact ⟨s, hrun, hrows, counters_exact Sample.orderly s hrun (by decide)⟩

/-- The counters of a reply that is deleted by itself stay as they are. The root of a thread gets a
second row, under the timestamp of a reply. -/
theorem not_counters_exact :
    (∃ s, threads.run State.empty Sample.deletedReply = some s ∧ ¬ Exact s)
      ∧ ∃ s, threads.run State.empty Sample.deletedRoot = some s ∧ ¬ Exact s := by
  constructor
  · have hran : ((threads.run State.empty Sample.deletedReply).any fun s =>
        (s.store.threadMetadata.any fun tm =>
          decide (s.store.Live tm.message) && decide (tm.replyCount = 1))
          && s.store.threadMetadata.all fun tm => (liveIds s.store).all fun e =>
            decide (¬ IsReply s.links e tm.message))
        = true := by decide
    obtain ⟨s, hrun, hcount⟩ := (Option.any_eq_true _ _).mp hran
    refine ⟨s, hrun, ?_⟩
    intro hexact
    obtain ⟨hone, hnone⟩ := Bool.and_eq_true_iff.mp hcount
    obtain ⟨tm, htm, hlive⟩ := List.any_eq_true.mp hone
    simp only [Bool.and_eq_true, decide_eq_true_eq] at hlive
    obtain ⟨l, -, hmem, hlen⟩ := hexact.replies tm htm hlive.1
    have hpos : 0 < l.length := by omega
    obtain ⟨e, he⟩ := List.exists_mem_of_length_pos hpos
    obtain ⟨heLive, hreply⟩ := (hmem e).mp he
    have hno := List.all_eq_true.mp (List.all_eq_true.mp hnone tm htm) e (mem_liveIds.mpr heLive)
    exact of_decide_eq_true hno hreply
  · have hran : ((threads.run State.empty Sample.deletedRoot).any fun s =>
        !decide (s.store.threadMetadata.map ThreadMetadataRow.message).Nodup) = true := by decide
    obtain ⟨s, hrun, htwice⟩ := (Option.any_eq_true _ _).mp hran
    exact ⟨s, hrun, fun hexact => absurd hexact.one_row (by simpa using htwice)⟩

end Pkzz.Db.Thread
