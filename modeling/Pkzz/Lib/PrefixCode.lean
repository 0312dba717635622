import Mathlib.Data.List.Basic

/-!
# Self-delimiting encodings

A text built by concatenating encoded fields can be read back in one way only if every
field says where it ends. `SelfDelimiting P F enc` is that property: for values
satisfying `P`, in front of any remainder satisfying `F`, an equation between two texts
splits into an equation between the values and one between the remainders. A format is
then shown unambiguous by peeling its fields off from the left, one `peel` per field.

The ways a field can delimit itself, each a lemma below:

* it has a fixed width;
* its alphabet does not contain what may follow it;
* it is preceded by its own length;
* it is a sequence of self-delimiting items, and no item can begin with what may follow
  the sequence.
-/

namespace Pkzz.Lib

variable {α β : Type}

/-- Encoded values followed by a remainder determine both the value and the remainder. -/
def SelfDelimiting (P : α → Prop) (F : List β → Prop) (enc : α → List β) : Prop :=
  ∀ ⦃a b : α⦄ ⦃r s : List β⦄, P a → P b → F r → F s → enc a ++ r = enc b ++ s → a = b ∧ r = s

/-- Any remainder at all. -/
def AnyRest : List β → Prop := fun _ => True

/-- The remainder does not begin with a symbol of `D`; it may be empty. -/
def StopsAt (D : β → Prop) (r : List β) : Prop := ∀ x, r.head? = some x → ¬ D x

theorem stopsAt_nil (D : β → Prop) : StopsAt D [] := by
  intro x hx
  exact absurd hx (by simp)

theorem stopsAt_cons {D : β → Prop} {x : β} {r : List β} (h : ¬ D x) : StopsAt D (x :: r) := by
  intro y hy
  have hxy : x = y := by simpa using hy
  exact hxy ▸ h

namespace SelfDelimiting

variable {P : α → Prop} {F : List β → Prop} {enc : α → List β}

/-- Split an equation between two texts that both begin with an encoded value. -/
theorem peel (h : SelfDelimiting P F enc) {a b : α} {r s : List β}
    (ha : P a) (hb : P b) (hr : F r) (hs : F s) (he : enc a ++ r = enc b ++ s) : a = b ∧ r = s :=
  h ha hb hr hs he

/-- With nothing behind it, an encoded value determines the value. -/
theorem inj (h : SelfDelimiting P F enc) (hF : F []) {a b : α} (ha : P a) (hb : P b)
    (he : enc a = enc b) : a = b :=
  (h ha hb hF hF (by rw [he])).1

/-- A field of fixed width delimits itself. -/
theorem of_length {n : Nat} (hlen : ∀ a, P a → (enc a).length = n)
    (hinj : ∀ a b, P a → P b → enc a = enc b → a = b) : SelfDelimiting P AnyRest enc := by
  intro a b r s ha hb _ _ he
  have hl : (enc a).length = (enc b).length := by rw [hlen a ha, hlen b hb]
  obtain ⟨h1, h2⟩ := List.append_inj he hl
  exact ⟨hinj a b ha hb h1, h2⟩

/-- Two texts over `D`, each followed by something outside `D`, are equal part by part. -/
theorem append_inj_of_stop {D : β → Prop} :
    ∀ {l m r s : List β}, (∀ x ∈ l, D x) → (∀ x ∈ m, D x) → StopsAt D r → StopsAt D s →
      l ++ r = m ++ s → l = m ∧ r = s
  | [], [], _, _, _, _, _, _, he => ⟨rfl, he⟩
  | [], y :: m, r, _, _, hm, hr, _, he => by
    have hy : r.head? = some y := by
      rw [show r = y :: (m ++ _) from he]; rfl
    exact absurd (hm y (by simp)) (hr y hy)
  | x :: l, [], _, s, hl, _, _, hs, he => by
    have hx : s.head? = some x := by
      rw [show s = x :: (l ++ _) from he.symm]; rfl
    exact absurd (hl x (by simp)) (hs x hx)
  | x :: l, y :: m, _, _, hl, hm, hr, hs, he => by
    obtain ⟨hxy, ht⟩ := List.cons.inj he
    obtain ⟨h1, h2⟩ := append_inj_of_stop (fun z hz => hl z (List.mem_cons_of_mem _ hz))
      (fun z hz => hm z (List.mem_cons_of_mem _ hz)) hr hs ht
    exact ⟨by rw [hxy, h1], h2⟩

/-- A field delimits itself against anything its alphabet does not contain. -/
theorem of_alphabet {D : β → Prop} (halpha : ∀ a, P a → ∀ x ∈ enc a, D x)
    (hinj : ∀ a b, P a → P b → enc a = enc b → a = b) : SelfDelimiting P (StopsAt D) enc := by
  intro a b r s ha hb hr hs he
  obtain ⟨h1, h2⟩ := append_inj_of_stop (halpha a ha) (halpha b hb) hr hs he
  exact ⟨hinj a b ha hb h1, h2⟩

/--
A field preceded by its own length delimits itself, whatever it contains: the length
delimits itself against the separator, and then says how much to take.
-/
theorem of_lengthPrefix {D : β → Prop} {len : Nat → List β} {sep : β}
    (hlen : SelfDelimiting (fun _ => True) (StopsAt D) len) (hsep : ¬ D sep)
    (hinj : ∀ a b, P a → P b → enc a = enc b → a = b) :
    SelfDelimiting P AnyRest (fun a => len (enc a).length ++ sep :: enc a) := by
  intro a b r s ha hb _ _ he
  simp only [List.append_assoc, List.cons_append] at he
  obtain ⟨hn, ht⟩ := hlen.peel trivial trivial (stopsAt_cons hsep) (stopsAt_cons hsep) he
  obtain ⟨_, ht⟩ := List.cons.inj ht
  obtain ⟨h1, h2⟩ := List.append_inj ht hn
  exact ⟨hinj a b ha hb h1, h2⟩

/--
A sequence of self-delimiting items, with no count and no separator, delimits itself when
every item begins with a symbol of `H` and what follows the sequence does not.
-/
theorem flatMap {H : β → Prop} (h : SelfDelimiting P AnyRest enc)
    (hhead : ∀ a, P a → ∃ x l, enc a = x :: l ∧ H x) :
    SelfDelimiting (fun as : List α => ∀ a ∈ as, P a) (StopsAt H) (fun as => as.flatMap enc) := by
  intro as
  induction as with
  | nil =>
    intro bs r s _ hbs hr _ he
    cases bs with
    | nil => exact ⟨rfl, by simpa using he⟩
    | cons b bs =>
      obtain ⟨x, l, hx, hH⟩ := hhead b (hbs b (by simp))
      have hr' : r.head? = some x := by
        have : r = enc b ++ (bs.flatMap enc ++ s) := by simpa using he
        rw [this, hx]; rfl
      exact absurd hH (hr x hr')
  | cons a as ih =>
    intro bs r s has hbs hr hs he
    cases bs with
    | nil =>
      obtain ⟨x, l, hx, hH⟩ := hhead a (has a (by simp))
      have hs' : s.head? = some x := by
        have : s = enc a ++ (as.flatMap enc ++ r) := by simpa using he.symm
        rw [this, hx]; rfl
      exact absurd hH (hs x hs')
    | cons b bs =>
      simp only [List.flatMap_cons, List.append_assoc] at he
      obtain ⟨hab, ht⟩ := h.peel (has a (by simp)) (hbs b (by simp)) trivial trivial he
      obtain ⟨hrest, hrs⟩ := ih (fun x hx => has x (List.mem_cons_of_mem _ hx))
        (fun x hx => hbs x (List.mem_cons_of_mem _ hx)) hr hs ht
      exact ⟨by rw [hab, hrest], hrs⟩

end SelfDelimiting

end Pkzz.Lib
