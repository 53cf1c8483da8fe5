import Mathlib.Data.List.Shortlex
import ShortestWitness.Alphabet

/-!
# The order of words

An alphabet orders words: shorter words come first, and words of one length are ordered by the
alphabet at the first place where they differ. `Shortlex` is this order, `ShortlexLe` allows equal
words, and `Least` says which word is the first of those with some property. The searches work
because the order is kept when a symbol is appended on both sides (`Shortlex.append_singleton`).
An alphabet is no more than its symbols and their order (`eq_of_before`). Two alphabets agree on the first
word over their common symbols if they have these in the same order (`least_iff_of_sameOrder`).

A search for a first word finds it or finds that there is none (`Finds`). Two searches for words with
one property both find a word or both find none, and words of one length (`Finds.none_or_some`,
`Finds.map_length_eq`), whatever the alphabets are.
-/

namespace ShortestWitness.Alphabet

variable {A : Alphabet} {c d : Char} {u v w : Word}

/-- Both symbols are in the alphabet, and the first one stands at an earlier place. -/
def Before (A : Alphabet) (c d : Char) : Prop :=
  ∃ i j, A.position c = some i ∧ A.position d = some j ∧ i < j

/-- Shorter words come first, then the alphabet decides at the first difference. -/
def Shortlex (A : Alphabet) : Word → Word → Prop := List.Shortlex A.Before

/-- The words are equal or come in this order. -/
def ShortlexLe (A : Alphabet) (u v : Word) : Prop := u = v ∨ A.Shortlex u v

/-- The first word with a property: it has the property, and every other word with it comes later. -/
def Least (A : Alphabet) (P : Word → Prop) (w : Word) : Prop :=
  P w ∧ ∀ v, P v → v ≠ w → A.Shortlex w v

theorem before_trans {e : Char} (h : A.Before c d) (h' : A.Before d e) : A.Before c e := by
  obtain ⟨i, j, hi, hj, hij⟩ := h
  obtain ⟨j', k, hj', hk, hjk⟩ := h'
  obtain rfl := Option.some.inj (hj.symm.trans hj')
  exact ⟨i, k, hi, hk, hij.trans hjk⟩

theorem not_before_self (A : Alphabet) (c : Char) : ¬ A.Before c c := by
  rintro ⟨i, j, hi, hj, hij⟩
  exact hij.ne (Option.some.inj (hi.symm.trans hj))

theorem Before.mem_left (h : A.Before c d) : c ∈ A := by
  obtain ⟨i, -, hi, -⟩ := h
  exact mem_of_position hi

theorem Before.mem_right (h : A.Before c d) : d ∈ A := by
  obtain ⟨-, j, -, hj, -⟩ := h
  exact mem_of_position hj

theorem before_asymm (h : A.Before c d) : ¬ A.Before d c := fun h' =>
  not_before_self A c (before_trans h h')

/-- The symbols stand in the alphabet in their order. -/
theorem pairwise_before (A : Alphabet) : A.symbols.Pairwise A.Before :=
  List.pairwise_iff_getElem.2 fun i j hi hj hij =>
    ⟨i, j, position_of_symbol? (List.getElem?_eq_getElem hi),
      position_of_symbol? (List.getElem?_eq_getElem hj), hij⟩

/-- Of two symbols one comes first, or they are the same. -/
theorem before_or_eq_or_before (hc : c ∈ A) (hd : d ∈ A) :
    A.Before c d ∨ c = d ∨ A.Before d c := by
  obtain ⟨i, hi⟩ := Option.ne_none_iff_exists'.1 fun h => position_eq_none_iff.1 h hc
  obtain ⟨j, hj⟩ := Option.ne_none_iff_exists'.1 fun h => position_eq_none_iff.1 h hd
  rcases Nat.lt_trichotomy i j with h | rfl | h
  · exact .inl ⟨i, j, hi, hj, h⟩
  · exact .inr (.inl (Option.some.inj ((symbol?_of_position hi).symm.trans (symbol?_of_position hj))))
  · exact .inr (.inr ⟨j, i, hj, hi, h⟩)

/-! ## The strict order -/

theorem shortlex_iff : A.Shortlex u v ↔
    u.length < v.length ∨ u.length = v.length ∧ List.Lex A.Before u v :=
  List.shortlex_def

theorem Shortlex.trans (h : A.Shortlex u v) (h' : A.Shortlex v w) : A.Shortlex u w := by
  rw [shortlex_iff] at h h' ⊢
  rcases h with h | ⟨hl, h⟩ <;> rcases h' with h' | ⟨hl', h'⟩
  · exact .inl (by omega)
  · exact .inl (by omega)
  · exact .inl (by omega)
  · exact .inr ⟨by omega, List.lex_trans before_trans h h'⟩

theorem not_shortlex_self (A : Alphabet) (w : Word) : ¬ A.Shortlex w w := by
  rw [shortlex_iff]
  rintro (h | ⟨-, h⟩)
  · exact h.ne rfl
  · exact List.lex_irrefl A.not_before_self w h

theorem Shortlex.length_le (h : A.Shortlex u v) : u.length ≤ v.length := by
  rcases shortlex_iff.1 h with hlt | ⟨heq, -⟩
  · exact hlt.le
  · exact heq.le

theorem Shortlex.asymm (h : A.Shortlex u v) : ¬ A.Shortlex v u := fun h' =>
  not_shortlex_self A u (h.trans h')

/-- The order between words of one length does not look at what follows. -/
theorem lex_append {r : Char → Char → Prop} (h : List.Lex r u v) (hl : u.length = v.length)
    (x y : Word) : List.Lex r (u ++ x) (v ++ y) := by
  induction h with
  | nil => simp at hl
  | rel h => exact .rel h
  | cons _ ih => exact .cons (ih (by simpa using hl))

theorem Shortlex.append_singleton (h : A.Shortlex u v) (c d : Char) :
    A.Shortlex (u ++ [c]) (v ++ [d]) := by
  rw [shortlex_iff] at h ⊢
  rcases h with h | ⟨hl, h⟩
  · exact .inl (by simpa using h)
  · exact .inr ⟨by simpa using hl, lex_append h hl [c] [d]⟩

/-- A common beginning does not matter. -/
theorem Shortlex.of_append_left (h : A.Shortlex (u ++ v) (u ++ w)) : A.Shortlex v w := by
  have : Std.Irrefl A.Before := ⟨not_before_self A⟩
  induction u with
  | nil => exact h
  | cons c u ih => exact ih h.of_cons

/-- Of two words that differ in the last symbol the earlier symbol gives the earlier word. -/
theorem shortlex_append_of_before (w : Word) (h : A.Before c d) :
    A.Shortlex (w ++ [c]) (w ++ [d]) :=
  ((List.shortlex_singleton_iff c d).2 h).append_left w

/-! ## Equal or before -/

theorem ShortlexLe.trans (h : A.ShortlexLe u v) (h' : A.ShortlexLe v w) : A.ShortlexLe u w := by
  rcases h with rfl | h
  · exact h'
  · rcases h' with rfl | h'
    · exact .inr h
    · exact .inr (h.trans h')

theorem Shortlex.trans_le (h : A.Shortlex u v) (h' : A.ShortlexLe v w) : A.Shortlex u w := by
  rcases h' with rfl | h'
  · exact h
  · exact h.trans h'

theorem shortlexLe_append (A : Alphabet) (u v : Word) : A.ShortlexLe u (u ++ v) := by
  cases v with
  | nil => exact .inl (List.append_nil u).symm
  | cons => exact .inr (.of_length_lt (by simp))

theorem nil_shortlexLe (A : Alphabet) (w : Word) : A.ShortlexLe [] w := shortlexLe_append A [] w

theorem ShortlexLe.append_singleton (h : A.ShortlexLe u v) (c : Char) :
    A.ShortlexLe (u ++ [c]) (v ++ [c]) := by
  rcases h with rfl | h
  · exact .inl rfl
  · exact .inr (h.append_singleton c c)

/-- Appending to the later word keeps the order, whatever one symbol is appended to the earlier. -/
theorem Shortlex.append_singleton_le (h : A.Shortlex u v) (c d : Char) (w : Word) :
    A.ShortlexLe (u ++ [c]) (v ++ d :: w) := by
  have := (shortlexLe_append A (v ++ [d]) w)
  rw [List.append_assoc] at this
  exact .inr ((h.append_singleton c d).trans_le this)

/-! ## The first word with a property -/

/-- A first word comes before all others, or is one of them. -/
theorem least_iff {P : Word → Prop} :
    A.Least P w ↔ P w ∧ ∀ v, P v → A.ShortlexLe w v := by
  refine and_congr_right fun _ => forall_congr' fun v => forall_congr' fun _ => ?_
  constructor
  · intro h
    by_cases he : v = w
    · exact .inl he.symm
    · exact .inr (h he)
  · rintro (rfl | h) he
    · exact absurd rfl he
    · exact h

/-- There is only one first word. -/
theorem Least.unique {P : Word → Prop} (h : A.Least P u) (h' : A.Least P v) : u = v := by
  by_contra hne
  exact (h.2 v h'.1 (Ne.symm hne)).asymm (h'.2 u h.1 hne)

/-- No word with the property is shorter than the first. -/
theorem Least.length_le {P : Word → Prop} (h : A.Least P w) (hv : P v) : w.length ≤ v.length := by
  rcases (least_iff.1 h).2 v hv with rfl | hlt
  · exact Nat.le_refl _
  · exact hlt.length_le

/-- The order of the alphabet has no influence on the length of the first word with a property. -/
theorem Least.length_eq {B : Alphabet} {P : Word → Prop} (h : A.Least P u) (h' : B.Least P v) :
    u.length = v.length :=
  Nat.le_antisymm (h.length_le h'.1) (h'.length_le h.1)

theorem Least.congr {P Q : Word → Prop} (hPQ : ∀ w, P w ↔ Q w) : A.Least P w ↔ A.Least Q w := by
  simp only [Least, hPQ]

/-! ## Alphabets with fewer symbols

The order between words does not depend on symbols that do not occur in them.
-/

variable {B : Alphabet}

/-- The order in which the symbols stand is the order of the alphabet. -/
theorem before_iff_of_pairwise {r : Char → Char → Prop} (h : A.symbols.Pairwise r)
    (hasymm : ∀ {c d}, r c d → ¬ r d c) (hc : c ∈ A) (hd : d ∈ A) : A.Before c d ↔ r c d := by
  have himp : ∀ {c d}, A.Before c d → r c d := fun ⟨i, j, hi, hj, hij⟩ => by
    obtain ⟨hi', rfl⟩ := List.getElem?_eq_some_iff.1 (symbol?_of_position hi)
    obtain ⟨hj', rfl⟩ := List.getElem?_eq_some_iff.1 (symbol?_of_position hj)
    exact List.pairwise_iff_getElem.1 h i j hi' hj' hij
  refine ⟨himp, fun hr => ?_⟩
  rcases before_or_eq_or_before hc hd with hcd | rfl | hdc
  · exact hcd
  · exact absurd hr (hasymm hr)
  · exact absurd (himp hdc) (hasymm hr)

/-- Fewer symbols are in the same order. -/
theorem before_iff_of_sublist (h : B.symbols.Sublist A.symbols) (hc : c ∈ B) (hd : d ∈ B) :
    B.Before c d ↔ A.Before c d :=
  before_iff_of_pairwise (A.pairwise_before.sublist h) before_asymm hc hd

theorem lex_of_lex {r s : Char → Char → Prop} (h : List.Lex r u v)
    (hrs : ∀ c ∈ u, ∀ d ∈ v, r c d → s c d) : List.Lex s u v := by
  induction h with
  | nil => exact .nil
  | rel h => exact .rel (hrs _ List.mem_cons_self _ List.mem_cons_self h)
  | cons _ ih =>
    refine .cons (ih fun c hc d hd => ?_)
    exact hrs c (List.mem_cons_of_mem _ hc) d (List.mem_cons_of_mem _ hd)

/-- Words over fewer symbols are in the same order. -/
theorem shortlex_iff_of_sublist (h : B.symbols.Sublist A.symbols) (hu : ∀ c ∈ u, c ∈ B)
    (hv : ∀ c ∈ v, c ∈ B) : B.Shortlex u v ↔ A.Shortlex u v := by
  rw [shortlex_iff, shortlex_iff]
  refine or_congr_right (and_congr_right fun _ => ⟨fun hl => ?_, fun hl => ?_⟩)
  · exact lex_of_lex hl fun c hc d hd => (before_iff_of_sublist h (hu c hc) (hv d hd)).1
  · exact lex_of_lex hl fun c hc d hd => (before_iff_of_sublist h (hu c hc) (hv d hd)).2

/-- The first word with a property is the same if only words over the fewer symbols have it. -/
theorem least_iff_of_sublist {P : Word → Prop} (h : B.symbols.Sublist A.symbols)
    (hP : ∀ w, P w → ∀ c ∈ w, c ∈ B) : B.Least P w ↔ A.Least P w := by
  refine and_congr_right fun hw => forall_congr' fun v => forall_congr' fun hv => ?_
  rw [shortlex_iff_of_sublist h (hP w hw) (hP v hv)]

/-! ## Alphabets with one order of their common symbols -/

/-- The symbols of both alphabets stand in the same order in both. -/
def SameOrder (A B : Alphabet) : Prop :=
  ∀ c d, c ∈ A → c ∈ B → d ∈ A → d ∈ B → (A.Before c d ↔ B.Before c d)

theorem intersection_sublist (A B : Alphabet) :
    (A.intersection B).symbols.Sublist A.symbols :=
  List.filter_sublist

theorem mem_intersection_comm : c ∈ A.intersection B ↔ c ∈ B.intersection A :=
  mem_intersection.trans (and_comm.trans mem_intersection.symm)

theorem before_intersection_iff :
    (A.intersection B).Before c d ↔ A.Before c d ∧ c ∈ B ∧ d ∈ B := by
  constructor
  · intro h
    have hA := (before_iff_of_sublist (intersection_sublist A B) h.mem_left h.mem_right).1 h
    exact ⟨hA, (mem_intersection.1 h.mem_left).2, (mem_intersection.1 h.mem_right).2⟩
  · rintro ⟨hA, hc, hd⟩
    have hc := mem_intersection.2 ⟨hA.mem_left, hc⟩
    have hd := mem_intersection.2 ⟨hA.mem_right, hd⟩
    exact (before_iff_of_sublist (intersection_sublist A B) hc hd).2 hA

/-- The same symbols make the same list up to the order. -/
theorem perm_symbols (h : ∀ c, c ∈ A ↔ c ∈ B) : A.symbols.Perm B.symbols :=
  (List.perm_ext_iff_of_nodup A.nodup B.nodup).2 h

/-- Symbols and their order make up an alphabet. -/
theorem eq_of_before (hmem : ∀ c, c ∈ A ↔ c ∈ B) (h : ∀ c d, A.Before c d → B.Before c d) :
    A = B := by
  have hA : A.symbols.Pairwise B.Before := A.pairwise_before.imp (h _ _)
  have hanti : ∀ c d, B.Before c d → B.Before d c → c = d := fun c d hcd hdc =>
    absurd hdc (before_asymm hcd)
  exact ext ((perm_symbols hmem).eq_of_pairwise (fun c d _ _ => hanti c d) hA B.pairwise_before)

/-- The common symbols are the same list, whichever alphabet they are taken from. -/
theorem sameOrder_iff : A.SameOrder B ↔ A.intersection B = B.intersection A := by
  constructor
  · intro h
    refine eq_of_before (fun c => mem_intersection_comm) fun c d hcd => before_intersection_iff.2 ?_
    obtain ⟨hA, hcB, hdB⟩ := before_intersection_iff.1 hcd
    exact ⟨(h c d hA.mem_left hcB hA.mem_right hdB).1 hA, hA.mem_left, hA.mem_right⟩
  · intro h c d hcA hcB hdA hdB
    have hA : (A.intersection B).Before c d ↔ A.Before c d :=
      before_intersection_iff.trans (and_iff_left ⟨hcB, hdB⟩)
    have hB : (B.intersection A).Before c d ↔ B.Before c d :=
      before_intersection_iff.trans (and_iff_left ⟨hcA, hdA⟩)
    rw [← hA, h, hB]

instance (A B : Alphabet) : Decidable (A.SameOrder B) := decidable_of_iff' _ sameOrder_iff

/-- If the order of the common symbols is not the same, two symbols stand the other way round. -/
theorem exists_before_of_not_sameOrder (h : ¬ A.SameOrder B) :
    ∃ c d, A.Before c d ∧ B.Before d c := by
  simp only [SameOrder, not_forall] at h
  obtain ⟨c, d, hcA, hcB, hdA, hdB, hne⟩ := h
  rcases before_or_eq_or_before hcA hdA with hA | rfl | hA
  · rcases before_or_eq_or_before hcB hdB with hB | rfl | hB
    · exact absurd (iff_of_true hA hB) hne
    · exact absurd hA (not_before_self A c)
    · exact ⟨c, d, hA, hB⟩
  · exact absurd (iff_of_false (not_before_self A c) (not_before_self B c)) hne
  · rcases before_or_eq_or_before hcB hdB with hB | rfl | hB
    · exact ⟨d, c, hA, hB⟩
    · exact absurd hA (not_before_self A c)
    · exact absurd (iff_of_false (before_asymm hA) (before_asymm hB)) hne

/-- The first word with a property is the same if only words over the common symbols have it. -/
theorem least_iff_of_sameOrder {P : Word → Prop} (h : A.SameOrder B)
    (hP : ∀ w, P w → ∀ c ∈ w, c ∈ A.intersection B) : A.Least P w ↔ B.Least P w := by
  rw [← least_iff_of_sublist (intersection_sublist A B) hP, sameOrder_iff.1 h]
  exact least_iff_of_sublist (intersection_sublist B A) fun w hw => sameOrder_iff.1 h ▸ hP w hw

/-! ## Searches for a first word -/

/-- What is found is the first word with the property, or nothing if no word has it. -/
def Finds (A : Alphabet) (P : Word → Prop) : Option Word → Prop
  | none => ∀ w, ¬ P w
  | some w => A.Least P w

namespace Finds

variable {P : Word → Prop} {found found' : Option Word}

theorem congr {Q : Word → Prop} (hPQ : ∀ w, P w ↔ Q w) : A.Finds P found ↔ A.Finds Q found := by
  cases found with
  | none => exact forall_congr' fun w => not_congr (hPQ w)
  | some w => exact Least.congr hPQ

/-- No search finds nothing where another one finds a word. -/
theorem none_or_some (h : A.Finds P found) (h' : B.Finds P found') :
    found = none ∧ found' = none ∨
      ∃ v w, found = some v ∧ found' = some w ∧ A.Least P v ∧ B.Least P w := by
  cases found with
  | none =>
    cases found' with
    | none => exact .inl ⟨rfl, rfl⟩
    | some w => exact absurd h'.1 (h w)
  | some v =>
    cases found' with
    | none => exact absurd h.1 (h' v)
    | some w => exact .inr ⟨v, w, rfl, rfl, h, h'⟩

/-- What is found is determined by the property and the order. -/
theorem unique (h : A.Finds P found) (h' : A.Finds P found') : found' = found := by
  obtain ⟨rfl, rfl⟩ | ⟨v, w, rfl, rfl, hv, hw⟩ := h.none_or_some h'
  · rfl
  · rw [hw.unique hv]

/-- In whatever order, something is found if there is something to find. -/
theorem isNone_eq (h : A.Finds P found) (h' : B.Finds P found') : found'.isNone = found.isNone := by
  obtain ⟨rfl, rfl⟩ | ⟨v, w, rfl, rfl, -, -⟩ := h.none_or_some h' <;> rfl

/-- In whatever order, a shortest word is found. -/
theorem map_length_eq (h : A.Finds P found) (h' : B.Finds P found') :
    found'.map List.length = found.map List.length := by
  obtain ⟨rfl, rfl⟩ | ⟨v, w, rfl, rfl, hv, hw⟩ := h.none_or_some h'
  · rfl
  · rw [Option.map_some, Option.map_some, hw.length_eq hv]

/-- The same word is found if only words over common symbols have the property, and these have one
order. -/
theorem eq_of_sameOrder (h : A.Finds P found) (h' : B.Finds P found') (horder : A.SameOrder B)
    (hP : ∀ w, P w → ∀ c ∈ w, c ∈ A.intersection B) : found' = found := by
  obtain ⟨rfl, rfl⟩ | ⟨v, w, rfl, rfl, hv, hw⟩ := h.none_or_some h'
  · rfl
  · rw [hw.unique ((least_iff_of_sameOrder horder hP).1 hv)]

end Finds

end ShortestWitness.Alphabet
