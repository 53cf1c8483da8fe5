import Mathlib
import ShortestWitness.Proofs.Decision.BoundedSearch
import ShortestWitness.Proofs.Decision.Combination

/-!
# Short words tell complete automata apart

States are alike up to some length if no word that is shorter is accepted from one of them only. For
greater lengths fewer states are alike. A first word that tells two states of complete automata apart
shows this for each length up to its own, since what it goes on with is a first word that tells apart
the states that it has got to (`alike_of_least`). Equivalence relations on finitely many states cannot
be refined more often than there are states (`lt_card_of_finer`), so the word is short, far shorter
than the number of pairs of states that a search may visit.
-/

namespace ShortestWitness

/-! ## Finer and finer equivalence relations -/

section Finer

variable {ι : Type} [Finite ι]

/-- A finer equivalence relation has more classes. -/
theorem card_quotient_lt {s t : Setoid ι} (h : s ≤ t) {x y : ι} (ht : t x y) (hs : ¬ s x y) :
    Nat.card (Quotient t) < Nat.card (Quotient s) := by
  have := Fintype.ofFinite (Quotient s)
  have := Fintype.ofFinite (Quotient t)
  rw [Nat.card_eq_fintype_card, Nat.card_eq_fintype_card]
  refine Fintype.card_lt_of_surjective_not_injective (Setoid.map_of_le h) ?_ fun hinj => ?_
  · exact Quotient.ind fun z => ⟨Quotient.mk s z, rfl⟩
  · have hxy : Setoid.map_of_le h (Quotient.mk s x) = Setoid.map_of_le h (Quotient.mk s y) :=
      Quotient.sound ht
    exact hs (Quotient.exact (hinj hxy))

/-- An equivalence relation that gets finer `n` times is on more than `n` elements. -/
theorem lt_card_of_finer [Nonempty ι] {E : Nat → Setoid ι} (hE : ∀ j, E (j + 1) ≤ E j) {n : Nat}
    (h : ∀ j < n, ∃ x y, E j x y ∧ ¬ E (j + 1) x y) : n < Nat.card ι := by
  have hclasses : n < Nat.card (Quotient (E n)) := by
    induction n with
    | zero =>
      have : Nonempty (Quotient (E 0)) := ‹Nonempty ι›.map (Quotient.mk (E 0))
      exact Nat.card_pos
    | succ n ih =>
      obtain ⟨x, y, hxy, hnot⟩ := h n (Nat.lt_succ_self n)
      have hlt := ih fun j hj => h j (Nat.lt_succ_of_lt hj)
      have hmore := card_quotient_lt (hE n) hxy hnot
      omega
  have hle : Nat.card (Quotient (E n)) ≤ Nat.card ι :=
    Nat.card_le_card_of_surjective (Quotient.mk (E n)) Quotient.mk_surjective
  omega

end Finer

/-! ## States that are alike up to some length -/

/-- Of the words over the alphabet that are shorter than `j`, the same are accepted. -/
def Alike {ι : Type} (accepted : ι → Word → Prop) (A : Alphabet) (j : Nat) : Setoid ι where
  r x y := ∀ v : Word, v.length < j → (∀ c ∈ v, c ∈ A) → (accepted x v ↔ accepted y v)
  iseqv := ⟨fun _ _ _ _ => .rfl, fun h v hv hA => (h v hv hA).symm,
    fun h h' v hv hA => (h v hv hA).trans (h' v hv hA)⟩

/-- States that longer words do not tell apart are alike on shorter words. -/
theorem alike_succ_le {ι : Type} (accepted : ι → Word → Prop) (A : Alphabet) (j : Nat) :
    Alike accepted A (j + 1) ≤ Alike accepted A j :=
  fun _ _ h v hv => h v (Nat.lt_succ_of_lt hv)

namespace Automaton

variable {L R : Automaton} {p q : Nat} {u v w : Word}

/-- Complete automata read all common symbols, so only acceptance can tell their states apart. -/
theorem acceptsFrom_symmetricDifference_iff (hL : L.isComplete = true) (hR : R.isComplete = true)
    (hp : p < L.size) (hq : q < R.size) (hv : ∀ c ∈ v, c ∈ L.alphabet.intersection R.alphabet) :
    (L.machine.symmetricDifference R.machine).AcceptsFrom (p, q) v ↔
      ¬ (L.machine.AcceptsFrom p v ↔ R.machine.AcceptsFrom q v) := by
  have hvL := isSome_runFrom_of_isComplete hL hp fun c hc => (Alphabet.mem_intersection.1 (hv c hc)).1
  have hvR := isSome_runFrom_of_isComplete hR hq fun c hc => (Alphabet.mem_intersection.1 (hv c hc)).2
  obtain ⟨l, hl⟩ := Option.isSome_iff_exists.1 hvL
  obtain ⟨r, hr⟩ := Option.isSome_iff_exists.1 hvR
  rw [Machine.acceptsFrom_symmetricDifference_iff (isSome_color_of_lt hp) (isSome_color_of_lt hq),
    Machine.acceptsFrom_iff_of_runFrom hl, Machine.acceptsFrom_iff_of_runFrom hr, hl, hr]
  simp

section Alike

variable {ι : Type} {accepted : ι → Word → Prop} {x y : ι}

/-- The first word that tells two states apart shows up exactly at its length. -/
theorem alike_of_least (hL : L.isComplete = true) (hR : R.isComplete = true)
    (hp : p < L.size) (hq : q < R.size) (hx : accepted x = L.machine.AcceptsFrom p)
    (hy : accepted y = R.machine.AcceptsFrom q)
    (h : (L.machine.symmetricDifference R.machine).alphabet.Least
      ((L.machine.symmetricDifference R.machine).AcceptsFrom (p, q)) v) :
    Alike accepted (L.alphabet.intersection R.alphabet) v.length x y ∧
      ¬ Alike accepted (L.alphabet.intersection R.alphabet) (v.length + 1) x y := by
  have hv : ∀ c ∈ v, c ∈ L.alphabet.intersection R.alphabet := h.1.mem_alphabet
  constructor
  · intro z hz hzA
    by_contra hne
    rw [hx, hy] at hne
    have hle := h.length_le ((acceptsFrom_symmetricDifference_iff hL hR hp hq hzA).2 hne)
    omega
  · intro halike
    have hsame := halike v (Nat.lt_succ_self _) hv
    rw [hx, hy] at hsame
    exact (acceptsFrom_symmetricDifference_iff hL hR hp hq hv).1 h.1 hsame

/-- If each state of two complete automata is represented among finitely many, a first word that tells
two states apart has fewer symbols than there are representatives, by two at least. -/
theorem length_add_two_le [Finite ι] (accepted : ι → Word → Prop) (hL : L.isComplete = true)
    (hR : R.isComplete = true)
    (hl : ∀ p < L.size, ∃ x, accepted x = L.machine.AcceptsFrom p)
    (hr : ∀ q < R.size, ∃ y, accepted y = R.machine.AcceptsFrom q)
    (hp : p < L.size) (hq : q < R.size)
    (h : (L.machine.symmetricDifference R.machine).shortestWordFrom (p, q) = some w) :
    w.length + 2 ≤ Nat.card ι := by
  have hleast := Machine.shortestWordFrom_eq_some_iff.1 h
  have : Nonempty ι := ⟨(hl p hp).choose⟩
  refine lt_card_of_finer (alike_succ_le accepted (L.alphabet.intersection R.alphabet))
    fun j hj => ?_
  -- the last `j` symbols of the word tell apart the states that the first ones lead to
  have hsplit := List.take_append_drop (w.length - j) w
  have hlength : (w.drop (w.length - j)).length = j := by
    rw [List.length_drop]
    omega
  generalize w.take (w.length - j) = u at hsplit
  generalize w.drop (w.length - j) = v at hsplit hlength
  subst hsplit hlength
  obtain ⟨⟨p', q'⟩, hrun, -⟩ := Machine.acceptsFrom_append_iff.1 hleast.1
  obtain ⟨hpu, hqu⟩ := Machine.runFrom_product_eq_some_iff.1 hrun
  have hp' := lt_size_of_runFrom hp hpu
  have hq' := lt_size_of_runFrom hq hqu
  obtain ⟨x, hx⟩ := hl p' hp'
  obtain ⟨y, hy⟩ := hr q' hq'
  exact ⟨x, y, alike_of_least hL hR hp' hq' hx hy (Machine.least_of_append hleast hrun)⟩

end Alike

/-- The states of both automata represent themselves. -/
theorem length_add_two_le_size_add_size (hL : L.isComplete = true) (hR : R.isComplete = true)
    (h : (L.machine.symmetricDifference R.machine).shortestWord = some w) :
    w.length + 2 ≤ L.size + R.size := by
  have hle := length_add_two_le
    (Sum.elim (fun p : Fin L.size => L.machine.AcceptsFrom p) fun q : Fin R.size =>
      R.machine.AcceptsFrom q)
    hL hR (fun p hp => ⟨.inl ⟨p, hp⟩, rfl⟩) (fun q hq => ⟨.inr ⟨q, hq⟩, rfl⟩) L.initial_lt
    R.initial_lt h
  simpa using hle

/-- In a single automaton the two states that are told apart are among the same states. -/
theorem length_add_two_le_size (hL : L.isComplete = true) (h : L.separatingWord p q = some w) :
    w.length + 2 ≤ L.size := by
  unfold separatingWord at h
  split at h
  · rename_i hpq
    have hle := length_add_two_le (fun p : Fin L.size => L.machine.AcceptsFrom p)
      hL hL (fun p hp => ⟨⟨p, hp⟩, rfl⟩) (fun q hq => ⟨⟨q, hq⟩, rfl⟩) hpq.1 hpq.2 h
    simpa using hle
  · cases h

/-- On words over the common symbols, complete automata disagree just if one of them accepts. -/
theorem witness?_compare_eq_find? (hL : L.isComplete = true) (hR : R.isComplete = true) :
    (L.machine.compare R.machine).witness? =
      ((Enumeration.ofSymbols (L.alphabet.symbols.filter (· ∈ R.alphabet))).shorter
        (L.size + R.size - 1)).find? (fun w => L.machine.accepts w != R.machine.accepts w) := by
  rw [Machine.witness?_compare, Machine.shortestWord_eq_find? (n := L.size + R.size - 1) fun w hw => by
    have := length_add_two_le_size_add_size hL hR hw
    omega]
  refine List.find?_congr fun w hw => ?_
  have hmem := (Enumeration.mem_shorter_ofSymbols.1 hw).2
  have hwL := isSome_run_of_isComplete hL fun c hc => (Alphabet.mem_intersection.1 (hmem c hc)).1
  have hwR := isSome_run_of_isComplete hR fun c hc => (Alphabet.mem_intersection.1 (hmem c hc)).2
  rw [Machine.accepts_symmetricDifference, hwL, hwR, Bool.true_and, Bool.true_and]

/-- Complete automata that disagree do so on a word of at most two symbols less than they have states
together, so the words up to this length decide the comparison. States of one complete automaton
are told apart by a word of at most two symbols less than the automaton has states. -/
theorem separation_exact :
    (∀ L R : Automaton, L.isComplete = true → R.isComplete = true →
      (∀ w side, L.machine.compare R.machine = .different w side → w.length + 2 ≤ L.size + R.size) ∧
      (L.machine.compare R.machine).witness? =
        ((Enumeration.ofSymbols (L.alphabet.symbols.filter (· ∈ R.alphabet))).shorter
          (L.size + R.size - 1)).find? (fun w => L.machine.accepts w != R.machine.accepts w) ∧
      (L.machine.compare R.machine = .equivalent ↔
        ((Enumeration.ofSymbols (L.alphabet.symbols.filter (· ∈ R.alphabet))).shorter
          (L.size + R.size - 1)).find? (fun w => L.machine.accepts w != R.machine.accepts w) = none)) ∧
      ∀ M : Automaton, M.isComplete = true → ∀ p q w, M.separatingWord p q = some w →
        w.length + 2 ≤ M.size := by
  refine ⟨fun L R hL hR => ⟨fun w side h => ?_, witness?_compare_eq_find? hL hR, ?_⟩,
    fun M hM p q w => length_add_two_le_size hM⟩
  · refine length_add_two_le_size_add_size hL hR ?_
    rw [← Machine.witness?_compare, h]
    rfl
  · rw [← witness?_compare_eq_find? hL hR, Comparison.witness?_eq_none_iff]

/-- Accepts the words whose number of symbols is not one more than a multiple of three. -/
def notOneModThree : Automaton := counter (.ofList ['b', 'a']) 2 (· ≠ 1)

/-- Counting modulo two and modulo three is told apart as late as it can be, and so are the states of
the second counter that accept. -/
theorem separation_counter : (evenLength (.ofList ['a'])).isComplete = true ∧
    notOneModThree.isComplete = true ∧
    (evenLength (.ofList ['a'])).machine.compare notOneModThree.machine =
      .different ['a', 'a', 'a'] .second ∧
    3 + 2 ≤ (evenLength (.ofList ['a'])).size + notOneModThree.size ∧
    ((Enumeration.ofSymbols ((evenLength (.ofList ['a'])).alphabet.symbols.filter
      (· ∈ notOneModThree.alphabet))).shorter
        ((evenLength (.ofList ['a'])).size + notOneModThree.size - 1)).find? (fun w =>
          (evenLength (.ofList ['a'])).machine.accepts w != notOneModThree.machine.accepts w) =
      some ['a', 'a', 'a'] ∧
    notOneModThree.separatingWord 0 2 = some ['b'] ∧ 1 + 2 ≤ notOneModThree.size := by
  have heven : (evenLength (.ofList ['a'])).isComplete = true := by cbv
  have hthree : notOneModThree.isComplete = true := by cbv
  have hcompare : (evenLength (.ofList ['a'])).machine.compare notOneModThree.machine =
      .different ['a', 'a', 'a'] .second := by
    cbv
  have hseparating : notOneModThree.separatingWord 0 2 = some ['b'] := by cbv
  obtain ⟨hlength, hfind, -⟩ := separation_exact.1 _ _ heven hthree
  rw [hcompare] at hfind
  exact ⟨heven, hthree, hcompare, hlength _ _ hcompare, hfind.symm, hseparating,
    separation_exact.2 notOneModThree hthree 0 2 _ hseparating⟩

end Automaton

end ShortestWitness
