import Mathlib
import ShortestWitness.Proofs.Decision.Combination

/-!
# Symmetries of the comparison

A disagreement between two machines is a disagreement between them in the other order, and also
between the machines with negated colors. So these comparisons come to the same verdict, with the
accepting machine on the other side (`compare_swap`, `compare_recolor_not`). Each alphabet has its
own order though: the comparison of the swapped machines finds a word of the same length, but if two
common symbols do not stand in the same order it may be another word, and one accepted on the same side
(`exists_compare_swap_eq_first`).
-/

namespace ShortestWitness

namespace Machine

variable {σ τ : Type} {L : Machine σ Bool} {R : Machine τ Bool} {w : Word}

/-! ## Swapping the machines -/

theorem liveDisagreement_comm : R.LiveDisagreement L w ↔ L.LiveDisagreement R w := by
  rw [liveDisagreement_iff, liveDisagreement_iff, ne_comm]
  exact and_left_comm

/-- Swapping the machines swaps the sides. -/
theorem soleAcceptor?_swap (L : Machine σ Bool) (R : Machine τ Bool) (w : Word) :
    R.soleAcceptor? L w = (L.soleAcceptor? R w).map Side.other := by
  rw [soleAcceptor?, soleAcceptor?]
  cases L.accepts w <;> cases R.accepts w <;> rfl

/-! ## Negating all colors -/

/-- Where a machine is not stuck, negating the colors negates acceptance. -/
theorem accepts_recolor_not (h : (L.run w).isSome) :
    (L.recolor (!·)).accepts w = !L.accepts w := by
  obtain ⟨p, hp⟩ := Option.isSome_iff_exists.1 h
  obtain ⟨b, hb⟩ := Option.isSome_iff_exists.1 (isSome_color_of_run hp)
  have hnot : (L.recolor (!·)).color p = some (!b) := by
    change (L.color p).map _ = _
    rw [hb, Option.map_some]
  rw [accepts_eq_of_color hp hb]
  exact accepts_eq_of_color hp hnot

/-- The machines run as before, and colors are unequal after negation if they were before. -/
theorem liveDisagreement_recolor_not :
    (L.recolor (!·)).LiveDisagreement (R.recolor (!·)) w ↔ L.LiveDisagreement R w := by
  rw [liveDisagreement_iff, liveDisagreement_iff]
  change (L.run w).isSome ∧ (R.run w).isSome ∧ _ ↔ _
  refine and_congr_right fun hl => and_congr_right fun hr => ?_
  rw [accepts_recolor_not hl, accepts_recolor_not hr, ne_eq, Bool.not_inj_iff]

theorem soleAcceptor?_recolor_not (h : L.LiveDisagreement R w) :
    (L.recolor (!·)).soleAcceptor? (R.recolor (!·)) w = (L.soleAcceptor? R w).map Side.other := by
  obtain ⟨hl, hr, -⟩ := liveDisagreement_iff.1 h
  rw [soleAcceptor?, soleAcceptor?, accepts_recolor_not hl, accepts_recolor_not hr]
  cases L.accepts w <;> cases R.accepts w <;> rfl

/-! ## The comparisons -/

variable [Comparable σ] [Comparable τ]

/-- Both comparisons search for a disagreement, each in the order of its own alphabet. -/
theorem finds_witness?_compare_swap (L : Machine σ Bool) (R : Machine τ Bool) :
    R.alphabet.Finds (L.LiveDisagreement R) (R.compare L).witness? :=
  (Alphabet.Finds.congr fun _ => liveDisagreement_comm).1 (finds_witness?_compare R L)

/-- The verdict does not depend on which machine comes first. -/
theorem isEquivalent_compare_swap (L : Machine σ Bool) (R : Machine τ Bool) :
    (R.compare L).isEquivalent = (L.compare R).isEquivalent := by
  rw [Comparison.isEquivalent_eq_isNone, Comparison.isEquivalent_eq_isNone]
  exact (finds_witness?_compare L R).isNone_eq (finds_witness?_compare_swap L R)

theorem length_witness?_compare_swap (L : Machine σ Bool) (R : Machine τ Bool) :
    (R.compare L).witness?.map List.length = (L.compare R).witness?.map List.length :=
  (finds_witness?_compare L R).map_length_eq (finds_witness?_compare_swap L R)

/-- Where the alphabets have their common symbols in one order, both comparisons find one word. -/
theorem compare_swap (h : L.alphabet.SameOrder R.alphabet) :
    R.compare L = (L.compare R).mapSide Side.other :=
  compare_eq_mapSide (fun _ => liveDisagreement_comm)
    (fun _ => (Alphabet.least_iff_of_sameOrder h fun _ hw => hw.mem_intersection).symm)
    fun w _ => soleAcceptor?_swap L R w

/-- Negating both machines keeps the word and swaps the sides. -/
theorem compare_recolor_not (L : Machine σ Bool) (R : Machine τ Bool) :
    (L.recolor (!·)).compare (R.recolor (!·)) = (L.compare R).mapSide Side.other :=
  compare_eq_mapSide (fun _ => liveDisagreement_recolor_not) (fun _ => Iff.rfl)
    fun _ => soleAcceptor?_recolor_not

end Machine

namespace Automaton

variable {A B : Alphabet} {c d : Char} {w : Word}

/-! ## Alphabets that differ in the order of common symbols -/

/-- Accepts the words that end in the symbol. -/
def endsIn (A : Alphabet) (c : Char) : Automaton :=
  numbered A 1 (·.val = 1) fun _ d =>
    some (if d = c then ⟨1, Nat.one_lt_two⟩ else ⟨0, Nat.zero_lt_two⟩)

theorem step_endsIn {p : Nat} (hp : p < (endsIn A c).size) (hd : d ∈ A) :
    (endsIn A c).step p d = some (if d = c then 1 else 0) := by
  rw [endsIn, size_numbered] at hp
  refine (step_numbered ⟨p, hp⟩ d).trans ?_
  rw [if_pos hd, Option.map_some]
  split <;> rfl

theorem isComplete_endsIn (A : Alphabet) (c : Char) : (endsIn A c).isComplete = true :=
  isComplete_iff.2 fun p hp d hd => by rw [step_endsIn hp hd]; rfl

/-- The automaton accepts the words that end in its symbol. -/
theorem accepts_endsIn (hw : ∀ d ∈ w, d ∈ A) :
    (endsIn A c).machine.accepts w = decide (w.getLast? = some c) := by
  obtain rfl | ⟨v, d, rfl⟩ := List.eq_nil_or_concat' w
  · rfl
  · obtain ⟨p, hp⟩ := Option.isSome_iff_exists.1
      (isSome_run_of_isComplete (isComplete_endsIn A c) fun e he => hw e (List.mem_append_left _ he))
    have hrun : (endsIn A c).machine.run (v ++ [d]) = some (if d = c then 1 else 0) := by
      rw [Machine.run, Machine.runFrom_snoc, ← Machine.run, hp, Option.bind_some]
      exact step_endsIn (lt_size_of_run hp) (hw d (by simp))
    have hcolor : (endsIn A c).machine.color (if d = c then 1 else 0) = some (decide (d = c)) := by
      by_cases h : d = c
      · rw [if_pos h, decide_eq_true h]
        rfl
      · rw [if_neg h, decide_eq_false h]
        rfl
    rw [Machine.accepts_eq_of_color hrun hcolor, decide_eq_decide, List.getLast?_concat,
      Option.some.injEq]

/-- Where the symbols differ, words of common symbols that end in one of them are disagreements. -/
theorem liveDisagreement_endsIn :
    (endsIn A c).machine.LiveDisagreement (endsIn B d).machine w ↔
      (∀ e ∈ w, e ∈ A.intersection B) ∧ ¬ (w.getLast? = some c ↔ w.getLast? = some d) := by
  have hne : (∀ e ∈ w, e ∈ A ∧ e ∈ B) →
      ((endsIn A c).machine.accepts w ≠ (endsIn B d).machine.accepts w ↔
        ¬ (w.getLast? = some c ↔ w.getLast? = some d)) := fun hw => by
    rw [accepts_endsIn fun e he => (hw e he).1, accepts_endsIn fun e he => (hw e he).2, ne_eq,
      decide_eq_decide]
  constructor
  · intro h
    have hw := h.mem_intersection
    exact ⟨hw, (hne fun e he => Alphabet.mem_intersection.1 (hw e he)).1 h.accepts_ne⟩
  · rintro ⟨hw, h⟩
    have hw : ∀ e ∈ w, e ∈ A ∧ e ∈ B := fun e he => Alphabet.mem_intersection.1 (hw e he)
    exact Machine.liveDisagreement_iff.2
      ⟨isSome_run_of_isComplete (isComplete_endsIn A c) fun e he => (hw e he).1,
        isSome_run_of_isComplete (isComplete_endsIn B d) fun e he => (hw e he).2, (hne hw).2 h⟩

/-- Of the two words with one symbol that are disagreements, the first alphabet says which is first. -/
theorem compare_endsIn (h : A.Before c d) (hc : c ∈ B) :
    (endsIn A c).machine.compare (endsIn B d).machine = .different [c] .first := by
  have hcA : c ∈ A := h.mem_left
  have hcd : c ≠ d := fun hcd => Alphabet.not_before_self A c (hcd ▸ h)
  refine Machine.compare_eq_different_iff.2 ⟨⟨?_, fun v hv hne => ?_⟩, ?_⟩
  · refine liveDisagreement_endsIn.2 ⟨fun e he => ?_, ?_⟩
    · rw [List.mem_singleton.1 he]
      exact Alphabet.mem_intersection.2 ⟨hcA, hc⟩
    · simpa using hcd
  · obtain ⟨-, hlast⟩ := liveDisagreement_endsIn.1 hv
    match v with
    | [] => exact absurd (by simp) hlast
    | [e] =>
      have hec : e ≠ c := fun he => hne (by rw [he])
      obtain rfl : e = d := by
        by_contra hed
        exact hlast (by simp [hec, hed])
      exact (List.shortlex_singleton_iff c e).2 h
    | e :: f :: v => exact .of_length_lt (by simp)
  · rw [Machine.soleAcceptor?_eq_first_iff]
    rw [accepts_endsIn (by simpa using hcA), accepts_endsIn (by simpa using hc)]
    simpa using hcd

/-- Where two common symbols stand the other way round, even the accepting side can be the same in both
orders of the machines, and no moves are missing. -/
theorem exists_compare_swap_eq_first (h : ¬ A.SameOrder B) :
    ∃ M N : Automaton, M.alphabet = A ∧ N.alphabet = B ∧ M.isComplete = true ∧
      N.isComplete = true ∧ ∃ v w, v ≠ w ∧ M.machine.compare N.machine = .different v .first ∧
        N.machine.compare M.machine = .different w .first := by
  obtain ⟨c, d, hA, hB⟩ := Alphabet.exists_before_of_not_sameOrder h
  refine ⟨endsIn A c, endsIn B d, rfl, rfl, isComplete_endsIn A c, isComplete_endsIn B d, [c], [d], ?_,
    compare_endsIn hA hB.mem_right, compare_endsIn hB hA.mem_right⟩
  intro hcd
  obtain rfl := List.singleton_injective hcd
  exact Alphabet.not_before_self A c hA

end Automaton

/-! ## All symmetries together -/

/-- The order in which two machines are given has no influence on the verdict and on the length of the
word. Where both alphabets have their common symbols in the same order it has none on the word, and the
accepting machine is on the other side. Negating all colors has no influence but on the side. -/
theorem Machine.compare_symmetries {σ τ : Type} [Comparable σ] [Comparable τ] (L : Machine σ Bool)
    (R : Machine τ Bool) :
    (R.compare L).isEquivalent = (L.compare R).isEquivalent ∧
      (R.compare L).witness?.map List.length = (L.compare R).witness?.map List.length ∧
      (L.alphabet.SameOrder R.alphabet → R.compare L = (L.compare R).mapSide Side.other) ∧
      (L.recolor (!·)).compare (R.recolor (!·)) = (L.compare R).mapSide Side.other :=
  ⟨isEquivalent_compare_swap L R, length_witness?_compare_swap L R, compare_swap,
    compare_recolor_not L R⟩

namespace Automaton

/-- One machine is stuck on `a`, and the other one has a symbol more, in the midst of the common ones. -/
theorem compare_swap_endsIn_repeats :
    Alphabet.SameOrder (.ofList ['a', 'x', 'b']) .standard ∧
      ((repeats .standard 'b').machine.recolor (!·)).run ['a'] = none ∧
      (endsIn (.ofList ['a', 'x', 'b']) 'b').machine.compare
        ((repeats .standard 'b').machine.recolor (!·)) = .different ['b'] .first ∧
      ((repeats .standard 'b').machine.recolor (!·)).compare
        (endsIn (.ofList ['a', 'x', 'b']) 'b').machine = .different ['b'] .second ∧
      ((endsIn (.ofList ['a', 'x', 'b']) 'b').machine.recolor (!·)).compare
        (((repeats .standard 'b').machine.recolor (!·)).recolor (!·)) = .different ['b'] .second := by
  have horder : Alphabet.SameOrder (.ofList ['a', 'x', 'b']) .standard := by decide
  have hcompare : (endsIn (.ofList ['a', 'x', 'b']) 'b').machine.compare
      ((repeats .standard 'b').machine.recolor (!·)) = .different ['b'] .first := by
    cbv
  obtain ⟨-, -, hswap, hnot⟩ := Machine.compare_symmetries
    (endsIn (.ofList ['a', 'x', 'b']) 'b').machine ((repeats .standard 'b').machine.recolor (!·))
  rw [hcompare] at hswap hnot
  exact ⟨horder, by cbv, hcompare, hswap horder, hnot⟩

end Automaton

end ShortestWitness
