import Mathlib
import ShortestWitness.Proofs.Decision.Combination

/-!
# What stuck machines hide

A word that one machine accepts while the other one is stuck on it tells the machines apart, but no
comparison sees it, since the product is stuck as well. Together with the disagreements that are seen
these words are all on which acceptance differs (`accepts_ne_iff`). Completions are never stuck, so
comparing them sees everything that is made of common symbols (`liveDisagreement_completion`). Their
comparison therefore comes to the same result as that of the automata themselves unless its word has
been hidden (`compare_eq_or_hidden`).
-/

namespace ShortestWitness

namespace Machine

variable {σ τ : Type} {L : Machine σ Bool} {R : Machine τ Bool} {w : Word}

/-- One machine accepts the word and the other one is stuck on it. -/
def HiddenDisagreement (L : Machine σ Bool) (R : Machine τ Bool) (w : Word) : Prop :=
  L.accepts w = true ∧ R.run w = none ∨ R.accepts w = true ∧ L.run w = none

theorem isSome_run_of_accepts (h : L.accepts w = true) : (L.run w).isSome := by
  obtain ⟨p, hp, -⟩ := accepts_iff.1 h
  exact Option.isSome_iff_exists.2 ⟨p, hp⟩

theorem accepts_of_run_eq_none (h : L.run w = none) : L.accepts w = false := by
  apply Bool.eq_false_iff.2
  intro ha
  have hrun := isSome_run_of_accepts ha
  rw [h] at hrun
  cases hrun

theorem HiddenDisagreement.accepts_ne (h : L.HiddenDisagreement R w) : L.accepts w ≠ R.accepts w := by
  rcases h with ⟨hL, hR⟩ | ⟨hR, hL⟩
  · rw [hL, accepts_of_run_eq_none hR]
    decide
  · rw [hR, accepts_of_run_eq_none hL]
    decide

/-- Acceptance differs where the comparison can see it and where a machine is stuck, nowhere else. -/
theorem accepts_ne_iff :
    L.accepts w ≠ R.accepts w ↔ L.LiveDisagreement R w ∨ L.HiddenDisagreement R w := by
  constructor
  · intro hne
    rw [liveDisagreement_iff]
    cases hL : L.run w with
    | none =>
      -- the machine that is stuck rejects, so the other one accepts
      rw [accepts_of_run_eq_none hL] at hne
      exact .inr (.inr ⟨Bool.eq_true_of_not_eq_false hne.symm, hL⟩)
    | some p =>
      cases hR : R.run w with
      | none =>
        rw [accepts_of_run_eq_none hR] at hne
        exact .inr (.inl ⟨Bool.eq_true_of_not_eq_false hne, hR⟩)
      | some q => exact .inl ⟨rfl, rfl, hne⟩
  · intro h
    rcases h with h | h
    · exact h.accepts_ne
    · exact h.accepts_ne

end Machine

namespace Automaton

variable {A B : Automaton} {v w : Word} {side : Side}

/-- Completions disagree on all words over the common symbols on which acceptance differs. -/
theorem liveDisagreement_completion :
    A.completion.machine.LiveDisagreement B.completion.machine w ↔
      (∀ c ∈ w, c ∈ A.alphabet.intersection B.alphabet) ∧
        A.machine.accepts w ≠ B.machine.accepts w := by
  rw [← accepts_completion A, ← accepts_completion B]
  constructor
  · intro h
    have hw := h.mem_intersection
    refine ⟨fun c hc => ?_, h.accepts_ne⟩
    have hc := hw c hc
    rw [show A.completion.machine.alphabet = A.alphabet from alphabet_completion A,
      show B.completion.machine.alphabet = B.alphabet from alphabet_completion B] at hc
    exact hc
  · intro h
    obtain ⟨hw, hne⟩ := h
    have hA : ∀ c ∈ w, c ∈ A.completion.alphabet := fun c hc => by
      rw [alphabet_completion]
      exact (Alphabet.mem_intersection.1 (hw c hc)).1
    have hB : ∀ c ∈ w, c ∈ B.completion.alphabet := fun c hc => by
      rw [alphabet_completion]
      exact (Alphabet.mem_intersection.1 (hw c hc)).2
    exact Machine.liveDisagreement_iff.2 ⟨isSome_run_of_isComplete (isComplete_completion A) hA,
      isSome_run_of_isComplete (isComplete_completion B) hB, hne⟩

/-- What the automata show when they are compared, their completions show as well. -/
theorem liveDisagreement_completion_of_liveDisagreement
    (h : A.machine.LiveDisagreement B.machine w) :
    A.completion.machine.LiveDisagreement B.completion.machine w :=
  liveDisagreement_completion.2 ⟨h.mem_intersection, h.accepts_ne⟩

/-- The completions differ on the first word on which one accepts and the other does not. -/
theorem compare_completion_eq_different_iff :
    A.completion.machine.compare B.completion.machine = .different w side ↔
      A.alphabet.Least (A.completion.machine.LiveDisagreement B.completion.machine) w ∧
        A.machine.soleAcceptor? B.machine w = some side := by
  have halphabet : A.completion.machine.alphabet = A.alphabet := alphabet_completion A
  have hsole : A.completion.machine.soleAcceptor? B.completion.machine w =
      A.machine.soleAcceptor? B.machine w := by
    rw [Machine.soleAcceptor?, Machine.soleAcceptor?, accepts_completion, accepts_completion]
  rw [Machine.compare_eq_different_iff, halphabet, hsole]

/-- The word of the completions is the word of the automata unless it has been hidden. -/
theorem compare_eq_or_hidden
    (h : A.completion.machine.compare B.completion.machine = .different w side) :
    A.machine.compare B.machine = .different w side ∨ A.machine.HiddenDisagreement B.machine w := by
  obtain ⟨hleast, hside⟩ := compare_completion_eq_different_iff.1 h
  rcases Machine.accepts_ne_iff.1 (liveDisagreement_completion.1 hleast.1).2 with hlive | hhidden
  · left
    refine Machine.compare_eq_different_iff.2 ⟨⟨hlive, fun v hv hne => ?_⟩, hside⟩
    exact hleast.2 v (liveDisagreement_completion_of_liveDisagreement hv) hne
  · exact .inr hhidden

/-- A disagreement that is seen makes the completions differ, on this word or on one before it. -/
theorem exists_compare_completion_eq_different
    (h : A.machine.LiveDisagreement B.machine w) :
    ∃ v side, A.completion.machine.compare B.completion.machine = .different v side ∧
      A.alphabet.ShortlexLe v w := by
  have hlive := liveDisagreement_completion_of_liveDisagreement h
  cases hresult : A.completion.machine.compare B.completion.machine with
  | equivalent => exact absurd hlive (Machine.compare_eq_equivalent_iff.1 hresult w)
  | different v side =>
    have hleast := (compare_completion_eq_different_iff.1 hresult).1
    exact ⟨v, side, rfl, (Alphabet.least_iff.1 hleast).2 w hlive⟩

/-- Comparing the completions shows all that comparing the automata shows, and not later. What it
shows beyond that is a word that only one automaton accepts and the other one is stuck on. -/
theorem compare_completion_refines (A B : Automaton) :
    (∀ w side, A.machine.compare B.machine = .different w side →
      ∃ v side', A.completion.machine.compare B.completion.machine = .different v side' ∧
        A.alphabet.ShortlexLe v w) ∧
      (A.completion.machine.compare B.completion.machine = .equivalent →
        A.machine.compare B.machine = .equivalent) ∧
      ∀ v side, A.machine.compare B.machine = .equivalent →
        A.completion.machine.compare B.completion.machine = .different v side →
        (side = .first ∧ A.machine.accepts v = true ∧ B.machine.accepts v = false ∧
            B.machine.run v = none) ∨
          (side = .second ∧ A.machine.accepts v = false ∧ B.machine.accepts v = true ∧
            A.machine.run v = none) := by
  refine ⟨fun w side h => ?_, fun h => ?_, fun v side h hcompletion => ?_⟩
  · exact exists_compare_completion_eq_different (Machine.compare_eq_different_iff.1 h).1.1
  · apply Machine.compare_eq_equivalent_iff.2
    intro w hw
    have hlive := liveDisagreement_completion_of_liveDisagreement hw
    exact Machine.compare_eq_equivalent_iff.1 h w hlive
  · have hside := (compare_completion_eq_different_iff.1 hcompletion).2
    rcases compare_eq_or_hidden hcompletion with hdifferent | hhidden
    · rw [h] at hdifferent
      cases hdifferent
    · rcases hhidden with ⟨hA, hB⟩ | ⟨hB, hA⟩
      · have hrejects := Machine.accepts_of_run_eq_none hB
        rw [Machine.soleAcceptor?_eq_first_iff.2 ⟨hA, hrejects⟩, Option.some.injEq] at hside
        exact .inl ⟨hside.symm, hA, hrejects, hB⟩
      · have hrejects := Machine.accepts_of_run_eq_none hA
        rw [Machine.soleAcceptor?_eq_second_iff.2 ⟨hrejects, hB⟩, Option.some.injEq] at hside
        exact .inr ⟨hside.symm, hrejects, hB, hA⟩

/-- Accepts the words whose number of symbols is not two more than a multiple of three. -/
def notTwoModThree : Automaton := counter .standard 2 (·.val ≠ 2)

/-- The completions differ on `b`, which comes before the word on which the automata differ. One of the
automata is stuck on it, and against an automaton that is stuck on `a` it hides all there is. -/
theorem compare_completion_refines_repeats :
    (repeats (.ofList ['b', 'a', 'x']) 'a').machine.compare notTwoModThree.machine =
        .different ['a', 'a'] .first ∧
      (repeats (.ofList ['b', 'a', 'x']) 'a').completion.machine.compare
        notTwoModThree.completion.machine = .different ['b'] .second ∧
      (repeats (.ofList ['b', 'a', 'x']) 'a').alphabet.ShortlexLe ['b'] ['a', 'a'] ∧
      (repeats (.ofList ['b', 'a', 'x']) 'a').machine.compare (repeats .standard 'b').machine =
        .equivalent ∧
      (repeats (.ofList ['b', 'a', 'x']) 'a').completion.machine.compare
        (repeats .standard 'b').completion.machine = .different ['b'] .second ∧
      (repeats (.ofList ['b', 'a', 'x']) 'a').machine.run ['b'] = none ∧
      (repeats .standard 'b').machine.accepts ['b'] = true := by
  have hseen : (repeats (.ofList ['b', 'a', 'x']) 'a').machine.compare notTwoModThree.machine =
      .different ['a', 'a'] .first := by
    cbv
  have hbefore : (repeats (.ofList ['b', 'a', 'x']) 'a').completion.machine.compare
      notTwoModThree.completion.machine = .different ['b'] .second := by
    cbv
  have hequivalent : (repeats (.ofList ['b', 'a', 'x']) 'a').machine.compare
      (repeats .standard 'b').machine = .equivalent := by
    cbv
  have hhidden : (repeats (.ofList ['b', 'a', 'x']) 'a').completion.machine.compare
      (repeats .standard 'b').completion.machine = .different ['b'] .second := by
    cbv
  obtain ⟨v, side, hv, hle⟩ :=
    (compare_completion_refines (repeats (.ofList ['b', 'a', 'x']) 'a') notTwoModThree).1 _ _ hseen
  rw [hbefore] at hv
  cases hv
  rcases (compare_completion_refines (repeats (.ofList ['b', 'a', 'x']) 'a')
    (repeats .standard 'b')).2.2 _ _ hequivalent hhidden with ⟨hside, -⟩ | ⟨-, -, haccepts, hstuck⟩
  · cases hside
  · exact ⟨hseen, hbefore, hle, hequivalent, hhidden, hstuck, haccepts⟩

end Automaton

end ShortestWitness
