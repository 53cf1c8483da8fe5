import Mathlib
import ShortestWitness.Proofs.Decision.Symmetry

/-!
# Where equivalence is transitive

No machine is told apart from itself (`compare_self`). But a machine that is stuck hides disagreements
of the machines that it is compared with, so that a machine without moves stands between any two that
agree on the empty word (`exists_between`). What lies in the middle has to read every word that both
ends read (`compare_trans`), as a complete automaton does that has all of their common symbols
(`equivalent_trans`). Complete automata over the same symbols hide nothing from each other: they are
equivalent if they accept the same words (`equivalent_iff_of_isComplete`).
-/

namespace ShortestWitness

namespace Machine

variable {σ τ υ : Type} {L : Machine σ Bool} {M : Machine τ Bool} {R : Machine υ Bool} {w : Word}

/-- Either end disagrees with the middle if the middle reads the word. -/
theorem LiveDisagreement.left_or_right (h : L.LiveDisagreement R w) (hM : (M.run w).isSome) :
    L.LiveDisagreement M w ∨ M.LiveDisagreement R w := by
  obtain ⟨hL, hR, hne⟩ := liveDisagreement_iff.1 h
  by_cases heq : L.accepts w = M.accepts w
  · exact .inr (liveDisagreement_iff.2 ⟨hM, hR, heq ▸ hne⟩)
  · exact .inl (liveDisagreement_iff.2 ⟨hL, hM, heq⟩)

/-- A machine that is stuck at once has no disagreement but on the empty word. -/
theorem liveDisagreement_iff_of_stuck (h : ∀ c, M.step M.initial c = none) :
    L.LiveDisagreement M w ↔ w = [] ∧ L.accepts [] ≠ M.accepts [] := by
  rw [liveDisagreement_iff]
  constructor
  · rintro ⟨-, hM, hne⟩
    cases w with
    | nil => exact ⟨rfl, hne⟩
    | cons c w =>
      rw [run, runFrom_cons, h] at hM
      cases hM
  · rintro ⟨rfl, hne⟩
    exact ⟨rfl, rfl, hne⟩

variable [Comparable σ] [Comparable τ] [Comparable υ]

/-- No word tells a machine from itself. -/
theorem compare_self (L : Machine σ Bool) : L.compare L = .equivalent :=
  compare_eq_equivalent_iff.2 fun _ h => h.accepts_ne rfl

/-- Equivalence goes through a machine that reads whatever both ends read. -/
theorem compare_trans (hread : ∀ w, (L.run w).isSome → (R.run w).isSome → (M.run w).isSome)
    (hL : L.compare M = .equivalent) (hR : M.compare R = .equivalent) :
    L.compare R = .equivalent := by
  rw [compare_eq_equivalent_iff] at hL hR ⊢
  intro w h
  obtain ⟨hl, hr, -⟩ := liveDisagreement_iff.1 h
  rcases h.left_or_right (hread w hl hr) with hw | hw
  · exact hL w hw
  · exact hR w hw

end Machine

namespace Automaton

variable {A B C : Automaton}

theorem equivalent_iff : A.equivalent B = true ↔ A.machine.compare B.machine = .equivalent :=
  Comparison.isEquivalent_iff

/-- A complete automaton reads all words over its symbols, so all that both ends read. -/
theorem equivalent_trans (hB : B.isComplete = true)
    (hsymbols : ∀ c, c ∈ A.alphabet → c ∈ C.alphabet → c ∈ B.alphabet)
    (hAB : A.equivalent B = true) (hBC : B.equivalent C = true) : A.equivalent C = true := by
  rw [equivalent_iff] at hAB hBC ⊢
  refine Machine.compare_trans (fun w hA hC => ?_) hAB hBC
  obtain ⟨p, hp⟩ := Option.isSome_iff_exists.1 hA
  obtain ⟨q, hq⟩ := Option.isSome_iff_exists.1 hC
  refine isSome_run_of_isComplete hB fun c hc => hsymbols c ?_ ?_
  · exact Machine.mem_alphabet_of_runFrom hp c hc
  · exact Machine.mem_alphabet_of_runFrom hq c hc

/-- Complete automata over the same symbols are equivalent just if they accept the same words. -/
theorem equivalent_iff_of_isComplete (hA : A.isComplete = true) (hB : B.isComplete = true)
    (h : ∀ c, c ∈ A.alphabet ↔ c ∈ B.alphabet) :
    A.equivalent B = true ↔ ∀ w, A.machine.accepts w = B.machine.accepts w := by
  rw [equivalent_iff, Machine.compare_eq_equivalent_iff]
  simp only [liveDisagreement_iff_of_isComplete hA hB h, not_not]

/-- The complete automata over one set of symbols, in whatever order. -/
structure CompleteOver (symbols : Set Char) where
  automaton : Automaton
  isComplete : automaton.isComplete = true
  mem_alphabet : ∀ c, c ∈ automaton.alphabet ↔ c ∈ symbols

theorem CompleteOver.equivalent_iff {symbols : Set Char} (M N : CompleteOver symbols) :
    M.automaton.equivalent N.automaton = true ↔
      ∀ w, M.automaton.machine.accepts w = N.automaton.machine.accepts w :=
  equivalent_iff_of_isComplete M.isComplete N.isComplete fun c =>
    (M.mem_alphabet c).trans (N.mem_alphabet c).symm

/-! ## A middle that hides everything -/

/-- One state and no moves. -/
def motionless (A : Alphabet) (accepting : Bool) : Automaton :=
  numbered A 0 (fun _ => accepting) fun _ _ => none

@[simp] theorem alphabet_motionless (A : Alphabet) (accepting : Bool) :
    (motionless A accepting).alphabet = A := rfl

theorem step_motionless (A : Alphabet) (accepting : Bool) (c : Char) :
    (motionless A accepting).machine.step (motionless A accepting).machine.initial c = none := by
  change (motionless A accepting).step (Fin.val (0 : Fin 1)) c = none
  rw [motionless, step_numbered]
  split <;> rfl

/-- Machines that agree on the empty word have an automaton between them over any alphabet, even a
complete one over no symbols: neither completeness nor the common symbols can be dispensed with. -/
theorem exists_between {σ τ : Type} [Comparable σ] [Comparable τ] (A : Alphabet) (L : Machine σ Bool)
    (R : Machine τ Bool) (h : L.accepts [] = R.accepts []) :
    ∃ M : Automaton, M.alphabet = A ∧ (A.symbols = [] → M.isComplete = true) ∧
      L.compare M.machine = .equivalent ∧ M.machine.compare R = .equivalent := by
  have hempty : (motionless A (L.accepts [])).machine.accepts [] = L.accepts [] :=
    Machine.accepts_eq_of_color rfl rfl
  have hstuck := step_motionless A (L.accepts [])
  refine ⟨motionless A (L.accepts []), rfl, fun hA => isComplete_iff.2 fun p _ c hc => ?_, ?_, ?_⟩
  · rw [Alphabet.mem_def, alphabet_motionless, hA] at hc
    cases hc
  · refine Machine.compare_eq_equivalent_iff.2 fun w hw => ?_
    exact ((Machine.liveDisagreement_iff_of_stuck hstuck).1 hw).2 hempty.symm
  · refine Machine.compare_eq_equivalent_iff.2 fun w hw => ?_
    have hw := (Machine.liveDisagreement_iff_of_stuck hstuck).1 (Machine.liveDisagreement_comm.1 hw)
    exact hw.2 (h.symm.trans hempty.symm)

/-! ## The reach of equivalence -/

/-- Every machine is equivalent to itself. Equivalence goes through complete automata that have all the
common symbols of the ends. So it is an equivalence relation between complete automata over the same
symbols, and two of these are equivalent just if they accept the same words. -/
theorem equivalent_exact :
    (∀ {σ : Type} [Comparable σ] (S : Machine σ Bool), S.compare S = .equivalent) ∧
      (∀ A B C : Automaton, B.isComplete = true →
        (∀ c, c ∈ A.alphabet → c ∈ C.alphabet → c ∈ B.alphabet) →
        A.equivalent B = true → B.equivalent C = true → A.equivalent C = true) ∧
      ∀ symbols : Set Char,
        Equivalence (fun M N : CompleteOver symbols => M.automaton.equivalent N.automaton = true) ∧
          ∀ M N : CompleteOver symbols, M.automaton.equivalent N.automaton = true ↔
            ∀ w, M.automaton.machine.accepts w = N.automaton.machine.accepts w := by
  refine ⟨Machine.compare_self, fun A B C => equivalent_trans, fun symbols =>
    ⟨⟨fun M => ?_, fun {M N} h => ?_, fun {M N K} h h' => ?_⟩, CompleteOver.equivalent_iff⟩⟩
  · exact equivalent_iff.2 (Machine.compare_self _)
  · exact (Machine.isEquivalent_compare_swap _ _).trans h
  · exact equivalent_trans N.isComplete (fun c hc _ => (N.mem_alphabet c).2 ((M.mem_alphabet c).1 hc)) h h'

/-- Accepts an even number of one symbol, and is stuck on the others. -/
def evenlyMany (A : Alphabet) (c : Char) : Automaton :=
  numbered A 1 (·.val = 0) fun p d => if d = c then some p.rev else none

@[simp] theorem alphabet_evenlyMany (A : Alphabet) (c : Char) : (evenlyMany A c).alphabet = A := rfl

/-- The ends have one common symbol, and further symbols each, on which they are stuck. Counting modulo
four with every other state accepting is counting modulo two, whatever the order of the symbols. -/
theorem equivalent_evenlyMany :
    (evenlyMany (.ofList ['a', 'x']) 'a').isComplete = false ∧
      (evenLength .standard).isComplete = true ∧
      (∀ c, c ∈ (evenlyMany (.ofList ['a', 'x']) 'a').alphabet →
        c ∈ (evenlyMany (.ofList ['y', 'a']) 'a').alphabet → c ∈ (evenLength .standard).alphabet) ∧
      (evenlyMany (.ofList ['a', 'x']) 'a').equivalent (evenLength .standard) = true ∧
      (evenLength .standard).equivalent (evenlyMany (.ofList ['y', 'a']) 'a') = true ∧
      (evenlyMany (.ofList ['a', 'x']) 'a').equivalent (evenlyMany (.ofList ['y', 'a']) 'a') = true ∧
      ∀ w, (evenLength .standard).machine.accepts w =
        (counter (.ofList ['b', 'a']) 3 (·.val % 2 = 0)).machine.accepts w := by
  have heven : (evenLength .standard).isComplete = true := by cbv
  have hcounter : (counter (.ofList ['b', 'a']) 3 (·.val % 2 = 0)).isComplete = true := by cbv
  have hsymbols : ∀ c, c ∈ (evenlyMany (.ofList ['a', 'x']) 'a').alphabet →
      c ∈ (evenlyMany (.ofList ['y', 'a']) 'a').alphabet → c ∈ (evenLength .standard).alphabet := by
    intro c hA hC
    have hA : c = 'a' ∨ c = 'x' := by
      simpa [Alphabet.mem_def, Alphabet.ofList, Alphabet.mem_distinct] using hA
    rcases hA with rfl | rfl
    · decide
    · exact absurd hC (by decide)
  have hleft : (evenlyMany (.ofList ['a', 'x']) 'a').equivalent (evenLength .standard) = true := by
    cbv
  have hright : (evenLength .standard).equivalent (evenlyMany (.ofList ['y', 'a']) 'a') = true := by
    cbv
  obtain ⟨-, htrans, hclasses⟩ := equivalent_exact
  have haccepts := (hclasses {c | c ∈ Alphabet.standard}).2 ⟨evenLength .standard, heven, fun c => Iff.rfl⟩
    ⟨counter (.ofList ['b', 'a']) 3 (·.val % 2 = 0), hcounter, fun c => by
      simp [Alphabet.mem_def, Alphabet.ofList, Alphabet.mem_distinct, Alphabet.standard, or_comm]⟩
  exact ⟨by cbv, heven, hsymbols, hleft, hright, htrans _ _ _ heven hsymbols hleft hright,
    haccepts.1 (by cbv)⟩

end Automaton

end ShortestWitness
