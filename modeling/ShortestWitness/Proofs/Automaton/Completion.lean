import Mathlib
import ShortestWitness.Automaton.Completion
import ShortestWitness.Proofs.Automaton.Parts
import ShortestWitness.Proofs.Decision.Comparison

/-!
# Completion keeps the accepted words

The completion follows the automaton as long as the automaton is not stuck, and stays in the sink
from then on (`runFrom_completion`). So it accepts the same words (`accepts_completion`) and reads
all words over the alphabet to the end (`isSome_runFrom_of_isComplete`). Comparing completions is
therefore comparing the accepted words, also where the automata themselves get stuck.
-/

namespace ShortestWitness.Automaton

variable {M A B : Automaton} {p q : Nat} {c : Char} {w : Word}

/-! ## Complete automata -/

/-- In a complete automaton each state has a move on each symbol. -/
theorem isComplete_iff :
    M.isComplete = true ↔ ∀ p < M.size, ∀ c ∈ M.alphabet, (M.step p c).isSome := by
  simp only [isComplete, Array.all_eq_true, List.all_eq_true]
  refine forall_congr' fun p => forall_congr' fun hp => ?_
  have hs := Array.getElem?_eq_getElem hp
  have hlen : M.states[p].moves.length = M.alphabet.symbols.length :=
    M.length_moves _ (Array.getElem_mem hp)
  constructor
  · intro h c hc
    obtain ⟨i, hi, rfl⟩ := List.mem_iff_getElem.1 hc
    rw [step_of_symbol? hs (List.getElem?_eq_getElem hi), List.getElem?_eq_getElem (hlen ▸ hi)]
    exact h _ (List.getElem_mem _)
  · intro h m hm
    obtain ⟨i, hi, rfl⟩ := List.mem_iff_getElem.1 hm
    have hstep := h _ (List.getElem_mem (hlen ▸ hi))
    rw [step_of_symbol? hs (List.getElem?_eq_getElem (hlen ▸ hi)), List.getElem?_eq_getElem hi]
      at hstep
    exact hstep

/-- A complete automaton is never stuck on a word over its alphabet. -/
theorem isSome_runFrom_of_isComplete (h : M.isComplete = true) (hp : p < M.size)
    (hw : ∀ c ∈ w, c ∈ M.alphabet) : (M.machine.runFrom p w).isSome := by
  induction w generalizing p with
  | nil => rfl
  | cons c w ih =>
    have hc := isComplete_iff.1 h p hp c (hw c List.mem_cons_self)
    obtain ⟨q, hq⟩ := Option.isSome_iff_exists.1 hc
    have hrun : M.machine.runFrom p (c :: w) = M.machine.runFrom q w := by
      rw [Machine.runFrom_cons]
      change (M.step p c).bind _ = _
      rw [hq, Option.bind_some]
    rw [hrun]
    exact ih (target_lt_of_step hq) fun d hd => hw d (List.mem_cons_of_mem c hd)

/-- A complete automaton is stuck on no word over its symbols. -/
theorem isSome_run_of_isComplete (h : M.isComplete = true) (hw : ∀ c ∈ w, c ∈ M.alphabet) :
    (M.machine.run w).isSome :=
  isSome_runFrom_of_isComplete h M.initial_lt hw

/-! ## The completion -/

@[simp] theorem alphabet_completion (M : Automaton) : M.completion.alphabet = M.alphabet := by
  rw [completion]
  split <;> rfl

@[simp] theorem initial_completion (M : Automaton) : M.completion.initial = M.initial := by
  rw [completion]
  split <;> rfl

/-- A step of the completion is the step there was, or else leads to the sink. -/
theorem val_stepOrSink (p : Fin (M.size + 1)) (c : Char) :
    (M.stepOrSink p c).val = (M.step p c).getD M.size := by
  rw [stepOrSink]
  split <;> rename_i h
  · simp [h]
  · simp [h]

theorem size_completion (h : M.isComplete = false) : M.completion.size = M.size + 1 := by
  rw [completion, if_neg (by simp [h]), size_tabulate]

/-- Missing moves lead to the sink, which is its own target. -/
theorem step_completion (h : M.isComplete = false) (hp : p ≤ M.size) (hc : c ∈ M.alphabet) :
    M.completion.step p c = some ((M.step p c).getD M.size) := by
  have hlt : p < M.size + 1 := Nat.lt_succ_of_le hp
  rw [completion, if_neg (by simp [h])]
  refine (step_tabulate ⟨p, hlt⟩ c).trans ?_
  rw [if_pos hc, Option.map_some, val_stepOrSink]

/-- The same states accept, and the sink does not. -/
theorem isAccepting_completion (M : Automaton) (p : Nat) :
    M.completion.isAccepting p = M.isAccepting p := by
  rw [completion]
  split
  · rfl
  · by_cases hp : p < M.size + 1
    · exact isAccepting_tabulate ⟨p, hp⟩
    · -- beyond the sink there is no state, neither before nor after
      rw [Bool.eq_iff_iff]
      constructor
      · exact fun h => absurd (lt_size_of_isAccepting h) (by rwa [size_tabulate])
      · exact fun h => absurd (lt_size_of_isAccepting h) (by omega)

/-- No move of a completion is missing. -/
theorem isComplete_completion (M : Automaton) : M.completion.isComplete = true := by
  cases h : M.isComplete with
  | true => rw [completion, if_pos h, h]
  | false =>
    refine isComplete_iff.2 fun p hp c hc => ?_
    rw [size_completion h] at hp
    rw [alphabet_completion] at hc
    rw [step_completion h (by omega) hc]
    rfl

/-- The automaton itself has no state where the sink is, so no move either. -/
theorem runFrom_size (M : Automaton) (w : Word) :
    (M.machine.runFrom M.size w).getD M.size = M.size := by
  cases w with
  | nil => rfl
  | cons c w =>
    have hstep : M.machine.step M.size c = none := step_of_le (Nat.le_refl _)
    rw [Machine.runFrom_cons, hstep]
    rfl

/-- The completion ends where the automaton ends, or in the sink if the automaton is stuck. -/
theorem runFrom_completion (h : M.isComplete = false) (hp : p ≤ M.size)
    (hw : ∀ c ∈ w, c ∈ M.alphabet) :
    M.completion.machine.runFrom p w = some ((M.machine.runFrom p w).getD M.size) := by
  induction w generalizing p with
  | nil => rfl
  | cons c w ih =>
    have htail : ∀ d ∈ w, d ∈ M.alphabet := fun d hd => hw d (List.mem_cons_of_mem c hd)
    have hstep : M.completion.machine.step p c = some ((M.machine.step p c).getD M.size) :=
      step_completion h hp (hw c List.mem_cons_self)
    rw [Machine.runFrom_cons, Machine.runFrom_cons, hstep, Option.bind_some]
    cases hq : M.machine.step p c with
    | some q => exact ih (Nat.le_of_lt (target_lt_of_step hq)) htail
    | none =>
      rw [Option.getD_none, ih (Nat.le_refl _) htail, runFrom_size]
      rfl

/-- A run that was stuck ends in the sink. -/
theorem run_completion (h : M.isComplete = false) (hw : ∀ c ∈ w, c ∈ M.alphabet) :
    M.completion.machine.run w = some ((M.machine.run w).getD M.size) := by
  have hinitial : M.completion.machine.initial = M.initial := initial_completion M
  rw [Machine.run, hinitial]
  exact runFrom_completion h (Nat.le_of_lt M.initial_lt) hw

/-- Completion keeps the accepted words. -/
theorem accepts_completion (M : Automaton) (w : Word) :
    M.completion.machine.accepts w = M.machine.accepts w := by
  cases h : M.isComplete with
  | true => rw [completion, if_pos h]
  | false =>
    rw [Bool.eq_iff_iff, accepts_machine_iff, accepts_machine_iff]
    simp only [isAccepting_completion]
    constructor
    · rintro ⟨q, hq, ha⟩
      have hw : ∀ c ∈ w, c ∈ M.completion.alphabet := Machine.mem_alphabet_of_runFrom hq
      rw [alphabet_completion] at hw
      have hend := Option.some.inj ((run_completion h hw).symm.trans hq)
      cases hr : M.machine.run w with
      | some r => exact ⟨r, rfl, by simpa [← hend, hr] using ha⟩
      | none =>
        -- the run ends in the sink, which does not accept
        obtain rfl : M.size = q := by simpa [hr] using hend
        exact absurd (lt_size_of_isAccepting ha) (Nat.lt_irrefl _)
    · rintro ⟨q, hq, ha⟩
      refine ⟨q, ?_, ha⟩
      rw [run_completion h (Machine.mem_alphabet_of_runFrom hq), hq, Option.getD_some]

/-! ## Comparing completions -/

/-- Complete automata with the same symbols disagree on the words that exactly one of them accepts. -/
theorem liveDisagreement_iff_of_isComplete (hA : A.isComplete = true) (hB : B.isComplete = true)
    (h : ∀ c, c ∈ A.alphabet ↔ c ∈ B.alphabet) :
    A.machine.LiveDisagreement B.machine w ↔ A.machine.accepts w ≠ B.machine.accepts w := by
  rw [Machine.liveDisagreement_iff]
  refine ⟨fun hd => hd.2.2, fun hne => ?_⟩
  have hw : ∀ c ∈ w, c ∈ A.alphabet := by
    cases hA : A.machine.accepts w with
    | true => exact mem_alphabet_of_accepts hA
    | false =>
      have hB : B.machine.accepts w = true := by simpa [hA] using hne
      exact fun c hc => (h c).2 (mem_alphabet_of_accepts hB c hc)
  have hw' : ∀ c ∈ w, c ∈ B.alphabet := fun c hc => (h c).1 (hw c hc)
  exact ⟨isSome_run_of_isComplete hA hw, isSome_run_of_isComplete hB hw', hne⟩

/-- If the automata have the same symbols, the disagreements of their completions are the words
that exactly one of the automata accepts. -/
theorem liveDisagreement_completion_iff (h : ∀ c, c ∈ A.alphabet ↔ c ∈ B.alphabet) :
    A.completion.machine.LiveDisagreement B.completion.machine w ↔
      A.machine.accepts w ≠ B.machine.accepts w := by
  have h' : ∀ c, c ∈ A.completion.alphabet ↔ c ∈ B.completion.alphabet := by
    simpa only [alphabet_completion] using h
  rw [liveDisagreement_iff_of_isComplete (isComplete_completion A) (isComplete_completion B) h',
    accepts_completion, accepts_completion]

/-- Comparing the completions of automata with the same symbols decides whether the automata
accept the same words, and finds the first word that only one of them accepts. -/
theorem compare_completion_exact (A B : Automaton) (h : ∀ c, c ∈ A.alphabet ↔ c ∈ B.alphabet) :
    (A.completion.machine.compare B.completion.machine = .equivalent ↔
        ∀ w, A.machine.accepts w = B.machine.accepts w) ∧
      (∀ w, (∃ side, A.completion.machine.compare B.completion.machine = .different w side) ↔
        A.alphabet.Least (fun v => A.machine.accepts v ≠ B.machine.accepts v) w) ∧
      (∀ w, A.completion.machine.compare B.completion.machine = .different w .first →
        A.machine.accepts w = true ∧ B.machine.accepts w = false) ∧
      (∀ w, A.completion.machine.compare B.completion.machine = .different w .second →
        A.machine.accepts w = false ∧ B.machine.accepts w = true) := by
  have halphabet : A.completion.machine.alphabet = A.alphabet := alphabet_completion A
  have hdifferent : ∀ {w side},
      A.completion.machine.compare B.completion.machine = .different w side ↔
        A.alphabet.Least (fun v => A.machine.accepts v ≠ B.machine.accepts v) w ∧
          A.completion.machine.soleAcceptor? B.completion.machine w = some side := by
    intro w side
    rw [Machine.compare_eq_different_iff, halphabet,
      Alphabet.Least.congr fun _ => liveDisagreement_completion_iff h]
  refine ⟨?_, fun w => ⟨?_, fun hw => ?_⟩, fun w hw => ?_, fun w hw => ?_⟩
  · simp only [Machine.compare_eq_equivalent_iff, liveDisagreement_completion_iff h, not_not]
  · rintro ⟨side, hside⟩
    exact (hdifferent.1 hside).1
  · have hlive := (liveDisagreement_completion_iff h).2 hw.1
    exact ⟨_, hdifferent.2 ⟨hw, Machine.soleAcceptor?_of_ne hlive.accepts_ne⟩⟩
  · rw [← accepts_completion A, ← accepts_completion B]
    exact Machine.soleAcceptor?_eq_first_iff.1 (hdifferent.1 hw).2
  · rw [← accepts_completion A, ← accepts_completion B]
    exact Machine.soleAcceptor?_eq_second_iff.1 (hdifferent.1 hw).2

/-- The automaton with one state, which accepts, and with a move on one symbol only. -/
def repeats (A : Alphabet) (c : Char) : Automaton :=
  tabulate A (0 : Fin 1) (fun p => numberedName p) (fun _ => Subsingleton.elim ..) (fun _ => true)
    fun p d => if d = c then some p else none

/-- One automaton is stuck on `b` and the other one on `a`, and `b` comes first in the alphabet of
the first one. -/
theorem compare_completion_repeats :
    (∀ c, c ∈ (repeats (.ofList ['b', 'a']) 'a').alphabet ↔ c ∈ (repeats .standard 'b').alphabet) ∧
      (repeats (.ofList ['b', 'a']) 'a').completion.machine.compare
        (repeats .standard 'b').completion.machine = .different ['b'] .second ∧
      (repeats (.ofList ['b', 'a']) 'a').alphabet.Least (fun v =>
        (repeats (.ofList ['b', 'a']) 'a').machine.accepts v ≠
          (repeats .standard 'b').machine.accepts v) ['b'] ∧
      (repeats (.ofList ['b', 'a']) 'a').machine.accepts ['b'] = false ∧
      (repeats .standard 'b').machine.accepts ['b'] = true := by
  have hsame : ∀ c, c ∈ (repeats (.ofList ['b', 'a']) 'a').alphabet ↔
      c ∈ (repeats .standard 'b').alphabet := fun c => by
    simp [repeats, Alphabet.mem_def, Alphabet.ofList, Alphabet.mem_distinct, Alphabet.standard,
      or_comm]
  have hcompare : (repeats (.ofList ['b', 'a']) 'a').completion.machine.compare
      (repeats .standard 'b').completion.machine = .different ['b'] .second := by
    cbv
  have h := compare_completion_exact (repeats (.ofList ['b', 'a']) 'a') (repeats .standard 'b') hsame
  exact ⟨hsame, hcompare, (h.2.1 _).1 ⟨_, hcompare⟩, h.2.2.2 _ hcompare⟩

end ShortestWitness.Automaton
