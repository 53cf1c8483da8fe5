import Mathlib
import ShortestWitness.Proofs.Automaton.Draft
import ShortestWitness.Proofs.Decision.Symmetry
import ShortestWitness.Proofs.Machine.Path

/-!
# The first word that tells two states apart

The search for a separating word starts at any two states, reachable or not, and finds the first word
that both read to the end and exactly one of them accepts (`separatingWord_eq_some_iff`). Since it is the
first one, what is left of it after some symbols is the first one for the states that these symbols lead
to (`separatingWord_append`). It is also what comparing two automata finds that differ in nothing but
their initial states (`witness?_compare_startingAt`).
-/

namespace ShortestWitness.Automaton

variable {M N : Automaton} {p q : Nat} {c : Char} {u v w : Word}

/-- Both states read the word to its end, and exactly one of them accepts it. -/
def Separates (M : Automaton) (p q : Nat) (w : Word) : Prop :=
  ∃ p' q', M.machine.runFrom p w = some p' ∧ M.machine.runFrom q w = some q' ∧
    M.isAccepting p' ≠ M.isAccepting q'

theorem Separates.symm (h : M.Separates p q w) : M.Separates q p w := by
  obtain ⟨p', q', hp, hq, hne⟩ := h
  exact ⟨q', p', hq, hp, hne.symm⟩

theorem separates_comm : M.Separates p q w ↔ M.Separates q p w := ⟨Separates.symm, Separates.symm⟩

theorem Separates.mem_alphabet (h : M.Separates p q w) : ∀ c ∈ w, c ∈ M.alphabet := by
  obtain ⟨p', q', hp, -, -⟩ := h
  exact Machine.mem_alphabet_of_runFrom hp

/-- From a pair of states the symmetric difference accepts the words that separate the states. -/
theorem acceptsFrom_symmetricDifference_iff_separates (hp : p < M.size) (hq : q < M.size) :
    (M.machine.symmetricDifference M.machine).AcceptsFrom (p, q) w ↔ M.Separates p q w := by
  rw [Machine.acceptsFrom_symmetricDifference_iff (isSome_color_of_lt hp) (isSome_color_of_lt hq)]
  refine exists_congr fun p' => exists_congr fun q' => ?_
  rw [← isAccepting_iff, ← isAccepting_iff, ← Bool.eq_iff_iff]

/-! ## The search -/

theorem separatingWord_of_lt (hp : p < M.size) (hq : q < M.size) : M.separatingWord p q =
    (M.machine.symmetricDifference M.machine).shortestWordFrom (p, q) := by
  rw [separatingWord, if_pos ⟨hp, hq⟩]

theorem lt_size_of_separatingWord (h : M.separatingWord p q = some w) : p < M.size ∧ q < M.size := by
  rw [separatingWord] at h
  split at h <;> rename_i hlt
  · exact hlt
  · cases h

/-- The word that is found is the first one that separates the states. -/
theorem separatingWord_eq_some_iff : M.separatingWord p q = some w ↔
    p < M.size ∧ q < M.size ∧ M.alphabet.Least (M.Separates p q) w := by
  have hiff : p < M.size → q < M.size →
      (M.separatingWord p q = some w ↔ M.alphabet.Least (M.Separates p q) w) := by
    intro hp hq
    have hsub : (M.alphabet.intersection M.alphabet).symbols.Sublist M.alphabet.symbols :=
      Alphabet.intersection_sublist M.alphabet M.alphabet
    rw [separatingWord_of_lt hp hq, Machine.shortestWordFrom_eq_some_iff,
      Alphabet.Least.congr fun _ => acceptsFrom_symmetricDifference_iff_separates hp hq]
    apply Alphabet.least_iff_of_sublist hsub
    intro v hv c hc
    exact Alphabet.mem_intersection.2 ⟨hv.mem_alphabet c hc, hv.mem_alphabet c hc⟩
  constructor
  · intro h
    obtain ⟨hp, hq⟩ := lt_size_of_separatingWord h
    exact ⟨hp, hq, (hiff hp hq).1 h⟩
  · intro h
    obtain ⟨hp, hq, hleast⟩ := h
    exact (hiff hp hq).2 hleast

/-- If no word is found, there is none or one of the numbers is no state. -/
theorem separatingWord_eq_none_iff : M.separatingWord p q = none ↔
    ¬ (p < M.size ∧ q < M.size ∧ ∃ w, M.Separates p q w) := by
  by_cases hpq : p < M.size ∧ q < M.size
  · obtain ⟨hp, hq⟩ := hpq
    rw [separatingWord_of_lt hp hq, Machine.shortestWordFrom_eq_none_iff]
    simp only [acceptsFrom_symmetricDifference_iff_separates hp hq, hp, hq, true_and, not_exists]
  · rw [separatingWord, if_neg hpq]
    refine iff_of_true rfl fun h => hpq ⟨h.1, h.2.1⟩

/-- The order of the states does not matter, since there is only one alphabet. -/
theorem separatingWord_comm (M : Automaton) (p q : Nat) :
    M.separatingWord q p = M.separatingWord p q := by
  apply Option.ext
  intro w
  rw [separatingWord_eq_some_iff, separatingWord_eq_some_iff,
    Alphabet.Least.congr fun _ => separates_comm]
  exact and_left_comm

/-- What is left of the word is found where the symbols before it have led to. -/
theorem separatingWord_append (h : M.separatingWord p q = some (u ++ v)) :
    ∃ p' q', M.machine.runFrom p u = some p' ∧ M.machine.runFrom q u = some q' ∧
      M.separatingWord p' q' = some v := by
  obtain ⟨hp, hq⟩ := lt_size_of_separatingWord h
  rw [separatingWord_of_lt hp hq, Machine.shortestWordFrom_eq_some_iff] at h
  obtain ⟨⟨p', q'⟩, hrun, -⟩ := Machine.acceptsFrom_append_iff.1 h.1
  obtain ⟨hp', hq'⟩ := Machine.runFrom_product_eq_some_iff.1 hrun
  refine ⟨p', q', hp', hq', ?_⟩
  rw [separatingWord_of_lt (lt_size_of_runFrom hp hp') (lt_size_of_runFrom hq hq'),
    Machine.shortestWordFrom_eq_some_iff]
  exact Machine.least_of_append h hrun

/-- After its first symbol the word separates the states that the symbol leads to. -/
theorem separatingWord_cons (h : M.separatingWord p q = some (c :: w)) :
    ∃ p' q', M.step p c = some p' ∧ M.step q c = some q' ∧ M.separatingWord p' q' = some w := by
  obtain ⟨p', q', hp, hq, hw⟩ := separatingWord_append (u := [c]) h
  obtain ⟨r, hr, hrp⟩ := Machine.runFrom_cons_eq_some_iff.1 hp
  obtain ⟨s, hs, hsq⟩ := Machine.runFrom_cons_eq_some_iff.1 hq
  cases hrp
  cases hsq
  exact ⟨p', q', hr, hs, hw⟩

/-! ## Other initial states -/

/-- The automaton with another one of its states for the initial one. -/
def startingAt (M : Automaton) (p : Fin M.size) : Automaton :=
  { M with initial := p, initial_lt := p.isLt }

theorem run_startingAt (M : Automaton) (p : Fin M.size) (w : Word) :
    (M.startingAt p).machine.run w = M.machine.runFrom p w := rfl

theorem liveDisagreement_startingAt_iff {p q : Fin M.size} :
    (M.startingAt p).machine.LiveDisagreement (M.startingAt q).machine w ↔ M.Separates p q w := by
  refine exists_congr fun p' => exists_congr fun q' => ?_
  rw [run_startingAt, run_startingAt, ← isAccepting_iff, ← isAccepting_iff, ← Bool.eq_iff_iff]
  rfl

/-- Two states are separated by the word on which the automata that start at them differ. -/
theorem witness?_compare_startingAt (M : Automaton) (p q : Fin M.size) :
    ((M.startingAt p).machine.compare (M.startingAt q).machine).witness? =
      M.separatingWord p q := by
  apply Option.ext
  intro w
  rw [Machine.witness?_compare_eq_some_iff, separatingWord_eq_some_iff,
    Alphabet.Least.congr fun _ => liveDisagreement_startingAt_iff]
  exact ⟨fun h => ⟨p.isLt, q.isLt, h⟩, fun h => h.2.2⟩

/-- A draft from which the automaton is built with one initial state is built with any other one. -/
theorem build_startingAt {d : Draft} {initial : Nat} (h : d.build initial = .ok M)
    (p : Fin M.size) : d.build p = .ok (M.startingAt p) := by
  obtain ⟨hd, rfl⟩ := Draft.build_eq_ok_iff.1 h
  have hp : p.val < d.size := p.isLt.trans_eq (Draft.size_automaton hd)
  exact Draft.build_eq_ok_iff.2 ⟨{ hd with initial_lt := hp }, rfl⟩

/-- The separating word is the first word that both states read to the end and exactly one of them
accepts, in either order of the states, and the first word on which the same automata with these two
initial states differ. Without its first symbol it is the separating word of the states that the symbol
leads to. -/
theorem separatingWord_exact (M : Automaton) :
    (∀ p q w, M.separatingWord p q = some w ↔
      p < M.size ∧ q < M.size ∧ M.alphabet.Least (M.Separates p q) w) ∧
      (∀ p q, M.separatingWord p q = none ↔
        ¬ (p < M.size ∧ q < M.size ∧ ∃ w, M.Separates p q w)) ∧
      (∀ p q, M.separatingWord p q = M.separatingWord q p) ∧
      (∀ p q : Fin M.size,
        ((M.startingAt p).machine.compare (M.startingAt q).machine).witness? =
          M.separatingWord p q) ∧
      (∀ d initial, Draft.build d initial = .ok M → ∀ p q : Fin M.size, ∃ P Q,
        d.build p = .ok P ∧ d.build q = .ok Q ∧
          (P.machine.compare Q.machine).witness? = M.separatingWord p q) ∧
      ∀ p q c w, M.separatingWord p q = some (c :: w) →
        ∃ p' q', M.step p c = some p' ∧ M.step q c = some q' ∧ M.separatingWord p' q' = some w := by
  refine ⟨fun p q w => separatingWord_eq_some_iff, fun p q => separatingWord_eq_none_iff,
    fun p q => (separatingWord_comm M p q).symm, witness?_compare_startingAt M,
    fun d initial h p q => ?_, fun p q c w => separatingWord_cons⟩
  exact ⟨M.startingAt p, M.startingAt q, build_startingAt h p, build_startingAt h q,
    witness?_compare_startingAt M p q⟩

/-- No state but the first is reachable, and the second one is stuck on `b`, which comes first. -/
def detached : Draft where
  alphabet := .ofList ['b', 'a']
  names := #["start", "left", "right", "end"]
  accepting := #[0]
  edges := #[⟨1, 'a', 2⟩, ⟨2, 'a', 3⟩, ⟨2, 'b', 3⟩, ⟨3, 'b', 0⟩]

/-- The word `bb` is accepted from the third state only, but the second one does not read it. -/
theorem separatingWord_detached : ∃ M P Q, detached.build 0 = .ok M ∧ detached.build 1 = .ok P ∧
    detached.build 2 = .ok Q ∧ M.separatingWord 1 2 = some ['a', 'b'] ∧
    M.alphabet.Least (M.Separates 1 2) ['a', 'b'] ∧ M.separatingWord 2 1 = some ['a', 'b'] ∧
    (P.machine.compare Q.machine).witness? = some ['a', 'b'] ∧
    M.separatingWord 2 3 = some ['b'] ∧ M.separatingWord 1 4 = none := by
  have hword : (detached.build 0).map (fun M => M.separatingWord 1 2) = .ok (some ['a', 'b']) := by
    cbv
  cases hM : detached.build 0 with
  | error e =>
    rw [hM] at hword
    cases hword
  | ok M =>
    rw [hM] at hword
    have hword : M.separatingWord 1 2 = some ['a', 'b'] := Except.ok.inj hword
    obtain ⟨hsome, hnone, hcomm, -, hbuild, hcons⟩ := separatingWord_exact M
    obtain ⟨hone, htwo, hleast⟩ := (hsome 1 2 _).1 hword
    obtain ⟨P, Q, hP, hQ, hcompare⟩ := hbuild detached 0 hM ⟨1, hone⟩ ⟨2, htwo⟩
    have hstep : (detached.build 0).map (fun M => (M.size, M.step 1 'a', M.step 2 'a')) =
        .ok (4, some 2, some 3) := by
      cbv
    rw [hM] at hstep
    obtain ⟨hsize, hstep⟩ := Prod.mk.inj (Except.ok.inj hstep)
    obtain ⟨hp, hq⟩ := Prod.mk.inj hstep
    obtain ⟨p, q, hp', hq', hrest⟩ := hcons 1 2 'a' ['b'] hword
    cases hp.symm.trans hp'
    cases hq.symm.trans hq'
    have hmissing : M.separatingWord 1 4 = none := (hnone 1 4).2 fun h => by
      rw [hsize] at h
      exact Nat.lt_irrefl 4 h.2.1
    exact ⟨M, P, Q, rfl, hP, hQ, hword, hleast, (hcomm 1 2).symm.trans hword,
      hcompare.trans hword, hrest, hmissing⟩

end ShortestWitness.Automaton
