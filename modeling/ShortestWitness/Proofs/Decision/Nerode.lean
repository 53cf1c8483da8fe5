import Mathlib
import ShortestWitness.Proofs.Automaton.Completion
import ShortestWitness.Proofs.Decision.SeparatingWord

/-!
# States that cannot be told apart

In a complete automaton every word over the alphabet is read from every state, so two states that no
word separates accept the same words (`inseparable_iff_of_isComplete`). This makes inseparability an
equivalence relation that the moves respect. It is the coarsest one that keeps accepting states and
others apart, since whatever the moves respect the runs respect (`IsCongruence.of_runFrom`). That any
such relation relates only inseparable states needs no completeness.
-/

namespace ShortestWitness.Automaton

variable {M : Automaton} {p q p' q' : Fin M.size} {c : Char} {w : Word}

/-- The search finds no word that tells the states apart. -/
def Inseparable (M : Automaton) (p q : Fin M.size) : Prop := M.separatingWord p q = none

/-- Inseparable states are told apart by no word. -/
theorem inseparable_iff : M.Inseparable p q ↔ ∀ w, ¬ M.Separates p q w := by
  rw [Inseparable, separatingWord_eq_none_iff]
  simp only [p.isLt, q.isLt, true_and, not_exists]

/-- The relation is an equivalence relation, keeps accepting states and others apart, and is respected
by the moves. -/
structure IsCongruence (M : Automaton) (r : Fin M.size → Fin M.size → Prop) : Prop where
  equivalence : Equivalence r
  isAccepting : ∀ {p q}, r p q → M.isAccepting p = M.isAccepting q
  step : ∀ {p q p' q' : Fin M.size} {c}, r p q → M.step p c = some p'.val →
    M.step q c = some q'.val → r p' q'

/-! ## Runs from related states -/

section Related

variable {r : Fin M.size → Fin M.size → Prop} (h : M.IsCongruence r)

include h

/-- One word leads from related states to related states. -/
theorem IsCongruence.of_runFrom (hpq : r p q) (hp : M.machine.runFrom p w = some p'.val)
    (hq : M.machine.runFrom q w = some q'.val) : r p' q' := by
  induction w generalizing p q with
  | nil =>
    obtain rfl := Fin.ext (Option.some.inj hp)
    obtain rfl := Fin.ext (Option.some.inj hq)
    exact hpq
  | cons c w ih =>
    obtain ⟨s, hs, hp⟩ := Machine.runFrom_cons_eq_some_iff.1 hp
    obtain ⟨t, ht, hq⟩ := Machine.runFrom_cons_eq_some_iff.1 hq
    have hst : r ⟨s, target_lt_of_step hs⟩ ⟨t, target_lt_of_step ht⟩ := h.step hpq hs ht
    exact ih hst hp hq

/-- Related states are inseparable, for where a word leads both accept or both reject. -/
theorem IsCongruence.inseparable (hpq : r p q) : M.Inseparable p q := by
  apply inseparable_iff.2
  intro w hw
  obtain ⟨s, t, hs, ht, hne⟩ := hw
  have hst : r ⟨s, lt_size_of_runFrom p.isLt hs⟩ ⟨t, lt_size_of_runFrom q.isLt ht⟩ :=
    h.of_runFrom hpq hs ht
  exact hne (h.isAccepting hst)

end Related

/-! ## Complete automata -/

/-- A word separates states of a complete automaton just if it is accepted from one of them only. A
word with other symbols is accepted from neither. -/
theorem separates_iff_of_isComplete (hM : M.isComplete = true) :
    M.Separates p q w ↔ ¬ (M.machine.AcceptsFrom p w ↔ M.machine.AcceptsFrom q w) := by
  by_cases hw : ∀ c ∈ w, c ∈ M.alphabet
  · obtain ⟨s, hs⟩ := Option.isSome_iff_exists.1 (isSome_runFrom_of_isComplete hM p.isLt hw)
    obtain ⟨t, ht⟩ := Option.isSome_iff_exists.1 (isSome_runFrom_of_isComplete hM q.isLt hw)
    rw [Machine.acceptsFrom_iff_of_runFrom hs, Machine.acceptsFrom_iff_of_runFrom ht,
      ← isAccepting_iff, ← isAccepting_iff, ← Bool.eq_iff_iff, Separates, hs, ht]
    simp
  · have hreads : ∀ s, ¬ M.machine.AcceptsFrom s w := fun s hs => hw hs.mem_alphabet
    exact iff_of_false (fun h => hw h.mem_alphabet)
      fun h => h (iff_of_false (hreads p) (hreads q))

/-- Inseparable states of a complete automaton are those that accept the same words. -/
theorem inseparable_iff_of_isComplete (hM : M.isComplete = true) : M.Inseparable p q ↔
    ∀ w, M.machine.AcceptsFrom p w ↔ M.machine.AcceptsFrom q w := by
  rw [inseparable_iff]
  simp only [separates_iff_of_isComplete hM, not_not]

theorem equivalence_inseparable (hM : M.isComplete = true) : Equivalence M.Inseparable := by
  refine ⟨fun p => ?_, fun {p q} h => ?_, fun {p q s} h h' => ?_⟩
  · exact (inseparable_iff_of_isComplete hM).2 fun w => Iff.rfl
  · exact (separatingWord_comm M p q).trans h
  · rw [inseparable_iff_of_isComplete hM] at h h' ⊢
    intro w
    exact (h w).trans (h' w)

/-- The empty word does not separate inseparable states. -/
theorem Inseparable.isAccepting_eq (h : M.Inseparable p q) : M.isAccepting p = M.isAccepting q := by
  by_contra hne
  exact inseparable_iff.1 h [] ⟨p, q, rfl, rfl, hne⟩

/-- A word that separates the targets of two moves separates their sources after one more symbol. -/
theorem Inseparable.of_step (h : M.Inseparable p q) (hp : M.step p c = some p'.val)
    (hq : M.step q c = some q'.val) : M.Inseparable p' q' := by
  apply inseparable_iff.2
  intro w hw
  obtain ⟨s, t, hs, ht, hne⟩ := hw
  have hsource : M.Separates p q (c :: w) :=
    ⟨s, t, Machine.runFrom_cons_eq_some_iff.2 ⟨p', hp, hs⟩,
      Machine.runFrom_cons_eq_some_iff.2 ⟨q', hq, ht⟩, hne⟩
  exact inseparable_iff.1 h (c :: w) hsource

/-- It keeps accepting states apart from others, and moves respect it. -/
theorem isCongruence_inseparable (hM : M.isComplete = true) : M.IsCongruence M.Inseparable where
  equivalence := equivalence_inseparable hM
  isAccepting h := h.isAccepting_eq
  step h hp hq := h.of_step hp hq

theorem exists_step_of_isComplete (hM : M.isComplete = true) (p : Fin M.size) (hc : c ∈ M.alphabet) :
    ∃ p' : Fin M.size, M.step p c = some p'.val := by
  obtain ⟨s, hs⟩ := Option.isSome_iff_exists.1 (isComplete_iff.1 hM p p.isLt c hc)
  exact ⟨⟨s, target_lt_of_step hs⟩, hs⟩

/-- Inseparability of the states of a complete automaton is an equivalence relation that keeps accepting
states and others apart, and all moves, of which none is missing, respect it. States are related if they
accept the same words. Every other such relation is finer. -/
theorem inseparable_exact (M : Automaton) (hM : M.isComplete = true) :
    M.IsCongruence M.Inseparable ∧
      (∀ p q, M.Inseparable p q ↔
        ∀ w, M.machine.AcceptsFrom p w ↔ M.machine.AcceptsFrom q w) ∧
      (∀ p q, M.Inseparable p q → ∀ c ∈ M.alphabet, ∃ p' q' : Fin M.size,
        M.step p c = some p'.val ∧ M.step q c = some q'.val ∧ M.Inseparable p' q') ∧
      ∀ r, M.IsCongruence r → ∀ p q, r p q → M.Inseparable p q := by
  refine ⟨isCongruence_inseparable hM, fun p q => inseparable_iff_of_isComplete hM,
    fun p q h c hc => ?_, fun r hr p q => hr.inseparable⟩
  obtain ⟨p', hp⟩ := exists_step_of_isComplete hM p hc
  obtain ⟨q', hq⟩ := exists_step_of_isComplete hM q hc
  exact ⟨p', q', hp, hq, h.of_step hp hq⟩

/-- Accepts the words with evenly many `a`, each of which leads to the state opposite. -/
def mirrored : Automaton :=
  numbered .standard 3 (·.val % 2 = 0) fun p c => some (if c = 'a' then p.rev else p)

/-- One symbol changes the parity of the state, and the other one keeps it. -/
theorem parity_of_step_mirrored {p q : Nat} (hp : p < 4) (h : mirrored.step p c = some q) :
    q % 2 = if c = 'a' then 1 - p % 2 else p % 2 := by
  rw [mirrored, show p = (⟨p, hp⟩ : Fin 4).val from rfl, step_numbered] at h
  split at h
  · obtain rfl := Option.some.inj h
    split
    · rw [Fin.val_rev]
      show (4 - (p + 1)) % 2 = 1 - p % 2
      omega
    · rfl
  · cases h

/-- States of one parity are alike. -/
theorem isCongruence_mirrored : mirrored.IsCongruence fun p q => p.val % 2 = q.val % 2 := by
  have hlt : ∀ p : Fin mirrored.size, p.val < 4 := fun p => p.isLt.trans_eq size_numbered
  have haccepting : ∀ p : Fin mirrored.size, mirrored.isAccepting p = decide (p.val % 2 = 0) :=
    fun p => @isAccepting_tabulate .standard 4 _ _ numberedName_fin_inj _ _ ⟨p, hlt p⟩
  refine ⟨⟨fun _ => rfl, Eq.symm, Eq.trans⟩, fun {p q} h => ?_, fun {p q p' q' c} h hp hq => ?_⟩
  · rw [haccepting, haccepting, decide_eq_decide, h]
  · rw [parity_of_step_mirrored (hlt p) hp, parity_of_step_mirrored (hlt q) hq, h]

/-- Related states are inseparable, and so are the states that `a` leads to from them. -/
theorem inseparable_mirrored : mirrored.isComplete = true ∧
    mirrored.IsCongruence (fun p q => p.val % 2 = q.val % 2) ∧
    mirrored.separatingWord 0 2 = none ∧
    (∀ w, mirrored.machine.AcceptsFrom 0 w ↔ mirrored.machine.AcceptsFrom 2 w) ∧
    mirrored.step 0 'a' = some 3 ∧ mirrored.step 2 'a' = some 1 ∧
    mirrored.separatingWord 3 1 = none := by
  have hcomplete : mirrored.isComplete = true := by cbv
  have hlt : ∀ {p}, p < 4 → p < mirrored.size := fun h => h.trans_eq size_numbered.symm
  obtain ⟨-, hwords, hstep, hcoarsest⟩ := inseparable_exact mirrored hcomplete
  have hzero : mirrored.step 0 'a' = some 3 := by cbv
  have htwo : mirrored.step 2 'a' = some 1 := by cbv
  have hpq : mirrored.Inseparable ⟨0, hlt (by decide)⟩ ⟨2, hlt (by decide)⟩ :=
    hcoarsest _ isCongruence_mirrored _ _ (show 0 % 2 = 2 % 2 by decide)
  obtain ⟨p', q', hp, hq, hpq'⟩ := hstep _ _ hpq 'a' (by decide)
  have hthree : p'.val = 3 := Option.some.inj (hp.symm.trans hzero)
  have hone : q'.val = 1 := Option.some.inj (hq.symm.trans htwo)
  rw [Inseparable, hthree, hone] at hpq'
  exact ⟨hcomplete, isCongruence_mirrored, hpq, (hwords _ _).1 hpq, hzero, htwo, hpq'⟩

end ShortestWitness.Automaton
