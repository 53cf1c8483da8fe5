import Mathlib.Data.List.ProdSigma
import ShortestWitness.Proofs.Automaton.Parts
import ShortestWitness.Proofs.Decision.Comparison
import ShortestWitness.Proofs.Machine.Path
import ShortestWitness.Proofs.Word.Enumeration

/-!
# Looking through the short words

Searching the states of a machine and looking through the words one after the other find the same
word, if the words are looked through up to a length that the search does not pass
(`shortestWord_eq_find?`). The number of states is such a length, because the path of a first
accepted word does not come back to a state (`foundAmong_of_forall_mem`). What is found on products
is found among words that are shorter than the product of the numbers of states.
-/

namespace ShortestWitness.Machine

variable {σ τ : Type} [Comparable σ] {S : Machine σ Bool} {n : Nat}

/-- Looking through the words that are shorter than `n` finds what the search finds, if this is
shorter than `n`. -/
theorem shortestWord_eq_find? (h : ∀ w, S.shortestWord = some w → w.length < n) :
    S.shortestWord =
      ((Enumeration.ofSymbols S.alphabet.symbols).shorter n).find? S.accepts := by
  cases hS : S.shortestWord with
  | none =>
    rw [eq_comm, List.find?_eq_none]
    intro v _
    rw [shortestWord_eq_none_iff.1 hS v]
    exact Bool.false_ne_true
  | some w =>
    have hleast := shortestWord_eq_some_iff.1 hS
    have hw := (accepts_iff.1 hleast.1).mem_alphabet
    rw [eq_comm, Enumeration.find?_shorter_eq_some_iff]
    exact ⟨⟨⟨h w hS, hw⟩, hleast.1⟩, fun v hv => hleast.2 v hv.2⟩

/-- The search from the initial state finds its word among the words over these symbols that are shorter
than `n`, where there is one if any word is accepted at all, and on a path of states that are all different
and reject up to the last. -/
structure FoundAmong (S : Machine σ Bool) (symbols : List Char) (n : Nat) : Prop where
  shortestWord_eq : S.shortestWord = ((Enumeration.ofSymbols symbols).shorter n).find? S.accepts
  exists_accepts_iff : (∃ w, S.accepts w = true) ↔ ∃ w, w.length < n ∧ S.accepts w = true
  length_lt : ∀ w, S.shortestWord = some w → w.length < n
  length_path : ∀ w, S.shortestWord = some w → (S.path w).length = w.length + 1
  nodup_path : ∀ w, S.shortestWord = some w → (S.path w).Nodup
  rejects : ∀ w, S.shortestWord = some w → ∀ q ∈ (S.path w).dropLast, S.color q = some false

/-- If all states that there are to find are in a list, words as long as the list need not be looked
at. -/
theorem foundAmong_of_forall_mem {l : List σ} (hinitial : S.initial ∈ l)
    (hl : ∀ {p c q}, S.step p c = some q → q ∈ l) : S.FoundAmong S.alphabet.symbols l.length := by
  have hleast : ∀ {w}, S.shortestWord = some w → S.alphabet.Least (S.AcceptsFrom S.initial) w :=
    shortestWordFrom_eq_some_iff.1
  have hlength : ∀ w, S.shortestWord = some w → w.length < l.length := fun w hw =>
    length_lt_of_least (hleast hw) hinitial hl
  refine ⟨shortestWord_eq_find? hlength, ⟨?_, ?_⟩, hlength, fun w hw => ?_,
    fun w hw => nodup_pathFrom (hleast hw),
    fun w hw q => color_of_mem_dropLast S.color_initial (hleast hw)⟩
  · rintro ⟨w, hw⟩
    cases hS : S.shortestWord with
    | none => simp [shortestWord_eq_none_iff.1 hS w] at hw
    | some v => exact ⟨v, hlength v hS, (shortestWord_eq_some_iff.1 hS).1⟩
  · rintro ⟨w, -, hw⟩
    exact ⟨w, hw⟩
  · obtain ⟨q, hq, -⟩ := (hleast hw).1
    exact length_pathFrom hq

end ShortestWitness.Machine

namespace ShortestWitness.Automaton

theorem mem_range_of_step {M : Automaton} {p q : Nat} {c : Char} (h : M.machine.step p c = some q) :
    q ∈ List.range M.size :=
  List.mem_range.2 (target_lt_of_step h)

/-- An automaton finds its word among those shorter than its number of states. -/
theorem foundAmong_machine (M : Automaton) : M.machine.FoundAmong M.alphabet.symbols M.size := by
  have h := Machine.foundAmong_of_forall_mem (S := M.machine) (List.mem_range.2 M.initial_lt)
    mem_range_of_step
  rwa [List.length_range] at h

/-- Pairs of states of two automata are pairs of numbers below their sizes. -/
theorem foundAmong_product (L R : Automaton) (f : Bool × Bool → Bool) :
    ((L.machine.product R.machine).recolor f).FoundAmong
      (L.alphabet.symbols.filter (· ∈ R.alphabet)) (L.size * R.size) := by
  have h := Machine.foundAmong_of_forall_mem (S := (L.machine.product R.machine).recolor f)
    (l := List.range L.size ×ˢ List.range R.size)
    (List.mem_product.2 ⟨List.mem_range.2 L.initial_lt, List.mem_range.2 R.initial_lt⟩)
    fun hstep => by
      obtain ⟨hl, hr⟩ := Machine.stepBoth_eq_some_iff.1 hstep
      exact List.mem_product.2 ⟨mem_range_of_step hl, mem_range_of_step hr⟩
  rwa [List.length_product, List.length_range, List.length_range] at h

/-- Searching states and looking through short words find the same: in an automaton the words that
are shorter than the number of states, in a product of two automata those that are shorter than the
product of the numbers of states, whatever combination of colors is asked for, and so in a
comparison. -/
theorem foundAmong_exact :
    (∀ M : Automaton, M.machine.FoundAmong M.alphabet.symbols M.size) ∧
      (∀ (L R : Automaton) (f : Bool × Bool → Bool),
        ((L.machine.product R.machine).recolor f).FoundAmong
          (L.alphabet.symbols.filter (· ∈ R.alphabet)) (L.size * R.size)) ∧
      ∀ L R : Automaton,
        (L.machine.compare R.machine).witness? =
          ((Enumeration.ofSymbols (L.alphabet.symbols.filter (· ∈ R.alphabet))).shorter
            (L.size * R.size)).find? (fun w => (L.machine.run w).isSome && (R.machine.run w).isSome &&
              (L.machine.accepts w != R.machine.accepts w)) ∧
        (L.machine.compare R.machine = .equivalent ↔
          ∀ w, w.length < L.size * R.size → ¬ L.machine.LiveDisagreement R.machine w) := by
  refine ⟨foundAmong_machine, foundAmong_product, fun L R => ?_⟩
  have hfound : (L.machine.symmetricDifference R.machine).FoundAmong
      (L.alphabet.symbols.filter (· ∈ R.alphabet)) (L.size * R.size) := foundAmong_product L R _
  refine ⟨?_, fun h w _ => Machine.compare_eq_equivalent_iff.1 h w, fun h => ?_⟩
  · rw [Machine.witness?_compare, hfound.shortestWord_eq]
    congr 1
    exact funext fun w => Machine.accepts_symmetricDifference
  · refine Machine.compare_eq_equivalent_iff.2 fun w hw => ?_
    -- a disagreement of any length gives one that is short
    obtain ⟨v, hlt, hv⟩ :=
      hfound.exists_accepts_iff.1 ⟨w, Machine.accepts_symmetricDifference_iff.2 hw⟩
    exact h v hlt (Machine.accepts_symmetricDifference_iff.1 hv)

end ShortestWitness.Automaton
