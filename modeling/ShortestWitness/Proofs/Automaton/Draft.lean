import Mathlib
import ShortestWitness.Automaton.Draft
import ShortestWitness.Proofs.Automaton.Parts

/-!
# The automaton of a draft

`build` succeeds just on the drafts with nothing wrong (`build_eq_ok_iff`), and then the automaton
has the names, the marks and the edges of the draft and nothing else: a state accepts if it has been
marked (`isAccepting_automaton_iff`), and there is a move if there is an edge for it
(`step_automaton_iff`), be it the first of its kind or a repetition.
-/

namespace ShortestWitness.Draft

variable {d : Draft} {initial p q : Nat} {c : Char} {M : Automaton}

/-- An automaton is built just if nothing is wrong. -/
theorem build_eq_ok_iff :
    d.build initial = .ok M ↔ ∃ h : d.Consistent initial, d.automaton initial h = M := by
  unfold build
  split <;> rename_i h
  · constructor
    · intro he
      cases he
    · rintro ⟨hd, -⟩
      rw [problem?_eq_none_iff.2 hd] at h
      cases h
  · have hd := problem?_eq_none_iff.1 h
    rw [Except.ok.injEq]
    exact ⟨fun he => ⟨hd, he⟩, fun ⟨_, he⟩ => he⟩

/-- The first problem is reported. -/
theorem build_eq_error_iff {problem : DraftError} :
    d.build initial = .error problem ↔ d.problem? initial = some problem := by
  unfold build
  split <;> rename_i h
  · rw [h, Except.error.injEq, Option.some.injEq]
  · simp [h]

section Consistent

variable (hd : d.Consistent initial)

include hd in
theorem Consistent.of_mem_edges (h : ⟨p, c, q⟩ ∈ d.edges) : p < d.size ∧ c ∈ d.alphabet :=
  ⟨hd.source_lt _ h, hd.symbol_mem _ h⟩

include hd in
/-- All edges of one kind have the target of the first. -/
theorem Consistent.target?_eq_some_iff : d.target? p c = some q ↔ ⟨p, c, q⟩ ∈ d.edges := by
  refine ⟨mem_edges_of_target?, fun h => ?_⟩
  obtain ⟨r, hr⟩ := exists_target?_of_mem h
  have hsame : r = q := hd.deterministic _ (mem_edges_of_target? hr) _ h rfl rfl
  rwa [hsame] at hr

include hd in
/-- Different states have different names. -/
theorem Consistent.names_inj {p q : Fin d.size} (h : d.names[p] = d.names[q]) : p = q :=
  Fin.ext (hd.name_inj p.isLt q.isLt h)

@[simp] theorem alphabet_automaton : (d.automaton initial hd).alphabet = d.alphabet := rfl

@[simp] theorem initial_automaton : (d.automaton initial hd).initial = initial := rfl

@[simp] theorem size_automaton : (d.automaton initial hd).size = d.size :=
  @Automaton.size_tabulate d.alphabet d.size _ _ hd.names_inj _ _

theorem name?_automaton (p : Nat) : (d.automaton initial hd).name? p = d.names[p]? := by
  by_cases hp : p < d.size
  · rw [Array.getElem?_eq_getElem hp]
    exact @Automaton.name?_tabulate d.alphabet d.size _ _ hd.names_inj _ _ ⟨p, hp⟩
  · rw [Array.getElem?_eq_none (Nat.not_lt.1 hp), Automaton.name?_of_le]
    rw [size_automaton]
    exact Nat.not_lt.1 hp

theorem isAccepting_automaton_iff :
    (d.automaton initial hd).isAccepting p = true ↔ p ∈ d.accepting := by
  have hiff : p < d.size → ((d.automaton initial hd).isAccepting p = true ↔ p ∈ d.accepting) := by
    intro hp
    have h : (d.automaton initial hd).isAccepting p = decide (p ∈ d.accepting) :=
      @Automaton.isAccepting_tabulate d.alphabet d.size _ _ hd.names_inj _ _ ⟨p, hp⟩
    rw [h, decide_eq_true_eq]
  constructor
  · intro h
    have hp := Automaton.lt_size_of_isAccepting h
    rw [size_automaton] at hp
    exact (hiff hp).1 h
  · intro h
    exact (hiff (hd.accepting_lt p h)).2 h

/-- There is a move where there is an edge. -/
theorem step_automaton_iff : (d.automaton initial hd).step p c = some q ↔ ⟨p, c, q⟩ ∈ d.edges := by
  have hiff : p < d.size → c ∈ d.alphabet →
      ((d.automaton initial hd).step p c = some q ↔ ⟨p, c, q⟩ ∈ d.edges) := by
    intro hp hc
    have h : (d.automaton initial hd).step p c = d.target? p c := by
      refine (@Automaton.step_tabulate d.alphabet d.size _ _ hd.names_inj _ _ ⟨p, hp⟩ c).trans ?_
      rw [if_pos hc]
      split <;> rename_i ht
      · exact ht.symm
      · exact ht.symm
    rw [h, hd.target?_eq_some_iff]
  constructor
  · intro h
    have hp := Automaton.source_lt_of_step h
    rw [size_automaton] at hp
    exact (hiff hp (Automaton.mem_alphabet_of_step h)).1 h
  · intro h
    obtain ⟨hp, hc⟩ := hd.of_mem_edges h
    exact (hiff hp hc).2 h

end Consistent

end ShortestWitness.Draft
