import Mathlib
import ShortestWitness.Line.Decode
import ShortestWitness.Line.Encode
import ShortestWitness.Proofs.Automaton.Calls
import ShortestWitness.Proofs.Automaton.Refusals
import ShortestWitness.Proofs.Except

/-!
# Building an automaton again

An automaton is made of nothing but its alphabet, its initial state, the names of its states, which of
them accept, and its moves. Calls that add just these say what the automaton is, and an automaton that
is what calls say is built from them, since what they say cannot but fit together
(`Draft.IsSaid.coherent`). The moves may be given in any order and any number of times
(`Automaton.build_stateCalls`). Read off the table of a layout by symbols (`Layout.edges`) and written to
it again by places, they give the table back.
-/

namespace ShortestWitness

namespace Draft

variable {A : Alphabet} {calls : List Call} {initial p n : Nat} {e : Edge} {M : Automaton}

/-- The call is one of those that add edges. -/
def Call.addsEdges : Call → Bool
  | .edge _ | .edges _ => true
  | _ => false

/-- What an automaton is fits together. -/
theorem IsSaid.coherent (h : IsSaid A calls initial M) : Coherent A calls initial where
  initial_lt := by
    rw [← h.size, ← h.initial]
    exact M.initial_lt
  nodup := by
    refine List.pairwise_iff_getElem.2 fun p q hp hq hpq hname => hpq.ne ?_
    have hnameP := (h.name? p).trans (List.getElem?_eq_getElem hp)
    have hnameQ := (h.name? q).trans (List.getElem?_eq_getElem hq)
    exact Automaton.eq_of_name? hnameP (hname ▸ hnameQ)
  marked_lt p hp := by
    rw [← h.size]
    exact Automaton.lt_size_of_isAccepting ((h.isAccepting p).2 hp)
  source_lt e he := by
    rw [← h.size]
    exact Automaton.source_lt_of_step ((h.step _ _ _).2 he)
  target_lt e he := by
    rw [← h.size]
    exact Automaton.target_lt_of_step ((h.step _ _ _).2 he)
  symbol_mem e he := by
    rw [← h.alphabet]
    exact Automaton.mem_alphabet_of_step ((h.step _ _ _).2 he)
  deterministic e f he hf hsource hsymbol := by
    have hstepE := (h.step _ _ _).2 he
    have hstepF := (h.step _ _ _).2 hf
    rw [← hsource, ← hsymbol, hstepE] at hstepF
    exact Option.some.inj hstepF

/-- An automaton is built from calls if it is what they say. -/
theorem IsSaid.build_eq (h : IsSaid A calls initial M) : (ofCalls A calls).build initial = .ok M :=
  build_ofCalls_eq_ok_iff.2 ⟨h.coherent, h⟩

theorem addedStates_map_namedState {α : Type} (n : Nat) (l : List α) (name : α → String)
    (accepting : α → Bool) : addedStates n (l.map fun a => .namedState (name a) (accepting a)) =
      l.map fun a => (name a, accepting a) := by
  induction l generalizing n with
  | nil => rfl
  | cons a l ih =>
    rw [List.map_cons, addedStates, ih]
    rfl

/-- Calls that add edges add no states. -/
theorem addedStates_of_addsEdges (h : ∀ call ∈ calls, call.addsEdges = true) (n : Nat) :
    addedStates n calls = [] := by
  induction calls generalizing n with
  | nil => rfl
  | cons call calls ih =>
    have hcall : call.added n = [] := by
      have hadds := h call List.mem_cons_self
      cases call with
      | edge | edges => rfl
      | state | namedState | states | marks => cases hadds
    rw [addedStates, hcall, List.nil_append]
    exact ih (fun call' hcall' => h call' (List.mem_cons_of_mem _ hcall')) _

theorem Call.marked_of_addsEdges {call : Call} (h : call.addsEdges = true) : call.marked = [] := by
  cases call with
  | marks => cases h
  | state | namedState | states | edge | edges => rfl

end Draft

namespace Automaton

open Draft

variable {M : Automaton} {later : List Call} {p : Nat}

/-- The calls that add the states of an automaton in the order of their numbers, each with its name and
accepting if it is. -/
def stateCalls (M : Automaton) : List Call :=
  (List.range M.size).map fun p => .namedState (M.label p) (M.isAccepting p)

theorem addedStates_stateCalls_append (h : ∀ call ∈ later, call.addsEdges = true) :
    addedStates 0 (M.stateCalls ++ later) =
      (List.range M.size).map fun p => (M.label p, M.isAccepting p) := by
  rw [addedStates_append, addedStates_of_addsEdges h, List.append_nil]
  exact addedStates_map_namedState 0 _ _ _

theorem name?_eq_getElem? (M : Automaton) (p : Nat) :
    M.name? p = ((List.range M.size).map M.label)[p]? := by
  rw [List.getElem?_map]
  by_cases hp : p < M.size
  · rw [name?_eq_label hp, List.getElem?_range hp]
    rfl
  · rw [name?_of_le (Nat.not_lt.1 hp), List.getElem?_eq_none]
    · rfl
    · rw [List.length_range]
      exact Nat.not_lt.1 hp

/-- The calls for the states mark those that accept. -/
theorem isMarked_stateCalls_append_iff (h : ∀ call ∈ later, call.addsEdges = true) :
    IsMarked (M.stateCalls ++ later) p ↔ M.isAccepting p = true := by
  have hmarked : ∀ call ∈ M.stateCalls ++ later, call.marked = [] := by
    intro call hcall
    rcases List.mem_append.1 hcall with hcall | hcall
    · obtain ⟨q, -, rfl⟩ := List.mem_map.1 hcall
      rfl
    · exact Call.marked_of_addsEdges (h call hcall)
  unfold IsMarked
  rw [addedStates_stateCalls_append h]
  constructor
  · rintro (⟨name, hp⟩ | ⟨call, hcall, hp⟩)
    · rw [List.getElem?_map, Option.map_eq_some_iff] at hp
      obtain ⟨q, hq, hstate⟩ := hp
      obtain rfl : p = q := by
        obtain ⟨_, hrange⟩ := List.getElem?_eq_some_iff.1 hq
        rwa [List.getElem_range] at hrange
      exact (Prod.mk.inj hstate).2
    · rw [hmarked call hcall] at hp
      exact absurd hp List.not_mem_nil
  · intro hp
    refine .inl ⟨M.label p, ?_⟩
    rw [List.getElem?_map, List.getElem?_range (lt_size_of_isAccepting hp), Option.map_some, hp]

/-- All edges come from the later calls. -/
theorem isGiven_stateCalls_append_iff {e : Edge} :
    IsGiven (M.stateCalls ++ later) e ↔ IsGiven later e := by
  constructor
  · rintro ⟨call, hcall, he⟩
    rcases List.mem_append.1 hcall with hcall | hcall
    · obtain ⟨q, -, rfl⟩ := List.mem_map.1 hcall
      exact absurd he List.not_mem_nil
    · exact ⟨call, hcall, he⟩
  · rintro ⟨call, hcall, he⟩
    exact ⟨call, List.mem_append_right _ hcall, he⟩

/-- The states and the moves of an automaton say what it is. -/
theorem isSaid_stateCalls_append (h : ∀ call ∈ later, call.addsEdges = true)
    (hgiven : ∀ e, IsGiven later e ↔ e ∈ M.edges) :
    IsSaid M.alphabet (M.stateCalls ++ later) M.initial M where
  alphabet := rfl
  size := by rw [addedStates_stateCalls_append h, List.length_map, List.length_range]
  initial := rfl
  name? p := by
    rw [addedStates_stateCalls_append h, List.map_map]
    exact name?_eq_getElem? M p
  isAccepting p := (isMarked_stateCalls_append_iff h).symm
  step p c q := by rw [isGiven_stateCalls_append_iff, hgiven, mem_edges]

/-- An automaton is built again from its states, its initial state and its moves, in whatever order and
how often the moves are given. What is read off its table is what is written to a table again, cell by
cell, and nothing is looked up outside of it. -/
theorem build_stateCalls (M : Automaton) (later : List Call)
    (hlater : ∀ call ∈ later, call.addsEdges = true) (hgiven : ∀ e, IsGiven later e ↔ e ∈ M.edges) :
    (ofCalls M.alphabet (M.stateCalls ++ later)).build M.initial = .ok M ∧
      M.layout.edges = M.edges ∧
      Layout.assemble? (ofCalls M.alphabet (M.stateCalls ++ later)) M.initial =
        Layout.reported (.ok M.layout) := by
  have hbuild := (isSaid_stateCalls_append hlater hgiven).build_eq
  refine ⟨hbuild, edges_layout M, ?_⟩
  rw [Layout.assemble?_eq, hbuild]
  rfl

/-- A completion is built again from its moves one by one from the last to the first, and then all of them
once more. -/
theorem build_stateCalls_completion : ∃ M N later, ofLine .standard "q0q2f,q0aq2" = .ok M ∧
    N = M.completion ∧ N.line = "q0q2fq3,q0aq2,q0bq3,q2aq3,q2bq3,q3aq3,q3bq3" ∧
    later = N.edges.reverse.map .edge ++ [.edges N.edges] ∧
    (∀ call ∈ later, call.addsEdges = true) ∧ (∀ e, IsGiven later e ↔ e ∈ N.edges) ∧
    (ofCalls N.alphabet (N.stateCalls ++ later)).build N.initial = .ok N := by
  have hline : (ofLine .standard "q0q2f,q0aq2").map (fun M => M.completion.line) =
      .ok "q0q2fq3,q0aq2,q0bq3,q2aq3,q2bq3,q3aq3,q3bq3" := by
    cbv
  obtain ⟨M, hM, hline⟩ := map_eq_ok_iff.1 hline
  have hlater : ∀ call ∈ M.completion.edges.reverse.map Call.edge ++ [.edges M.completion.edges],
      call.addsEdges = true := by
    intro call hcall
    rcases List.mem_append.1 hcall with hcall | hcall
    · obtain ⟨e, -, rfl⟩ := List.mem_map.1 hcall
      rfl
    · rw [List.mem_singleton.1 hcall]
      rfl
  have hgiven : ∀ e, IsGiven (M.completion.edges.reverse.map Call.edge ++
      [.edges M.completion.edges]) e ↔ e ∈ M.completion.edges := by
    simp [IsGiven, Call.given]
  exact ⟨M, _, _, hM, rfl, hline, rfl, hlater, hgiven, (build_stateCalls _ _ hlater hgiven).1⟩

end Automaton

end ShortestWitness
