import ShortestWitness.Automaton.Basic
import ShortestWitness.Proofs.Machine.Run

/-!
# The parts of an automaton

What can be asked of an automaton one state at a time: whether a state exists, its name, whether it
accepts, its moves. Names and states determine each other (`named?_eq_some_iff`), and an automaton
is determined by the answers (`eq_of_parts`), so two automata that were made in different ways are
equal if no question tells them apart. If only the question for the alphabet does, they have the same
parts (`SameParts`).
-/

namespace ShortestWitness.Automaton

variable {M N : Automaton} {p q : Nat} {c : Char} {w : Word} {name : String}

/-! ## Names -/

theorem name?_of_lt (h : p < M.states.size) : M.name? p = some M.states[p].name := by
  unfold name?
  rw [Array.getElem?_eq_getElem h]
  rfl

theorem lt_size_of_name? (h : M.name? p = some name) : p < M.size := by
  obtain ⟨s, hs, -⟩ := Option.map_eq_some_iff.1 h
  exact (Array.getElem?_eq_some_iff.1 hs).1

theorem name?_of_le (h : M.size ≤ p) : M.name? p = none := by
  unfold name?
  rw [Array.getElem?_eq_none h]
  rfl

theorem exists_name? (h : p < M.size) : ∃ name, M.name? p = some name := ⟨_, name?_of_lt h⟩

/-- A state is written by its name. -/
theorem name?_eq_label (h : p < M.size) : M.name? p = some (M.label p) := by
  unfold label
  rw [name?_of_lt h]
  rfl

theorem label_of_name? (h : M.name? p = some name) : M.label p = name := by
  unfold label
  rw [h]
  rfl

/-- A name belongs to one state. -/
theorem eq_of_name? (hp : M.name? p = some name) (hq : M.name? q = some name) : p = q := by
  have hlt := lt_size_of_name? hp
  have hlt' := lt_size_of_name? hq
  rw [name?_of_lt hlt] at hp
  rw [name?_of_lt hlt'] at hq
  exact M.name_inj hlt hlt' (Option.some.inj (hp.trans hq.symm))

/-- Different states are written differently. -/
theorem label_inj (hp : p < M.size) (hq : q < M.size) (h : M.label p = M.label q) : p = q :=
  eq_of_name? (name?_eq_label hp) (h ▸ name?_eq_label hq)

/-- A state is found by its name. -/
theorem named?_eq_some_iff : M.named? name = some p ↔ M.name? p = some name := by
  unfold named?
  rw [Array.findIdx?_eq_some_iff_getElem]
  constructor
  · rintro ⟨hp, hn, -⟩
    rw [name?_of_lt hp, of_decide_eq_true hn]
  · intro h
    have hp : p < M.states.size := lt_size_of_name? h
    rw [name?_of_lt hp, Option.some.injEq] at h
    refine ⟨hp, decide_eq_true h, fun q hq hn => ?_⟩
    -- an earlier state of the name would be this state
    have he := M.name_inj (Nat.lt_trans hq hp) hp ((of_decide_eq_true hn).trans h.symm)
    omega

/-! ## Acceptance -/

/-- The accepting states are the true ones. -/
theorem isAccepting_iff : M.isAccepting p = true ↔ M.machine.color p = some true := by
  change M.states[p]?.any _ = true ↔ M.states[p]?.map _ = _
  cases M.states[p]? <;> simp

theorem lt_size_of_isAccepting (h : M.isAccepting p = true) : p < M.size := by
  rw [isAccepting, Option.any_eq_true] at h
  obtain ⟨s, hs, -⟩ := h
  exact (Array.getElem?_eq_some_iff.1 hs).1

theorem isAccepting_of_le (h : M.size ≤ p) : M.isAccepting p = false :=
  Bool.eq_false_iff.2 fun ha => Nat.not_lt.2 h (lt_size_of_isAccepting ha)

theorem isAccepting_of_lt (h : p < M.states.size) : M.isAccepting p = M.states[p].accepting := by
  unfold isAccepting
  rw [Array.getElem?_eq_getElem h, Option.any_some]

/-- The color of a state is whether it accepts. -/
theorem color_machine (M : Automaton) (p : Nat) :
    M.machine.color p = if p < M.size then some (M.isAccepting p) else none := by
  change M.states[p]?.map State.accepting = _
  split <;> rename_i h
  · rw [isAccepting_of_lt h, Array.getElem?_eq_getElem h]
    rfl
  · rw [Array.getElem?_eq_none (Nat.not_lt.1 h)]
    rfl

/-- Runs from states end in states. -/
theorem lt_size_of_runFrom (hp : p < M.size) (h : M.machine.runFrom p w = some q) : q < M.size :=
  Machine.of_runFrom (P := (· < M.size)) (fun _ hstep => target_lt_of_step hstep) hp h

theorem lt_size_of_run (h : M.machine.run w = some q) : q < M.size :=
  lt_size_of_runFrom M.initial_lt h

theorem isSome_color_of_lt (h : p < M.size) : (M.machine.color p).isSome := by
  rw [color_machine, if_pos h]
  rfl

/-- A word is accepted if its run ends in an accepting state. -/
theorem accepts_machine_iff :
    M.machine.accepts w = true ↔ ∃ q, M.machine.run w = some q ∧ M.isAccepting q = true := by
  simp only [isAccepting_iff]
  exact Machine.accepts_iff

/-- Accepted words have symbols of the alphabet only. -/
theorem mem_alphabet_of_accepts (h : M.machine.accepts w = true) : ∀ c ∈ w, c ∈ M.alphabet :=
  (Machine.accepts_iff.1 h).mem_alphabet

/-! ## Moves -/

theorem step_of_le (h : M.size ≤ p) : M.step p c = none :=
  Option.eq_none_iff_forall_ne_some.2 fun _ hq => Nat.not_lt.2 h (source_lt_of_step hq)

theorem step_of_not_mem (h : c ∉ M.alphabet) : M.step p c = none :=
  Option.eq_none_iff_forall_ne_some.2 fun _ hq => h (mem_alphabet_of_step hq)

/-- The move on the symbol at a place is the entry at that place. -/
theorem step_of_symbol? {s : State} {i : Nat} (hs : M.states[p]? = some s)
    (hc : M.alphabet.symbol? i = some c) : M.step p c = s.moves[i]?.join := by
  rw [step, hs, Alphabet.position_of_symbol? hc]
  rfl

/-- The entries of a state are its moves on the symbols of the alphabet. -/
theorem moves_eq_map (h : p < M.states.size) :
    M.states[p].moves = M.alphabet.symbols.map (M.step p) := by
  have hlen : M.states[p].moves.length = M.alphabet.symbols.length :=
    M.length_moves _ (Array.getElem_mem h)
  refine List.ext_getElem (by rw [hlen, List.length_map]) fun i hi hj => ?_
  have hc : i < M.alphabet.symbols.length := hlen ▸ hi
  rw [List.getElem_map, step_of_symbol? (Array.getElem?_eq_getElem h) (List.getElem?_eq_getElem hc),
    List.getElem?_eq_getElem hi]
  rfl

/-- What holds of all listed edges holds of all moves. -/
theorem forall_mem_edges_iff {P : Edge → Prop} :
    (∀ e ∈ M.edges, P e) ↔ ∀ p c q, M.step p c = some q → P ⟨p, c, q⟩ := by
  constructor
  · intro h p c q hstep
    exact h ⟨p, c, q⟩ (mem_edges.2 hstep)
  · intro h e he
    exact h e.source e.symbol e.target (mem_edges.1 he)

/-! ## Automata with equal parts -/

/-- The states have the same numbers and names, the same states accept, and all moves are the same. Only
the alphabets may differ, in symbols that no move is on. -/
structure SameParts (M N : Automaton) : Prop where
  size : N.size = M.size
  initial : N.initial = M.initial
  name? : ∀ p, N.name? p = M.name? p
  isAccepting : ∀ p, N.isAccepting p = M.isAccepting p
  step : ∀ p c, N.step p c = M.step p c

theorem SameParts.color_machine (h : M.SameParts N) (p : Nat) :
    N.machine.color p = M.machine.color p := by
  rw [Automaton.color_machine, Automaton.color_machine, h.size, h.isAccepting]

/-- An automaton is what can be asked of it. -/
theorem eq_of_parts (halphabet : M.alphabet = N.alphabet) (hsize : M.size = N.size)
    (hinitial : M.initial = N.initial) (hname : ∀ p, M.name? p = N.name? p)
    (haccepting : ∀ p, M.isAccepting p = N.isAccepting p)
    (hstep : ∀ p c, M.step p c = N.step p c) : M = N := by
  refine Automaton.ext halphabet (Array.ext hsize fun p hp hq => ?_) hinitial
  have hn : M.states[p].name = N.states[p].name := by
    have h := hname p
    rwa [name?_of_lt hp, name?_of_lt hq, Option.some.injEq] at h
  have ha : M.states[p].accepting = N.states[p].accepting := by
    rw [← isAccepting_of_lt hp, ← isAccepting_of_lt hq, haccepting]
  have hm : M.states[p].moves = N.states[p].moves := by
    rw [moves_eq_map hp, moves_eq_map hq, halphabet, funext (hstep p)]
  generalize M.states[p] = s at hn ha hm
  generalize N.states[p] = t at hn ha hm
  cases s
  cases t
  cases hn
  cases ha
  cases hm
  rfl

end ShortestWitness.Automaton
