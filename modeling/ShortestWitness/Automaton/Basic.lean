import ShortestWitness.Machine.Basic

/-!
# Finite automata

An automaton has finitely many states, numbered from zero. A state has a name of its own, may be
accepting, and has at most one move on each symbol of the alphabet. All automata are made by
`tabulate`, which takes the moves as a function and is described by `step_tabulate`,
`isAccepting_tabulate` and `name?_tabulate`; as a machine an automaton has its acceptance for
colors.
-/

namespace ShortestWitness

/-- What an automaton knows of one of its states: its name, whether runs that end in it accept, and the
target on each symbol, in the order of the alphabet. -/
structure State where
  name : String
  accepting : Bool
  moves : List (Option Nat)
deriving DecidableEq

/-- A move from one state to another on a symbol. -/
structure Edge where
  source : Nat
  symbol : Char
  target : Nat
deriving DecidableEq, Repr

/-- A deterministic automaton, whose moves may be partial: its states in the order of their numbers, with
different names and one entry for each symbol, and which of them is initial. -/
structure Automaton where
  alphabet : Alphabet
  states : Array State
  initial : Nat
  initial_lt : initial < states.size
  name_inj : ∀ {p q} (hp : p < states.size) (hq : q < states.size),
    states[p].name = states[q].name → p = q
  length_moves : ∀ s ∈ states, s.moves.length = alphabet.size
  target_lt : ∀ s ∈ states, ∀ q, some q ∈ s.moves → q < states.size
deriving DecidableEq

namespace Automaton

/-- Automata are equal if they have the same alphabet, states and initial state. -/
theorem ext {M N : Automaton} (ha : M.alphabet = N.alphabet) (hs : M.states = N.states)
    (hi : M.initial = N.initial) : M = N := by
  cases M; cases N; cases ha; cases hs; cases hi; rfl

def size (M : Automaton) : Nat := M.states.size

def name? (M : Automaton) (p : Nat) : Option String := M.states[p]?.map State.name

/-- The name of a state where it is written; what is no state is written as nothing. -/
def label (M : Automaton) (p : Nat) : String := (M.name? p).getD ""

def named? (M : Automaton) (name : String) : Option Nat := M.states.findIdx? (·.name = name)

/-- The state exists and is accepting. -/
def isAccepting (M : Automaton) (p : Nat) : Bool := M.states[p]?.any State.accepting

/-- The accepting states in ascending order. -/
def acceptingStates (M : Automaton) : List Nat := (List.range M.size).filter M.isAccepting

/-- The target of the move from a state on a symbol, if there is one. -/
def step (M : Automaton) (p : Nat) (c : Char) : Option Nat :=
  M.states[p]?.bind fun s => (M.alphabet.position c).bind fun i => s.moves[i]?.join

/-- Every state has a move on every symbol. -/
def isComplete (M : Automaton) : Bool := M.states.all fun s => s.moves.all Option.isSome

/-- All moves, by source and then in the order of the alphabet. -/
def edges (M : Automaton) : List Edge :=
  (List.range M.size).flatMap fun p =>
    M.alphabet.symbols.filterMap fun c => (M.step p c).map fun q => ⟨p, c, q⟩

/-- A move is the entry of a state at the place of a symbol. -/
theorem step_eq_some_iff {M : Automaton} {p q : Nat} {c : Char} :
    M.step p c = some q ↔
      ∃ s i, M.states[p]? = some s ∧ M.alphabet.position c = some i ∧ s.moves[i]? = some (some q) := by
  simp [step, Option.bind_eq_some_iff, Option.join_eq_some_iff]

theorem mem_alphabet_of_step {M : Automaton} {p q : Nat} {c : Char} (h : M.step p c = some q) :
    c ∈ M.alphabet := by
  obtain ⟨_, _, _, hc, _⟩ := step_eq_some_iff.1 h
  exact Alphabet.mem_of_position hc

/-- Moves leave states. -/
theorem source_lt_of_step {M : Automaton} {p q : Nat} {c : Char} (h : M.step p c = some q) :
    p < M.size := by
  obtain ⟨_, _, hs, _⟩ := step_eq_some_iff.1 h
  exact (Array.getElem?_eq_some_iff.1 hs).1

/-- Moves lead to states. -/
theorem target_lt_of_step {M : Automaton} {p q : Nat} {c : Char} (h : M.step p c = some q) :
    q < M.size := by
  obtain ⟨s, _, hs, _, hq⟩ := step_eq_some_iff.1 h
  exact M.target_lt s (Array.mem_of_getElem? hs) q (List.mem_of_getElem? hq)

/-- The listed edges are the moves. -/
theorem mem_edges {M : Automaton} {p q : Nat} {c : Char} :
    ⟨p, c, q⟩ ∈ M.edges ↔ M.step p c = some q := by
  simp only [edges, List.mem_flatMap, List.mem_range, List.mem_filterMap, Option.map_eq_some_iff,
    Edge.mk.injEq]
  constructor
  · rintro ⟨_, -, _, -, _, h, rfl, rfl, rfl⟩
    exact h
  · exact fun h => ⟨p, source_lt_of_step h, c, mem_alphabet_of_step h, q, h, rfl, rfl, rfl⟩

/-- The automaton as a machine, with acceptance for colors. -/
def machine (M : Automaton) : Machine Nat Bool where
  alphabet := M.alphabet
  initial := M.initial
  step := M.step
  color p := M.states[p]?.map State.accepting
  mem_of_step := mem_alphabet_of_step
  finite := ⟨List.range M.size, fun h => List.mem_range.2 (target_lt_of_step h)⟩
  color_initial := by simp [M.initial_lt]
  color_of_step h := by simpa [size] using target_lt_of_step h

/-! ## Making an automaton from functions -/

variable {A : Alphabet} {n : Nat}

/-- The automaton with `n` states whose parts are given by functions of the state. -/
def tabulate (A : Alphabet) (initial : Fin n) (name : Fin n → String)
    (name_inj : ∀ {p q}, name p = name q → p = q) (accepting : Fin n → Bool)
    (move : Fin n → Char → Option (Fin n)) : Automaton where
  alphabet := A
  states := Array.ofFn fun p =>
    ⟨name p, accepting p, A.symbols.map fun c => (move p c).map Fin.val⟩
  initial := initial
  initial_lt := by simp
  name_inj hp hq h := by
    simp only [Array.getElem_ofFn] at h
    exact congrArg Fin.val (name_inj h)
  length_moves s hs := by
    obtain ⟨p, hp, rfl⟩ := Array.mem_iff_getElem.1 hs
    simp [Alphabet.size]
  target_lt s hs q hq := by
    obtain ⟨p, hp, rfl⟩ := Array.mem_iff_getElem.1 hs
    simp only [Array.getElem_ofFn, List.mem_map, Option.map_eq_some_iff] at hq
    obtain ⟨_, _, r, _, rfl⟩ := hq
    simp

section Tabulate

variable {initial : Fin n} {name : Fin n → String}
  {name_inj : ∀ {p q}, name p = name q → p = q} {accepting : Fin n → Bool}
  {move : Fin n → Char → Option (Fin n)}

@[simp] theorem alphabet_tabulate :
    (tabulate A initial name name_inj accepting move).alphabet = A := rfl

@[simp] theorem initial_tabulate :
    (tabulate A initial name name_inj accepting move).initial = initial := rfl

@[simp] theorem size_tabulate : (tabulate A initial name name_inj accepting move).size = n := by
  simp [size, tabulate]

theorem name?_tabulate (p : Fin n) :
    (tabulate A initial name name_inj accepting move).name? p = some (name p) := by
  simp [name?, tabulate]

theorem isAccepting_tabulate (p : Fin n) :
    (tabulate A initial name name_inj accepting move).isAccepting p = accepting p := by
  simp [isAccepting, tabulate]

/-- Of the moves that are given, those on symbols of the alphabet are kept. -/
theorem step_tabulate (p : Fin n) (c : Char) :
    (tabulate A initial name name_inj accepting move).step p c =
      if c ∈ A then (move p c).map Fin.val else none := by
  simp only [step, tabulate, Array.getElem?_ofFn, Fin.is_lt, dite_true, Option.bind_some]
  split <;> rename_i hc
  · obtain ⟨i, hi⟩ := Option.ne_none_iff_exists'.1 fun h => Alphabet.position_eq_none_iff.1 h hc
    have hs : A.symbols[i]? = some c := Alphabet.symbol?_of_position hi
    simp [hi, hs]
  · simp [Alphabet.position_eq_none_iff.2 hc]

end Tabulate

end Automaton

end ShortestWitness
