import ShortestWitness.Automaton.Basic
import ShortestWitness.Automaton.Name
import ShortestWitness.Random.Generator

/-!
# Random automata

A random automaton has a given number of states and letters. First each state is made accepting
with a given probability; then, state by state and letter by letter, a move is added with another
probability, to a target drawn among all states. The first state is the initial one.
-/

namespace ShortestWitness.Automaton

/-- What a random automaton should look like: how many letters and states there are, the probability
of a move, and the probability that a state is accepting. -/
structure Shape where
  symbols : Nat
  size : Nat
  density : Float
  accepting : Float

variable {σ : Type}

/-- The automaton of numbered states with these marks, whose moves stand in one table, state by state
and symbol by symbol. -/
def ofTable (A : Alphabet) {n : Nat} (h : 0 < n) (marks : Vector Bool n)
    (table : Vector (Option (Fin n)) (n * A.size)) : Automaton :=
  tabulate A ⟨0, h⟩ (fun p => numberedName p) numberedName_fin_inj marks.get
    fun p c => (A.position c).bind fun i => table[p.val * A.size + i]?.join

/-- A random automaton over an alphabet with at least one state. -/
def randomOver (D : Draws σ) (hD : D.Bounded) (A : Alphabet) (n : Nat) (h : 0 < n)
    (density accepting : Float) : StateM σ Automaton := do
  let marks ← Vector.ofFnM fun _ : Fin n => D.chance accepting
  let table ← Vector.ofFnM fun _ : Fin (n * A.size) => D.withChance density (D.belowFin hD h)
  return ofTable A h marks table

/-- A random automaton of a shape, unless there is none of that shape. -/
def randomFrom (D : Draws σ) (hD : D.Bounded) (shape : Shape) :
    Except Misuse (StateM σ Automaton) :=
  if h : 0 < shape.size then do
    let A ← Alphabet.ofSize shape.symbols
    return randomOver D hD A shape.size h shape.density shape.accepting
  else .error .noStates

/-- A random automaton drawn from the words of a generator. -/
def random (shape : Shape) : Except Misuse (StateM Generator Automaton) :=
  randomFrom Generator.draws Generator.bounded_draws shape

end ShortestWitness.Automaton
