import ShortestWitness.Automaton.Basic

/-!
# Writing an automaton on one line

The line lists the states, the initial state first and the others by number, each as its name and
an `f` if it is accepting. A field after a comma follows for each move: the name of the source,
the symbol, the name of the target. Moves are listed by source and then in the order of the
alphabet. Names and symbols are written as they are.
-/

namespace ShortestWitness.Automaton

/-- A state in the first field. -/
def stateText (M : Automaton) (p : Nat) : List Char :=
  (M.label p).toList ++ if M.isAccepting p then ['f'] else []

/-- A move in a field of its own. -/
def edgeText (M : Automaton) (e : Edge) : List Char :=
  (M.label e.source).toList ++ e.symbol :: (M.label e.target).toList

/-- The states in the order in which they are written. -/
def writingOrder (M : Automaton) : List Nat :=
  M.initial :: (List.range M.size).filter (· ≠ M.initial)

def encode (M : Automaton) : List Char :=
  M.writingOrder.flatMap M.stateText ++ M.edges.flatMap fun e => ',' :: M.edgeText e

def line (M : Automaton) : String := String.ofList M.encode

end ShortestWitness.Automaton
