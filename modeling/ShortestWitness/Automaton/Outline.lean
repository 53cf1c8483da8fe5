import ShortestWitness.Automaton.Basic

/-!
# The outline of an automaton

A text of several lines for people: the alphabet, the initial state, the accepting states and one
line for each move, with states under their names.
-/

namespace ShortestWitness.Automaton

/-- The line of a move. -/
def edgeLine (M : Automaton) (e : Edge) : String :=
  "  " ++ M.label e.source ++ " --" ++ display e.symbol ++ "--> " ++ M.label e.target ++ "\n"

def outline (M : Automaton) : String :=
  "DFA over " ++ M.alphabet.outline ++ "\n" ++
    "start: " ++ M.label M.initial ++ "\n" ++
    "accepting: [" ++ ", ".intercalate (M.acceptingStates.map M.label) ++ "]\n" ++
    String.join (M.edges.map M.edgeLine)

end ShortestWitness.Automaton
