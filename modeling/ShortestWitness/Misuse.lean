/-!
# Requests that have no meaning

The few requests that an operation refuses outright because no value could answer them.
-/

namespace ShortestWitness

/-- A request that cannot be answered by any value: for more letters than the Latin alphabet has, for
nonempty words over no symbols, or for an automaton that has no states. -/
inductive Misuse where
  | alphabetTooLarge
  | noSymbols
  | noStates
deriving DecidableEq, Repr

def Misuse.message : Misuse → String
  | .alphabetTooLarge => "Alphabet is too large"
  | .noSymbols => "need at least one symbol"
  | .noStates => "a DFA needs at least one state"

end ShortestWitness
