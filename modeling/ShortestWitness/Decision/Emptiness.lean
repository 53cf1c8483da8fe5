import ShortestWitness.Machine.Search

/-!
# Emptiness

Whether a machine accepts any word, which is whether a search visits a true state.
-/

namespace ShortestWitness

/-- What comes of asking for an accepted word: there is none, or this is the first one. -/
inductive Emptiness where
  | empty
  | nonempty (witness : Word)
deriving DecidableEq, Repr

namespace Emptiness

/-- The outcome of a search that may have found a word. -/
def ofWord? : Option Word → Emptiness
  | none => .empty
  | some w => .nonempty w

def isEmpty : Emptiness → Bool
  | .empty => true
  | .nonempty _ => false

def witness? : Emptiness → Option Word
  | .empty => none
  | .nonempty w => some w

end Emptiness

namespace Machine

variable {σ : Type} [Comparable σ]

/-- Decides whether any word is accepted. -/
def emptiness (S : Machine σ Bool) : Emptiness := .ofWord? S.shortestWord

def acceptsNothing (S : Machine σ Bool) : Bool := S.shortestWord.isNone

end Machine

end ShortestWitness
