import ShortestWitness.Automaton.Outline
import ShortestWitness.Machine.Combine

/-!
# Composites

A composite remembers how a machine was put together from automata. Its outline is the outlines of
its parts; its machine is the machine to run.
-/

namespace ShortestWitness

/-- A machine put together from automata by recoloring and products. -/
inductive Composite : Type → Type → Type 1 where
  | automaton (M : Automaton) : Composite Nat Bool
  | recolored {σ κ μ : Type} (f : κ → μ) (part : Composite σ κ) : Composite σ μ
  | product {σ τ κ μ : Type} (left : Composite σ κ) (right : Composite τ μ) :
    Composite (σ × τ) (κ × μ)

namespace Composite

def machine {σ κ : Type} : Composite σ κ → Machine σ κ
  | .automaton M => M.machine
  | .recolored f part => part.machine.recolor f
  | .product left right => left.machine.product right.machine

/-- The outline of a composite; functions on colors leave no trace in it. -/
def outline {σ κ : Type} : Composite σ κ → String
  | .automaton M => M.outline
  | .recolored _ part => "MapStateColor(" ++ part.outline ++ ")"
  | .product left right =>
    "MatchingProduct \x7b left: " ++ left.outline ++ ", right: " ++ right.outline ++
      ", alphabet: " ++ (left.machine.alphabet.intersection right.machine.alphabet).outline ++
      " \x7d"

end Composite

end ShortestWitness
