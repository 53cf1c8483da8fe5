import ShortestWitness.Automaton.Basic
import ShortestWitness.Machine.Combine
import ShortestWitness.Machine.Search

/-!
# Comparing machines

Two machines are told apart by a word that both can read to its end and that exactly one of them
accepts. The comparison searches the symmetric difference for a shortest such word. Two states of
one automaton are told apart in the same way.
-/

namespace ShortestWitness

/-- One of the two machines that are compared. -/
inductive Side where
  | first
  | second
deriving DecidableEq, Repr

namespace Side

def other : Side → Side
  | .first => .second
  | .second => .first

/-- The machines are counted from one. -/
def number : Side → Nat
  | .first => 1
  | .second => 2

end Side

/-- What comes of a comparison: no word tells the machines apart, or one does, and the machine on one side
accepts it. -/
inductive Comparison where
  | equivalent
  | different (witness : Word) (acceptor : Side)
deriving DecidableEq, Repr

namespace Comparison

def isEquivalent : Comparison → Bool
  | .equivalent => true
  | .different .. => false

def witness? : Comparison → Option Word
  | .equivalent => none
  | .different w _ => some w

/-- Only machines that are equivalent have no witness. -/
theorem witness?_eq_none_iff {c : Comparison} : c.witness? = none ↔ c = .equivalent := by
  cases c <;> simp [witness?]

def acceptor? : Comparison → Option Side
  | .equivalent => none
  | .different _ side => some side

end Comparison

namespace Machine

variable {σ τ : Type}

/-- The side that accepts a word, if exactly one does. -/
def soleAcceptor? (L : Machine σ Bool) (R : Machine τ Bool) (w : Word) : Option Side :=
  match L.accepts w, R.accepts w with
  | true, false => some .first
  | false, true => some .second
  | _, _ => none

variable [Comparable σ] [Comparable τ]

/-- Compares two machines. A word on which they differ is accepted by the second one if it is not
accepted by the first. -/
def compare (L : Machine σ Bool) (R : Machine τ Bool) : Comparison :=
  match (L.symmetricDifference R).shortestWord with
  | none => .equivalent
  | some w => .different w (if L.accepts w then .first else .second)

end Machine

def Automaton.equivalent (M N : Automaton) : Bool := (M.machine.compare N.machine).isEquivalent

/-- A shortest word that both states can read to an end and exactly one of them accepts. -/
def Automaton.separatingWord (M : Automaton) (p q : Nat) : Option Word :=
  if p < M.size ∧ q < M.size then
    (M.machine.symmetricDifference M.machine).shortestWordFrom (p, q)
  else none

end ShortestWitness
