import Std.Data.TreeMap

/-!
# Comparable values

Searches look states up, and for this the states have to be comparable: ordered, and equal where
the order does not tell them apart. Pairs are compared by their first parts, and by their second
parts where the first are equal.
-/

namespace ShortestWitness

/-- Types whose values are totally ordered, and equal if the order does not tell them apart. -/
class Comparable (α : Type) extends Ord α where
  [trans : Std.TransOrd α]
  [lawfulEq : Std.LawfulEqOrd α]

attribute [instance] Comparable.trans Comparable.lawfulEq

instance : Comparable Nat where

instance {α β : Type} [Comparable α] [Comparable β] : Comparable (α × β) where
  compare := compareLex (compareOn Prod.fst) (compareOn Prod.snd)
  lawfulEq.eq_of_compare h := by
    obtain ⟨h₁, h₂⟩ := compareLex_eq_eq.1 h
    exact Prod.ext (Std.compare_eq_iff_eq.1 h₁) (Std.compare_eq_iff_eq.1 h₂)

/-- A map from finitely many comparable values. -/
abbrev FiniteMap (α β : Type) [Comparable α] := Std.TreeMap α β compare

namespace FiniteMap

variable {α β : Type} [Comparable α] {m : FiniteMap α β} {a b : α} {v : β}

/-- An insertion leaves the other values alone. -/
theorem getElem?_insert_of_ne (h : a ≠ b) : (m.insert a v)[b]? = m[b]? := by
  rw [Std.TreeMap.getElem?_insert, if_neg (mt Std.compare_eq_iff_eq.1 h)]

theorem getElem?_eq_none_iff : m[a]? = none ↔ a ∉ m := by
  rw [← Std.TreeMap.isSome_getElem?_iff_mem, Option.not_isSome_iff_eq_none]

end FiniteMap

end ShortestWitness
