/-!
# Sources of random draws

A source draws fractions and numbers from a state that it moves on. That a number drawn below a bound is
below the bound is an assumption about the source (`Draws.Bounded`); nothing is assumed about fractions.
-/

namespace ShortestWitness

/-- A source of fractions and of numbers below a bound. -/
structure Draws (σ : Type) where
  fraction : StateM σ Float
  below : Nat → StateM σ Nat

namespace Draws

variable {σ α β : Type} {n : Nat}

/-- Numbers are below their bound whenever there is one below it. -/
def Bounded (D : Draws σ) : Prop := ∀ n, 0 < n → ∀ s, (D.below n s).1 < n

def chance (D : Draws σ) (probability : Float) : StateM σ Bool := do
  return (← D.fraction) < probability

/-- What is drawn with the given probability, and nothing otherwise. -/
def withChance (D : Draws σ) (probability : Float) (drawn : StateM σ α) : StateM σ (Option α) := do
  if ← D.chance probability then
    return some (← drawn)
  else
    return none

/-- A number below the bound that is known to be below it. -/
def belowFin (D : Draws σ) (hD : D.Bounded) (h : 0 < n) : StateM σ (Fin n) := fun s =>
  let drawn := D.below n s
  (⟨drawn.1, hD n h s⟩, drawn.2)

/-- What is drawn does not depend on what is known of it. -/
theorem map_val_belowFin (D : Draws σ) (hD : D.Bounded) (h : 0 < n) :
    Fin.val <$> D.belowFin hD h = D.below n := rfl

theorem map_withChance (D : Draws σ) (probability : Float) (f : α → β) (drawn : StateM σ α) :
    Option.map f <$> D.withChance probability drawn = D.withChance probability (f <$> drawn) := by
  unfold withChance
  rw [map_bind]
  refine bind_congr fun b => ?_
  cases b with
  | false => rfl
  | true =>
    rw [if_pos rfl, if_pos rfl, map_bind, bind_map_left]
    rfl

end Draws

end ShortestWitness
