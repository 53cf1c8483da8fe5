import ShortestWitness.Alphabet

/-!
# Machines

A machine reads words symbol by symbol and moves between states. Its step function is partial: a
machine without a move on a symbol is stuck there, and a stuck run has no end. States carry colors;
with truth values for colors a machine accepts the words whose run ends in a true state.
-/

namespace ShortestWitness

/-- A deterministic machine with states in `σ` and colors in `κ`. Only symbols of the alphabet are read,
moves lead to finitely many states, and a state that does not exist has no color. -/
structure Machine (σ κ : Type) where
  alphabet : Alphabet
  initial : σ
  step : σ → Char → Option σ
  color : σ → Option κ
  mem_of_step : ∀ {p c q}, step p c = some q → c ∈ alphabet
  finite : ∃ l : List σ, ∀ {p c q}, step p c = some q → q ∈ l
  color_initial : (color initial).isSome
  color_of_step : ∀ {p c q}, step p c = some q → (color q).isSome

namespace Machine

variable {σ κ : Type}

/-- The end of the run from `p` on a word, unless the machine is stuck on the way. -/
def runFrom (S : Machine σ κ) (p : σ) (w : Word) : Option σ := w.foldlM S.step p

@[simp] theorem runFrom_nil (S : Machine σ κ) (p : σ) : S.runFrom p [] = some p := rfl

@[simp] theorem runFrom_cons (S : Machine σ κ) (p : σ) (c : Char) (w : Word) :
    S.runFrom p (c :: w) = (S.step p c).bind (S.runFrom · w) := rfl

/-- A run on two words is a run on the second from where the run on the first ends. -/
theorem runFrom_append (S : Machine σ κ) (p : σ) (u v : Word) :
    S.runFrom p (u ++ v) = (S.runFrom p u).bind (S.runFrom · v) := by
  induction u generalizing p with
  | nil => rfl
  | cons c u ih => cases h : S.step p c <;> simp [h, ih]

def run (S : Machine σ κ) (w : Word) : Option σ := S.runFrom S.initial w

/-- The run from the initial state ends in a true state. -/
def accepts (S : Machine σ Bool) (w : Word) : Bool := (S.run w).bind S.color = some true

/-- The moves from a state, in the order of the alphabet. -/
def moves (S : Machine σ κ) (p : σ) : List (Char × σ) :=
  S.alphabet.symbols.filterMap fun c => (S.step p c).map (c, ·)

/-- The moves that are listed are the steps that there are. -/
theorem mem_moves {S : Machine σ κ} {p q : σ} {c : Char} :
    (c, q) ∈ S.moves p ↔ S.step p c = some q := by
  simp only [moves, List.mem_filterMap, Option.map_eq_some_iff, Prod.mk.injEq]
  constructor
  · rintro ⟨d, -, r, h, rfl, rfl⟩
    exact h
  · exact fun h => ⟨c, S.mem_of_step h, q, h, rfl, rfl⟩

end Machine

end ShortestWitness
