import ShortestWitness.Proofs.Machine.Run

/-!
# Renaming states

A machine whose states are those of another one under other names does the same with every word: its
runs are the runs of the other one, renamed (`runFrom_map`). So the two machines have the same words,
those that are read to their end and those that are accepted (`SameWords`). This is seen from the moves
alone, so it is true for alphabets that differ in symbols without moves. If the alphabets do not differ,
the machines agree on all that can be seen from outside (`Agrees`).
-/

namespace ShortestWitness.Machine

variable {σ τ κ : Type}

/-- The second machine has the states of the first one under the names that `f` gives them, and does
with them what the first one does. -/
structure Renames (S : Machine σ κ) (T : Machine τ κ) (f : σ → τ) : Prop where
  alphabet : T.alphabet = S.alphabet
  initial : T.initial = f S.initial
  step : ∀ p c, T.step (f p) c = (S.step p c).map f
  color : ∀ p, T.color (f p) = S.color p

/-- The machines read the same words to their end and accept the same words. -/
structure SameWords (S : Machine σ Bool) (T : Machine τ Bool) : Prop where
  isSome_run : ∀ w, (T.run w).isSome = (S.run w).isSome
  accepts : ∀ w, T.accepts w = S.accepts w

/-- The machines cannot be told apart by their words. -/
structure Agrees (S : Machine σ Bool) (T : Machine τ Bool) : Prop where
  alphabet : T.alphabet = S.alphabet
  isSome_run : ∀ w, (T.run w).isSome = (S.run w).isSome
  accepts : ∀ w, T.accepts w = S.accepts w

theorem Agrees.refl (S : Machine σ Bool) : S.Agrees S := ⟨rfl, fun _ => rfl, fun _ => rfl⟩

theorem Agrees.sameWords {S : Machine σ Bool} {T : Machine τ Bool} (h : S.Agrees T) :
    S.SameWords T :=
  ⟨h.isSome_run, h.accepts⟩

/-- Where moves are renamed, runs are. -/
theorem runFrom_map {S : Machine σ κ} {T : Machine τ κ} {f : σ → τ}
    (hstep : ∀ p c, T.step (f p) c = (S.step p c).map f) (p : σ) (w : Word) :
    T.runFrom (f p) w = (S.runFrom p w).map f := by
  induction w generalizing p with
  | nil => rfl
  | cons c w ih =>
    rw [runFrom_cons, runFrom_cons, hstep]
    cases S.step p c with
    | none => rfl
    | some q => exact ih q

section Words

variable {S : Machine σ Bool} {T : Machine τ Bool} {f : σ → τ}

/-- Machines with the same moves have the same words, whatever else their alphabets contain. -/
theorem SameWords.of_step (hinitial : T.initial = f S.initial)
    (hstep : ∀ p c, T.step (f p) c = (S.step p c).map f)
    (hcolor : ∀ p, T.color (f p) = S.color p) : S.SameWords T := by
  have hrun : ∀ w, T.run w = (S.run w).map f := fun w => by
    rw [run, hinitial]
    exact runFrom_map hstep S.initial w
  refine ⟨fun w => ?_, fun w => ?_⟩
  · rw [hrun, Option.isSome_map]
  · rw [Machine.accepts, Machine.accepts, hrun]
    cases S.run w with
    | none => rfl
    | some p => rw [Option.map_some, Option.bind_some, Option.bind_some, hcolor]

/-- A machine agrees with what its states are renamed to. -/
theorem Renames.agrees (h : S.Renames T f) : S.Agrees T :=
  have hwords : S.SameWords T := .of_step h.initial h.step h.color
  ⟨h.alphabet, hwords.isSome_run, hwords.accepts⟩

end Words

end ShortestWitness.Machine
