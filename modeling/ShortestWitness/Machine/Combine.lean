import ShortestWitness.Machine.Basic

/-!
# Combining machines

Recoloring changes the colors of a machine and nothing else. The product of two machines runs
both in lockstep: it reads the common symbols, moves where both move and is stuck where either is
stuck. With a function of two truth values on the pairs of colors it stands for a combination of
the two accepted languages, the symmetric difference above all.
-/

namespace ShortestWitness.Machine

variable {σ τ κ μ : Type}

/-- The machine with `f` applied to every color. -/
def recolor (S : Machine σ κ) (f : κ → μ) : Machine σ μ where
  alphabet := S.alphabet
  initial := S.initial
  step := S.step
  color p := (S.color p).map f
  mem_of_step := S.mem_of_step
  finite := S.finite
  color_initial := by simp [S.color_initial]
  color_of_step h := by simp [S.color_of_step h]

/-- One step of both machines on a symbol that both read. -/
def stepBoth (L : Machine σ κ) (R : Machine τ μ) (p : σ × τ) (c : Char) : Option (σ × τ) :=
  if c ∈ L.alphabet.intersection R.alphabet then
    (L.step p.1 c).bind fun l => (R.step p.2 c).map fun r => (l, r)
  else none

/-- Both parts of a pair move, or the pair does not. -/
theorem stepBoth_eq_some_iff {L : Machine σ κ} {R : Machine τ μ} {p q : σ × τ} {c : Char} :
    stepBoth L R p c = some q ↔ L.step p.1 c = some q.1 ∧ R.step p.2 c = some q.2 := by
  obtain ⟨l, r⟩ := q
  constructor
  · intro h
    simp only [stepBoth] at h
    split at h
    · simpa [Option.bind_eq_some_iff, Option.map_eq_some_iff] using h
    · exact absurd h (by simp)
  · rintro ⟨hl, hr⟩
    have hc := Alphabet.mem_intersection.2 ⟨L.mem_of_step hl, R.mem_of_step hr⟩
    simp only [stepBoth, hl, hr, hc, if_true, Option.bind_some, Option.map_some]

/-- The pair of the colors of two states, if both exist. -/
def colorBoth (L : Machine σ κ) (R : Machine τ μ) (p : σ × τ) : Option (κ × μ) :=
  (L.color p.1).bind fun l => (R.color p.2).map fun r => (l, r)

/-- A pair of states that exist has a color. -/
theorem isSome_colorBoth {L : Machine σ κ} {R : Machine τ μ} {p : σ × τ}
    (hl : (L.color p.1).isSome) (hr : (R.color p.2).isSome) : (colorBoth L R p).isSome := by
  obtain ⟨l, hl⟩ := Option.isSome_iff_exists.1 hl
  obtain ⟨r, hr⟩ := Option.isSome_iff_exists.1 hr
  simp [colorBoth, hl, hr]

def product (L : Machine σ κ) (R : Machine τ μ) : Machine (σ × τ) (κ × μ) where
  alphabet := L.alphabet.intersection R.alphabet
  initial := (L.initial, R.initial)
  step := stepBoth L R
  color := colorBoth L R
  mem_of_step h := by
    obtain ⟨hl, hr⟩ := stepBoth_eq_some_iff.1 h
    exact Alphabet.mem_intersection.2 ⟨L.mem_of_step hl, R.mem_of_step hr⟩
  finite := by
    obtain ⟨ls, hls⟩ := L.finite
    obtain ⟨rs, hrs⟩ := R.finite
    refine ⟨ls.flatMap fun l => rs.map fun r => (l, r), fun h => ?_⟩
    obtain ⟨hl, hr⟩ := stepBoth_eq_some_iff.1 h
    exact List.mem_flatMap.2 ⟨_, hls hl, List.mem_map.2 ⟨_, hrs hr, rfl⟩⟩
  color_initial := isSome_colorBoth L.color_initial R.color_initial
  color_of_step h := by
    obtain ⟨hl, hr⟩ := stepBoth_eq_some_iff.1 h
    exact isSome_colorBoth (L.color_of_step hl) (R.color_of_step hr)

/-- The product that accepts where exactly one of the two machines accepts. -/
def symmetricDifference (L : Machine σ Bool) (R : Machine τ Bool) : Machine (σ × τ) Bool :=
  (L.product R).recolor fun colors => colors.1 ^^ colors.2

end ShortestWitness.Machine
