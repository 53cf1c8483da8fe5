import ShortestWitness.Decision.Comparison
import ShortestWitness.Proofs.Decision.Emptiness

/-!
# Comparisons are decided by the first disagreement

A word that both machines read to its end and exactly one of them accepts is a disagreement that
the comparison can see. The symmetric difference accepts just these words
(`accepts_symmetricDifference_iff`), and its alphabet has the common symbols in the order of the
first alphabet, so the first of these words is the same for both alphabets. The machine that
accepts it is found by a second run, which agrees with the search.
-/

namespace ShortestWitness

/-- The same verdict and word, with the side put through a function. -/
def Comparison.mapSide (f : Side → Side) : Comparison → Comparison
  | .equivalent => .equivalent
  | .different w side => .different w (f side)

@[simp] theorem Comparison.mapSide_id (c : Comparison) : c.mapSide id = c := by
  cases c <;> rfl

theorem Comparison.isEquivalent_iff {c : Comparison} : c.isEquivalent = true ↔ c = .equivalent := by
  cases c <;> simp [isEquivalent]

theorem Comparison.isEquivalent_eq_isNone (c : Comparison) : c.isEquivalent = c.witness?.isNone := by
  cases c <;> rfl

namespace Machine

variable {σ τ : Type} {L : Machine σ Bool} {R : Machine τ Bool} {w : Word}

/-- Both machines read the word to its end, and exactly one of them ends in a true state. -/
def LiveDisagreement (L : Machine σ Bool) (R : Machine τ Bool) (w : Word) : Prop :=
  ∃ p q, L.run w = some p ∧ R.run w = some q ∧ ¬ (L.color p = some true ↔ R.color q = some true)

/-- From a pair of states the symmetric difference accepts what both parts read to the end and
exactly one of them accepts. -/
theorem acceptsFrom_symmetricDifference_iff {p : σ × τ} (hl : (L.color p.1).isSome)
    (hr : (R.color p.2).isSome) : (L.symmetricDifference R).AcceptsFrom p w ↔
      ∃ q r, L.runFrom p.1 w = some q ∧ R.runFrom p.2 w = some r ∧
        ¬ (L.color q = some true ↔ R.color r = some true) := by
  rw [symmetricDifference, acceptsFrom_recolor_product_iff]
  constructor
  · rintro ⟨q, r, l, k, hq, hr, hl, hk, hf⟩
    refine ⟨q, r, hq, hr, ?_⟩
    rw [hl, hk]
    revert hf
    cases l <;> cases k <;> decide
  · rintro ⟨q, r, hq, hr', hd⟩
    obtain ⟨l, hcl⟩ := Option.isSome_iff_exists.1 (isSome_color_of_runFrom hl hq)
    obtain ⟨k, hck⟩ := Option.isSome_iff_exists.1 (isSome_color_of_runFrom hr hr')
    refine ⟨q, r, l, k, hq, hr', hcl, hck, ?_⟩
    rw [hcl, hck] at hd
    revert hd
    cases l <;> cases k <;> decide

/-- The difference accepts the live disagreements. -/
theorem accepts_symmetricDifference_iff :
    (L.symmetricDifference R).accepts w = true ↔ L.LiveDisagreement R w :=
  accepts_iff.trans (acceptsFrom_symmetricDifference_iff L.color_initial R.color_initial)

/-- Words on which acceptance differs are disagreements unless one of the machines is stuck. -/
theorem liveDisagreement_iff : L.LiveDisagreement R w ↔
    (L.run w).isSome ∧ (R.run w).isSome ∧ L.accepts w ≠ R.accepts w := by
  constructor
  · rintro ⟨p, q, hl, hr, hd⟩
    rw [← accepts_iff_of_run hl, ← accepts_iff_of_run hr, ← Bool.eq_iff_iff] at hd
    exact ⟨by simp [hl], by simp [hr], hd⟩
  · rintro ⟨hl, hr, hd⟩
    obtain ⟨p, hl⟩ := Option.isSome_iff_exists.1 hl
    obtain ⟨q, hr⟩ := Option.isSome_iff_exists.1 hr
    rw [ne_eq, Bool.eq_iff_iff, accepts_iff_of_run hl, accepts_iff_of_run hr] at hd
    exact ⟨p, q, hl, hr, hd⟩

theorem accepts_symmetricDifference : (L.symmetricDifference R).accepts w =
    ((L.run w).isSome && (R.run w).isSome && (L.accepts w != R.accepts w)) := by
  rw [Bool.eq_iff_iff, accepts_symmetricDifference_iff, liveDisagreement_iff]
  simp only [Bool.and_eq_true, bne_iff_ne, and_assoc]

theorem LiveDisagreement.accepts_ne (h : L.LiveDisagreement R w) : L.accepts w ≠ R.accepts w :=
  (liveDisagreement_iff.1 h).2.2

/-- Disagreements have common symbols only. -/
theorem LiveDisagreement.mem_intersection (h : L.LiveDisagreement R w) :
    ∀ c ∈ w, c ∈ L.alphabet.intersection R.alphabet := by
  obtain ⟨p, q, hl, hr, -⟩ := h
  intro c hc
  exact Alphabet.mem_intersection.2 ⟨mem_alphabet_of_runFrom hl c hc, mem_alphabet_of_runFrom hr c hc⟩

/-! ## The machine that accepts -/

variable {side : Side}

/-- The first side is named just if the first machine accepts and the second does not. -/
theorem soleAcceptor?_eq_first_iff :
    L.soleAcceptor? R w = some .first ↔ L.accepts w = true ∧ R.accepts w = false := by
  rw [soleAcceptor?]
  cases L.accepts w <;> cases R.accepts w <;> decide

theorem soleAcceptor?_eq_second_iff :
    L.soleAcceptor? R w = some .second ↔ L.accepts w = false ∧ R.accepts w = true := by
  rw [soleAcceptor?]
  cases L.accepts w <;> cases R.accepts w <;> decide

/-- Where acceptance differs, the machine that accepts is known from the first one alone. -/
theorem soleAcceptor?_of_ne (h : L.accepts w ≠ R.accepts w) :
    L.soleAcceptor? R w = some (if L.accepts w then .first else .second) := by
  rw [soleAcceptor?]
  cases hl : L.accepts w <;> cases hr : R.accepts w
  · exact absurd (hl.trans hr.symm) h
  · rfl
  · rfl
  · exact absurd (hl.trans hr.symm) h

/-! ## The comparison -/

variable [Comparable σ] [Comparable τ]

/-- The search in the difference finds the first disagreement. -/
theorem shortestWord_symmetricDifference_eq_some_iff :
    (L.symmetricDifference R).shortestWord = some w ↔
      L.alphabet.Least (L.LiveDisagreement R) w := by
  have hsub : (L.symmetricDifference R).alphabet.symbols.Sublist L.alphabet.symbols :=
    Alphabet.intersection_sublist L.alphabet R.alphabet
  rw [shortestWord_eq_some_iff, Alphabet.Least.congr fun _ => accepts_symmetricDifference_iff]
  exact Alphabet.least_iff_of_sublist hsub fun _ hw => hw.mem_intersection

/-- The word of a comparison is the word that the search finds. -/
theorem witness?_compare (L : Machine σ Bool) (R : Machine τ Bool) :
    (L.compare R).witness? = (L.symmetricDifference R).shortestWord := by
  rw [compare]
  cases (L.symmetricDifference R).shortestWord <;> rfl

/-- Machines are equivalent just if there is no live disagreement. -/
theorem compare_eq_equivalent_iff : L.compare R = .equivalent ↔ ∀ w, ¬ L.LiveDisagreement R w := by
  rw [← Comparison.witness?_eq_none_iff, witness?_compare, shortestWord_eq_none_iff]
  simp only [← accepts_symmetricDifference_iff, Bool.not_eq_true]

/-- The witness is the first live disagreement. -/
theorem witness?_compare_eq_some_iff :
    (L.compare R).witness? = some w ↔ L.alphabet.Least (L.LiveDisagreement R) w := by
  rw [witness?_compare, shortestWord_symmetricDifference_eq_some_iff]

/-- The comparison finds the first disagreement. -/
theorem finds_witness?_compare (L : Machine σ Bool) (R : Machine τ Bool) :
    L.alphabet.Finds (L.LiveDisagreement R) (L.compare R).witness? := by
  cases h : (L.compare R).witness? with
  | none => exact compare_eq_equivalent_iff.1 (Comparison.witness?_eq_none_iff.1 h)
  | some w => exact witness?_compare_eq_some_iff.1 h

/-- The first disagreement is reported with the machine that accepts it. -/
theorem compare_eq_different_iff : L.compare R = .different w side ↔
    L.alphabet.Least (L.LiveDisagreement R) w ∧ L.soleAcceptor? R w = some side := by
  rw [← shortestWord_symmetricDifference_eq_some_iff, compare]
  split <;> rename_i h
  · simp [h]
  · rename_i v
    rw [h, Comparison.different.injEq, Option.some.injEq]
    refine and_congr_right fun hvw => ?_
    subst hvw
    have hne := (shortestWord_symmetricDifference_eq_some_iff.1 h).1.accepts_ne
    rw [soleAcceptor?_of_ne hne, Option.some.injEq]

/-- Machines with the same disagreements have the same verdict and, if their alphabets agree on which
disagreement is the first, the same word. -/
theorem compare_eq_mapSide {σ' τ' : Type} [Comparable σ'] [Comparable τ'] {L' : Machine σ' Bool}
    {R' : Machine τ' Bool} {f : Side → Side}
    (hlive : ∀ w, L'.LiveDisagreement R' w ↔ L.LiveDisagreement R w)
    (hfirst : ∀ w, L'.alphabet.Least (L.LiveDisagreement R) w ↔
      L.alphabet.Least (L.LiveDisagreement R) w)
    (hside : ∀ w, L.LiveDisagreement R w →
      L'.soleAcceptor? R' w = (L.soleAcceptor? R w).map f) :
    L'.compare R' = (L.compare R).mapSide f := by
  cases h : L.compare R with
  | equivalent =>
    refine compare_eq_equivalent_iff.2 fun w hw => ?_
    exact compare_eq_equivalent_iff.1 h w ((hlive w).1 hw)
  | different w side =>
    obtain ⟨hw, hs⟩ := compare_eq_different_iff.1 h
    refine compare_eq_different_iff.2 ⟨?_, ?_⟩
    · exact (Alphabet.Least.congr hlive).2 ((hfirst w).2 hw)
    · rw [hside w hw.1, hs, Option.map_some]

/-- A comparison tells what the machines do on the words that both read to the end: whether there
is a disagreement, which one is the first, and who accepts it. -/
theorem compare_exact (L : Machine σ Bool) (R : Machine τ Bool) :
    (L.compare R = .equivalent ↔ ∀ w, ¬ L.LiveDisagreement R w) ∧
      (∀ w, (∃ side, L.compare R = .different w side) ↔
        L.alphabet.Least (L.LiveDisagreement R) w) ∧
      (∀ w, L.compare R = .different w .first → L.accepts w = true ∧ R.accepts w = false) ∧
      (∀ w, L.compare R = .different w .second → L.accepts w = false ∧ R.accepts w = true) ∧
      ((∀ w, L.accepts w = R.accepts w) → L.compare R = .equivalent) := by
  refine ⟨compare_eq_equivalent_iff, fun w => ⟨?_, fun h => ?_⟩, fun w h => ?_, fun w h => ?_,
    fun h => ?_⟩
  · rintro ⟨side, h⟩
    exact (compare_eq_different_iff.1 h).1
  · exact ⟨_, compare_eq_different_iff.2 ⟨h, soleAcceptor?_of_ne h.1.accepts_ne⟩⟩
  · exact soleAcceptor?_eq_first_iff.1 (compare_eq_different_iff.1 h).2
  · exact soleAcceptor?_eq_second_iff.1 (compare_eq_different_iff.1 h).2
  · exact compare_eq_equivalent_iff.2 fun w hw => hw.accepts_ne (h w)

end Machine

end ShortestWitness
