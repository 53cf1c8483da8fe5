import ShortestWitness.Proofs.Decision.Comparison
import ShortestWitness.Proofs.Machine.Renaming

/-!
# Decisions depend on words only

The first accepted word and the first disagreement are determined by the words that machines read
and accept and by the order of the alphabet. Machines with the same words get the same verdicts and
words of the same length, whatever their alphabets are; if common symbols have the same order in these,
they get the same words (`SameWords.emptiness_eq`, `SameWords.compare_eq`). So machines that agree get the
same answers (`Agrees.compare_eq`), however many states they have and in whatever order a search visits
them.
-/

namespace ShortestWitness.Machine

variable {σ σ' τ τ' : Type}

namespace SameWords

/-- Machines with the same words disagree on the same words. -/
theorem liveDisagreement_iff {L : Machine σ Bool} {L' : Machine σ' Bool} {R : Machine τ Bool}
    {R' : Machine τ' Bool} (hl : L.SameWords L') (hr : R.SameWords R') (w : Word) :
    L'.LiveDisagreement R' w ↔ L.LiveDisagreement R w := by
  rw [Machine.liveDisagreement_iff, Machine.liveDisagreement_iff, hl.isSome_run, hr.isSome_run,
    hl.accepts, hr.accepts]

/-- What is read by both machines is in both alphabets. -/
theorem mem_intersection {S : Machine σ Bool} {T : Machine σ' Bool} (h : S.SameWords T) {w : Word}
    (hw : (S.run w).isSome) : ∀ c ∈ w, c ∈ S.alphabet.intersection T.alphabet := by
  obtain ⟨q, hq⟩ := Option.isSome_iff_exists.1 ((h.isSome_run w).trans hw)
  obtain ⟨p, hp⟩ := Option.isSome_iff_exists.1 hw
  intro c hc
  exact Alphabet.mem_intersection.2 ⟨mem_alphabet_of_runFrom hp c hc, mem_alphabet_of_runFrom hq c hc⟩

section Emptiness

variable {S : Machine σ Bool} {T : Machine σ' Bool} (h : S.SameWords T)

include h

/-- Both machines search for the same words, each in the order of its own alphabet. -/
theorem finds_shortestWord [Comparable σ'] :
    T.alphabet.Finds (fun w => S.accepts w = true) T.shortestWord :=
  (Alphabet.Finds.congr fun w => by rw [h.accepts]).1 (Machine.finds_shortestWord T)

variable [Comparable σ] [Comparable σ']

theorem isEmpty_eq : T.emptiness.isEmpty = S.emptiness.isEmpty := by
  rw [isEmpty_emptiness, isEmpty_emptiness]
  exact (Machine.finds_shortestWord S).isNone_eq h.finds_shortestWord

theorem length_witness?_emptiness :
    T.emptiness.witness?.map List.length = S.emptiness.witness?.map List.length := by
  rw [witness?_emptiness, witness?_emptiness]
  exact (Machine.finds_shortestWord S).map_length_eq h.finds_shortestWord

/-- With one order of symbols the witness is the same word. -/
theorem emptiness_eq (horder : S.alphabet.SameOrder T.alphabet) : T.emptiness = S.emptiness := by
  refine congrArg Emptiness.ofWord? ?_
  refine (Machine.finds_shortestWord S).eq_of_sameOrder h.finds_shortestWord horder fun w hw => ?_
  obtain ⟨p, hp, -⟩ := accepts_iff.1 hw
  exact h.mem_intersection (Option.isSome_iff_exists.2 ⟨p, hp⟩)

end Emptiness

section Comparison

variable {L : Machine σ Bool} {L' : Machine σ' Bool} {R : Machine τ Bool} {R' : Machine τ' Bool}
  (hl : L.SameWords L') (hr : R.SameWords R')

include hl hr

/-- The witness of the other comparison is the first disagreement in its own order. -/
theorem finds_witness?_compare [Comparable σ'] [Comparable τ'] :
    L'.alphabet.Finds (L.LiveDisagreement R) (L'.compare R').witness? :=
  (Alphabet.Finds.congr (hl.liveDisagreement_iff hr)).1 (Machine.finds_witness?_compare L' R')

variable [Comparable σ] [Comparable σ'] [Comparable τ] [Comparable τ']

/-- Both comparisons come to the same verdict. -/
theorem isEquivalent_compare :
    (L'.compare R').isEquivalent = (L.compare R).isEquivalent := by
  rw [Comparison.isEquivalent_eq_isNone, Comparison.isEquivalent_eq_isNone]
  exact (Machine.finds_witness?_compare L R).isNone_eq (hl.finds_witness?_compare hr)

/-- Both witnesses have one length. -/
theorem length_witness?_compare :
    (L'.compare R').witness?.map List.length = (L.compare R).witness?.map List.length :=
  (Machine.finds_witness?_compare L R).map_length_eq (hl.finds_witness?_compare hr)

/-- The order of the first machine's symbols decides which disagreement is the first. -/
theorem compare_eq (horder : L.alphabet.SameOrder L'.alphabet) : L'.compare R' = L.compare R := by
  have hfirst : ∀ w, L'.alphabet.Least (L.LiveDisagreement R) w ↔
      L.alphabet.Least (L.LiveDisagreement R) w := fun w =>
    (Alphabet.least_iff_of_sameOrder horder fun v hv =>
      hl.mem_intersection (Machine.liveDisagreement_iff.1 hv).1).symm
  have hside : ∀ w, L'.soleAcceptor? R' w = (L.soleAcceptor? R w).map id := fun w => by
    rw [soleAcceptor?, hl.accepts, hr.accepts, Option.map_id]
    rfl
  have h := compare_eq_mapSide (hl.liveDisagreement_iff hr) hfirst fun w _ => hside w
  rwa [Comparison.mapSide_id] at h

end Comparison

end SameWords

namespace Agrees

theorem sameOrder {S : Machine σ Bool} {T : Machine σ' Bool} (h : S.Agrees T) :
    S.alphabet.SameOrder T.alphabet :=
  fun _ _ _ _ _ _ => by rw [h.alphabet]

variable [Comparable σ] [Comparable σ'] [Comparable τ] [Comparable τ']

/-- Machines that agree accept the same first word. -/
theorem emptiness_eq {S : Machine σ Bool} {T : Machine σ' Bool} (h : S.Agrees T) :
    T.emptiness = S.emptiness :=
  h.sameWords.emptiness_eq h.sameOrder

/-- Machines that agree with those compared give the same verdict, word and side. -/
theorem compare_eq {L : Machine σ Bool} {L' : Machine σ' Bool} {R : Machine τ Bool}
    {R' : Machine τ' Bool} (hl : L.Agrees L') (hr : R.Agrees R') :
    L'.compare R' = L.compare R :=
  hl.sameWords.compare_eq hr.sameWords hl.sameOrder

end Agrees

end ShortestWitness.Machine
