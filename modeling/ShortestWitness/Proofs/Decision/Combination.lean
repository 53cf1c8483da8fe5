import Mathlib
import ShortestWitness.Proofs.Automaton.Completion

/-!
# Combinations of two languages

A product whose pairs of colors are put through a function accepts a word if both parts read it to
the end and the function accepts the colors there. Complete automata over the same symbols read all
words over them, so there the function combines what the two automata say about a word
(`accepts_recolor_product`), and the emptiness of combinations decides how the two languages relate.
-/

namespace ShortestWitness

namespace Machine

variable {σ τ κ μ : Type} {L : Machine σ κ} {R : Machine τ μ}

/-- The common alphabet does not take away a move that both parts have. -/
theorem step_product (p : σ × τ) (c : Char) : (L.product R).step p c =
    (L.step p.1 c).bind fun l => (R.step p.2 c).map fun r => (l, r) := by
  refine Option.ext fun q => ?_
  change stepBoth L R p c = some q ↔ _
  rw [stepBoth_eq_some_iff, Option.bind_eq_some_iff]
  simp only [Option.map_eq_some_iff]
  constructor
  · rintro ⟨hl, hr⟩
    exact ⟨q.1, hl, q.2, hr, rfl⟩
  · rintro ⟨l, hl, r, hr, rfl⟩
    exact ⟨hl, hr⟩

end Machine

namespace Automaton

variable {M N : Automaton} {f : Bool × Bool → Bool} {w : Word}

/-- Complete automata have a color at the end of each word over their symbols. -/
theorem exists_run_of_isComplete (h : M.isComplete = true) (hw : ∀ c ∈ w, c ∈ M.alphabet) :
    ∃ p, M.machine.run w = some p ∧ M.machine.color p = some (M.machine.accepts w) := by
  obtain ⟨p, hp⟩ := Option.isSome_iff_exists.1 (isSome_run_of_isComplete h hw)
  obtain ⟨b, hb⟩ := Option.isSome_iff_exists.1 (Machine.isSome_color_of_run hp)
  rw [Machine.accepts_eq_of_color hp hb]
  exact ⟨p, hp, hb⟩

/-- A combination of complete automata combines what they say about a word that both can read. -/
theorem accepts_recolor_product (hM : M.isComplete = true) (hN : N.isComplete = true)
    (hw : ∀ c ∈ w, c ∈ M.alphabet ∧ c ∈ N.alphabet) :
    ((M.machine.product N.machine).recolor f).accepts w =
      f (M.machine.accepts w, N.machine.accepts w) := by
  obtain ⟨p, hp, hcp⟩ := exists_run_of_isComplete hM fun c hc => (hw c hc).1
  obtain ⟨q, hq, hcq⟩ := exists_run_of_isComplete hN fun c hc => (hw c hc).2
  have hrun : ((M.machine.product N.machine).recolor f).run w = some (p, q) :=
    Machine.runFrom_product_eq_some_iff.2 ⟨hp, hq⟩
  have hcolors : (M.machine.product N.machine).color (p, q) =
      some (M.machine.accepts w, N.machine.accepts w) :=
    Machine.color_product_eq_some_iff.2 ⟨hcp, hcq⟩
  refine Machine.accepts_eq_of_color hrun ?_
  show ((M.machine.product N.machine).color (p, q)).map f = _
  rw [hcolors]
  rfl

/-- Words over other symbols are not read, and the combination must not accept what neither automaton
accepts. -/
theorem acceptsNothing_recolor_product_iff (hM : M.isComplete = true) (hN : N.isComplete = true)
    (h : ∀ c, c ∈ M.alphabet ↔ c ∈ N.alphabet) (hf : f (false, false) = false) :
    ((M.machine.product N.machine).recolor f).acceptsNothing = true ↔
      ∀ w, f (M.machine.accepts w, N.machine.accepts w) = false := by
  rw [Machine.acceptsNothing_iff]
  refine forall_congr' fun w => ?_
  by_cases hw : ∀ c ∈ w, c ∈ M.alphabet
  · rw [accepts_recolor_product hM hN fun c hc => ⟨hw c hc, (h c).1 (hw c hc)⟩]
  · have hprod : ((M.machine.product N.machine).recolor f).accepts w = false := by
      refine Bool.eq_false_iff.2 fun ha => hw fun c hc => ?_
      have hc := (Machine.accepts_iff.1 ha).mem_alphabet c hc
      exact (Alphabet.mem_intersection.1 hc).1
    have hM' : M.machine.accepts w = false :=
      Bool.eq_false_iff.2 fun ha => hw (mem_alphabet_of_accepts ha)
    have hN' : N.machine.accepts w = false :=
      Bool.eq_false_iff.2 fun ha => hw fun c hc => (h c).2 (mem_alphabet_of_accepts ha c hc)
    rw [hprod, hM', hN', hf]

end Automaton

/-- The product of two machines runs where both run, has the colors of both, and accepts what a
function of the colors accepts. On complete automata over the same symbols a function of two truth
values combines the languages; with the right function, accepting nothing is inclusion, and with
another one it is disjointness. -/
theorem product_exact :
    (∀ {σ τ κ μ : Type} (L : Machine σ κ) (R : Machine τ μ),
      (∀ p q c, (L.product R).step (p, q) c =
        (L.step p c).bind fun l => (R.step q c).map fun r => (l, r)) ∧
      (∀ p q p' q' w, (L.product R).runFrom (p, q) w = some (p', q') ↔
        L.runFrom p w = some p' ∧ R.runFrom q w = some q') ∧
      (∀ p q l r, (L.product R).color (p, q) = some (l, r) ↔
        L.color p = some l ∧ R.color q = some r) ∧
      ∀ (f : κ × μ → Bool) w, ((L.product R).recolor f).accepts w = true ↔
        ∃ p q l r, L.run w = some p ∧ R.run w = some q ∧ L.color p = some l ∧ R.color q = some r ∧
          f (l, r) = true) ∧
      ∀ M N : Automaton, M.isComplete = true → N.isComplete = true →
        (∀ c, c ∈ M.alphabet ↔ c ∈ N.alphabet) →
        (∀ (f : Bool × Bool → Bool) w, (∀ c ∈ w, c ∈ M.alphabet) →
          ((M.machine.product N.machine).recolor f).accepts w =
            f (M.machine.accepts w, N.machine.accepts w)) ∧
        (((M.machine.product N.machine).recolor fun colors => colors.1 && !colors.2).acceptsNothing =
          true ↔ ∀ w, M.machine.accepts w = true → N.machine.accepts w = true) ∧
        (((M.machine.product N.machine).recolor fun colors => colors.1 && colors.2).acceptsNothing =
          true ↔ ∀ w, ¬ (M.machine.accepts w = true ∧ N.machine.accepts w = true)) := by
  refine ⟨fun L R => ⟨fun p q => Machine.step_product (p, q), fun p q p' q' w =>
    Machine.runFrom_product_eq_some_iff, fun p q l r => Machine.color_product_eq_some_iff,
    fun f w => Machine.accepts_iff.trans Machine.acceptsFrom_recolor_product_iff⟩,
    fun M N hM hN h => ⟨fun f w hw => ?_, ?_, ?_⟩⟩
  · exact Automaton.accepts_recolor_product hM hN fun c hc => ⟨hw c hc, (h c).1 (hw c hc)⟩
  · rw [Automaton.acceptsNothing_recolor_product_iff hM hN h rfl]
    refine forall_congr' fun w => ?_
    cases M.machine.accepts w <;> cases N.machine.accepts w <;> decide
  · rw [Automaton.acceptsNothing_recolor_product_iff hM hN h rfl]
    refine forall_congr' fun w => ?_
    cases M.machine.accepts w <;> cases N.machine.accepts w <;> decide

namespace Automaton

/-! ## Automata whose states are only numbered -/

/-- The automaton whose first state is initial and whose states are named by their numbers. -/
def numbered (A : Alphabet) (n : Nat) (accepting : Fin (n + 1) → Bool)
    (move : Fin (n + 1) → Char → Option (Fin (n + 1))) : Automaton :=
  tabulate A 0 (fun p => numberedName p) numberedName_fin_inj accepting move

section Numbered

variable {n : Nat} {accepting : Fin (n + 1) → Bool}
  {move : Fin (n + 1) → Char → Option (Fin (n + 1))}

@[simp] theorem size_numbered {A : Alphabet} : (numbered A n accepting move).size = n + 1 :=
  @size_tabulate A (n + 1) _ _ numberedName_fin_inj _ _

theorem step_numbered {A : Alphabet} (p : Fin (n + 1)) (c : Char) :
    (numbered A n accepting move).step p c = if c ∈ A then (move p c).map Fin.val else none :=
  @step_tabulate A (n + 1) _ _ numberedName_fin_inj _ _ p c

end Numbered

/-- The automaton that counts the symbols modulo `n + 1`. -/
def counter (A : Alphabet) (n : Nat) (accepting : Fin (n + 1) → Bool) : Automaton :=
  tabulate A (0 : Fin (n + 1)) (fun p => numberedName p) (fun h => Fin.ext (numberedName_inj h))
    accepting fun p _ => some (p + 1)

@[simp] theorem alphabet_counter {A : Alphabet} {n : Nat} {accepting : Fin (n + 1) → Bool} :
    (counter A n accepting).alphabet = A := rfl

/-- Accepts the words with an even number of symbols. -/
def evenLength (A : Alphabet) : Automaton := counter A 1 (· = 0)

/-- Accepts the words whose number of symbols is a multiple of four. -/
def fourfoldLength (A : Alphabet) : Automaton := counter A 3 (· = 0)

/-- Multiples of four are even, though the two alphabets have different orders. -/
theorem product_counter :
    (fourfoldLength (.ofList ['b', 'a'])).isComplete = true ∧
      (evenLength .standard).isComplete = true ∧
      (∀ c, c ∈ (fourfoldLength (.ofList ['b', 'a'])).alphabet ↔ c ∈ (evenLength .standard).alphabet) ∧
      (((fourfoldLength (.ofList ['b', 'a'])).machine.product (evenLength .standard).machine).recolor
        fun colors => colors.1 ^^ colors.2).accepts ['a', 'b'] = true ∧
      (∀ w, (fourfoldLength (.ofList ['b', 'a'])).machine.accepts w = true →
        (evenLength .standard).machine.accepts w = true) ∧
      ¬ ∀ w, ¬ ((fourfoldLength (.ofList ['b', 'a'])).machine.accepts w = true ∧
        (evenLength .standard).machine.accepts w = true) := by
  have hfour : (fourfoldLength (.ofList ['b', 'a'])).isComplete = true := by cbv
  have heven : (evenLength .standard).isComplete = true := by cbv
  have hsame : ∀ c, c ∈ (fourfoldLength (.ofList ['b', 'a'])).alphabet ↔
      c ∈ (evenLength .standard).alphabet := fun c => by
    simp [fourfoldLength, evenLength, Alphabet.mem_def, Alphabet.ofList, Alphabet.mem_distinct,
      Alphabet.standard, or_comm]
  obtain ⟨haccepts, hincluded, hdisjoint⟩ := product_exact.2 _ _ hfour heven hsame
  refine ⟨hfour, heven, hsame, ?_, hincluded.1 (by cbv), fun h => ?_⟩
  · rw [haccepts]
    · cbv
    · simp [fourfoldLength, Alphabet.mem_def, Alphabet.ofList, Alphabet.mem_distinct]
  · refine Bool.eq_false_iff.1 ?_ (hdisjoint.2 h)
    cbv

end Automaton

end ShortestWitness
