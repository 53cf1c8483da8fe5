import ShortestWitness.Decision.Emptiness
import ShortestWitness.Proofs.Search.Runs

/-!
# Emptiness is decided by the first accepted word

The search for an accepted word stops at the first true state that it visits. All states before
it are not true, so the words that lead to true states come after the word of this state
(`shortestWordFrom_eq_some_iff`); if no true state is visited there is no such word at all
(`shortestWordFrom_eq_none_iff`). The other questions about emptiness are put to the search from
the initial state.
-/

namespace ShortestWitness.Machine

variable {σ : Type} [Comparable σ] {S : Machine σ Bool} {p : σ} {w : Word}

/-- The word that is found is the first word that leads to a true state. -/
theorem least_of_shortestWordFrom (h : S.shortestWordFrom p = some w) :
    S.alphabet.Least (S.AcceptsFrom p) w := by
  obtain ⟨⟨v, t⟩, hf, (hw : t.wordTo? v.state = some w)⟩ := Option.bind_eq_some_iff.1 h
  obtain ⟨ht, ys, e, hy, hev, he, hys⟩ :=
    (Search.explores_start S p).of_first?_eq_some (by simp) hf
  have hword : t.wordTo? e.state = some e.word := Search.wordTo?_of_mem_yielded (by simp [hy])
  rw [hev, hw] at hword
  obtain rfl := Option.some.inj hword
  rw [Search.Explores, hy] at ht
  refine ht.least_of_first (of_decide_eq_true he) fun d hd => ?_
  exact of_decide_eq_false (hys d hd)

/-- If no word is found there is none. -/
theorem not_acceptsFrom_of_shortestWordFrom (h : S.shortestWordFrom p = none) (w : Word) :
    ¬ S.AcceptsFrom p w := by
  rintro ⟨q, hq, hc⟩
  cases hf : (Search.start p).first? S (fun q => S.color q = some true) with
  | none =>
    obtain ⟨ys, hy, hno⟩ := (Search.explores_start S p).of_first?_eq_none (by simp) hf
    obtain ⟨e, he, rfl⟩ := List.mem_map.1 (hy.mem_states_iff.2 ⟨w, hq⟩)
    exact of_decide_eq_false (hno e he) hc
  | some x =>
    -- a search that stops at a state has found it, and so finds the word to it
    obtain ⟨-, ys, e, hy, hev, -, -⟩ := (Search.explores_start S p).of_first?_eq_some (by simp) hf
    have hword : x.2.wordTo? e.state = some e.word := Search.wordTo?_of_mem_yielded (by simp [hy])
    have hnone : x.2.wordTo? x.1.state = none := Option.bind_eq_none_iff.1 h x hf
    rw [hev, hnone] at hword
    exact absurd hword (by simp)

/-- No word is found just if none is accepted. -/
theorem shortestWordFrom_eq_none_iff :
    S.shortestWordFrom p = none ↔ ∀ w, ¬ S.AcceptsFrom p w := by
  refine ⟨not_acceptsFrom_of_shortestWordFrom, fun h => ?_⟩
  cases hw : S.shortestWordFrom p with
  | none => rfl
  | some w => exact absurd (least_of_shortestWordFrom hw).1 (h w)

/-- The word that is found is the first accepted one. -/
theorem shortestWordFrom_eq_some_iff :
    S.shortestWordFrom p = some w ↔ S.alphabet.Least (S.AcceptsFrom p) w := by
  refine ⟨least_of_shortestWordFrom, fun h => ?_⟩
  cases hv : S.shortestWordFrom p with
  | none => exact absurd h.1 (not_acceptsFrom_of_shortestWordFrom hv w)
  | some v => rw [(least_of_shortestWordFrom hv).unique h]

theorem shortestWord_eq_none_iff : S.shortestWord = none ↔ ∀ w, S.accepts w = false := by
  simp only [shortestWord, shortestWordFrom_eq_none_iff, ← accepts_iff, Bool.not_eq_true]

theorem shortestWord_eq_some_iff :
    S.shortestWord = some w ↔ S.alphabet.Least (fun v => S.accepts v = true) w := by
  rw [shortestWord, shortestWordFrom_eq_some_iff]
  exact Alphabet.Least.congr fun _ => accepts_iff.symm

theorem emptiness_eq_empty_iff : S.emptiness = .empty ↔ S.shortestWord = none := by
  rw [emptiness]
  cases S.shortestWord <;> simp [Emptiness.ofWord?]

theorem emptiness_eq_nonempty_iff : S.emptiness = .nonempty w ↔ S.shortestWord = some w := by
  rw [emptiness]
  cases S.shortestWord <;> simp [Emptiness.ofWord?]

/-- The search finds the first accepted word. -/
theorem finds_shortestWord (S : Machine σ Bool) :
    S.alphabet.Finds (fun w => S.accepts w = true) S.shortestWord := by
  cases h : S.shortestWord with
  | none => exact fun w => Bool.eq_false_iff.1 (shortestWord_eq_none_iff.1 h w)
  | some w => exact shortestWord_eq_some_iff.1 h

theorem witness?_emptiness (S : Machine σ Bool) : S.emptiness.witness? = S.shortestWord := by
  rw [emptiness]
  cases S.shortestWord <;> rfl

theorem isEmpty_emptiness (S : Machine σ Bool) : S.emptiness.isEmpty = S.shortestWord.isNone := by
  rw [emptiness]
  cases S.shortestWord <;> rfl

/-- The first accepted word depends on nothing but the accepted words and the order of the alphabet. -/
theorem shortestWord_congr {τ : Type} [Comparable τ] {T : Machine τ Bool}
    (halphabet : T.alphabet = S.alphabet) (haccepts : ∀ w, T.accepts w = S.accepts w) :
    T.shortestWord = S.shortestWord := by
  have hT : T.alphabet.Finds (fun w => S.accepts w = true) T.shortestWord :=
    (Alphabet.Finds.congr fun w => by rw [haccepts]).1 (finds_shortestWord T)
  rw [halphabet] at hT
  exact (finds_shortestWord S).unique hT

/-- Only the alphabet and the accepted words matter. -/
theorem emptiness_congr {τ : Type} [Comparable τ] {T : Machine τ Bool}
    (halphabet : T.alphabet = S.alphabet) (haccepts : ∀ w, T.accepts w = S.accepts w) :
    T.emptiness = S.emptiness := by
  rw [emptiness, emptiness, shortestWord_congr halphabet haccepts]

/-- The machine accepts nothing just if it rejects every word. -/
theorem acceptsNothing_iff : S.acceptsNothing = true ↔ ∀ w, S.accepts w = false := by
  rw [acceptsNothing, Option.isNone_iff_eq_none, shortestWord_eq_none_iff]

/-- Whether a state can reach a true state, and whether any word is accepted, is decided exactly,
and the word that is given is the first of all. -/
theorem shortestWordFrom_exact (S : Machine σ Bool) :
    (∀ p w, S.shortestWordFrom p = some w ↔ S.alphabet.Least (S.AcceptsFrom p) w) ∧
      (∀ p, S.shortestWordFrom p = none ↔ ∀ w, ¬ S.AcceptsFrom p w) ∧
      (∀ w, S.shortestWord = some w ↔ S.alphabet.Least (fun v => S.accepts v = true) w) ∧
      (S.shortestWord = none ↔ ∀ w, S.accepts w = false) ∧
      (∀ w, S.emptiness = .nonempty w ↔ S.alphabet.Least (fun v => S.accepts v = true) w) ∧
      (S.emptiness = .empty ↔ ∀ w, S.accepts w = false) ∧
      (S.acceptsNothing = true ↔ ∀ w, S.accepts w = false) := by
  refine ⟨fun p w => shortestWordFrom_eq_some_iff, fun p => shortestWordFrom_eq_none_iff,
    fun w => shortestWord_eq_some_iff, shortestWord_eq_none_iff, fun w => ?_, ?_,
    acceptsNothing_iff⟩
  · rw [emptiness_eq_nonempty_iff, shortestWord_eq_some_iff]
  · rw [emptiness_eq_empty_iff, shortestWord_eq_none_iff]

end ShortestWitness.Machine
