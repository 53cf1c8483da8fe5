import ShortestWitness.Proofs.CommandLine.Answer
import ShortestWitness.Proofs.Decision.Agreement

/-!
# Larger alphabets

An alphabet says which symbols may occur in a line and in which order searches try them. A line with
symbols that are all in one alphabet is valid over every alphabet that has these symbols, and describes
the same states and moves there (`Describes.sameParts`): there are more symbols, but no moves on them. So
the same words are read and accepted, and verdicts and the lengths of words are the same; if the symbols
keep their order, the words are the same too, and so is what is printed (`answer_of_subset`).
-/

namespace ShortestWitness

/-- Nothing about words depends on symbols without moves. -/
theorem Automaton.SameParts.sameWords {M N : Automaton} (h : M.SameParts N) :
    M.machine.SameWords N.machine := by
  refine .of_step (f := id) h.initial (fun p c => ?_) h.color_machine
  rw [Option.map_id]
  exact h.step p c

variable {A B : Alphabet} {l r line : List Char} {declared : List Declaration} {L R M : Automaton}

namespace Line

/-- A line that is valid stays so if there are more symbols. -/
theorem Valid.mono (h : Valid A line declared) (hAB : ∀ c ∈ A, c ∈ B) : Valid B line declared := by
  refine ⟨h.declares, h.ne_nil, h.nodup, fun field hfield => ?_, h.consistent⟩
  obtain ⟨s, c, t, hmove, hc, hs, ht⟩ := h.moves field hfield
  exact ⟨s, c, t, hmove, hAB c hc, hs, ht⟩

/-- With more symbols a line is decoded to an automaton with the same parts. -/
theorem exists_decode_of_subset (hAB : ∀ c ∈ A, c ∈ B) (hM : Decode.decode A line = .ok M) :
    ∃ N, Decode.decode B line = .ok N ∧ M.SameParts N ∧ M.alphabet = A ∧ N.alphabet = B := by
  obtain ⟨declared, hvalid, hM⟩ := decode_eq_ok_iff.1 hM
  obtain ⟨N, hdecode, hN⟩ := (hvalid.mono hAB).exists_decode
  exact ⟨N, hdecode, hM.sameParts hN, hM.alphabet, hN.alphabet⟩

end Line

namespace CommandLine

open Line

/-- One automaton gives the same verdict, and the same word if the symbols keep their order. -/
theorem exists_emptiness_of_subset (hAB : ∀ c ∈ A, c ∈ B) (hM : Decode.decode A line = .ok M) :
    ∃ N, Decode.decode B line = .ok N ∧ M.SameParts N ∧
      (∀ w, N.machine.accepts w = M.machine.accepts w) ∧
      N.machine.emptiness.isEmpty = M.machine.emptiness.isEmpty ∧
      N.machine.emptiness.witness?.map List.length = M.machine.emptiness.witness?.map List.length ∧
      (A.SameOrder B → N.machine.emptiness = M.machine.emptiness) := by
  obtain ⟨N, hN, hparts, rfl, rfl⟩ := exists_decode_of_subset hAB hM
  have hwords := hparts.sameWords
  exact ⟨N, hN, hparts, hwords.accepts, hwords.isEmpty_eq, hwords.length_witness?_emptiness,
    hwords.emptiness_eq⟩

/-- Two automata give the same verdict, and the same word and side if the symbols keep their order. -/
theorem exists_compare_of_subset (hAB : ∀ c ∈ A, c ∈ B) (hL : Decode.decode A l = .ok L)
    (hR : Decode.decode A r = .ok R) :
    ∃ L' R', Decode.decode B l = .ok L' ∧ Decode.decode B r = .ok R' ∧
      (L'.machine.compare R'.machine).isEquivalent = (L.machine.compare R.machine).isEquivalent ∧
      (L'.machine.compare R'.machine).witness?.map List.length =
        (L.machine.compare R.machine).witness?.map List.length ∧
      (A.SameOrder B → L'.machine.compare R'.machine = L.machine.compare R.machine) := by
  obtain ⟨R', hR', hpartsR, -, -⟩ := exists_decode_of_subset hAB hR
  obtain ⟨L', hL', hpartsL, rfl, rfl⟩ := exists_decode_of_subset hAB hL
  have hl := hpartsL.sameWords
  have hr := hpartsR.sameWords
  exact ⟨L', R', hL', hR', hl.isEquivalent_compare hr, hl.length_witness?_compare hr,
    hl.compare_eq hr⟩

/-- What is printed for an alphabet is printed for a larger one that keeps the order. -/
theorem answer_of_sameOrder (hAB : ∀ c ∈ A, c ∈ B) (horder : A.SameOrder B) {command : Command}
    {content text : String} (h : answer command A content = .ok text) :
    answer command B content = .ok text := by
  cases command with
  | emptiness =>
    obtain ⟨l, M, htexts, hM, rfl⟩ := answer_emptiness_eq_ok_iff.1 h
    obtain ⟨N, hN, -, -, -, -, heq⟩ := exists_emptiness_of_subset hAB hM
    exact answer_emptiness_eq_ok_iff.2 ⟨l, N, htexts, hN, congrArg emptinessText (heq horder)⟩
  | equivalence =>
    obtain ⟨l, r, L, R, htexts, hL, hR, rfl⟩ := answer_equivalence_eq_ok_iff.1 h
    obtain ⟨L', R', hL', hR', -, -, heq⟩ := exists_compare_of_subset hAB hL hR
    exact answer_equivalence_eq_ok_iff.2
      ⟨l, r, L', R', htexts, hL', hR', congrArg comparisonText (heq horder)⟩

/-- A larger alphabet takes nothing away: what is decoded has the same parts and accepts the same words,
and all verdicts and lengths of words are the same. If the symbols keep their order, the words and sides
are the same, and the same text is printed. -/
theorem answer_of_subset (A B : Alphabet) (hAB : ∀ c ∈ A, c ∈ B) :
    (∀ line M, Automaton.ofLine A line = .ok M → ∃ N, Automaton.ofLine B line = .ok N ∧
        M.SameParts N ∧ (∀ w, N.machine.accepts w = M.machine.accepts w) ∧
        N.machine.emptiness.isEmpty = M.machine.emptiness.isEmpty ∧
        N.machine.emptiness.witness?.map List.length =
          M.machine.emptiness.witness?.map List.length ∧
        (A.SameOrder B → N.machine.emptiness = M.machine.emptiness)) ∧
      (∀ l r L R, Automaton.ofLine A l = .ok L → Automaton.ofLine A r = .ok R →
        ∃ L' R', Automaton.ofLine B l = .ok L' ∧ Automaton.ofLine B r = .ok R' ∧
          (L'.machine.compare R'.machine).isEquivalent = (L.machine.compare R.machine).isEquivalent ∧
          (L'.machine.compare R'.machine).witness?.map List.length =
            (L.machine.compare R.machine).witness?.map List.length ∧
          (A.SameOrder B → L'.machine.compare R'.machine = L.machine.compare R.machine)) ∧
      (A.SameOrder B → ∀ command content text, answer command A content = .ok text →
        answer command B content = .ok text) :=
  ⟨fun _ _ => exists_emptiness_of_subset hAB, fun _ _ _ _ => exists_compare_of_subset hAB,
    fun horder _ _ _ => answer_of_sameOrder hAB horder⟩

/-- The symbols `a` and `b` the other way round, with a digit between them. -/
def reversed : Alphabet := .ofList ['b', '1', 'a']

/-- The symbols `a` and `b` in their order, among others. -/
def scattered : Alphabet := .ofList ['x', 'a', '1', 'b', ',']

/-- Automata that accept the words with one symbol and the words with two, in this order. -/
def oneOrTwo : String := "q0q1f,q0aq1,q0bq1\nq0q1q2f,q0aq1,q0bq1,q1aq2,q1bq2"

/-- If the symbols keep their order, the same text is printed. Otherwise only the length of the word is
the same. -/
theorem answer_of_subset_oneOrTwo :
    (∀ c ∈ Alphabet.standard, c ∈ scattered) ∧ Alphabet.standard.SameOrder scattered ∧
      answer .equivalence .standard oneOrTwo = .ok "no\na\naccepted by: 1\n" ∧
      answer .equivalence scattered oneOrTwo = .ok "no\na\naccepted by: 1\n" ∧
      (∀ c ∈ Alphabet.standard, c ∈ reversed) ∧
      ∃ M N, Automaton.ofLine .standard "q0q1f,q0aq1,q0bq1" = .ok M ∧
        Automaton.ofLine reversed "q0q1f,q0aq1,q0bq1" = .ok N ∧ M.SameParts N ∧
        M.machine.emptiness = .nonempty ['a'] ∧ N.machine.emptiness = .nonempty ['b'] ∧
        N.machine.emptiness.witness?.map List.length =
          M.machine.emptiness.witness?.map List.length := by
  have hscattered : ∀ c ∈ Alphabet.standard, c ∈ scattered := by
    simp [Alphabet.mem_def, Alphabet.standard, scattered, Alphabet.ofList, Alphabet.mem_distinct]
  have hreversed : ∀ c ∈ Alphabet.standard, c ∈ reversed := by
    simp [Alphabet.mem_def, Alphabet.standard, reversed, Alphabet.ofList, Alphabet.mem_distinct]
  have horder : Alphabet.standard.SameOrder scattered := by decide
  have hanswer : answer .equivalence .standard oneOrTwo = .ok "no\na\naccepted by: 1\n" := by
    cbv
  have hfirst : (Automaton.ofLine .standard "q0q1f,q0aq1,q0bq1").map (·.machine.emptiness) =
      .ok (.nonempty ['a']) := by
    cbv
  have hother : (Automaton.ofLine reversed "q0q1f,q0aq1,q0bq1").map (·.machine.emptiness) =
      .ok (.nonempty ['b']) := by
    cbv
  obtain ⟨-, -, hprinted⟩ := answer_of_subset .standard scattered hscattered
  obtain ⟨M, hM, hfirst⟩ := map_eq_ok_iff.1 hfirst
  obtain ⟨N, hN, hparts, -, -, hlength, -⟩ := (answer_of_subset .standard reversed hreversed).1 _ M hM
  obtain ⟨N', hN', hother⟩ := map_eq_ok_iff.1 hother
  obtain rfl := Except.ok.inj (hN.symm.trans hN')
  exact ⟨hscattered, horder, hanswer, hprinted horder _ _ _ hanswer, hreversed, M, N, hM, hN, hparts,
    hfirst, hother, hlength⟩

end CommandLine

end ShortestWitness
