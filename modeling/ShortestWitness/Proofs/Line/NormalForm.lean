import ShortestWitness.Proofs.Line.RoundTrip
import ShortestWitness.Proofs.Line.Runs

/-!
# Decoded lines have a normal form

An automaton that was decoded has tokens for names, and none of its moves is on a comma or on a digit,
even if the alphabet has them: a comma would have ended the field, and a digit would have been read as a
part of the token before it (`HasMove.symbol`). So its own line is valid, and since its initial state
stands at the front already, the line is read back as the automaton itself (`decode_encode`). Blanks,
empty fields, repetitions and the order of fields are gone from this line, so lines are decoded to one
automaton just if they have one normal form (`ofLine_line_normal`).
-/

namespace ShortestWitness.Line

open Automaton

variable {A : Alphabet} {line : List Char} {declared : List Declaration} {M N : Automaton}
  {s t : String} {c : Char}

theorem comma_not_mem_of_mem_moveFields {field : List Char} (h : field ∈ moveFields line) :
    ',' ∉ field := by
  obtain ⟨piece, hpiece, rfl⟩ := List.mem_map.1 (List.mem_filter.1 h).1
  exact fun hc => Text.not_mem_of_mem_splitOn (List.mem_of_mem_tail hpiece)
    (Text.trim_subset piece hc)

/-- What a field can be a move on. -/
theorem HasMove.symbol (h : HasMove line s c t) : c ≠ ',' ∧ c.isDigit = false := by
  obtain ⟨field, hfield, hmove⟩ := h
  refine ⟨?_, hmove.greedy⟩
  rintro rfl
  apply comma_not_mem_of_mem_moveFields hfield
  simp [hmove.eq_append]

/-- The line of a decoded automaton is read back as this automaton. -/
theorem decode_encode (h : Decode.decode A line = .ok M) : Decode.decode A M.encode = .ok M := by
  obtain ⟨declared, hvalid, hM⟩ := decode_eq_ok_iff.1 h
  obtain rfl := hM.alphabet
  have hnames : ∀ p name, M.name? p = some name → IsToken name := fun p name =>
    isToken_of_name? hvalid hM
  have hsymbols : ∀ e ∈ M.edges, e.symbol ≠ ',' ∧ e.symbol.isDigit = false :=
    forall_mem_edges_iff.2 fun p c q hstep => by
      obtain ⟨s, t, -, -, hmove⟩ := (hM.step_iff p c q).1 hstep
      exact hmove.symbol
  obtain ⟨N, hN⟩ := exists_decode_iff.2 ⟨_, valid_encode hnames hsymbols⟩
  have hfirst := initialFirst_of_decode hnames hN
  rwa [hfirst.eq_of_initial_eq_zero hM.initial] at hN

/-- The rendering of what is decoded is decoded to the same. -/
theorem ofLine_line {line : String} (h : ofLine A line = .ok M) : ofLine A M.line = .ok M := by
  unfold ofLine Automaton.line
  rw [String.toList_ofList]
  exact decode_encode h

/-- The line of a decoded automaton is decoded to the same automaton, whose line it is, and lines are
decoded to the same automaton just if the lines of their automata are the same text. -/
theorem ofLine_line_normal (A : Alphabet) (line : String) (M : Automaton)
    (h : ofLine A line = .ok M) :
    (∃ N, ofLine A M.line = .ok N ∧ N = M ∧ N.line = M.line) ∧
      ∀ other N, ofLine A other = .ok N → (M = N ↔ M.line = N.line) := by
  refine ⟨⟨M, ofLine_line h, rfl, rfl⟩, fun other N hN => ⟨fun heq => heq ▸ rfl, fun heq => ?_⟩⟩
  have hM := ofLine_line h
  rw [heq, ofLine_line hN] at hM
  exact (Except.ok.inj hM).symm

/-- An alphabet of characters that mean something in a line, a comma and a digit among them. -/
def delimiters : Alphabet := .ofList [',', 'q', ' ', '1', 'f']

/-- Fields come in another order, twice, empty and with blanks around them. A blank inside is a symbol. -/
def disorderly : String := " q07fq1,, q1 q07,q07qq1 ,q07fq07, q1 q07"

/-- The line and its normal form are decoded to one automaton. -/
theorem ofLine_line_normal_disorderly :
    ∃ M N, ofLine delimiters disorderly = .ok M ∧
      ofLine delimiters "q07fq1,q07qq1,q07fq07,q1 q07" = .ok N ∧ M = N ∧
      M.line = "q07fq1,q07qq1,q07fq07,q1 q07" ∧ ofLine delimiters M.line = .ok M := by
  have hline : (ofLine delimiters disorderly).map Automaton.line =
      .ok "q07fq1,q07qq1,q07fq07,q1 q07" := by
    cbv
  have hnormal : (ofLine delimiters "q07fq1,q07qq1,q07fq07,q1 q07").map Automaton.line =
      .ok "q07fq1,q07qq1,q07fq07,q1 q07" := by
    cbv
  obtain ⟨M, hM, hline⟩ := map_eq_ok_iff.1 hline
  obtain ⟨N, hN, hnormal⟩ := map_eq_ok_iff.1 hnormal
  obtain ⟨⟨M', hM', rfl, -⟩, hsame⟩ := ofLine_line_normal delimiters disorderly M hM
  exact ⟨_, N, hM, hN, (hsame _ N hN).2 (hline.trans hnormal.symm), hline, hM'⟩

end ShortestWitness.Line
