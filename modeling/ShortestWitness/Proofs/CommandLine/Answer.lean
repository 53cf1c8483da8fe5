import Mathlib
import ShortestWitness.CommandLine.Answer
import ShortestWitness.Proofs.Decision.Comparison
import ShortestWitness.Proofs.Line.Runs

/-!
# Answers are about the text

The program trims lines, decodes them, searches machines and prints what it found. All of this can be
said of the text alone: the texts that count are what is left between line feeds (`dataTexts`), and
what is printed depends on the words on which these texts have runs and which they accept
(`answer_exact`).
-/

namespace ShortestWitness.CommandLine

open Line

variable {A : Alphabet} {content answerText : String} {l r : List Char} {w : Word} {L R M : Automaton}
  {declared declared' : List Declaration}

/-! ## The texts that count -/

/-- The text is neither empty nor a comment. -/
def isData (text : List Char) : Bool := text ≠ [] && text.head? ≠ some '#'

/-- The texts between line feeds that hold data, without the blank characters around them. -/
def dataTexts (content : List Char) : List (List Char) :=
  ((content.splitOn '\n').map Text.trim).filter isData

theorem map_text_dataLines (content : List Char) :
    (dataLines content).map NumberedLine.text = dataTexts content := by
  have hnumbered : (((Text.lines content).zipIdx 1).map fun l : List Char × Nat =>
      (⟨l.2, Text.trim l.1⟩ : NumberedLine)).map NumberedLine.text =
        (Text.lines content).map Text.trim := by
    have hfst := congrArg (List.map Text.trim) (List.zipIdx_map_fst 1 (Text.lines content))
    rwa [List.map_map] at hfst ⊢
  have hdata : NumberedLine.isData = isData ∘ NumberedLine.text := rfl
  rw [dataLines, hdata, ← List.filter_map, hnumbered]
  exact Text.filter_map_trim_lines rfl content

theorem automaton_eq_ok_iff {l : NumberedLine} :
    l.automaton A = .ok M ↔ Decode.decode A l.text = .ok M := by
  unfold NumberedLine.automaton
  exact mapError_eq_ok_iff

/-! ## What is answered -/

/-- One text is needed, and it must be decoded. -/
theorem answer_emptiness_eq_ok_iff : answer .emptiness A content = .ok answerText ↔
    ∃ l M, dataTexts content.toList = [l] ∧ Decode.decode A l = .ok M ∧
      emptinessText M.machine.emptiness = answerText := by
  unfold answer
  rw [← map_text_dataLines]
  match dataLines content.toList with
  | [] => simp
  | [l] =>
    show (l.automaton A >>= fun M => .ok (emptinessText M.machine.emptiness)) = _ ↔ _
    rw [bind_eq_ok_iff]
    constructor
    · rintro ⟨M, hM, h⟩
      exact ⟨l.text, M, rfl, automaton_eq_ok_iff.1 hM, Except.ok.inj h⟩
    · rintro ⟨_, M, ⟨⟩, hM, rfl⟩
      exact ⟨M, automaton_eq_ok_iff.2 hM, rfl⟩
  | _ :: _ :: _ => simp

/-- Two texts are needed, and both must be decoded. -/
theorem answer_equivalence_eq_ok_iff : answer .equivalence A content = .ok answerText ↔
    ∃ l r L R, dataTexts content.toList = [l, r] ∧ Decode.decode A l = .ok L ∧
      Decode.decode A r = .ok R ∧ comparisonText (L.machine.compare R.machine) = answerText := by
  unfold answer
  rw [← map_text_dataLines]
  match dataLines content.toList with
  | [] => simp
  | [_] => simp
  | [l, r] =>
    show (l.automaton A >>= fun L => r.automaton A >>= fun R =>
      .ok (comparisonText (L.machine.compare R.machine))) = _ ↔ _
    rw [bind_eq_ok_iff]
    constructor
    · rintro ⟨L, hL, h⟩
      obtain ⟨R, hR, h⟩ := bind_eq_ok_iff.1 h
      exact ⟨l.text, r.text, L, R, rfl, automaton_eq_ok_iff.1 hL, automaton_eq_ok_iff.1 hR,
        Except.ok.inj h⟩
    · rintro ⟨_, _, L, R, ⟨⟩, hL, hR, rfl⟩
      exact ⟨L, automaton_eq_ok_iff.2 hL, bind_eq_ok_iff.2 ⟨R, automaton_eq_ok_iff.2 hR, rfl⟩⟩
  | _ :: _ :: _ :: _ => simp

/-! ## What is printed -/

/-- Only the answer that nothing is accepted is written `yes`. -/
theorem emptinessText_eq_yes_iff {e : Emptiness} : emptinessText e = "yes\n" ↔ e = .empty := by
  cases e with
  | empty => exact iff_of_true rfl rfl
  | nonempty v =>
    refine iff_of_false (fun h => ?_) (by simp)
    have htext := congrArg String.toList h
    simp [emptinessText] at htext

/-- The word is found again in what is printed. -/
theorem emptinessText_eq_no_iff {e : Emptiness} :
    emptinessText e = "no\n" ++ String.ofList w ++ "\n" ↔ e = .nonempty w := by
  cases e with
  | empty =>
    refine iff_of_false (fun h => ?_) (by simp)
    have htext := congrArg String.toList h
    simp [emptinessText] at htext
  | nonempty v =>
    constructor
    · intro h
      have htext := congrArg String.toList h
      simp only [emptinessText, String.toList_append, String.toList_ofList] at htext
      rw [List.append_cancel_left (List.append_cancel_right htext)]
    · rintro ⟨⟩
      rfl

/-- Only the answer that the machines are equivalent is written `yes`. -/
theorem comparisonText_eq_yes_iff {e : Comparison} :
    comparisonText e = "yes\n" ↔ e = .equivalent := by
  cases e with
  | equivalent => exact iff_of_true rfl rfl
  | different v side =>
    refine iff_of_false (fun h => ?_) (by simp)
    have htext := congrArg String.toList h
    simp [comparisonText] at htext

theorem comparisonText_first (w : Word) : comparisonText (.different w .first) =
    "no\n" ++ String.ofList w ++ "\naccepted by: 1\n" := by
  have hnumber : "\naccepted by: " ++ display Side.first.number ++ "\n" = "\naccepted by: 1\n" := by
    decide
  rw [← hnumber]
  simp only [comparisonText, String.append_assoc]

theorem comparisonText_second (w : Word) : comparisonText (.different w .second) =
    "no\n" ++ String.ofList w ++ "\naccepted by: 2\n" := by
  have hnumber : "\naccepted by: " ++ display Side.second.number ++ "\n" = "\naccepted by: 2\n" := by
    decide
  rw [← hnumber]
  simp only [comparisonText, String.append_assoc]

/-! ## Verdicts on texts -/

section Verdicts

variable (hl : Valid A l declared) (hL : Describes A l declared L) (hr : Valid A r declared')
  (hR : Describes A r declared' R)

include hl hL

theorem emptiness_eq_empty_iff_text : L.machine.emptiness = .empty ↔ ∀ w, ¬ Accepts l w := by
  rw [Machine.emptiness_eq_empty_iff, Machine.shortestWord_eq_none_iff]
  simp only [accepts_iff hl hL, Bool.not_eq_true]

/-- The witness is the first word that is accepted by the text. -/
theorem emptiness_eq_nonempty_iff_text :
    L.machine.emptiness = .nonempty w ↔ A.Least (Accepts l) w := by
  have halphabet : L.machine.alphabet = A := hL.alphabet
  rw [Machine.emptiness_eq_nonempty_iff, Machine.shortestWord_eq_some_iff, halphabet]
  exact Alphabet.Least.congr fun v => (accepts_iff hl hL).symm

include hr hR

theorem liveDisagreement_iff_text : L.machine.LiveDisagreement R.machine w ↔ Disagree l r w := by
  rw [Machine.liveDisagreement_iff, Disagree, exists_hasRun_iff hl hL, exists_hasRun_iff hr hR,
    accepts_iff hl hL, accepts_iff hr hR]
  exact and_congr_right fun _ => and_congr_right fun _ => not_congr Bool.eq_iff_iff

/-- The automata are equivalent just if the texts do not disagree. -/
theorem compare_eq_equivalent_iff_text :
    L.machine.compare R.machine = .equivalent ↔ ∀ w, ¬ Disagree l r w := by
  simp only [Machine.compare_eq_equivalent_iff, liveDisagreement_iff_text hl hL hr hR]

/-- If the texts disagree, the first word on which they do is reported with the one that accepts. -/
theorem exists_compare_eq_different (h : ∃ w, Disagree l r w) : ∃ w, A.Least (Disagree l r) w ∧
    (Accepts l w ∧ ¬ Accepts r w ∧ L.machine.compare R.machine = .different w .first ∨
      ¬ Accepts l w ∧ Accepts r w ∧ L.machine.compare R.machine = .different w .second) := by
  cases hverdict : L.machine.compare R.machine with
  | equivalent =>
    obtain ⟨w, hw⟩ := h
    exact absurd hw ((compare_eq_equivalent_iff_text hl hL hr hR).1 hverdict w)
  | different w side =>
    obtain ⟨hleast, hside⟩ := Machine.compare_eq_different_iff.1 hverdict
    have halphabet : L.machine.alphabet = A := hL.alphabet
    rw [halphabet, Alphabet.Least.congr fun _ => liveDisagreement_iff_text hl hL hr hR] at hleast
    refine ⟨w, hleast, ?_⟩
    rw [accepts_iff hl hL, accepts_iff hr hR, Bool.not_eq_true, Bool.not_eq_true]
    cases side with
    | first =>
      obtain ⟨haccepts, hrejects⟩ := Machine.soleAcceptor?_eq_first_iff.1 hside
      exact .inl ⟨haccepts, hrejects, rfl⟩
    | second =>
      obtain ⟨hrejects, haccepts⟩ := Machine.soleAcceptor?_eq_second_iff.1 hside
      exact .inr ⟨hrejects, haccepts, rfl⟩

end Verdicts

/-! ## Answers on texts -/

/-- An answer that stands for one verdict is given if this is the verdict on the only text. -/
theorem answer_emptiness_iff {P : List Char → Prop} {e : Emptiness}
    (htext : ∀ {e'}, emptinessText e' = answerText ↔ e' = e)
    (hverdict : ∀ {l declared M}, Valid A l declared → Describes A l declared M →
      (M.machine.emptiness = e ↔ P l)) :
    answer .emptiness A content = .ok answerText ↔
      ∃ l, dataTexts content.toList = [l] ∧ IsValid A l ∧ P l := by
  rw [answer_emptiness_eq_ok_iff]
  constructor
  · rintro ⟨l, M, hl, hdecode, he⟩
    obtain ⟨declared, hvalid, hM⟩ := decode_eq_ok_iff.1 hdecode
    exact ⟨l, hl, ⟨declared, hvalid⟩, (hverdict hvalid hM).1 (htext.1 he)⟩
  · rintro ⟨l, hl, ⟨declared, hvalid⟩, hP⟩
    obtain ⟨M, hdecode, hM⟩ := hvalid.exists_decode
    exact ⟨l, M, hl, hdecode, htext.2 ((hverdict hvalid hM).2 hP)⟩

/-- What is printed is the truth about the texts in the file: whether its only text accepts a word
and which one is the first, or whether its two texts disagree on a word, which one is the first and
which text accepts it. -/
theorem answer_exact (A : Alphabet) (content : String) :
    (answer .emptiness A content = .ok "yes\n" ↔
        ∃ l, dataTexts content.toList = [l] ∧ IsValid A l ∧ ∀ w, ¬ Accepts l w) ∧
      (∀ w : Word, answer .emptiness A content = .ok ("no\n" ++ String.ofList w ++ "\n") ↔
        ∃ l, dataTexts content.toList = [l] ∧ IsValid A l ∧ A.Least (Accepts l) w) ∧
      ∀ l r, dataTexts content.toList = [l, r] → IsValid A l → IsValid A r →
        (answer .equivalence A content = .ok "yes\n" ↔
            ∀ w, (∃ t, HasRun l w t) → (∃ t, HasRun r w t) → (Accepts l w ↔ Accepts r w)) ∧
          ((∃ w, Disagree l r w) → ∃ w, A.Least (Disagree l r) w ∧
            (Accepts l w ∧ ¬ Accepts r w ∧ answer .equivalence A content =
                .ok ("no\n" ++ String.ofList w ++ "\naccepted by: 1\n") ∨
              ¬ Accepts l w ∧ Accepts r w ∧ answer .equivalence A content =
                .ok ("no\n" ++ String.ofList w ++ "\naccepted by: 2\n"))) := by
  refine ⟨answer_emptiness_iff emptinessText_eq_yes_iff emptiness_eq_empty_iff_text,
    fun w => answer_emptiness_iff emptinessText_eq_no_iff emptiness_eq_nonempty_iff_text, ?_⟩
  rintro l r htexts ⟨declared, hl⟩ ⟨declared', hr⟩
  obtain ⟨L, hdecodeL, hL⟩ := hl.exists_decode
  obtain ⟨R, hdecodeR, hR⟩ := hr.exists_decode
  have hanswer : answer .equivalence A content =
      .ok (comparisonText (L.machine.compare R.machine)) :=
    answer_equivalence_eq_ok_iff.2 ⟨l, r, L, R, htexts, hdecodeL, hdecodeR, rfl⟩
  rw [hanswer]
  constructor
  · rw [Except.ok.injEq, comparisonText_eq_yes_iff, compare_eq_equivalent_iff_text hl hL hr hR]
    simp only [Disagree, not_and, not_not]
  · intro h
    obtain ⟨w, hleast, hfirst | hsecond⟩ := exists_compare_eq_different hl hL hr hR h
    · obtain ⟨haccepts, hrejects, hverdict⟩ := hfirst
      rw [hverdict, comparisonText_first]
      exact ⟨w, hleast, .inl ⟨haccepts, hrejects, rfl⟩⟩
    · obtain ⟨hrejects, haccepts, hverdict⟩ := hsecond
      rw [hverdict, comparisonText_second]
      exact ⟨w, hleast, .inr ⟨hrejects, haccepts, rfl⟩⟩

/-- A file with a comment, a blank line and two automata. The second one also reads `b` after `a`. -/
def oneAndMore : String := "# one and more\n\n q0q1f, q0aq1 \r\nq0q1f,q0aq1,q1bq1"

/-- The first text has no run on `ab`, so that the second text accepts it does not count. -/
theorem answer_oneAndMore :
    dataTexts oneAndMore.toList = ["q0q1f, q0aq1".toList, "q0q1f,q0aq1,q1bq1".toList] ∧
      IsValid .standard "q0q1f, q0aq1".toList ∧ IsValid .standard "q0q1f,q0aq1,q1bq1".toList ∧
      answer .equivalence .standard oneAndMore = .ok "yes\n" ∧
      ∀ w, (∃ t, HasRun "q0q1f, q0aq1".toList w t) → (∃ t, HasRun "q0q1f,q0aq1,q1bq1".toList w t) →
        (Accepts "q0q1f, q0aq1".toList w ↔ Accepts "q0q1f,q0aq1,q1bq1".toList w) := by
  have htexts : dataTexts oneAndMore.toList =
      ["q0q1f, q0aq1".toList, "q0q1f,q0aq1,q1bq1".toList] := by
    decide
  have hl : IsValid .standard "q0q1f, q0aq1".toList := isValid_iff_isOk.2 (by cbv)
  have hr : IsValid .standard "q0q1f,q0aq1,q1bq1".toList := isValid_iff_isOk.2 (by cbv)
  have hyes : answer .equivalence .standard oneAndMore = .ok "yes\n" := by
    cbv
  have h := (answer_exact .standard oneAndMore).2.2 _ _ htexts hl hr
  exact ⟨htexts, hl, hr, hyes, h.1.1 hyes⟩

end ShortestWitness.CommandLine
