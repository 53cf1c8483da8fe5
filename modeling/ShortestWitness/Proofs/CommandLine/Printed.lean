import Mathlib
import ShortestWitness.Proofs.CommandLine.Answer
import ShortestWitness.Proofs.Line.NormalForm

/-!
# What is printed can be read back

Words are printed as they are, so a word with a line feed in it would look like more than one line. No
such word is ever found: its symbols are read by moves, moves are fields of a line, and neither a line
feed nor a comma is part of a field, nor is a digit ever read as a symbol (`symbol_of_step`). What the
alphabet has besides makes no difference. So each line of what is printed is a line of its own, the
verdict is read back from them (`readEmptiness?`, `readComparison?`), and what is printed tells verdicts
apart (`answer_readable`).
-/

namespace ShortestWitness

open Line

namespace Line

variable {A : Alphabet} {line : List Char} {M : Automaton} {s t : String} {c : Char}

theorem HasMove.symbol_mem (h : HasMove line s c t) : c ∈ line := by
  obtain ⟨field, hfield, hmove⟩ := h
  obtain ⟨piece, hpiece, rfl⟩ := List.mem_map.1 (List.mem_filter.1 hfield).1
  have hc : c ∈ Text.trim piece := by simp [hmove.eq_append]
  exact Text.trim_subset line (Text.subset_of_mem_splitOn (List.mem_of_mem_tail hpiece)
    (Text.trim_subset piece hc))

/-- What a move of a decoded automaton can be on. -/
theorem symbol_of_step (hM : Decode.decode A line = .ok M) {p q : Nat} (h : M.step p c = some q) :
    c ∈ line ∧ c ≠ ',' ∧ c.isDigit = false := by
  obtain ⟨declared, -, hM⟩ := decode_eq_ok_iff.1 hM
  obtain ⟨s, t, -, -, hmove⟩ := (hM.step_iff p c q).1 h
  exact ⟨hmove.symbol_mem, hmove.symbol⟩

end Line

namespace CommandLine

/-! ## Verdicts about a file -/

/-- The verdict is the one about the only automaton in a file. -/
def Concludes (A : Alphabet) (content : String) (e : Emptiness) : Prop :=
  ∃ l M, dataTexts content.toList = [l] ∧ Decode.decode A l = .ok M ∧ M.machine.emptiness = e

/-- The verdict is the one about the only two automata in a file. -/
def ConcludesBoth (A : Alphabet) (content : String) (v : Comparison) : Prop :=
  ∃ l r L R, dataTexts content.toList = [l, r] ∧ Decode.decode A l = .ok L ∧
    Decode.decode A r = .ok R ∧ L.machine.compare R.machine = v

/-- The word can stand in a line of its own: it has no line feed, and neither commas nor digits. -/
def FitsLine (w : Word) : Prop := ∀ c ∈ w, c ≠ '\n' ∧ c ≠ ',' ∧ c.isDigit = false

variable {A B : Alphabet} {content other text : String} {e e' : Emptiness} {v v' : Comparison}
  {w : Word} {ls : List (List Char)}

/-- The answer is the text of what is concluded. -/
theorem answer_emptiness_iff_concludes : answer .emptiness A content = .ok text ↔
    ∃ e, Concludes A content e ∧ emptinessText e = text := by
  rw [answer_emptiness_eq_ok_iff]
  constructor
  · rintro ⟨l, M, hl, hM, htext⟩
    exact ⟨_, ⟨l, M, hl, hM, rfl⟩, htext⟩
  · rintro ⟨_, ⟨l, M, hl, hM, rfl⟩, htext⟩
    exact ⟨l, M, hl, hM, htext⟩

/-- The answer is the text of what is concluded of both. -/
theorem answer_equivalence_iff_concludesBoth : answer .equivalence A content = .ok text ↔
    ∃ v, ConcludesBoth A content v ∧ comparisonText v = text := by
  rw [answer_equivalence_eq_ok_iff]
  constructor
  · rintro ⟨l, r, L, R, hlr, hL, hR, htext⟩
    exact ⟨_, ⟨l, r, L, R, hlr, hL, hR, rfl⟩, htext⟩
  · rintro ⟨_, ⟨l, r, L, R, hlr, hL, hR, rfl⟩, htext⟩
    exact ⟨l, r, L, R, hlr, hL, hR, htext⟩

/-- Words that an automaton of the file reads fit in a line. -/
theorem fitsLine_of_run {l : List Char} {M : Automaton} {q : Nat} (hl : l ∈ dataTexts content.toList)
    (hM : Decode.decode A l = .ok M) (h : M.machine.run w = some q) : FitsLine w := by
  intro c hc
  obtain ⟨r, t, hstep⟩ := Machine.exists_step_of_runFrom h c hc
  obtain ⟨hmem, hsymbol⟩ := symbol_of_step hM hstep
  refine ⟨?_, hsymbol⟩
  rintro rfl
  obtain ⟨piece, hpiece, rfl⟩ := List.mem_map.1 (List.mem_filter.1 hl).1
  exact Text.not_mem_of_mem_splitOn hpiece (Text.trim_subset piece hmem)

theorem Concludes.fitsLine (h : Concludes A content (.nonempty w)) : FitsLine w := by
  obtain ⟨l, M, hl, hM, hw⟩ := h
  rw [Machine.emptiness_eq_nonempty_iff, Machine.shortestWord_eq_some_iff] at hw
  obtain ⟨q, hq, -⟩ := Automaton.accepts_machine_iff.1 hw.1
  exact fitsLine_of_run (hl ▸ List.mem_singleton_self l) hM hq

/-- A word that tells two automata apart fits a line. -/
theorem ConcludesBoth.fitsLine {side : Side} (h : ConcludesBoth A content (.different w side)) :
    FitsLine w := by
  obtain ⟨l, r, L, R, hlr, hL, -, hw⟩ := h
  obtain ⟨⟨p, q, hp, -, -⟩, -⟩ := (Machine.compare_eq_different_iff.1 hw).1
  exact fitsLine_of_run (hlr ▸ List.mem_cons_self) hL hp

/-! ## Reading what is printed -/

/-- The lines of a text that ends with a line feed, of which each ends with one. -/
def endedLines? (text : List Char) : Option (List (List Char)) :=
  let pieces := text.splitOn '\n'
  if pieces.getLast? = some [] then some pieces.dropLast else none

/-- The verdict that is printed for one automaton. -/
def readEmptiness? (text : String) : Option Emptiness :=
  match endedLines? text.toList with
  | some [first] => if first = "yes".toList then some .empty else none
  | some [first, w] => if first = "no".toList then some (.nonempty w) else none
  | _ => none

/-- The verdict that is printed for two automata. -/
def readComparison? (text : String) : Option Comparison :=
  match endedLines? text.toList with
  | some [first] => if first = "yes".toList then some .equivalent else none
  | some [first, w, last] =>
    if first ≠ "no".toList then none
    else if last = "accepted by: 1".toList then some (.different w .first)
    else if last = "accepted by: 2".toList then some (.different w .second)
    else none
  | _ => none

/-- Lines without line feeds are found again after each of them has been ended. -/
theorem endedLines?_flatMap (h : ∀ l ∈ ls, '\n' ∉ l) :
    endedLines? (ls.flatMap (· ++ ['\n'])) = some ls := by
  have hpieces : (ls.flatMap (· ++ ['\n'])).splitOn '\n' = ls ++ [[]] := by
    induction ls with
    | nil => rfl
    | cons l ls ih =>
      have hl := h l List.mem_cons_self
      rw [List.flatMap_cons, List.append_assoc, List.singleton_append,
        List.splitOn_append_cons_self_of_not_mem hl, ih fun m hm => h m (List.mem_cons_of_mem _ hm)]
      rfl
  rw [endedLines?, hpieces]
  simp

theorem newline_not_mem_of_fitsLine (h : FitsLine w) : '\n' ∉ w := fun hc => (h _ hc).1 rfl

theorem endedLines?_yes : endedLines? "yes\n".toList = some ["yes".toList] := by
  have hlines : "yes\n".toList = ["yes".toList].flatMap (· ++ ['\n']) := by decide
  rw [hlines, endedLines?_flatMap (by decide)]

theorem endedLines?_nonempty (h : FitsLine w) :
    endedLines? (emptinessText (.nonempty w)).toList = some ["no".toList, w] := by
  have hlines : (emptinessText (.nonempty w)).toList = ["no".toList, w].flatMap (· ++ ['\n']) := by
    simp [emptinessText, String.toList_append]
  rw [hlines, endedLines?_flatMap]
  simp [newline_not_mem_of_fitsLine h]

theorem endedLines?_different (h : FitsLine w) (side : Side) :
    endedLines? (comparisonText (.different w side)).toList =
      some ["no".toList, w, ("accepted by: " ++ display side.number).toList] := by
  have hlines : (comparisonText (.different w side)).toList =
      ["no".toList, w, ("accepted by: " ++ display side.number).toList].flatMap (· ++ ['\n']) := by
    simp [comparisonText, String.toList_append]
  have hside : '\n' ∉ (display side.number).toList := by
    cases side <;> decide
  rw [hlines, endedLines?_flatMap]
  simp [newline_not_mem_of_fitsLine h, hside]

/-- A verdict is read back if its word fits in a line. -/
theorem readEmptiness?_emptinessText (h : ∀ w, e = .nonempty w → FitsLine w) :
    readEmptiness? (emptinessText e) = some e := by
  cases e with
  | empty =>
    show readEmptiness? "yes\n" = _
    rw [readEmptiness?, endedLines?_yes]
    rfl
  | nonempty w =>
    rw [readEmptiness?, endedLines?_nonempty (h w rfl)]
    rfl

/-- The text of a comparison is read back if its word fits a line. -/
theorem readComparison?_comparisonText (h : ∀ w side, v = .different w side → FitsLine w) :
    readComparison? (comparisonText v) = some v := by
  cases v with
  | equivalent =>
    show readComparison? "yes\n" = _
    rw [readComparison?, endedLines?_yes]
    rfl
  | different w side =>
    rw [readComparison?, endedLines?_different (h w side rfl)]
    cases side <;> rfl

theorem Concludes.readEmptiness? (h : Concludes A content e) :
    readEmptiness? (emptinessText e) = some e :=
  readEmptiness?_emptinessText fun _ hw => (hw ▸ h).fitsLine

theorem ConcludesBoth.readComparison? (h : ConcludesBoth A content v) :
    readComparison? (comparisonText v) = some v :=
  readComparison?_comparisonText fun _ _ hw => (hw ▸ h).fitsLine

/-- Verdicts are told apart by what is printed for them. -/
theorem Concludes.text_eq_iff (h : Concludes A content e) (h' : Concludes B other e') :
    emptinessText e' = emptinessText e ↔ e' = e := by
  refine ⟨fun heq => ?_, congrArg emptinessText⟩
  have hread := h'.readEmptiness?
  rw [heq, h.readEmptiness?] at hread
  exact (Option.some.inj hread).symm

/-- Different conclusions have different texts. -/
theorem ConcludesBoth.text_eq_iff (h : ConcludesBoth A content v) (h' : ConcludesBoth B other v') :
    comparisonText v' = comparisonText v ↔ v' = v := by
  refine ⟨fun heq => ?_, congrArg comparisonText⟩
  have hread := h'.readComparison?
  rw [heq, h.readComparison?] at hread
  exact (Option.some.inj hread).symm

/-- Whatever the alphabet is, what is printed is `yes` or `no`, in a line of its own, and after `no` a
word in a line of its own that has no line feed, comma or digit, and for two automata a line with the
number of one of them. So the verdict is read back, and two files have the same answer just if they have
the same verdict. -/
theorem answer_readable (A : Alphabet) (content text : String) :
    (answer .emptiness A content = .ok text →
      (∃ e, Concludes A content e ∧ readEmptiness? text = some e ∧
        (e = .empty ∧ text = "yes\n" ∧ endedLines? text.toList = some ["yes".toList] ∨
          ∃ w, e = .nonempty w ∧ FitsLine w ∧ text = "no\n" ++ String.ofList w ++ "\n" ∧
            endedLines? text.toList = some ["no".toList, w])) ∧
      ∀ B other text' e e', answer .emptiness B other = .ok text' → Concludes A content e →
        Concludes B other e' → (text' = text ↔ e' = e)) ∧
    (answer .equivalence A content = .ok text →
      (∃ v, ConcludesBoth A content v ∧ readComparison? text = some v ∧
        (v = .equivalent ∧ text = "yes\n" ∧ endedLines? text.toList = some ["yes".toList] ∨
          ∃ w side, v = .different w side ∧ FitsLine w ∧
            text = "no\n" ++ String.ofList w ++ "\naccepted by: " ++ display side.number ++ "\n" ∧
            endedLines? text.toList =
              some ["no".toList, w, ("accepted by: " ++ display side.number).toList])) ∧
      ∀ B other text' v v', answer .equivalence B other = .ok text' → ConcludesBoth A content v →
        ConcludesBoth B other v' → (text' = text ↔ v' = v)) := by
  refine ⟨fun hanswer => ⟨?_, ?_⟩, fun hanswer => ⟨?_, ?_⟩⟩
  · obtain ⟨e, he, rfl⟩ := answer_emptiness_iff_concludes.1 hanswer
    refine ⟨e, he, he.readEmptiness?, ?_⟩
    cases e with
    | empty => exact .inl ⟨rfl, rfl, endedLines?_yes⟩
    | nonempty w => exact .inr ⟨w, rfl, he.fitsLine, rfl, endedLines?_nonempty he.fitsLine⟩
  · intro B other text' e e' hanswer' he he'
    have htext := Except.ok.inj (hanswer.symm.trans (answer_emptiness_iff_concludes.2 ⟨e, he, rfl⟩))
    have htext' :=
      Except.ok.inj (hanswer'.symm.trans (answer_emptiness_iff_concludes.2 ⟨e', he', rfl⟩))
    rw [htext, htext', he.text_eq_iff he']
  · obtain ⟨v, hv, rfl⟩ := answer_equivalence_iff_concludesBoth.1 hanswer
    refine ⟨v, hv, hv.readComparison?, ?_⟩
    cases v with
    | equivalent => exact .inl ⟨rfl, rfl, endedLines?_yes⟩
    | different w side =>
      exact .inr ⟨w, side, rfl, hv.fitsLine, rfl, endedLines?_different hv.fitsLine side⟩
  · intro B other text' v v' hanswer' hv hv'
    have htext :=
      Except.ok.inj (hanswer.symm.trans (answer_equivalence_iff_concludesBoth.2 ⟨v, hv, rfl⟩))
    have htext' :=
      Except.ok.inj (hanswer'.symm.trans (answer_equivalence_iff_concludesBoth.2 ⟨v', hv', rfl⟩))
    rw [htext, htext', hv.text_eq_iff hv']

/-- An alphabet that has what ends lines and fields. -/
def separators : Alphabet := .ofList ['\n', ',', '1', '\r']

/-- The only move is on a carriage return, and it leads to the accepting state. -/
def onReturn : String := "q0q1f,q0\rq1"

/-- The same move leads to an accepting state in the first automaton only. -/
def onReturnTwice : String := "q0q1f,q0\rq1\nq0q1,q0\rq1"

/-- The word that is found is a carriage return, and this is what is read back. No other verdict has the
same answer. -/
theorem answer_readable_onReturn :
    answer .emptiness separators onReturn = .ok "no\n\r\n" ∧
      (∃ e, Concludes separators onReturn e ∧ readEmptiness? "no\n\r\n" = some e ∧
        e = .nonempty ['\r']) ∧
      answer .equivalence separators onReturnTwice = .ok "no\n\r\naccepted by: 1\n" ∧
      ConcludesBoth separators onReturnTwice (.different ['\r'] .first) ∧ FitsLine ['\r'] ∧
      ∀ v, ConcludesBoth separators onReturnTwice v → v = .different ['\r'] .first := by
  have hanswer : answer .emptiness separators onReturn = .ok "no\n\r\n" := by cbv
  have hread : readEmptiness? "no\n\r\n" = some (.nonempty ['\r']) := by cbv
  have hanswers : answer .equivalence separators onReturnTwice =
      .ok "no\n\r\naccepted by: 1\n" := by
    cbv
  have hreads : readComparison? "no\n\r\naccepted by: 1\n" = some (.different ['\r'] .first) := by
    cbv
  obtain ⟨⟨e, he, hreadE, -⟩, -⟩ := (answer_readable separators onReturn _).1 hanswer
  obtain ⟨⟨v, hv, hreadV, hlines⟩, hsame⟩ := (answer_readable separators onReturnTwice _).2 hanswers
  have heq := Option.some.inj (hreadE.symm.trans hread)
  obtain rfl := Option.some.inj (hreadV.symm.trans hreads)
  rcases hlines with ⟨hv', -, -⟩ | ⟨w, side, hv', hfits, -, -⟩
  · cases hv'
  · cases hv'
    exact ⟨hanswer, ⟨e, he, hreadE, heq⟩, hanswers, hv, hfits,
      fun v' hv'' => (hsame _ _ _ _ _ hanswers hv hv'').1 rfl⟩

end CommandLine

end ShortestWitness
