import Mathlib
import ShortestWitness.Proofs.CommandLine.Answer
import ShortestWitness.Proofs.Text.Rows

/-!
# Comments, blank lines and line endings

Rows that are blank or comments can be added to a file anywhere, and rows can end otherwise: the rows
that hold data stay the same, only their numbers grow by the number of rows added before them
(`dataRows_insertRows`). So the answer is the same, or the same line is reported under its new number
(`answer_insertRows`). What is reported is read from the rows as well: first their number is checked,
and if it is right, the first row that is no automaton is reported (`Fails`).
-/

namespace ShortestWitness

open Text (Row IsFile written isBlank)

variable {A : Alphabet}

/-- Blank characters around a line make no difference. -/
theorem Line.decode_trim (line : List Char) :
    Decode.decode A (Text.trim line) = Decode.decode A line := by
  unfold Decode.decode Decode.read
  rw [(Text.isTrimmed_trim line).trim_eq]

namespace CommandLine

/-! ## Rows that hold data -/

/-- The row is blank, or `#` is the first character of it that is not. -/
def isPadding (r : Row) : Bool :=
  r.text.all isBlank || r.text.find? (fun c => !isBlank c) == some '#'

/-- The rows that hold data, trimmed and numbered from `n` on. -/
def dataRows (n : Nat) (rows : List Row) : List NumberedLine :=
  (((rows.map fun r => Text.trim r.text).zipIdx n).map fun l => ⟨l.2, l.1⟩).filter
    NumberedLine.isData

variable {content other : String} {rows kept : List Row} {r : Row} {n : Nat} {p : Problem}

/-- Trimming does not change whether a row holds data. -/
theorem isData_trim (n : Nat) (r : Row) :
    (⟨n, Text.trim r.text⟩ : NumberedLine).isData = !isPadding r := by
  have hhead : (Text.trim r.text).head? = r.text.find? fun c => !isBlank c := by
    rw [Text.head?_trim, List.find?_eq_head?_dropWhile_not]
    simp
  have hnil : Text.trim r.text = [] ↔ r.text.all isBlank = true := by
    rw [Text.trim_eq_nil_iff, List.all_eq_true]
  rw [NumberedLine.isData, isPadding, hhead, Bool.eq_iff_iff]
  simp [hnil]

theorem dataRows_nil (n : Nat) : dataRows n [] = [] := rfl

theorem dataRows_cons_of_isPadding (h : isPadding r = true) :
    dataRows n (r :: rows) = dataRows (n + 1) rows := by
  simp [dataRows, List.zipIdx_cons, isData_trim, h]

theorem dataRows_cons (h : isPadding r = false) :
    dataRows n (r :: rows) = ⟨n, Text.trim r.text⟩ :: dataRows (n + 1) rows := by
  simp [dataRows, List.zipIdx_cons, isData_trim, h]

theorem length_dataRows : (dataRows n rows).length = rows.countP fun r => !isPadding r := by
  induction rows generalizing n with
  | nil => rfl
  | cons r rows ih =>
    cases h : isPadding r with
    | true => simp [dataRows_cons_of_isPadding h, ih, h]
    | false => simp [dataRows_cons h, ih, h]

/-- Only texts matter. -/
theorem dataRows_congr (h : kept.map Row.text = rows.map Row.text) :
    dataRows n kept = dataRows n rows := by
  have htrim : ∀ rows : List Row,
      (rows.map fun r => Text.trim r.text) = (rows.map Row.text).map Text.trim := by
    intro rows
    rw [List.map_map]
    rfl
  rw [dataRows, dataRows, htrim, htrim, h]

/-- The lines of a file that hold data are its rows that do. -/
theorem dataLines_written (h : IsFile rows) : dataLines (written rows) = dataRows 1 rows := by
  rw [dataRows, ← Text.map_trim_lines_written h, List.zipIdx_map, List.map_map]
  rfl

/-! ## Rows that are added -/

/-- The rows with `added m` before the first one, `added (m + 1)` before the next one and so on. After
the last one stand those that would stand before one more. -/
def insertRows (added : Nat → List Row) (m : Nat) : List Row → List Row
  | [] => added m
  | r :: rows => added m ++ r :: insertRows added (m + 1) rows

/-- The number that the row with the number `k` gets when rows are added. -/
def newNumber (added : Nat → List Row) (k : Nat) : Nat :=
  k + ∑ i ∈ Finset.range k, (added i).length

def NumberedLine.renumber (f : Nat → Nat) (l : NumberedLine) : NumberedLine := ⟨f l.number, l.text⟩

/-- The problem with other numbers for lines. Other problems stay as they are. -/
def Problem.renumber (f : Nat → Nat) : Problem → Problem
  | .badLine number cause => .badLine (f number) cause
  | .count expected found => .count expected found
  | .unreadable path cause => .unreadable path cause

theorem dataRows_append_of_isPadding {before : List Row} (h : ∀ r ∈ before, isPadding r = true)
    (n : Nat) (rows : List Row) :
    dataRows n (before ++ rows) = dataRows (n + before.length) rows := by
  induction before generalizing n with
  | nil => rfl
  | cons r before ih =>
    rw [List.forall_mem_cons] at h
    rw [List.cons_append, dataRows_cons_of_isPadding h.1, ih h.2, List.length_cons]
    congr 1
    omega

/-- Added rows hold no data, and the other ones get new numbers. -/
theorem dataRows_insertRows {added : Nat → List Row} (h : ∀ k, ∀ r ∈ added k, isPadding r = true)
    (m : Nat) (rows : List Row) :
    dataRows (newNumber added m + 1) (insertRows added m rows) =
      (dataRows (m + 1) rows).map (NumberedLine.renumber (newNumber added)) := by
  -- the number after `m` rows and all that was added before them, once `added m` has come as well
  have hnext : ∀ m, newNumber added m + 1 + (added m).length = newNumber added (m + 1) := by
    intro m
    rw [newNumber, newNumber, Finset.sum_range_succ]
    omega
  induction rows generalizing m with
  | nil =>
    have hnone := dataRows_append_of_isPadding (h m) (newNumber added m + 1) []
    rwa [List.append_nil] at hnone
  | cons r rows ih =>
    rw [insertRows, dataRows_append_of_isPadding (h m), hnext]
    cases hdata : isPadding r with
    | true => rw [dataRows_cons_of_isPadding hdata, dataRows_cons_of_isPadding hdata, ih]
    | false =>
      rw [dataRows_cons hdata, dataRows_cons hdata, ih]
      rfl

/-! ## Answers about other numbers -/

/-- The number of a line comes up only in what is reported about it. -/
theorem automaton_renumber (f : Nat → Nat) (l : NumberedLine) :
    (l.renumber f).automaton A = (l.automaton A).mapError (Problem.renumber f) := by
  rw [NumberedLine.automaton, NumberedLine.automaton, NumberedLine.renumber]
  cases Decode.decode A l.text with
  | error cause => rfl
  | ok M => rfl

/-- The answer depends on numbers only in what it reports. -/
theorem answer_renumber (command : Command) {f : Nat → Nat}
    (h : dataLines other.toList = (dataLines content.toList).map (NumberedLine.renumber f)) :
    answer command A other = (answer command A content).mapError (Problem.renumber f) := by
  unfold answer
  rw [h]
  cases command with
  | emptiness =>
    match dataLines content.toList with
    | [] => rfl
    | [l] =>
      show (l.renumber f).automaton A >>= _ = _
      rw [automaton_renumber]
      exact mapError_bind _ _ fun M => rfl
    | _ :: _ :: _ => simp [Except.mapError, Problem.renumber]
  | equivalence =>
    match dataLines content.toList with
    | [] => rfl
    | [_] => rfl
    | [l, r] =>
      show (l.renumber f).automaton A >>= _ = _
      rw [automaton_renumber, automaton_renumber]
      exact mapError_bind _ _ fun L => mapError_bind _ _ fun R => rfl
    | _ :: _ :: _ :: _ => simp [Except.mapError, Problem.renumber]

/-! ## What is reported -/

/-- How many automata a command is about. -/
def Command.expected : Command → Nat
  | .emptiness => 1
  | .equivalence => 2

/-- What is reported about the rows of a file: that the number of rows with data is wrong, or else the first
of these rows that is no automaton. -/
inductive Fails (command : Command) (A : Alphabet) (rows : List Row) : Problem → Prop where
  | count (hcount : (rows.countP fun r => !isPadding r) ≠ command.expected) :
      Fails command A rows (.count command.expected (rows.countP fun r => !isPadding r))
  | badLine (before : List Row) (r : Row) (after : List Row) (cause : DecodeError)
      (hrows : rows = before ++ r :: after)
      (hcount : (rows.countP fun r => !isPadding r) = command.expected)
      (hbefore : ∀ b ∈ before, isPadding b = true ∨ ∃ M, Decode.decode A b.text = .ok M)
      (hdata : isPadding r = false) (hdecode : Decode.decode A r.text = .error cause) :
      Fails command A rows (.badLine (before.length + 1) cause)

/-- The number is checked first, and then one line after the other is decoded. -/
theorem answer_eq_error_iff {command : Command} {ls : List NumberedLine}
    (h : dataLines content.toList = ls) : answer command A content = .error p ↔
      ls.length ≠ command.expected ∧ p = .count command.expected ls.length ∨
        ls.length = command.expected ∧ ls.mapM (NumberedLine.automaton A) = .error p := by
  unfold answer
  rw [h]
  cases command with
  | emptiness =>
    match ls with
    | [] => simp [Command.expected, eq_comm]
    | [l] =>
      show (l.automaton A >>= fun M => .ok (emptinessText M.machine.emptiness)) = _ ↔ _
      rw [bind_eq_error_iff, mapM_cons_eq_error_iff, mapM_nil_eq_error_iff]
      simp [Command.expected]
    | _ :: _ :: _ => simp [Command.expected, eq_comm]
  | equivalence =>
    match ls with
    | [] => simp [Command.expected, eq_comm]
    | [_] => simp [Command.expected, eq_comm]
    | [l, r] =>
      show (l.automaton A >>= fun L => r.automaton A >>= fun R =>
        .ok (comparisonText (L.machine.compare R.machine))) = _ ↔ _
      rw [bind_eq_error_iff, mapM_cons_eq_error_iff, mapM_cons_eq_error_iff, mapM_nil_eq_error_iff]
      simp [Command.expected, bind_eq_error_iff]
    | _ :: _ :: _ :: _ => simp [Command.expected, eq_comm]

theorem automaton_eq_error_iff {l : NumberedLine} : l.automaton A = .error p ↔
    ∃ cause, Decode.decode A l.text = .error cause ∧ p = .badLine l.number cause := by
  unfold NumberedLine.automaton
  exact mapError_eq_error_iff

/-- The first row that holds data and is no automaton is reported. -/
theorem mapM_dataRows_eq_error_iff :
    (dataRows n rows).mapM (NumberedLine.automaton A) = .error p ↔
      ∃ before r after, rows = before ++ r :: after ∧
        (∀ b ∈ before, isPadding b = true ∨ ∃ M, Decode.decode A b.text = .ok M) ∧
        isPadding r = false ∧
        ∃ cause, Decode.decode A r.text = .error cause ∧ p = .badLine (n + before.length) cause := by
  induction rows generalizing n with
  | nil =>
    rw [dataRows_nil, mapM_nil_eq_error_iff]
    simp
  | cons r rows ih =>
    have hnumber : ∀ before : List Row, n + 1 + before.length = n + (r :: before).length := by
      intro before
      rw [List.length_cons]
      omega
    rw [exists_cons_eq_append_iff]
    simp only [List.forall_mem_cons, ← hnumber]
    cases hpadding : isPadding r with
    | true =>
      -- such a row cannot be the one that is reported, it only moves the others on
      rw [dataRows_cons_of_isPadding hpadding, ih]
      simp
    | false =>
      rw [dataRows_cons hpadding, mapM_cons_eq_error_iff, automaton_eq_error_iff, ih]
      simp only [automaton_eq_ok_iff, Line.decode_trim]
      refine or_congr (by simp) ?_
      constructor
      · rintro ⟨hdecodes, before, r', after, hrows, hbefore, hreport⟩
        exact ⟨before, r', after, hrows, ⟨.inr hdecodes, hbefore⟩, hreport⟩
      · rintro ⟨before, r', after, hrows, ⟨hdecodes, hbefore⟩, hreport⟩
        exact ⟨hdecodes.resolve_left (by simp), before, r', after, hrows, hbefore, hreport⟩

/-- What is reported about a file is said of its rows. -/
theorem answer_eq_error_iff_fails {command : Command} (h : IsFile rows)
    (hwritten : written rows = content.toList) :
    answer command A content = .error p ↔ Fails command A rows p := by
  rw [answer_eq_error_iff (hwritten ▸ dataLines_written h), length_dataRows,
    mapM_dataRows_eq_error_iff]
  constructor
  · rintro (⟨hcount, rfl⟩ | ⟨hcount, before, r, after, hrows, hbefore, hdata, cause, hdecode, rfl⟩)
    · exact .count hcount
    · rw [Nat.add_comm]
      exact .badLine before r after cause hrows hcount hbefore hdata hdecode
  · intro hfails
    cases hfails with
    | count hcount => exact .inl ⟨hcount, rfl⟩
    | badLine before r after cause hrows hcount hbefore hdata hdecode =>
      exact .inr ⟨hcount, before, r, after, hrows, hbefore, hdata, cause, hdecode,
        by rw [Nat.add_comm]⟩

/-- A file is rows, one for each of its lines. If its rows end otherwise and blank rows and comments are
added, what was printed is still printed, a wrong number of automata is still reported as it was, and a
line that is no automaton is reported with the same cause and as many lines further on as rows were
added before it. What is reported is a wrong number of rows that hold data, and if it is right, the
first of them that is no automaton. -/
theorem answer_insertRows (command : Command) (A : Alphabet) (content : String) :
    (∃ rows, IsFile rows ∧ written rows = content.toList ∧
      rows.map Row.text = Text.lines content.toList) ∧
    ∀ rows, IsFile rows → written rows = content.toList →
      (∀ kept added, kept.map Row.text = rows.map Row.text →
        (∀ k, ∀ r ∈ added k, isPadding r = true) → IsFile (insertRows added 0 kept) →
        answer command A (String.ofList (written (insertRows added 0 kept))) =
          (answer command A content).mapError (Problem.renumber (newNumber added))) ∧
      ∀ p, answer command A content = .error p ↔ Fails command A rows p := by
  refine ⟨Text.exists_rows content.toList, fun rows hrows hwritten => ⟨?_, ?_⟩⟩
  · intro kept added htexts hadded hfile
    refine answer_renumber command ?_
    have hinserted := dataRows_insertRows hadded 0 kept
    have hzero : newNumber added 0 = 0 := rfl
    rw [hzero, dataRows_congr htexts] at hinserted
    rw [String.toList_ofList, dataLines_written hfile, hinserted, ← hwritten,
      dataLines_written hrows]
  · exact fun p => answer_eq_error_iff_fails hrows hwritten

/-- Two rows that hold data, of which the second one is no automaton. -/
def dataOnly : List Row := [⟨"q0f,q0aq0".toList, .feed⟩, ⟨"q0,q0aq1".toList, .missing⟩]

/-- The same rows with other endings. -/
def endedOtherwise : List Row := [⟨"q0f,q0aq0".toList, .returnFeed⟩, ⟨"q0,q0aq1".toList, .feed⟩]

/-- A comment, then a blank row and a comment, and a blank row at the end. -/
def remarks : Nat → List Row
  | 0 => [⟨"# two automata".toList, .returnFeed⟩]
  | 1 => [⟨" \t".toList, .feed⟩, ⟨"  # the second".toList, .feed⟩]
  | 2 => [⟨" ".toList, .missing⟩]
  | _ => []

/-- The second line is reported at first, and when three rows have been added before it, the fifth. -/
theorem answer_insertRows_remarks :
    IsFile dataOnly ∧ written dataOnly = "q0f,q0aq0\nq0,q0aq1".toList ∧
      written (insertRows remarks 0 endedOtherwise) =
        "# two automata\r\nq0f,q0aq0\r\n \t\n  # the second\nq0,q0aq1\n ".toList ∧
      Fails .equivalence .standard dataOnly (.badLine 2 (.undeclaredState "q0aq1" "q1")) ∧
      answer .equivalence .standard
        "# two automata\r\nq0f,q0aq0\r\n \t\n  # the second\nq0,q0aq1\n " =
          .error (.badLine 5 (.undeclaredState "q0aq1" "q1")) := by
  have hfile : IsFile dataOnly := .ended (by simp) (by simp) (.unended (by simp) (by simp))
  have hpadded : IsFile (insertRows remarks 0 endedOtherwise) :=
    .ended (by simp) (by simp) (.ended (by simp) (by simp) (.ended (by simp) (by simp)
      (.ended (by simp) (by simp) (.ended (by simp) (by simp) (.unended (by simp) (by simp))))))
  have hremarks : ∀ k, ∀ r ∈ remarks k, isPadding r = true := by
    intro k
    match k with
    | 0 => simp [remarks]; decide
    | 1 => simp [remarks]; decide
    | 2 => simp [remarks]; decide
    | _ + 3 => simp [remarks]
  have hwritten : written dataOnly = "q0f,q0aq0\nq0,q0aq1".toList := by decide
  have hpaddedText : written (insertRows remarks 0 endedOtherwise) =
      "# two automata\r\nq0f,q0aq0\r\n \t\n  # the second\nq0,q0aq1\n ".toList := by
    decide
  have hanswer : answer .equivalence .standard "q0f,q0aq0\nq0,q0aq1" =
      .error (.badLine 2 (.undeclaredState "q0aq1" "q1")) := by
    cbv
  have h := (answer_insertRows .equivalence .standard "q0f,q0aq0\nq0,q0aq1").2 dataOnly hfile hwritten
  have hmoved := h.1 endedOtherwise remarks rfl hremarks hpadded
  rw [hpaddedText, String.ofList_toList, hanswer] at hmoved
  exact ⟨hfile, hwritten, hpaddedText, (h.2 _).1 hanswer, hmoved⟩

end CommandLine
end ShortestWitness
