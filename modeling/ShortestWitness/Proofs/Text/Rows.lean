import Mathlib.Data.List.Basic
import ShortestWitness.Proofs.Text.Trim

/-!
# Rows of a file

A file seen as rows, where a row has a text and the way it ends. Every text is written by rows, whose
texts are its lines (`exists_rows`), but the same lines can also be written with other endings. The
endings are blank, so they make no difference once lines are trimmed (`map_trim_lines_written`).
-/

namespace ShortestWitness.Text

/-- How a row ends: with a line feed, with a carriage return and a line feed, or with the file. -/
inductive Ending where
  | feed
  | returnFeed
  | missing
deriving DecidableEq, Repr

def Ending.chars : Ending → List Char
  | .feed => ['\n']
  | .returnFeed => ['\r', '\n']
  | .missing => []

/-- A row of a file. -/
structure Row where
  text : List Char
  ending : Ending
deriving DecidableEq, Repr

def Row.chars (r : Row) : List Char := r.text ++ r.ending.chars

/-- What is written for rows one after the other. -/
def written (rows : List Row) : List Char := rows.flatMap Row.chars

/-- The rows make up a file: there is no line feed in them except at their ends, and only the last one
can end with the file, if there is something in it. -/
inductive IsFile : List Row → Prop where
  | empty : IsFile []
  | unended {text : List Char} (hne : text ≠ []) (hfeed : '\n' ∉ text) : IsFile [⟨text, .missing⟩]
  | ended {r : Row} {rows : List Row} (hfeed : '\n' ∉ r.text) (hending : r.ending ≠ .missing)
      (hrows : IsFile rows) : IsFile (r :: rows)

variable {u rest text : List Char} {r : Row} {rows : List Row}

theorem written_cons (r : Row) (rows : List Row) : written (r :: rows) = r.chars ++ written rows :=
  List.flatMap_cons

/-! ## Lines -/

/-- The first line ends with the first line feed. -/
theorem lines_append_cons (h : '\n' ∉ u) (rest : List Char) :
    lines (u ++ '\n' :: rest) = dropReturn u :: lines rest := by
  obtain ⟨piece, pieces, hpieces⟩ := List.exists_cons_of_ne_nil (List.splitOn_ne_nil '\n' rest)
  rw [lines, lines, List.splitOn_append_cons_self_of_not_mem h, hpieces]
  rfl

/-- Without a line feed there is one line, or none if there is nothing. -/
theorem lines_of_not_mem (h : '\n' ∉ u) : lines u = [u].filter (· ≠ []) := by
  rw [lines, List.splitOn_eq_singleton h]
  rfl

/-- What ends a row is a line feed after a text that is trimmed to the same as its text. -/
theorem Row.exists_chars_eq (hfeed : '\n' ∉ r.text) (hending : r.ending ≠ .missing) :
    ∃ u, r.chars = u ++ ['\n'] ∧ '\n' ∉ u ∧ trim u = trim r.text := by
  obtain ⟨text, ending⟩ := r
  cases ending with
  | feed => exact ⟨text, rfl, hfeed, rfl⟩
  | returnFeed =>
    refine ⟨text ++ ['\r'], ?_, ?_, trim_append_singleton text (by decide)⟩
    · simp [Row.chars, Ending.chars]
    · simpa using hfeed
  | missing => exact absurd rfl hending

/-- The lines that are read, and the rows that were written, are the same once trimmed. -/
theorem map_trim_lines_written (h : IsFile rows) :
    (lines (written rows)).map trim = rows.map fun r => trim r.text := by
  induction h with
  | empty => rfl
  | @unended text hne hfeed =>
    have hwritten : written [⟨text, .missing⟩] = text := by simp [written, Row.chars, Ending.chars]
    rw [hwritten, lines_of_not_mem hfeed]
    simp [hne]
  | ended hfeed hending _ ih =>
    obtain ⟨u, hchars, hu, htrim⟩ := Row.exists_chars_eq hfeed hending
    rw [written_cons, hchars, List.append_assoc, List.singleton_append, lines_append_cons hu,
      List.map_cons, List.map_cons, ih, trim_dropReturn, htrim]

/-! ## Every text is a file -/

/-- The row for what stands before a line feed. A carriage return at its end is a part of the ending. -/
def Row.ofPiece (piece : List Char) : Row :=
  ⟨dropReturn piece, if piece.getLast? = some '\r' then .returnFeed else .feed⟩

theorem Row.chars_ofPiece (u : List Char) : (Row.ofPiece u).chars = u ++ ['\n'] := by
  rw [Row.chars, Row.ofPiece, dropReturn]
  split <;> rename_i h
  · obtain ⟨v, rfl⟩ := List.getLast?_eq_some_iff.1 h
    simp [Ending.chars]
  · rfl

theorem Row.ending_ofPiece (u : List Char) : (Row.ofPiece u).ending ≠ .missing := by
  unfold Row.ofPiece
  split <;> simp

theorem dropReturn_subset (u : List Char) : dropReturn u ⊆ u := by
  unfold dropReturn
  split
  · exact List.dropLast_subset u
  · exact List.Subset.refl u

/-- Every text is written by rows, one for each of its lines. -/
theorem exists_rows (text : List Char) :
    ∃ rows, IsFile rows ∧ written rows = text ∧ rows.map Row.text = lines text := by
  induction hn : text.length using Nat.strong_induction_on generalizing text with
  | _ n ih =>
    by_cases hfeed : '\n' ∈ text
    · obtain ⟨u, rest, rfl, hu⟩ := List.eq_append_cons_of_mem hfeed
      obtain ⟨rows, hrows, hwritten, htexts⟩ := ih rest.length (by simp at hn; omega) rest rfl
      refine ⟨.ofPiece u :: rows, .ended (fun h => hu (dropReturn_subset u h))
        (Row.ending_ofPiece u) hrows, ?_, ?_⟩
      · rw [written_cons, Row.chars_ofPiece, hwritten, List.append_assoc, List.singleton_append]
      · rw [lines_append_cons hu, List.map_cons, htexts]
        rfl
    · rw [lines_of_not_mem hfeed]
      by_cases hne : text = []
      · subst hne
        exact ⟨[], .empty, rfl, rfl⟩
      · refine ⟨[⟨text, .missing⟩], .unended hne hfeed, ?_, ?_⟩
        · simp [written, Row.chars, Ending.chars]
        · simp [hne]

end ShortestWitness.Text
