import ShortestWitness.CommandLine.Arguments
import ShortestWitness.CommandLine.Folder
import ShortestWitness.Decision.Comparison
import ShortestWitness.Decision.Emptiness
import ShortestWitness.Line.Decode
import ShortestWitness.Text.Lines

/-!
# Answering requests

A file holds one automaton a line; blank lines and lines that start with `#` are skipped, but
counted. The answer starts with `yes` if the automaton accepts nothing or the two automata are
equivalent. Otherwise it starts with `no`, a shortest word that shows it follows on a line of its
own, and for two automata the number of the one that accepts the word.
-/

namespace ShortestWitness.CommandLine

/-- Why there is no answer: the file cannot be read, the number of automata is wrong, or a line, counted
from one, does not describe an automaton. -/
inductive Problem where
  | unreadable (path : String) (cause : ReadError)
  | count (expected found : Nat)
  | badLine (number : Nat) (cause : DecodeError)
deriving DecidableEq, Repr

def Problem.message : Problem → String
  | .unreadable path cause => "could not read " ++ path ++ ": " ++ cause.message
  | .count expected found =>
    "expected " ++ display expected ++ " automata but the input contains " ++ display found
  | .badLine number cause => "line " ++ display number ++ ": " ++ cause.message

/-- A line of a file without the blank characters around it, and its number, counted from one. -/
structure NumberedLine where
  number : Nat
  text : List Char
deriving DecidableEq, Repr

/-- The line is neither blank nor a comment. -/
def NumberedLine.isData (l : NumberedLine) : Bool := l.text ≠ [] && l.text.head? ≠ some '#'

/-- The lines that should describe automata. -/
def dataLines (content : List Char) : List NumberedLine :=
  ((Text.lines content).zipIdx 1 |>.map fun l => ⟨l.2, Text.trim l.1⟩).filter NumberedLine.isData

/-- The automaton that a line describes. -/
def NumberedLine.automaton (A : Alphabet) (l : NumberedLine) : Except Problem Automaton :=
  (Decode.decode A l.text).mapError (.badLine l.number)

def emptinessText : Emptiness → String
  | .empty => "yes\n"
  | .nonempty w => "no\n" ++ String.ofList w ++ "\n"

def comparisonText : Comparison → String
  | .equivalent => "yes\n"
  | .different w side =>
    "no\n" ++ String.ofList w ++ "\naccepted by: " ++ display side.number ++ "\n"

/-- Decides about the automata in a file. Their number is checked before they are. -/
def answer (command : Command) (A : Alphabet) (content : String) : Except Problem String :=
  match command, dataLines content.toList with
  | .emptiness, [l] => do
    let M ← l.automaton A
    return emptinessText M.machine.emptiness
  | .emptiness, ls => .error (.count 1 ls.length)
  | .equivalence, [l, r] => do
    let L ← l.automaton A
    let R ← r.automaton A
    return comparisonText (L.machine.compare R.machine)
  | .equivalence, ls => .error (.count 2 ls.length)

/-- How a run of the program ends: the arguments make no request, there is no answer, or there is one. -/
inductive Outcome where
  | rejected
  | failed (problem : Problem)
  | answered (text : String)
deriving DecidableEq, Repr

/-- The number with which a run ends. -/
def Outcome.exitCode : Outcome → Nat
  | .answered _ => 0
  | .failed _ => 1
  | .rejected => 2

def Problem.report (p : Problem) : String := "error: " ++ p.message

/-- The outcome of a request, given what reading its file gave. -/
def Request.outcome (r : Request) (content : Except ReadError String) : Outcome :=
  match content.mapError (Problem.unreadable r.path) >>=
      answer r.command (.ofList r.alphabet.toList) with
  | .ok text => .answered text
  | .error problem => .failed problem

/-- Runs the program on its arguments in a folder of files. -/
def run (folder : Folder) (args : List String) : Outcome :=
  match Arguments.parse args with
  | none => .rejected
  | some request => request.outcome (folder.read request.path)

end ShortestWitness.CommandLine
