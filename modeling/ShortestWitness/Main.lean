import ShortestWitness.CommandLine.Answer

/-!
# The program

Reads the file that the arguments name, prints the answer, and ends with the number of the outcome.
-/

namespace ShortestWitness.CommandLine

/-- The reason behind a failure to read a file. The error number may come negated. -/
def readErrorOf : IO.Error → ReadError
  | .noFileOrDirectory .. => .missing
  | .inappropriateType _ number details =>
    if number = 20 ∨ number = -20 then .notFolder
    else if number = 21 ∨ number = -21 then .isFolder
    else .other details
  | e => .other (toString e)

/-- Reads a file as text. -/
def readText (path : String) : IO (Except ReadError String) := do
  match ← (IO.FS.readBinFile path).toBaseIO with
  | .ok bytes => return decodeText bytes
  | .error e => return .error (readErrorOf e)

/-- What the arguments come to, with files read where the program runs. -/
def outcomeOf (args : List String) : IO Outcome := do
  match Arguments.parse args with
  | none => return .rejected
  | some request => return request.outcome (← readText request.path)

end ShortestWitness.CommandLine

open ShortestWitness.CommandLine in
def main (args : List String) : IO UInt32 := do
  let outcome ← outcomeOf args
  match outcome with
  | .answered text => IO.print text
  | .failed problem => IO.eprintln problem.report
  | .rejected => IO.eprintln "these arguments make no request"
  return outcome.exitCode.toUInt32
