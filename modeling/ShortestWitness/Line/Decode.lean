import ShortestWitness.Automaton.Draft
import ShortestWitness.Text.Blank

/-!
# Reading an automaton from one line

A line is split at commas, and blank characters around the line and around a field mean nothing.
The first field declares the states one after the other, each by a token, which is the letter `q`
and digits, and an `f` if the state is accepting. Every other field that is not empty is a move:
a token, a symbol of the alphabet and a token. Digits are read greedily, so no move is read on a
digit. The first declared state is the initial state.
-/

namespace ShortestWitness

/-- What keeps a line from describing an automaton. The states are malformed from where the first field does
not go on with a token. -/
inductive DecodeError where
  | blankLine
  | malformedStates (rest : String)
  | duplicateState (name : String)
  | malformedMove (field : String)
  | undeclaredState (field name : String)
  | unknownSymbol (field : String) (symbol : Char)
  | inconsistent (cause : DraftError)
deriving DecidableEq, Repr

def DecodeError.message : DecodeError → String
  | .blankLine => "empty automaton description"
  | .malformedStates rest => "malformed state section at `" ++ rest ++ "`"
  | .duplicateState name => "state `" ++ name ++ "` is declared more than once"
  | .malformedMove field => "malformed transition `" ++ field ++ "`"
  | .undeclaredState field name =>
    "transition `" ++ field ++ "` refers to undeclared state `" ++ name ++ "`"
  | .unknownSymbol field c =>
    "transition `" ++ field ++ "` uses symbol `" ++ display c ++ "` which is not in the alphabet"
  | .inconsistent cause => cause.message

/-- A state as the first field declares it: by a token, with an `f` after it if the state is accepting. -/
structure Declaration where
  name : String
  accepting : Bool
deriving DecidableEq, Repr

namespace Decode

/-- Splits off the token at the start of a text: the letter `q` and all digits after it, of which
there is at least one. -/
def token? : List Char → Option (String × List Char)
  | 'q' :: cs =>
    match cs.takeWhile Char.isDigit with
    | [] => none
    | ds => some (String.ofList ('q' :: ds), cs.dropWhile Char.isDigit)
  | _ => none

theorem length_dropWhile_le (P : Char → Bool) (cs : List Char) :
    (cs.dropWhile P).length ≤ cs.length :=
  (List.dropWhile_suffix P).length_le

/-- A token takes at least one character. -/
theorem length_lt_of_token? {cs rest : List Char} {name : String}
    (h : token? cs = some (name, rest)) : rest.length < cs.length := by
  unfold token? at h
  split at h
  · split at h
    · cases h
    · cases h
      exact Nat.lt_succ_of_le (length_dropWhile_le _ _)
  · cases h

/-- Whether a text starts with an `f`, and what follows it. -/
def finalMark : List Char → Bool × List Char
  | 'f' :: cs => (true, cs)
  | cs => (false, cs)

theorem length_finalMark_le (cs : List Char) : (finalMark cs).2.length ≤ cs.length := by
  unfold finalMark; split <;> simp

/-- The declarations at the start of a text, and what is left after the last one. -/
def declarations (cs : List Char) : List Declaration × List Char :=
  match _h : token? cs with
  | none => ([], cs)
  | some (name, rest) =>
    let mark := finalMark rest
    let others := declarations mark.2
    (⟨name, mark.1⟩ :: others.1, others.2)
termination_by cs.length
decreasing_by exact Nat.lt_of_le_of_lt (length_finalMark_le _) (length_lt_of_token? _h)

/-- Reads the first field: tokens to its end, at least one and no two alike. -/
def states (field : List Char) : Except DecodeError (List Declaration) :=
  let (declared, rest) := declarations field
  match firstRepeat? (declared.map Declaration.name) with
  | some name => .error (.duplicateState name)
  | none =>
    if declared = [] ∨ rest ≠ [] then .error (.malformedStates (String.ofList rest))
    else .ok declared

def number (declared : List Declaration) (field : List Char) (name : String) :
    Except DecodeError Nat :=
  match declared.findIdx? (·.name = name) with
  | some p => .ok p
  | none => .error (.undeclaredState (String.ofList field) name)

/-- Reads a move from left to right. -/
def move (A : Alphabet) (declared : List Declaration) (field : List Char) :
    Except DecodeError Edge :=
  let malformed := DecodeError.malformedMove (String.ofList field)
  match token? field with
  | none => .error malformed
  | some (source, rest) => do
    let p ← number declared field source
    match rest with
    | [] => .error malformed
    | c :: rest =>
      if c ∉ A then .error (.unknownSymbol (String.ofList field) c)
      else
        match token? rest with
        | some (target, []) => do
          let q ← number declared field target
          return ⟨p, c, q⟩
        | _ => .error malformed

/-- The draft of the declared states and the moves. -/
def draft (A : Alphabet) (declared : List Declaration) (edges : List Edge) : Draft :=
  (declared.foldl (fun d s => d.addState s.name s.accepting) (Draft.empty A)).addEdges edges

/-- The fields of a line that is not blank, without the blank characters around them. -/
def fields (line : List Char) : List (List Char) := (line.splitOn ',').map Text.trim

/-- Reads the draft of an automaton from a line. -/
def read (A : Alphabet) (line : List Char) : Except DecodeError Draft :=
  let line := Text.trim line
  if line = [] then .error .blankLine
  else do
    let fields := fields line
    let declared ← states (fields.headD [])
    let edges ← (fields.tail.filter (· ≠ [])).mapM (move A declared)
    return draft A declared edges

/-- Reads an automaton from a line. -/
def decode (A : Alphabet) (line : List Char) : Except DecodeError Automaton := do
  let d ← read A line
  (d.build 0).mapError .inconsistent

end Decode

/-- The automaton that a line describes over an alphabet. -/
def Automaton.ofLine (A : Alphabet) (line : String) : Except DecodeError Automaton :=
  Decode.decode A line.toList

end ShortestWitness
