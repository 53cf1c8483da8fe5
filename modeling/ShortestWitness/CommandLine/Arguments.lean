/-!
# Reading the arguments

The arguments are options, a command word, and the file to decide about. Options and command word
may come in either order, except that the verbosity can only be set before the command word. An
option is given once at most before the command word and once after it; of two alphabets the later
one counts. A lone dash is no option, and after two dashes nothing is.
-/

namespace ShortestWitness.CommandLine

/-- What can be asked about the automata in a file. -/
inductive Command where
  | emptiness
  | equivalence
deriving DecidableEq, Repr

def Command.ofWord? : String → Option Command
  | "empty" | "problem1" => some .emptiness
  | "equiv" | "problem2" => some .equivalence
  | _ => none

/-- What the arguments ask for: what is to be decided, over which symbols, and about which file. -/
structure Request where
  command : Command
  alphabet : String
  path : String
deriving DecidableEq, Repr

namespace Arguments

/-- The alphabet that is meant where no option gives one. -/
def defaultAlphabet : String := "ab"

/-- One option or word among the arguments. All that follow the end of the options are words. -/
inductive Item where
  | alphabet (symbols : String)
  | verbosity
  | endOfOptions
  | word (w : String)
deriving DecidableEq, Repr

/-- The argument has a dash before something else. -/
def looksLikeOption (arg : String) : Bool := arg.startsWith "-" && arg ≠ "-"

/-- Reads the item at the start of a list of arguments. The alphabet may be an argument of its own,
which must not look like an option, or follow an equals sign; the verbosity may follow an equals
sign only. -/
def item? : List String → Option (Item × List String)
  | [] => none
  | arg :: rest =>
    if arg = "--" then some (.endOfOptions, rest)
    else if arg = "--alphabet" then
      match rest with
      | value :: rest => if looksLikeOption value then none else some (.alphabet value, rest)
      | [] => none
    else if arg.startsWith "--alphabet=" then
      some (.alphabet (String.ofList (arg.toList.drop "--alphabet=".length)), rest)
    else if arg ∈ ["-v", "-v=info", "-v=debug", "-v=trace", "--verbosity", "--verbosity=info",
        "--verbosity=debug", "--verbosity=trace"] then
      some (.verbosity, rest)
    else if looksLikeOption arg then none
    else some (.word arg, rest)

/-- Reading an item takes at least one argument. -/
theorem length_lt_of_item? {args rest : List String} {i : Item}
    (h : item? args = some (i, rest)) : rest.length < args.length := by
  unfold item? at h
  split at h
  · cases h
  · repeat' split at h
    all_goals cases h
    all_goals simp only [List.length_cons]
    all_goals omega

/-- Reads what follows the command word, given what has been read since: an alphabet, a path. -/
def afterCommand (alphabet path : Option String) (args : List String) :
    Option (Option String × Option String) :=
  match _h : item? args with
  | none => if args = [] then some (alphabet, path) else none
  | some (.alphabet symbols, rest) =>
    if alphabet.isSome then none else afterCommand (some symbols) path rest
  | some (.verbosity, _) => none
  | some (.endOfOptions, rest) =>
    match path, rest with
    | path, [] => some (alphabet, path)
    | none, [file] => some (alphabet, some file)
    | _, _ => none
  | some (.word w, rest) => if path.isSome then none else afterCommand alphabet (some w) rest
termination_by args.length
decreasing_by all_goals exact length_lt_of_item? _h

/-- Reads all arguments, given the options that have been read. -/
def beforeCommand (alphabet : Option String) (verbose : Bool) (args : List String) :
    Option Request :=
  match _h : item? args with
  | some (.alphabet symbols, rest) =>
    if alphabet.isSome then none else beforeCommand (some symbols) verbose rest
  | some (.verbosity, rest) => if verbose then none else beforeCommand alphabet true rest
  | some (.word w, rest) => do
    let command ← Command.ofWord? w
    let (later, path) ← afterCommand none none rest
    let path ← path
    if path = "" then none
    else some ⟨command, (later <|> alphabet).getD defaultAlphabet, path⟩
  | _ => none
termination_by args.length
decreasing_by all_goals exact length_lt_of_item? _h

/-- The request that the arguments make, unless they make none. -/
def parse (args : List String) : Option Request := beforeCommand none false args

end Arguments

end ShortestWitness.CommandLine
