import ShortestWitness.Display
import ShortestWitness.Misuse
import ShortestWitness.Text.Quoted

/-!
# Alphabets

An alphabet is a list of distinct symbols. The order of the list is the order in which searches
try the symbols, so it decides which of several shortest words is found. Positions and symbols
determine each other: `position_eq_some_iff` and `getElem?_eq_some_iff_position`.
-/

namespace ShortestWitness

/-- A finite sequence of symbols. -/
abbrev Word := List Char

/-- Distinct symbols in the order in which they are tried. -/
structure Alphabet where
  symbols : List Char
  nodup : symbols.Nodup
deriving DecidableEq

namespace Alphabet

/-- Alphabets are equal if they have the same symbols in the same order. -/
theorem ext {A B : Alphabet} (h : A.symbols = B.symbols) : A = B := by
  cases A; cases B; cases h; rfl

/-- Keeps the first of equal symbols. -/
def distinct : List Char → List Char
  | [] => []
  | c :: cs => c :: (distinct cs).filter (· ≠ c)

theorem mem_distinct {c : Char} {cs : List Char} : c ∈ distinct cs ↔ c ∈ cs := by
  induction cs with
  | nil => simp [distinct]
  | cons d ds ih => by_cases h : c = d <;> simp [distinct, ih, h]

/-- Only the first of several equal symbols is kept. -/
theorem nodup_distinct (cs : List Char) : (distinct cs).Nodup := by
  induction cs with
  | nil => simp [distinct]
  | cons d ds ih => exact List.nodup_cons.2 ⟨by simp, ih.sublist List.filter_sublist⟩

/-- The alphabet of the symbols in a list, each at its first place. -/
def ofList (cs : List Char) : Alphabet := ⟨distinct cs, nodup_distinct cs⟩

/-- The letters that alphabets of a given size are made of. -/
def letters : List Char := "abcdefghijklmnopqrstuvwxyz".toList

/-- The first `n` letters, if there are so many. -/
def ofSize (n : Nat) : Except Misuse Alphabet :=
  if n ≤ letters.length then .ok (ofList (letters.take n)) else .error .alphabetTooLarge

/-- The alphabet that is meant where none is given. -/
def standard : Alphabet := ⟨['a', 'b'], by decide⟩

instance : Inhabited Alphabet := ⟨standard⟩

def size (A : Alphabet) : Nat := A.symbols.length

instance : Membership Char Alphabet := ⟨fun A c => c ∈ A.symbols⟩

instance (c : Char) (A : Alphabet) : Decidable (c ∈ A) := inferInstanceAs (Decidable (c ∈ A.symbols))

theorem mem_def {c : Char} {A : Alphabet} : c ∈ A ↔ c ∈ A.symbols := .rfl

def symbol? (A : Alphabet) (i : Nat) : Option Char := A.symbols[i]?

def position (A : Alphabet) (c : Char) : Option Nat := A.symbols.idxOf? c

/-- The place of a symbol has the symbol. -/
theorem symbol?_of_position {A : Alphabet} {c : Char} {i : Nat} (h : A.position c = some i) :
    A.symbol? i = some c := by
  obtain ⟨hi, hc, -⟩ := List.idxOf?_eq_some_iff.1 h
  exact List.getElem?_eq_some_iff.2 ⟨hi, hc⟩

theorem position_of_symbol? {A : Alphabet} {c : Char} {i : Nat} (h : A.symbol? i = some c) :
    A.position c = some i := by
  obtain ⟨hi, hc⟩ := List.getElem?_eq_some_iff.1 h
  refine List.idxOf?_eq_some_iff.2 ⟨hi, hc, fun j hj hjc => ?_⟩
  exact List.pairwise_iff_getElem.1 A.nodup j i _ hi hj (hjc.trans hc.symm)

theorem position_eq_some_iff {A : Alphabet} {c : Char} {i : Nat} :
    A.position c = some i ↔ A.symbol? i = some c :=
  ⟨symbol?_of_position, position_of_symbol?⟩

/-- What has no place is no symbol of the alphabet. -/
theorem position_eq_none_iff {A : Alphabet} {c : Char} : A.position c = none ↔ c ∉ A :=
  List.idxOf?_eq_none_iff

theorem position_lt {A : Alphabet} {c : Char} {i : Nat} (h : A.position c = some i) : i < A.size :=
  (List.getElem?_eq_some_iff.1 (symbol?_of_position h)).1

theorem mem_of_position {A : Alphabet} {c : Char} {i : Nat} (h : A.position c = some i) : c ∈ A :=
  List.mem_of_getElem? (symbol?_of_position h)

/-- The symbols that are in both alphabets, in the order of the first. -/
def intersection (A B : Alphabet) : Alphabet :=
  ⟨A.symbols.filter (· ∈ B), A.nodup.sublist List.filter_sublist⟩

/-- The common symbols are the symbols of both alphabets. -/
theorem mem_intersection {A B : Alphabet} {c : Char} : c ∈ A.intersection B ↔ c ∈ A ∧ c ∈ B := by
  simp [mem_def, intersection]

/-- Alphabets are ordered like their lists of symbols: at the first difference, or by length. -/
instance : Ord Alphabet := ⟨fun A B => compare A.symbols B.symbols⟩

/-- The symbols between braces, with a comma and a blank between each two. -/
def text (A : Alphabet) : String :=
  "\x7b" ++ ", ".intercalate (A.symbols.map fun c => String.ofList [c]) ++ "\x7d"

/-- The symbols in quotes, for outlines. -/
def outline (A : Alphabet) : String :=
  "CharAlphabet([" ++ ", ".intercalate (A.symbols.map Text.quoted) ++ "])"

end Alphabet

end ShortestWitness
