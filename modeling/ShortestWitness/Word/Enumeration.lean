import ShortestWitness.Misuse

/-!
# Enumerating all words

The words over a list of symbols, shorter words first and words of one length in the order of the
list. A word is counted as a list of digits, each a place in the list: `increment` is addition of
one with carry, most significant digit first, and where it overflows the next length begins.
Symbols may repeat, and then words do. Over no symbols there is only the empty word.
-/

namespace ShortestWitness

/-- The next list of digits of the same length, unless this is the last. -/
def increment {k : Nat} : List (Fin k) → Option (List (Fin k))
  | [] => none
  | d :: ds =>
    match increment ds with
    | some ds' => some (d :: ds')
    | none =>
      if h : d.val + 1 < k then some (⟨d.val + 1, h⟩ :: ds.map fun _ => ⟨0, by omega⟩) else none

/-- The list of `n` lowest digits, if there is a digit or none is needed. -/
def lowest {k : Nat} (n : Nat) : Option (List (Fin k)) :=
  if h : 0 < k then some (List.replicate n ⟨0, h⟩) else if n = 0 then some [] else none

/-- The next list of digits, one longer after the last of its length. -/
def following {k : Nat} (ds : List (Fin k)) : Option (List (Fin k)) :=
  increment ds <|> lowest (ds.length + 1)

/-- An enumeration that has got to some word: the digits of the next one, unless it is at its end. -/
structure Enumeration (α : Type) where
  symbols : Array α
  upcoming : Option (List (Fin symbols.size))

namespace Enumeration

variable {α : Type}

/-- The enumeration of all words, from the empty word on. -/
def ofSymbols (symbols : List α) : Enumeration α := ⟨symbols.toArray, lowest 0⟩

/-- The enumeration of all nonempty words, which needs a symbol. -/
def nonemptyOfSymbols (symbols : List α) : Except Misuse (Enumeration α) :=
  if symbols.isEmpty then .error .noSymbols else .ok ⟨symbols.toArray, lowest 1⟩

/-- The next word, if there is one, and the enumeration after it. -/
def next (e : Enumeration α) : Option (List α) × Enumeration α :=
  match e.upcoming with
  | none => (none, e)
  | some ds => (some (ds.map (e.symbols[·])), { e with upcoming := following ds })

/-- The symbol that a digit stands for. -/
def symbolAt (e : Enumeration α) (d : Fin e.symbols.size) : α := e.symbols[d]

/-- The enumeration after `n` more words. -/
def skip (e : Enumeration α) : Nat → Enumeration α
  | 0 => e
  | n + 1 => e.next.2.skip n

/-- The next `n` words; each that is asked for after the end is missing. -/
def take (e : Enumeration α) : Nat → List (Option (List α))
  | 0 => []
  | n + 1 => e.next.1 :: e.next.2.take n

end Enumeration

end ShortestWitness
