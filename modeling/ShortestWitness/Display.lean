/-!
# How values are displayed

`Display` gives each kind of value one text: numbers in decimal, characters and texts as they are,
truth values as a sign, lists between double quotes with nothing between their members, pairs
between parentheses. Nothing is escaped.
-/

namespace ShortestWitness

/-- Types whose values have a text to be shown by. -/
class Display (α : Type) where
  display : α → String

export Display (display)

instance : Display Nat := ⟨fun n => n.repr⟩

instance : Display Char := ⟨fun c => String.ofList [c]⟩

instance : Display String := ⟨fun s => s⟩

/-- Truth is a plus sign, falsehood a minus sign. -/
instance : Display Bool := ⟨fun b => if b then "+" else "-"⟩

/-- A list, and so a word, stands between double quotes. -/
instance {α : Type} [Display α] : Display (List α) :=
  ⟨fun l => "\"" ++ String.join (l.map display) ++ "\""⟩

/-- A pair stands between parentheses. -/
instance {α β : Type} [Display α] [Display β] : Display (α × β) :=
  ⟨fun p => "(" ++ display p.1 ++ ", " ++ display p.2 ++ ")"⟩

end ShortestWitness
