import ShortestWitness.Text.Unseen

/-!
# Quoted characters

A quoted character stands between single quotes. The quote, the backslash and four control
characters have a form with a backslash; any other unseen character is written by its code point.
-/

namespace ShortestWitness.Text

/-- The form of a character between the quotes. -/
def escaped (c : Char) : String :=
  match c with
  | '\'' => "\\'"
  | '\\' => "\\\\"
  | '\n' => "\\n"
  | '\r' => "\\r"
  | '\t' => "\\t"
  | '\x00' => "\\0"
  | _ =>
    if isUnseen c then "\\u\x7b" ++ String.ofList (Nat.toDigits 16 c.toNat) ++ "\x7d"
    else String.ofList [c]

/-- The character between single quotes. -/
def quoted (c : Char) : String := "'" ++ escaped c ++ "'"

end ShortestWitness.Text
