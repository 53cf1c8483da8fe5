import ShortestWitness.Line.Decode
import ShortestWitness.Proofs.Text.Trim

/-!
# The grammar of lines

What a line says, as relations between texts: how a token is read greedily, which states a field
declares, which move a field is, and when a line is valid. None of them mentions the reader; the
reader agrees with them field by field (`token?_eq_some_iff`, `declares_iff`,
`isMove_iff_startsWith`).

Tokens are read greedily, so a digit is never the symbol of a move. A text that looks like a move on
a digit is none, however it is split (`not_isMove_of_isDigit`).
-/

namespace ShortestWitness.Line

/-- The letter `q` and at least one digit. -/
def IsToken (name : String) : Prop :=
  ∃ ds, name.toList = 'q' :: ds ∧ ds ≠ [] ∧ ∀ d ∈ ds, d.isDigit = true

/-- The text starts with the token `name`, which takes all the digits there are, and goes on with
`rest`. -/
structure StartsWith (text : List Char) (name : String) (rest : List Char) : Prop where
  isToken : IsToken name
  eq_append : text = name.toList ++ rest
  greedy : ∀ c ∈ rest.head?, c.isDigit = false

/-- The text is a sequence of tokens that declares these states. A token may be followed by an `f`,
and then its state is accepting. -/
inductive Declares : List Char → List Declaration → Prop
  | nil : Declares [] []
  | rejecting {text rest : List Char} {name : String} {ds : List Declaration} :
      StartsWith text name rest → Declares rest ds → Declares text (⟨name, false⟩ :: ds)
  | accepting {text rest : List Char} {name : String} {ds : List Declaration} :
      StartsWith text name ('f' :: rest) → Declares rest ds → Declares text (⟨name, true⟩ :: ds)

/-- The field is a token, a symbol and a token. Since the first token is read greedily, the symbol is
no digit. -/
structure IsMove (field : List Char) (source : String) (symbol : Char) (target : String) : Prop where
  isToken_source : IsToken source
  isToken_target : IsToken target
  eq_append : field = source.toList ++ symbol :: target.toList
  greedy : symbol.isDigit = false

/-- The field of a line that declares its states, which is the part before the first comma. -/
def stateField (line : List Char) : List Char :=
  Text.trim (((Text.trim line).splitOn ',').headD [])

/-- The fields of a line that give its moves, which are the parts after commas. Those that are blank
mean nothing. -/
def moveFields (line : List Char) : List (List Char) :=
  (((Text.trim line).splitOn ',').tail.map Text.trim).filter (· ≠ [])

/-- A field of the line is this move. -/
def HasMove (line : List Char) (source : String) (symbol : Char) (target : String) : Prop :=
  ∃ field ∈ moveFields line, IsMove field source symbol target

/-- The line is in the grammar, declares these states and does not contradict itself. -/
structure Valid (A : Alphabet) (line : List Char) (declared : List Declaration) : Prop where
  declares : Declares (stateField line) declared
  ne_nil : declared ≠ []
  nodup : (declared.map Declaration.name).Nodup
  moves : ∀ field ∈ moveFields line, ∃ s c t, IsMove field s c t ∧ c ∈ A ∧
    s ∈ declared.map Declaration.name ∧ t ∈ declared.map Declaration.name
  consistent : ∀ {s c t t'}, HasMove line s c t → HasMove line s c t' → t = t'

variable {text rest rest' field : List Char} {name s t s' t' : String} {c c' : Char}
  {ds ds' : List Declaration}

/-! ## Tokens -/

/-- A token is split off where the text starts with it. -/
theorem token?_eq_some_iff : Decode.token? text = some (name, rest) ↔ StartsWith text name rest := by
  constructor
  · intro h
    unfold Decode.token? at h
    split at h
    · rename_i cs
      split at h
      · cases h
      · rename_i hne
        cases h
        have hdigits : ∀ d ∈ cs.takeWhile Char.isDigit, d.isDigit = true :=
          List.all_eq_true.1 List.all_takeWhile
        refine ⟨⟨cs.takeWhile Char.isDigit, String.toList_ofList, hne, hdigits⟩, ?_, ?_⟩
        · rw [String.toList_ofList, List.cons_append, List.takeWhile_append_dropWhile]
        · intro c hc
          have hhead := List.head?_dropWhile_not Char.isDigit cs
          rw [Option.mem_def.1 hc] at hhead
          exact hhead
    · cases h
  · rintro ⟨⟨ds, hname, hne, hdigits⟩, rfl, hgreedy⟩
    have htake : (ds ++ rest).takeWhile Char.isDigit = ds := by
      rw [List.takeWhile_append_of_pos hdigits, Text.takeWhile_eq_nil hgreedy, List.append_nil]
    have hdrop : (ds ++ rest).dropWhile Char.isDigit = rest := by
      rw [List.dropWhile_append_of_pos hdigits, Text.dropWhile_eq_self hgreedy]
    rw [hname, List.cons_append, Decode.token?, htake, hdrop]
    split
    · exact absurd rfl hne
    · rw [← hname, String.ofList_toList]

/-- A text starts with one token at most. -/
theorem StartsWith.unique (h : StartsWith text name rest) (h' : StartsWith text s rest') :
    name = s ∧ rest = rest' := by
  have heq := (token?_eq_some_iff.2 h).symm.trans (token?_eq_some_iff.2 h')
  simpa using heq

theorem startsWith_self (h : IsToken name) : StartsWith name.toList name [] :=
  ⟨h, (List.append_nil _).symm, fun _ hc => absurd hc (by simp)⟩

/-- A token starts with its letter, which is neither a digit nor the mark of accepting states. -/
theorem StartsWith.head?_eq (h : StartsWith text name rest) : text.head? = some 'q' := by
  obtain ⟨⟨ds, hname, -⟩, rfl, -⟩ := h
  rw [hname]
  rfl

/-- States that are named by their numbers have tokens for names. -/
theorem isToken_numberedName (n : Nat) : IsToken (numberedName n) := by
  refine ⟨Nat.toDigits 10 n, ?_, Nat.toDigits_ne_nil, fun d hd => ?_⟩
  · simp [numberedName, Nat.repr_eq_ofList_toDigits]
  · exact Nat.isDigit_of_mem_toDigits (by decide) (by decide) hd

/-! ## Declarations -/

/-- Reading takes the token and the mark at the start, and goes on. -/
theorem declarations_of_startsWith (h : StartsWith text name rest) :
    Decode.declarations text =
      (⟨name, (Decode.finalMark rest).1⟩ :: (Decode.declarations (Decode.finalMark rest).2).1,
        (Decode.declarations (Decode.finalMark rest).2).2) := by
  have hread := token?_eq_some_iff.2 h
  rw [Decode.declarations]
  split <;> rename_i he
  · rw [hread] at he
    cases he
  · rw [hread] at he
    cases he
    rfl

theorem finalMark_of_head?_ne (h : rest.head? ≠ some 'f') : Decode.finalMark rest = (false, rest) := by
  unfold Decode.finalMark
  split
  · exact absurd rfl h
  · rfl

/-- Declarations are not continued by an `f`: that would have belonged to the token before. -/
theorem Declares.head?_ne (h : Declares text ds) : text.head? ≠ some 'f' := by
  cases h with
  | nil => simp
  | rejecting hs _ | accepting hs _ =>
    rw [hs.head?_eq]
    decide

/-- A token is not continued by declarations. -/
theorem Declares.greedy (h : Declares text ds) : ∀ c ∈ text.head?, c.isDigit = false := by
  intro c hc
  cases h with
  | nil => cases hc
  | rejecting hs _ | accepting hs _ =>
    rw [hs.head?_eq] at hc
    obtain rfl := Option.some.inj hc
    decide

/-- What a text declares is read from it. -/
theorem Declares.declarations_eq (h : Declares text ds) : Decode.declarations text = (ds, []) := by
  induction h with
  | nil =>
    rw [Decode.declarations]
    rfl
  | rejecting hs hd ih =>
    rw [declarations_of_startsWith hs, finalMark_of_head?_ne hd.head?_ne, ih]
  | @accepting _ rest _ _ hs _ ih =>
    have hmark : Decode.finalMark ('f' :: rest) = (true, rest) := rfl
    rw [declarations_of_startsWith hs, hmark, ih]

/-- What is read from a text to its end is declared by it. -/
theorem declares_of_declarations (h : Decode.declarations text = (ds, [])) : Declares text ds := by
  fun_induction Decode.declarations text generalizing ds with
  | case1 text hnone =>
    cases h
    exact .nil
  | case2 text name rest hread mark others =>
    rename_i ih
    have hs := token?_eq_some_iff.1 hread
    obtain ⟨rfl, hrest⟩ := Prod.mk.inj h
    have hd : Declares mark.2 others.1 := ih (Prod.ext rfl hrest)
    by_cases hf : rest.head? = some 'f'
    · obtain ⟨tail, rfl⟩ := List.head?_eq_some_iff.1 hf
      exact .accepting hs hd
    · have hmark : mark = (false, rest) := finalMark_of_head?_ne hf
      rw [hmark] at hd ⊢
      exact .rejecting hs hd

/-- The reader finds the declarations of a field, and nothing is left. -/
theorem declares_iff : Declares text ds ↔ Decode.declarations text = (ds, []) :=
  ⟨Declares.declarations_eq, declares_of_declarations⟩

theorem Declares.unique (h : Declares text ds) (h' : Declares text ds') : ds = ds' :=
  congrArg Prod.fst (h.declarations_eq.symm.trans h'.declarations_eq)

theorem Declares.isToken (h : Declares text ds) : ∀ d ∈ ds, IsToken d.name := by
  induction h with
  | nil => exact fun _ hd => absurd hd List.not_mem_nil
  | rejecting hs _ ih | accepting hs _ ih =>
    intro d hd
    rcases List.mem_cons.1 hd with rfl | hd
    · exact hs.isToken
    · exact ih d hd

/-! ## Moves -/

/-- A move is a token, a symbol, and a token that is all the rest. -/
theorem isMove_iff_startsWith : IsMove field s c t ↔
    ∃ rest, StartsWith field s (c :: rest) ∧ StartsWith rest t [] := by
  constructor
  · rintro ⟨hs, ht, rfl, hc⟩
    have hgreedy : ∀ d ∈ (c :: t.toList).head?, d.isDigit = false := by
      intro d hd
      rwa [← Option.some.inj hd]
    exact ⟨t.toList, ⟨hs, rfl, hgreedy⟩, startsWith_self ht⟩
  · rintro ⟨rest, ⟨hs, rfl, hc⟩, ⟨ht, rfl, -⟩⟩
    exact ⟨hs, ht, by rw [List.append_nil], hc c rfl⟩

/-- A field is one move at most. -/
theorem IsMove.unique (h : IsMove field s c t) (h' : IsMove field s' c' t') :
    s = s' ∧ c = c' ∧ t = t' := by
  obtain ⟨rest, hs, ht⟩ := isMove_iff_startsWith.1 h
  obtain ⟨rest', hs', ht'⟩ := isMove_iff_startsWith.1 h'
  obtain ⟨rfl, hrest⟩ := hs.unique hs'
  obtain ⟨rfl, rfl⟩ := List.cons.inj hrest
  exact ⟨rfl, rfl, (ht.unique ht').1⟩

/-- No token is a move: after its letter there are only digits. -/
theorem not_isMove_token (h : IsToken name) : ¬ IsMove name.toList s c t := by
  intro hm
  obtain ⟨rest, hs, -⟩ := isMove_iff_startsWith.1 hm
  have hrest := (hs.unique (startsWith_self h)).2
  cases hrest

/-- A digit between two tokens belongs to the first one, and then the letter of the second one is the
symbol and a token is missing. -/
theorem not_isMove_of_isDigit (hs : IsToken s) (ht : IsToken t) (hc : c.isDigit = true) :
    ¬ IsMove (s.toList ++ c :: t.toList) s' c' t' := by
  intro hm
  obtain ⟨rest, hread, hrest⟩ := isMove_iff_startsWith.1 hm
  obtain ⟨ds, hds, hne, hdigits⟩ := hs
  obtain ⟨es, hes, hne', hdigits'⟩ := ht
  -- the token that is read is the first one with the digit
  have hlong : StartsWith (s.toList ++ c :: t.toList) (String.ofList ('q' :: ds ++ [c])) t.toList := by
    refine ⟨⟨ds ++ [c], String.toList_ofList, by simp, ?_⟩, ?_, ?_⟩
    · intro d hd
      rcases List.mem_append.1 hd with hd | hd
      · exact hdigits d hd
      · rwa [List.mem_singleton.1 hd]
    · rw [String.toList_ofList, hds, List.append_assoc]
      rfl
    · intro d hd
      rw [hes] at hd
      rw [← Option.some.inj hd]
      decide
  have heq := (hread.unique hlong).2
  rw [hes] at heq
  obtain ⟨-, rfl⟩ := List.cons.inj heq
  have hhead := hrest.head?_eq
  obtain ⟨e, es', rfl⟩ := List.exists_cons_of_ne_nil hne'
  have hdigit := hdigits' e List.mem_cons_self
  rw [Option.some.inj hhead] at hdigit
  exact absurd hdigit (by decide)

end ShortestWitness.Line
