import Mathlib.Data.List.Basic
import Mathlib.Data.List.TakeWhile
import ShortestWitness.Text.Blank
import ShortestWitness.Text.Lines

/-!
# Trimming

A text that neither starts nor ends with a blank character stays as it is when it is trimmed, and
what is put together from such texts is one of them (`IsTrimmed.append`). Blank characters further
inside do not matter (`IsTrimmed.surround`). What comes of trimming is such a text
(`isTrimmed_trim`). A text falls into pieces that do not contain what
separates them (`not_mem_of_mem_splitOn`). What ends a line is blank, so the lines of a text are,
after trimming, the pieces between its line feeds (`filter_map_trim_lines`).
-/

namespace ShortestWitness.Text

/-- The text neither starts nor ends with a blank character. -/
structure IsTrimmed (cs : List Char) : Prop where
  head : ∀ c ∈ cs.head?, isBlank c = false
  last : ∀ c ∈ cs.getLast?, isBlank c = false

variable {P : Char → Bool} {cs u v : List Char}

theorem takeWhile_eq_nil (h : ∀ c ∈ cs.head?, P c = false) : cs.takeWhile P = [] := by
  cases cs with
  | nil => rfl
  | cons c cs =>
    have hc := h c rfl
    simp [hc]

theorem dropWhile_eq_self (h : ∀ c ∈ cs.head?, P c = false) : cs.dropWhile P = cs := by
  cases cs with
  | nil => rfl
  | cons c cs =>
    have hc := h c rfl
    simp [hc]

theorem isBlank_of_isDigit {c : Char} (h : c.isDigit = true) : isBlank c = false := by
  rw [← Bool.not_eq_true, isBlank_iff]
  rintro ⟨r, hr, hlo, hhi⟩
  have hdigit : 48 ≤ c.toNat ∧ c.toNat ≤ 57 := by
    simp only [Char.isDigit, ge_iff_le, Bool.and_eq_true, decide_eq_true_eq,
      UInt32.le_iff_toNat_le] at h
    exact h
  -- the digits lie between the second range and the third
  have hrange : ∀ r ∈ blankRanges, r.2 < 48 ∨ 57 < r.1 := by decide
  have hout := hrange r hr
  omega

/-- Nothing is taken from the ends. -/
theorem IsTrimmed.trim_eq (h : IsTrimmed cs) : trim cs = cs := by
  have hlast : ∀ c ∈ cs.reverse.head?, isBlank c = false := by
    rw [List.head?_reverse]
    exact h.last
  rw [trim, dropWhile_eq_self h.head, trimEnd, dropWhile_eq_self hlast, List.reverse_reverse]

/-- Nothing is left of a text that is blank throughout, and of no other. -/
theorem trim_eq_nil_iff : trim cs = [] ↔ ∀ c ∈ cs, isBlank c = true := by
  rw [trim, trimEnd, List.reverse_eq_nil_iff, List.dropWhile_eq_nil_iff]
  simp only [List.mem_reverse]
  constructor
  · intro h
    rw [← List.dropWhile_eq_nil_iff]
    by_contra hne
    have hhead := List.head_dropWhile_not isBlank hne
    rw [h _ (List.head_mem hne)] at hhead
    cases hhead
  · intro h c hc
    exact h c ((List.dropWhile_sublist _).mem hc)

theorem isTrimmed_nil : IsTrimmed [] := ⟨by simp, by simp⟩

theorem isTrimmed_singleton {c : Char} (h : isBlank c = false) : IsTrimmed [c] := by
  constructor
  · intro d hd
    rwa [← Option.some.inj hd]
  · intro d hd
    rwa [← Option.some.inj hd]

/-- Only the ends matter. -/
theorem IsTrimmed.surround (hu : IsTrimmed u) (hv : IsTrimmed v) (hu' : u ≠ []) (hv' : v ≠ [])
    (cs : List Char) : IsTrimmed (u ++ cs ++ v) := by
  constructor
  · rw [List.append_assoc, List.head?_append_of_ne_nil _ hu']
    exact hu.head
  · rw [List.getLast?_append_of_ne_nil _ hv']
    exact hv.last

/-- There is nothing to trim about texts put together from such texts. -/
theorem IsTrimmed.append (hu : IsTrimmed u) (hv : IsTrimmed v) : IsTrimmed (u ++ v) := by
  by_cases hu' : u = []
  · rwa [hu']
  by_cases hv' : v = []
  · rwa [hv', List.append_nil]
  have h := hu.surround hv hu' hv' []
  rwa [List.append_nil] at h

theorem isTrimmed_flatMap {α : Type} {f : α → List Char} {l : List α}
    (h : ∀ a ∈ l, IsTrimmed (f a)) : IsTrimmed (l.flatMap f) := by
  induction l with
  | nil => exact isTrimmed_nil
  | cons a l ih =>
    rw [List.flatMap_cons]
    exact (h a List.mem_cons_self).append (ih fun b hb => h b (List.mem_cons_of_mem _ hb))

/-- Trimming only leaves out. -/
theorem trim_subset (cs : List Char) : trim cs ⊆ cs := by
  intro c hc
  rw [trim, trimEnd, List.mem_reverse] at hc
  exact (List.dropWhile_sublist _).mem (List.mem_reverse.1 ((List.dropWhile_sublist _).mem hc))

theorem trimEnd_cons {c : Char} (h : isBlank c = false) (cs : List Char) :
    trimEnd (c :: cs) = c :: trimEnd cs := by
  rw [trimEnd, trimEnd, List.reverse_cons, List.dropWhile_append]
  split <;> rename_i hall
  · rw [List.isEmpty_iff.1 hall, List.dropWhile_cons_of_neg (by simp [h])]
    rfl
  · rw [List.reverse_append]
    rfl

/-- What is left after trimming starts with the first character that is not blank. -/
theorem head?_trim (cs : List Char) : (trim cs).head? = (cs.dropWhile isBlank).head? := by
  rw [trim]
  cases hcs : cs.dropWhile isBlank with
  | nil => rfl
  | cons c rest =>
    have hc := List.head?_dropWhile_not isBlank cs
    rw [hcs, List.head?_cons] at hc
    rw [trimEnd_cons (by simpa using hc)]
    rfl

/-- Once trimmed, there is nothing more to trim. -/
theorem isTrimmed_trim (cs : List Char) : IsTrimmed (trim cs) := by
  constructor
  · intro c hc
    rw [head?_trim] at hc
    have hhead := List.head?_dropWhile_not isBlank cs
    rw [Option.mem_def.1 hc] at hhead
    exact hhead
  · intro c hc
    rw [trim, trimEnd, List.getLast?_reverse] at hc
    have hlast := List.head?_dropWhile_not isBlank (cs.dropWhile isBlank).reverse
    rw [Option.mem_def.1 hc] at hlast
    exact hlast

/-- What separates the pieces of a text occurs in none of them. -/
theorem not_mem_of_mem_splitOn {c : Char} {text piece : List Char} (h : piece ∈ text.splitOn c) :
    c ∉ piece := by
  induction text generalizing piece with
  | nil =>
    rw [List.splitOn_nil, List.mem_singleton] at h
    exact h ▸ List.not_mem_nil
  | cons d text ih =>
    rw [List.splitOn_cons_eq_if_modifyHead] at h
    split at h <;> rename_i hd
    · rcases List.mem_cons.1 h with rfl | h
      · exact List.not_mem_nil
      · exact ih h
    · -- the first piece of the rest gets one more character, which separates nothing
      obtain ⟨first, pieces, hpieces⟩ := List.exists_cons_of_ne_nil (List.splitOn_ne_nil c text)
      rw [hpieces] at h ih
      rcases List.mem_cons.1 h with rfl | h
      · have hne : c ≠ d := fun hcd => hd (beq_iff_eq.2 hcd.symm)
        exact List.not_mem_cons_of_ne_of_not_mem hne (ih List.mem_cons_self)
      · exact ih (List.mem_cons_of_mem _ h)

/-- The pieces of a text have no characters that the text has not. -/
theorem subset_of_mem_splitOn {c : Char} {text piece : List Char} (h : piece ∈ text.splitOn c) :
    piece ⊆ text := by
  obtain ⟨i, hi⟩ := List.mem_iff_getElem?.1 h
  have hmem : piece ∈ (text.splitOn c).intersperse [c] :=
    List.mem_of_getElem? (List.getElem?_intersperse_two_mul.trans hi)
  have hjoined : [c].intercalate (text.splitOn c) = text := List.intercalate_splitOn c
  intro d hd
  rw [← hjoined]
  exact List.mem_flatten.2 ⟨piece, hmem, hd⟩

/-! ## Lines -/

theorem trim_append_singleton {c : Char} (cs : List Char) (h : isBlank c = true) :
    trim (cs ++ [c]) = trim cs := by
  have hend : ∀ u : List Char, trimEnd (u ++ [c]) = trimEnd u := by
    intro u
    rw [trimEnd, List.reverse_append, List.reverse_singleton, List.singleton_append,
      List.dropWhile_cons_of_pos h, trimEnd]
  rw [trim, List.dropWhile_append]
  split <;> rename_i hall
  · rw [trim, List.isEmpty_iff.1 hall, List.dropWhile_cons_of_pos h]
    rfl
  · exact hend _

/-- A carriage return at the end is trimmed off like other blank characters. -/
theorem trim_dropReturn (line : List Char) : trim (dropReturn line) = trim line := by
  unfold dropReturn
  split <;> rename_i h
  · obtain ⟨cs, rfl⟩ := List.getLast?_eq_some_iff.1 h
    rw [List.dropLast_concat, trim_append_singleton cs (by decide)]
  · rfl

/-- The lines that are not blank are found between line feeds. -/
theorem filter_map_trim_lines {P : List Char → Bool} (hP : P [] = false) (text : List Char) :
    ((lines text).map trim).filter P = ((text.splitOn '\n').map trim).filter P := by
  obtain ⟨pieces, last, hpieces⟩ := List.eq_nil_or_concat' (text.splitOn '\n') |>.resolve_left
    (by simp)
  have htrim : (pieces.map dropReturn).map trim = pieces.map trim := by
    rw [List.map_map]
    exact List.map_congr_left fun line _ => trim_dropReturn line
  -- the last piece is no line if it is empty, but then it is not kept either
  have hlast : (([last].filter (· ≠ [])).map trim).filter P = ([last].map trim).filter P := by
    by_cases h : last = []
    · subst h
      simp [trim, trimEnd, hP]
    · simp [h]
  rw [lines, hpieces, List.dropLast_concat, List.getLast?_concat, List.map_append,
    List.filter_append, htrim, List.map_append, List.filter_append]
  exact congrArg _ hlast

end ShortestWitness.Text
