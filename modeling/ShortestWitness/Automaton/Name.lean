/-!
# Names of states

A numbered name is the letter `q` before a number. Different numbers give different names, so
that finitely many names leave some number free.
-/

namespace ShortestWitness

/-- The name that a state has from its number. -/
def numberedName (n : Nat) : String := "q" ++ n.repr

/-- Different numbers give different names. -/
theorem numberedName_inj {m n : Nat} (h : numberedName m = numberedName n) : m = n := by
  have hd : Nat.toDigits 10 m = Nat.toDigits 10 n := by
    simpa [numberedName, Nat.repr_eq_ofList_toDigits] using congrArg String.toList h
  simpa only [Nat.ofDigitChars_ten_toDigits] using congrArg (Nat.ofDigitChars 10 · 0) hd

theorem numberedName_fin_inj {n : Nat} {p q : Fin n} (h : numberedName p = numberedName q) : p = q :=
  Fin.ext (numberedName_inj h)

/-- The least number from `n` on whose name is not taken. A name that is found taken is struck off,
since no greater number has it. -/
def freshNumber (taken : List String) (n : Nat) : Nat :=
  if numberedName n ∈ taken then freshNumber (taken.erase (numberedName n)) (n + 1) else n
termination_by taken.length
decreasing_by
  rename_i h
  rw [List.length_erase_of_mem h]
  exact Nat.sub_lt (List.length_pos_of_mem h) Nat.one_pos

theorem le_freshNumber (taken : List String) (n : Nat) : n ≤ freshNumber taken n := by
  fun_induction freshNumber taken n with
  | case1 taken n _ ih => omega
  | case2 => exact Nat.le_refl _

/-- The number that is found is free. -/
theorem freshNumber_not_mem (taken : List String) (n : Nat) :
    numberedName (freshNumber taken n) ∉ taken := by
  fun_induction freshNumber taken n with
  | case1 taken n h ih =>
    intro hm
    refine ih ((List.mem_erase_of_ne fun he => ?_).2 hm)
    have := le_freshNumber (taken.erase (numberedName n)) (n + 1)
    have := numberedName_inj he
    omega
  | case2 taken n h => exact h

/-- All numbers before the one that is found are taken. -/
theorem mem_of_lt_freshNumber {taken : List String} {n m : Nat} (hn : n ≤ m)
    (hm : m < freshNumber taken n) : numberedName m ∈ taken := by
  fun_induction freshNumber taken n with
  | case1 taken n h ih =>
    by_cases he : m = n
    · exact he ▸ h
    · exact List.mem_of_mem_erase (ih (by omega) hm)
  | case2 => omega

/-- The first name in a list that has been there before. -/
def firstRepeat? : List String → Option String := go []
where
  /-- The first name that is among those `before` or repeats one after them. -/
  go (before : List String) : List String → Option String
    | [] => none
    | name :: names => if name ∈ before then some name else go (name :: before) names

/-- Nothing repeats if the names are different from each other and from those before. -/
theorem firstRepeat?_go_eq_none_iff {before names : List String} :
    firstRepeat?.go before names = none ↔ names.Nodup ∧ ∀ name ∈ names, name ∉ before := by
  induction names generalizing before with
  | nil => simp [firstRepeat?.go]
  | cons name names ih =>
    rw [firstRepeat?.go]
    by_cases h : name ∈ before
    · simp [h]
    · simp only [h, if_false, ih, List.nodup_cons, List.mem_cons, not_or, forall_eq_or_imp,
        not_false_eq_true, true_and]
      constructor
      · rintro ⟨hn, hb⟩
        exact ⟨⟨fun hm => (hb name hm).1 rfl, hn⟩, fun m hm => (hb m hm).2⟩
      · rintro ⟨⟨hm, hn⟩, hb⟩
        exact ⟨hn, fun m hmem => ⟨fun he => hm (he ▸ hmem), hb m hmem⟩⟩

/-- No name repeats just if all are different. -/
theorem firstRepeat?_eq_none_iff {names : List String} : firstRepeat? names = none ↔ names.Nodup := by
  simp [firstRepeat?, firstRepeat?_go_eq_none_iff]

end ShortestWitness
