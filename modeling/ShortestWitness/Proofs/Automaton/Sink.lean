import Mathlib
import ShortestWitness.Proofs.Automaton.Filling

/-!
# The sink of a completion

The number in the name of the sink is found by counting up in 32 bits, from the number of states on and
past the names that are taken (`firstFree?`). No more names are taken than there are states, so the count
ends before it overflows if there are fewer than `2 ^ 31` states (`firstFree?_size`). The rest of what a
completion adds and keeps is listed in `AddsSink`. The list leaves nothing open: only the completion
satisfies it (`addsSink_iff`).
-/

namespace ShortestWitness

/-! ## Counting in 32 bits -/

variable {taken : List String}

/-- Every number that is passed strikes off a taken name. -/
theorem freshNumber_le (taken : List String) (n : Nat) :
    freshNumber taken n ≤ n + taken.length := by
  fun_induction freshNumber taken n with
  | case1 taken n h ih =>
    have hlength := List.length_erase_of_mem h
    have hpos := List.length_pos_of_mem h
    omega
  | case2 => omega

/-- The number that is found is free, and all before it are taken. -/
theorem freshNumber_eq_iff {n k : Nat} : freshNumber taken n = k ↔ n ≤ k ∧
    numberedName k ∉ taken ∧ ∀ m, n ≤ m → m < k → numberedName m ∈ taken := by
  constructor
  · rintro rfl
    exact ⟨le_freshNumber .., freshNumber_not_mem _ _, fun m => mem_of_lt_freshNumber⟩
  · rintro ⟨hle, hfree, htaken⟩
    rcases Nat.lt_trichotomy (freshNumber taken n) k with hlt | heq | hgt
    · exact absurd (htaken _ (le_freshNumber ..) hlt) (freshNumber_not_mem _ _)
    · exact heq
    · exact absurd (mem_of_lt_freshNumber hle hgt) hfree

theorem toNat_add_one {n : UInt32} (h : n.toNat + 1 < 2 ^ 32) : (n + 1).toNat = n.toNat + 1 := by
  rw [UInt32.toNat_add, UInt32.toNat_one, Nat.mod_eq_of_lt h]

/-- Counts up from `n` to the first number whose name is free. Counting on from the greatest number of
32 bits would overflow, so there is no result then. -/
def firstFree? (isTaken : String → Bool) (n : UInt32) : Option UInt32 :=
  if isTaken (numberedName n.toNat) then
    if n.toNat + 1 < 2 ^ 32 then firstFree? isTaken (n + 1) else none
  else some n
termination_by 2 ^ 32 - n.toNat
decreasing_by
  rename_i h
  rw [toNat_add_one h]
  omega

/-- The count ends at the first number that is free. -/
theorem firstFree?_eq_some_iff {isTaken : String → Bool} {n k : UInt32} :
    firstFree? isTaken n = some k ↔ n.toNat ≤ k.toNat ∧ isTaken (numberedName k.toNat) = false ∧
      ∀ m, n.toNat ≤ m → m < k.toNat → isTaken (numberedName m) = true := by
  fun_induction firstFree? isTaken n with
  | case1 n htaken hlt ih =>
    rw [ih, toNat_add_one hlt]
    constructor
    · rintro ⟨hle, hfree, hpassed⟩
      refine ⟨by omega, hfree, fun m hm hmk => ?_⟩
      rcases Nat.eq_or_lt_of_le hm with rfl | hm
      · exact htaken
      · exact hpassed m hm hmk
    · rintro ⟨hle, hfree, hpassed⟩
      refine ⟨?_, hfree, fun m hm => hpassed m (by omega)⟩
      rcases Nat.eq_or_lt_of_le hle with heq | hlt
      · rw [heq, hfree] at htaken
        cases htaken
      · exact hlt
  | case2 n htaken hmax =>
    -- a number that is free would have to be greater, and there is none
    constructor
    · intro h
      cases h
    · rintro ⟨hle, hfree, -⟩
      have hk := k.toNat_lt
      have heq : n.toNat = k.toNat := by omega
      rw [heq, hfree] at htaken
      cases htaken
  | case3 n hfree =>
    rw [Option.some.injEq]
    constructor
    · rintro rfl
      exact ⟨Nat.le_refl _, Bool.eq_false_iff.2 hfree, fun m hm hlt => absurd hlt (by omega)⟩
    · rintro ⟨hle, -, hpassed⟩
      rcases Nat.eq_or_lt_of_le hle with heq | hlt
      · exact UInt32.toNat_inj.1 heq
      · exact absurd (hpassed _ (Nat.le_refl _) hlt) hfree

/-- Where 32 bits suffice, counting in them finds the least number that is free. -/
theorem firstFree?_eq_some_iff_freshNumber {isTaken : String → Bool} {n k : UInt32}
    (h : ∀ name, isTaken name = true ↔ name ∈ taken) :
    firstFree? isTaken n = some k ↔ freshNumber taken n.toNat = k.toNat := by
  simp only [firstFree?_eq_some_iff, freshNumber_eq_iff, Bool.eq_false_iff, ne_eq, h]

namespace Automaton

variable {M N : Automaton} {name : String} {p q : Nat} {c : Char}

theorem isSome_named?_iff : (M.named? name).isSome = true ↔ name ∈ M.names := by
  rw [named?, Array.findIdx?_isSome, ← Array.any_toList, List.any_eq_true, names, List.mem_map]
  simp only [decide_eq_true_iff]

/-- The count starts in the lower half of the numbers of 32 bits and does not pass as many numbers as
there are in the upper half. -/
theorem firstFree?_size (h : M.size < 2 ^ 31) :
    ∃ n, firstFree? (fun name => (M.named? name).isSome) (UInt32.ofNat M.size) = some n ∧
      n.toNat = freshNumber M.names M.size := by
  have hbound := freshNumber_le M.names M.size
  rw [length_names] at hbound
  have hsize : (UInt32.ofNat M.size).toNat = M.size :=
    UInt32.toNat_ofNat_of_lt' (h.trans (by decide))
  have hnumber : (UInt32.ofNat (freshNumber M.names M.size)).toNat = freshNumber M.names M.size := by
    apply UInt32.toNat_ofNat_of_lt'
    show _ < 2 ^ 32
    omega
  refine ⟨_, (firstFree?_eq_some_iff_freshNumber fun name => isSome_named?_iff).2 ?_, hnumber⟩
  rw [hsize, hnumber]

/-! ## What is added and what is kept -/

theorem completion_of_isComplete (h : M.isComplete = true) : M.completion = M := by
  rw [completion, if_pos h]

/-- The second automaton is the first one with one more state, the sink, which has the given name, rejects,
and is not left. The other states are as they were, but missing moves lead to the sink. -/
structure AddsSink (M N : Automaton) (name : String) : Prop where
  alphabet : N.alphabet = M.alphabet
  initial : N.initial = M.initial
  size : N.size = M.size + 1
  name_old : ∀ p < M.size, N.name? p = M.name? p
  name_sink : N.name? M.size = some name
  color_old : ∀ p < M.size, N.machine.color p = M.machine.color p
  color_sink : N.machine.color M.size = some false
  step_old : ∀ p c q, M.step p c = some q → N.step p c = some q
  step_missing : ∀ p < M.size, ∀ c ∈ M.alphabet, M.step p c = none → N.step p c = some M.size
  step_sink : ∀ c ∈ M.alphabet, N.step M.size c = some M.size

/-- Completing adds the sink. -/
theorem addsSink_completion (h : M.isComplete = false) : M.AddsSink M.completion M.sinkName where
  alphabet := alphabet_completion M
  initial := initial_completion M
  size := size_completion h
  name_old p hp := by
    have hlength := length_names M
    rw [name?_completion h, List.getElem?_append_left (by omega), names, List.getElem?_map,
      Array.getElem?_toList]
    rfl
  name_sink := by
    rw [name?_completion h, ← length_names M, List.getElem?_concat_length]
  color_old p hp := by
    rw [color_machine, color_machine, size_completion h, isAccepting_completion,
      if_pos (Nat.lt_succ_of_lt hp), if_pos hp]
  color_sink := by
    rw [color_machine, size_completion h, isAccepting_completion, if_pos (Nat.lt_succ_self _),
      isAccepting_of_le (Nat.le_refl _)]
  step_old p c q hq := by
    rw [step_completion h (Nat.le_of_lt (source_lt_of_step hq)) (mem_alphabet_of_step hq), hq]
    rfl
  step_missing p hp c hc hnone := by
    rw [step_completion h (Nat.le_of_lt hp) hc, hnone]
    rfl
  step_sink c hc := by
    rw [step_completion h (Nat.le_refl _) hc, step_of_le (Nat.le_refl _)]
    rfl

namespace AddsSink

variable (h : M.AddsSink N name)

include h

/-- Names are settled for all numbers, and so are colors and moves. -/
theorem name?_eq (p : Nat) :
    N.name? p = if p < M.size then M.name? p else if p = M.size then some name else none := by
  split <;> rename_i hlt
  · exact h.name_old p hlt
  · split <;> rename_i heq
    · rw [heq, h.name_sink]
    · exact name?_of_le (by rw [h.size]; omega)

theorem color_eq (p : Nat) : N.machine.color p =
    if p < M.size then M.machine.color p else if p = M.size then some false else none := by
  split <;> rename_i hlt
  · exact h.color_old p hlt
  · split <;> rename_i heq
    · rw [heq, h.color_sink]
    · rw [color_machine, if_neg (by rw [h.size]; omega)]

/-- Every move of the automaton with the sink, as a formula. -/
theorem step_eq (p : Nat) (c : Char) : N.step p c =
    if p ≤ M.size ∧ c ∈ M.alphabet then some ((M.step p c).getD M.size) else none := by
  split <;> rename_i hpc
  · obtain ⟨hp, hc⟩ := hpc
    cases hstep : M.step p c with
    | some q => exact h.step_old p c q hstep
    | none =>
      rcases Nat.lt_or_eq_of_le hp with hlt | rfl
      · exact h.step_missing p hlt c hc hstep
      · exact h.step_sink c hc
  · by_cases hc : c ∈ M.alphabet
    · have hp : ¬ p ≤ M.size := fun hp => hpc ⟨hp, hc⟩
      exact step_of_le (by rw [h.size]; omega)
    · exact step_of_not_mem (by rwa [h.alphabet])

end AddsSink

/-- There is only one way to add a sink. -/
theorem AddsSink.unique {N' : Automaton} (h : M.AddsSink N name) (h' : M.AddsSink N' name) :
    N = N' := by
  refine eq_of_parts (h.alphabet.trans h'.alphabet.symm) (h.size.trans h'.size.symm)
    (h.initial.trans h'.initial.symm) (fun p => ?_) (fun p => ?_) fun p c => ?_
  · rw [h.name?_eq, h'.name?_eq]
  · rw [Bool.eq_iff_iff, isAccepting_iff, isAccepting_iff, h.color_eq, h'.color_eq]
  · rw [h.step_eq, h'.step_eq]

/-- Nothing but the completion adds the sink. -/
theorem addsSink_iff (h : M.isComplete = false) :
    M.AddsSink N M.sinkName ↔ N = M.completion := by
  constructor
  · exact fun hN => hN.unique (addsSink_completion h)
  · rintro rfl
    exact addsSink_completion h

/-- Completing an automaton gives a complete one that accepts the same words, and the same first word.
A complete automaton stays as it is. Any other one is given a sink, and there is only one way to do
that; the search for the name of the sink ends before it overflows, and the name is put in with no other
one dropped. -/
theorem completion_exact (M : Automaton) (h : M.size < 2 ^ 31) :
    M.completion.isComplete = true ∧
      (∀ w, M.completion.machine.accepts w = M.machine.accepts w) ∧
      M.completion.machine.emptiness = M.machine.emptiness ∧
      (M.isComplete = true → M.completion = M) ∧
      M.completion.completion = M.completion ∧
      (M.isComplete = false → ∃ n : UInt32,
        firstFree? (fun name => (M.named? name).isSome) (UInt32.ofNat M.size) = some n ∧
        M.size ≤ n.toNat ∧ M.named? (numberedName n.toNat) = none ∧
        (∀ m, M.size ≤ m → m < n.toNat → (M.named? (numberedName m)).isSome = true) ∧
        (∀ N, M.AddsSink N (numberedName n.toNat) ↔ N = M.completion) ∧
        M.layout.completion.names = M.layout.names ++ [(M.size, numberedName n.toNat)]) ∧
      M.completion.layout = M.layout.completion ∧
      (∀ p, (M.layout.completion.name? p).isSome = true ↔ p < M.completion.size) ∧
      ∀ p name, M.layout.completion.named? name = some p ↔
        M.layout.completion.name? p = some name := by
  have hlayout := layout_completion M
  refine ⟨isComplete_completion M, accepts_completion M,
    Machine.emptiness_congr (alphabet_completion M) (accepts_completion M), completion_of_isComplete,
    completion_of_isComplete (isComplete_completion M), fun hM => ?_, hlayout, fun p => ?_,
    fun p name => ?_⟩
  · obtain ⟨n, hn, hnumber⟩ := firstFree?_size h
    have hsink : numberedName n.toNat = M.sinkName := by rw [hnumber, sinkName]
    obtain ⟨hle, hfree, hpassed⟩ := freshNumber_eq_iff.1 hnumber.symm
    refine ⟨n, hn, hle, ?_, fun m hm hlt => isSome_named?_iff.2 (hpassed m hm hlt), ?_, ?_⟩
    · rw [← Option.not_isSome_iff_eq_none, isSome_named?_iff]
      exact hfree
    · intro N
      rw [hsink]
      exact addsSink_iff hM
    · rw [hsink, ← hlayout, names_layout_completion hM, insertName_sinkName]
  · rw [← hlayout, (valid_layout M.completion).isSome_name?_iff, size_layout]
  · rw [← hlayout]
    exact (valid_layout M.completion).named?_eq_some_iff

/-- An automaton with two states, whose names are those that would be tried first for the sink. -/
def borrowedNames : Automaton :=
  tabulate .standard (⟨0, Nat.zero_lt_two⟩ : Fin 2) (fun p => numberedName (p + 2))
    (fun h => Fin.ext (Nat.add_right_cancel (numberedName_inj h))) (·.val = 1)
    fun p c => if p.val = 0 ∧ c = 'b' then some ⟨1, Nat.one_lt_two⟩ else none

/-- The numbers of both names are passed. -/
theorem completion_borrowedNames : borrowedNames.size < 2 ^ 31 ∧
    borrowedNames.isComplete = false ∧
    firstFree? (fun name => (borrowedNames.named? name).isSome) (UInt32.ofNat borrowedNames.size) =
      some 4 ∧
    borrowedNames.AddsSink borrowedNames.completion "q4" ∧
    borrowedNames.completion.machine.emptiness = .nonempty ['b'] := by
  have hsize : borrowedNames.size < 2 ^ 31 := by cbv
  have hpartial : borrowedNames.isComplete = false := by cbv
  have hcount : firstFree? (fun name => (borrowedNames.named? name).isSome)
      (UInt32.ofNat borrowedNames.size) = some 4 := by
    cbv
  obtain ⟨-, -, hemptiness, -, -, hsink, -⟩ := completion_exact borrowedNames hsize
  obtain ⟨n, hn, -, -, -, hadds, -⟩ := hsink hpartial
  obtain rfl := Option.some.inj (hn.symm.trans hcount)
  exact ⟨hsize, hpartial, hcount, (hadds _).2 rfl, hemptiness.trans (by cbv)⟩

end Automaton

end ShortestWitness
