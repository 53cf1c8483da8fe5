import Mathlib.Data.List.Basic
import ShortestWitness.Line.Encode
import ShortestWitness.Proofs.Automaton.Parts
import ShortestWitness.Proofs.Machine.Renaming

/-!
# The order in which states are written

A line has the initial state first and the other states in their order. `renumber` is the place of a
state in it (`getElem?_writingOrder`), and an automaton whose states stand at these places is the
automaton with its initial state moved to the front (`InitialFirst`). As a machine it has the states
under other numbers, so no word tells it from the automaton.
-/

namespace ShortestWitness.Automaton

variable {M N : Automaton} {p q : Nat}

/-- The number of a state after the initial one is moved to the front. -/
def renumber (M : Automaton) (p : Nat) : Nat :=
  if p = M.initial then 0 else if p < M.initial then p + 1 else p

/-! ## Renumbering -/

theorem renumber_initial (M : Automaton) : M.renumber M.initial = 0 := if_pos rfl

theorem renumber_of_lt (h : p < M.initial) : M.renumber p = p + 1 := by
  rw [renumber, if_neg (Nat.ne_of_lt h), if_pos h]

theorem renumber_of_gt (h : M.initial < p) : M.renumber p = p := by
  rw [renumber, if_neg (Nat.ne_of_gt h), if_neg (Nat.lt_asymm h)]

/-- States that are not initial stay in their order. -/
theorem renumber_lt_renumber_iff (hp : p ≠ M.initial) (hq : q ≠ M.initial) :
    M.renumber p < M.renumber q ↔ p < q := by
  rcases Nat.lt_or_gt_of_ne hp with hp | hp <;> rcases Nat.lt_or_gt_of_ne hq with hq | hq
  · rw [renumber_of_lt hp, renumber_of_lt hq]
    omega
  · rw [renumber_of_lt hp, renumber_of_gt hq]
    omega
  · rw [renumber_of_gt hp, renumber_of_lt hq]
    omega
  · rw [renumber_of_gt hp, renumber_of_gt hq]

/-- Only states have places in the order. -/
theorem renumber_lt_size_iff : M.renumber p < M.size ↔ p < M.size := by
  have hi : M.initial < M.size := M.initial_lt
  rcases Nat.lt_trichotomy p M.initial with hp | rfl | hp
  · rw [renumber_of_lt hp]
    omega
  · rw [renumber_initial]
    omega
  · rw [renumber_of_gt hp]

/-- Each number is the new number of some state. -/
theorem exists_renumber_eq (M : Automaton) (i : Nat) : ∃ p, M.renumber p = i := by
  rcases Nat.eq_zero_or_pos i with rfl | hi
  · exact ⟨M.initial, renumber_initial M⟩
  · by_cases h : i ≤ M.initial
    · refine ⟨i - 1, ?_⟩
      rw [renumber_of_lt (by omega)]
      omega
    · exact ⟨i, renumber_of_gt (Nat.lt_of_not_le h)⟩

/-- Nothing moves if the initial state is at the front. -/
theorem renumber_eq_self (h : M.initial = 0) (p : Nat) : M.renumber p = p := by
  rcases Nat.eq_zero_or_pos p with rfl | hp
  · rw [← h, renumber_initial, h]
  · exact renumber_of_gt (h ▸ hp)

/-! ## Places in the order -/

/-- Numbers without one of them are those before it and those after it. -/
theorem filter_ne_range (k m : Nat) : (List.range (k + 1 + m)).filter (· ≠ k) =
    List.range k ++ (List.range m).map (k + 1 + ·) := by
  have hbefore : (List.range k).filter (· ≠ k) = List.range k := by
    apply List.filter_eq_self.2
    intro i hi
    exact decide_eq_true (Nat.ne_of_lt (List.mem_range.1 hi))
  have hafter : ((List.range m).map (k + 1 + ·)).filter (· ≠ k) =
      (List.range m).map (k + 1 + ·) := by
    apply List.filter_eq_self.2
    intro i hi
    obtain ⟨j, -, rfl⟩ := List.mem_map.1 hi
    exact decide_eq_true (by omega)
  rw [List.range_add, List.range_succ, List.filter_append, List.filter_append, hbefore, hafter]
  simp

theorem mem_writingOrder : p ∈ M.writingOrder ↔ p < M.size := by
  rw [writingOrder, List.mem_cons, List.mem_filter, List.mem_range, decide_eq_true_eq]
  constructor
  · rintro (rfl | ⟨h, -⟩)
    · exact M.initial_lt
    · exact h
  · intro h
    by_cases hp : p = M.initial
    · exact .inl hp
    · exact .inr ⟨h, hp⟩

theorem nodup_writingOrder (M : Automaton) : M.writingOrder.Nodup := by
  refine List.nodup_cons.2 ⟨?_, List.nodup_range.filter _⟩
  intro h
  exact of_decide_eq_true (List.mem_filter.1 h).2 rfl

/-- A state stands at the place that has its new number. -/
theorem getElem?_writingOrder (h : p < M.size) : M.writingOrder[M.renumber p]? = some p := by
  obtain ⟨m, hm⟩ := Nat.exists_eq_add_of_le (Nat.succ_le_of_lt M.initial_lt)
  have horder : M.writingOrder = M.initial ::
      (List.range M.initial ++ (List.range m).map (M.initial + 1 + ·)) := by
    rw [writingOrder, size, hm, filter_ne_range]
  rw [horder]
  rcases Nat.lt_trichotomy p M.initial with hp | rfl | hp
  · rw [renumber_of_lt hp, List.getElem?_cons_succ, List.getElem?_append_left (by simpa using hp),
      List.getElem?_range hp]
  · rw [renumber_initial]
    rfl
  · -- a state after the initial one is so many places after it
    obtain ⟨j, rfl⟩ := Nat.exists_eq_add_of_le (Nat.succ_le_of_lt hp)
    have hj : j < m := by
      unfold size at h
      omega
    have hplace : M.initial.succ + j = M.initial + j + 1 := by omega
    rw [renumber_of_gt hp, hplace, List.getElem?_cons_succ, List.getElem?_append_right (by simp),
      List.length_range, Nat.add_sub_cancel_left, List.getElem?_map, List.getElem?_range hj,
      Option.map_some]
    exact congrArg some (by omega)

theorem length_writingOrder (M : Automaton) : M.writingOrder.length = M.size := by
  have hperm : M.writingOrder.Perm (List.range M.size) := by
    refine (List.perm_ext_iff_of_nodup (nodup_writingOrder M) List.nodup_range).2 fun p => ?_
    rw [mem_writingOrder, List.mem_range]
  rw [hperm.length_eq, List.length_range]

/-! ## The initial state at the front -/

/-- The second automaton is the first one with its initial state moved to the front and the other
states in their order. -/
structure InitialFirst (M N : Automaton) : Prop where
  alphabet : N.alphabet = M.alphabet
  size : N.size = M.size
  initial : N.initial = 0
  name? : ∀ p, N.name? (M.renumber p) = M.name? p
  isAccepting : ∀ p, N.isAccepting (M.renumber p) = M.isAccepting p
  step : ∀ p c, N.step (M.renumber p) c = (M.step p c).map M.renumber

/-- Writing the initial state first renames the states. -/
theorem InitialFirst.renames (h : InitialFirst M N) :
    M.machine.Renames N.machine M.renumber := by
  refine ⟨h.alphabet, ?_, h.step, fun p => ?_⟩
  · change N.initial = M.renumber M.initial
    rw [h.initial, renumber_initial]
  · rw [color_machine, color_machine, h.size, h.isAccepting]
    by_cases hp : p < M.size
    · rw [if_pos hp, if_pos (renumber_lt_size_iff.2 hp)]
    · rw [if_neg hp, if_neg (mt renumber_lt_size_iff.1 hp)]

/-- If the initial state was at the front already, nothing changes. -/
theorem InitialFirst.eq_of_initial_eq_zero (h : InitialFirst M N) (h0 : M.initial = 0) : N = M := by
  have hself := renumber_eq_self h0
  refine eq_of_parts h.alphabet h.size (h.initial.trans h0.symm) (fun p => ?_) (fun p => ?_)
    fun p c => ?_
  · rw [← h.name?, hself]
  · rw [← h.isAccepting, hself]
  · have hstep := h.step p c
    rw [hself, funext hself, Option.map_id'] at hstep
    exact hstep

end ShortestWitness.Automaton
