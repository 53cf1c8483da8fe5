import ShortestWitness.Proofs.Search.Exploration

/-!
# Searches from the start to the end

One visit keeps the invariant `Explored` (`Explores.of_next?`), and so does any number of visits.
A search that is exhausted has nothing waiting (`waiting_exhaust`), and visiting states one by one
(`after`) goes through the same states (`next?_after`). A search for a state that satisfies some
condition stops at the first such state (`Explores.of_first?_eq_some`) or finds that there is none
(`Explores.of_first?_eq_none`).
-/

namespace ShortestWitness.Search

variable {σ κ : Type} [Comparable σ] {S : Machine σ κ} {o : σ} {s t : Search σ} {v : Found σ}

/-- The search satisfies the invariant of searches in `S` from `o`. -/
abbrev Explores (s : Search σ) (S : Machine σ κ) (o : σ) : Prop :=
  Explored S o s.yielded s.waiting

theorem explores_start (S : Machine σ κ) (o : σ) : (start o).Explores S o := by
  simpa only [Explores, yielded_start, waiting_start] using Explored.start S o

namespace Explores

theorem of_next? (h : s.Explores S o) (hn : s.next? S = some (v, t)) : t.Explores S o := by
  obtain ⟨e, ws, news, -, hw, hy, hf, hw'⟩ := exists_of_next? hn
  have hnodup := nodup_entries t
  rw [← yielded_append_waiting, hw] at hf
  rw [← yielded_append_waiting, hy, hw'] at hnodup
  rw [Explores, hw] at h
  rw [Explores, hy, hw']
  exact h.visit hf hnodup

/-- The state that is visited is the state of the next entry. -/
theorem exists_yielded_eq (hn : s.next? S = some (v, t)) :
    ∃ e, e.state = v.state ∧ t.yielded = s.yielded ++ [e] := by
  obtain ⟨e, _, _, he, -, hy, -⟩ := exists_of_next? hn
  exact ⟨e, he, hy⟩

end Explores

/-! ## Visiting all states -/

/-- The search after `n` more visits, or after the last if there are not so many. -/
def after (S : Machine σ κ) (s : Search σ) : Nat → Search σ
  | 0 => s
  | n + 1 =>
    match s.next? S with
    | none => s
    | some (_, t) => t.after S n

theorem exhaust_of_none (hn : s.next? S = none) : s.exhaust S = ([], s) := by
  rw [exhaust]
  split <;> simp_all

theorem exhaust_of_some (hn : s.next? S = some (v, t)) :
    s.exhaust S = (v :: (t.exhaust S).1, (t.exhaust S).2) := by
  rw [exhaust]
  split <;> rename_i h
  · exact absurd (hn.symm.trans h) (by simp)
  · cases hn.symm.trans h
    rfl

/-- Visits one by one are the visits of an exhausting search. -/
theorem next?_after (S : Machine σ κ) (s : Search σ) (n : Nat) :
    ((s.after S n).next? S).map Prod.fst = (s.exhaust S).1[n]? := by
  induction n generalizing s with
  | zero =>
    rw [after]
    cases hn : s.next? S with
    | none => rw [exhaust_of_none hn]; rfl
    | some x => rw [exhaust_of_some hn]; rfl
  | succ n ih =>
    rw [after]
    cases hn : s.next? S with
    | none => simp [exhaust_of_none hn, hn]
    | some x => rw [exhaust_of_some hn]; exact ih x.2

theorem Explores.after (h : s.Explores S o) (n : Nat) : (s.after S n).Explores S o := by
  induction n generalizing s with
  | zero => exact h
  | succ n ih =>
    rw [Search.after]
    cases hn : s.next? S with
    | none => exact h
    | some x => exact ih (h.of_next? hn)

/-- The states that `n` visits add to the yielded ones are the first `n` of the visits to come. -/
theorem map_state_yielded_after (S : Machine σ κ) (s : Search σ) (n : Nat) :
    (s.after S n).yielded.map Representative.state =
      s.yielded.map Representative.state ++ ((s.exhaust S).1.take n).map Found.state := by
  induction n generalizing s with
  | zero => simp [after]
  | succ n ih =>
    rw [after]
    cases hn : s.next? S with
    | none => simp [exhaust_of_none hn]
    | some x =>
      obtain ⟨e, he, hy⟩ := Explores.exists_yielded_eq hn
      rw [exhaust_of_some hn, List.take_succ_cons, List.map_cons]
      change (x.2.after S n).yielded.map _ = _
      rw [ih, hy, List.map_append, List.append_assoc, ← he]
      rfl

/-- Enough visits exhaust the search. -/
theorem after_eq_exhaust {n : Nat} (h : (s.exhaust S).1.length ≤ n) :
    s.after S n = (s.exhaust S).2 := by
  induction n generalizing s with
  | zero =>
    cases hn : s.next? S with
    | none => rw [after, exhaust_of_none hn]
    | some x => simp [exhaust_of_some hn] at h
  | succ n ih =>
    rw [after]
    cases hn : s.next? S with
    | none => rw [exhaust_of_none hn]
    | some x =>
      rw [exhaust_of_some hn] at h ⊢
      exact ih (Nat.le_of_succ_le_succ h)

/-- An exhausted search has nothing waiting. -/
theorem waiting_exhaust (S : Machine σ κ) (s : Search σ) : (s.exhaust S).2.waiting = [] := by
  have hnext := next?_after S s (s.exhaust S).1.length
  rw [after_eq_exhaust (Nat.le_refl _), List.getElem?_eq_none (Nat.le_refl _),
    Option.map_eq_none_iff] at hnext
  exact next?_eq_none_iff.1 hnext

/-! ## Visiting states up to the first of some kind -/

variable {P : σ → Bool}

/-- If the condition holds of no yielded state and not of the state that is visited, it holds of
no yielded state after the visit. -/
theorem forall_yielded_of_next? (hno : ∀ d ∈ s.yielded, P d.state = false)
    (hn : s.next? S = some (v, t)) (hP : ¬ P v.state = true) :
    ∀ d ∈ t.yielded, P d.state = false := by
  obtain ⟨e, he, hy⟩ := Explores.exists_yielded_eq hn
  intro d hd
  rcases List.mem_append.1 (hy ▸ hd) with hd | hd
  · exact hno d hd
  · rw [List.mem_singleton.1 hd, he]
    exact Bool.eq_false_iff.2 hP

/-- The search stops at a state that satisfies the condition, and none before it does. -/
theorem Explores.of_first?_eq_some (h : s.Explores S o)
    (hno : ∀ d ∈ s.yielded, P d.state = false) (hf : s.first? S P = some (v, t)) :
    t.Explores S o ∧ ∃ ys e, t.yielded = ys ++ [e] ∧ e.state = v.state ∧ P e.state = true ∧
      ∀ d ∈ ys, P d.state = false := by
  fun_induction first? S P s with
  | case1 s hn => exact absurd hf (by simp)
  | case2 s u r hn hP =>
    cases hf
    obtain ⟨e, he, hy⟩ := exists_yielded_eq hn
    exact ⟨h.of_next? hn, s.yielded, e, hy, he, he ▸ hP, hno⟩
  | case3 s u r hn hP ih => exact ih (h.of_next? hn) (forall_yielded_of_next? hno hn hP) hf

/-- A search that does not stop has visited everything, and nothing satisfies the condition. -/
theorem Explores.of_first?_eq_none (h : s.Explores S o)
    (hno : ∀ d ∈ s.yielded, P d.state = false) (hf : s.first? S P = none) :
    ∃ ys, Explored S o ys [] ∧ ∀ d ∈ ys, P d.state = false := by
  fun_induction first? S P s with
  | case1 s hn =>
    rw [Explores, next?_eq_none_iff.1 hn] at h
    exact ⟨s.yielded, h, hno⟩
  | case2 s u r hn hP => cases hf
  | case3 s u r hn hP ih => exact ih (h.of_next? hn) (forall_yielded_of_next? hno hn hP) hf

end ShortestWitness.Search
