import Mathlib.Data.Set.Card
import ShortestWitness.Proofs.Search.Runs

/-!
# A search between two visits

What a search has found can be relied on before the search is over. After any number of visits the found
states are the start and the targets of all moves from the states that have been visited
(`Explores.hasFound_iff`), and those of them that have not been visited wait in the order in which the
next visits will yield them (`nextStates_length_waiting`). The pointers of a found state lead back to the
start, and what they spell is the word that the search gives (`Explores.retraces_iff`). This word is
already the first of all words to the state, whatever is still unexplored
(`Explores.wordTo?_eq_some_iff_least`), and stays the same (`wordTo?_eq_some_iff_after`).
-/

namespace ShortestWitness.Search

variable {σ κ : Type} [Comparable σ] {S : Machine σ κ} {o p q r : σ} {s t : Search σ} {v : Found σ}
  {c : Char} {w : Word} {i n : Nat}

/-! ## The visits to come -/

/-- The states that the next `n` visits yield, or as many as there are. -/
def nextStates (S : Machine σ κ) (s : Search σ) : Nat → List σ
  | 0 => []
  | n + 1 =>
    match s.next? S with
    | none => []
    | some (v, t) => v.state :: t.nextStates S n

theorem nextStates_of_none (hn : s.next? S = none) (n : Nat) : s.nextStates S n = [] := by
  cases n with
  | zero => rfl
  | succ n => rw [nextStates, hn]

theorem nextStates_of_some (hn : s.next? S = some (v, t)) (n : Nat) :
    s.nextStates S (n + 1) = v.state :: t.nextStates S n := by
  rw [nextStates, hn]

theorem after_of_none (hn : s.next? S = none) (n : Nat) : s.after S n = s := by
  cases n with
  | zero => rfl
  | succ n => rw [after, hn]

theorem after_of_some (hn : s.next? S = some (v, t)) (n : Nat) :
    s.after S (n + 1) = t.after S n := by
  rw [after, hn]

/-- More visits go on from where the others stopped. -/
theorem after_add (S : Machine σ κ) (s : Search σ) (n m : Nat) :
    s.after S (n + m) = (s.after S n).after S m := by
  induction n generalizing s with
  | zero => rw [Nat.zero_add, after]
  | succ n ih =>
    cases hn : s.next? S with
    | none => rw [after_of_none hn, after_of_none hn, after_of_none hn]
    | some x =>
      rw [Nat.add_right_comm, after_of_some hn, after_of_some hn]
      exact ih x.2

/-- Visits one by one yield the states of an exhausting search. -/
theorem nextStates_eq (S : Machine σ κ) (s : Search σ) (n : Nat) :
    s.nextStates S n = ((s.exhaust S).1.take n).map Found.state := by
  induction n generalizing s with
  | zero => rfl
  | succ n ih =>
    cases hn : s.next? S with
    | none => simp [nextStates_of_none hn, exhaust_of_none hn]
    | some x =>
      rw [nextStates_of_some hn, exhaust_of_some hn, ih]
      rfl

/-- The states that wait are visited first, in their order. -/
theorem nextStates_of_le (hle : n ≤ s.waiting.length) :
    s.nextStates S n = (s.waiting.take n).map Representative.state := by
  induction n generalizing s with
  | zero => rfl
  | succ n ih =>
    cases hn : s.next? S with
    | none => simp [next?_eq_none_iff.1 hn] at hle
    | some x =>
      obtain ⟨e, ws, news, he, hw, -, -, hw'⟩ := exists_of_next? hn
      rw [hw, List.length_cons, Nat.succ_le_succ_iff] at hle
      have hle' : n ≤ x.2.waiting.length := by
        rw [hw', List.length_append]
        omega
      rw [nextStates_of_some hn, ih hle', hw, hw', List.take_append_of_le_length hle,
        List.take_succ_cons, List.map_cons, he]

/-- Visiting all that waits now yields the waiting states in their order. -/
theorem nextStates_length_waiting (S : Machine σ κ) (s : Search σ) :
    s.nextStates S s.waiting.length = s.waiting.map Representative.state := by
  rw [nextStates_of_le (Nat.le_refl _), List.take_length]

/-- What has been found stays where it is. -/
theorem entries_prefix_after (S : Machine σ κ) (s : Search σ) (n : Nat) :
    s.entries <+: (s.after S n).entries := by
  induction n generalizing s with
  | zero => exact List.prefix_rfl
  | succ n ih =>
    cases hn : s.next? S with
    | none => rw [after_of_none hn]
    | some x =>
      obtain ⟨e, ws, news, -, hw, hy, -, hw'⟩ := exists_of_next? hn
      have hstep : s.entries <+: x.2.entries := by
        rw [← yielded_append_waiting, ← yielded_append_waiting, hw, hy, hw', Explored.visit_append]
        exact List.prefix_append ..
      rw [after_of_some hn]
      exact hstep.trans (ih x.2)

/-! ## What has been found -/

theorem hasFound_iff : s.hasFound p = true ↔ p ∈ s.entries.map Representative.state := by
  rw [hasFound, decide_eq_true_iff, mem_numbers_iff]

/-- The states that have been found are those with a word. -/
theorem hasFound_iff_exists : s.hasFound p = true ↔ ∃ w, s.wordTo? p = some w := by
  rw [hasFound_iff, List.mem_map]
  constructor
  · rintro ⟨e, he, rfl⟩
    exact ⟨e.word, wordTo?_eq_some_iff.2 he⟩
  · rintro ⟨w, hw⟩
    exact ⟨⟨p, w⟩, wordTo?_eq_some_iff.1 hw, rfl⟩

theorem isSome_wordTo? (s : Search σ) (p : σ) : (s.wordTo? p).isSome = s.hasFound p := by
  rw [Bool.eq_iff_iff, hasFound_iff_exists, Option.isSome_iff_exists]

/-- The count is the number of states that have been found. -/
theorem count_eq_ncard (s : Search σ) : s.count = {p | s.hasFound p = true}.ncard := by
  classical
  have hset : {p | s.hasFound p = true} = (s.entries.map Representative.state).toFinset := by
    ext p
    simp only [Set.mem_ofPred_eq, List.coe_toFinset, hasFound_iff]
  rw [hset, Set.ncard_coe_finset, List.toFinset_card_of_nodup (nodup_entries s), List.length_map,
    length_entries]

/-- The waiting states are those that have been found and have not been yielded. -/
theorem mem_waiting_iff : p ∈ s.waiting.map Representative.state ↔
    s.hasFound p = true ∧ p ∉ s.yielded.map Representative.state := by
  have hnodup := nodup_entries s
  rw [← yielded_append_waiting, List.map_append, List.nodup_append] at hnodup
  rw [hasFound_iff, ← yielded_append_waiting, List.map_append, List.mem_append]
  constructor
  · exact fun hp => ⟨.inr hp, fun hy => hnodup.2.2 p hy p hp rfl⟩
  · rintro ⟨hp | hp, hy⟩
    · exact absurd hp hy
    · exact hp

theorem nodup_waiting (s : Search σ) : (s.waiting.map Representative.state).Nodup :=
  (nodup_entries s).sublist ((List.drop_sublist _ _).map _)

/-- A property that words to a found state have, and no two words at once, tells which word it is. -/
theorem wordTo?_eq_some_iff_of {P : Word → Prop} (hP : ∀ {v}, s.wordTo? p = some v → P v)
    (hunique : ∀ {u v}, P u → P v → u = v) :
    s.wordTo? p = some w ↔ s.hasFound p = true ∧ P w := by
  constructor
  · exact fun hw => ⟨hasFound_iff_exists.2 ⟨w, hw⟩, hP hw⟩
  · rintro ⟨hp, hw⟩
    obtain ⟨v, hv⟩ := hasFound_iff_exists.1 hp
    rw [hv, hunique (hP hv) hw]

/-- A word that has been found does not change. -/
theorem wordTo?_eq_some_iff_after (S : Machine σ κ) (s : Search σ) (n : Nat) :
    s.wordTo? p = some w ↔ s.hasFound p = true ∧ (s.after S n).wordTo? p = some w := by
  have hlater : ∀ {v}, s.wordTo? p = some v → (s.after S n).wordTo? p = some v := fun hv =>
    wordTo?_eq_some_iff.2 ((entries_prefix_after S s n).subset (wordTo?_eq_some_iff.1 hv))
  exact wordTo?_eq_some_iff_of hlater fun hu hv => Option.some.inj (hu.symm.trans hv)

/-! ## Pointers back to the start -/

/-- How a state was found: on a visit of which state and on which symbol, if it was found on a visit. -/
def parent? (s : Search σ) (p : σ) : Option (Option (σ × Char)) :=
  s.numbers[p]?.bind fun i => s.found[i]?.map fun e =>
    e.source.bind fun m => s.found[m.1]?.map fun d => (d.state, m.2)

/-- Following the pointers from the first state ends at the second, where there is none, and the symbols
that are passed spell the word from its end. -/
inductive Retraces (s : Search σ) : σ → Word → σ → Prop
  | stop {p : σ} : s.parent? p = some none → Retraces s p [] p
  | back {p q r : σ} {c : Char} {w : Word} :
    s.parent? p = some (some (q, c)) → Retraces s q w r → Retraces s p (w ++ [c]) r

theorem numbers_of_found {e : Found σ} (he : s.found[i]? = some e) : s.numbers[e.state]? = some i := by
  rw [s.numbers_eq, he]
  rfl

/-- A found state has the word that its pointers spell. -/
theorem wordTo?_of_found {e : Found σ} (he : s.found[i]? = some e) :
    s.wordTo? e.state = some (s.wordAt i) := by
  have hi := (Array.getElem?_eq_some_iff.1 he).1
  rw [wordTo?, numbers_of_found he, Option.bind_some, trace_eq_append hi, List.append_nil]

theorem parent?_of_none {e : Found σ} (he : s.found[i]? = some e) (hs : e.source = none) :
    s.parent? e.state = some none := by
  simp [parent?, numbers_of_found he, he, hs]

theorem parent?_of_some {e d : Found σ} {j : Nat} (he : s.found[i]? = some e)
    (hs : e.source = some (j, c)) (hd : s.found[j]? = some d) :
    s.parent? e.state = some (some (d.state, c)) := by
  simp [parent?, numbers_of_found he, he, hs, hd]

/-- A state is found at the start, or on a visit of a state that was found before it, on the word of
that state and one more symbol. -/
theorem parent?_cases {parent : Option (σ × Char)} (h : s.parent? p = some parent) :
    parent = none ∧ s.wordTo? p = some [] ∨
      ∃ q c u, parent = some (q, c) ∧ s.wordTo? q = some u ∧ s.wordTo? p = some (u ++ [c]) := by
  obtain ⟨i, hi, h⟩ := Option.bind_eq_some_iff.1 h
  obtain ⟨e, he, rfl⟩ := Option.map_eq_some_iff.1 h
  rw [s.numbers_eq, he, Option.map_some, Option.some.injEq] at hi
  subst hi
  have hw := wordTo?_of_found he
  cases hs : e.source with
  | none =>
    rw [wordAt_of_none he hs] at hw
    exact .inl ⟨rfl, hw⟩
  | some m =>
    have hj := s.source_lt he hs
    have hd := Array.getElem?_eq_getElem (hj.trans (Array.getElem?_eq_some_iff.1 he).1)
    rw [wordAt_of_some he hs] at hw
    refine .inr ⟨_, m.2, s.wordAt m.1, ?_, wordTo?_of_found hd, hw⟩
    rw [Option.bind_some, hd, Option.map_some]

/-- What the pointers spell is the word of the state, and where they end the word is empty. -/
theorem Retraces.wordTo?_eq (h : s.Retraces p w q) : s.wordTo? p = some w ∧ s.wordTo? q = some [] := by
  induction h with
  | stop h =>
    rcases parent?_cases h with ⟨-, hw⟩ | ⟨_, _, _, hsome, -⟩
    · exact ⟨hw, hw⟩
    · cases hsome
  | back h _ ih =>
    rcases parent?_cases h with ⟨hnone, -⟩ | ⟨_, _, u, hsome, hu, hw⟩
    · cases hnone
    · cases hsome
      obtain rfl := Option.some.inj (hu.symm.trans ih.1)
      exact ⟨hw, ih.2⟩

/-- Pointers lead to states with smaller numbers, so they come to an end. -/
theorem exists_retraces {e : Found σ} (he : s.found[i]? = some e) :
    ∃ r, s.Retraces e.state (s.wordAt i) r := by
  induction i using Nat.strongRecOn generalizing e with
  | ind i ih =>
    cases hs : e.source with
    | none =>
      rw [wordAt_of_none he hs]
      exact ⟨_, .stop (parent?_of_none he hs)⟩
    | some m =>
      have hj := s.source_lt he hs
      have hd := Array.getElem?_eq_getElem (hj.trans (Array.getElem?_eq_some_iff.1 he).1)
      obtain ⟨r, hr⟩ := ih m.1 hj hd
      rw [wordAt_of_some he hs]
      exact ⟨r, .back (parent?_of_some he hs hd) hr⟩

/-! ## What is found is exact -/

namespace Explores

/-- The word of a state leads to it. -/
theorem runFrom_of_wordTo? (h : s.Explores S o) (hw : s.wordTo? p = some w) :
    S.runFrom o w = some p := by
  rw [wordTo?_eq_some_iff, ← yielded_append_waiting] at hw
  exact h.runs _ hw

/-- A retrace ends at the start, for every found state. -/
theorem retraces_iff (h : s.Explores S o) : s.Retraces p w q ↔ s.wordTo? p = some w ∧ q = o := by
  have hend : ∀ {p w q}, s.Retraces p w q → q = o := fun hr =>
    (Option.some.inj (h.runFrom_of_wordTo? hr.wordTo?_eq.2)).symm
  constructor
  · exact fun hr => ⟨hr.wordTo?_eq.1, hend hr⟩
  · rintro ⟨hw, rfl⟩
    have hnumber := hw
    rw [wordTo?, Option.bind_eq_some_iff] at hnumber
    obtain ⟨i, hi, -⟩ := hnumber
    rw [s.numbers_eq, Option.map_eq_some_iff] at hi
    obtain ⟨e, he, rfl⟩ := hi
    obtain ⟨r, hr⟩ := exists_retraces he
    obtain rfl := hend hr
    rw [wordTo?_of_found he, Option.some.injEq] at hw
    rwa [← hw]

/-- The found states are the start and the targets of the moves from the states that have been
visited. -/
theorem hasFound_iff (h : s.Explores S o) : s.hasFound p = true ↔
    p = o ∨ ∃ q ∈ s.yielded.map Representative.state, ∃ c ∈ S.alphabet, S.step q c = some p := by
  rw [Search.hasFound_iff, ← yielded_append_waiting, List.mem_map]
  constructor
  · rintro ⟨e, he, rfl⟩
    rcases h.tight e he with rfl | ⟨d, hd, m, hm, rfl⟩
    · exact .inl rfl
    · have hstep := Machine.mem_moves.1 hm
      exact .inr ⟨d.state, List.mem_map_of_mem hd, m.1, S.mem_of_step hstep, hstep⟩
  · rintro (rfl | ⟨q, hq, c, -, hstep⟩)
    · exact ⟨_, h.origin, rfl⟩
    · obtain ⟨d, hd, rfl⟩ := List.mem_map.1 hq
      obtain ⟨e, he, hes, -⟩ := h.closed d hd (c, p) (Machine.mem_moves.2 hstep)
      exact ⟨e, he, hes⟩

/-- The word of a found state is the first of all that lead to the state in the whole machine. -/
theorem wordTo?_eq_some_iff_least (h : s.Explores S o) : s.wordTo? p = some w ↔
    s.hasFound p = true ∧ S.alphabet.Least (fun v => S.runFrom o v = some p) w := by
  have hleast : ∀ {v}, s.wordTo? p = some v →
      S.alphabet.Least (fun v => S.runFrom o v = some p) v := fun hv =>
    h.least (by rw [yielded_append_waiting]; exact wordTo?_eq_some_iff.1 hv)
  exact wordTo?_eq_some_iff_of hleast Alphabet.Least.unique

end Explores

end ShortestWitness.Search
