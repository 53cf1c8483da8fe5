import ShortestWitness.Proofs.Search.Runs

/-!
# The reachable states in the order of their first words

A search that is exhausted has visited exactly the states that words lead to, each of them once.
The word on which a state was found is the first of all words that lead there, and the states come
in the order of these words. All this is the invariant `Explored` of a search with nothing waiting;
what remains is that the lists that searches return are its yielded entries.
-/

namespace ShortestWitness.Machine

variable {σ κ : Type} [Comparable σ]

theorem explored_exhaust (S : Machine σ κ) (o : σ) :
    Explored S o ((Search.start o).exhaust S).2.yielded [] := by
  have h := (Search.explores_start S o).after ((Search.start o).exhaust S).1.length
  rwa [Search.after_eq_exhaust (Nat.le_refl _), Search.Explores, Search.waiting_exhaust] at h

/-- The states of the first visits are those of the entries that the visits have yielded. -/
theorem take_reachableStatesFrom (S : Machine σ κ) (o : σ) (n : Nat) :
    (S.reachableStatesFrom o).take n =
      ((Search.start o).after S n).yielded.map Representative.state := by
  rw [Search.map_state_yielded_after, Search.yielded_start, reachableStatesFrom, List.map_take]
  rfl

theorem reachableStatesFrom_eq_map (S : Machine σ κ) (o : σ) :
    S.reachableStatesFrom o =
      ((Search.start o).exhaust S).2.yielded.map Representative.state := by
  have hlen : (S.reachableStatesFrom o).length = ((Search.start o).exhaust S).1.length :=
    List.length_map ..
  rw [← Search.after_eq_exhaust hlen.ge, ← take_reachableStatesFrom, List.take_length]

/-- The states are given with the words of their entries. -/
theorem reachableFrom_eq_yielded (S : Machine σ κ) (o : σ) :
    S.reachableFrom o = ((Search.start o).exhaust S).2.yielded := by
  let t := ((Search.start o).exhaust S).2
  have hlist : S.reachableFrom o =
      (S.reachableStatesFrom o).filterMap fun p => (t.wordTo? p).map fun w => ⟨p, w⟩ := by
    rw [reachableStatesFrom, List.filterMap_map]
    rfl
  rw [hlist, reachableStatesFrom_eq_map, List.filterMap_map]
  refine (List.filterMap_congr fun e he => ?_).trans List.filterMap_some
  rw [Function.comp_apply, Search.wordTo?_of_mem_yielded he]
  rfl

/-- Once all states have been visited, the found states are the reachable ones. -/
theorem count_exhaust (S : Machine σ κ) (o : σ) :
    ((Search.start o).exhaust S).2.count = (S.reachableStatesFrom o).length := by
  rw [← Search.length_entries, ← Search.yielded_append_waiting, Search.waiting_exhaust,
    List.append_nil, reachableStatesFrom_eq_map, List.length_map]

/-- Visiting the states one by one enumerates the reachable states, each once and in the order of
their first words; when a state has been visited its word is known. -/
theorem reachable_enumerated (S : Machine σ κ) (o : σ) :
    (∀ n, (((Search.start o).after S n).next? S).map (fun v => v.1.state) =
      (S.reachableStatesFrom o)[n]?) ∧
      (S.reachableStatesFrom o).Nodup ∧
      (∀ q, q ∈ S.reachableStatesFrom o ↔ ∃ w, S.runFrom o w = some q) ∧
      (∀ n, (S.reachableStatesFrom o).length ≤ n →
        ((Search.start o).after S n).count = (S.reachableStatesFrom o).length) ∧
      (∀ n, ∀ q ∈ (S.reachableStatesFrom o).take n, ∃ w,
        ((Search.start o).after S n).wordTo? q = some w ∧
          S.alphabet.Least (fun v => S.runFrom o v = some q) w) ∧
      (S.reachableFrom o).map Representative.state = S.reachableStatesFrom o ∧
      (∀ e ∈ S.reachableFrom o, S.alphabet.Least (fun v => S.runFrom o v = some e.state) e.word) ∧
      (S.reachableFrom o).Pairwise fun d e => S.alphabet.Shortlex d.word e.word := by
  have hdone := explored_exhaust S o
  have hlen : (S.reachableStatesFrom o).length = ((Search.start o).exhaust S).1.length :=
    List.length_map ..
  rw [reachableFrom_eq_yielded]
  refine ⟨fun n => ?_, ?_, fun q => ?_, fun n hn => ?_, fun n q hq => ?_, ?_, fun e he => ?_, ?_⟩
  · rw [reachableStatesFrom, List.getElem?_map, ← Search.next?_after, Option.map_map]
    rfl
  · rw [reachableStatesFrom_eq_map]
    simpa using hdone.nodup
  · rw [reachableStatesFrom_eq_map]
    exact hdone.mem_states_iff
  · rw [Search.after_eq_exhaust (hlen ▸ hn), count_exhaust]
  · rw [take_reachableStatesFrom] at hq
    obtain ⟨e, he, rfl⟩ := List.mem_map.1 hq
    have hn := (Search.explores_start S o).after n
    exact ⟨e.word, Search.wordTo?_of_mem_yielded he, hn.least (List.mem_append_left _ he)⟩
  · exact (reachableStatesFrom_eq_map S o).symm
  · exact hdone.least (List.mem_append_left _ he)
  · simpa using hdone.sorted

end ShortestWitness.Machine
