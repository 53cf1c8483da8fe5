import Mathlib.Data.List.Basic
import ShortestWitness.Machine.Search

/-!
# What a search has found

The view of a search that the other proofs use: its `entries` are the found states in their order,
each with the word that its pointers spell. The first of them have been visited (`yielded`), the
others have not (`waiting`). A visit moves one entry from the waiting to the yielded ones and adds
the targets of the moves that are `Fresh` (`exists_of_next?`); `wordTo?` and `hasFound` read the
entries.
-/

namespace ShortestWitness

/-- The entry of the state that a move leads to from the state of an entry. -/
def Representative.extend {σ : Type} (e : Representative σ) (m : Char × σ) : Representative σ :=
  ⟨m.2, e.word ++ [m.1]⟩

/-- Of some moves, `news` are those that lead to a state that is not known and to which no move
before leads. -/
structure Fresh {σ : Type} (known : List σ) (moves news : List (Char × σ)) : Prop where
  sublist : news.Sublist moves
  first : ∀ m ∈ moves, m.2 ∈ known ∨ ∃ n ∈ news, n.2 = m.2 ∧ (n = m ∨ [n, m].Sublist moves)

namespace Fresh

variable {σ : Type} {known : List σ} {m : Char × σ} {moves news : List (Char × σ)}

theorem nil : Fresh known [] [] := ⟨.slnil, fun _ hm => absurd hm List.not_mem_nil⟩

/-- A move to a known state is not new. -/
theorem cons_of_mem (hm : m.2 ∈ known) (h : Fresh known moves news) :
    Fresh known (m :: moves) news where
  sublist := h.sublist.cons m
  first n hn := by
    rcases List.mem_cons.1 hn with rfl | hn
    · exact .inl hm
    · refine (h.first n hn).imp_right fun ⟨k, hk, he, hkn⟩ => ⟨k, hk, he, ?_⟩
      exact hkn.imp_right fun hs => hs.cons m

/-- A move to an unknown state is new, and makes the state known. -/
theorem cons (h : Fresh (known ++ [m.2]) moves news) : Fresh known (m :: moves) (m :: news) where
  sublist := h.sublist.cons_cons m
  first n hn := by
    rcases List.mem_cons.1 hn with rfl | hn
    · exact .inr ⟨n, List.mem_cons_self, rfl, .inl rfl⟩
    · rcases h.first n hn with hk | ⟨k, hk, he, hkn⟩
      · rcases List.mem_append.1 hk with hk | hk
        · exact .inl hk
        · refine .inr ⟨m, List.mem_cons_self, (List.mem_singleton.1 hk).symm, .inr ?_⟩
          exact (List.singleton_sublist.2 hn).cons_cons m
      · refine .inr ⟨k, List.mem_cons_of_mem m hk, he, ?_⟩
        exact hkn.imp_right fun hs => hs.cons m

end Fresh

namespace Search

variable {σ κ : Type} [Comparable σ] {s t : Search σ} {p : σ} {c : Char} {i : Nat}

/-- The word on which the state with a number was found. -/
def wordAt (s : Search σ) (i : Nat) : Word := (s.trace i []).getD []

/-- The found states in their order, with the words on which they were found. -/
def entries (s : Search σ) : List (Representative σ) :=
  s.found.toList.mapIdx fun i e => ⟨e.state, s.wordAt i⟩

/-- The entries of the states that have been visited. -/
def yielded (s : Search σ) : List (Representative σ) := s.entries.take s.visited

/-- The entries of the states that wait to be visited. -/
def waiting (s : Search σ) : List (Representative σ) := s.entries.drop s.visited

/-! ## Following pointers -/

/-- Pointers lead to the start, and the word that is given stands at the end. -/
theorem exists_trace_eq (hi : i < s.found.size) : ∃ u, ∀ w, s.trace i w = some (u ++ w) := by
  induction i using Nat.strongRecOn with
  | ind i ih =>
    have he := Array.getElem?_eq_getElem hi
    cases hs : s.found[i].source with
    | none => exact ⟨[], fun w => trace_of_none he hs⟩
    | some m =>
      have hj : m.1 < i := s.source_lt he hs
      obtain ⟨u, hu⟩ := ih m.1 hj (by omega)
      refine ⟨u ++ [m.2], fun w => ?_⟩
      rw [trace_of_some he hs, hu, List.append_assoc]
      rfl

/-- The word that is given is only appended to. -/
theorem trace_eq_append (hi : i < s.found.size) (w : Word) :
    s.trace i w = some (s.wordAt i ++ w) := by
  obtain ⟨u, hu⟩ := exists_trace_eq hi
  rw [wordAt, hu, hu, Option.getD_some, List.append_nil]

theorem wordAt_of_none {e : Found σ} (he : s.found[i]? = some e) (hs : e.source = none) :
    s.wordAt i = [] := by
  rw [wordAt, trace_of_none he hs, Option.getD_some]

/-- The word of a state goes on from the word of the state that its pointer leads to. -/
theorem wordAt_of_some {e : Found σ} {j : Nat} (he : s.found[i]? = some e)
    (hs : e.source = some (j, c)) : s.wordAt i = s.wordAt j ++ [c] := by
  have hi := (Array.getElem?_eq_some_iff.1 he).1
  have hj := s.source_lt he hs
  rw [wordAt, trace_of_some he hs, trace_eq_append (by omega), Option.getD_some]

/-- States that are found later do not change the words of those found before. -/
theorem wordAt_congr (h : ∀ j ≤ i, t.found[j]? = s.found[j]?) (hi : i < s.found.size) :
    t.wordAt i = s.wordAt i := by
  induction i using Nat.strongRecOn with
  | ind i ih =>
    have he := Array.getElem?_eq_getElem hi
    have he' := (h i (Nat.le_refl i)).trans he
    cases hs : s.found[i].source with
    | none => rw [wordAt_of_none he hs, wordAt_of_none he' hs]
    | some m =>
      have hj : m.1 < i := s.source_lt he hs
      rw [wordAt_of_some he hs, wordAt_of_some he' hs,
        ih m.1 hj (fun k hk => h k (by omega)) (by omega)]

/-! ## Entries -/

theorem length_entries (s : Search σ) : s.entries.length = s.count := by
  simp [entries, count]

theorem getElem?_entries (s : Search σ) (i : Nat) :
    s.entries[i]? = s.found[i]?.map fun e => ⟨e.state, s.wordAt i⟩ := by
  simp [entries]

theorem yielded_append_waiting (s : Search σ) : s.yielded ++ s.waiting = s.entries :=
  List.take_append_drop ..

/-- The number of a state is the place of its entry. -/
theorem numbers_eq_some_iff : s.numbers[p]? = some i ↔ s.entries[i]?.map Representative.state = some p := by
  rw [s.numbers_eq, getElem?_entries, Option.map_map]
  rfl

/-- A state is found once. -/
theorem nodup_entries (s : Search σ) : (s.entries.map Representative.state).Nodup := by
  refine List.pairwise_iff_getElem.2 fun i j hi hj hij h => ?_
  have hp := numbers_eq_some_iff.2 (List.getElem?_map .. ▸ List.getElem?_eq_getElem hi)
  have hq := numbers_eq_some_iff.2 (List.getElem?_map .. ▸ List.getElem?_eq_getElem hj)
  rw [h, hq] at hp
  exact Nat.ne_of_lt hij (Option.some.inj hp).symm

theorem mem_numbers_iff : p ∈ s.numbers ↔ p ∈ s.entries.map Representative.state := by
  rw [← Std.TreeMap.isSome_getElem?_iff_mem, Option.isSome_iff_exists, List.mem_iff_getElem?]
  refine exists_congr fun i => ?_
  rw [numbers_eq_some_iff, List.getElem?_map]

/-- The word to a state is there if the state has been found, and only then. -/
theorem wordTo?_eq_some_iff {w : Word} : s.wordTo? p = some w ↔ ⟨p, w⟩ ∈ s.entries := by
  rw [wordTo?, Option.bind_eq_some_iff, List.mem_iff_getElem?]
  refine exists_congr fun i => ?_
  rw [numbers_eq_some_iff, getElem?_entries]
  cases he : s.found[i]? with
  | none => simp
  | some e =>
    have hi := (Array.getElem?_eq_some_iff.1 he).1
    simp [trace_eq_append hi]

theorem wordTo?_of_mem_yielded {e : Representative σ} (he : e ∈ s.yielded) :
    s.wordTo? e.state = some e.word :=
  wordTo?_eq_some_iff.2 (List.mem_of_mem_take he)

/-! ## What the operations do to the entries -/

@[simp] theorem yielded_start (p : σ) : (start p).yielded = [] := rfl

/-- At the beginning the start waits, with the empty word. -/
@[simp] theorem waiting_start (p : σ) : (start p).waiting = [⟨p, []⟩] := by
  have hw : (start p).wordAt 0 = [] := wordAt_of_none (e := ⟨p, none⟩) rfl rfl
  change [Representative.mk p ((start p).wordAt 0)] = _
  rw [hw]

theorem found_discover_of_not_mem (h : s.Pending) (hp : p ∉ s.numbers) :
    (s.discover h c p).found = s.found.push ⟨p, some (s.visited, c)⟩ := by
  rw [discover, dif_neg hp]

theorem discover_of_mem (h : s.Pending) (hp : p ∈ s.numbers) : s.discover h c p = s := by
  rw [discover, dif_pos hp]

/-- What had been found stays at its place. -/
theorem found_discover_getElem? (h : s.Pending) (hi : i < s.found.size) :
    (s.discover h c p).found[i]? = s.found[i]? := by
  by_cases hp : p ∈ s.numbers
  · rw [discover_of_mem h hp]
  · rw [found_discover_of_not_mem h hp, Array.getElem?_push_lt hi, Array.getElem?_eq_getElem hi]

theorem wordAt_discover (h : s.Pending) (hi : i < s.found.size) :
    (s.discover h c p).wordAt i = s.wordAt i :=
  wordAt_congr (fun _ hj => found_discover_getElem? h (by omega)) hi

/-- A state that had not been found before is added with the word of the visited state and one more
symbol. -/
theorem entries_discover_of_not_mem (h : s.Pending) (hp : p ∉ s.numbers) :
    (s.discover h c p).entries = s.entries ++ [⟨p, s.wordAt s.visited ++ [c]⟩] := by
  have hfound := found_discover_of_not_mem (c := c) h hp
  have hlen : s.entries.length = s.found.size := length_entries s
  refine List.ext_getElem? fun i => ?_
  rcases Nat.lt_trichotomy i s.found.size with hi | rfl | hi
  · rw [List.getElem?_append_left (by omega), getElem?_entries, getElem?_entries,
      found_discover_getElem? h hi, wordAt_discover h hi]
  · have hnew : (s.discover h c p).found[s.found.size]? = some ⟨p, some (s.visited, c)⟩ := by
      rw [hfound, Array.getElem?_push_size]
    rw [List.getElem?_append_right (by omega), getElem?_entries, hnew, hlen, Nat.sub_self,
      wordAt_of_some hnew rfl, wordAt_discover h h]
    rfl
  · have hlen' : (s.discover h c p).entries.length = s.found.size + 1 := by
      rw [length_entries, count, hfound, Array.size_push]
    rw [List.getElem?_eq_none (by omega), List.getElem?_eq_none]
    simp only [List.length_append, List.length_singleton]
    omega

/-- A visit records the targets of the fresh moves, in the order of the moves. -/
theorem exists_entries_discoverAll (h : s.Pending) {e : Representative σ}
    (hw : s.wordAt s.visited = e.word) (moves : List (Char × σ)) :
    ∃ news, Fresh (s.entries.map Representative.state) moves news ∧
      (s.discoverAll h moves).entries = s.entries ++ news.map e.extend := by
  induction moves generalizing s with
  | nil => exact ⟨[], .nil, (List.append_nil _).symm⟩
  | cons m moves ih =>
    by_cases hm : m.2 ∈ s.numbers
    · obtain ⟨news, hf, he⟩ := ih h hw
      refine ⟨news, hf.cons_of_mem (mem_numbers_iff.1 hm), ?_⟩
      rw [← he]
      simp only [discoverAll, discover_of_mem h hm]
    · have hd := entries_discover_of_not_mem (c := m.1) h hm
      have hw' : (s.discover h m.1 m.2).wordAt (s.discover h m.1 m.2).visited = e.word := by
        rw [visited_discover, wordAt_discover h h, hw]
      obtain ⟨news, hf, he⟩ := ih (pending_discover h m.1 m.2) hw'
      rw [hd, List.map_append] at hf
      refine ⟨m :: news, hf.cons, ?_⟩
      rw [discoverAll, he, hd, hw, List.append_assoc]
      rfl

theorem entries_congr (h : t.found = s.found) : t.entries = s.entries := by
  refine List.ext_getElem? fun i => ?_
  rw [getElem?_entries, getElem?_entries, h]
  cases he : s.found[i]? with
  | none => rfl
  | some e => rw [wordAt_congr (fun _ _ => h ▸ rfl) (Array.getElem?_eq_some_iff.1 he).1]

/-- There is no next visit just if nothing waits. -/
theorem next?_eq_none_iff {S : Machine σ κ} : s.next? S = none ↔ s.waiting = [] := by
  rw [waiting, List.drop_eq_nil_iff, length_entries, count, next?]
  split <;> rename_i h
  · simpa using h
  · simpa using h

/-- A visit yields the first waiting entry and lets the targets of its fresh moves wait. -/
theorem exists_of_next? {S : Machine σ κ} {v : Found σ} (hn : s.next? S = some (v, t)) :
    ∃ e ws news, e.state = v.state ∧ s.waiting = e :: ws ∧ t.yielded = s.yielded ++ [e] ∧
      Fresh (s.entries.map Representative.state) (S.moves e.state) news ∧
      t.waiting = ws ++ news.map e.extend := by
  obtain ⟨h, rfl, ht⟩ := next?_eq_some_iff.1 hn
  let e : Representative σ := ⟨s.found[s.visited].state, s.wordAt s.visited⟩
  have hlt : s.visited < s.entries.length := length_entries s ▸ h
  have he : s.entries[s.visited] = e := by simp [entries, e]
  obtain ⟨news, hf, hd⟩ := exists_entries_discoverAll h (e := e) rfl (S.moves e.state)
  have hentries : t.entries = s.entries ++ news.map e.extend :=
    (entries_congr (by rw [ht])).trans hd
  have hvisited : t.visited = s.visited + 1 := by rw [ht]
  refine ⟨e, s.entries.drop (s.visited + 1), news, rfl, ?_, ?_, hf, ?_⟩
  · rw [waiting, List.drop_eq_getElem_cons hlt, he]
  · rw [yielded, hentries, hvisited, List.take_append_of_le_length hlt,
      List.take_succ_eq_append_getElem hlt, he]
    rfl
  · rw [waiting, hentries, hvisited, List.drop_append_of_le_length hlt]

end Search

end ShortestWitness
