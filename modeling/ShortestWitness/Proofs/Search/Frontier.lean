import ShortestWitness.Proofs.Search.Moments

/-!
# A search with a queue

A search can keep two containers: for each found state the state and the symbol from which it was found,
and a queue of the found states that wait. A visit takes the first state off the queue and looks at its
moves symbol by symbol; a state that is new is recorded and put at the end of the queue. Nothing ties the
containers together, and nothing says that parents lead back to the start. A frontier that shows a search
(`Frontier.Shows`) goes on showing it visit by visit (`Frontier.Shows.visits`), so it has the parents of
the search, its queue is what waits, and following parents comes to an end at the word that the search
gives (`Frontier.Shows.accessWord?_eq`). What is exact about a search between two visits is put together
in `Search.after_exact`.
-/

namespace ShortestWitness

variable {σ κ : Type} [Comparable σ] {S : Machine σ κ}

/-- How each found state was found, and the found states that wait to be visited. -/
structure Frontier (σ : Type) [Comparable σ] where
  parents : FiniteMap σ (Option (σ × Char))
  queue : List σ

namespace Frontier

/-- Only `p` has been found, and it waits. -/
def start (p : σ) : Frontier σ := ⟨(∅ : FiniteMap σ _).insert p none, [p]⟩

/-- Looks at the move from a state on a symbol: a state that is new is recorded and waits. -/
def discover (S : Machine σ κ) (q : σ) (f : Frontier σ) (c : Char) : Frontier σ :=
  match S.step q c with
  | none => f
  | some p => if p ∈ f.parents then f else ⟨f.parents.insert p (some (q, c)), f.queue ++ [p]⟩

/-- Visits the first state that waits and looks at its moves in the order of the alphabet. -/
def next? (S : Machine σ κ) (f : Frontier σ) : Option (σ × Frontier σ) :=
  match f.queue with
  | [] => none
  | q :: queue => some (q, S.alphabet.symbols.foldl (discover S q) ⟨f.parents, queue⟩)

/-- The states of the next `n` visits, or of as many as there are, and the frontier after them. -/
def visits (S : Machine σ κ) (f : Frontier σ) : Nat → List σ × Frontier σ
  | 0 => ([], f)
  | n + 1 =>
    match f.next? S with
    | none => ([], f)
    | some (q, g) =>
      let later := g.visits S n
      (q :: later.1, later.2)

def seen (f : Frontier σ) : Nat := f.parents.size

def hasSeen (f : Frontier σ) (p : σ) : Bool := p ∈ f.parents

/-- Follows parents and puts the symbols that are passed before a word. There is no answer if a state is
met that has not been found, or if more than `n` parents are passed. -/
def retrace (f : Frontier σ) (n : Nat) (p : σ) (w : Word) : Option Word :=
  match f.parents[p]? with
  | none => none
  | some none => some w
  | some (some (q, c)) =>
    match n with
    | 0 => none
    | n + 1 => f.retrace n q (c :: w)

/-- The word that parents spell, if there are no more of them than states. -/
def accessWord? (f : Frontier σ) (p : σ) : Option Word := f.retrace f.seen p []

/-- The frontier has the states of the search with the same parents, and its queue is what the search
found from place `k` on. -/
structure Shows (f : Frontier σ) (s : Search σ) (k : Nat) : Prop where
  parents_eq : ∀ p, f.parents[p]? = s.parent? p
  queue_eq : f.queue = (s.found.toList.drop k).map Found.state
  seen_eq : f.seen = s.count

end Frontier

/-! ## Parents in a search -/

namespace Search

variable {s : Search σ} {p q r : σ} {c : Char}

/-- The states that have been found are those of which it is known how. -/
theorem isSome_parent?_iff : (s.parent? p).isSome ↔ p ∈ s.numbers := by
  rw [← Std.TreeMap.isSome_getElem?_iff_mem, parent?]
  cases hi : s.numbers[p]? with
  | none => simp
  | some i =>
    obtain ⟨e, he, -⟩ := Option.map_eq_some_iff.1 (s.numbers_eq.1 hi)
    simp [he]

theorem parent?_eq_none_iff : s.parent? p = none ↔ p ∉ s.numbers := by
  rw [← isSome_parent?_iff, Option.not_isSome_iff_eq_none]

theorem parent?_start_self (p : σ) : (start p).parent? p = some none :=
  parent?_of_none (s := start p) (i := 0) (e := ⟨p, none⟩) rfl rfl

theorem parent?_start_of_ne (h : p ≠ q) : (start p).parent? q = none :=
  parent?_eq_none_iff.2 (by simp [start, Std.TreeMap.mem_insert, h])

/-- A state that is recorded has the visited state for its parent. -/
theorem parent?_discover_self (h : s.Pending) (hp : p ∉ s.numbers) :
    (s.discover h c p).parent? p = some (some (s.found[s.visited].state, c)) := by
  have hfound := found_discover_of_not_mem (c := c) h hp
  have he : (s.discover h c p).found[s.found.size]? = some ⟨p, some (s.visited, c)⟩ := by
    rw [hfound, Array.getElem?_push_size]
  have hd := (found_discover_getElem? (c := c) (p := p) h h).trans (Array.getElem?_eq_getElem h)
  exact parent?_of_some he rfl hd

/-- The other states keep their parents. -/
theorem parent?_discover_of_ne (h : s.Pending) (hne : p ≠ r) :
    (s.discover h c p).parent? r = s.parent? r := by
  have hsame : ∀ {i}, i < s.found.size → (s.discover h c p).found[i]? = s.found[i]? := fun hi =>
    found_discover_getElem? h hi
  cases hr : s.numbers[r]? with
  | none =>
    have hmem := FiniteMap.getElem?_eq_none_iff.1 hr
    rw [parent?_eq_none_iff.2 hmem, parent?_eq_none_iff]
    by_cases hp : p ∈ s.numbers
    · rwa [discover_of_mem h hp]
    · rw [discover, dif_neg hp, Std.TreeMap.mem_insert]
      simp [hne, hmem]
  | some i =>
    obtain ⟨e, he, rfl⟩ := Option.map_eq_some_iff.1 (s.numbers_eq.1 hr)
    have hi := (Array.getElem?_eq_some_iff.1 he).1
    have he' := (hsame hi).trans he
    cases hs : e.source with
    | none => rw [parent?_of_none he hs, parent?_of_none he' hs]
    | some m =>
      have hj := (s.source_lt he hs).trans hi
      have hd := Array.getElem?_eq_getElem hj
      rw [parent?_of_some he hs hd, parent?_of_some he' hs ((hsame hj).trans hd)]

end Search

namespace Frontier

variable {f : Frontier σ} {s : Search σ} {p q : σ} {c : Char} {k : Nat}

theorem shows_start (p : σ) : (start p).Shows (Search.start p) 0 where
  parents_eq q := by
    by_cases h : p = q
    · subst h
      rw [Search.parent?_start_self]
      exact Std.TreeMap.getElem?_insert_self
    · rw [Search.parent?_start_of_ne h]
      exact (FiniteMap.getElem?_insert_of_ne h).trans Std.TreeMap.getElem?_emptyc
  queue_eq := rfl
  seen_eq := rfl

namespace Shows

theorem mem_parents_iff (h : f.Shows s k) : p ∈ f.parents ↔ p ∈ s.numbers := by
  rw [← Std.TreeMap.isSome_getElem?_iff_mem, h.parents_eq, Search.isSome_parent?_iff]

/-- One state that a move leads to is recorded in the frontier just if it is in the search. -/
theorem discover (h : f.Shows s k) (hs : s.Pending) (hk : k ≤ s.found.size)
    (hq : s.found[s.visited]?.map Found.state = some q) (hstep : S.step q c = some p) :
    (f.discover S q c).Shows (s.discover hs c p) k := by
  rw [Array.getElem?_eq_getElem hs, Option.map_some, Option.some.injEq] at hq
  unfold Frontier.discover
  rw [hstep]
  dsimp only
  by_cases hp : p ∈ s.numbers
  · rw [if_pos (h.mem_parents_iff.2 hp), Search.discover_of_mem hs hp]
    exact h
  have hnew := mt h.mem_parents_iff.1 hp
  have hfound := Search.found_discover_of_not_mem (c := c) hs hp
  rw [if_neg hnew]
  refine ⟨fun r => ?_, ?_, ?_⟩
  · by_cases hr : p = r
    · subst hr
      rw [Search.parent?_discover_self hs hp, hq, Std.TreeMap.getElem?_insert_self]
    · rw [Search.parent?_discover_of_ne hs hr, ← h.parents_eq, FiniteMap.getElem?_insert_of_ne hr]
  · show f.queue ++ [p] = _
    rw [h.queue_eq, hfound, Array.toList_push, List.drop_append_of_le_length hk, List.map_append]
    rfl
  · show (f.parents.insert p (some (q, c))).size = _
    rw [Std.TreeMap.size_insert, if_neg (mt Std.TreeMap.mem_iff_contains.2 hnew), Search.count, hfound,
      Array.size_push]
    exact congrArg (· + 1) h.seen_eq

/-- Looking at the moves one after the other records what the search finds. -/
theorem foldl_discover (h : f.Shows s k) (hs : s.Pending) (hk : k ≤ s.found.size)
    (hq : s.found[s.visited]?.map Found.state = some q) (cs : List Char) :
    (cs.foldl (Frontier.discover S q) f).Shows
      (s.discoverAll hs (cs.filterMap fun c => (S.step q c).map (c, ·))) k := by
  induction cs generalizing f s with
  | nil => exact h
  | cons c cs ih =>
    rw [List.foldl_cons]
    cases hstep : S.step q c with
    | none =>
      have hsame : f.discover S q c = f := by rw [Frontier.discover, hstep]
      rw [hsame, List.filterMap_cons_none (by rw [hstep]; rfl)]
      exact ih h hs hk hq
    | some p =>
      have hsize : s.found.size ≤ (s.discover hs c p).found.size := by
        by_cases hp : p ∈ s.numbers
        · rw [Search.discover_of_mem hs hp]
        · rw [Search.found_discover_of_not_mem hs hp, Array.size_push]
          exact Nat.le_succ _
      rw [List.filterMap_cons_some (by rw [hstep]; rfl), Search.discoverAll]
      refine ih (h.discover hs hk hq hstep) _ (hk.trans hsize) ?_
      rw [Search.visited_discover, Search.found_discover_getElem? hs hs, hq]

/-- One visit: both come to an end, or both visit the same state and go on alike. -/
theorem next? (S : Machine σ κ) (h : f.Shows s s.visited) :
    f.next? S = none ∧ s.next? S = none ∨ ∃ v t g, s.next? S = some (v, t) ∧
      f.next? S = some (v.state, g) ∧ g.Shows t t.visited := by
  by_cases hs : s.Pending
  · have hqueue : f.queue =
        s.found[s.visited].state :: (s.found.toList.drop (s.visited + 1)).map Found.state := by
      rw [h.queue_eq, List.drop_eq_getElem_cons hs]
      rfl
    -- while the moves are looked at, the queue has lost the state that the search has yet to pass
    have hpopped : Shows ⟨f.parents, (s.found.toList.drop (s.visited + 1)).map Found.state⟩ s
        (s.visited + 1) := ⟨h.parents_eq, rfl, h.seen_eq⟩
    have hshows := hpopped.foldl_discover (S := S) hs hs
      (by rw [Array.getElem?_eq_getElem hs]; rfl) S.alphabet.symbols
    have hnext := congrArg (fun queue => Frontier.next? S ⟨f.parents, queue⟩) hqueue
    exact .inr ⟨_, _, _, Search.next?_eq_some_iff.2 ⟨hs, rfl, rfl⟩, hnext, hshows.parents_eq,
      hshows.queue_eq, hshows.seen_eq⟩
  · have hempty : f.queue = [] := by
      rw [h.queue_eq, List.drop_eq_nil_of_le (Nat.not_lt.1 hs)]
      rfl
    refine .inl ⟨?_, ?_⟩
    · rw [Frontier.next?, hempty]
    · rw [Search.next?, dif_neg hs]

/-- Any number of visits: the same states are visited, and the frontier goes on showing the search. -/
theorem visits (S : Machine σ κ) (h : f.Shows s s.visited) (n : Nat) :
    (f.visits S n).1 = s.nextStates S n ∧
      (f.visits S n).2.Shows (s.after S n) (s.after S n).visited := by
  induction n generalizing f s with
  | zero => exact ⟨rfl, h⟩
  | succ n ih =>
    rw [Frontier.visits]
    rcases h.next? S with ⟨hf, hs⟩ | ⟨v, t, g, hs, hf, hg⟩
    · rw [hf, Search.nextStates_of_none hs, Search.after_of_none hs]
      exact ⟨rfl, h⟩
    · rw [hf, Search.nextStates_of_some hs, Search.after_of_some hs]
      exact ⟨congrArg (v.state :: ·) (ih hg).1, (ih hg).2⟩

/-- Parents lead to states that were found before, so as many steps as the place of a state are enough. -/
theorem retrace_eq (h : f.Shows s k) {i n : Nat} {e : Found σ} (he : s.found[i]? = some e) (hn : i ≤ n)
    (w : Word) : f.retrace n e.state w = s.trace i w := by
  induction i using Nat.strongRecOn generalizing n e w with
  | ind i ih =>
    unfold retrace
    rw [h.parents_eq]
    cases hs : e.source with
    | none => rw [Search.parent?_of_none he hs, Search.trace_of_none he hs]
    | some m =>
      have hj := s.source_lt he hs
      have hd := Array.getElem?_eq_getElem (hj.trans (Array.getElem?_eq_some_iff.1 he).1)
      rw [Search.parent?_of_some he hs hd, Search.trace_of_some he hs]
      cases n with
      | zero => exact absurd hn (by omega)
      | succ n => exact ih m.1 hj hd (by omega) _

/-- Following parents gives the word of the search, and no answer for what has not been found. -/
theorem accessWord?_eq (h : f.Shows s k) (p : σ) : f.accessWord? p = s.wordTo? p := by
  unfold accessWord? Search.wordTo?
  cases hp : s.numbers[p]? with
  | none =>
    have hnone := Search.parent?_eq_none_iff.2 (FiniteMap.getElem?_eq_none_iff.1 hp)
    rw [retrace, h.parents_eq, hnone]
    rfl
  | some i =>
    obtain ⟨e, he, rfl⟩ := Option.map_eq_some_iff.1 (s.numbers_eq.1 hp)
    have hi := (Array.getElem?_eq_some_iff.1 he).1
    rw [Option.bind_some, h.seen_eq]
    exact h.retrace_eq he hi.le []

theorem hasSeen_eq (h : f.Shows s k) (p : σ) : f.hasSeen p = s.hasFound p :=
  decide_eq_decide.2 h.mem_parents_iff

end Shows

end Frontier

namespace Search

theorem map_state_entries (s : Search σ) :
    s.entries.map Representative.state = s.found.toList.map Found.state := by
  refine List.ext_getElem? fun i => ?_
  rw [List.getElem?_map, List.getElem?_map, getElem?_entries, Option.map_map, Array.getElem?_toList]
  rfl

/-- The queue of a frontier is what waits in the search that it shows. -/
theorem queue_eq_waiting {f : Frontier σ} {s : Search σ} (h : f.Shows s s.visited) :
    f.queue = s.waiting.map Representative.state := by
  rw [h.queue_eq, waiting, List.map_drop, List.map_drop, map_state_entries]

/-- After any number of visits the search has found the start and what moves lead to from the states that
have been yielded, counts these states once each, and goes on with those of them that have not been
yielded. It has a word just for the states that it has found, by pointers that lead back to the start. The
word is the first of all words to the state in the whole machine, and no more visits change it. A search
with a queue visits the same states, has the same parents, and gives the same words. -/
theorem after_exact (S : Machine σ κ) (o : σ) (n : Nat) :
    let s := (start o).after S n
    let ys := (start o).nextStates S n
    let f := (Frontier.start o).visits S n
    (∀ p, s.hasFound p = true ↔ p = o ∨ ∃ q ∈ ys, ∃ c ∈ S.alphabet, S.step q c = some p) ∧
      s.count = {p | s.hasFound p = true}.ncard ∧
      s.nextStates S s.waiting.length = s.waiting.map Representative.state ∧
      (s.waiting.map Representative.state).Nodup ∧
      (∀ p, p ∈ s.waiting.map Representative.state ↔ s.hasFound p = true ∧ p ∉ ys) ∧
      (∀ p, (s.wordTo? p).isSome = s.hasFound p) ∧
      (∀ p w q, s.Retraces p w q ↔ s.wordTo? p = some w ∧ q = o) ∧
      (∀ p w, s.wordTo? p = some w ↔
        s.hasFound p = true ∧ S.alphabet.Least (fun v => S.runFrom o v = some p) w) ∧
      (∀ p w m, s.wordTo? p = some w ↔
        s.hasFound p = true ∧ ((start o).after S (n + m)).wordTo? p = some w) ∧
      f.1 = ys ∧ (∀ p, f.2.parents[p]? = s.parent? p) ∧
      f.2.queue = s.waiting.map Representative.state ∧ f.2.seen = s.count ∧
      (∀ p, f.2.hasSeen p = s.hasFound p) ∧ ∀ p, f.2.accessWord? p = s.wordTo? p := by
  intro s ys f
  have h : s.Explores S o := (explores_start S o).after n
  have hys : s.yielded.map Representative.state = ys := by
    rw [map_state_yielded_after, ← nextStates_eq, yielded_start]
    rfl
  obtain ⟨hvisits, hshows⟩ := Frontier.Shows.visits S (Frontier.shows_start o) n
  refine ⟨fun p => hys ▸ h.hasFound_iff, count_eq_ncard s, nextStates_length_waiting S s,
    nodup_waiting s, fun p => hys ▸ mem_waiting_iff, isSome_wordTo? s, fun p w q => h.retraces_iff,
    fun p w => h.wordTo?_eq_some_iff_least, fun p w m => ?_, hvisits, hshows.parents_eq,
    queue_eq_waiting hshows, hshows.seen_eq, hshows.hasSeen_eq, hshows.accessWord?_eq⟩
  rw [after_add]
  exact wordTo?_eq_some_iff_after S s m

end Search

end ShortestWitness
