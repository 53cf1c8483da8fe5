import ShortestWitness.Comparable
import ShortestWitness.Machine.Basic

/-!
# Breadth-first search

A search starts at one state and visits states in the order in which it found them. Visiting a
state finds the states that its moves lead to, in the order of the alphabet; a state is found once
only. No words are kept: a found state points back to the state whose visit found it, and
`wordTo?` follows the pointers to the start. A search comes to an end because a machine moves to
finitely many states: `remaining` bounds the visits to come and falls with every visit.
-/

namespace ShortestWitness

/-- A state and how it was found: by the visit of the found state with a number and on a symbol, unless the
search started there. -/
structure Found (σ : Type) where
  state : σ
  source : Option (Nat × Char)
deriving DecidableEq

/-- A search that has found some states, in this order, and visited the first few of them. The number of a
found state is its place, and pointers lead to states that were found before. -/
structure Search (σ : Type) [Comparable σ] where
  found : Array (Found σ)
  visited : Nat
  numbers : FiniteMap σ Nat
  numbers_eq : ∀ {p : σ} {i : Nat}, numbers[p]? = some i ↔ found[i]?.map Found.state = some p
  source_lt : ∀ {i j : Nat} {c : Char} {e : Found σ}, found[i]? = some e → e.source = some (j, c) → j < i

namespace Search

variable {σ κ : Type} [Comparable σ]

/-- The search that has found only `p`. -/
def start (p : σ) : Search σ where
  found := #[⟨p, none⟩]
  visited := 0
  numbers := (∅ : FiniteMap σ Nat).insert p 0
  numbers_eq := by
    intro q i
    by_cases h : p = q
    · subst h
      cases i <;> simp
    · rw [FiniteMap.getElem?_insert_of_ne h]
      cases i <;> simp [h]
  source_lt h hs := by
    rename_i i _ _ _
    cases i <;> simp at h
    simp [← h] at hs

/-- The search has a state to visit. -/
abbrev Pending (s : Search σ) : Prop := s.visited < s.found.size

/-- Records a state that a move leads to from the visited state, unless it had been found before. -/
def discover (s : Search σ) (h : s.Pending) (c : Char) (p : σ) : Search σ :=
  if hp : p ∈ s.numbers then s
  else
    { found := s.found.push ⟨p, some (s.visited, c)⟩
      visited := s.visited
      numbers := s.numbers.insert p s.found.size
      numbers_eq := by
        intro q i
        rw [Array.getElem?_push]
        by_cases hq : p = q
        · subst hq
          rw [Std.TreeMap.getElem?_insert_self]
          split <;> rename_i hi
          · simp [hi]
          · rw [← s.numbers_eq, FiniteMap.getElem?_eq_none_iff.2 hp]
            simp [Ne.symm hi]
        · rw [FiniteMap.getElem?_insert_of_ne hq, s.numbers_eq]
          split <;> rename_i hi
          · simp [hi, hq]
          · rfl
      source_lt := by
        intro i j d e he hs
        rw [Array.getElem?_push] at he
        split at he <;> rename_i hi
        · cases he
          cases hs
          exact hi ▸ h
        · exact s.source_lt he hs }

theorem pending_discover {s : Search σ} (h : s.Pending) (c : Char) (p : σ) :
    (s.discover h c p).Pending := by
  unfold discover
  split
  · exact h
  · exact Nat.lt_of_lt_of_le h (by simp)

/-- Records the states that moves lead to from the visited state. -/
def discoverAll (s : Search σ) (h : s.Pending) : List (Char × σ) → Search σ
  | [] => s
  | (c, p) :: moves => (s.discover h c p).discoverAll (pending_discover h c p) moves

/-- Visits the next state; there is none once all found states have been visited. -/
def next? (S : Machine σ κ) (s : Search σ) : Option (Found σ × Search σ) :=
  if h : s.Pending then
    let e := s.found[s.visited]
    let t := s.discoverAll h (S.moves e.state)
    some (e, { t with visited := t.visited + 1 })
  else none

def count (s : Search σ) : Nat := s.found.size

def hasFound (s : Search σ) (p : σ) : Bool := p ∈ s.numbers

/-- Follows the pointers from a found state back to the start and puts the symbols of the moves
before a word. -/
def trace (s : Search σ) (i : Nat) (w : Word) : Option Word :=
  match _he : s.found[i]? with
  | none => none
  | some e =>
    match _hs : e.source with
    | none => some w
    | some (j, c) => s.trace j (c :: w)
termination_by i
decreasing_by exact s.source_lt _he _hs

/-- At the start the word is complete. -/
theorem trace_of_none {s : Search σ} {i : Nat} {e : Found σ} {w : Word}
    (he : s.found[i]? = some e) (hs : e.source = none) : s.trace i w = some w := by
  rw [trace]
  split <;> rename_i he'
  · exact absurd (he.symm.trans he') (by simp)
  · obtain rfl := Option.some.inj (he.symm.trans he')
    split <;> rename_i hs'
    · rfl
    · exact absurd (hs.symm.trans hs') (by simp)

/-- Following one pointer puts one symbol before the word. -/
theorem trace_of_some {s : Search σ} {i j : Nat} {c : Char} {e : Found σ} {w : Word}
    (he : s.found[i]? = some e) (hs : e.source = some (j, c)) :
    s.trace i w = s.trace j (c :: w) := by
  rw [trace]
  split <;> rename_i he'
  · exact absurd (he.symm.trans he') (by simp)
  · obtain rfl := Option.some.inj (he.symm.trans he')
    split <;> rename_i hs'
    · exact absurd (hs.symm.trans hs') (by simp)
    · cases hs.symm.trans hs'
      rfl

/-- The word on which a found state was found. -/
def wordTo? (s : Search σ) (p : σ) : Option Word := s.numbers[p]?.bind fun i => s.trace i []

/-! ## The end of a search -/

/-- A list of all states that moves lead to. -/
noncomputable def targets (S : Machine σ κ) : List σ := S.finite.choose

omit [Comparable σ] in
theorem mem_targets {S : Machine σ κ} {p q : σ} {c : Char} (h : S.step p c = some q) :
    q ∈ targets S :=
  S.finite.choose_spec h

/-- The found states not yet visited and the targets not yet found, counted together. -/
noncomputable def remaining (S : Machine σ κ) (s : Search σ) : Nat :=
  s.found.size - s.visited + (targets S).countP fun p => p ∉ s.numbers

/-- A target that is found is no longer counted among those not yet found. -/
theorem countP_not_mem_insert_lt {l : List σ} {numbers : FiniteMap σ Nat} {p : σ} {n : Nat}
    (hp : p ∈ l) (hk : p ∉ numbers) :
    (l.countP fun q => q ∉ numbers.insert p n) < l.countP fun q => q ∉ numbers := by
  induction l with
  | nil => exact absurd hp (by simp)
  | cons q l ih =>
    have hle : (l.countP fun q => q ∉ numbers.insert p n) ≤ l.countP fun q => q ∉ numbers :=
      List.countP_mono_left fun r _ hr => by
        simp only [Std.TreeMap.mem_insert, not_or, decide_eq_true_eq] at hr ⊢
        exact hr.2
    rw [List.countP_cons, List.countP_cons]
    by_cases h : p = q
    · subst h
      rw [if_neg (by simp), if_pos (by simpa using hk)]
      omega
    · have := ih ((List.mem_cons.1 hp).resolve_left h)
      by_cases hq : q ∈ numbers
      · rw [if_neg (by simp [hq]), if_neg (by simpa using hq)]
        exact this
      · rw [if_pos (by simp [hq, h]), if_pos (by simpa using hq)]
        omega

theorem visited_discover (s : Search σ) (h : s.Pending) (c : Char) (p : σ) :
    (s.discover h c p).visited = s.visited := by
  unfold discover; split <;> rfl

theorem visited_discoverAll (s : Search σ) (h : s.Pending) (moves : List (Char × σ)) :
    (s.discoverAll h moves).visited = s.visited := by
  induction moves generalizing s with
  | nil => rfl
  | cons m moves ih => exact (ih _ _).trans (visited_discover ..)

/-- A state that is found was among the targets not yet found. -/
theorem remaining_discover_le {S : Machine σ κ} {s : Search σ} (h : s.Pending) {c : Char} {p : σ}
    (hp : p ∈ targets S) : remaining S (s.discover h c p) ≤ remaining S s := by
  unfold discover
  split
  · exact Nat.le_refl _
  · rename_i hk
    have := countP_not_mem_insert_lt (n := s.found.size) hp hk
    simp only [remaining, Array.size_push]
    omega

/-- Looking at moves does not put off the end. -/
theorem remaining_discoverAll_le {S : Machine σ κ} {s : Search σ} (h : s.Pending)
    {moves : List (Char × σ)} (hm : ∀ m ∈ moves, m.2 ∈ targets S) :
    remaining S (s.discoverAll h moves) ≤ remaining S s := by
  induction moves generalizing s with
  | nil => exact Nat.le_refl _
  | cons m moves ih =>
    exact Nat.le_trans (ih _ fun m hm' => hm m (List.mem_cons_of_mem _ hm'))
      (remaining_discover_le h (hm m List.mem_cons_self))

theorem pending_discoverAll {s : Search σ} (h : s.Pending) (moves : List (Char × σ)) :
    (s.discoverAll h moves).Pending := by
  induction moves generalizing s with
  | nil => exact h
  | cons m moves ih => exact ih _

/-- A visit yields the next waiting state and records what its moves lead to. -/
theorem next?_eq_some_iff {S : Machine σ κ} {s t : Search σ} {e : Found σ} :
    s.next? S = some (e, t) ↔ ∃ h : s.Pending, s.found[s.visited] = e ∧
      t = { s.discoverAll h (S.moves e.state) with visited := s.visited + 1 } := by
  unfold next?
  split <;> rename_i h
  · simp only [visited_discoverAll, Option.some.injEq, Prod.mk.injEq, h, exists_true_left]
    constructor
    · rintro ⟨rfl, rfl⟩
      exact ⟨rfl, rfl⟩
    · rintro ⟨rfl, rfl⟩
      exact ⟨rfl, rfl⟩
  · simp [h]

/-- Every visit brings the end nearer. -/
theorem remaining_lt_of_next? {S : Machine σ κ} {s t : Search σ} {e : Found σ}
    (hn : s.next? S = some (e, t)) : remaining S t < remaining S s := by
  obtain ⟨h, rfl, rfl⟩ := next?_eq_some_iff.1 hn
  have hmem : ∀ m ∈ S.moves s.found[s.visited].state, m.2 ∈ targets S := fun m hm =>
    mem_targets (Machine.mem_moves.1 hm)
  have hle := remaining_discoverAll_le h hmem
  have hlt := pending_discoverAll h (S.moves s.found[s.visited].state)
  simp only [Pending, remaining, visited_discoverAll] at hle hlt ⊢
  omega

/-- Visits states to the end. The visits to come are listed, with the search after the last. -/
def exhaust (S : Machine σ κ) (s : Search σ) : List (Found σ) × Search σ :=
  match _h : s.next? S with
  | none => ([], s)
  | some (e, t) =>
    let later := exhaust S t
    (e :: later.1, later.2)
termination_by remaining S s
decreasing_by exact remaining_lt_of_next? _h

/-- The first visit to come that satisfies `P`, with the search after it; no state after it is
visited. -/
def first? (S : Machine σ κ) (P : σ → Bool) (s : Search σ) : Option (Found σ × Search σ) :=
  match _h : s.next? S with
  | none => none
  | some (e, t) => if P e.state then some (e, t) else first? S P t
termination_by remaining S s
decreasing_by exact remaining_lt_of_next? _h

end Search

/-- A state and the word that a search went to it on. -/
structure Representative (σ : Type) where
  state : σ
  word : Word
deriving DecidableEq

namespace Machine

variable {σ κ : Type} [Comparable σ]

/-- The states that can be reached from `p`, in the order in which they are visited. -/
def reachableStatesFrom (S : Machine σ κ) (p : σ) : List σ :=
  ((Search.start p).exhaust S).1.map Found.state

/-- The same states, each with the word on which it was found. -/
def reachableFrom (S : Machine σ κ) (p : σ) : List (Representative σ) :=
  let (visits, s) := (Search.start p).exhaust S
  visits.filterMap fun e => (s.wordTo? e.state).map fun w => ⟨e.state, w⟩

/-- The word on which a search from `p` first visits a true state. -/
def shortestWordFrom (S : Machine σ Bool) (p : σ) : Option Word :=
  ((Search.start p).first? S fun q => S.color q = some true).bind fun (e, s) => s.wordTo? e.state

/-- The word on which a search from the initial state first visits a true state. -/
def shortestWord (S : Machine σ Bool) : Option Word := S.shortestWordFrom S.initial

end Machine

end ShortestWitness
