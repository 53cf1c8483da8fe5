import Mathlib.Data.List.Nodup
import ShortestWitness.Proofs.Automaton.Parts
import ShortestWitness.Proofs.Word.Order

/-!
# Automata as flat sequences

A layout has all moves of an automaton in one table with a row of entries for each state, its accepting
marks in one sequence, and its names in a table that is looked up from both sides. Nothing in its type
says that the sequences fit together (`Layout.Valid`). Where they do, each address that a step computes is
an address of the table (`Layout.Valid.lt_of_address?`), numbers and names determine each other
(`Layout.Valid.named?_eq_some_iff`), and the moves are listed in order (`Layout.Valid.pairwise_edges`). In
the layout of an automaton they do, and the two answer alike (`valid_layout`, `answers_layout`).
-/

namespace ShortestWitness

/-- The parts of an automaton as flat sequences: the symbols in their order, a mark for each state, the
numbers and the names of the states, and the targets, state by state and symbol by symbol. -/
@[ext]
structure Layout where
  symbols : List Char
  initial : Nat
  accepting : List Bool
  names : List (Nat × String)
  table : List (Option Nat)
deriving DecidableEq

namespace Layout

def size (L : Layout) : Nat := L.accepting.length

/-- How many entries of the table belong to one state. -/
def width (L : Layout) : Nat := L.symbols.length

/-- Where the table is read for the move from a state on a symbol. It is not read for what is no
state or no symbol. -/
def address? (L : Layout) (p : Nat) (c : Char) : Option Nat :=
  if p < L.size then (L.symbols.idxOf? c).map (p * L.width + ·) else none

def step (L : Layout) (p : Nat) (c : Char) : Option Nat :=
  (L.address? p c).bind fun a => L.table[a]?.join

def name? (L : Layout) (p : Nat) : Option String := (L.names.find? (·.1 = p)).map Prod.snd

def named? (L : Layout) (name : String) : Option Nat := (L.names.find? (·.2 = name)).map Prod.fst

/-- The state in which the run on a word ends, if there is one. -/
def run (L : Layout) (w : Word) : Option Nat := w.foldlM L.step L.initial

/-- All moves as they are read off the table, by source and then in the order of the symbols. -/
def edges (L : Layout) : List Edge :=
  (List.range L.size).flatMap fun p =>
    L.symbols.filterMap fun c => (L.step p c).map fun q => ⟨p, c, q⟩

/-- The source of the first edge comes before that of the second one, or it is the same state and the
symbol comes before. -/
def EdgeBefore (L : Layout) (e f : Edge) : Prop :=
  e.source < f.source ∨ e.source = f.source ∧ L.symbols.idxOf e.symbol < L.symbols.idxOf f.symbol

/-- The sequences fit together: the table has a row for each state and in it an entry for each symbol,
moves lead to states, and each state has one name, which belongs to no other. -/
structure Valid (L : Layout) : Prop where
  nodup : L.symbols.Nodup
  initial_lt : L.initial < L.size
  length_table : L.table.length = L.size * L.width
  target_lt : ∀ q, some q ∈ L.table → q < L.size
  numbers : L.names.map Prod.fst = List.range L.size
  nodup_names : (L.names.map Prod.snd).Nodup

/-- The layout and the automaton answer alike. -/
structure Answers (L : Layout) (M : Automaton) : Prop where
  symbols_eq : L.symbols = M.alphabet.symbols
  size_eq : L.size = M.size
  initial_eq : L.initial = M.initial
  step_eq : ∀ p c, L.step p c = M.step p c
  name?_eq : ∀ p, L.name? p = M.name? p
  named?_eq : ∀ name, L.named? name = M.named? name
  color_eq : ∀ p, L.accepting[p]? = M.machine.color p
  run_eq : ∀ w, L.run w = M.machine.run w
  edges_eq : L.edges = M.edges

/-- An address in a row is an address in the table. -/
theorem address_lt {n k p i : Nat} (hp : p < n) (hi : i < k) : p * k + i < n * k := by
  have hrow : (p + 1) * k ≤ n * k := Nat.mul_le_mul_right k hp
  rw [Nat.succ_mul] at hrow
  omega

/-- Only one member of a list has a key, if keys do not repeat. -/
theorem find?_eq_some_iff_of_nodup {α κ : Type} [DecidableEq κ] {key : α → κ} {l : List α} {a : α}
    {k : κ} (h : (l.map key).Nodup) : l.find? (key · = k) = some a ↔ a ∈ l ∧ key a = k := by
  constructor
  · intro hf
    exact ⟨List.mem_of_find?_eq_some hf, of_decide_eq_true (List.find?_some hf :)⟩
  · rintro ⟨ha, rfl⟩
    cases hf : l.find? (key · = key a) with
    | none => exact absurd (decide_eq_true rfl) (List.find?_eq_none.1 hf a ha)
    | some b =>
      have hb := of_decide_eq_true (List.find?_some hf :)
      rw [List.inj_on_of_nodup_map h (List.mem_of_find?_eq_some hf) ha hb]

variable {L : Layout} {p q a : Nat} {c : Char} {w : Word} {name : String}

/-- The table is read for states and symbols only. -/
theorem address?_eq_some_iff : L.address? p c = some a ↔
    p < L.size ∧ ∃ i, L.symbols.idxOf? c = some i ∧ p * L.width + i = a := by
  unfold address?
  split <;> rename_i hp
  · simp only [hp, true_and, Option.map_eq_some_iff]
  · simp [hp]

/-- A step reads a target at its address. -/
theorem exists_address?_of_step (h : L.step p c = some q) :
    ∃ a, L.address? p c = some a ∧ L.table[a]? = some (some q) := by
  obtain ⟨a, ha, hentry⟩ := Option.bind_eq_some_iff.1 h
  exact ⟨a, ha, Option.join_eq_some_iff.1 hentry⟩

/-- A move is listed just if it is a step. -/
theorem mem_edges : ⟨p, c, q⟩ ∈ L.edges ↔ L.step p c = some q := by
  simp only [edges, List.mem_flatMap, List.mem_range, List.mem_filterMap, Option.map_eq_some_iff,
    Edge.mk.injEq]
  constructor
  · rintro ⟨_, -, _, -, _, h, rfl, rfl, rfl⟩
    exact h
  · intro h
    obtain ⟨_, ha, -⟩ := exists_address?_of_step h
    obtain ⟨hp, _, hi, -⟩ := address?_eq_some_iff.1 ha
    obtain ⟨_, hc, -⟩ := List.idxOf?_eq_some_iff.1 hi
    exact ⟨p, hp, c, hc ▸ List.getElem_mem _, q, h, rfl, rfl, rfl⟩

namespace Valid

variable (h : L.Valid)

include h

theorem size_pos : 0 < L.size := Nat.zero_lt_of_lt h.initial_lt

/-- The table is never read outside. -/
theorem lt_of_address? (ha : L.address? p c = some a) : a < L.table.length := by
  obtain ⟨hp, i, hi, rfl⟩ := address?_eq_some_iff.1 ha
  obtain ⟨hlt, -, -⟩ := List.idxOf?_eq_some_iff.1 hi
  rw [h.length_table]
  exact address_lt hp hlt

/-- A step leads to a state. -/
theorem step_lt (hstep : L.step p c = some q) : q < L.size := by
  obtain ⟨_, -, hentry⟩ := exists_address?_of_step hstep
  exact h.target_lt q (List.mem_of_getElem? hentry)

/-- A run that starts in a state ends in one. -/
theorem foldlM_step_lt (hp : p < L.size) (hw : w.foldlM L.step p = some q) : q < L.size := by
  induction w generalizing p with
  | nil => exact Option.some.inj hw ▸ hp
  | cons c w ih =>
    obtain ⟨r, hr, hw⟩ := Option.bind_eq_some_iff.1 hw
    exact ih (h.step_lt hr) hw

/-- The state in which a run ends has a mark. -/
theorem isSome_accepting_of_run (hw : L.run w = some q) : (L.accepting[q]?).isSome := by
  rw [List.getElem?_eq_getElem (h.foldlM_step_lt h.initial_lt hw)]
  rfl

/-- A number has the name that stands beside it. -/
theorem name?_eq_some_iff : L.name? p = some name ↔ (p, name) ∈ L.names := by
  have hnodup : (L.names.map Prod.fst).Nodup := h.numbers ▸ List.nodup_range
  unfold name?
  rw [Option.map_eq_some_iff]
  constructor
  · rintro ⟨⟨p', name'⟩, hf, rfl⟩
    obtain ⟨hmem, rfl⟩ := (find?_eq_some_iff_of_nodup hnodup).1 hf
    exact hmem
  · exact fun hmem => ⟨(p, name), (find?_eq_some_iff_of_nodup hnodup).2 ⟨hmem, rfl⟩, rfl⟩

/-- Looking up a name and looking up a number undo each other. -/
theorem named?_eq_some_iff : L.named? name = some p ↔ L.name? p = some name := by
  rw [h.name?_eq_some_iff]
  unfold named?
  rw [Option.map_eq_some_iff]
  constructor
  · rintro ⟨⟨p', name'⟩, hf, rfl⟩
    obtain ⟨hmem, rfl⟩ := (find?_eq_some_iff_of_nodup h.nodup_names).1 hf
    exact hmem
  · exact fun hmem => ⟨(p, name), (find?_eq_some_iff_of_nodup h.nodup_names).2 ⟨hmem, rfl⟩, rfl⟩

/-- Exactly the states have names. -/
theorem isSome_name?_iff : (L.name? p).isSome ↔ p < L.size := by
  rw [← List.mem_range, ← h.numbers, List.mem_map, Option.isSome_iff_exists]
  simp only [h.name?_eq_some_iff]
  constructor
  · rintro ⟨name, hmem⟩
    exact ⟨_, hmem, rfl⟩
  · rintro ⟨⟨p', name⟩, hmem, rfl⟩
    exact ⟨name, hmem⟩

theorem pairwise_idxOf : L.symbols.Pairwise fun c d => L.symbols.idxOf c < L.symbols.idxOf d := by
  refine List.pairwise_iff_getElem.2 fun i j hi hj hij => ?_
  rwa [h.nodup.idxOf_getElem, h.nodup.idxOf_getElem]

/-- The moves are listed by source and then by symbol. -/
theorem pairwise_edges : L.edges.Pairwise L.EdgeBefore := by
  refine List.pairwise_flatMap.2 ⟨fun p _ => ?_, ?_⟩
  · refine List.pairwise_filterMap.2 (h.pairwise_idxOf.imp ?_)
    intro c d hcd e he f hf
    obtain ⟨_, -, rfl⟩ := Option.map_eq_some_iff.1 he
    obtain ⟨_, -, rfl⟩ := Option.map_eq_some_iff.1 hf
    exact .inr ⟨rfl, hcd⟩
  · refine List.pairwise_lt_range.imp ?_
    intro p q hpq e he f hf
    obtain ⟨_, -, he⟩ := List.mem_filterMap.1 he
    obtain ⟨_, -, hf⟩ := List.mem_filterMap.1 hf
    obtain ⟨_, -, rfl⟩ := Option.map_eq_some_iff.1 he
    obtain ⟨_, -, rfl⟩ := Option.map_eq_some_iff.1 hf
    exact .inl hpq

/-- No move is listed twice, since none comes before itself. -/
theorem nodup_edges : L.edges.Nodup := by
  refine h.pairwise_edges.imp ?_
  rintro e _ (hlt | ⟨-, hlt⟩) rfl
  · exact Nat.lt_irrefl _ hlt
  · exact Nat.lt_irrefl _ hlt

end Valid

/-- Rows of one width stand in a table at the multiples of the width. -/
theorem getElem?_flatMap {α β : Type} {f : α → List β} {l : List α} {k i : Nat}
    (h : ∀ a ∈ l, (f a).length = k) (hi : i < k) (p : Nat) :
    (l.flatMap f)[p * k + i]? = l[p]?.bind fun a => (f a)[i]? := by
  induction l generalizing p with
  | nil => rfl
  | cons a l ih =>
    have ha := h a List.mem_cons_self
    rw [List.flatMap_cons]
    cases p with
    | zero =>
      rw [Nat.zero_mul, Nat.zero_add, List.getElem?_append_left (ha ▸ hi)]
      rfl
    | succ p =>
      have hplace : (p + 1) * k + i - (f a).length = p * k + i := by
        rw [ha, Nat.succ_mul]
        omega
      have hle : (f a).length ≤ (p + 1) * k + i := by
        rw [ha, Nat.succ_mul]
        omega
      rw [List.getElem?_append_right hle, hplace, List.getElem?_cons_succ]
      exact ih (fun b hb => h b (List.mem_cons_of_mem _ hb)) p

/-- Rows of one width make a table with that many entries for each row. -/
theorem length_flatMap_of_length {α β : Type} {f : α → List β} {l : List α} {k : Nat}
    (h : ∀ a ∈ l, (f a).length = k) : (l.flatMap f).length = l.length * k := by
  rw [List.length_flatMap, List.map_congr_left h, List.map_const',
    List.sum_replicate_nat]

end Layout

namespace Automaton

variable {M N : Automaton} {p : Nat} {c : Char} {name : String}

def layout (M : Automaton) : Layout where
  symbols := M.alphabet.symbols
  initial := M.initial
  accepting := M.states.toList.map State.accepting
  names := (List.range M.size).zip (M.states.toList.map State.name)
  table := M.states.toList.flatMap State.moves

@[simp] theorem size_layout (M : Automaton) : M.layout.size = M.size := by
  simp [layout, Layout.size, size]

theorem length_moves_of_mem {s : State} (h : s ∈ M.states.toList) :
    s.moves.length = M.alphabet.symbols.length :=
  M.length_moves s (Array.mem_toList_iff.1 h)

/-- The layout has each number beside its name. -/
theorem mem_names_layout : (p, name) ∈ M.layout.names ↔ M.name? p = some name := by
  have hname : (M.states.toList.map State.name)[p]? = M.name? p := by
    rw [List.getElem?_map, Array.getElem?_toList]
    rfl
  rw [← hname, List.mem_iff_getElem?]
  simp only [layout, List.getElem?_zip_eq_some]
  constructor
  · rintro ⟨i, hi, hn⟩
    obtain ⟨-, rfl⟩ := List.getElem?_eq_some_iff.1 hi
    rwa [List.getElem_range]
  · intro hn
    have hp : p < M.size := by
      rw [hname] at hn
      exact lt_size_of_name? hn
    exact ⟨p, List.getElem?_range hp, hn⟩

/-- The layout of an automaton fits together. -/
theorem valid_layout (M : Automaton) : M.layout.Valid := by
  have hlength : (List.range M.size).length = (M.states.toList.map State.name).length := by
    simp [size]
  refine ⟨M.alphabet.nodup, ?_, ?_, ?_, ?_, ?_⟩
  · rw [size_layout]
    exact M.initial_lt
  · rw [size_layout]
    exact Layout.length_flatMap_of_length fun s hs => length_moves_of_mem hs
  · intro q hq
    obtain ⟨s, hs, hq⟩ := List.mem_flatMap.1 hq
    rw [size_layout]
    exact M.target_lt s (Array.mem_toList_iff.1 hs) q hq
  · rw [size_layout]
    exact List.map_fst_zip hlength.le
  · show (((List.range M.size).zip (M.states.toList.map State.name)).map Prod.snd).Nodup
    rw [List.map_snd_zip hlength.ge]
    refine List.pairwise_iff_getElem.2 fun i j hi hj hij hne => ?_
    rw [List.getElem_map, List.getElem_map] at hne
    have heq := M.name_inj (by simpa using hi) (by simpa using hj) hne
    exact absurd heq hij.ne

theorem length_table_layout (M : Automaton) :
    M.layout.table.length = M.size * M.alphabet.size := by
  rw [(valid_layout M).length_table, size_layout]
  rfl

/-- The table has the moves of a state in the order of the symbols. -/
theorem getElem?_table_layout {i : Nat} (hp : p < M.size) (hc : M.alphabet.symbol? i = some c) :
    M.layout.table[p * M.alphabet.size + i]? = some (M.step p c) := by
  have hi : i < M.alphabet.size := (List.getElem?_eq_some_iff.1 hc).1
  have hentry : M.layout.table[p * M.alphabet.size + i]? =
      M.states.toList[p]?.bind fun s => s.moves[i]? :=
    Layout.getElem?_flatMap (fun s hs => length_moves_of_mem hs) hi p
  rw [hentry, Array.getElem?_toList, Array.getElem?_eq_getElem hp, Option.bind_some, moves_eq_map hp,
    List.getElem?_map]
  exact congrArg (Option.map (M.step p)) hc

/-- The entry at the address of a step is the move. -/
theorem step_layout (M : Automaton) (p : Nat) (c : Char) : M.layout.step p c = M.step p c := by
  unfold Layout.step Layout.address?
  rw [size_layout]
  split <;> rename_i hp
  · show ((M.alphabet.position c).map (p * M.alphabet.size + ·)).bind _ = _
    cases hc : M.alphabet.position c with
    | none => simp [step, hc]
    | some i =>
      have hentry := getElem?_table_layout hp (Alphabet.symbol?_of_position hc)
      rw [Option.map_some, Option.bind_some, hentry, Option.join_some]
  · rw [step, Array.getElem?_eq_none (Nat.not_lt.1 hp)]
    rfl

theorem name?_layout (M : Automaton) (p : Nat) : M.layout.name? p = M.name? p := by
  refine Option.ext fun name => ?_
  rw [(valid_layout M).name?_eq_some_iff, mem_names_layout]

theorem named?_layout (M : Automaton) (name : String) : M.layout.named? name = M.named? name := by
  refine Option.ext fun p => ?_
  rw [(valid_layout M).named?_eq_some_iff, name?_layout, named?_eq_some_iff]

/-- The mark of a state is its color. -/
theorem getElem?_accepting_layout (M : Automaton) (p : Nat) :
    M.layout.accepting[p]? = M.machine.color p := by
  show (M.states.toList.map State.accepting)[p]? = M.states[p]?.map State.accepting
  rw [List.getElem?_map, Array.getElem?_toList]

theorem edges_layout (M : Automaton) : M.layout.edges = M.edges := by
  unfold Layout.edges
  rw [size_layout]
  simp only [step_layout]
  rfl

/-- An automaton and its layout answer alike. -/
theorem answers_layout (M : Automaton) : M.layout.Answers M where
  symbols_eq := rfl
  size_eq := size_layout M
  initial_eq := rfl
  step_eq := step_layout M
  name?_eq := name?_layout M
  named?_eq := named?_layout M
  color_eq := getElem?_accepting_layout M
  run_eq w := by
    have hstep : M.layout.step = M.step := funext₂ (step_layout M)
    unfold Layout.run
    rw [hstep]
    rfl
  edges_eq := edges_layout M

/-- An automaton is determined by its layout. -/
theorem layout_injective (h : M.layout = N.layout) : M = N := by
  have hsize : M.size = N.size := by rw [← size_layout, h, size_layout]
  have haccepting : ∀ p, M.isAccepting p = N.isAccepting p := by
    intro p
    rw [Bool.eq_iff_iff, isAccepting_iff, isAccepting_iff, ← getElem?_accepting_layout, h,
      getElem?_accepting_layout]
  refine eq_of_parts (Alphabet.ext (congrArg Layout.symbols h)) hsize (congrArg Layout.initial h)
    (fun p => ?_) haccepting fun p c => ?_
  · rw [← name?_layout, h, name?_layout]
  · rw [← step_layout, h, step_layout]

end Automaton

end ShortestWitness
