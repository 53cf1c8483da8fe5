import Mathlib
import ShortestWitness.Proofs.Automaton.Completion
import ShortestWitness.Proofs.Automaton.Draft
import ShortestWitness.Proofs.Automaton.Layout

/-!
# Filling layouts

A layout can be filled with no automaton in between: names are put one by one into the table of names,
marks and edges are written to the addresses that they belong to, and a completion appends one row and
one mark. Names that collide would push each other out, and rows of a wrong width would shift all that
comes after them; neither happens, since what is filled is the layout of the automaton that is made
(`layout_of_build`, `layout_completion`).
-/

namespace ShortestWitness

namespace Layout

/-- Puts a number and a name into a table of names. An entry that has the number or the name is
dropped. -/
def insertName (names : List (Nat × String)) (p : Nat) (name : String) : List (Nat × String) :=
  names.filter (fun e => e.1 ≠ p && e.2 ≠ name) ++ [(p, name)]

/-- The table of the names, put in one by one and numbered from zero on. -/
def insertNames (names : List String) : List (Nat × String) :=
  names.zipIdx.foldl (fun table e => insertName table e.2 e.1) []

/-- The accepting marks of `n` states. -/
def mark (n : Nat) (accepting : List Nat) : List Bool :=
  accepting.foldl (fun marks p => marks.set p true) (List.replicate n false)

/-- Writes an edge to its address, unless there is a target already. -/
def write (A : Alphabet) (table : List (Option Nat)) (e : Edge) : List (Option Nat) :=
  match A.position e.symbol with
  | none => table
  | some i =>
    let a := e.source * A.size + i
    if table[a]?.join.isSome then table else table.set a (some e.target)

/-- The layout that is filled with a draft. -/
def ofDraft (d : Draft) (initial : Nat) : Layout where
  symbols := d.alphabet.symbols
  initial := initial
  accepting := mark d.size d.accepting.toList
  names := insertNames d.names.toList
  table := d.edges.toList.foldl (write d.alphabet) (List.replicate (d.size * d.alphabet.size) none)

/-- The layout with one more row. All entries without a target get the new state for a target. -/
def completion (L : Layout) : Layout :=
  if L.table.all Option.isSome then L
  else
    { symbols := L.symbols
      initial := L.initial
      accepting := L.accepting ++ [false]
      names := insertName L.names L.size
        (numberedName (freshNumber (L.names.map Prod.snd) L.size))
      table := (L.table ++ List.replicate L.width none).map
        fun target : Option Nat => target.or (some L.size) }

/-! ## Names -/

variable {names : List (Nat × String)} {name : String} {n p i : Nat} {A : Alphabet} {c : Char}

/-- Nothing is dropped for a new number and a new name. -/
theorem insertName_of_fresh (hp : p ∉ names.map Prod.fst) (hname : name ∉ names.map Prod.snd) :
    insertName names p name = names ++ [(p, name)] := by
  unfold insertName
  rw [List.filter_eq_self.2]
  intro e he
  have hp' : e.1 ≠ p := fun h => hp (h ▸ List.mem_map_of_mem he)
  have hname' : e.2 ≠ name := fun h => hname (h ▸ List.mem_map_of_mem he)
  simp [hp', hname']

/-- Different names keep their numbers. -/
theorem insertNames_of_nodup {l : List String} (h : l.Nodup) :
    insertNames l = (List.range l.length).zip l := by
  induction l using List.reverseRecOn with
  | nil => rfl
  | append_singleton l name ih =>
    have hl := h.of_append_left
    have hname : name ∉ l := fun hmem => List.disjoint_of_nodup_append h hmem (by simp)
    have hinsert : insertNames (l ++ [name]) = insertName (insertNames l) l.length name := by
      simp [insertNames, List.zipIdx_append]
    have hfst : ((List.range l.length).zip l).map Prod.fst = List.range l.length :=
      List.map_fst_zip (by simp)
    have hsnd : ((List.range l.length).zip l).map Prod.snd = l := List.map_snd_zip (by simp)
    rw [hinsert, ih hl, insertName_of_fresh (by simp [hfst]) (by rwa [hsnd]), List.length_append,
      List.length_singleton, List.range_succ, List.zip_append (by simp)]
    rfl

/-! ## Marks -/

theorem getElem?_foldl_set (l : List Nat) (marks : List Bool) (p : Nat) :
    (l.foldl (fun marks p => marks.set p true) marks)[p]? =
      marks[p]?.map (· || decide (p ∈ l)) := by
  induction l generalizing marks with
  | nil => simp
  | cons q l ih =>
    rw [List.foldl_cons, ih, List.getElem?_set]
    by_cases hq : q = p
    · subst hq
      by_cases hlt : q < marks.length <;> simp [hlt]
    · have hp : p ≠ q := Ne.symm hq
      simp [hq, hp]

/-- There is a mark for each state, and it is set if the state is in the list. -/
theorem getElem?_mark (n : Nat) (l : List Nat) (p : Nat) :
    (mark n l)[p]? = if p < n then some (decide (p ∈ l)) else none := by
  unfold mark
  rw [getElem?_foldl_set, List.getElem?_replicate]
  split <;> simp

/-! ## Entries -/

/-- An address belongs to one state and one place of its row. -/
theorem address_inj {k q j : Nat} (hi : i < k) (hj : j < k) (h : p * k + i = q * k + j) :
    p = q ∧ i = j := by
  have hk : 0 < k := Nat.zero_lt_of_lt hi
  have hdiv : ∀ {p i}, i < k → (p * k + i) / k = p := by
    intro p i hi
    rw [Nat.mul_comm, Nat.mul_add_div hk, Nat.div_eq_of_lt hi, Nat.add_zero]
  have hpq : p = q := calc
    p = (p * k + i) / k := (hdiv hi).symm
    _ = (q * k + j) / k := by rw [h]
    _ = q := hdiv hj
  subst hpq
  exact ⟨rfl, Nat.add_left_cancel h⟩

/-- Tables of one size are equal if their rows are. -/
theorem table_ext {k : Nat} {t t' : List (Option Nat)} (ht : t.length = n * k)
    (ht' : t'.length = n * k) (h : ∀ p < n, ∀ i < k, t[p * k + i]? = t'[p * k + i]?) : t = t' := by
  refine List.ext_getElem? fun a => ?_
  by_cases ha : a < n * k
  · have hk : 0 < k := Nat.pos_of_mul_pos_left (Nat.zero_lt_of_lt ha)
    have hrow : a / k < n := Nat.div_lt_of_lt_mul (by rwa [Nat.mul_comm])
    have hentry := h (a / k) hrow (a % k) (Nat.mod_lt a hk)
    rwa [Nat.div_add_mod'] at hentry
  · rw [List.getElem?_eq_none (by omega), List.getElem?_eq_none (by omega)]

@[simp] theorem length_write (A : Alphabet) (t : List (Option Nat)) (e : Edge) :
    (write A t e).length = t.length := by
  unfold write
  split
  · rfl
  · dsimp only
    split
    · rfl
    · rw [List.length_set]

theorem length_foldl_write (A : Alphabet) (es : List Edge) (t : List (Option Nat)) :
    (es.foldl (write A) t).length = t.length := by
  induction es generalizing t with
  | nil => rfl
  | cons e es ih => rw [List.foldl_cons, ih, length_write]

/-- Writing an edge changes the entry of its source and symbol, if there was no target. -/
theorem join_getElem?_write {t : List (Option Nat)} (ha : p * A.size + i < t.length)
    (hc : A.symbol? i = some c) (e : Edge) :
    (write A t e)[p * A.size + i]?.join =
      t[p * A.size + i]?.join.or (if e.source = p ∧ e.symbol = c then some e.target else none) := by
  have hpos : A.position c = some i := Alphabet.position_of_symbol? hc
  unfold write
  cases hj : A.position e.symbol with
  | none =>
    have hne : e.symbol ≠ c := by
      rintro rfl
      rw [hj] at hpos
      cases hpos
    simp [hne]
  | some j =>
    dsimp only
    by_cases heq : e.source * A.size + j = p * A.size + i
    · -- the edge is written here
      obtain ⟨rfl, rfl⟩ := address_inj (Alphabet.position_lt hj) (Alphabet.position_lt hpos) heq
      have hsymbol : e.symbol = c :=
        Option.some.inj ((Alphabet.symbol?_of_position hj).symm.trans hc)
      have hkind : e.source = e.source ∧ e.symbol = c := ⟨rfl, hsymbol⟩
      rw [if_pos hkind]
      cases hentry : t[e.source * A.size + j]?.join with
      | some q => simp [hentry]
      | none => simp [ha]
    · -- the edge is written elsewhere, so it is another state or another symbol
      have hne : ¬ (e.source = p ∧ e.symbol = c) := by
        rintro ⟨rfl, rfl⟩
        rw [hj] at hpos
        exact heq (by rw [Option.some.inj hpos])
      rw [if_neg hne, Option.or_none]
      split
      · rfl
      · rw [List.getElem?_set_ne heq]

/-- Of the edges from one state on one symbol the first one is kept. -/
theorem join_getElem?_foldl_write (es : List Edge) {t : List (Option Nat)}
    (ha : p * A.size + i < t.length) (hc : A.symbol? i = some c) :
    (es.foldl (write A) t)[p * A.size + i]?.join = t[p * A.size + i]?.join.or
      ((es.find? fun e => e.source = p ∧ e.symbol = c).map Edge.target) := by
  induction es generalizing t with
  | nil => simp
  | cons e es ih =>
    rw [List.foldl_cons, ih (by rwa [length_write]), join_getElem?_write ha hc, Option.or_assoc,
      List.find?_cons]
    by_cases he : e.source = p ∧ e.symbol = c
    · simp [he]
    · simp [he]

theorem length_table_ofDraft (d : Draft) (initial : Nat) :
    (ofDraft d initial).table.length = d.size * d.alphabet.size := by
  show (d.edges.toList.foldl (write d.alphabet) _).length = _
  rw [length_foldl_write, List.length_replicate]

/-- The entry of a state and a symbol is the target of the first edge from it. -/
theorem getElem?_table_ofDraft {d : Draft} (initial : Nat) (hp : p < d.size)
    (hc : d.alphabet.symbol? i = some c) :
    (ofDraft d initial).table[p * d.alphabet.size + i]? = some (d.target? p c) := by
  have hi : i < d.alphabet.size := (List.getElem?_eq_some_iff.1 hc).1
  have ha := address_lt hp hi
  have hentry : (ofDraft d initial).table[p * d.alphabet.size + i]?.join = d.target? p c := by
    refine (join_getElem?_foldl_write _ (by rwa [List.length_replicate]) hc).trans ?_
    rw [List.getElem?_replicate_of_lt ha, Option.join_some, Option.none_or, Array.find?_toList]
    rfl
  rw [List.getElem?_eq_getElem (ha.trans_eq (length_table_ofDraft d initial).symm)] at hentry ⊢
  rw [← hentry, Option.join_some]

end Layout

/-! ## Layouts of automata -/

namespace Automaton

variable {M : Automaton} {A : Alphabet} {n p : Nat}

/-- A layout has the names that the automaton gives for the numbers. -/
theorem names_layout_eq {l : List String} (h : ∀ p, M.name? p = l[p]?) :
    M.layout.names = (List.range l.length).zip l := by
  have hnames : M.states.toList.map State.name = l := by
    refine List.ext_getElem? fun p => ?_
    rw [← h, List.getElem?_map, Array.getElem?_toList]
    rfl
  have hsize : M.size = l.length := by
    rw [← hnames]
    simp [size]
  rw [layout, hnames, hsize]

/-- A layout has the marks that the automaton gives for the numbers. -/
theorem accepting_layout_eq {l : List Bool} (h : ∀ p, l[p]? = if p < M.size then
    some (M.isAccepting p) else none) : M.layout.accepting = l := by
  refine List.ext_getElem? fun p => ?_
  rw [getElem?_accepting_layout, color_machine, h]

/-- A layout has the table with the moves of the automaton in its rows. -/
theorem table_layout_eq {t : List (Option Nat)} (ht : t.length = M.size * M.alphabet.size)
    (h : ∀ p i c, p < M.size → M.alphabet.symbol? i = some c →
      t[p * M.alphabet.size + i]? = some (M.step p c)) : M.layout.table = t := by
  refine Layout.table_ext (length_table_layout M) ht fun p hp i hi => ?_
  have hc := List.getElem?_eq_getElem (l := M.alphabet.symbols) hi
  rw [getElem?_table_layout hp hc, h p i _ hp hc]

/-- The move of a state is the target of its first edge on the symbol. -/
theorem step_automaton_eq {d : Draft} {initial : Nat} (hd : d.Consistent initial) (p : Nat) (c : Char) :
    (d.automaton initial hd).step p c = d.target? p c := by
  refine Option.ext fun q => ?_
  rw [Draft.step_automaton_iff, hd.target?_eq_some_iff]

/-- Filling a layout with a draft gives the layout of the automaton that is built. -/
theorem layout_of_build {d : Draft} {initial : Nat} (h : d.build initial = .ok M) :
    M.layout = .ofDraft d initial := by
  obtain ⟨hd, rfl⟩ := Draft.build_eq_ok_iff.1 h
  have hsize : (d.automaton initial hd).size = d.size := Draft.size_automaton hd
  refine Layout.ext rfl rfl ?_ ?_ ?_
  · apply accepting_layout_eq
    intro p
    show (Layout.mark d.size d.accepting.toList)[p]? = _
    rw [Layout.getElem?_mark, hsize]
    split
    · rw [Option.some.injEq, Bool.eq_iff_iff, Draft.isAccepting_automaton_iff, decide_eq_true_iff,
        Array.mem_toList_iff]
    · rfl
  · show _ = Layout.insertNames d.names.toList
    rw [Layout.insertNames_of_nodup hd.nodup]
    apply names_layout_eq
    intro p
    rw [Draft.name?_automaton, Array.getElem?_toList]
  · apply table_layout_eq
    · rw [hsize]
      exact Layout.length_table_ofDraft d initial
    · intro p i c hp hc
      rw [hsize] at hp
      rw [step_automaton_eq]
      exact Layout.getElem?_table_ofDraft initial hp hc

/-! ## Layouts of completions -/

theorem all_isSome_table_layout (M : Automaton) :
    M.layout.table.all Option.isSome = M.isComplete := by
  show (M.states.toList.flatMap State.moves).all Option.isSome = _
  rw [List.all_flatMap, isComplete, ← Array.all_toList]

theorem map_snd_names_layout (M : Automaton) : M.layout.names.map Prod.snd = M.names :=
  List.map_snd_zip (by simp [size])

theorem length_names (M : Automaton) : M.names.length = M.size := by
  simp [names, size]

/-- The name of the sink comes after the others. -/
theorem name?_completion (h : M.isComplete = false) (p : Nat) :
    M.completion.name? p = (M.names ++ [M.sinkName])[p]? := by
  have hlength := length_names M
  by_cases hp : p < M.size + 1
  · have hname : M.completion.name? p = some (M.nameWithSink ⟨p, hp⟩) := by
      rw [completion, if_neg (by simp [h])]
      exact @name?_tabulate M.alphabet (M.size + 1) _ _ nameWithSink_inj _ _ ⟨p, hp⟩
    rw [hname, nameWithSink]
    split <;> rename_i hlt
    · have hlt' : p < M.size := hlt
      rw [List.getElem?_append_left (by rwa [hlength]), names, List.getElem?_map,
        Array.getElem?_toList, Array.getElem?_eq_getElem hlt]
      rfl
    · have heq : p = M.names.length := by
        rw [hlength]
        exact Nat.le_antisymm (Nat.le_of_lt_succ hp) (Nat.not_lt.1 hlt)
      rw [heq, List.getElem?_concat_length]
  · rw [name?_of_le, List.getElem?_eq_none]
    · rw [List.length_append, hlength, List.length_singleton]
      omega
    · rw [size_completion h]
      omega

/-- The name of the sink is put in without dropping another one. -/
theorem insertName_sinkName (M : Automaton) :
    Layout.insertName M.layout.names M.size M.sinkName = M.layout.names ++ [(M.size, M.sinkName)] := by
  have hnumbers : M.layout.names.map Prod.fst = List.range M.size := by
    rw [(valid_layout M).numbers, size_layout]
  have hsink : M.sinkName ∉ M.layout.names.map Prod.snd := by
    rw [map_snd_names_layout]
    exact freshNumber_not_mem M.names M.size
  exact Layout.insertName_of_fresh (by simp [hnumbers]) hsink

theorem names_layout_completion (h : M.isComplete = false) :
    M.completion.layout.names = Layout.insertName M.layout.names M.size M.sinkName := by
  have hlength : (List.range M.size).length = M.names.length := by
    rw [List.length_range, length_names]
  rw [insertName_sinkName, names_layout_eq (name?_completion h), List.length_append, length_names,
    List.length_singleton, List.range_succ, List.zip_append hlength]
  rfl

theorem accepting_layout_completion (h : M.isComplete = false) :
    M.completion.layout.accepting = M.layout.accepting ++ [false] := by
  have hlength : M.layout.accepting.length = M.size := size_layout M
  apply accepting_layout_eq
  intro p
  rw [size_completion h, isAccepting_completion]
  rcases Nat.lt_trichotomy p M.size with hp | rfl | hp
  · rw [if_pos (Nat.lt_succ_of_lt hp), List.getElem?_append_left (by rwa [hlength]),
      getElem?_accepting_layout, color_machine, if_pos hp]
  · rw [if_pos (Nat.lt_succ_self _), isAccepting_of_le (Nat.le_refl _), ← hlength,
      List.getElem?_concat_length]
  · rw [if_neg (by omega), List.getElem?_eq_none]
    rw [List.length_append, hlength, List.length_singleton]
    omega

/-- The new row has the sink everywhere, and so has each entry that was without a target. -/
theorem table_layout_completion (h : M.isComplete = false) :
    M.completion.layout.table = (M.layout.table ++ List.replicate M.alphabet.size none).map
      fun target : Option Nat => target.or (some M.size) := by
  have hlength := length_table_layout M
  have hsize := size_completion h
  have halphabet := alphabet_completion M
  apply table_layout_eq
  · rw [List.length_map, List.length_append, hlength, List.length_replicate, hsize, halphabet,
      Nat.succ_mul]
  · intro p i c hp hc
    rw [halphabet] at hc ⊢
    rw [hsize] at hp
    have hi : i < M.alphabet.size := (List.getElem?_eq_some_iff.1 hc).1
    rw [step_completion h (Nat.le_of_lt_succ hp) (List.mem_of_getElem? hc), List.getElem?_map]
    by_cases hlt : p < M.size
    · have ha := Layout.address_lt hlt hi
      rw [List.getElem?_append_left (by rwa [hlength]), getElem?_table_layout hlt hc]
      cases M.step p c <;> rfl
    · obtain rfl := Nat.le_antisymm (Nat.le_of_lt_succ hp) (Nat.not_lt.1 hlt)
      have hstep : M.step M.size c = none := step_of_le (Nat.le_refl _)
      rw [List.getElem?_append_right (by rw [hlength]; omega), hlength, Nat.add_sub_cancel_left,
        List.getElem?_replicate_of_lt hi, hstep]
      rfl

/-- Appending a row, a mark and a name gives the layout of the completion. -/
theorem layout_completion (M : Automaton) : M.completion.layout = M.layout.completion := by
  unfold Layout.completion
  rw [all_isSome_table_layout]
  cases h : M.isComplete with
  | true => rw [completion, if_pos h, if_pos rfl]
  | false =>
    rw [if_neg (by decide), map_snd_names_layout, size_layout]
    exact Layout.ext (congrArg Alphabet.symbols (alphabet_completion M)) (initial_completion M)
      (accepting_layout_completion h) (names_layout_completion h) (table_layout_completion h)

end Automaton

end ShortestWitness
