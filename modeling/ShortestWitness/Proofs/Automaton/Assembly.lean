import Mathlib
import ShortestWitness.Proofs.Automaton.Filling

/-!
# Checking a draft while its layout is filled

A layout can be filled in one pass that checks the draft on the way: a name is looked up before it is put
in, a mark is compared with the number of states, and the target of an edge is compared with the one that
has been given for its source and symbol before. What has been given is kept beside the table of entries
(`Moves`), and both grow edge by edge (`Moves.Records`). A pass that stops has met the first thing that
is wrong with the draft, and a pass that does not stop has filled the layout of the automaton that is
built (`assemble_eq`).
-/

namespace ShortestWitness

/-- What the edges so far have given: the target for each source and each place of a symbol in the alphabet,
and the entries of the table. -/
structure Moves where
  given : FiniteMap (Nat × Nat) Nat
  table : List (Option Nat)

namespace Layout

/-- Puts in a name with its number, unless the name has been put in before. -/
def addName (names : List (Nat × String)) (e : String × Nat) :
    Except DraftError (List (Nat × String)) :=
  if e.1 ∈ names.map Prod.snd then .error (.duplicateName e.1) else .ok (insertName names e.2 e.1)

/-- Marks a state, unless there is no such state. -/
def addMark (marks : List Bool) (p : Nat) : Except DraftError (List Bool) :=
  if p < marks.length then .ok (marks.set p true) else .error (.unknownAccepting p)

/-- Gives the target of an edge and writes it to its address, unless the same target has been given for
its source and symbol before. -/
def addEdge (d : Draft) (m : Moves) (e : Edge) : Except DraftError Moves :=
  if d.size ≤ e.source then .error (.unknownState e.source)
  else if d.size ≤ e.target then .error (.unknownState e.target)
  else
    match d.alphabet.position e.symbol with
    | none => .error (.unknownSymbol e.symbol)
    | some i =>
      match m.given[(e.source, i)]? with
      | some first =>
        if first = e.target then .ok m
        else .error (.conflict (d.names.getD e.source "") e.symbol (d.names.getD first "")
          (d.names.getD e.target ""))
      | none => .ok
        { given := m.given.insert (e.source, i) e.target
          table := m.table.set (e.source * d.alphabet.size + i) (some e.target) }

/-- The table before any edge is written. -/
def blankTable (d : Draft) : List (Option Nat) := List.replicate (d.size * d.alphabet.size) none

/-- The layout of a draft, or the first thing that is wrong with the draft. -/
def assemble (d : Draft) (initial : Nat) : Except DraftError Layout := do
  if d.size ≤ initial then throw (.unknownInitial initial)
  let names ← d.names.toList.zipIdx.foldlM addName []
  let accepting ← d.accepting.toList.foldlM addMark (List.replicate d.size false)
  let moves ← d.edges.toList.foldlM (addEdge d) ⟨∅, blankTable d⟩
  return ⟨d.alphabet.symbols, initial, accepting, names, moves.table⟩

/-! ## Names and marks -/

/-- Names are put in up to the first that is among those put in `before` or repeats one after them. -/
theorem foldlM_addName {table : List (Nat × String)} {before names : List String} {n : Nat}
    (hnames : ∀ name, name ∈ table.map Prod.snd ↔ name ∈ before) (hlt : ∀ p ∈ table.map Prod.fst, p < n) :
    (names.zipIdx n).foldlM addName table =
      match firstRepeat?.go before names with
      | some name => .error (.duplicateName name)
      | none => .ok ((names.zipIdx n).foldl (fun table e => insertName table e.2 e.1) table) := by
  induction names generalizing table before n with
  | nil => rfl
  | cons name names ih =>
    rw [List.zipIdx_cons, List.foldlM_cons, firstRepeat?.go, addName]
    by_cases hname : name ∈ before
    · rw [if_pos ((hnames name).2 hname), if_pos hname]
      rfl
    · have hfresh : name ∉ table.map Prod.snd := fun h => hname ((hnames name).1 h)
      have hnumber : n ∉ table.map Prod.fst := fun h => Nat.lt_irrefl n (hlt n h)
      have hinsert := insertName_of_fresh hnumber hfresh
      rw [if_neg hfresh, if_neg hname, List.foldl_cons]
      refine ih (fun other => ?_) (fun p hp => ?_)
      · rw [hinsert, List.map_append, List.mem_append, hnames, List.mem_cons, or_comm]
        simp
      · rw [hinsert, List.map_append, List.mem_append] at hp
        rcases hp with hp | hp
        · exact Nat.lt_succ_of_lt (hlt p hp)
        · rw [List.mem_singleton.1 hp]
          exact Nat.lt_succ_self n

/-- States are marked up to the first that does not exist. -/
theorem foldlM_addMark (marks : List Bool) (states : List Nat) :
    states.foldlM addMark marks =
      match states.find? (marks.length ≤ ·) with
      | some p => .error (.unknownAccepting p)
      | none => .ok (states.foldl (fun marks p => marks.set p true) marks) := by
  induction states generalizing marks with
  | nil => rfl
  | cons p states ih =>
    rw [List.foldlM_cons, List.find?_cons, addMark]
    by_cases hp : p < marks.length
    · have hlength : (marks.set p true).length = marks.length := List.length_set
      rw [if_pos hp, decide_eq_false (Nat.not_le.2 hp), List.foldl_cons]
      have htail := ih (marks.set p true)
      rw [hlength] at htail
      exact htail
    · rw [if_neg hp, decide_eq_true (Nat.not_lt.1 hp)]
      rfl

end Layout

/-! ## Edges -/

/-- Of two lists the first is searched first; a single member is found if it is of the kind. -/
theorem find?_append_singleton {α : Type} {P : α → Bool} (l : List α) (a : α) :
    (l ++ [a]).find? P = (l.find? P).or (if P a then some a else none) := by
  rw [List.find?_append, List.find?_cons, List.find?_nil]
  cases P a <;> rfl

namespace Moves

variable {d : Draft} {m : Moves} {es later : List Edge} {e : Edge} {p i : Nat} {c : Char}

/-- What is given and what is written is what the edges so far say, the first of each kind. -/
structure Records (d : Draft) (es : List Edge) (m : Moves) : Prop where
  given_eq : ∀ p i c, d.alphabet.symbol? i = some c → m.given[(p, i)]? =
    (es.find? fun e => e.source = p ∧ e.symbol = c).map Edge.target
  table_eq : m.table = es.foldl (Layout.write d.alphabet) (Layout.blankTable d)

theorem records_nil (d : Draft) : Records d [] ⟨∅, Layout.blankTable d⟩ where
  given_eq p i c _ := by simp
  table_eq := rfl

namespace Records

/-- The entry for a state and a symbol is what is given for them: no other state and symbol have the
same address. -/
theorem join_getElem?_table (h : Records d es m) (hp : p < d.size)
    (hc : d.alphabet.symbol? i = some c) :
    m.table[p * d.alphabet.size + i]?.join = m.given[(p, i)]? := by
  have hi : i < d.alphabet.size := (List.getElem?_eq_some_iff.1 hc).1
  have ha := Layout.address_lt hp hi
  rw [h.table_eq, h.given_eq p i c hc, Layout.blankTable,
    Layout.join_getElem?_foldl_write es (by rwa [List.length_replicate]) hc,
    List.getElem?_replicate_of_lt ha]
  rfl

/-- The first edge of the kind of an edge is the one that is given already, or else the edge itself. -/
theorem target?_eq (h : Records d es m) (hsplit : d.edges.toList = es ++ e :: later)
    (hi : d.alphabet.position e.symbol = some i) :
    d.target? e.source e.symbol = (m.given[(e.source, i)]?).or (some e.target) := by
  rw [h.given_eq _ _ _ (Alphabet.symbol?_of_position hi), Draft.target?, ← Array.find?_toList, hsplit,
    List.find?_append, List.find?_cons]
  cases es.find? fun f => f.source = e.source ∧ f.symbol = e.symbol <;> simp

/-- A repeated edge leaves everything as it is. -/
theorem append_of_given (h : Records d es m) (hp : e.source < d.size)
    (hi : d.alphabet.position e.symbol = some i) (hgiven : (m.given[(e.source, i)]?).isSome) :
    Records d (es ++ [e]) m where
  given_eq p j c hc := by
    rw [find?_append_singleton, h.given_eq p j c hc]
    by_cases hkind : e.source = p ∧ e.symbol = c
    · obtain ⟨rfl, rfl⟩ := hkind
      rw [h.given_eq _ _ _ (Alphabet.symbol?_of_position hi), Option.isSome_map] at hgiven
      rw [Option.or_of_isSome hgiven]
    · simp [hkind]
  table_eq := by
    have hentry := h.join_getElem?_table hp (Alphabet.symbol?_of_position hi)
    rw [List.foldl_append, ← h.table_eq, List.foldl_cons, List.foldl_nil, Layout.write, hi]
    dsimp only
    rw [hentry, if_pos hgiven]

/-- The first edge of its kind is given and written. -/
theorem append_of_not_given (h : Records d es m) (hp : e.source < d.size)
    (hi : d.alphabet.position e.symbol = some i) (hgiven : m.given[(e.source, i)]? = none) :
    Records d (es ++ [e])
      { given := m.given.insert (e.source, i) e.target
        table := m.table.set (e.source * d.alphabet.size + i) (some e.target) } where
  given_eq p j c hc := by
    rw [find?_append_singleton]
    by_cases hkind : e.source = p ∧ e.symbol = c
    · obtain ⟨rfl, rfl⟩ := hkind
      obtain rfl : i = j := Option.some.inj (hi.symm.trans (Alphabet.position_of_symbol? hc))
      have hnone := h.given_eq e.source i e.symbol hc
      rw [hgiven, eq_comm, Option.map_eq_none_iff] at hnone
      rw [Std.TreeMap.getElem?_insert_self, hnone]
      simp
    · have hne : (e.source, i) ≠ (p, j) := by
        rintro heq
        obtain ⟨rfl, rfl⟩ := Prod.mk.inj heq
        exact hkind ⟨rfl, Option.some.inj ((Alphabet.symbol?_of_position hi).symm.trans hc)⟩
      rw [FiniteMap.getElem?_insert_of_ne hne, h.given_eq p j c hc]
      simp [hkind]
  table_eq := by
    have hentry := h.join_getElem?_table hp (Alphabet.symbol?_of_position hi)
    rw [List.foldl_append, ← h.table_eq, List.foldl_cons, List.foldl_nil, Layout.write, hi]
    dsimp only
    rw [hentry, hgiven]
    rfl

/-- One edge: the pass stops if something is wrong with the edge, and otherwise records it. -/
theorem addEdge (h : Records d es m) (hsplit : d.edges.toList = es ++ e :: later) :
    match d.edgeProblem? e with
    | some problem => Layout.addEdge d m e = .error problem
    | none => ∃ m', Layout.addEdge d m e = .ok m' ∧ Records d (es ++ [e]) m' := by
  unfold Draft.edgeProblem? Layout.addEdge
  by_cases hs : d.size ≤ e.source
  · simp only [hs, if_true]
  by_cases ht : d.size ≤ e.target
  · simp only [hs, ht, if_true, if_false]
  cases hi : d.alphabet.position e.symbol with
  | none =>
    have hsymbol := Alphabet.position_eq_none_iff.1 hi
    simp only [hs, ht, hsymbol, if_false, not_false_eq_true, if_true]
  | some i =>
    have hsymbol := Alphabet.mem_of_position hi
    have hp := Nat.not_le.1 hs
    simp only [hs, ht, hsymbol, if_false, not_true_eq_false, h.target?_eq hsplit hi]
    cases hgiven : m.given[(e.source, i)]? with
    | none =>
      simp only [Option.none_or, Option.bind_some, if_true]
      exact ⟨_, rfl, h.append_of_not_given hp hi hgiven⟩
    | some first =>
      simp only [Option.some_or, Option.bind_some]
      by_cases hfirst : first = e.target
      · simp only [hfirst, if_true]
        exact ⟨m, rfl, h.append_of_given hp hi (by simp [hgiven])⟩
      · simp only [hfirst, if_false]

/-- The edges that are left: the pass stops at the first with which something is wrong. -/
theorem foldlM_addEdge (h : Records d es m) (hsplit : d.edges.toList = es ++ later) :
    match later.findSome? d.edgeProblem? with
    | some problem => later.foldlM (Layout.addEdge d) m = .error problem
    | none => ∃ m', later.foldlM (Layout.addEdge d) m = .ok m' ∧ Records d d.edges.toList m' := by
  induction later generalizing es m with
  | nil =>
    rw [List.append_nil] at hsplit
    exact ⟨m, rfl, hsplit ▸ h⟩
  | cons e later ih =>
    have hstep := h.addEdge hsplit
    rw [List.findSome?_cons, List.foldlM_cons]
    cases hproblem : d.edgeProblem? e with
    | some problem =>
      rw [hproblem] at hstep
      dsimp only at hstep ⊢
      rw [hstep]
      rfl
    | none =>
      rw [hproblem] at hstep
      obtain ⟨m', hm', hrecords⟩ := hstep
      dsimp only
      rw [hm']
      exact ih hrecords (by rw [hsplit, List.append_assoc]; rfl)

end Records

end Moves

/-! ## The pass -/

namespace Layout

variable {d : Draft} {initial : Nat}

/-- The names of a draft are put in from the first to the last. -/
theorem foldlM_addName_names (d : Draft) : d.names.toList.zipIdx.foldlM addName [] =
    match firstRepeat? d.names.toList with
    | some name => .error (.duplicateName name)
    | none => .ok (insertNames d.names.toList) :=
  @foldlM_addName [] [] d.names.toList 0 (by simp) (by simp)

/-- The marks of a draft are set from the first to the last. -/
theorem foldlM_addMark_accepting (d : Draft) :
    d.accepting.toList.foldlM addMark (List.replicate d.size false) =
      match d.accepting.find? (d.size ≤ ·) with
      | some p => .error (.unknownAccepting p)
      | none => .ok (mark d.size d.accepting.toList) := by
  rw [foldlM_addMark, List.length_replicate, Array.find?_toList]
  rfl

/-- The pass stops at the first thing that is wrong with the draft, and fills its layout if nothing is. -/
theorem assemble_eq_ofDraft (d : Draft) (initial : Nat) : assemble d initial =
    match d.problem? initial with
    | some problem => .error problem
    | none => .ok (.ofDraft d initial) := by
  have hedges := (Moves.records_nil d).foldlM_addEdge (List.nil_append d.edges.toList).symm
  unfold assemble Draft.problem?
  rw [foldlM_addName_names, foldlM_addMark_accepting]
  by_cases hi : d.size ≤ initial
  · simp only [hi, if_true]
    rfl
  simp only [hi, if_false]
  cases firstRepeat? d.names.toList with
  | some name => rfl
  | none =>
    cases d.accepting.find? (d.size ≤ ·) with
    | some p => rfl
    | none =>
      cases hproblem : d.edges.toList.findSome? d.edgeProblem? with
      | some problem =>
        rw [hproblem] at hedges
        exact congrArg (Except.map _) hedges
      | none =>
        rw [hproblem] at hedges
        obtain ⟨m, hm, hrecords⟩ := hedges
        refine (congrArg (Except.map _) hm).trans ?_
        rw [Except.map, hrecords.table_eq]
        rfl

/-- Checking while filling comes to the same as building the automaton and laying it out. -/
theorem assemble_eq (d : Draft) (initial : Nat) :
    assemble d initial = (d.build initial).map Automaton.layout := by
  rw [assemble_eq_ofDraft]
  cases hproblem : d.problem? initial with
  | some problem =>
    rw [Draft.build_eq_error_iff.2 hproblem]
    rfl
  | none =>
    have hbuild := Draft.build_eq_ok_iff.2 ⟨Draft.problem?_eq_none_iff.1 hproblem, rfl⟩
    rw [hbuild, ← Automaton.layout_of_build hbuild]
    rfl

end Layout

end ShortestWitness
