import Mathlib
import ShortestWitness.Proofs.Automaton.Assembly
import ShortestWitness.Proofs.Automaton.Problems

/-!
# Why a draft is refused

A draft that cannot be built may have many faults, and the first one is reported: that of the initial
state, of the names, of the marks and then of the edges, each from the first to the last (`Fault`). An
edge in conflict with earlier ones is reported against the first of its kind. The states that a conflict
is about are given by name. When the names are looked up the ends of the edge have been checked, and so
have those of the edge before it, so a pass that would stop at any look-up outside of its sequence
never does (`Layout.assemble?_eq`).
-/

namespace ShortestWitness

namespace Draft

/-- The first of the edges that has the source and the symbol of `e`, if there is one. -/
def firstOfKind (edges : List Edge) (e : Edge) : List Edge :=
  (edges.find? fun f => f.source = e.source ∧ f.symbol = e.symbol).toList

/-- The initial state, the names and the marks are fine. -/
structure HasStates (d : Draft) (initial : Nat) : Prop where
  initial_lt : initial < d.size
  nodup : d.names.toList.Nodup
  accepting_lt : ∀ p ∈ d.accepting, p < d.size

/-- What is wrong with a draft that cannot be built, as it is reported. -/
inductive Fault (d : Draft) (initial : Nat) : DraftError → Prop
  | initial : d.size ≤ initial → Fault d initial (.unknownInitial initial)
  | name {before after : List String} {name : String} : initial < d.size →
      d.names.toList = before ++ name :: after → before.Nodup → name ∈ before →
      Fault d initial (.duplicateName name)
  | mark {before after : List Nat} {p : Nat} : initial < d.size → d.names.toList.Nodup →
      d.accepting.toList = before ++ p :: after → (∀ q ∈ before, q < d.size) → d.size ≤ p →
      Fault d initial (.unknownAccepting p)
  | edge {before after : List Edge} {e : Edge} {problem : DraftError} : d.HasStates initial →
      d.edges.toList = before ++ e :: after → d.InOrder before →
      EdgeFault d (firstOfKind before e) e problem → Fault d initial problem

variable {d : Draft} {initial : Nat} {edges before : List Edge} {e f : Edge} {problem : DraftError}

/-! ## Conflicts with the first edge of a kind -/

/-- It is an edge of the same kind with none before it. -/
theorem mem_firstOfKind_iff : f ∈ firstOfKind edges e ↔ f.source = e.source ∧ f.symbol = e.symbol ∧
    ∃ earlier later, edges = earlier ++ f :: later ∧
      ∀ g ∈ earlier, ¬ (g.source = e.source ∧ g.symbol = e.symbol) := by
  rw [firstOfKind, Option.mem_toList, List.find?_eq_some_iff_append]
  simp only [decide_eq_true_eq, Bool.not_eq_true', decide_eq_false_iff_not, and_assoc]

/-- As long as the edges are in order, it makes no difference which one of a kind is looked at. -/
theorem InOrder.edgeFault_firstOfKind_iff (h : d.InOrder before) :
    EdgeFault d (firstOfKind before e) e problem ↔ EdgeFault d before e problem := by
  constructor
  · intro hfault
    cases hfault with
    | source hs => exact .source hs
    | target hs ht => exact .target hs ht
    | symbol hs ht hc => exact .symbol hs ht hc
    | conflict he hf hagree hstate hfirst hsecond =>
      obtain ⟨-, -, earlier, later, rfl, -⟩ := mem_firstOfKind_iff.1 hf
      exact .conflict he (by simp) hagree hstate hfirst hsecond
  · intro hfault
    cases hfault with
    | source hs => exact .source hs
    | target hs ht => exact .target hs ht
    | symbol hs ht hc => exact .symbol hs ht hc
    | @conflict f _ _ _ he hf hagree hstate hfirst hsecond =>
      obtain ⟨hsource, hsymbol, hne⟩ : f.source = e.source ∧ f.symbol = e.symbol ∧
          f.target ≠ e.target := by
        simpa [Agree] using hagree
      cases hfind : before.find? fun g => g.source = e.source ∧ g.symbol = e.symbol with
      | none => exact absurd (List.find?_eq_none.1 hfind f hf) (by simp [hsource, hsymbol])
      | some g =>
        -- the first edge of the kind has the same target, and so the same name is reported
        obtain ⟨hg, hgsource, hgsymbol⟩ := of_find?_kind hfind
        have htarget : g.target = f.target :=
          h.agree g hg f hf (hgsource.trans hsource.symm) (hgsymbol.trans hsymbol.symm)
        have hmem : g ∈ firstOfKind before e := Option.mem_toList.2 hfind
        exact .conflict he hmem (fun hagree => hne (htarget ▸ hagree hgsource hgsymbol)) hstate
          (htarget ▸ hfirst) hsecond

/-! ## The order of the faults -/

/-- The first mark that is no state, with marks of states before it. -/
theorem find?_mark_eq_some_iff {p : Nat} : d.accepting.find? (d.size ≤ ·) = some p ↔
    ∃ before after, d.accepting.toList = before ++ p :: after ∧ (∀ q ∈ before, q < d.size) ∧
      d.size ≤ p := by
  rw [← Array.find?_toList, List.find?_eq_some_iff_append]
  simp only [decide_eq_true_eq, Bool.not_eq_true', decide_eq_false_iff_not, Nat.not_le]
  constructor
  · rintro ⟨hp, before, after, hsplit, hbefore⟩
    exact ⟨before, after, hsplit, hbefore, hp⟩
  · rintro ⟨before, after, hsplit, hbefore, hp⟩
    exact ⟨hp, before, after, hsplit, hbefore⟩

/-- The problem that is found is there, and is the first one. -/
theorem Fault.of_problem? (h : d.problem? initial = some problem) : Fault d initial problem := by
  by_cases hinitial : d.size ≤ initial
  · rw [problem?, if_pos hinitial] at h
    obtain rfl := Option.some.inj h
    exact .initial hinitial
  have hlt := Nat.lt_of_not_le hinitial
  cases hname : firstRepeat? d.names.toList with
  | some name =>
    rw [problem?, if_neg hinitial, hname] at h
    obtain rfl := Option.some.inj h
    obtain ⟨before, after, hsplit, hnodup, hmem⟩ := firstRepeat?_eq_some_iff.1 hname
    exact .name hlt hsplit hnodup hmem
  | none =>
    have hnodup := firstRepeat?_eq_none_iff.1 hname
    cases hmark : d.accepting.find? (d.size ≤ ·) with
    | some p =>
      rw [problem?, if_neg hinitial, hname, hmark] at h
      obtain rfl := Option.some.inj h
      obtain ⟨before, after, hsplit, hbefore, hp⟩ := find?_mark_eq_some_iff.1 hmark
      exact .mark hlt hnodup hsplit hbefore hp
    | none =>
      have hmarks : ∀ p ∈ d.accepting, p < d.size := by
        simpa [Array.find?_eq_none] using hmark
      obtain ⟨before, e, after, hsplit, hinOrder, hfault⟩ :=
        (build_eq_error_iff_of_nodup hlt hnodup hmarks).1 (build_eq_error_iff.2 h)
      exact .edge ⟨hlt, hnodup, hmarks⟩ hsplit hinOrder (hinOrder.edgeFault_firstOfKind_iff.2 hfault)

/-- The first problem that is there is found. -/
theorem Fault.problem?_eq (h : Fault d initial problem) : d.problem? initial = some problem := by
  cases h with
  | initial hinitial => rw [problem?, if_pos hinitial]; rfl
  | @name before after name hlt hsplit hnodup hmem =>
    have hname := firstRepeat?_eq_some_iff.2 ⟨before, after, hsplit, hnodup, hmem⟩
    rw [problem?, if_neg (Nat.not_le.2 hlt), hname]
    rfl
  | @mark before after p hlt hnodup hsplit hbefore hp =>
    have hmark := find?_mark_eq_some_iff.2 ⟨before, after, hsplit, hbefore, hp⟩
    rw [problem?, if_neg (Nat.not_le.2 hlt), firstRepeat?_eq_none_iff.2 hnodup, hmark]
    rfl
  | @edge before after e problem hstates hsplit hinOrder hfault =>
    refine build_eq_error_iff.1 ?_
    exact (build_eq_error_iff_of_nodup hstates.initial_lt hstates.nodup hstates.accepting_lt).2
      ⟨before, e, after, hsplit, hinOrder, hinOrder.edgeFault_firstOfKind_iff.1 hfault⟩

/-- A draft is refused with its fault. -/
theorem build_eq_error_iff_fault : d.build initial = .error problem ↔ Fault d initial problem :=
  build_eq_error_iff.trans ⟨Fault.of_problem?, Fault.problem?_eq⟩

end Draft

/-! ## Look-ups -/

namespace Layout

/-- A pass that may report a problem, and comes to nothing if anything is looked up outside of its
sequence. -/
abbrev Attempt := ExceptT DraftError Option

/-- What a stage without look-ups comes to. -/
def reported {α : Type} (x : Except DraftError α) : Attempt α := ExceptT.mk (some x)

/-- The name of a state, which has to exist. -/
def lookUpName (d : Draft) (p : Nat) : Attempt String := ExceptT.mk (d.names[p]?.map .ok)

/-- The table with an entry at an address, which has to be one of the table. -/
def setEntry (table : List (Option Nat)) (a q : Nat) : Attempt (List (Option Nat)) :=
  if a < table.length then pure (table.set a (some q)) else ExceptT.mk none

/-- Gives the target of an edge. The ends of an edge are named if it contradicts an edge before it, and
also if it repeats one. -/
def addEdge? (d : Draft) (m : Moves) (e : Edge) : Attempt Moves :=
  if d.size ≤ e.source then throw (.unknownState e.source)
  else if d.size ≤ e.target then throw (.unknownState e.target)
  else
    match d.alphabet.position e.symbol with
    | none => throw (.unknownSymbol e.symbol)
    | some i =>
      match m.given[(e.source, i)]? with
      | some first => do
        let state ← lookUpName d e.source
        let second ← lookUpName d e.target
        if first = e.target then return m
        let firstName ← lookUpName d first
        throw (.conflict state e.symbol firstName second)
      | none => do
        let table ← setEntry m.table (e.source * d.alphabet.size + i) e.target
        return { given := m.given.insert (e.source, i) e.target, table }

/-- The layout of a draft or the first thing that is wrong with the draft, or nothing at all if a name or
an entry is looked up that is not there. -/
def assemble? (d : Draft) (initial : Nat) : Attempt Layout := do
  if d.size ≤ initial then throw (.unknownInitial initial)
  let names ← reported (d.names.toList.zipIdx.foldlM addName [])
  let accepting ← reported (d.accepting.toList.foldlM addMark (List.replicate d.size false))
  let moves ← d.edges.toList.foldlM (addEdge? d) ⟨∅, blankTable d⟩
  return ⟨d.alphabet.symbols, initial, accepting, names, moves.table⟩

variable {d : Draft} {m m' : Moves} {e : Edge} {p a q initial : Nat} {table : List (Option Nat)}

theorem lookUpName_of_lt (h : p < d.size) :
    lookUpName d p = reported (.ok (d.names.getD p "")) := by
  simp [lookUpName, reported, h]

theorem setEntry_of_lt (h : a < table.length) :
    setEntry table a q = reported (.ok (table.set a (some q))) := if_pos h

/-- What has been given is a state, and the table has an entry for each state and symbol. -/
structure InBounds (d : Draft) (m : Moves) : Prop where
  given_lt : ∀ {k : Nat × Nat} {q : Nat}, m.given[k]? = some q → q < d.size
  length_table : m.table.length = d.size * d.alphabet.size

theorem inBounds_blankTable (d : Draft) : InBounds d ⟨∅, blankTable d⟩ where
  given_lt h := by simp at h
  length_table := List.length_replicate

/-- The ends of an edge are states, and so is the target that has been given before. -/
theorem addEdge?_eq (h : InBounds d m) (e : Edge) : addEdge? d m e = reported (addEdge d m e) := by
  unfold addEdge? addEdge
  by_cases hs : d.size ≤ e.source
  · rw [if_pos hs, if_pos hs]
    rfl
  by_cases ht : d.size ≤ e.target
  · rw [if_neg hs, if_neg hs, if_pos ht, if_pos ht]
    rfl
  rw [if_neg hs, if_neg hs, if_neg ht, if_neg ht]
  cases hi : d.alphabet.position e.symbol with
  | none => rfl
  | some i =>
    cases hgiven : m.given[(e.source, i)]? with
    | none =>
      have haddress := address_lt (Nat.lt_of_not_le hs) (Alphabet.position_lt hi)
      rw [← h.length_table] at haddress
      simp only [hgiven, setEntry_of_lt haddress]
      rfl
    | some first =>
      simp only [hgiven, lookUpName_of_lt (Nat.lt_of_not_le hs),
        lookUpName_of_lt (Nat.lt_of_not_le ht), lookUpName_of_lt (h.given_lt hgiven)]
      by_cases hfirst : first = e.target
      · simp only [if_pos hfirst]
        rfl
      · simp only [if_neg hfirst]
        rfl

/-- An edge that is added keeps all later look-ups in bounds. -/
theorem InBounds.of_addEdge (h : InBounds d m) (hm : addEdge d m e = .ok m') : InBounds d m' := by
  unfold addEdge at hm
  by_cases hs : d.size ≤ e.source
  · rw [if_pos hs] at hm
    cases hm
  by_cases ht : d.size ≤ e.target
  · rw [if_neg hs, if_pos ht] at hm
    cases hm
  rw [if_neg hs, if_neg ht] at hm
  cases hi : d.alphabet.position e.symbol with
  | none =>
    rw [hi] at hm
    cases hm
  | some i =>
    rw [hi] at hm
    cases hgiven : m.given[(e.source, i)]? with
    | none =>
      simp only [hgiven] at hm
      obtain rfl := Except.ok.inj hm
      refine ⟨fun {k q} hq => ?_, List.length_set.trans h.length_table⟩
      by_cases hk : (e.source, i) = k
      · subst hk
        rw [Std.TreeMap.getElem?_insert_self] at hq
        exact Option.some.inj hq ▸ Nat.lt_of_not_le ht
      · rw [FiniteMap.getElem?_insert_of_ne hk] at hq
        exact h.given_lt hq
    | some first =>
      simp only [hgiven] at hm
      by_cases hfirst : first = e.target
      · rw [if_pos hfirst] at hm
        exact Except.ok.inj hm ▸ h
      · rw [if_neg hfirst] at hm
        cases hm

/-- Edge by edge, everything is looked up where it is. -/
theorem foldlM_addEdge?_eq (h : InBounds d m) (edges : List Edge) :
    edges.foldlM (addEdge? d) m = reported (edges.foldlM (addEdge d) m) := by
  induction edges generalizing m with
  | nil => rfl
  | cons e edges ih =>
    rw [List.foldlM_cons, List.foldlM_cons, addEdge?_eq h]
    cases hm : addEdge d m e with
    | error problem => rfl
    | ok m' => exact ih (h.of_addEdge hm)

/-- The pass never comes to nothing: it builds the automaton or reports what is wrong. -/
theorem assemble?_eq (d : Draft) (initial : Nat) :
    assemble? d initial = reported ((d.build initial).map Automaton.layout) := by
  have hedges := foldlM_addEdge?_eq (inBounds_blankTable d) d.edges.toList
  rw [← assemble_eq, assemble?, assemble, hedges]
  by_cases hinitial : d.size ≤ initial
  · simp only [hinitial, if_true]
    rfl
  simp only [hinitial, if_false]
  cases d.names.toList.zipIdx.foldlM addName [] with
  | error problem => rfl
  | ok names =>
    cases d.accepting.toList.foldlM addMark (List.replicate d.size false) with
    | error problem => rfl
    | ok accepting =>
      cases d.edges.toList.foldlM (addEdge d) ⟨∅, blankTable d⟩ <;> rfl

end Layout

/-- A draft that cannot be built has one fault, which is the error that is reported. Whatever is wrong
with the draft, no name and no entry of the table is looked up where there is none. -/
theorem Draft.build_error_exact (d : Draft) (initial : Nat) :
    (∀ problem, d.build initial = .error problem ↔ Fault d initial problem) ∧
      ((¬ ∃ M, d.build initial = .ok M) → ∃! problem, Fault d initial problem) ∧
      Layout.assemble? d initial = Layout.reported ((d.build initial).map Automaton.layout) := by
  refine ⟨fun problem => build_eq_error_iff_fault, fun h => ?_, Layout.assemble?_eq d initial⟩
  cases hbuild : d.build initial with
  | ok M => exact absurd ⟨M, hbuild⟩ h
  | error problem =>
    refine ⟨problem, build_eq_error_iff_fault.1 hbuild, fun other hother => ?_⟩
    exact Except.error.inj ((build_eq_error_iff_fault.2 hother).symm.trans hbuild)

/-- The conflict is with the first edge, which the third one repeats, and comes before the state that does
not exist. -/
example : (Draft.mk .standard #["p", "q", "r"] #[2] #[⟨0, 'a', 1⟩, ⟨1, 'b', 0⟩, ⟨0, 'a', 1⟩,
    ⟨0, 'a', 2⟩, ⟨1, 'a', 3⟩]).build 0 = .error (.conflict "p" 'a' "q" "r") := by
  cbv

end ShortestWitness
