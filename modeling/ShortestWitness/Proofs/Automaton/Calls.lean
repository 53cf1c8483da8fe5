import Mathlib
import ShortestWitness.Proofs.Automaton.Assembly

/-!
# Drafts made by calls

A draft is made by calls that add states, marks and edges one by one or several at once. What the calls
say is read off them without making the draft: the states in their order (`addedStates`), the states
that are marked in either of the two ways (`IsMarked`), and the edges. The draft can be built just if
this is coherent, and the automaton is the only one that it describes (`build_ofCalls_eq_ok_iff`). Where
among the calls a mark or an edge stands, and how often, is not part of what is said, so it makes no
difference, neither to whether the draft can be built nor to the automaton.
-/

namespace ShortestWitness.Draft

/-- A call that adds to a draft: one state, named by its number or otherwise, numbered states for truth
values, marks, or edges. -/
inductive Call where
  | state (accepting : Bool)
  | namedState (name : String) (accepting : Bool)
  | states (accepting : List Bool)
  | marks (states : List Nat)
  | edge (edge : Edge)
  | edges (edges : List Edge)
deriving DecidableEq

namespace Call

/-- What a call does to a draft. -/
def apply (d : Draft) : Call → Draft
  | .state accepting => d.addNumberedState accepting
  | .namedState name accepting => d.addState name accepting
  | .states accepting => d.addNumberedStates accepting
  | .marks ps => d.markAccepting ps
  | .edge e => d.addEdges [e]
  | .edges es => d.addEdges es

/-- The names of the states that a call adds to `n` states, and whether they are marked by the call. -/
def added (n : Nat) : Call → List (String × Bool)
  | .state accepting => [(numberedName n, accepting)]
  | .namedState name accepting => [(name, accepting)]
  | .states accepting => (accepting.zipIdx n).map fun s => (numberedName s.2, s.1)
  | _ => []

/-- The states that a call marks by their numbers. -/
def marked : Call → List Nat
  | .marks ps => ps
  | _ => []

def given : Call → List Edge
  | .edge e => [e]
  | .edges es => es
  | _ => []

/-- The call is one of those that add states. -/
def addsStates : Call → Bool
  | .state _ | .namedState .. | .states _ => true
  | _ => false

end Call

/-- The draft over an alphabet after some calls, made one after the other. -/
def ofCalls (A : Alphabet) (calls : List Call) : Draft := calls.foldl Call.apply (empty A)

/-- The names of the states that calls add to `n` states, and whether they are marked on the way. -/
def addedStates (n : Nat) : List Call → List (String × Bool)
  | [] => []
  | call :: calls => call.added n ++ addedStates (n + (call.added n).length) calls

/-- A state is marked if it is added as accepting, or by its number. -/
def IsMarked (calls : List Call) (p : Nat) : Prop :=
  (∃ name, (addedStates 0 calls)[p]? = some (name, true)) ∨ ∃ call ∈ calls, p ∈ call.marked

/-- An edge is given by one of the calls. -/
def IsGiven (calls : List Call) (e : Edge) : Prop := ∃ call ∈ calls, e ∈ call.given

/-- What the calls say fits together: names are different, what is marked or joined by an edge is a state,
edges read symbols of the alphabet, and edges from one state on one symbol have one target. -/
structure Coherent (A : Alphabet) (calls : List Call) (initial : Nat) : Prop where
  initial_lt : initial < (addedStates 0 calls).length
  nodup : ((addedStates 0 calls).map Prod.fst).Nodup
  marked_lt : ∀ p, IsMarked calls p → p < (addedStates 0 calls).length
  source_lt : ∀ e, IsGiven calls e → e.source < (addedStates 0 calls).length
  target_lt : ∀ e, IsGiven calls e → e.target < (addedStates 0 calls).length
  symbol_mem : ∀ e, IsGiven calls e → e.symbol ∈ A
  deterministic : ∀ e f, IsGiven calls e → IsGiven calls f → e.source = f.source →
    e.symbol = f.symbol → e.target = f.target

/-- The automaton is what the calls say. -/
structure IsSaid (A : Alphabet) (calls : List Call) (initial : Nat) (M : Automaton) : Prop where
  alphabet : M.alphabet = A
  size : M.size = (addedStates 0 calls).length
  initial : M.initial = initial
  name? : ∀ p, M.name? p = ((addedStates 0 calls).map Prod.fst)[p]?
  isAccepting : ∀ p, M.isAccepting p = true ↔ IsMarked calls p
  step : ∀ p c q, M.step p c = some q ↔ IsGiven calls ⟨p, c, q⟩

/-! ## What one call does -/

variable {A : Alphabet} {d : Draft} {calls calls' : List Call} {initial p n : Nat} {e : Edge}
  {M N : Automaton}

def addStates (d : Draft) (added : List (String × Bool)) : Draft :=
  added.foldl (fun d s => d.addState s.1 s.2) d

theorem alphabet_addStates (d : Draft) (added : List (String × Bool)) :
    (d.addStates added).alphabet = d.alphabet := by
  induction added generalizing d with
  | nil => rfl
  | cons s added ih => exact ih _

theorem edges_addStates (d : Draft) (added : List (String × Bool)) :
    (d.addStates added).edges = d.edges := by
  induction added generalizing d with
  | nil => rfl
  | cons s added ih => exact ih _

theorem names_addStates (d : Draft) (added : List (String × Bool)) :
    (d.addStates added).names.toList = d.names.toList ++ added.map Prod.fst := by
  induction added generalizing d with
  | nil => simp [addStates]
  | cons s added ih =>
    have hcons : d.addStates (s :: added) = (d.addState s.1 s.2).addStates added := rfl
    rw [hcons, ih, addState, Array.toList_push, List.append_assoc]
    rfl

/-- An added state that is accepting is marked with its number. -/
theorem mem_accepting_addStates {added : List (String × Bool)} :
    p ∈ (d.addStates added).accepting ↔
      p ∈ d.accepting ∨ ∃ i name, added[i]? = some (name, true) ∧ d.size + i = p := by
  induction added generalizing d with
  | nil => simp [addStates]
  | cons s added ih =>
    have hcons : d.addStates (s :: added) = (d.addState s.1 s.2).addStates added := rfl
    have hsize : (d.addState s.1 s.2).size = d.size + 1 := Array.size_push ..
    have hhead : p ∈ (d.addState s.1 s.2).accepting ↔ p ∈ d.accepting ∨ s.2 = true ∧ d.size = p := by
      unfold addState
      cases s.2 <;> simp [eq_comm]
    rw [hcons, ih, hsize, hhead, or_assoc]
    refine or_congr_right ?_
    constructor
    · rintro (⟨hs, rfl⟩ | ⟨i, name, hi, rfl⟩)
      · exact ⟨0, s.1, by rw [← hs]; rfl, rfl⟩
      · exact ⟨i + 1, name, hi, by omega⟩
    · rintro ⟨i, name, hi, rfl⟩
      cases i with
      | zero =>
        obtain rfl := Option.some.inj hi
        exact .inl ⟨rfl, rfl⟩
      | succ i => exact .inr ⟨i, name, hi, by omega⟩

theorem addNumberedStates_eq (d : Draft) (accepting : List Bool) :
    d.addNumberedStates accepting = d.addStates (Call.added d.size (.states accepting)) := by
  induction accepting generalizing d with
  | nil => rfl
  | cons b accepting ih =>
    have hsize : (d.addNumberedState b).size = d.size + 1 := Array.size_push ..
    have htail := ih (d.addNumberedState b)
    rw [hsize] at htail
    exact htail

/-- Every call adds states, marks and edges, most calls only one of these. -/
theorem Call.apply_eq (d : Draft) (call : Call) :
    call.apply d = ((d.addStates (call.added d.size)).markAccepting call.marked).addEdges call.given := by
  cases call with
  | states accepting => simp [apply, addNumberedStates_eq, marked, given, markAccepting, addEdges]
  | _ => simp [apply, addStates, added, marked, given, addNumberedState, markAccepting, addEdges]

/-! ## What calls do -/

/-- Later calls number their states from where the earlier ones stop. -/
theorem addedStates_append (n : Nat) (calls calls' : List Call) : addedStates n (calls ++ calls') =
    addedStates n calls ++ addedStates (n + (addedStates n calls).length) calls' := by
  induction calls generalizing n with
  | nil => rfl
  | cons call calls ih =>
    rw [List.cons_append, addedStates, ih, addedStates, List.length_append, List.append_assoc,
      Nat.add_assoc]

/-- A member of two lists in a row stands in the first or in the second of them. -/
theorem getElem?_append_eq_some_iff {α : Type} {l l' : List α} {a : α} :
    (l ++ l')[p]? = some a ↔ l[p]? = some a ∨ ∃ i, l'[i]? = some a ∧ l.length + i = p := by
  rcases Nat.lt_or_ge p l.length with hp | hp
  · rw [List.getElem?_append_left hp]
    refine ⟨.inl, fun h => h.resolve_right ?_⟩
    rintro ⟨i, -, hi⟩
    omega
  · rw [List.getElem?_append_right hp, List.getElem?_eq_none hp]
    constructor
    · exact fun h => .inr ⟨p - l.length, h, by omega⟩
    · rintro (h | ⟨i, hi, rfl⟩)
      · cases h
      · rwa [Nat.add_sub_cancel_left]

theorem mem_append_list {α : Type} {xs : Array α} {l : List α} {a : α} :
    a ∈ xs ++ l ↔ a ∈ xs ∨ a ∈ l := by
  rw [← Array.mem_toList_iff, Array.toList_appendList, List.mem_append, Array.mem_toList_iff]

theorem isMarked_append_singleton {call : Call} : IsMarked (calls ++ [call]) p ↔
    IsMarked calls p ∨ (∃ i name, (call.added (addedStates 0 calls).length)[i]? = some (name, true) ∧
      (addedStates 0 calls).length + i = p) ∨ p ∈ call.marked := by
  have hcall : ∀ call', (call' ∈ calls ++ [call] ∧ p ∈ call'.marked) ↔
      (call' ∈ calls ∧ p ∈ call'.marked) ∨ (call' = call ∧ p ∈ call'.marked) := by
    intro call'
    rw [List.mem_append, List.mem_singleton, or_and_right]
  unfold IsMarked
  rw [addedStates_append, Nat.zero_add, addedStates, addedStates, List.append_nil]
  simp only [getElem?_append_eq_some_iff, hcall, exists_or, exists_eq_left]
  rw [exists_comm]
  exact or_or_or_comm

/-- The draft is what the calls say. -/
structure Holds (A : Alphabet) (calls : List Call) (d : Draft) : Prop where
  alphabet : d.alphabet = A
  names : d.names.toList = (addedStates 0 calls).map Prod.fst
  accepting : ∀ p, p ∈ d.accepting ↔ IsMarked calls p
  edges : ∀ e, e ∈ d.edges ↔ IsGiven calls e

/-- The draft without states holds what no calls say. -/
theorem holds_empty (A : Alphabet) : Holds A [] (empty A) where
  alphabet := rfl
  names := rfl
  accepting p := by simp [empty, IsMarked, addedStates]
  edges e := by simp [empty, IsGiven]

namespace Holds

theorem size (h : Holds A calls d) : d.size = (addedStates 0 calls).length := by
  rw [← List.length_map Prod.fst, ← h.names, Array.length_toList]

/-- One more call adds what it says to the draft. -/
theorem apply (h : Holds A calls d) (call : Call) : Holds A (calls ++ [call]) (call.apply d) := by
  rw [Call.apply_eq]
  constructor
  · exact (alphabet_addStates d _).trans h.alphabet
  · refine (names_addStates d _).trans ?_
    rw [addedStates_append, Nat.zero_add, ← h.size, addedStates, addedStates, List.append_nil,
      List.map_append, h.names]
  · intro p
    show p ∈ (d.addStates (call.added d.size)).accepting ++ call.marked ↔ _
    rw [mem_append_list, mem_accepting_addStates, h.accepting, isMarked_append_singleton, h.size,
      or_assoc]
  · intro e
    show e ∈ (d.addStates (call.added d.size)).edges ++ call.given ↔ _
    rw [mem_append_list, edges_addStates, h.edges]
    simp [IsGiven, or_and_right, exists_or]

/-- The draft after some calls. -/
theorem ofCalls (A : Alphabet) (calls : List Call) : Holds A calls (Draft.ofCalls A calls) := by
  induction calls using List.reverseRecOn with
  | nil => exact holds_empty A
  | append_singleton calls call ih =>
    have hlast : Draft.ofCalls A (calls ++ [call]) = call.apply (Draft.ofCalls A calls) :=
      List.foldl_concat ..
    rw [hlast]
    exact ih.apply call

/-- Nothing is wrong with the draft just if what the calls say fits together. -/
theorem consistent_iff (h : Holds A calls d) : d.Consistent initial ↔ Coherent A calls initial := by
  constructor
  · intro hd
    exact ⟨h.size ▸ hd.initial_lt, h.names ▸ hd.nodup,
      fun p hp => h.size ▸ hd.accepting_lt p ((h.accepting p).2 hp),
      fun e he => h.size ▸ hd.source_lt e ((h.edges e).2 he),
      fun e he => h.size ▸ hd.target_lt e ((h.edges e).2 he),
      fun e he => h.alphabet ▸ hd.symbol_mem e ((h.edges e).2 he),
      fun e f he hf => hd.deterministic e ((h.edges e).2 he) f ((h.edges f).2 hf)⟩
  · intro hc
    exact ⟨h.size ▸ hc.initial_lt, h.names ▸ hc.nodup,
      fun p hp => h.size ▸ hc.marked_lt p ((h.accepting p).1 hp),
      fun e he => h.size ▸ hc.source_lt e ((h.edges e).1 he),
      fun e he => h.size ▸ hc.target_lt e ((h.edges e).1 he),
      fun e he => h.alphabet ▸ hc.symbol_mem e ((h.edges e).1 he),
      fun e he f hf => hc.deterministic e f ((h.edges e).1 he) ((h.edges f).1 hf)⟩

/-- The automaton of the draft is what the calls say. -/
theorem isSaid_automaton (h : Holds A calls d) (hd : d.Consistent initial) :
    IsSaid A calls initial (d.automaton initial hd) where
  alphabet := h.alphabet
  size := (size_automaton hd).trans h.size
  initial := rfl
  name? p := by rw [name?_automaton, ← h.names, Array.getElem?_toList]
  isAccepting p := by rw [isAccepting_automaton_iff, h.accepting]
  step p c q := by rw [step_automaton_iff, h.edges]

end Holds

/-! ## What comes of calls -/

/-- What calls say determines an automaton. -/
theorem IsSaid.unique (h : IsSaid A calls initial M) (h' : IsSaid A calls initial N) : M = N := by
  refine Automaton.eq_of_parts (h.alphabet.trans h'.alphabet.symm) (h.size.trans h'.size.symm)
    (h.initial.trans h'.initial.symm) (fun p => by rw [h.name?, h'.name?]) (fun p => ?_) fun p c => ?_
  · rw [Bool.eq_iff_iff, h.isAccepting, h'.isAccepting]
  · refine Option.ext fun q => ?_
    rw [h.step, h'.step]

/-- An automaton is built just if what the calls say fits together, and it is what they say. -/
theorem build_ofCalls_eq_ok_iff : (ofCalls A calls).build initial = .ok M ↔
    Coherent A calls initial ∧ IsSaid A calls initial M := by
  have h := Holds.ofCalls A calls
  rw [build_eq_ok_iff, ← h.consistent_iff]
  constructor
  · rintro ⟨hd, rfl⟩
    exact ⟨hd, h.isSaid_automaton hd⟩
  · rintro ⟨hd, hM⟩
    exact ⟨hd, (h.isSaid_automaton hd).unique hM⟩

theorem exists_build_ofCalls_iff :
    (∃ M, (ofCalls A calls).build initial = .ok M) ↔ Coherent A calls initial := by
  have h := Holds.ofCalls A calls
  simp only [build_eq_ok_iff]
  rw [← h.consistent_iff]
  constructor
  · rintro ⟨_, hd, -⟩
    exact hd
  · exact fun hd => ⟨_, hd, rfl⟩

/-- The calls add the same states, not counting marks, mark the same states in whatever way, and give the
same edges. -/
structure SaysSame (calls calls' : List Call) : Prop where
  names : (addedStates 0 calls').map Prod.fst = (addedStates 0 calls).map Prod.fst
  marked : ∀ p, IsMarked calls' p ↔ IsMarked calls p
  given : ∀ e, IsGiven calls' e ↔ IsGiven calls e

namespace SaysSame

theorem length_eq (h : SaysSame calls calls') :
    (addedStates 0 calls').length = (addedStates 0 calls).length := by
  rw [← List.length_map Prod.fst, h.names, List.length_map]

theorem symm (h : SaysSame calls calls') : SaysSame calls' calls :=
  ⟨h.names.symm, fun p => (h.marked p).symm, fun e => (h.given e).symm⟩

/-- If one says what fits together, so does the other. -/
theorem coherent (h : SaysSame calls calls') (hc : Coherent A calls initial) :
    Coherent A calls' initial where
  initial_lt := h.length_eq ▸ hc.initial_lt
  nodup := h.names ▸ hc.nodup
  marked_lt p hp := h.length_eq ▸ hc.marked_lt p ((h.marked p).1 hp)
  source_lt e he := h.length_eq ▸ hc.source_lt e ((h.given e).1 he)
  target_lt e he := h.length_eq ▸ hc.target_lt e ((h.given e).1 he)
  symbol_mem e he := hc.symbol_mem e ((h.given e).1 he)
  deterministic e f he hf := hc.deterministic e f ((h.given e).1 he) ((h.given f).1 hf)

theorem isSaid (h : SaysSame calls calls') (hM : IsSaid A calls initial M) :
    IsSaid A calls' initial M where
  alphabet := hM.alphabet
  size := hM.size.trans h.length_eq.symm
  initial := hM.initial
  name? p := by rw [hM.name?, h.names]
  isAccepting p := by rw [hM.isAccepting, h.marked]
  step p c q := by rw [hM.step, h.given]

/-- Calls that say the same build the same. -/
theorem build_eq_ok_iff (h : SaysSame calls calls') :
    (ofCalls A calls').build initial = .ok M ↔ (ofCalls A calls).build initial = .ok M := by
  rw [build_ofCalls_eq_ok_iff, build_ofCalls_eq_ok_iff]
  constructor
  · rintro ⟨hc, hM⟩
    exact ⟨h.symm.coherent hc, h.symm.isSaid hM⟩
  · rintro ⟨hc, hM⟩
    exact ⟨h.coherent hc, h.isSaid hM⟩

end SaysSame

/-! ## Calls in another order -/

theorem Call.added_of_addsStates_eq_false {call : Call} (h : call.addsStates = false) (n : Nat) :
    call.added n = [] := by
  cases call with
  | marks | edge | edges => rfl
  | state | namedState | states => cases h

theorem Call.addsStates_eq_false {call : Call} (h : call.marked ≠ [] ∨ call.given ≠ []) :
    call.addsStates = false := by
  cases call with
  | marks | edge | edges => rfl
  | state | namedState | states => exact (h.elim (· rfl) (· rfl)).elim

/-- Marks and edges between them do not change what states calls add. -/
theorem addedStates_filter (n : Nat) (calls : List Call) :
    addedStates n (calls.filter Call.addsStates) = addedStates n calls := by
  induction calls generalizing n with
  | nil => rfl
  | cons call calls ih =>
    rw [addedStates]
    cases h : call.addsStates with
    | true => rw [List.filter_cons_of_pos h, addedStates, ih]
    | false =>
      rw [List.filter_cons_of_neg (by simp [h]), ih, Call.added_of_addsStates_eq_false h]
      rfl

/-- Calls that add marks and edges may be moved and repeated. -/
theorem SaysSame.of_filter_eq (hstates : calls'.filter Call.addsStates = calls.filter Call.addsStates)
    (hothers : ∀ call : Call, call.addsStates = false → (call ∈ calls' ↔ call ∈ calls)) :
    SaysSame calls calls' := by
  have hadded : addedStates 0 calls' = addedStates 0 calls := by
    rw [← addedStates_filter 0 calls', hstates, addedStates_filter]
  refine ⟨by rw [hadded], fun p => ?_, fun e => ?_⟩
  · unfold IsMarked
    rw [hadded]
    refine or_congr_right (exists_congr fun call => and_congr_left fun hp => ?_)
    exact hothers call (Call.addsStates_eq_false (.inl (List.ne_nil_of_mem hp)))
  · refine exists_congr fun call => and_congr_left fun he => ?_
    exact hothers call (Call.addsStates_eq_false (.inr (List.ne_nil_of_mem he)))

/-- A draft can be built just if what the calls say is coherent, and the automaton is what they say.
Calls that say the same build the same automaton or none, in particular if marks and edges are added
earlier, later or once more. A pass that checks the edges while it writes them into the table comes to
the same. -/
theorem build_ofCalls_exact (A : Alphabet) (calls : List Call) (initial : Nat) :
    ((∃ M, (ofCalls A calls).build initial = .ok M) ↔ Coherent A calls initial) ∧
      (∀ M, (ofCalls A calls).build initial = .ok M ↔
        Coherent A calls initial ∧ IsSaid A calls initial M) ∧
      (∀ calls', SaysSame calls calls' → ∀ M,
        (ofCalls A calls').build initial = .ok M ↔ (ofCalls A calls).build initial = .ok M) ∧
      (∀ calls', calls'.filter Call.addsStates = calls.filter Call.addsStates →
        (∀ call : Call, call.addsStates = false → (call ∈ calls' ↔ call ∈ calls)) → ∀ M,
          (ofCalls A calls').build initial = .ok M ↔ (ofCalls A calls).build initial = .ok M) ∧
      Layout.assemble (ofCalls A calls) initial =
        ((ofCalls A calls).build initial).map Automaton.layout :=
  ⟨exists_build_ofCalls_iff, fun _ => build_ofCalls_eq_ok_iff, fun _ h _ => h.build_eq_ok_iff,
    fun _ hstates hothers _ => (SaysSame.of_filter_eq hstates hothers).build_eq_ok_iff,
    Layout.assemble_eq _ _⟩

/-- The first edge and the marks come before the states that they are about. -/
def marksFirst : List Call :=
  [.edge ⟨0, 'a', 1⟩, .marks [1, 1], .state false, .edges [⟨1, 'b', 0⟩, ⟨0, 'a', 1⟩],
    .namedState "end" false]

/-- The same states, with a mark for the second, and the same edges, each once. -/
def statesFirst : List Call := [.states [false], .namedState "end" true,
  .edges [⟨1, 'b', 0⟩, ⟨0, 'a', 1⟩]]

/-- The calls with the states first, and with some of the others again. -/
def marksLast : List Call :=
  [.state false, .namedState "end" false, .edges [⟨1, 'b', 0⟩, ⟨0, 'a', 1⟩], .edge ⟨0, 'a', 1⟩,
    .edge ⟨0, 'a', 1⟩, .marks [1, 1]]

/-- All three build the automaton of the words that alternate, beginning and ending with `a`. -/
theorem build_ofCalls_marksFirst : ∃ M, (ofCalls .standard marksFirst).build 0 = .ok M ∧
    SaysSame marksFirst statesFirst ∧ (ofCalls .standard statesFirst).build 0 = .ok M ∧
    (ofCalls .standard marksLast).build 0 = .ok M ∧ M.machine.accepts ['a', 'b', 'a'] = true := by
  have hsame : SaysSame marksFirst statesFirst := by
    refine ⟨rfl, fun p => ?_, fun e => ?_⟩
    · rcases p with _ | _ | p <;>
        simp [IsMarked, marksFirst, statesFirst, addedStates, Call.added, Call.marked]
    · simp [IsGiven, marksFirst, statesFirst, Call.given, or_comm]
  have hstates : marksLast.filter Call.addsStates = marksFirst.filter Call.addsStates := rfl
  have hothers : ∀ call : Call, call.addsStates = false → (call ∈ marksLast ↔ call ∈ marksFirst) := by
    intro call hcall
    cases call <;> simp_all [marksLast, marksFirst, Call.addsStates]
  have haccepts : ((ofCalls .standard marksFirst).build 0).map (fun M => M.machine.accepts ['a', 'b', 'a'])
      = .ok true := by
    cbv
  cases hM : (ofCalls .standard marksFirst).build 0 with
  | error problem =>
    rw [hM] at haccepts
    cases haccepts
  | ok M =>
    rw [hM] at haccepts
    obtain ⟨-, -, hsaysSame, hmoved, -⟩ := build_ofCalls_exact .standard marksFirst 0
    exact ⟨M, rfl, hsame, (hsaysSame _ hsame M).2 hM, (hmoved _ hstates hothers M).2 hM,
      Except.ok.inj haccepts⟩

end ShortestWitness.Draft
