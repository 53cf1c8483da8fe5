import ShortestWitness.Automaton.Basic
import ShortestWitness.Automaton.Name

/-!
# Drafts of automata

A draft collects states, accepting marks and edges in any order and checks nothing. `build` checks
everything at once: it reports the first problem there is, and makes the automaton if there is
none. Drafts that say the same thing twice are fine, drafts that contradict themselves are not.
-/

namespace ShortestWitness

/-- What keeps a draft from being an automaton. In a conflict the states are given by name: the one that two
edges leave on the symbol, and their targets. -/
inductive DraftError where
  | unknownInitial (state : Nat)
  | unknownAccepting (state : Nat)
  | unknownState (state : Nat)
  | unknownSymbol (symbol : Char)
  | duplicateName (name : String)
  | conflict (state : String) (symbol : Char) (first second : String)
deriving DecidableEq, Repr

def DraftError.message : DraftError → String
  | .unknownInitial p => "initial state " ++ display p ++ " does not exist"
  | .unknownAccepting p => "accepting state " ++ display p ++ " does not exist"
  | .unknownState p => "transition refers to state " ++ display p ++ " which does not exist"
  | .unknownSymbol c => "symbol `" ++ display c ++ "` is not part of the alphabet"
  | .duplicateName name => "state name `" ++ name ++ "` is used more than once"
  | .conflict state c first second =>
    "state `" ++ state ++ "` has conflicting transitions on `" ++ display c ++ "` to `" ++ first ++
      "` and `" ++ second ++ "`"

/-- An automaton in the making. Marks and edges are kept in the order in which they were given. -/
structure Draft where
  alphabet : Alphabet
  names : Array String
  accepting : Array Nat
  edges : Array Edge
deriving DecidableEq

namespace Draft

def empty (A : Alphabet) : Draft := ⟨A, #[], #[], #[]⟩

abbrev size (d : Draft) : Nat := d.names.size

/-- Adds a state, whose number is the size before. -/
def addState (d : Draft) (name : String) (accepting : Bool) : Draft :=
  { d with
    names := d.names.push name
    accepting := if accepting then d.accepting.push d.size else d.accepting }

def addNumberedState (d : Draft) (accepting : Bool) : Draft :=
  d.addState (numberedName d.size) accepting

/-- Adds a state for each truth value, accepting where it is true. -/
def addNumberedStates (d : Draft) (accepting : List Bool) : Draft :=
  accepting.foldl addNumberedState d

def markAccepting (d : Draft) (states : List Nat) : Draft :=
  { d with accepting := d.accepting ++ states }

def addEdges (d : Draft) (edges : List Edge) : Draft := { d with edges := d.edges ++ edges }

/-- The target of the first edge from a state on a symbol. -/
def target? (d : Draft) (p : Nat) (c : Char) : Option Nat :=
  (d.edges.find? fun e => e.source = p ∧ e.symbol = c).map Edge.target

/-- What is wrong with an edge: first its ends are looked at, then its symbol, then the target of
the first edge that leaves the same state on the same symbol. -/
def edgeProblem? (d : Draft) (e : Edge) : Option DraftError :=
  if d.size ≤ e.source then some (.unknownState e.source)
  else if d.size ≤ e.target then some (.unknownState e.target)
  else if e.symbol ∉ d.alphabet then some (.unknownSymbol e.symbol)
  else
    (d.target? e.source e.symbol).bind fun first =>
      if first = e.target then none
      else some (.conflict (d.names.getD e.source "") e.symbol (d.names.getD first "")
        (d.names.getD e.target ""))

/-- The first thing that is wrong: with the initial state, the names, the marks, the edges. -/
def problem? (d : Draft) (initial : Nat) : Option DraftError :=
  (if d.size ≤ initial then some (.unknownInitial initial) else none)
    <|> (firstRepeat? d.names.toList).map .duplicateName
    <|> (d.accepting.find? (d.size ≤ ·)).map .unknownAccepting
    <|> d.edges.toList.findSome? d.edgeProblem?

/-- Nothing is wrong with the draft. -/
structure Consistent (d : Draft) (initial : Nat) : Prop where
  initial_lt : initial < d.size
  nodup : d.names.toList.Nodup
  accepting_lt : ∀ p ∈ d.accepting, p < d.size
  source_lt : ∀ e ∈ d.edges, e.source < d.size
  target_lt : ∀ e ∈ d.edges, e.target < d.size
  symbol_mem : ∀ e ∈ d.edges, e.symbol ∈ d.alphabet
  deterministic : ∀ e ∈ d.edges, ∀ f ∈ d.edges, e.source = f.source → e.symbol = f.symbol →
    e.target = f.target

theorem mem_edges_of_target? {d : Draft} {p q : Nat} {c : Char} (h : d.target? p c = some q) :
    ⟨p, c, q⟩ ∈ d.edges := by
  obtain ⟨e, he, rfl⟩ := Option.map_eq_some_iff.1 h
  have hp := Array.find?_some he
  simp only [decide_eq_true_eq] at hp
  obtain ⟨rfl, rfl⟩ := hp
  exact Array.mem_of_find?_eq_some he

/-- Where there is an edge, there is a first edge of its kind. -/
theorem exists_target?_of_mem {d : Draft} {e : Edge} (he : e ∈ d.edges) :
    ∃ q, d.target? e.source e.symbol = some q := by
  refine Option.ne_none_iff_exists'.1 fun h => ?_
  rw [target?, Option.map_eq_none_iff, Array.find?_eq_none] at h
  exact h e he (by simp)

/-- An edge is in order if its parts exist and the first edge of its kind has its target. -/
theorem edgeProblem?_eq_none_iff {d : Draft} {e : Edge} :
    d.edgeProblem? e = none ↔ e.source < d.size ∧ e.target < d.size ∧ e.symbol ∈ d.alphabet ∧
      ∀ q, d.target? e.source e.symbol = some q → q = e.target := by
  unfold edgeProblem?
  by_cases hs : d.size ≤ e.source
  · simp [hs, Nat.not_lt.2 hs]
  by_cases ht : d.size ≤ e.target
  · simp [hs, ht, Nat.not_lt.2 ht]
  by_cases hc : e.symbol ∈ d.alphabet
  · rw [if_neg hs, if_neg ht, if_neg (not_not_intro hc), Option.bind_eq_none_iff]
    simp only [Nat.not_le.1 hs, Nat.not_le.1 ht, hc, true_and]
    refine forall_congr' fun q => forall_congr' fun _ => ?_
    by_cases h : q = e.target <;> simp [h]
  · simp [hs, ht, hc]

/-- No problem is found just if there is none. -/
theorem problem?_eq_none_iff {d : Draft} {initial : Nat} :
    d.problem? initial = none ↔ d.Consistent initial := by
  simp only [problem?, Option.orElse_eq_orElse, Option.orElse_eq_or, Option.or_eq_none_iff,
    Option.map_eq_none_iff, firstRepeat?_eq_none_iff, Array.find?_eq_none,
    List.findSome?_eq_none_iff, Array.mem_toList_iff, decide_eq_true_eq, Nat.not_le,
    edgeProblem?_eq_none_iff]
  constructor
  · rintro ⟨hi, hn, ha, he⟩
    refine ⟨by by_cases h : d.size ≤ initial <;> simp_all, hn, ha, fun e h => (he e h).1,
      fun e h => (he e h).2.1, fun e h => (he e h).2.2.1, fun e hme f hmf hs hc => ?_⟩
    obtain ⟨q, hq⟩ := exists_target?_of_mem hme
    rw [← (he e hme).2.2.2 q hq, ← (he f hmf).2.2.2 q (hs ▸ hc ▸ hq)]
  · intro h
    exact ⟨if_neg (Nat.not_le.2 h.initial_lt), h.nodup, h.accepting_lt, fun e he =>
      ⟨h.source_lt e he, h.target_lt e he, h.symbol_mem e he, fun q hq =>
        h.deterministic _ (mem_edges_of_target? hq) e he rfl rfl⟩⟩

/-- Where nothing is wrong, a name belongs to one state. -/
theorem Consistent.name_inj {d : Draft} {initial : Nat} (hd : d.Consistent initial) {p q : Nat}
    (hp : p < d.names.size) (hq : q < d.names.size) (h : d.names[p] = d.names[q]) : p = q := by
  have hne := List.pairwise_iff_getElem.1 hd.nodup
  rcases Nat.lt_trichotomy p q with hlt | heq | hlt
  · exact absurd h (by simpa using hne p q hp hq hlt)
  · exact heq
  · exact absurd h.symm (by simpa using hne q p hq hp hlt)

/-- The automaton of a draft with nothing wrong: where edges repeat, the first one counts. -/
def automaton (d : Draft) (initial : Nat) (hd : d.Consistent initial) : Automaton :=
  Automaton.tabulate d.alphabet ⟨initial, hd.initial_lt⟩ (fun p => d.names[p])
    (fun h => Fin.ext (hd.name_inj _ _ h)) (fun p => p.val ∈ d.accepting)
    fun p c =>
      match h : d.target? p c with
      | none => none
      | some q => some ⟨q, hd.target_lt _ (mem_edges_of_target? h)⟩

/-- The automaton of a draft, or the first thing that is wrong with it. -/
def build (d : Draft) (initial : Nat) : Except DraftError Automaton :=
  match h : d.problem? initial with
  | some e => .error e
  | none => .ok (d.automaton initial (problem?_eq_none_iff.1 h))

end Draft

end ShortestWitness
