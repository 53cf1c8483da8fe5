import Mathlib
import ShortestWitness.Proofs.Automaton.Draft

/-!
# The first problem of a draft

What is reported of a draft with several problems. Of the names it is the first that has been there
before (`firstRepeat?_eq_some_iff`). Of the edges it is the first with a fault, and all edges before it
are in order, so that those of one kind agree on their target: an edge is compared with the first of its
kind, but any other edge before it would do (`findSome?_edgeProblem?_eq_some_iff`).
-/

namespace ShortestWitness

/-- The name that is found repeats one before it or one that was seen, and nothing before it does. -/
theorem firstRepeat?_go_eq_some_iff {seen names : List String} {name : String} :
    firstRepeat?.go seen names = some name ↔ ∃ before after, names = before ++ name :: after ∧
      before.Nodup ∧ (∀ n ∈ before, n ∉ seen) ∧ (name ∈ before ∨ name ∈ seen) := by
  induction names generalizing seen with
  | nil => simp [firstRepeat?.go]
  | cons n names ih =>
    rw [firstRepeat?.go]
    constructor
    · intro h
      split at h <;> rename_i hn
      · obtain rfl := Option.some.inj h
        exact ⟨[], names, rfl, List.nodup_nil, fun _ hm => absurd hm List.not_mem_nil, .inr hn⟩
      · obtain ⟨before, after, rfl, hnodup, hseen, hname⟩ := ih.1 h
        refine ⟨n :: before, after, rfl, List.nodup_cons.2 ⟨fun hm => ?_, hnodup⟩,
          List.forall_mem_cons.2 ⟨hn, fun m hm => ?_⟩, ?_⟩
        · exact hseen n hm List.mem_cons_self
        · exact fun h => hseen m hm (List.mem_cons_of_mem _ h)
        · simp only [List.mem_cons] at hname ⊢
          tauto
    · intro h
      obtain ⟨before, after, heq, hnodup, hseen, hname⟩ := h
      cases before with
      | nil =>
        obtain ⟨rfl, rfl⟩ := List.cons.inj heq
        rw [if_pos (hname.resolve_left List.not_mem_nil)]
      | cons m before =>
        obtain ⟨rfl, rfl⟩ := List.cons.inj heq
        obtain ⟨hm, hseen⟩ := List.forall_mem_cons.1 hseen
        obtain ⟨hfresh, hnodup⟩ := List.nodup_cons.1 hnodup
        rw [if_neg hm, ih]
        refine ⟨before, after, rfl, hnodup, fun k hk h => ?_, ?_⟩
        · rcases List.mem_cons.1 h with rfl | h
          · exact hfresh hk
          · exact hseen k hk h
        · simp only [List.mem_cons] at hname ⊢
          tauto

/-- The names before the one that is found are all different, and it is one of them. -/
theorem firstRepeat?_eq_some_iff {names : List String} {name : String} :
    firstRepeat? names = some name ↔
      ∃ before after, names = before ++ name :: after ∧ before.Nodup ∧ name ∈ before := by
  simp [firstRepeat?, firstRepeat?_go_eq_some_iff]

namespace Draft

variable {d : Draft} {initial : Nat} {before later : List Edge} {e f : Edge} {problem : DraftError}

/-- The ends of the edge are states, and its symbol is in the alphabet. -/
structure HasParts (d : Draft) (e : Edge) : Prop where
  source_lt : e.source < d.size
  target_lt : e.target < d.size
  symbol_mem : e.symbol ∈ d.alphabet

/-- Two edges are not of one kind with different targets. -/
def Agree (e f : Edge) : Prop := e.source = f.source → e.symbol = f.symbol → e.target = f.target

/-- Nothing is wrong with the edges as far as they go. -/
structure InOrder (d : Draft) (edges : List Edge) : Prop where
  parts : ∀ e ∈ edges, d.HasParts e
  agree : ∀ e ∈ edges, ∀ f ∈ edges, Agree e f

/-- What is wrong with an edge that comes after others: its source is looked at first, then its target,
then its symbol, and then the edges before it. -/
inductive EdgeFault (d : Draft) (before : List Edge) (e : Edge) : DraftError → Prop
  | source : d.size ≤ e.source → EdgeFault d before e (.unknownState e.source)
  | target : e.source < d.size → d.size ≤ e.target → EdgeFault d before e (.unknownState e.target)
  | symbol : e.source < d.size → e.target < d.size → e.symbol ∉ d.alphabet →
      EdgeFault d before e (.unknownSymbol e.symbol)
  | conflict {f : Edge} {state first second : String} : d.HasParts e → f ∈ before → ¬ Agree f e →
      d.names[e.source]? = some state → d.names[f.target]? = some first →
      d.names[e.target]? = some second → EdgeFault d before e (.conflict state e.symbol first second)

/-! ## Edges one after the other -/

theorem of_find?_kind {edges : List Edge} {p : Nat} {c : Char}
    (h : edges.find? (fun e => e.source = p ∧ e.symbol = c) = some f) :
    f ∈ edges ∧ f.source = p ∧ f.symbol = c :=
  ⟨List.mem_of_find?_eq_some h, by simpa using List.find?_some h⟩

section Split

variable (hsplit : d.edges.toList = before ++ later)

include hsplit

theorem mem_edges_of_mem_before (hf : f ∈ before) : f ∈ d.edges := by
  rw [← Array.mem_toList_iff, hsplit]
  exact List.mem_append_left _ hf

/-- The first edge of a kind is looked for among the edges before first. -/
theorem target?_eq_or (p : Nat) (c : Char) : d.target? p c =
    ((before.find? fun e => e.source = p ∧ e.symbol = c).or
      (later.find? fun e => e.source = p ∧ e.symbol = c)).map Edge.target := by
  rw [target?, ← Array.find?_toList, hsplit, List.find?_append]

/-- As long as the edges are in order, the first of a kind has the target of any other. -/
theorem InOrder.target?_eq (h : d.InOrder before) (hf : f ∈ before) :
    d.target? f.source f.symbol = some f.target := by
  rw [target?_eq_or hsplit]
  cases hfind : before.find? fun e => e.source = f.source ∧ e.symbol = f.symbol with
  | none => exact absurd (List.find?_eq_none.1 hfind f hf) (by simp)
  | some g =>
    obtain ⟨hg, hsource, hsymbol⟩ := of_find?_kind hfind
    exact congrArg some (h.agree g hg f hf hsource hsymbol)

/-- Edges without a problem are in order, since each of them agrees with the first of its kind. -/
theorem forall_edgeProblem?_eq_none_iff :
    (∀ e ∈ before, d.edgeProblem? e = none) ↔ d.InOrder before := by
  simp only [edgeProblem?_eq_none_iff]
  constructor
  · intro h
    refine ⟨fun e he => ?_, fun e he f hf hsource hsymbol => ?_⟩
    · obtain ⟨hs, ht, hc, -⟩ := h e he
      exact ⟨hs, ht, hc⟩
    · obtain ⟨q, hq⟩ := exists_target?_of_mem (mem_edges_of_mem_before hsplit he)
      have htarget : q = e.target := (h e he).2.2.2 q hq
      rw [hsource, hsymbol] at hq
      exact htarget.symm.trans ((h f hf).2.2.2 q hq)
  · intro h e he
    obtain ⟨hs, ht, hc⟩ := h.parts e he
    refine ⟨hs, ht, hc, fun q hq => ?_⟩
    rw [h.target?_eq hsplit he] at hq
    exact (Option.some.inj hq).symm

end Split

section Next

variable {after : List Edge} (hsplit : d.edges.toList = before ++ e :: after) (h : d.InOrder before)

include hsplit

/-- The first target for an edge that is reached is another one only if an edge before it has it. -/
theorem exists_not_agree_of_target? {q : Nat} (hq : d.target? e.source e.symbol = some q)
    (hne : q ≠ e.target) : ∃ f ∈ before, f.target = q ∧ ¬ Agree f e := by
  rw [target?_eq_or hsplit] at hq
  cases hfind : before.find? fun f => f.source = e.source ∧ f.symbol = e.symbol with
  | none =>
    rw [hfind, List.find?_cons_of_pos (by simp)] at hq
    exact absurd (Option.some.inj hq).symm hne
  | some f =>
    rw [hfind] at hq
    obtain rfl : f.target = q := Option.some.inj hq
    obtain ⟨hf, hsource, hsymbol⟩ := of_find?_kind hfind
    exact ⟨f, hf, rfl, fun hagree => hne (hagree hsource hsymbol)⟩

include h

/-- The problem of the next edge is its fault. -/
theorem edgeProblem?_eq_some_iff : d.edgeProblem? e = some problem ↔ EdgeFault d before e problem := by
  constructor
  · intro hproblem
    by_cases hs : d.size ≤ e.source
    · rw [edgeProblem?, if_pos hs] at hproblem
      obtain rfl := Option.some.inj hproblem
      exact .source hs
    by_cases ht : d.size ≤ e.target
    · rw [edgeProblem?, if_neg hs, if_pos ht] at hproblem
      obtain rfl := Option.some.inj hproblem
      exact .target (Nat.lt_of_not_le hs) ht
    by_cases hc : e.symbol ∉ d.alphabet
    · rw [edgeProblem?, if_neg hs, if_neg ht, if_pos hc] at hproblem
      obtain rfl := Option.some.inj hproblem
      exact .symbol (Nat.lt_of_not_le hs) (Nat.lt_of_not_le ht) hc
    rw [edgeProblem?, if_neg hs, if_neg ht, if_neg hc] at hproblem
    have he : d.HasParts e := ⟨Nat.lt_of_not_le hs, Nat.lt_of_not_le ht, not_not.1 hc⟩
    obtain ⟨q, hq, hproblem⟩ := Option.bind_eq_some_iff.1 hproblem
    by_cases hne : q = e.target
    · rw [if_pos hne] at hproblem
      cases hproblem
    rw [if_neg hne] at hproblem
    obtain rfl := Option.some.inj hproblem
    obtain ⟨f, hf, rfl, hagree⟩ := exists_not_agree_of_target? hsplit hq hne
    have hname : ∀ {p}, p < d.size → d.names[p]? = some (d.names.getD p "") := fun hp => by
      simp [hp]
    exact .conflict he hf hagree (hname he.source_lt) (hname (h.parts f hf).target_lt)
      (hname he.target_lt)
  · intro hfault
    unfold edgeProblem?
    cases hfault with
    | source hs => rw [if_pos hs]
    | target hs ht => rw [if_neg (Nat.not_le.2 hs), if_pos ht]
    | symbol hs ht hc => rw [if_neg (Nat.not_le.2 hs), if_neg (Nat.not_le.2 ht), if_pos hc]
    | @conflict f state first second he hf hagree hstate hfirst hsecond =>
      obtain ⟨hsource, hsymbol, hne⟩ : f.source = e.source ∧ f.symbol = e.symbol ∧
          f.target ≠ e.target := by
        simpa [Agree] using hagree
      have hq := h.target?_eq hsplit hf
      rw [hsource, hsymbol] at hq
      rw [if_neg (Nat.not_le.2 he.source_lt), if_neg (Nat.not_le.2 he.target_lt),
        if_neg (not_not_intro he.symbol_mem), hq, Option.bind_some, if_neg hne]
      simp [Array.getD_eq_getD_getElem?, hstate, hfirst, hsecond]

end Next

/-- The problem that is found with the edges is the fault of the first edge that has one. -/
theorem findSome?_edgeProblem?_eq_some_iff : d.edges.toList.findSome? d.edgeProblem? = some problem ↔
    ∃ before e after, d.edges.toList = before ++ e :: after ∧ d.InOrder before ∧
      EdgeFault d before e problem := by
  rw [List.findSome?_eq_some_iff]
  constructor
  · intro h
    obtain ⟨before, e, after, hsplit, he, hbefore⟩ := h
    have hinOrder := (forall_edgeProblem?_eq_none_iff hsplit).1 hbefore
    exact ⟨before, e, after, hsplit, hinOrder, (edgeProblem?_eq_some_iff hsplit hinOrder).1 he⟩
  · intro h
    obtain ⟨before, e, after, hsplit, hinOrder, hfault⟩ := h
    exact ⟨before, e, after, hsplit, (edgeProblem?_eq_some_iff hsplit hinOrder).2 hfault,
      (forall_edgeProblem?_eq_none_iff hsplit).2 hinOrder⟩

/-- If the initial state, the names and the marks are fine, the edges are what may be wrong. -/
theorem build_eq_error_iff_of_nodup (hinitial : initial < d.size) (hnames : d.names.toList.Nodup)
    (haccepting : ∀ p ∈ d.accepting, p < d.size) : d.build initial = .error problem ↔
      ∃ before e after, d.edges.toList = before ++ e :: after ∧ d.InOrder before ∧
        EdgeFault d before e problem := by
  have hmarks : d.accepting.find? (d.size ≤ ·) = none := by
    simpa [Array.find?_eq_none] using haccepting
  rw [build_eq_error_iff, problem?, if_neg (Nat.not_le.2 hinitial), firstRepeat?_eq_none_iff.2 hnames,
    hmarks, ← findSome?_edgeProblem?_eq_some_iff]
  rfl

end Draft

end ShortestWitness
