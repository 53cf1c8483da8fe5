import Mathlib
import ShortestWitness.Proofs.Automaton.Assembly
import ShortestWitness.Proofs.Automaton.Drawing
import ShortestWitness.Proofs.Line.Decode

/-!
# Whatever is made fits together

A layout is assembled from a draft, read from a line, drawn, or completed, and each time its sequences are
filled in another way, with nothing in its type to keep them in step. Each way fills the layout of an
automaton (`Made.exists_automaton`): the one that is built from the same draft, read from the same line,
drawn from the same source, or completed. So the sequences of whatever is made fit together, and what
follows for steps, names, runs and moves is put together in `Layout.made_exact`.
-/

namespace ShortestWitness

variable {σ : Type}

namespace Layout

/-- The layout that a line describes: the draft is read, and then checked while its layout is filled. -/
def ofLine (A : Alphabet) (line : String) : Except DecodeError Layout := do
  let d ← Decode.read A line.toList
  (assemble d 0).mapError .inconsistent

/-- The layouts that come of any number of completions of what is assembled from a draft, read from a
line, or drawn. -/
inductive Made (D : Draws σ) : Layout → Prop
  | draft {d : Draft} {initial : Nat} {L : Layout} : assemble d initial = .ok L → Made D L
  | line {A : Alphabet} {line : String} {L : Layout} : ofLine A line = .ok L → Made D L
  | drawn {shape : Automaton.Shape} {draw : StateM σ Layout} (s : σ) :
      random D shape = .ok draw → Made D (draw s).1
  | completion {L : Layout} : Made D L → Made D L.completion

/-- A line is read and laid out as the automaton that it describes. -/
theorem ofLine_eq (A : Alphabet) (line : String) :
    ofLine A line = (Automaton.ofLine A line).map Automaton.layout := by
  show _ = (Decode.decode A line.toList).map Automaton.layout
  unfold ofLine Decode.decode
  cases Decode.read A line.toList with
  | error e => rfl
  | ok d =>
    show (assemble d 0).mapError DecodeError.inconsistent =
      ((d.build 0).mapError DecodeError.inconsistent).map _
    rw [assemble_eq]
    cases d.build 0 <;> rfl

theorem exists_automaton_of_map {ε : Type} {x : Except ε Automaton} {L : Layout}
    (h : x.map Automaton.layout = .ok L) : ∃ M : Automaton, M.layout = L := by
  obtain ⟨M, -, hM⟩ := map_eq_ok_iff.1 h
  exact ⟨M, hM⟩

/-- Whatever is made is the layout of an automaton. -/
theorem Made.exists_automaton {D : Draws σ} (hD : D.Bounded) {L : Layout} (h : Made D L) :
    ∃ M : Automaton, M.layout = L := by
  induction h with
  | @draft d initial _ h => exact exists_automaton_of_map (assemble_eq d initial ▸ h)
  | @line A line _ h => exact exists_automaton_of_map (ofLine_eq A line ▸ h)
  | @drawn shape _ s h =>
    rw [← Automaton.layout_randomFrom D hD] at h
    obtain ⟨draw, -, rfl⟩ := map_eq_ok_iff.1 h
    exact ⟨(draw s).1, rfl⟩
  | completion _ ih =>
    obtain ⟨M, rfl⟩ := ih
    exact ⟨M.completion, Automaton.layout_completion M⟩

/-- However a layout is made, from any source that keeps numbers below their bounds, it is the layout of
the automaton that is made in the same way and of no other, and its sequences fit together. So a step never
reads outside the table and leads to states only, numbers and names determine each other, all states that
a run ends in have a mark, and the moves are listed once each, by source and then by symbol. -/
theorem made_exact (D : Draws σ) (hD : D.Bounded) :
    (∀ d initial, assemble d initial = (d.build initial).map Automaton.layout) ∧
    (∀ A line, ofLine A line = (Automaton.ofLine A line).map Automaton.layout) ∧
    (∀ shape, random D shape =
      (Automaton.randomFrom D hD shape).map fun draw => Automaton.layout <$> draw) ∧
    (∀ M : Automaton, M.layout.completion = M.completion.layout) ∧
    ∀ L, Made D L →
      (∃ M : Automaton, M.layout = L ∧ L.Answers M ∧ ∀ N : Automaton, N.layout = L → N = M) ∧
      L.Valid ∧ 0 < L.size ∧
      (∀ p c a, L.address? p c = some a → a < L.table.length) ∧
      (∀ p c q, L.step p c = some q → q < L.size) ∧
      (∀ p, (L.name? p).isSome ↔ p < L.size) ∧
      (∀ p name, L.named? name = some p ↔ L.name? p = some name) ∧
      (∀ w q, L.run w = some q → (L.accepting[q]?).isSome) ∧
      (∀ p c q, ⟨p, c, q⟩ ∈ L.edges ↔ L.step p c = some q) ∧
      L.edges.Nodup ∧ L.edges.Pairwise L.EdgeBefore := by
  refine ⟨assemble_eq, ofLine_eq, fun shape => (Automaton.layout_randomFrom D hD shape).symm,
    fun M => (Automaton.layout_completion M).symm, fun L hL => ?_⟩
  obtain ⟨M, rfl⟩ := hL.exists_automaton hD
  have hvalid := Automaton.valid_layout M
  exact ⟨⟨M, rfl, Automaton.answers_layout M, fun _ => Automaton.layout_injective⟩, hvalid,
    hvalid.size_pos, fun _ _ _ => hvalid.lt_of_address?, fun _ _ _ => hvalid.step_lt,
    fun _ => hvalid.isSome_name?_iff, fun _ _ => hvalid.named?_eq_some_iff,
    fun _ _ => hvalid.isSome_accepting_of_run, fun _ _ _ => mem_edges, hvalid.nodup_edges,
    hvalid.pairwise_edges⟩

/-- The completion of what is read from a line, and of whatever the generator draws for three states over
two letters. -/
theorem made_exact_generator : Generator.draws.Bounded ∧
    (∃ L, ofLine .standard "q0q1f,q0aq1" = .ok L ∧ Made Generator.draws L.completion ∧
      L.completion = ⟨['a', 'b'], 0, [false, true, false], [(0, "q0"), (1, "q1"), (2, "q2")],
        [some 1, some 2, some 2, some 2, some 2, some 2]⟩ ∧ L.completion.Valid) ∧
    ∃ draw, random Generator.draws ⟨2, 3, 0.5, 0.5⟩ = .ok draw ∧
      ∀ g, Made Generator.draws (draw g).1.completion ∧ (draw g).1.completion.Valid := by
  have hline : (ofLine .standard "q0q1f,q0aq1").map completion =
      .ok ⟨['a', 'b'], 0, [false, true, false], [(0, "q0"), (1, "q1"), (2, "q2")],
        [some 1, some 2, some 2, some 2, some 2, some 2]⟩ := by
    cbv
  obtain ⟨L, hL, hcompletion⟩ := map_eq_ok_iff.1 hline
  have hmade : Made Generator.draws L.completion := .completion (.line hL)
  have hshape : random Generator.draws ⟨2, 3, 0.5, 0.5⟩ =
      .ok (draw Generator.draws (.ofList ['a', 'b']) 3 0.5 0.5) := rfl
  have hexact := (made_exact Generator.draws Generator.bounded_draws).2.2.2.2
  refine ⟨Generator.bounded_draws, ⟨L, hL, hmade, hcompletion, (hexact _ hmade).2.1⟩, _, hshape,
    fun g => ?_⟩
  have hdrawn : Made Generator.draws _ := .completion (.drawn g hshape)
  exact ⟨hdrawn, (hexact _ hdrawn).2.1⟩

end Layout

end ShortestWitness
