import ShortestWitness.Automaton.Basic
import ShortestWitness.Automaton.Name

/-!
# Completion

An automaton with missing moves is completed by one more state, the sink: all missing moves lead
there, and no move leads out of it. The sink rejects, so the accepted words stay the same. It is
named by the least number from its own on that is free. A complete automaton stays as it is.
-/

namespace ShortestWitness.Automaton

def names (M : Automaton) : List String := M.states.toList.map State.name

def sinkName (M : Automaton) : String := numberedName (freshNumber M.names M.size)

/-- The names after completion. -/
def nameWithSink (M : Automaton) (p : Fin (M.size + 1)) : String :=
  if h : p.val < M.states.size then M.states[p.val].name else M.sinkName

/-- No state has the name of the sink. -/
theorem sinkName_ne {M : Automaton} {p : Nat} (hp : p < M.states.size) :
    M.states[p].name ≠ M.sinkName := fun h =>
  freshNumber_not_mem M.names M.size
    (List.mem_map.2 ⟨_, Array.mem_toList_iff.2 (Array.getElem_mem hp), h⟩)

/-- The states and the sink have different names. -/
theorem nameWithSink_inj {M : Automaton} {p q : Fin (M.size + 1)}
    (h : M.nameWithSink p = M.nameWithSink q) : p = q := by
  unfold nameWithSink at h
  have hp := p.isLt
  have hq := q.isLt
  unfold size at hp hq
  split at h <;> split at h
  · exact Fin.ext (M.name_inj _ _ h)
  · exact absurd h (sinkName_ne _)
  · exact absurd h.symm (sinkName_ne _)
  · exact Fin.ext (by omega)

/-- The move after completion: the move before, or the move to the sink. -/
def stepOrSink (M : Automaton) (p : Fin (M.size + 1)) (c : Char) : Fin (M.size + 1) :=
  match h : M.step p c with
  | some q => ⟨q, Nat.lt_succ_of_lt (target_lt_of_step h)⟩
  | none => Fin.last M.size

/-- The automaton with a move from every state on every symbol that accepts the same words. -/
def completion (M : Automaton) : Automaton :=
  if M.isComplete then M
  else
    let initial : Fin (M.size + 1) := ⟨M.initial, Nat.lt_succ_of_lt M.initial_lt⟩
    tabulate M.alphabet initial M.nameWithSink nameWithSink_inj (fun p => M.isAccepting p)
      fun p c => some (M.stepOrSink p c)

end ShortestWitness.Automaton
