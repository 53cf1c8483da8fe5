import Mathlib.Data.List.Nodup
import Mathlib.Data.List.Perm.Subperm
import ShortestWitness.Proofs.Machine.Run
import ShortestWitness.Proofs.Word.Order

/-!
# The path of the first accepted word

The first of all words that are accepted from a state goes on, wherever its run has got to, with the
first of all words that are accepted from there (`least_of_append`). So its run does not come back to
a state and does not pass an accepting one before the end (`nodup_pathFrom`, `color_of_mem_dropLast`),
and it has fewer symbols than there are states (`length_lt_of_least`).
-/

namespace ShortestWitness.Machine

variable {σ κ : Type}

/-- The states that the run from `p` passes on a word, with `p` and its end. -/
def pathFrom (S : Machine σ κ) (p : σ) : Word → List σ
  | [] => [p]
  | c :: w =>
    match S.step p c with
    | none => [p]
    | some q => p :: S.pathFrom q w

def path (S : Machine σ κ) (w : Word) : List σ := S.pathFrom S.initial w

section Path

variable {S : Machine σ κ} {p q : σ} {c : Char} {w : Word}

theorem pathFrom_cons (h : S.step p c = some q) : S.pathFrom p (c :: w) = p :: S.pathFrom q w := by
  rw [pathFrom, h]

/-- A path has one state more than the word has symbols. -/
theorem length_pathFrom (h : S.runFrom p w = some q) : (S.pathFrom p w).length = w.length + 1 := by
  induction w generalizing p with
  | nil => rfl
  | cons c w ih =>
    obtain ⟨r, hr, hw⟩ := runFrom_cons_eq_some_iff.1 h
    rw [pathFrom_cons hr, List.length_cons, ih hw, List.length_cons]

/-- The states of the path are the ends of the runs on the parts that a word begins with. -/
theorem exists_runFrom_of_mem_pathFrom (h : q ∈ S.pathFrom p w) :
    ∃ u v, u ++ v = w ∧ S.runFrom p u = some q := by
  induction w generalizing p with
  | nil => exact ⟨[], [], rfl, congrArg some (List.mem_singleton.1 h).symm⟩
  | cons c w ih =>
    rw [pathFrom] at h
    split at h
    · exact ⟨[], c :: w, rfl, congrArg some (List.mem_singleton.1 h).symm⟩
    · rename_i r hr
      rcases List.mem_cons.1 h with rfl | h
      · exact ⟨[], c :: w, rfl, rfl⟩
      · obtain ⟨u, v, rfl, hu⟩ := ih h
        exact ⟨c :: u, v, rfl, runFrom_cons_eq_some_iff.2 ⟨r, hr, hu⟩⟩

theorem pathFrom_ne_nil (S : Machine σ κ) (p : σ) (w : Word) : S.pathFrom p w ≠ [] := by
  cases w with
  | nil => simp [pathFrom]
  | cons c w =>
    rw [pathFrom]
    split <;> simp

end Path

/-! ## The first accepted word -/

section Least

variable {S : Machine σ Bool} {p q : σ} {c : Char} {u v w : Word}

/-- What the first accepted word goes on with is the first accepted word from there. -/
theorem least_of_append (h : S.alphabet.Least (S.AcceptsFrom p) (u ++ v))
    (hu : S.runFrom p u = some q) : S.alphabet.Least (S.AcceptsFrom q) v := by
  have hfrom : ∀ {x}, S.AcceptsFrom p (u ++ x) ↔ S.AcceptsFrom q x := by
    simp [acceptsFrom_append_iff, hu]
  refine ⟨hfrom.1 h.1, fun x hx hne => ?_⟩
  have hlt := h.2 (u ++ x) (hfrom.2 hx) fun he => hne (List.append_cancel_left he)
  exact hlt.of_append_left

/-- The rest of a first word is a first word from the next state. -/
theorem exists_least_of_cons (h : S.alphabet.Least (S.AcceptsFrom p) (c :: w)) :
    ∃ q, S.step p c = some q ∧ S.alphabet.Least (S.AcceptsFrom q) w := by
  obtain ⟨r, hr, -⟩ := h.1
  obtain ⟨q, hq, -⟩ := runFrom_cons_eq_some_iff.1 hr
  exact ⟨q, hq, least_of_append (u := [c]) h (by simp [hq])⟩

/-- The run does not come back to a state: leaving out what is read in between would give a shorter
word. -/
theorem nodup_pathFrom (h : S.alphabet.Least (S.AcceptsFrom p) w) : (S.pathFrom p w).Nodup := by
  induction w generalizing p with
  | nil => exact List.nodup_singleton p
  | cons c w ih =>
    obtain ⟨r, hr, hrest⟩ := exists_least_of_cons h
    rw [pathFrom_cons hr]
    refine .cons (fun hp => ?_) (ih hrest)
    obtain ⟨u, v, rfl, hu⟩ := exists_runFrom_of_mem_pathFrom hp
    have hshort := h.length_le (least_of_append hrest hu).1
    rw [List.length_cons, List.length_append] at hshort
    omega

/-- Only the end of the run accepts, since a shorter word would lead to a state before it. -/
theorem color_of_mem_dropLast (hp : (S.color p).isSome) (h : S.alphabet.Least (S.AcceptsFrom p) w)
    (hq : q ∈ (S.pathFrom p w).dropLast) : S.color q = some false := by
  induction w generalizing p with
  | nil => exact absurd hq List.not_mem_nil
  | cons c w ih =>
    obtain ⟨r, hr, hrest⟩ := exists_least_of_cons h
    rw [pathFrom_cons hr, List.dropLast_cons_of_ne_nil (pathFrom_ne_nil S r w)] at hq
    rcases List.mem_cons.1 hq with rfl | hq
    · cases hc : S.color q with
      | none => simp [hc] at hp
      | some b =>
        cases b with
        | false => rfl
        | true =>
          have hnil : S.AcceptsFrom q [] := ⟨q, rfl, hc⟩
          exact absurd (h.length_le hnil) (by simp)
    · exact ih (S.color_of_step hr) hrest hq

/-- The first accepted word has fewer symbols than there are states. -/
theorem length_lt_of_least {l : List σ} (h : S.alphabet.Least (S.AcceptsFrom p) w) (hp : p ∈ l)
    (hl : ∀ {p c q}, S.step p c = some q → q ∈ l) : w.length < l.length := by
  obtain ⟨q, hq, -⟩ := h.1
  have hsubset : S.pathFrom p w ⊆ l := by
    intro r hr
    obtain ⟨u, -, -, hu⟩ := exists_runFrom_of_mem_pathFrom hr
    exact of_runFrom (fun _ hstep => hl hstep) hp hu
  calc
    w.length < (S.pathFrom p w).length := by rw [length_pathFrom hq]; exact Nat.lt_succ_self _
    _ ≤ l.length := ((nodup_pathFrom h).subperm hsubset).length_le

end Least

end ShortestWitness.Machine
