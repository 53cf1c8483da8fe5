import Mathlib
import ShortestWitness.Proofs.Automaton.Filling
import ShortestWitness.Random.Automaton

/-!
# Drawing layouts

A layout of a given shape can be drawn with no automaton in between: first all marks and then all entries
of the table, at their addresses one after the other. Targets are numbers of which nothing is known but
what is assumed of the source. What is drawn is the layout of the random automaton
(`layout_randomFrom`), so the table comes out as long as the marks and the symbols need it.
-/

namespace ShortestWitness

variable {σ : Type} {A : Alphabet} {n : Nat}

namespace Layout

/-- The layout of `n` numbered states with these marks and entries. -/
def ofDraws (A : Alphabet) (n : Nat) (accepting : List Bool) (table : List (Option Nat)) : Layout where
  symbols := A.symbols
  initial := 0
  accepting := accepting
  names := insertNames ((List.range n).map numberedName)
  table := table

/-- Draws the marks of `n` states and the entries of their table. -/
def draw (D : Draws σ) (A : Alphabet) (n : Nat) (density accepting : Float) : StateM σ Layout := do
  let marks ← List.ofFnM fun _ : Fin n => D.chance accepting
  let table ← List.ofFnM fun _ : Fin (n * A.size) => D.withChance density (D.below n)
  return ofDraws A n marks table

/-- Draws a layout of a shape, unless there is none of that shape. -/
def random (D : Draws σ) (shape : Automaton.Shape) : Except Misuse (StateM σ Layout) :=
  if 0 < shape.size then do
    let A ← Alphabet.ofSize shape.symbols
    return draw D A shape.size shape.density shape.accepting
  else .error .noStates

end Layout

/-- A function may be applied to each of the results or to all of them in the end. -/
theorem map_ofFnM {m : Type → Type} [Monad m] [LawfulMonad m] {α β : Type} (g : α → β)
    (f : Fin n → m α) : List.map g <$> List.ofFnM f = List.ofFnM fun i => g <$> f i := by
  induction n with
  | zero => simp
  | succ n ih =>
    rw [List.ofFnM_succ, List.ofFnM_succ, map_bind, bind_map_left]
    refine bind_congr fun a => ?_
    rw [map_bind, ← ih, bind_map_left]
    simp only [map_pure, List.map_cons]

namespace Automaton

section Table

variable (h : 0 < n) (marks : Vector Bool n) (table : Vector (Option (Fin n)) (n * A.size))

theorem size_ofTable : (ofTable A h marks table).size = n :=
  @size_tabulate A n _ _ numberedName_fin_inj _ _

theorem name?_ofTable (p : Nat) :
    (ofTable A h marks table).name? p = ((List.range n).map numberedName)[p]? := by
  rw [List.getElem?_map]
  by_cases hp : p < n
  · rw [List.getElem?_range hp]
    exact @name?_tabulate A n _ _ numberedName_fin_inj _ _ ⟨p, hp⟩
  · have hle := Nat.not_lt.1 hp
    rw [name?_of_le ((size_ofTable h marks table).trans_le hle), List.getElem?_eq_none]
    · rfl
    · rwa [List.length_range]

theorem isAccepting_ofTable {p : Nat} (hp : p < n) :
    (ofTable A h marks table).isAccepting p = marks[p] :=
  @isAccepting_tabulate A n _ _ numberedName_fin_inj _ _ ⟨p, hp⟩

/-- The move of a state on the symbol at a place of the alphabet is at that place of the row. -/
theorem step_ofTable {p i : Nat} {c : Char} (hp : p < n) (hc : A.symbol? i = some c) :
    (ofTable A h marks table).step p c =
      (table[p * A.size + i]?.join).map Fin.val := by
  refine (@step_tabulate A n _ _ numberedName_fin_inj _ _ ⟨p, hp⟩ c).trans ?_
  have hmem : c ∈ A := List.mem_of_getElem? hc
  rw [if_pos hmem, Alphabet.position_of_symbol? hc, Option.bind_some]

/-- The marks and the table are laid out as they are. -/
theorem layout_ofTable : (ofTable A h marks table).layout =
    .ofDraws A n marks.toList (table.toList.map (Option.map Fin.val)) := by
  have hsize := size_ofTable h marks table
  refine Layout.ext rfl rfl ?_ ?_ ?_
  · apply accepting_layout_eq
    intro p
    show marks.toList[p]? = _
    rw [hsize, Vector.getElem?_toList]
    split <;> rename_i hp
    · rw [isAccepting_ofTable h marks table hp, Vector.getElem?_eq_getElem hp]
    · rw [Vector.getElem?_eq_none (Nat.not_lt.1 hp)]
  · show _ = Layout.insertNames ((List.range n).map numberedName)
    have hnodup : ((List.range n).map numberedName).Nodup :=
      List.nodup_range.map fun _ _ => numberedName_inj
    rw [Layout.insertNames_of_nodup hnodup]
    exact names_layout_eq (name?_ofTable h marks table)
  · apply table_layout_eq
    · show (table.toList.map (Option.map Fin.val)).length = _
      rw [List.length_map, Vector.length_toList, hsize]
      rfl
    · intro p i c hp hc
      rw [hsize] at hp
      have hi : i < A.size := (List.getElem?_eq_some_iff.1 hc).1
      have ha := Layout.address_lt hp hi
      show (table.toList.map (Option.map Fin.val))[p * A.size + i]? = _
      rw [step_ofTable h marks table hp hc, List.getElem?_map, Vector.getElem?_toList,
        Vector.getElem?_eq_getElem ha, Option.join_some, Option.map_some]

end Table

variable (D : Draws σ) (hD : D.Bounded)

/-- A random automaton is laid out as its marks and its targets are drawn. -/
theorem layout_randomOver (h : 0 < n) (density accepting : Float) :
    layout <$> randomOver D hD A n h density accepting =
      Layout.draw D A n density accepting := by
  have hmarks : List.ofFnM (fun _ : Fin n => D.chance accepting) =
      Vector.toList <$> Vector.ofFnM fun _ : Fin n => D.chance accepting :=
    Vector.toList_ofFnM.symm
  have htable : List.ofFnM (fun _ : Fin (n * A.size) => D.withChance density (D.below n)) =
      (List.map (Option.map Fin.val) <$> Vector.toList <$>
        Vector.ofFnM fun _ : Fin (n * A.size) => D.withChance density (D.belowFin hD h)) := by
    rw [Vector.toList_ofFnM, map_ofFnM, D.map_withChance, D.map_val_belowFin hD h]
  unfold randomOver Layout.draw
  rw [hmarks, htable, bind_map_left, map_bind]
  refine bind_congr fun marks => ?_
  rw [bind_map_left, bind_map_left, map_bind]
  refine bind_congr fun table => ?_
  rw [map_pure, layout_ofTable]

/-- Drawing a layout is drawing an automaton and laying it out, and both are refused for the same
shapes. -/
theorem layout_randomFrom (shape : Shape) :
    (randomFrom D hD shape).map (fun draw => layout <$> draw) = Layout.random D shape := by
  unfold randomFrom Layout.random
  by_cases h : 0 < shape.size
  · rw [dif_pos h, if_pos h]
    cases Alphabet.ofSize shape.symbols with
    | error e => rfl
    | ok A => exact congrArg Except.ok (layout_randomOver D hD h shape.density shape.accepting)
  · rw [dif_neg h, if_neg h]
    rfl

end Automaton

end ShortestWitness
