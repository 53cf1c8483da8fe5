import Mathlib
import ShortestWitness.Proofs.Word.Enumeration

/-!
# Every word in its turn

If there is a digit at all, there is a list of digits for every place (`digitsAt`), and so the lists of
digits in their order are a sequence in which each of them occurs once (`digitSequence`). An
enumeration goes through this sequence from some place on (`Enumeration.skip_mk`).

The digits can be turned in place, like the wheels of an odometer, by a loop from the last wheel on that
stops as soon as nothing is carried. Such a loop looks up the wheels and the symbols by bare numbers. It
never looks beyond the end of either, and comes to the same words (`Odometer.Shows.item?_eq`).
-/

namespace ShortestWitness

variable {k n : Nat} {ds es : List (Fin k)}

/-! ## The list of digits for a place -/

/-- The list of digits that has a place. -/
def digitsAt (k : Nat) : Nat → List (Fin k)
  | 0 => []
  | n + 1 => (following (digitsAt k n)).getD []

/-- The digits at one place are followed by those at the next. -/
theorem following_digitsAt (hk : 0 < k) (n : Nat) :
    following (digitsAt k n) = some (digitsAt k (n + 1)) := by
  have hne : following (digitsAt k n) ≠ none := fun h => hk.ne' (following_eq_none_iff.1 h)
  obtain ⟨es, hes⟩ := Option.ne_none_iff_exists'.1 hne
  rw [digitsAt, hes, Option.getD_some]

theorem place_digitsAt (hk : 0 < k) (n : Nat) : place (digitsAt k n) = n := by
  induction n with
  | zero => rfl
  | succ n ih => rw [place_of_following_eq_some (following_digitsAt hk n), ih]

theorem digitsAt_place (hk : 0 < k) (ds : List (Fin k)) : digitsAt k (place ds) = ds :=
  place_inj (place_digitsAt hk _)

/-- All lists of digits in their order. -/
def digitSequence (hk : 0 < k) : Nat ≃ List (Fin k) :=
  ⟨digitsAt k, place, place_digitsAt hk, digitsAt_place hk⟩

/-- Earlier places have earlier digits. -/
theorem shortlex_digitsAt_iff (hk : 0 < k) {m n : Nat} :
    List.Shortlex (· < ·) (digitsAt k m) (digitsAt k n) ↔ m < n := by
  rw [shortlex_iff_place_lt, place_digitsAt hk, place_digitsAt hk]

/-- Incrementing begins at the last digit and goes on to the others only if that was the highest. -/
theorem increment_append_singleton (ds : List (Fin k)) (d : Fin k) : increment (ds ++ [d]) =
    if h : d.val + 1 < k then some (ds ++ [⟨d.val + 1, h⟩])
    else (increment ds).map (· ++ [⟨0, d.pos⟩]) := by
  induction ds with
  | nil => rfl
  | cons e ds ih =>
    rw [List.cons_append, increment, ih, increment]
    by_cases hd : d.val + 1 < k
    · simp only [dif_pos hd]
      rfl
    · simp only [dif_neg hd]
      cases increment ds with
      | some es => rfl
      | none =>
        simp only [Option.map_none]
        split
        · simp
        · rfl

/-! ## The words of an enumeration -/

namespace Enumeration

variable {α : Type} {symbols : List α}

/-- The word that comes after `n` others. -/
def item (e : Enumeration α) (n : Nat) : Option (List α) := (e.skip n).next.1

theorem ofSymbols_eq (symbols : List α) : ofSymbols symbols = ⟨symbols.toArray, some []⟩ := by
  have hlowest : ∀ k, lowest (k := k) 0 = some [] := by
    intro k
    rw [lowest]
    split <;> rfl
  rw [ofSymbols, hlowest]

/-- An enumeration goes from place to place. -/
theorem skip_mk {symbols : Array α} (hk : 0 < symbols.size) (ds : List (Fin symbols.size)) (n : Nat) :
    skip ⟨symbols, some ds⟩ n = ⟨symbols, some (digitsAt symbols.size (place ds + n))⟩ := by
  induction n generalizing ds with
  | zero => rw [Nat.add_zero, digitsAt_place hk, skip]
  | succ n ih =>
    obtain ⟨es, hes⟩ : ∃ es, following ds = some es :=
      Option.ne_none_iff_exists'.1 fun h => hk.ne' (following_eq_none_iff.1 h)
    have hnext : (next ⟨symbols, some ds⟩).2 = ⟨symbols, some es⟩ := congrArg (mk symbols) hes
    rw [skip, hnext, ih, place_of_following_eq_some hes, Nat.add_right_comm, Nat.add_assoc]

/-- The word at a place has the symbols for its digits. -/
theorem item_ofSymbols (h : symbols ≠ []) (n : Nat) :
    (ofSymbols symbols).item n = some ((digitsAt symbols.length n).map symbols.get) := by
  have hk : 0 < symbols.toArray.size := List.length_pos_of_ne_nil h
  rw [item, ofSymbols_eq, skip_mk hk, place, Nat.zero_add]
  rfl

/-- Over no symbols there is no second word. -/
theorem item_ofSymbols_nil_succ (n : Nat) : (ofSymbols ([] : List α)).item (n + 1) = none := by
  have hend : ∀ n, skip (⟨#[], none⟩ : Enumeration α) n = ⟨#[], none⟩ := by
    intro n
    induction n with
    | zero => rfl
    | succ n ih => exact ih
  show (skip (⟨#[], none⟩ : Enumeration α) n).next.1 = none
  rw [hend]
  rfl

/-- Only the first word is empty. -/
theorem nonemptyOfSymbols_eq (h : symbols ≠ []) :
    nonemptyOfSymbols symbols = .ok ((ofSymbols symbols).skip 1) := by
  have hempty : symbols.isEmpty = false := by simpa using h
  rw [nonemptyOfSymbols, hempty, ofSymbols_eq]
  rfl

/-- Different symbols spell every word just once. -/
theorem existsUnique_item_ofSymbols (h : symbols.Nodup) {w : List α} (hw : ∀ a ∈ w, a ∈ symbols) :
    ∃! n, (ofSymbols symbols).item n = some w := by
  by_cases hsymbols : symbols = []
  · subst hsymbols
    obtain rfl : w = [] := List.eq_nil_iff_forall_not_mem.2 fun a ha => List.not_mem_nil (hw a ha)
    refine ⟨0, rfl, fun n hn => ?_⟩
    cases n with
    | zero => rfl
    | succ n =>
      rw [item_ofSymbols_nil_succ] at hn
      cases hn
  · have hk := List.length_pos_of_ne_nil hsymbols
    have hspelled : w ∈ Set.range (List.map symbols.get) := by
      rw [Set.range_list_map, Set.range_list_get]
      exact hw
    have hinj : Function.Injective (List.map symbols.get) :=
      List.map_injective_iff.2 (List.nodup_iff_injective_get.1 h)
    obtain ⟨ds, rfl⟩ := hspelled
    refine ⟨place ds, ?_, fun n hn => ?_⟩
    · show (ofSymbols symbols).item (place ds) = _
      rw [item_ofSymbols hsymbols, digitsAt_place hk]
    · have heq := (item_ofSymbols hsymbols n).symm.trans hn
      rw [← hinj (Option.some.inj heq), place_digitsAt hk]

/-- Words come in the order by length and then by the places of the symbols. -/
theorem shortlex_of_item_ofSymbols [DecidableEq α] (h : symbols.Nodup) {m n : Nat} (hmn : m < n)
    {v w : List α} (hv : (ofSymbols symbols).item m = some v)
    (hw : (ofSymbols symbols).item n = some w) :
    List.Shortlex (fun a b => symbols.idxOf a < symbols.idxOf b) v w := by
  have hsymbols : symbols ≠ [] := by
    rintro rfl
    obtain ⟨n, rfl⟩ := Nat.exists_eq_succ_of_ne_zero (Nat.ne_zero_of_lt hmn)
    rw [item_ofSymbols_nil_succ] at hw
    cases hw
  rw [item_ofSymbols hsymbols] at hv hw
  rw [← Option.some.inj hv, ← Option.some.inj hw]
  refine shortlex_map ((shortlex_digitsAt_iff (List.length_pos_of_ne_nil hsymbols)).2 hmn) ?_
  intro i j hij
  rwa [List.get_idxOf h, List.get_idxOf h]

end Enumeration

/-! ## Turning the wheels -/

/-- A row of wheels, each of which shows one of the symbols by its place. Nothing in the type says that
there are symbols at these places. -/
structure Odometer (α : Type) where
  symbols : List α
  wheels : List Nat

namespace Odometer

variable {α : Type} {o : Odometer α} {e : Enumeration α}

/-- Turns the first `i` wheels, from the last of them on. A wheel that has gone all round turns the one
before it, and it is told whether the first one did. A wheel that is not there comes to nothing. -/
def turn (k : Nat) : Nat → List Nat → Option (List Nat × Bool)
  | 0, wheels => some (wheels, true)
  | i + 1, wheels => do
    let d ← wheels[i]?
    if k ≤ d + 1 then turn k i (wheels.set i 0) else return (wheels.set i (d + 1), false)

/-- The next word, if there is one, and the wheels after it, of which there is one more if all have gone
round. A symbol that is not there comes to nothing. -/
def next? (o : Odometer α) : Option (Option (List α) × Odometer α) :=
  if o.symbols.isEmpty && !o.wheels.isEmpty then return (none, o)
  else do
    let word ← o.wheels.mapM (o.symbols[·]?)
    let (wheels, round) ← turn o.symbols.length o.wheels.length o.wheels
    let wheels := if round then List.replicate (wheels.length + 1) 0 else wheels
    return (some word, { o with wheels })

/-- What comes after `n` words. -/
def item? (o : Odometer α) : Nat → Option (Option (List α))
  | 0 => o.next?.map Prod.fst
  | n + 1 => o.next?.bind fun r => r.2.item? n

/-- Turning the wheels increments the digits that they show, and leaves alone the wheels after them. -/
theorem turn_map_val (ds : List (Fin k)) (rest : List Nat) :
    turn k ds.length (ds.map Fin.val ++ rest) =
      match increment ds with
      | some es => some (es.map Fin.val ++ rest, false)
      | none => some (List.replicate ds.length 0 ++ rest, true) := by
  induction ds using List.reverseRecOn generalizing rest with
  | nil => rfl
  | append_singleton ds d ih =>
    have hwheel : ((ds ++ [d]).map Fin.val ++ rest)[ds.length]? = some d.val := by
      simp
    have hset : ∀ x, ((ds ++ [d]).map Fin.val ++ rest).set ds.length x =
        ds.map Fin.val ++ x :: rest := by
      intro x
      simp
    rw [List.length_append, List.length_singleton, turn, hwheel, increment_append_singleton]
    simp only [Option.bind_eq_bind, Option.bind_some, hset]
    by_cases hd : d.val + 1 < k
    · rw [if_neg (Nat.not_le.2 hd), dif_pos hd]
      simp
    · rw [if_pos (Nat.not_lt.1 hd), dif_neg hd, ih]
      cases increment ds with
      | some es => simp
      | none => simp [List.replicate_succ']

/-- The wheels show the upcoming digits, or there are wheels but no symbols and the end is reached. -/
inductive Shows : Odometer α → Enumeration α → Prop
  | upcoming {symbols : List α} (ds : List (Fin symbols.length)) :
    Shows ⟨symbols, ds.map Fin.val⟩ ⟨symbols.toArray, some ds⟩
  | ended {wheels : List Nat} : wheels ≠ [] → Shows ⟨[], wheels⟩ ⟨#[], none⟩

namespace Shows

/-- Every symbol that a wheel shows is there. -/
theorem mapM_symbols {symbols : List α} (ds : List (Fin symbols.length)) :
    (ds.map Fin.val).mapM (symbols[·]?) = some (ds.map symbols.get) := by
  induction ds with
  | nil => rfl
  | cons d ds ih => simp [ih]

/-- One word: the odometer and the enumeration come to the same word and go on alike. -/
theorem next? (h : o.Shows e) : ∃ o', o.next? = some (e.next.1, o') ∧ o'.Shows e.next.2 := by
  cases h with
  | @ended wheels hwheels =>
    have hend : (([] : List α).isEmpty && !wheels.isEmpty) = true := by simpa using hwheels
    refine ⟨⟨[], wheels⟩, ?_, .ended hwheels⟩
    rw [Odometer.next?, if_pos hend]
    rfl
  | @upcoming symbols ds =>
    have hgoes : (symbols.isEmpty && !(ds.map Fin.val).isEmpty) = false := by
      cases symbols with
      | nil =>
        cases ds with
        | nil => rfl
        | cons d => exact d.elim0
      | cons => rfl
    have hturn := turn_map_val ds []
    rw [List.append_nil] at hturn
    unfold Odometer.next?
    rw [hgoes, mapM_symbols, List.length_map, hturn]
    cases hds : increment ds with
    | some es =>
      have hfollowing : following ds = some es := by rw [following, hds]; rfl
      refine ⟨⟨symbols, es.map Fin.val⟩, by simp; rfl, ?_⟩
      have hnext : (Enumeration.next ⟨symbols.toArray, some ds⟩).2 = ⟨symbols.toArray, some es⟩ :=
        congrArg (Enumeration.mk _) hfollowing
      rw [hnext]
      exact .upcoming es
    | none =>
      have hfollowing : following ds = lowest (ds.length + 1) := by rw [following, hds]; rfl
      refine ⟨⟨symbols, List.replicate (ds.length + 1) 0⟩, by simp; rfl, ?_⟩
      have hnext : (Enumeration.next ⟨symbols.toArray, some ds⟩).2 =
          ⟨symbols.toArray, lowest (ds.length + 1)⟩ := congrArg (Enumeration.mk _) hfollowing
      rw [hnext, lowest]
      split <;> rename_i hk
      · have hshown := Shows.upcoming (List.replicate (ds.length + 1) (⟨0, hk⟩ : Fin symbols.length))
        rwa [List.map_replicate] at hshown
      · obtain rfl : symbols = [] := List.eq_nil_of_length_eq_zero (Nat.eq_zero_of_not_pos hk)
        exact .ended (by simp)

/-- Word by word, the odometer comes to what the enumeration comes to. -/
theorem item?_eq (h : o.Shows e) (n : Nat) : o.item? n = some (e.item n) := by
  induction n generalizing o e with
  | zero =>
    obtain ⟨o', hnext, -⟩ := h.next?
    rw [item?, hnext]
    rfl
  | succ n ih =>
    obtain ⟨o', hnext, hshows⟩ := h.next?
    rw [item?, hnext]
    exact ih hshows

end Shows

end Odometer

/-! ## Enumerations are exact -/

namespace Enumeration

/-- Over at least one symbol the words never end: they are spelled by the lists of digits in their order,
each of which comes once. So different symbols spell each word once, shorter words and then earlier
symbols first. Over no symbols there is only the empty word. Leaving it out leaves out the first word and
nothing else. An odometer comes to the same words without looking for a wheel or a symbol that is not
there. -/
theorem ofSymbols_exact {α : Type} [DecidableEq α] (symbols : List α) :
    (symbols ≠ [] → ∃ sequence : Nat ≃ List (Fin symbols.length),
      (∀ m n, List.Shortlex (· < ·) (sequence m) (sequence n) ↔ m < n) ∧
        ∀ n, (ofSymbols symbols).item n = some ((sequence n).map symbols.get)) ∧
      (symbols.Nodup → (∀ w, (∀ a ∈ w, a ∈ symbols) → ∃! n, (ofSymbols symbols).item n = some w) ∧
        ∀ m n v w, m < n → (ofSymbols symbols).item m = some v → (ofSymbols symbols).item n = some w →
          List.Shortlex (fun a b => symbols.idxOf a < symbols.idxOf b) v w) ∧
      ((ofSymbols ([] : List α)).item 0 = some [] ∧ ∀ n, (ofSymbols ([] : List α)).item (n + 1) = none) ∧
      (symbols ≠ [] → ∃ e, nonemptyOfSymbols symbols = .ok e ∧
        (∀ n, e.item n = (ofSymbols symbols).item (n + 1)) ∧
          ∀ n, (Odometer.mk symbols [0]).item? n = some (e.item n)) ∧
      ∀ n, (Odometer.mk symbols []).item? n = some ((ofSymbols symbols).item n) := by
  have hshows : (Odometer.mk symbols []).Shows (ofSymbols symbols) := by
    rw [ofSymbols_eq]
    exact .upcoming []
  refine ⟨fun h => ?_, fun h => ⟨fun w hw => existsUnique_item_ofSymbols h hw, fun m n v w hmn =>
    shortlex_of_item_ofSymbols h hmn⟩, ⟨rfl, item_ofSymbols_nil_succ⟩, fun h => ?_, hshows.item?_eq⟩
  · have hk := List.length_pos_of_ne_nil h
    exact ⟨digitSequence hk, fun m n => shortlex_digitsAt_iff hk, item_ofSymbols h⟩
  · have hk := List.length_pos_of_ne_nil h
    have hstart : (ofSymbols symbols).skip 1 = ⟨symbols.toArray, some [⟨0, hk⟩]⟩ := by
      rw [ofSymbols_eq]
      exact congrArg (mk symbols.toArray) (dif_pos hk)
    refine ⟨_, nonemptyOfSymbols_eq h, fun n => rfl, ?_⟩
    rw [hstart]
    exact (Odometer.Shows.upcoming [⟨0, hk⟩]).item?_eq

/-- With `b` before `a` the word `ab` is the sixth of all words, and the fifth of the nonempty ones. -/
theorem ofSymbols_reversed : ['b', 'a'] ≠ [] ∧ ['b', 'a'].Nodup ∧
    (∃! n, (ofSymbols ['b', 'a']).item n = some ['a', 'b']) ∧
    (ofSymbols ['b', 'a']).item 5 = some ['a', 'b'] ∧
    (∃ sequence : Nat ≃ List (Fin ['b', 'a'].length),
      (∀ m n, List.Shortlex (· < ·) (sequence m) (sequence n) ↔ m < n) ∧
        (sequence 5).map ['b', 'a'].get = ['a', 'b']) ∧
    (∃ e, nonemptyOfSymbols ['b', 'a'] = .ok e ∧ e.item 4 = some ['a', 'b']) ∧
    List.Shortlex (fun a b => ['b', 'a'].idxOf a < ['b', 'a'].idxOf b) ['b', 'b'] ['a', 'b'] ∧
    (Odometer.mk ['b', 'a'] []).item? 5 = some (some ['a', 'b']) := by
  have hne : ['b', 'a'] ≠ [] := by decide
  have hnodup : ['b', 'a'].Nodup := by decide
  have hthird : (ofSymbols ['b', 'a']).item 3 = some ['b', 'b'] := by cbv
  have hfifth : (ofSymbols ['b', 'a']).item 5 = some ['a', 'b'] := by cbv
  obtain ⟨hsequence, hdifferent, -, hnonempty, hwheels⟩ := ofSymbols_exact ['b', 'a']
  obtain ⟨sequence, horder, hitem⟩ := hsequence hne
  obtain ⟨honce, hincreasing⟩ := hdifferent hnodup
  obtain ⟨e, he, hlater, -⟩ := hnonempty hne
  exact ⟨hne, hnodup, honce _ (by simp), hfifth,
    ⟨sequence, horder, Option.some.inj ((hitem 5).symm.trans hfifth)⟩, ⟨e, he, (hlater 4).trans hfifth⟩,
    hincreasing 3 5 _ _ (by decide) hthird hfifth, (hwheels 5).trans (congrArg some hfifth)⟩

end Enumeration

end ShortestWitness
