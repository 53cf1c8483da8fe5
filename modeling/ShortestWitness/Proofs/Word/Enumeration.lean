import Mathlib.Data.Set.List
import Mathlib.Order.Fin.Basic
import ShortestWitness.Proofs.Word.Order
import ShortestWitness.Word.Enumeration

/-!
# The place of a word among all words

The place of a list of digits is the number of lists before it, and the enumeration goes from one
place to the next (`place_of_following_eq_some`). The order of the places is the order by length and
then by the first difference (`shortlex_iff_place_lt`), so an enumeration gives the words over an
alphabet in their order and leaves none out. The words that are shorter than some bound come first and
are finitely many: `Enumeration.shorter` lists them, and looking through this list finds the first
word of some kind among them (`Enumeration.find?_shorter_eq_some_iff`).
-/

namespace ShortestWitness

variable {k n : Nat} {ds es : List (Fin k)}

/-- How many lists of `k` digits are shorter than `n`. -/
def countShorter (k : Nat) : Nat → Nat
  | 0 => 0
  | n + 1 => countShorter k n + k ^ n

/-- How many lists of digits come before a list. -/
def place : List (Fin k) → Nat
  | [] => 0
  | d :: ds => (d + 1) * k ^ ds.length + place ds

theorem countShorter_le (k : Nat) {m n : Nat} (h : m ≤ n) : countShorter k m ≤ countShorter k n := by
  induction h with
  | refl => exact Nat.le_refl _
  | step _ ih => exact Nat.le_add_right_of_le ih

/-- All shorter lists come before. -/
theorem countShorter_length_le_place (ds : List (Fin k)) : countShorter k ds.length ≤ place ds := by
  induction ds with
  | nil => exact Nat.le_refl _
  | cons d ds ih =>
    have hrow : 1 * k ^ ds.length ≤ (d + 1) * k ^ ds.length := Nat.mul_le_mul_right _ (by omega)
    rw [List.length_cons, countShorter, place]
    omega

/-- All longer lists come after. -/
theorem place_lt_countShorter (ds : List (Fin k)) : place ds < countShorter k (ds.length + 1) := by
  induction ds with
  | nil => simp [place, countShorter]
  | cons d ds ih =>
    have hrow : (d + 1) * k ^ ds.length ≤ k * k ^ ds.length := Nat.mul_le_mul_right _ d.isLt
    rw [List.length_cons, countShorter, place, Nat.pow_succ']
    omega

/-! ## The next place -/

theorem length_of_increment (h : increment ds = some es) : es.length = ds.length := by
  induction ds generalizing es with
  | nil => cases h
  | cons d ds ih =>
    rw [increment] at h
    split at h
    · rename_i hds
      obtain rfl := Option.some.inj h
      exact congrArg (· + 1) (ih hds)
    · split at h
      · obtain rfl := Option.some.inj h
        simp
      · cases h

theorem place_replicate_zero (h : 0 < k) (n : Nat) :
    place (List.replicate n (⟨0, h⟩ : Fin k)) = countShorter k n := by
  induction n with
  | zero => rfl
  | succ n ih =>
    rw [List.replicate_succ, place, ih, List.length_replicate, countShorter]
    simp [Nat.add_comm]

/-- After the last list of its length there is no place left for this length. -/
theorem place_of_increment_eq_none (h : increment ds = none) :
    place ds + 1 = countShorter k (ds.length + 1) := by
  induction ds with
  | nil => rfl
  | cons d ds ih =>
    rw [increment] at h
    split at h
    · cases h
    · rename_i hds
      split at h <;> rename_i hd
      · cases h
      · have hk : d.val + 1 = k := Nat.le_antisymm d.isLt (Nat.not_lt.1 hd)
        rw [place, Nat.add_assoc, ih hds, hk, List.length_cons, countShorter.eq_2 k (ds.length + 1),
          Nat.pow_succ', Nat.add_comm]

/-- Incrementing goes to the next place. -/
theorem place_of_increment_eq_some (h : increment ds = some es) : place es = place ds + 1 := by
  induction ds generalizing es with
  | nil => cases h
  | cons d ds ih =>
    rw [increment] at h
    split at h
    · rename_i ds' hds
      obtain rfl := Option.some.inj h
      rw [place, place, ih hds, length_of_increment hds, Nat.add_assoc]
    · rename_i hds
      split at h <;> rename_i hd
      · obtain rfl := Option.some.inj h
        have hlast := place_of_increment_eq_none hds
        have hrow : (d.val + 1 + 1) * k ^ ds.length = (d.val + 1) * k ^ ds.length + k ^ ds.length :=
          Nat.succ_mul _ _
        rw [countShorter] at hlast
        rw [place, place, List.map_const', place_replicate_zero, List.length_replicate]
        change (d.val + 1 + 1) * k ^ ds.length + countShorter k ds.length = _
        omega
      · cases h

/-- The following digits are at the next place. -/
theorem place_of_following_eq_some (h : following ds = some es) : place es = place ds + 1 := by
  rw [following, Option.orElse_eq_orElse, Option.orElse_eq_or, Option.or_eq_some_iff] at h
  rcases h with h | ⟨hlast, h⟩
  · exact place_of_increment_eq_some h
  · rw [lowest] at h
    split at h <;> rename_i hk
    · obtain rfl := Option.some.inj h
      rw [place_replicate_zero, place_of_increment_eq_none hlast]
    · cases h

/-- Over no symbols nothing follows, and otherwise something does. -/
theorem following_eq_none_iff : following ds = none ↔ k = 0 := by
  rw [following, Option.orElse_eq_orElse, Option.orElse_eq_or, Option.or_eq_none_iff]
  constructor
  · rintro ⟨-, h⟩
    rw [lowest] at h
    split at h
    · cases h
    · omega
  · rintro rfl
    cases ds with
    | nil => exact ⟨rfl, rfl⟩
    | cons d => exact d.elim0

theorem place_le_of_following_eq_none (h : following ds = none) : place es ≤ place ds := by
  obtain rfl := following_eq_none_iff.1 h
  cases es with
  | nil => exact Nat.zero_le _
  | cons e => exact e.elim0

/-! ## The order of the places -/

theorem place_lt_of_lex (h : List.Lex (· < ·) ds es) (hl : ds.length = es.length) :
    place ds < place es := by
  induction h with
  | nil => cases hl
  | @rel d ds e es hde =>
    have hl : ds.length = es.length := Nat.succ.inj hl
    have hupper := place_lt_countShorter ds
    have hlower := countShorter_length_le_place es
    have hrow : (d.val + 1 + 1) * k ^ ds.length ≤ (e.val + 1) * k ^ ds.length :=
      Nat.mul_le_mul_right _ (Nat.succ_le_succ hde)
    rw [Nat.succ_mul (d.val + 1)] at hrow
    rw [countShorter] at hupper
    rw [place, place, ← hl]
    rw [← hl] at hlower
    omega
  | @cons d ds es _ ih =>
    have hl : ds.length = es.length := Nat.succ.inj hl
    rw [place, place, hl]
    exact Nat.add_lt_add_left (ih hl) _

/-- Earlier digits are at earlier places. -/
theorem place_lt_of_shortlex (h : List.Shortlex (· < ·) ds es) : place ds < place es := by
  rcases List.shortlex_def.1 h with hl | ⟨hl, hlex⟩
  · calc
      place ds < countShorter k (ds.length + 1) := place_lt_countShorter ds
      _ ≤ countShorter k es.length := countShorter_le k hl
      _ ≤ place es := countShorter_length_le_place es
  · exact place_lt_of_lex hlex hl

/-- The order of the places is the order by length and then by the first difference. -/
theorem shortlex_iff_place_lt : List.Shortlex (· < ·) ds es ↔ place ds < place es := by
  refine ⟨place_lt_of_shortlex, fun h => ?_⟩
  rcases trichotomous_of (List.Shortlex (· < ·)) ds es with hlt | rfl | hgt
  · exact hlt
  · exact absurd h (Nat.lt_irrefl _)
  · exact absurd (place_lt_of_shortlex hgt) (Nat.lt_asymm h)

/-- Digits that stand for symbols in their order are ordered like the symbols. -/
theorem shortlex_map {α : Type} {r : α → α → Prop} {f : Fin k → α}
    (h : List.Shortlex (· < ·) ds es) (hr : ∀ i j, i < j → r (f i) (f j)) :
    List.Shortlex r (ds.map f) (es.map f) := by
  rw [List.shortlex_def] at h ⊢
  rw [List.length_map, List.length_map]
  refine h.imp_right (And.imp_right fun hlex => ?_)
  clear h
  induction hlex with
  | nil => exact .nil
  | rel hij => exact .rel (hr _ _ hij)
  | cons _ ih => exact .cons ih

/-- Different digits are at different places. -/
theorem place_inj (h : place ds = place es) : ds = es := by
  rcases trichotomous_of (List.Shortlex (· < ·)) ds es with hlt | heq | hgt
  · exact absurd h (place_lt_of_shortlex hlt).ne
  · exact heq
  · exact absurd h.symm (place_lt_of_shortlex hgt).ne

/-! ## The words that are shorter than a bound -/

namespace Enumeration

variable {α : Type} {symbols : Array α} {e t : Enumeration α} {w : List α}

/-- How many of the words that are shorter than `n` are still to come. -/
def remaining (n : Nat) (e : Enumeration α) : Nat :=
  match e.upcoming with
  | none => 0
  | some ds => countShorter e.symbols.size n - place ds

/-- A word that comes is spelled by the upcoming digits. -/
theorem next_eq_some_iff : e.next = (some w, t) ↔ ∃ ds, e.upcoming = some ds ∧
    ds.map e.symbolAt = w ∧ { e with upcoming := following ds } = t := by
  rw [next]
  cases e.upcoming with
  | none => simp
  | some ds =>
    rw [Prod.mk.injEq, Option.some.injEq]
    simp only [Option.some.injEq, exists_eq_left']
    rfl

/-- Every word brings the end nearer. -/
theorem remaining_lt_of_next (h : e.next = (some w, t)) (hw : w.length < n) :
    t.remaining n < e.remaining n := by
  obtain ⟨ds, hds, rfl, rfl⟩ := next_eq_some_iff.1 h
  rw [List.length_map] at hw
  have hlt : place ds < countShorter e.symbols.size n :=
    Nat.lt_of_lt_of_le (place_lt_countShorter ds) (countShorter_le _ hw)
  simp only [remaining, hds]
  split <;> rename_i hes
  · omega
  · have := place_of_following_eq_some hes
    omega

/-- The words that come as long as they are shorter than `n`. The first word that is not shorter
ends the list, whatever comes after it. -/
def shorter (n : Nat) (e : Enumeration α) : List (List α) :=
  match _h : e.next with
  | (none, _) => []
  | (some w, t) => if _hw : w.length < n then w :: t.shorter n else []
termination_by e.remaining n
decreasing_by exact remaining_lt_of_next _h _hw

/-- They are the first of the words that are taken one by one. -/
theorem takeWhile_take {m : Nat} (h : (e.shorter n).length ≤ m) :
    (e.take m).takeWhile (fun w => w.any (·.length < n)) = (e.shorter n).map some := by
  fun_induction shorter n e generalizing m with
  | case1 e t hnext =>
    cases m with
    | zero => rfl
    | succ m => simp [take, hnext]
  | case2 e w t hnext hw ih =>
    cases m with
    | zero => cases h
    | succ m =>
      rw [take, hnext, List.takeWhile_cons_of_pos (by simpa using hw), ih (Nat.le_of_succ_le_succ h)]
      rfl
  | case3 e w t hnext hw =>
    cases m with
    | zero => rfl
    | succ m => simp [take, hnext, hw]

theorem shorter_of_upcoming_eq_none (h : e.upcoming = none) : e.shorter n = [] := by
  rw [shorter]
  split
  · rfl
  · rename_i hnext
    obtain ⟨_, hds, -⟩ := next_eq_some_iff.1 hnext
    rw [h] at hds
    cases hds

/-- The words are those whose digits have no earlier place than the upcoming ones. -/
theorem mem_shorter_iff {ds : List (Fin e.symbols.size)} (hds : e.upcoming = some ds) :
    w ∈ e.shorter n ↔ ∃ es, place ds ≤ place es ∧ es.length < n ∧ es.map e.symbolAt = w := by
  fun_induction shorter n e generalizing w with
  | case1 e t hnext =>
    rw [next, hds] at hnext
    cases hnext
  | case2 e v t hnext hv ih =>
    obtain ⟨ds', hds', rfl, rfl⟩ := next_eq_some_iff.1 hnext
    obtain rfl := Option.some.inj (hds'.symm.trans hds)
    have hlater : w ∈ shorter n { e with upcoming := following ds' } ↔
        ∃ es, place ds' < place es ∧ es.length < n ∧ es.map e.symbolAt = w := by
      cases hes : following ds' with
      | none =>
        rw [shorter_of_upcoming_eq_none rfl]
        refine ⟨fun hw => absurd hw List.not_mem_nil, ?_⟩
        rintro ⟨es, hlt, -⟩
        exact absurd hlt (Nat.not_lt.2 (place_le_of_following_eq_none hes))
      | some es =>
        rw [hes] at ih
        rw [ih rfl, place_of_following_eq_some hes]
        rfl
    rw [List.mem_cons, hlater]
    constructor
    · rintro (rfl | ⟨es, hlt, hes⟩)
      · exact ⟨ds', Nat.le_refl _, by simpa using hv, rfl⟩
      · exact ⟨es, Nat.le_of_lt hlt, hes⟩
    · rintro ⟨es, hle, hes⟩
      rcases Nat.lt_or_eq_of_le hle with hlt | heq
      · exact .inr ⟨es, hlt, hes⟩
      · obtain rfl := place_inj heq
        exact .inl hes.2.symm
  | case3 e v t hnext hv =>
    obtain ⟨ds', hds', rfl, rfl⟩ := next_eq_some_iff.1 hnext
    obtain rfl := Option.some.inj (hds'.symm.trans hds)
    refine ⟨fun hw => absurd hw List.not_mem_nil, ?_⟩
    -- what comes after a word that is too long is no shorter
    rintro ⟨es, hle, hlt, -⟩
    have hlength : es.length < ds'.length := by
      simpa using Nat.lt_of_lt_of_le hlt (Nat.not_lt.1 hv)
    have hplace : place es < place ds' := place_lt_of_shortlex (.of_length_lt hlength)
    omega

/-- Words come in the order by length and then by the first difference, if the symbols are given in
their order. -/
theorem pairwise_shorter {r : α → α → Prop}
    (hr : ∀ i j : Fin e.symbols.size, i < j → r (e.symbolAt i) (e.symbolAt j)) :
    (e.shorter n).Pairwise (List.Shortlex r) := by
  fun_induction shorter n e with
  | case1 => exact .nil
  | case2 e v t hnext hv ih =>
    obtain ⟨ds, hds, rfl, rfl⟩ := next_eq_some_iff.1 hnext
    refine .cons (fun w hw => ?_) (ih hr)
    cases hes : following ds with
    | none =>
      rw [hes, shorter_of_upcoming_eq_none rfl] at hw
      exact absurd hw List.not_mem_nil
    | some es =>
      obtain ⟨es', hle, -, rfl⟩ := (mem_shorter_iff hes).1 hw
      rw [place_of_following_eq_some hes] at hle
      exact shortlex_map (shortlex_iff_place_lt.2 hle) hr
  | case3 => exact .nil

/-! ## The words over an alphabet -/

section Alphabet

variable {A : Alphabet} {P : Word → Bool} {w : Word}

/-- Shorter words are listed in their order. -/
theorem pairwise_shorter_ofSymbols (A : Alphabet) (n : Nat) :
    ((ofSymbols A.symbols).shorter n).Pairwise A.Shortlex :=
  pairwise_shorter fun i j hij => List.pairwise_iff_getElem.1 A.pairwise_before i j i.isLt j.isLt hij

/-- All shorter words over the symbols are listed. -/
theorem mem_shorter_ofSymbols :
    w ∈ (ofSymbols A.symbols).shorter n ↔ w.length < n ∧ ∀ c ∈ w, c ∈ A := by
  have hstart : (ofSymbols A.symbols).upcoming = some [] := by
    show lowest 0 = _
    rw [lowest]
    split <;> rfl
  rw [mem_shorter_iff hstart]
  constructor
  · rintro ⟨es, -, hlt, rfl⟩
    refine ⟨by simpa using hlt, fun c hc => ?_⟩
    obtain ⟨i, -, rfl⟩ := List.mem_map.1 hc
    exact List.getElem_mem (l := A.symbols) i.isLt
  · rintro ⟨hlt, hw⟩
    have hrange : w ∈ Set.range
        (List.map fun i : Fin A.symbols.toArray.size => A.symbols.toArray[i]) := by
      rw [Set.range_list_map]
      intro c hc
      obtain ⟨i, hi, rfl⟩ := List.mem_iff_getElem.1 (hw c hc)
      exact ⟨⟨i, hi⟩, rfl⟩
    obtain ⟨es, hes⟩ := hrange
    rw [← hes, List.length_map] at hlt
    exact ⟨es, Nat.zero_le _, hlt, hes⟩

/-- Looking through a list that is in order finds the first word. -/
theorem least_of_find?_eq_some {l : List Word} (hl : l.Pairwise A.Shortlex)
    (h : l.find? P = some w) : A.Least (fun v => v ∈ l ∧ P v = true) w := by
  obtain ⟨hw, before, after, rfl, hbefore⟩ := List.find?_eq_some_iff_append.1 h
  refine ⟨⟨by simp, hw⟩, fun v ⟨hv, hP⟩ hne => ?_⟩
  rcases List.mem_append.1 hv with hv | hv
  · have hno := hbefore v hv
    rw [hP] at hno
    cases hno
  · have hafter := (List.pairwise_cons.1 (List.pairwise_append.1 hl).2.1).1
    exact hafter v ((List.mem_cons.1 hv).resolve_left hne)

/-- In a list in the order of words, the first word that is found is the first of all. -/
theorem find?_eq_some_iff_least {l : List Word} (hl : l.Pairwise A.Shortlex) :
    l.find? P = some w ↔ A.Least (fun v => v ∈ l ∧ P v = true) w := by
  refine ⟨least_of_find?_eq_some hl, fun h => ?_⟩
  cases hv : l.find? P with
  | none => exact absurd h.1.2 (List.find?_eq_none.1 hv w h.1.1)
  | some v => rw [(least_of_find?_eq_some hl hv).unique h]

/-- Looking through the words that are shorter than `n` finds the first of some kind among them. -/
theorem find?_shorter_eq_some_iff : ((ofSymbols A.symbols).shorter n).find? P = some w ↔
    A.Least (fun v => (v.length < n ∧ ∀ c ∈ v, c ∈ A) ∧ P v = true) w := by
  rw [find?_eq_some_iff_least (pairwise_shorter_ofSymbols A n)]
  simp only [mem_shorter_ofSymbols]

end Alphabet

end Enumeration

end ShortestWitness
