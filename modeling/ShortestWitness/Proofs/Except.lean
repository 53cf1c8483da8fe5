import Mathlib.Data.List.Basic

/-!
# Stages that may fail

When a computation in stages succeeds: each stage succeeds on what the stage before it has given. A
stage that treats the members of a list one after the other succeeds if it does on each of them. When
it fails, the first stage that fails says how, and in a list the first member on which it does.
-/

namespace ShortestWitness

variable {ε ε' α β : Type} {x : Except ε α} {a : α} {b : β}

/-- Two stages succeed if the first does and the second does on its result. -/
theorem bind_eq_ok_iff {f : α → Except ε β} : x >>= f = .ok b ↔ ∃ a, x = .ok a ∧ f a = .ok b := by
  constructor
  · intro h
    cases x with
    | error e => cases h
    | ok a => exact ⟨a, rfl, h⟩
  · rintro ⟨a, rfl, h⟩
    exact h

theorem map_eq_ok_iff {f : α → β} : x.map f = .ok b ↔ ∃ a, x = .ok a ∧ f a = b := by
  cases x with
  | error e => simp [Except.map]
  | ok a => simp [Except.map]

theorem mapError_eq_ok_iff {g : ε → ε'} : x.mapError g = .ok a ↔ x = .ok a := by
  cases x with
  | error e => simp [Except.mapError]
  | ok a' => simp [Except.mapError]

/-- Of two stages the first fails, or else the second does on its result. -/
theorem bind_eq_error_iff {f : α → Except ε β} {e : ε} :
    x >>= f = .error e ↔ x = .error e ∨ ∃ a, x = .ok a ∧ f a = .error e := by
  cases x with
  | error e' =>
    constructor
    · exact fun h => .inl (congrArg Except.error (Except.error.inj h))
    · rintro (h | ⟨a, h, -⟩)
      · exact congrArg Except.error (Except.error.inj h)
      · cases h
  | ok a =>
    constructor
    · exact fun h => .inr ⟨a, rfl, h⟩
    · rintro (h | ⟨b, h, hb⟩)
      · cases h
      · cases h
        exact hb

/-- Only the error of a failure is changed. -/
theorem mapError_eq_error_iff {g : ε → ε'} {e : ε'} :
    x.mapError g = .error e ↔ ∃ e', x = .error e' ∧ e = g e' := by
  cases x with
  | error e' => simp [Except.mapError, eq_comm]
  | ok a => simp [Except.mapError]

/-- Errors can be rewritten after both stages instead of after each. -/
theorem mapError_bind (g : ε → ε') (x : Except ε α) {f : α → Except ε β} {f' : α → Except ε' β}
    (h : ∀ a, f' a = (f a).mapError g) : x.mapError g >>= f' = (x >>= f).mapError g := by
  cases x with
  | error e => rfl
  | ok a => exact h a

section List

variable {f : α → Except ε β} {xs xs' : List α} {ys : List β}

theorem mapM_cons_eq_ok_iff : (a :: xs).mapM f = .ok ys ↔
    ∃ b bs, f a = .ok b ∧ xs.mapM f = .ok bs ∧ ys = b :: bs := by
  rw [List.mapM_cons, bind_eq_ok_iff]
  constructor
  · rintro ⟨b, hb, h⟩
    obtain ⟨bs, hbs, h⟩ := bind_eq_ok_iff.1 h
    exact ⟨b, bs, hb, hbs, (Except.ok.inj h).symm⟩
  · rintro ⟨b, bs, hb, hbs, rfl⟩
    exact ⟨b, hb, bind_eq_ok_iff.2 ⟨bs, hbs, rfl⟩⟩

/-- What comes of a list are the results for its members. -/
theorem mem_of_mapM (h : xs.mapM f = .ok ys) : b ∈ ys ↔ ∃ a ∈ xs, f a = .ok b := by
  induction xs generalizing ys with
  | nil =>
    cases h
    simp
  | cons a xs ih =>
    obtain ⟨y, bs, hy, hbs, rfl⟩ := mapM_cons_eq_ok_iff.1 h
    rw [List.mem_cons, ih hbs]
    simp [hy, eq_comm]

/-- A list goes through if each of its members does. -/
theorem exists_mapM_eq_ok_iff : (∃ ys, xs.mapM f = .ok ys) ↔ ∀ a ∈ xs, ∃ b, f a = .ok b := by
  induction xs with
  | nil => exact ⟨fun _ _ ha => absurd ha List.not_mem_nil, fun _ => ⟨[], rfl⟩⟩
  | cons a xs ih =>
    rw [List.forall_mem_cons, ← ih]
    constructor
    · rintro ⟨ys, h⟩
      obtain ⟨b, bs, hb, hbs, -⟩ := mapM_cons_eq_ok_iff.1 h
      exact ⟨⟨b, hb⟩, ⟨bs, hbs⟩⟩
    · rintro ⟨⟨b, hb⟩, ⟨bs, hbs⟩⟩
      exact ⟨b :: bs, mapM_cons_eq_ok_iff.2 ⟨b, bs, hb, hbs, rfl⟩⟩

theorem mapM_nil_eq_error_iff {e : ε} : [].mapM f = .error e ↔ False := by
  refine iff_of_false (fun h => ?_) not_false
  cases h

/-- A list fails at its first member, or that succeeds and the rest fails. -/
theorem mapM_cons_eq_error_iff {e : ε} : (a :: xs).mapM f = .error e ↔
    f a = .error e ∨ (∃ b, f a = .ok b) ∧ xs.mapM f = .error e := by
  rw [List.mapM_cons, bind_eq_error_iff]
  refine or_congr_right ?_
  constructor
  · rintro ⟨b, hb, h⟩
    rcases bind_eq_error_iff.1 h with hxs | ⟨bs, -, h⟩
    · exact ⟨⟨b, hb⟩, hxs⟩
    · cases h
  · rintro ⟨⟨b, hb⟩, hxs⟩
    exact ⟨b, hb, bind_eq_error_iff.2 (.inl hxs)⟩

/-- A member with what comes before and after it is the first one, or is found in the rest. -/
theorem exists_cons_eq_append_iff {P : List α → α → List α → Prop} :
    (∃ before b after, a :: xs = before ++ b :: after ∧ P before b after) ↔
      P [] a xs ∨ ∃ before b after, xs = before ++ b :: after ∧ P (a :: before) b after := by
  constructor
  · rintro ⟨before, b, after, h, hP⟩
    cases before with
    | nil =>
      obtain ⟨rfl, rfl⟩ := List.cons.inj h
      exact .inl hP
    | cons c before =>
      obtain ⟨rfl, rfl⟩ := List.cons.inj h
      exact .inr ⟨before, b, after, rfl, hP⟩
  · rintro (hP | ⟨before, b, after, rfl, hP⟩)
    · exact ⟨[], a, xs, rfl, hP⟩
    · exact ⟨a :: before, b, after, rfl, hP⟩

/-- The first member on which the stage fails says how it fails. -/
theorem mapM_eq_error_iff {e : ε} : xs.mapM f = .error e ↔ ∃ before a after,
    xs = before ++ a :: after ∧ (∀ b ∈ before, ∃ y, f b = .ok y) ∧ f a = .error e := by
  induction xs with
  | nil =>
    rw [mapM_nil_eq_error_iff]
    simp
  | cons x xs ih =>
    rw [mapM_cons_eq_error_iff, exists_cons_eq_append_iff, ih]
    simp only [List.forall_mem_cons]
    refine or_congr (by simp) ?_
    constructor
    · rintro ⟨hx, before, a, after, hxs, hbefore, ha⟩
      exact ⟨before, a, after, hxs, ⟨hx, hbefore⟩, ha⟩
    · rintro ⟨before, a, after, hxs, ⟨hx, hbefore⟩, ha⟩
      exact ⟨hx, before, a, after, hxs, hbefore, ha⟩

/-- The results for two lists one after the other are the results for both. -/
theorem mapM_append_eq_ok_iff : (xs ++ xs').mapM f = .ok ys ↔
    ∃ bs bs', xs.mapM f = .ok bs ∧ xs'.mapM f = .ok bs' ∧ ys = bs ++ bs' := by
  induction xs generalizing ys with
  | nil =>
    constructor
    · exact fun h => ⟨[], ys, rfl, h, rfl⟩
    · rintro ⟨bs, bs', h, h', rfl⟩
      cases h
      exact h'
  | cons x xs ih =>
    rw [List.cons_append, mapM_cons_eq_ok_iff]
    constructor
    · rintro ⟨b, bs, hb, hbs, rfl⟩
      obtain ⟨bs, bs', h, h', rfl⟩ := ih.1 hbs
      exact ⟨b :: bs, bs', mapM_cons_eq_ok_iff.2 ⟨b, bs, hb, h, rfl⟩, h', rfl⟩
    · rintro ⟨bs, bs', h, h', rfl⟩
      obtain ⟨b, bs, hb, hbs, rfl⟩ := mapM_cons_eq_ok_iff.1 h
      exact ⟨b, bs ++ bs', hb, ih.2 ⟨bs, bs', hbs, h', rfl⟩, rfl⟩

/-- Results that come one after the other are those for two parts of the list. -/
theorem exists_append_of_mapM {bs bs' : List β} (h : xs.mapM f = .ok (bs ++ bs')) :
    ∃ as as', xs = as ++ as' ∧ as.mapM f = .ok bs ∧ as'.mapM f = .ok bs' := by
  induction bs generalizing xs with
  | nil => exact ⟨[], xs, rfl, rfl, h⟩
  | cons b bs ih =>
    cases xs with
    | nil => cases h
    | cons x xs =>
      obtain ⟨y, ys, hy, hys, heq⟩ := mapM_cons_eq_ok_iff.1 h
      obtain ⟨rfl, rfl⟩ := List.cons.inj heq
      obtain ⟨as, as', rfl, has, has'⟩ := ih hys
      exact ⟨x :: as, as', rfl, mapM_cons_eq_ok_iff.2 ⟨b, bs, hy, has, rfl⟩, has'⟩

theorem exists_cons_of_mapM {bs : List β} (h : xs.mapM f = .ok (b :: bs)) :
    ∃ a as, xs = a :: as ∧ f a = .ok b ∧ as.mapM f = .ok bs := by
  cases xs with
  | nil => cases h
  | cons x xs =>
    obtain ⟨y, ys, hy, hys, heq⟩ := mapM_cons_eq_ok_iff.1 h
    obtain ⟨rfl, rfl⟩ := List.cons.inj heq
    exact ⟨x, xs, rfl, hy, hys⟩

end List

end ShortestWitness
