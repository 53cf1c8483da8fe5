import ShortestWitness.Proofs.Line.Decode

/-!
# Runs on the text of a line

A line has runs of its own: they start at the name that it declares first, and every step is one of
its fields letter by letter. Nothing is decoded for this. The automaton that a valid line describes
runs in the same way under the names of its states (`Valid.path_iff`), so it reads and accepts the
words that the line does.
-/

namespace ShortestWitness.Line

/-- The line is in the grammar and does not contradict itself, whatever it declares. -/
def IsValid (A : Alphabet) (line : List Char) : Prop := ∃ declared, Valid A line declared

/-- The line leads on the word from one name to another: each step is a field of the line that is the
name, the symbol and the next name, as they are written. Names are tokens. -/
inductive Path (line : List Char) : String → Word → String → Prop
  | nil (s : String) : Path line s [] s
  | cons {s t u : String} {c : Char} {w : Word} : IsToken t →
      s.toList ++ c :: t.toList ∈ moveFields line → Path line t w u → Path line s (c :: w) u

/-- The line has a run on the word, from the name that it declares first to this one. -/
def HasRun (line : List Char) (w : Word) (t : String) : Prop :=
  ∃ d ds, Declares (stateField line) (d :: ds) ∧ Path line d.name w t

/-- The line has a run on the word to a name that it declares with an `f`. -/
def Accepts (line : List Char) (w : Word) : Prop :=
  ∃ t ds, HasRun line w t ∧ Declares (stateField line) ds ∧ ⟨t, true⟩ ∈ ds

/-- Both lines have a run on the word, and exactly one of them accepts it. -/
def Disagree (l r : List Char) (w : Word) : Prop :=
  (∃ t, HasRun l w t) ∧ (∃ t, HasRun r w t) ∧ ¬ (Accepts l w ↔ Accepts r w)

variable {A : Alphabet} {line : List Char} {declared : List Declaration} {M : Automaton}
  {p q : Nat} {c : Char} {w : Word} {s t : String}

/-- Lines are valid if they can be decoded. -/
theorem isValid_iff_isOk : IsValid A line ↔ (Decode.decode A line).isOk = true := by
  rw [IsValid, ← exists_decode_iff]
  cases Decode.decode A line with
  | error e => simp [Except.isOk, Except.toBool]
  | ok M => simp [Except.isOk, Except.toBool]

/-- A field that looks like a move is this move: on a digit it would not be one, and then the line
would not be valid. -/
theorem Valid.hasMove_of_mem (h : Valid A line declared) (hs : IsToken s) (ht : IsToken t)
    (hfield : s.toList ++ c :: t.toList ∈ moveFields line) : HasMove line s c t := by
  obtain ⟨_, _, _, hmove, -⟩ := h.moves _ hfield
  refine ⟨_, hfield, hs, ht, rfl, Bool.eq_false_iff.2 fun hc => ?_⟩
  exact not_isMove_of_isDigit hs ht hc hmove

/-- Moves of a valid line enter declared states. -/
theorem Valid.target_mem (h : Valid A line declared) (hmove : HasMove line s c t) :
    t ∈ declared.map Declaration.name := by
  obtain ⟨field, hfield, hmove⟩ := hmove
  obtain ⟨_, _, _, hmove', -, -, ht⟩ := h.moves _ hfield
  obtain ⟨-, -, rfl⟩ := hmove.unique hmove'
  exact ht

namespace Describes

variable (hM : Describes A line declared M)

include hM

theorem exists_name?_of_mem (h : t ∈ declared.map Declaration.name) :
    ∃ q, M.name? q = some t := by
  obtain ⟨q, hq⟩ := List.mem_iff_getElem?.1 h
  exact ⟨q, (hM.name? q).trans hq⟩

theorem exists_declared_of_name? (h : M.name? q = some t) :
    ∃ d, declared[q]? = some d ∧ d.name = t := by
  rw [hM.name?, List.getElem?_map] at h
  exact Option.map_eq_some_iff.1 h

/-- The state accepts if its name is declared with an `f`. -/
theorem isAccepting_iff_mem (h : M.name? q = some t) :
    M.isAccepting q = true ↔ ⟨t, true⟩ ∈ declared := by
  obtain ⟨d, hd, rfl⟩ := hM.exists_declared_of_name? h
  rw [hM.isAccepting, hd, Option.any_some]
  constructor
  · intro haccepting
    have hmem := List.mem_of_getElem? hd
    rwa [← haccepting]
  · intro hmem
    obtain ⟨i, hi⟩ := List.mem_iff_getElem?.1 hmem
    have hname : M.name? i = some d.name := by
      rw [hM.name?, List.getElem?_map, hi]
      rfl
    rw [Automaton.eq_of_name? hname h, hd] at hi
    rw [Option.some.inj hi]

end Describes

section Runs

variable (h : Valid A line declared) (hM : Describes A line declared M)

include h hM

/-- The states of a described automaton are named by tokens. -/
theorem isToken_of_name? (hp : M.name? p = some s) : IsToken s := by
  obtain ⟨d, hd, rfl⟩ := hM.exists_declared_of_name? hp
  exact h.declares.isToken d (List.mem_of_getElem? hd)

/-- One step on the text is one move of the automaton. -/
theorem exists_step_iff (hp : M.name? p = some s) :
    IsToken t ∧ s.toList ++ c :: t.toList ∈ moveFields line ↔
      ∃ q, M.step p c = some q ∧ M.name? q = some t := by
  constructor
  · rintro ⟨ht, hfield⟩
    have hmove := h.hasMove_of_mem (isToken_of_name? h hM hp) ht hfield
    obtain ⟨q, hq⟩ := hM.exists_name?_of_mem (h.target_mem hmove)
    exact ⟨q, (hM.step_iff p c q).2 ⟨s, t, hp, hq, hmove⟩, hq⟩
  · rintro ⟨q, hstep, hq⟩
    obtain ⟨s', t', hs, ht, field, hfield, hmove⟩ := (hM.step_iff p c q).1 hstep
    obtain rfl := Option.some.inj (hp.symm.trans hs)
    obtain rfl := Option.some.inj (hq.symm.trans ht)
    rw [hmove.eq_append] at hfield
    exact ⟨hmove.isToken_target, hfield⟩

/-- Paths on the text are runs of the automaton, by induction on the word. -/
theorem path_iff (hp : M.name? p = some s) :
    Path line s w t ↔ ∃ q, M.machine.runFrom p w = some q ∧ M.name? q = some t := by
  induction w generalizing p s with
  | nil =>
    constructor
    · rintro ⟨⟩
      exact ⟨p, rfl, hp⟩
    · rintro ⟨q, hq, ht⟩
      obtain rfl := Option.some.inj hq
      obtain rfl := Option.some.inj (hp.symm.trans ht)
      exact .nil s
  | cons c w ih =>
    constructor
    · rintro (_ | ⟨ht, hfield, hpath⟩)
      obtain ⟨r, hstep, hr⟩ := (exists_step_iff h hM hp).1 ⟨ht, hfield⟩
      obtain ⟨q, hrun, hq⟩ := (ih hr).1 hpath
      exact ⟨q, Machine.runFrom_cons_eq_some_iff.2 ⟨r, hstep, hrun⟩, hq⟩
    · rintro ⟨q, hrun, hq⟩
      obtain ⟨r, hstep, hrun⟩ := Machine.runFrom_cons_eq_some_iff.1 hrun
      obtain ⟨u, hr⟩ := Automaton.exists_name? (Automaton.target_lt_of_step hstep)
      obtain ⟨hu, hfield⟩ := (exists_step_iff h hM hp).2 ⟨r, hstep, hr⟩
      exact .cons hu hfield ((ih hr).2 ⟨q, hrun, hq⟩)

/-- The line has the runs of the automaton. -/
theorem hasRun_iff : HasRun line w t ↔ ∃ q, M.machine.run w = some q ∧ M.name? q = some t := by
  obtain ⟨d, ds, rfl⟩ := List.exists_cons_of_ne_nil h.ne_nil
  have hinitial : M.name? M.machine.initial = some d.name := by
    show M.name? M.initial = some d.name
    rw [hM.initial, hM.name?]
    rfl
  rw [Machine.run, ← path_iff h hM hinitial]
  constructor
  · rintro ⟨d', ds', hdeclares, hpath⟩
    obtain ⟨rfl, -⟩ := List.cons.inj (h.declares.unique hdeclares)
    exact hpath
  · exact fun hpath => ⟨d, ds, h.declares, hpath⟩

/-- The line accepts what the automaton accepts. -/
theorem accepts_iff : Accepts line w ↔ M.machine.accepts w = true := by
  rw [Automaton.accepts_machine_iff]
  constructor
  · rintro ⟨t, ds, hrun, hdeclares, hmem⟩
    obtain rfl := h.declares.unique hdeclares
    obtain ⟨q, hq, ht⟩ := (hasRun_iff h hM).1 hrun
    exact ⟨q, hq, (hM.isAccepting_iff_mem ht).2 hmem⟩
  · rintro ⟨q, hq, haccepting⟩
    obtain ⟨t, ht⟩ := Automaton.exists_name? (Automaton.lt_size_of_isAccepting haccepting)
    exact ⟨t, declared, (hasRun_iff h hM).2 ⟨q, hq, ht⟩, h.declares,
      (hM.isAccepting_iff_mem ht).1 haccepting⟩

/-- The line has a run where the automaton is not stuck. -/
theorem exists_hasRun_iff : (∃ t, HasRun line w t) ↔ (M.machine.run w).isSome := by
  simp only [hasRun_iff h hM, Option.isSome_iff_exists]
  constructor
  · rintro ⟨t, q, hq, -⟩
    exact ⟨q, hq⟩
  · rintro ⟨q, hq⟩
    obtain ⟨t, ht⟩ := Automaton.exists_name? (Automaton.lt_size_of_run hq)
    exact ⟨t, q, hq, ht⟩

end Runs

end ShortestWitness.Line
