import Mathlib
import ShortestWitness.Proofs.Automaton.Problems
import ShortestWitness.Proofs.Line.Decode

/-!
# What is wrong with a line

A line that cannot be decoded may be wrong in several places at once, and one of them is reported. The
first field is read before the others, and there the first token that is missing or repeated counts
(`states_eq_error_iff`). Then the first field counts that is no move between declared states
(`move_eq_error_iff`), and only if there is none, the first one that contradicts a field before it. Since
states are declared under different names and moves are looked at before the draft is made, nothing else
can be wrong with the draft (`build_draft_eq_error_iff`).
-/

namespace ShortestWitness.Line

/-- The text starts with tokens that declare these states, with an `f` wherever one can be read, and goes
on with `rest`. -/
inductive Reads : List Char → List Declaration → List Char → Prop
  | nil (text : List Char) : Reads text [] text
  | rejecting {text after rest : List Char} {name : String} {ds : List Declaration} :
      StartsWith text name after → after.head? ≠ some 'f' → Reads after ds rest →
      Reads text (⟨name, false⟩ :: ds) rest
  | accepting {text after rest : List Char} {name : String} {ds : List Declaration} :
      StartsWith text name ('f' :: after) → Reads after ds rest → Reads text (⟨name, true⟩ :: ds) rest

/-- The text does not start with a token. -/
def NoToken (text : List Char) : Prop := ∀ name rest, ¬ StartsWith text name rest

/-- What is wrong with the field that declares the states: read from left to right, either it goes on
with something else than a token, or with a token that has been there before. -/
inductive StatesFault (field : List Char) : DecodeError → Prop
  | malformed {ds : List Declaration} {rest : List Char} : Reads field ds rest →
      (ds.map Declaration.name).Nodup → NoToken rest → rest ≠ [] ∨ field = [] →
      StatesFault field (.malformedStates (String.ofList rest))
  | repeated {ds : List Declaration} {rest after : List Char} {name : String} : Reads field ds rest →
      (ds.map Declaration.name).Nodup → StartsWith rest name after →
      name ∈ ds.map Declaration.name → StatesFault field (.duplicateState name)

/-- The field is a move between states with these names on a symbol of the alphabet. -/
def IsMoveOf (A : Alphabet) (names : List String) (field : List Char) : Prop :=
  ∃ s c t, IsMove field s c t ∧ c ∈ A ∧ s ∈ names ∧ t ∈ names

/-- What is wrong with a field that is no such move, read from left to right. -/
inductive MoveFault (A : Alphabet) (names : List String) (field : List Char) : DecodeError → Prop
  | noSource : NoToken field → MoveFault A names field (.malformedMove (String.ofList field))
  | undeclaredSource {s : String} {rest : List Char} : StartsWith field s rest → s ∉ names →
      MoveFault A names field (.undeclaredState (String.ofList field) s)
  | noSymbol {s : String} : StartsWith field s [] → s ∈ names →
      MoveFault A names field (.malformedMove (String.ofList field))
  | unknownSymbol {s : String} {c : Char} {rest : List Char} : StartsWith field s (c :: rest) →
      s ∈ names → c ∉ A → MoveFault A names field (.unknownSymbol (String.ofList field) c)
  | noTarget {s : String} {c : Char} {rest : List Char} : StartsWith field s (c :: rest) →
      s ∈ names → c ∈ A → ¬ IsToken (String.ofList rest) →
      MoveFault A names field (.malformedMove (String.ofList field))
  | undeclaredTarget {s t : String} {c : Char} : IsMove field s c t → s ∈ names → c ∈ A → t ∉ names →
      MoveFault A names field (.undeclaredState (String.ofList field) t)

/-- Nothing is wrong with the field that declares the states. -/
structure HasStates (line : List Char) (declared : List Declaration) : Prop where
  declares : Declares (stateField line) declared
  ne_nil : declared ≠ []
  nodup : (declared.map Declaration.name).Nodup

/-- The fields are moves from one state on one symbol to different targets, as the error says. -/
inductive Contradict (earlier field : List Char) : DraftError → Prop
  | mk {s first second : String} {c : Char} : IsMove earlier s c first → IsMove field s c second →
      first ≠ second → Contradict earlier field (.conflict s c first second)

/-- The first of the fields that contradicts one before it, and how. -/
inductive FirstConflict (fields : List (List Char)) (cause : DraftError) : Prop
  | mk {before after : List (List Char)} {earlier field : List Char} :
      fields = before ++ field :: after →
      (∀ f ∈ before, ∀ g ∈ before, ∀ other, ¬ Contradict f g other) → earlier ∈ before →
      Contradict earlier field cause → FirstConflict fields cause

/-- What is wrong with a line that cannot be decoded, as it is reported. -/
inductive Fault (A : Alphabet) (line : List Char) : DecodeError → Prop
  | blank : (∀ c ∈ line, Text.isBlank c = true) → Fault A line .blankLine
  | states {e : DecodeError} : ¬ (∀ c ∈ line, Text.isBlank c = true) →
      StatesFault (stateField line) e → Fault A line e
  | move {declared : List Declaration} {before after : List (List Char)} {field : List Char}
      {e : DecodeError} : HasStates line declared → moveFields line = before ++ field :: after →
      (∀ f ∈ before, IsMoveOf A (declared.map Declaration.name) f) →
      MoveFault A (declared.map Declaration.name) field e → Fault A line e
  | conflict {declared : List Declaration} {cause : DraftError} : HasStates line declared →
      (∀ f ∈ moveFields line, IsMoveOf A (declared.map Declaration.name) f) →
      FirstConflict (moveFields line) cause → Fault A line (.inconsistent cause)

variable {A : Alphabet} {line text rest field : List Char} {ds declared : List Declaration}
  {name : String} {e : DecodeError}

/-! ## The first field -/

theorem token?_eq_none_iff : Decode.token? text = none ↔ NoToken text := by
  simp only [Option.eq_none_iff_forall_not_mem, Option.mem_def, Prod.forall, token?_eq_some_iff, NoToken]

/-- What has been read in part is read on from where that stopped. -/
theorem Reads.declarations_eq (h : Reads text ds rest) : Decode.declarations text =
    (ds ++ (Decode.declarations rest).1, (Decode.declarations rest).2) := by
  induction h with
  | nil text => rfl
  | rejecting hs hf _ ih => rw [declarations_of_startsWith hs, finalMark_of_head?_ne hf, ih]; rfl
  | @accepting _ after _ _ _ hs _ ih =>
    have hmark : Decode.finalMark ('f' :: after) = (true, after) := rfl
    rw [declarations_of_startsWith hs, hmark, ih]
    rfl

/-- The reader stops where there is no token. -/
theorem reads_declarations (text : List Char) :
    Reads text (Decode.declarations text).1 (Decode.declarations text).2 ∧
      NoToken (Decode.declarations text).2 := by
  fun_induction Decode.declarations text with
  | case1 text hnone => exact ⟨.nil text, token?_eq_none_iff.1 hnone⟩
  | case2 text name rest hread mark others ih =>
    have hs := token?_eq_some_iff.1 hread
    have hothers : Reads mark.2 others.1 others.2 := ih.1
    refine ⟨?_, ih.2⟩
    by_cases hf : rest.head? = some 'f'
    · obtain ⟨tail, rfl⟩ := List.head?_eq_some_iff.1 hf
      exact .accepting hs hothers
    · have hmark : mark = (false, rest) := finalMark_of_head?_ne hf
      rw [hmark] at hothers ⊢
      exact .rejecting hs hf hothers

/-- What is read is read in two parts. -/
theorem Reads.exists_append {d : Declaration} {ds' : List Declaration}
    (h : Reads text (ds ++ d :: ds') rest) :
    ∃ mid after, Reads text ds mid ∧ StartsWith mid d.name after := by
  induction ds generalizing text with
  | nil =>
    cases h with
    | rejecting hs _ _ | accepting hs _ => exact ⟨text, _, .nil text, hs⟩
  | cons d' ds ih =>
    cases h with
    | rejecting hs hf h =>
      obtain ⟨mid, after, hmid, hafter⟩ := ih h
      exact ⟨mid, after, .rejecting hs hf hmid, hafter⟩
    | accepting hs h =>
      obtain ⟨mid, after, hmid, hafter⟩ := ih h
      exact ⟨mid, after, .accepting hs hmid, hafter⟩

/-- Reading stops where no token follows. -/
theorem Reads.eq_of_noToken (h : Reads text ds rest) (hrest : NoToken rest) :
    Decode.declarations text = (ds, rest) := by
  have hnone := token?_eq_none_iff.2 hrest
  have hstop : Decode.declarations rest = ([], rest) := by
    rw [Decode.declarations]
    split <;> rename_i he
    · rfl
    · rw [hnone] at he
      cases he
  rw [h.declarations_eq, hstop, List.append_nil]

theorem Reads.eq_nil (h : Reads [] ds rest) : ds = [] := by
  cases h with
  | nil => rfl
  | rejecting hs _ _ | accepting hs _ => cases hs.head?_eq

/-- The fault that is reported is there. -/
theorem StatesFault.of_states (h : Decode.states field = .error e) : StatesFault field e := by
  obtain ⟨hreads, hrest⟩ := reads_declarations field
  unfold Decode.states at h
  generalize Decode.declarations field = result at h hreads hrest
  obtain ⟨ds, rest⟩ := result
  simp only at h hreads hrest
  split at h <;> rename_i hrepeat
  · -- the name stands after different ones, which have been read before it
    obtain rfl := Except.error.inj h
    obtain ⟨names, names', heq, hnodup, hmem⟩ := firstRepeat?_eq_some_iff.1 hrepeat
    obtain ⟨ds, ds', rfl, rfl, htail⟩ := List.map_eq_append_iff.1 heq
    obtain ⟨d, ds', rfl, rfl, -⟩ := List.map_eq_cons_iff.1 htail
    obtain ⟨mid, after, hmid, hafter⟩ := hreads.exists_append
    exact .repeated hmid hnodup hafter hmem
  · split at h <;> rename_i hbad
    · -- if nothing has been read, what is left is the whole field
      obtain rfl := Except.error.inj h
      refine .malformed hreads (firstRepeat?_eq_none_iff.1 hrepeat) hrest ?_
      rcases hbad with rfl | hne
      · cases hreads
        exact (eq_or_ne field []).symm
      · exact .inl hne
    · cases h

theorem StatesFault.states_eq (h : StatesFault field e) : Decode.states field = .error e := by
  unfold Decode.states
  cases h with
  | @malformed ds rest hreads hnodup hrest hne =>
    have hbad : ds = [] ∨ rest ≠ [] := by
      rcases hne with hne | rfl
      · exact .inr hne
      · exact .inl hreads.eq_nil
    rw [hreads.eq_of_noToken hrest]
    simp only [firstRepeat?_eq_none_iff.2 hnodup, if_pos hbad]
  | @repeated ds rest after name hreads hnodup hs hmem =>
    have hrepeat : firstRepeat? ((Decode.declarations field).1.map Declaration.name) = some name := by
      rw [hreads.declarations_eq, declarations_of_startsWith hs]
      exact firstRepeat?_eq_some_iff.2 ⟨_, _, List.map_append, hnodup, hmem⟩
    simp only [hrepeat]

/-- The first field is wrong as its fault says. -/
theorem states_eq_error_iff : Decode.states field = .error e ↔ StatesFault field e :=
  ⟨StatesFault.of_states, StatesFault.states_eq⟩

theorem states_eq_ok_iff_hasStates :
    Decode.states (stateField line) = .ok declared ↔ HasStates line declared := by
  rw [states_eq_ok_iff]
  exact ⟨fun h => ⟨h.1, h.2.1, h.2.2⟩, fun h => ⟨h.declares, h.ne_nil, h.nodup⟩⟩

/-! ## The other fields -/

/-- Only a name that is not declared has no number. -/
theorem number_eq_error_iff : Decode.number declared field name = .error e ↔
    name ∉ declared.map Declaration.name ∧ e = .undeclaredState (String.ofList field) name := by
  unfold Decode.number
  split <;> rename_i h
  · obtain ⟨hlt, hname, -⟩ := List.findIdx?_eq_some_iff_getElem.1 h
    have hmem : name ∈ declared.map Declaration.name :=
      List.mem_map.2 ⟨_, List.getElem_mem hlt, of_decide_eq_true hname⟩
    simp [hmem]
  · have hmem : name ∉ declared.map Declaration.name := fun hmem => by
      obtain ⟨d, hd, rfl⟩ := List.mem_map.1 hmem
      exact absurd rfl (of_decide_eq_false (List.findIdx?_eq_none_iff.1 h d hd))
    simp [hmem, eq_comm]

theorem exists_number_eq_ok_iff :
    (∃ p, Decode.number declared field name = .ok p) ↔ name ∈ declared.map Declaration.name := by
  cases h : Decode.number declared field name with
  | error e => simp [(number_eq_error_iff.1 h).1]
  | ok p =>
    refine iff_of_true ⟨p, rfl⟩ (not_not.1 fun hmem => ?_)
    rw [number_eq_error_iff.2 ⟨hmem, rfl⟩] at h
    cases h

/-- A field that is no move has a fault: what comes first in it is looked at first. -/
theorem isMoveOf_or_exists_fault (A : Alphabet) (names : List String) (field : List Char) :
    IsMoveOf A names field ∨ ∃ e, MoveFault A names field e := by
  by_cases hsource : NoToken field
  · exact .inr ⟨_, .noSource hsource⟩
  obtain ⟨s, rest, hs⟩ : ∃ s rest, StartsWith field s rest := by simpa [NoToken] using hsource
  by_cases hmem : s ∈ names
  swap
  · exact .inr ⟨_, .undeclaredSource hs hmem⟩
  cases rest with
  | nil => exact .inr ⟨_, .noSymbol hs hmem⟩
  | cons c rest =>
    by_cases hc : c ∈ A
    swap
    · exact .inr ⟨_, .unknownSymbol hs hmem hc⟩
    by_cases ht : IsToken (String.ofList rest)
    swap
    · exact .inr ⟨_, .noTarget hs hmem hc ht⟩
    have hrest := startsWith_self ht
    rw [String.toList_ofList] at hrest
    have hmove := isMove_iff_startsWith.2 ⟨rest, hs, hrest⟩
    by_cases htarget : String.ofList rest ∈ names
    · exact .inl ⟨s, c, _, hmove, hc, hmem, htarget⟩
    · exact .inr ⟨_, .undeclaredTarget hmove hmem hc htarget⟩

/-- A field with a fault is refused for it. -/
theorem MoveFault.move_eq (h : MoveFault A (declared.map Declaration.name) field e) :
    Decode.move A declared field = .error e := by
  unfold Decode.move
  cases h with
  | noSource hnone => rw [token?_eq_none_iff.2 hnone]
  | undeclaredSource hs hmem =>
    rw [token?_eq_some_iff.2 hs]
    exact bind_eq_error_iff.2 (.inl (number_eq_error_iff.2 ⟨hmem, rfl⟩))
  | noSymbol hs hmem =>
    obtain ⟨p, hp⟩ := exists_number_eq_ok_iff.2 hmem
    rw [token?_eq_some_iff.2 hs]
    exact bind_eq_error_iff.2 (.inr ⟨p, hp, rfl⟩)
  | unknownSymbol hs hmem hc =>
    obtain ⟨p, hp⟩ := exists_number_eq_ok_iff.2 hmem
    rw [token?_eq_some_iff.2 hs]
    exact bind_eq_error_iff.2 (.inr ⟨p, hp, if_pos hc⟩)
  | @noTarget s c rest hs hmem hc ht =>
    obtain ⟨p, hp⟩ := exists_number_eq_ok_iff.2 hmem
    rw [token?_eq_some_iff.2 hs]
    refine bind_eq_error_iff.2 (.inr ⟨p, hp, (if_neg (not_not_intro hc)).trans ?_⟩)
    split
    · rename_i t hread
      obtain ⟨htoken, rfl, -⟩ := token?_eq_some_iff.1 hread
      rw [List.append_nil, String.ofList_toList] at ht
      exact absurd htoken ht
    · rfl
  | undeclaredTarget hmove hmem hc htarget =>
    obtain ⟨rest, hs, ht⟩ := isMove_iff_startsWith.1 hmove
    obtain ⟨p, hp⟩ := exists_number_eq_ok_iff.2 hmem
    rw [token?_eq_some_iff.2 hs]
    refine bind_eq_error_iff.2 (.inr ⟨p, hp, (if_neg (not_not_intro hc)).trans ?_⟩)
    rw [token?_eq_some_iff.2 ht]
    exact bind_eq_error_iff.2 (.inl (number_eq_error_iff.2 ⟨htarget, rfl⟩))

/-- A field that is no move is wrong as its fault says. -/
theorem move_eq_error_iff (hnodup : (declared.map Declaration.name).Nodup) :
    Decode.move A declared field = .error e ↔ MoveFault A (declared.map Declaration.name) field e := by
  refine ⟨fun h => ?_, MoveFault.move_eq⟩
  rcases isMoveOf_or_exists_fault A (declared.map Declaration.name) field with hmove | ⟨e', he'⟩
  · obtain ⟨m, hm⟩ := (exists_move_iff hnodup).2 hmove
    rw [hm] at h
    cases h
  · have heq := he'.move_eq
    rw [h] at heq
    exact Except.error.inj heq ▸ he'

/-! ## Contradictions -/

section Contradictions

variable {edges : List Edge} {before : List (List Char)} {earlier : List Char} {m m' : Edge}
  {ms : List Edge} {cause : DraftError} (hnodup : (declared.map Declaration.name).Nodup)

include hnodup

theorem eq_of_getElem?_names {p q : Nat} (hp : (declared.map Declaration.name)[p]? = some name)
    (hq : (declared.map Declaration.name)[q]? = some name) : p = q :=
  (List.getElem?_inj (List.getElem?_eq_some_iff.1 hp).1 hnodup).1 (hp.trans hq.symm)

/-- Fields contradict each other if their edges do, since names stand for numbers one to one. -/
theorem not_agree_iff_contradict (hm : Decode.move A declared earlier = .ok m)
    (hm' : Decode.move A declared field = .ok m') :
    ¬ Draft.Agree m m' ↔ ∃ cause, Contradict earlier field cause := by
  obtain ⟨s, t, hmove, -, hs, ht⟩ := (move_eq_ok_iff hnodup).1 hm
  obtain ⟨s', t', hmove', -, hs', ht'⟩ := (move_eq_ok_iff hnodup).1 hm'
  constructor
  · intro h
    obtain ⟨hsource, hsymbol, hne⟩ : m.source = m'.source ∧ m.symbol = m'.symbol ∧
        m.target ≠ m'.target := by
      simpa [Draft.Agree] using h
    rw [hsource, hs'] at hs
    obtain rfl := Option.some.inj hs
    refine ⟨_, .mk hmove (hsymbol ▸ hmove') fun heq => hne ?_⟩
    exact eq_of_getElem?_names hnodup ht (heq ▸ ht')
  · intro h hagree
    obtain ⟨_, h, h', hne⟩ := h
    obtain ⟨rfl, hsymbol, rfl⟩ := hmove.unique h
    obtain ⟨rfl, hsymbol', rfl⟩ := hmove'.unique h'
    have htarget := hagree (eq_of_getElem?_names hnodup hs hs') (hsymbol.trans hsymbol'.symm)
    rw [htarget, ht'] at ht
    exact hne (Option.some.inj ht).symm

/-- A field that is a move gives an edge that may be drawn. -/
theorem hasParts_of_move (hm : Decode.move A declared field = .ok m) :
    (Decode.draft A declared edges).HasParts m := by
  obtain ⟨s, t, -, hc, hs, ht⟩ := (move_eq_ok_iff hnodup).1 hm
  have hsize : (declared.map Declaration.name).length = (Decode.draft A declared edges).size := by
    rw [size_draft, List.length_map]
  refine ⟨?_, ?_, ?_⟩
  · exact hsize ▸ (List.getElem?_eq_some_iff.1 hs).1
  · exact hsize ▸ (List.getElem?_eq_some_iff.1 ht).1
  · rwa [draft_eq]

/-- The edges of some fields are in order if no two of the fields contradict each other. -/
theorem inOrder_iff_of_mapM (hms : before.mapM (Decode.move A declared) = .ok ms) :
    (Decode.draft A declared edges).InOrder ms ↔
      ∀ f ∈ before, ∀ g ∈ before, ∀ other, ¬ Contradict f g other := by
  constructor
  · intro h f hf g hg other hcontradict
    obtain ⟨m, hm⟩ := exists_mapM_eq_ok_iff.1 ⟨ms, hms⟩ f hf
    obtain ⟨m', hm'⟩ := exists_mapM_eq_ok_iff.1 ⟨ms, hms⟩ g hg
    refine (not_agree_iff_contradict hnodup hm hm').2 ⟨other, hcontradict⟩ ?_
    exact h.agree m ((mem_of_mapM hms).2 ⟨f, hf, hm⟩) m' ((mem_of_mapM hms).2 ⟨g, hg, hm'⟩)
  · intro h
    refine ⟨fun m hm => ?_, fun m hm m' hm' => ?_⟩
    · obtain ⟨f, -, hf⟩ := (mem_of_mapM hms).1 hm
      exact hasParts_of_move hnodup hf
    · obtain ⟨f, hfmem, hf⟩ := (mem_of_mapM hms).1 hm
      obtain ⟨g, hgmem, hg⟩ := (mem_of_mapM hms).1 hm'
      by_contra hagree
      obtain ⟨other, hcontradict⟩ := (not_agree_iff_contradict hnodup hf hg).1 hagree
      exact h f hfmem g hgmem other hcontradict

/-- The fault of an edge is that its field contradicts one before it, and the names that are reported are
those that the two fields have. -/
theorem edgeFault_iff_of_mapM (hms : before.mapM (Decode.move A declared) = .ok ms)
    (hm : Decode.move A declared field = .ok m) :
    (Decode.draft A declared edges).EdgeFault ms m cause ↔
      ∃ earlier ∈ before, Contradict earlier field cause := by
  have hparts : (Decode.draft A declared edges).HasParts m := hasParts_of_move hnodup hm
  have hnames : ∀ p : Nat, (Decode.draft A declared edges).names[p]? =
      (declared.map Declaration.name)[p]? := fun p => by
    rw [← Array.getElem?_toList, toList_names_draft]
  obtain ⟨s, t, hmove, -, hs, ht⟩ := (move_eq_ok_iff hnodup).1 hm
  constructor
  · intro h
    -- the parts of the edge have been looked at when its field was read
    cases h with
    | source hlt => exact absurd hparts.source_lt (Nat.not_lt.2 hlt)
    | target _ hlt => exact absurd hparts.target_lt (Nat.not_lt.2 hlt)
    | symbol _ _ hc => exact absurd hparts.symbol_mem hc
    | @conflict f state first second _ hf hagree hstate hfirst hsecond =>
      obtain ⟨earlier, hmem, hearlier⟩ := (mem_of_mapM hms).1 hf
      obtain ⟨_, t', hmove', -, -, ht'⟩ := (move_eq_ok_iff hnodup).1 hearlier
      obtain ⟨_, h, h', hne⟩ := (not_agree_iff_contradict hnodup hearlier hm).1 hagree
      obtain ⟨rfl, -, rfl⟩ := hmove'.unique h
      obtain ⟨rfl, rfl, rfl⟩ := hmove.unique h'
      rw [hnames, hs] at hstate
      rw [hnames, ht'] at hfirst
      rw [hnames, ht] at hsecond
      cases hstate
      cases hfirst
      cases hsecond
      exact ⟨earlier, hmem, .mk h h' hne⟩
  · intro h
    obtain ⟨earlier, hmem, hcontradict⟩ := h
    obtain ⟨f, hf⟩ := exists_mapM_eq_ok_iff.1 ⟨ms, hms⟩ earlier hmem
    obtain ⟨_, t', hmove', -, -, ht'⟩ := (move_eq_ok_iff hnodup).1 hf
    have hagree := (not_agree_iff_contradict hnodup hf hm).2 ⟨cause, hcontradict⟩
    obtain ⟨h, h', -⟩ := hcontradict
    obtain ⟨rfl, rfl, rfl⟩ := hmove.unique h'
    obtain ⟨rfl, -, rfl⟩ := hmove'.unique h
    exact .conflict hparts ((mem_of_mapM hms).2 ⟨earlier, hmem, hf⟩) hagree
      ((hnames _).trans hs) ((hnames _).trans ht') ((hnames _).trans ht)

/-- The states of a line have different names, and the edges of its moves may be drawn. What is wrong
with the draft is that moves contradict each other. -/
theorem build_draft_eq_error_iff {fields : List (List Char)} (hne : declared ≠ [])
    (hedges : fields.mapM (Decode.move A declared) = .ok edges) :
    (Decode.draft A declared edges).build 0 = .error cause ↔ FirstConflict fields cause := by
  have hinitial : 0 < (Decode.draft A declared edges).size := by
    rw [size_draft]
    exact List.length_pos_of_ne_nil hne
  have hnames : (Decode.draft A declared edges).names.toList.Nodup := by
    rwa [toList_names_draft]
  rw [Draft.build_eq_error_iff_of_nodup hinitial hnames fun p => lt_size_of_mem_accepting_draft,
    toList_edges_draft]
  constructor
  · intro h
    obtain ⟨ms, m, ms', rfl, hinOrder, hfault⟩ := h
    obtain ⟨before, later, rfl, hms, hlater⟩ := exists_append_of_mapM hedges
    obtain ⟨field, after, rfl, hm, -⟩ := exists_cons_of_mapM hlater
    obtain ⟨earlier, hmem, hcontradict⟩ := (edgeFault_iff_of_mapM hnodup hms hm).1 hfault
    exact .mk rfl ((inOrder_iff_of_mapM hnodup hms).1 hinOrder) hmem hcontradict
  · intro h
    obtain ⟨rfl, hagree, hmem, hcontradict⟩ := h
    obtain ⟨ms, _, hms, hlater, rfl⟩ := mapM_append_eq_ok_iff.1 hedges
    obtain ⟨m, ms', hm, -, rfl⟩ := mapM_cons_eq_ok_iff.1 hlater
    exact ⟨ms, m, ms', rfl, (inOrder_iff_of_mapM hnodup hms).2 hagree,
      (edgeFault_iff_of_mapM hnodup hms hm).2 ⟨_, hmem, hcontradict⟩⟩

end Contradictions

/-! ## The whole line -/

theorem HasStates.not_blank (h : HasStates line declared) : ¬ ∀ c ∈ line, Text.isBlank c = true := by
  intro hblank
  have hdeclares := h.declares
  rw [stateField_of_trim_eq_nil (Text.trim_eq_nil_iff.2 hblank)] at hdeclares
  exact h.ne_nil (hdeclares.unique .nil)

/-- Reading the draft fails at the states, or else at a move. -/
theorem read_eq_error_iff (hblank : ¬ ∀ c ∈ line, Text.isBlank c = true) :
    Decode.read A line = .error e ↔ Decode.states (stateField line) = .error e ∨
      ∃ declared, HasStates line declared ∧
        (moveFields line).mapM (Decode.move A declared) = .error e := by
  unfold Decode.read
  simp only [Text.trim_eq_nil_iff, if_neg hblank, headD_fields, filter_tail_fields,
    bind_eq_error_iff, states_eq_ok_iff_hasStates, pure, Except.pure, reduceCtorEq, and_false,
    exists_false, or_false]

/-- Decoding fails where reading the draft fails, or else where building it does. -/
theorem decode_eq_error_iff_stages (hblank : ¬ ∀ c ∈ line, Text.isBlank c = true) :
    Decode.decode A line = .error e ↔ Decode.states (stateField line) = .error e ∨
      ∃ declared, HasStates line declared ∧
        ((moveFields line).mapM (Decode.move A declared) = .error e ∨
          ∃ edges, (moveFields line).mapM (Decode.move A declared) = .ok edges ∧
            ∃ cause, (Decode.draft A declared edges).build 0 = .error cause ∧
              e = .inconsistent cause) := by
  unfold Decode.decode
  simp only [bind_eq_error_iff, mapError_eq_error_iff, read_eq_error_iff hblank, read_eq_ok_iff,
    states_eq_ok_iff_hasStates, or_assoc, and_or_left, exists_or]
  refine or_congr_right (or_congr_right ?_)
  constructor
  · rintro ⟨_, ⟨declared, edges, hstates, hedges, rfl⟩, hcause⟩
    exact ⟨declared, hstates, edges, hedges, hcause⟩
  · rintro ⟨declared, hstates, edges, hedges, hcause⟩
    exact ⟨_, ⟨declared, edges, hstates, hedges, rfl⟩, hcause⟩

/-- The fault of a line is reported. -/
theorem Fault.decode_eq (h : Fault A line e) : Decode.decode A line = .error e := by
  cases h with
  | blank hblank =>
    unfold Decode.decode Decode.read
    simp only [if_pos (Text.trim_eq_nil_iff.2 hblank)]
    rfl
  | states hblank hfault =>
    exact (decode_eq_error_iff_stages hblank).2 (.inl (states_eq_error_iff.2 hfault))
  | @move declared before after field e hstates hfields hbefore hfault =>
    have hmoves := mapM_eq_error_iff.2 ⟨before, field, after, hfields,
      fun f hf => (exists_move_iff hstates.nodup).2 (hbefore f hf), hfault.move_eq⟩
    exact (decode_eq_error_iff_stages hstates.not_blank).2 (.inr ⟨declared, hstates, .inl hmoves⟩)
  | @conflict declared cause hstates hmoves hconflict =>
    obtain ⟨edges, hedges⟩ := exists_mapM_eq_ok_iff.2 fun f hf =>
      (exists_move_iff hstates.nodup).2 (hmoves f hf)
    have hbuild := (build_draft_eq_error_iff hstates.nodup hstates.ne_nil hedges).2 hconflict
    exact (decode_eq_error_iff_stages hstates.not_blank).2
      (.inr ⟨declared, hstates, .inr ⟨edges, hedges, cause, hbuild, rfl⟩⟩)

/-- What is reported is the fault of the line. -/
theorem Fault.of_decode (h : Decode.decode A line = .error e) : Fault A line e := by
  by_cases hblank : ∀ c ∈ line, Text.isBlank c = true
  · have hfault : Fault A line .blankLine := .blank hblank
    rw [hfault.decode_eq] at h
    exact Except.error.inj h ▸ hfault
  rcases (decode_eq_error_iff_stages hblank).1 h with h | ⟨declared, hstates, h⟩
  · exact .states hblank (states_eq_error_iff.1 h)
  rcases h with h | ⟨edges, hedges, cause, hbuild, rfl⟩
  · obtain ⟨before, field, after, hfields, hbefore, hfield⟩ := mapM_eq_error_iff.1 h
    exact .move hstates hfields (fun f hf => (exists_move_iff hstates.nodup).1 (hbefore f hf))
      ((move_eq_error_iff hstates.nodup).1 hfield)
  · exact .conflict hstates (fun f hf => (exists_move_iff hstates.nodup).1
      (exists_mapM_eq_ok_iff.1 ⟨edges, hedges⟩ f hf))
      ((build_draft_eq_error_iff hstates.nodup hstates.ne_nil hedges).1 hbuild)

/-- A line is refused with its fault. -/
theorem decode_eq_error_iff : Decode.decode A line = .error e ↔ Fault A line e :=
  ⟨Fault.of_decode, Fault.decode_eq⟩

/-- A line that cannot be decoded has one fault, which is the error that is reported. Errors of the draft
are conflicts of its moves. -/
theorem ofLine_error_exact (A : Alphabet) (line : String) :
    (∀ e, Automaton.ofLine A line = .error e ↔ Fault A line.toList e) ∧
      ((¬ ∃ M, Automaton.ofLine A line = .ok M) → ∃! e, Fault A line.toList e) ∧
      ∀ cause, Automaton.ofLine A line = .error (.inconsistent cause) →
        ∃ s c first second, cause = .conflict s c first second := by
  refine ⟨fun e => decode_eq_error_iff, fun h => ?_, fun cause h => ?_⟩
  · cases hdecode : Automaton.ofLine A line with
    | ok M => exact absurd ⟨M, hdecode⟩ h
    | error e =>
      refine ⟨e, decode_eq_error_iff.1 hdecode, fun e' he' => ?_⟩
      exact Except.error.inj (he'.decode_eq.symm.trans hdecode)
  · cases Fault.of_decode h with
    | states _ hfault => cases hfault
    | move _ _ _ hfault => cases hfault
    | conflict _ _ hconflict =>
      obtain ⟨-, -, -, hcontradict⟩ := hconflict
      cases hcontradict with
      | mk => exact ⟨_, _, _, _, rfl⟩

/-- The second state has three moves on `b`, one of which is written twice. -/
def contradicting : String := "q0fq1q2, q1bq0,, q0aq1 ,q1bq0,q1bq1,q1bq2"

/-- The second target is the first one that contradicts, unless a field that is no move comes anywhere:
then the contradiction is not looked at. -/
theorem ofLine_error_contradicting :
    (∀ e, Fault .standard contradicting.toList e ↔
      e = .inconsistent (.conflict "q1" 'b' "q0" "q1")) ∧
    Fault .standard (contradicting ++ ",q2").toList (.malformedMove "q2") := by
  have hline : Automaton.ofLine .standard contradicting =
      .error (.inconsistent (.conflict "q1" 'b' "q0" "q1")) := by
    cbv
  have hfield : Automaton.ofLine .standard (contradicting ++ ",q2") =
      .error (.malformedMove "q2") := by
    cbv
  have hnone : ¬ ∃ M, Automaton.ofLine .standard contradicting = .ok M := by
    intro h
    obtain ⟨M, hM⟩ := h
    rw [hline] at hM
    cases hM
  obtain ⟨hiff, hunique, -⟩ := ofLine_error_exact .standard contradicting
  have hfault := (hiff _).1 hline
  refine ⟨fun e => ⟨fun h => (hunique hnone).unique h hfault, ?_⟩,
    ((ofLine_error_exact .standard (contradicting ++ ",q2")).1 _).1 hfield⟩
  intro h
  exact h ▸ hfault

end ShortestWitness.Line
