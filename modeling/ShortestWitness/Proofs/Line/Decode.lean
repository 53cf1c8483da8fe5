import Mathlib.Data.List.Induction
import ShortestWitness.Proofs.Automaton.Draft
import ShortestWitness.Proofs.Except
import ShortestWitness.Proofs.Line.Grammar

/-!
# Decoding accepts the valid lines

The stages of the decoder agree with the grammar: the first field gives its declarations
(`states_eq_ok_iff`), every other field its move (`move_eq_ok_iff`), and the draft that comes of them
has nothing wrong just if the line does not contradict itself (`consistent_draft_iff`). So a line is
decoded if it is valid, and the automaton is what the line describes (`decode_eq_ok_iff`).
-/

namespace ShortestWitness.Line

/-- The automaton is what a line with these declarations says: states are declared in their order,
and moves are those of the fields, under the names of the states. -/
structure Describes (A : Alphabet) (line : List Char) (declared : List Declaration)
    (M : Automaton) : Prop where
  alphabet : M.alphabet = A
  size : M.size = declared.length
  initial : M.initial = 0
  name? : ∀ p, M.name? p = (declared.map Declaration.name)[p]?
  isAccepting : ∀ p, M.isAccepting p = declared[p]?.any Declaration.accepting
  step_iff : ∀ p c q, M.step p c = some q ↔
    ∃ s t, M.name? p = some s ∧ M.name? q = some t ∧ HasMove line s c t

variable {A : Alphabet} {line field : List Char} {declared : List Declaration} {e : Edge}
  {edges : List Edge} {M N : Automaton} {p : Nat} {name : String}

/-- What a line says of an automaton does not depend on the alphabet. -/
theorem Describes.sameParts {B : Alphabet} (h : Describes A line declared M)
    (h' : Describes B line declared N) : M.SameParts N := by
  have hname : ∀ p, N.name? p = M.name? p := fun p => by rw [h'.name?, h.name?]
  refine ⟨h'.size.trans h.size.symm, h'.initial.trans h.initial.symm, hname,
    fun p => by rw [h'.isAccepting, h.isAccepting], fun p c => Option.ext fun q => ?_⟩
  rw [h'.step_iff, h.step_iff, hname, hname]

/-- What a line says of an automaton determines it. -/
theorem Describes.unique (h : Describes A line declared M) (h' : Describes A line declared N) :
    M = N :=
  have hparts := h'.sameParts h
  Automaton.eq_of_parts (h.alphabet.trans h'.alphabet.symm) hparts.size hparts.initial hparts.name?
    hparts.isAccepting hparts.step

/-- A line declares its states in one way. -/
theorem Valid.unique {declared' : List Declaration} (h : Valid A line declared)
    (h' : Valid A line declared') : declared = declared' :=
  h.declares.unique h'.declares

/-! ## The stages -/

/-- The first field is read if it declares states, and different ones. -/
theorem states_eq_ok_iff : Decode.states field = .ok declared ↔
    Declares field declared ∧ declared ≠ [] ∧ (declared.map Declaration.name).Nodup := by
  rw [declares_iff]
  unfold Decode.states
  generalize Decode.declarations field = result
  obtain ⟨ds, rest⟩ := result
  simp only
  split
  · rename_i repeated hrepeated
    constructor
    · intro h
      cases h
    · rintro ⟨h, -, hnodup⟩
      obtain ⟨rfl, -⟩ := Prod.mk.inj h
      rw [firstRepeat?_eq_none_iff.2 hnodup] at hrepeated
      cases hrepeated
  · rename_i hnone
    have hnodup := firstRepeat?_eq_none_iff.1 hnone
    by_cases hbad : ds = [] ∨ rest ≠ []
    · rw [if_pos hbad]
      constructor
      · intro h
        cases h
      · rintro ⟨h, hne, -⟩
        obtain ⟨rfl, rfl⟩ := Prod.mk.inj h
        exact absurd hbad (by simp [hne])
    · rw [if_neg hbad, Except.ok.injEq]
      rw [not_or, not_not] at hbad
      constructor
      · rintro rfl
        exact ⟨Prod.ext rfl hbad.2, hbad.1, hnodup⟩
      · rintro ⟨h, -, -⟩
        exact (Prod.mk.inj h).1

/-- A name has the number of its declaration. -/
theorem number_eq_ok_iff (hnodup : (declared.map Declaration.name).Nodup) :
    Decode.number declared field name = .ok p ↔
      (declared.map Declaration.name)[p]? = some name := by
  unfold Decode.number
  split
  · rename_i q hq
    obtain ⟨hlt, hname, -⟩ := List.findIdx?_eq_some_iff_getElem.1 hq
    have hget : (declared.map Declaration.name)[q]? = some name := by
      rw [List.getElem?_map, List.getElem?_eq_getElem hlt, Option.map_some, of_decide_eq_true hname]
    have hlt' : q < (declared.map Declaration.name).length := by rwa [List.length_map]
    rw [Except.ok.injEq, ← List.getElem?_inj hlt' hnodup, hget]
    exact eq_comm
  · rename_i hnone
    constructor
    · intro h
      cases h
    · intro h
      obtain ⟨d, hd, rfl⟩ := List.mem_map.1 (List.mem_of_getElem? h)
      have hne := List.findIdx?_eq_none_iff.1 hnone d hd
      exact absurd rfl (of_decide_eq_false hne)

/-- A move is read if its states are declared and its symbol is in the alphabet. -/
theorem move_eq_ok_iff (hnodup : (declared.map Declaration.name).Nodup) :
    Decode.move A declared field = .ok e ↔ ∃ s t, IsMove field s e.symbol t ∧ e.symbol ∈ A ∧
      (declared.map Declaration.name)[e.source]? = some s ∧
      (declared.map Declaration.name)[e.target]? = some t := by
  constructor
  · intro h
    unfold Decode.move at h
    split at h
    · cases h
    · rename_i s rest hs
      obtain ⟨p, hp, h⟩ := bind_eq_ok_iff.1 h
      split at h
      · cases h
      · rename_i c tail _
        split at h
        · cases h
        · rename_i hc
          split at h
          · rename_i t ht
            obtain ⟨q, hq, h⟩ := bind_eq_ok_iff.1 h
            cases h
            have hmove := isMove_iff_startsWith.2
              ⟨tail, token?_eq_some_iff.1 hs, token?_eq_some_iff.1 ht⟩
            exact ⟨s, t, hmove, not_not.1 hc, (number_eq_ok_iff hnodup).1 hp,
              (number_eq_ok_iff hnodup).1 hq⟩
          · cases h
  · rintro ⟨s, t, hmove, hc, hp, hq⟩
    obtain ⟨rest, hs, ht⟩ := isMove_iff_startsWith.1 hmove
    have hp' : Decode.number declared field s = .ok e.source := (number_eq_ok_iff hnodup).2 hp
    have hq' : Decode.number declared field t = .ok e.target := (number_eq_ok_iff hnodup).2 hq
    unfold Decode.move
    rw [token?_eq_some_iff.2 hs]
    simp only [hp', if_neg (not_not_intro hc), token?_eq_some_iff.2 ht, hq']
    rfl

/-! ## The draft -/

/-- The numbers of the states that are declared accepting. -/
def acceptingNumbers (declared : List Declaration) : List Nat :=
  (List.range declared.length).filter fun p => declared[p]?.any Declaration.accepting

theorem mem_acceptingNumbers_iff :
    p ∈ acceptingNumbers declared ↔ declared[p]?.any Declaration.accepting = true := by
  unfold acceptingNumbers
  rw [List.mem_filter, List.mem_range, and_iff_right_iff_imp]
  intro h
  obtain ⟨d, hd, -⟩ := (Option.any_eq_true ..).1 h
  exact (List.getElem?_eq_some_iff.1 hd).1

theorem acceptingNumbers_snoc (declared : List Declaration) (d : Declaration) :
    acceptingNumbers (declared ++ [d]) =
      acceptingNumbers declared ++ if d.accepting then [declared.length] else [] := by
  have hbefore : ∀ p ∈ List.range declared.length,
      (declared ++ [d])[p]?.any Declaration.accepting =
        declared[p]?.any Declaration.accepting := by
    intro p hp
    rw [List.getElem?_append_left (List.mem_range.1 hp)]
  have hlast : (declared ++ [d])[declared.length]? = some d := by simp
  unfold acceptingNumbers
  rw [List.length_append, List.length_singleton, List.range_succ, List.filter_append,
    List.filter_congr hbefore, List.filter_singleton, hlast, Option.any_some]
  cases d.accepting <;> rfl

/-- The draft has the declared states and the edges of the moves. -/
theorem draft_eq (A : Alphabet) (declared : List Declaration) (edges : List Edge) :
    Decode.draft A declared edges = ⟨A, (declared.map Declaration.name).toArray,
      (acceptingNumbers declared).toArray, edges.toArray⟩ := by
  have hstates : declared.foldl (fun d s => d.addState s.name s.accepting) (Draft.empty A) =
      ⟨A, (declared.map Declaration.name).toArray, (acceptingNumbers declared).toArray, #[]⟩ := by
    induction declared using List.reverseRecOn with
    | nil => rfl
    | append_singleton declared d ih =>
      rw [List.foldl_append, ih, acceptingNumbers_snoc]
      cases hd : d.accepting <;> simp [Draft.addState, Draft.size, hd]
  unfold Decode.draft
  rw [hstates, Draft.addEdges]
  simp

theorem size_draft (A : Alphabet) (declared : List Declaration) (edges : List Edge) :
    (Decode.draft A declared edges).size = declared.length := by
  rw [draft_eq]
  simp [Draft.size]

theorem toList_names_draft (A : Alphabet) (declared : List Declaration) (edges : List Edge) :
    (Decode.draft A declared edges).names.toList = declared.map Declaration.name := by
  rw [draft_eq]

theorem toList_edges_draft (A : Alphabet) (declared : List Declaration) (edges : List Edge) :
    (Decode.draft A declared edges).edges.toList = edges := by
  rw [draft_eq]

/-- Only declared states are marked. -/
theorem lt_size_of_mem_accepting_draft (h : p ∈ (Decode.draft A declared edges).accepting) :
    p < (Decode.draft A declared edges).size := by
  rw [draft_eq, List.mem_toArray, mem_acceptingNumbers_iff, Option.any_eq_true] at h
  obtain ⟨d, hd, -⟩ := h
  rw [size_draft]
  exact (List.getElem?_eq_some_iff.1 hd).1

/-! ## The edges of a line -/

/-- The edge is the move of some field, with the numbers of the states for their names. -/
def IsEdge (line : List Char) (declared : List Declaration) (e : Edge) : Prop :=
  ∃ s t, (declared.map Declaration.name)[e.source]? = some s ∧
    (declared.map Declaration.name)[e.target]? = some t ∧ HasMove line s e.symbol t

/-- Whether a field is read as a move does not depend on numbers. -/
theorem exists_move_iff (hnodup : (declared.map Declaration.name).Nodup) :
    (∃ e, Decode.move A declared field = .ok e) ↔ ∃ s c t, IsMove field s c t ∧ c ∈ A ∧
      s ∈ declared.map Declaration.name ∧ t ∈ declared.map Declaration.name := by
  simp only [move_eq_ok_iff hnodup, List.mem_iff_getElem?]
  constructor
  · rintro ⟨e, s, t, hmove, hc, hp, hq⟩
    exact ⟨s, e.symbol, t, hmove, hc, ⟨_, hp⟩, ⟨_, hq⟩⟩
  · rintro ⟨s, c, t, hmove, hc, ⟨p, hp⟩, ⟨q, hq⟩⟩
    exact ⟨⟨p, c, q⟩, s, t, hmove, hc, hp, hq⟩

section Edges

variable (hnodup : (declared.map Declaration.name).Nodup)
  (hedges : (moveFields line).mapM (Decode.move A declared) = .ok edges)

include hnodup hedges

/-- Where all fields are read, moves have declared states and symbols of the alphabet. -/
theorem isDeclared_of_hasMove {s t : String} {c : Char} (h : HasMove line s c t) :
    c ∈ A ∧ ∃ p q : Nat, (declared.map Declaration.name)[p]? = some s ∧
      (declared.map Declaration.name)[q]? = some t := by
  obtain ⟨field, hf, hmove⟩ := h
  obtain ⟨e, he⟩ := exists_mapM_eq_ok_iff.1 ⟨edges, hedges⟩ field hf
  obtain ⟨s', t', hmove', hc, hp, hq⟩ := (move_eq_ok_iff hnodup).1 he
  obtain ⟨rfl, rfl, rfl⟩ := hmove.unique hmove'
  exact ⟨hc, _, _, hp, hq⟩

/-- The edges are the moves of the fields. -/
theorem mem_edges_iff : e ∈ edges ↔ IsEdge line declared e := by
  rw [mem_of_mapM hedges]
  constructor
  · rintro ⟨field, hf, hm⟩
    obtain ⟨s, t, hmove, -, hp, hq⟩ := (move_eq_ok_iff hnodup).1 hm
    exact ⟨s, t, hp, hq, field, hf, hmove⟩
  · rintro ⟨s, t, hp, hq, hm⟩
    obtain ⟨hc, -⟩ := isDeclared_of_hasMove hnodup hedges hm
    obtain ⟨field, hf, hmove⟩ := hm
    exact ⟨field, hf, (move_eq_ok_iff hnodup).2 ⟨s, t, hmove, hc, hp, hq⟩⟩

theorem mem_edges_draft_iff :
    e ∈ (Decode.draft A declared edges).edges ↔ IsEdge line declared e := by
  rw [← mem_edges_iff hnodup hedges, draft_eq, List.mem_toArray]

/-- Nothing is wrong with the draft if there is a state and the fields do not contradict each
other. -/
theorem consistent_draft_iff : (Decode.draft A declared edges).Consistent 0 ↔ declared ≠ [] ∧
    ∀ {s c t t'}, HasMove line s c t → HasMove line s c t' → t = t' := by
  have hmem : ∀ {e}, e ∈ (Decode.draft A declared edges).edges ↔ IsEdge line declared e :=
    mem_edges_draft_iff hnodup hedges
  have hlt : ∀ {p name}, (declared.map Declaration.name)[p]? = some name →
      p < (Decode.draft A declared edges).size := by
    intro p name h
    rw [size_draft, ← List.length_map (f := Declaration.name)]
    exact (List.getElem?_eq_some_iff.1 h).1
  constructor
  · intro hc
    refine ⟨?_, fun {s c t t'} h h' => ?_⟩
    · rintro rfl
      have h0 := hc.initial_lt
      rw [size_draft] at h0
      exact Nat.lt_irrefl _ h0
    · obtain ⟨-, p, q, hp, hq⟩ := isDeclared_of_hasMove hnodup hedges h
      obtain ⟨-, -, q', -, hq'⟩ := isDeclared_of_hasMove hnodup hedges h'
      have he : (⟨p, c, q⟩ : Edge) ∈ _ := hmem.2 ⟨s, t, hp, hq, h⟩
      have he' : (⟨p, c, q'⟩ : Edge) ∈ _ := hmem.2 ⟨s, t', hp, hq', h'⟩
      have hqq : q = q' := hc.deterministic _ he _ he' rfl rfl
      rw [hqq, hq'] at hq
      exact (Option.some.inj hq).symm
  · rintro ⟨hne, hsame⟩
    constructor
    · rw [size_draft]
      exact List.length_pos_of_ne_nil hne
    · rwa [toList_names_draft]
    · exact fun p hp => lt_size_of_mem_accepting_draft hp
    · intro e he
      obtain ⟨s, t, hp, -, -⟩ := hmem.1 he
      exact hlt hp
    · intro e he
      obtain ⟨s, t, -, hq, -⟩ := hmem.1 he
      exact hlt hq
    · intro e he
      obtain ⟨s, t, -, -, hm⟩ := hmem.1 he
      have hc := (isDeclared_of_hasMove hnodup hedges hm).1
      rwa [draft_eq]
    · intro e he f hf hsource hsymbol
      obtain ⟨s, t, hp, hq, hm⟩ := hmem.1 he
      obtain ⟨s', t', hp', hq', hm'⟩ := hmem.1 hf
      rw [hsource, hp', Option.some.injEq] at hp
      obtain rfl := hp
      obtain rfl := hsame hm (hsymbol ▸ hm')
      have hlt' := (List.getElem?_eq_some_iff.1 hq).1
      exact (List.getElem?_inj hlt' hnodup).1 (hq.trans hq'.symm)

/-- The line describes the automaton of its draft. -/
theorem describes_automaton (hc : (Decode.draft A declared edges).Consistent 0) :
    Describes A line declared ((Decode.draft A declared edges).automaton 0 hc) := by
  have hname : ∀ p, ((Decode.draft A declared edges).automaton 0 hc).name? p =
      (declared.map Declaration.name)[p]? := by
    intro p
    rw [Draft.name?_automaton, draft_eq]
    exact List.getElem?_toArray
  constructor
  · rw [Draft.alphabet_automaton, draft_eq]
  · rw [Draft.size_automaton, size_draft]
  · rfl
  · exact hname
  · intro p
    rw [Bool.eq_iff_iff, Draft.isAccepting_automaton_iff, draft_eq, List.mem_toArray,
      mem_acceptingNumbers_iff]
  · intro p c q
    rw [Draft.step_automaton_iff, mem_edges_draft_iff hnodup hedges, hname, hname]
    rfl

end Edges

/-! ## The whole line -/

theorem headD_fields (line : List Char) :
    (Decode.fields (Text.trim line)).headD [] = stateField line := by
  unfold Decode.fields stateField
  cases (Text.trim line).splitOn ',' <;> rfl

theorem stateField_of_trim_eq_nil (h : Text.trim line = []) : stateField line = [] := by
  unfold stateField
  rw [h]
  rfl

/-- The fields that are read as moves. -/
theorem filter_tail_fields (line : List Char) :
    (Decode.fields (Text.trim line)).tail.filter (· ≠ []) = moveFields line := by
  unfold Decode.fields moveFields
  rw [List.map_tail]

/-- A blank line has an empty first field, so it needs no case of its own. -/
theorem read_eq_ok_iff {d : Draft} : Decode.read A line = .ok d ↔
    ∃ declared edges, Decode.states (stateField line) = .ok declared ∧
      (moveFields line).mapM (Decode.move A declared) = .ok edges ∧
      Decode.draft A declared edges = d := by
  unfold Decode.read
  by_cases hblank : Text.trim line = []
  · simp only [hblank, if_true]
    constructor
    · intro h
      cases h
    · rintro ⟨declared, -, h, -⟩
      rw [stateField_of_trim_eq_nil hblank] at h
      obtain ⟨hd, hne, -⟩ := states_eq_ok_iff.1 h
      exact absurd (hd.unique .nil) hne
  · simp only [hblank, if_false, headD_fields, filter_tail_fields]
    rw [bind_eq_ok_iff]
    refine exists_congr fun declared => ?_
    rw [bind_eq_ok_iff, ← exists_and_left]
    exact exists_congr fun edges => and_congr_right fun _ => and_congr_right fun _ =>
      ⟨Except.ok.inj, congrArg Except.ok⟩

/-- Decoding reads a draft and builds it. -/
theorem decode_eq_ok_iff_stages : Decode.decode A line = .ok M ↔
    ∃ declared edges, Decode.states (stateField line) = .ok declared ∧
      (moveFields line).mapM (Decode.move A declared) = .ok edges ∧
      (Decode.draft A declared edges).build 0 = .ok M := by
  unfold Decode.decode
  simp only [bind_eq_ok_iff, mapError_eq_ok_iff, read_eq_ok_iff]
  constructor
  · rintro ⟨_, ⟨declared, edges, hstates, hedges, rfl⟩, hbuild⟩
    exact ⟨declared, edges, hstates, hedges, hbuild⟩
  · rintro ⟨declared, edges, hstates, hedges, hbuild⟩
    exact ⟨_, ⟨declared, edges, hstates, hedges, rfl⟩, hbuild⟩

/-- A valid line is decoded. -/
theorem Valid.exists_decode (h : Valid A line declared) :
    ∃ M, Decode.decode A line = .ok M ∧ Describes A line declared M := by
  have hstates := states_eq_ok_iff.2 ⟨h.declares, h.ne_nil, h.nodup⟩
  obtain ⟨edges, hedges⟩ := exists_mapM_eq_ok_iff.2 fun field hf =>
    (exists_move_iff h.nodup).2 (h.moves field hf)
  have hc := (consistent_draft_iff h.nodup hedges).2 ⟨h.ne_nil, h.consistent⟩
  have hbuild := Draft.build_eq_ok_iff.2 ⟨hc, rfl⟩
  exact ⟨_, decode_eq_ok_iff_stages.2 ⟨declared, edges, hstates, hedges, hbuild⟩,
    describes_automaton h.nodup hedges hc⟩

/-- A line that is decoded is valid. -/
theorem exists_valid_of_decode (h : Decode.decode A line = .ok M) :
    ∃ declared, Valid A line declared ∧ Describes A line declared M := by
  obtain ⟨declared, edges, hstates, hedges, hbuild⟩ := decode_eq_ok_iff_stages.1 h
  obtain ⟨hdeclares, hne, hnodup⟩ := states_eq_ok_iff.1 hstates
  obtain ⟨hc, rfl⟩ := Draft.build_eq_ok_iff.1 hbuild
  refine ⟨declared, ⟨hdeclares, hne, hnodup, fun field hf => ?_, ?_⟩, ?_⟩
  · exact (exists_move_iff hnodup).1 (exists_mapM_eq_ok_iff.1 ⟨edges, hedges⟩ field hf)
  · exact ((consistent_draft_iff hnodup hedges).1 hc).2
  · exact describes_automaton hnodup hedges hc

/-- A line is decoded just if it is valid, and to the automaton that it describes. -/
theorem decode_eq_ok_iff : Decode.decode A line = .ok M ↔
    ∃ declared, Valid A line declared ∧ Describes A line declared M := by
  refine ⟨exists_valid_of_decode, ?_⟩
  rintro ⟨declared, hvalid, hM⟩
  obtain ⟨N, hdecode, hN⟩ := hvalid.exists_decode
  rwa [hM.unique hN]

theorem exists_decode_iff :
    (∃ M, Decode.decode A line = .ok M) ↔ ∃ declared, Valid A line declared := by
  constructor
  · rintro ⟨M, h⟩
    obtain ⟨declared, hvalid, -⟩ := decode_eq_ok_iff.1 h
    exact ⟨declared, hvalid⟩
  · rintro ⟨declared, h⟩
    obtain ⟨M, hM, -⟩ := h.exists_decode
    exact ⟨M, hM⟩

/-- Decoding succeeds on the valid lines and on no others, and the automaton is the one that the line
describes: its states in the order of their declarations, with the moves that its fields are. -/
theorem ofLine_exact (A : Alphabet) (line : String) :
    ((∃ M, Automaton.ofLine A line = .ok M) ↔ ∃ declared, Valid A line.toList declared) ∧
      ∀ M, Automaton.ofLine A line = .ok M ↔
        ∃ declared, Valid A line.toList declared ∧ Describes A line.toList declared M :=
  ⟨exists_decode_iff, fun _ => decode_eq_ok_iff⟩

end ShortestWitness.Line
