import ShortestWitness.Proofs.Decision.Agreement
import ShortestWitness.Proofs.Line.Decode
import ShortestWitness.Proofs.Line.WritingOrder

/-!
# Reading back what was written

An automaton whose states have tokens for names writes a line whose fields are its states and, if no
move is on a comma, its moves (`moveFields_encode`). Such a line is valid just if no move is on a
comma or on a digit: a comma leaves a field that is a token alone, and a digit is taken for a part of
the token before it (`exists_valid_encode_iff`). What is read from a valid line is the automaton with
its initial state at the front, since that is what the line describes (`initialFirst_of_describes`).
-/

namespace ShortestWitness.Automaton

variable {M : Automaton} {p : Nat}

/-- The states as the line declares them. -/
def declarations (M : Automaton) : List Declaration :=
  M.writingOrder.map fun p => ⟨M.label p, M.isAccepting p⟩

/-- The part of the line before the moves. -/
def stateSection (M : Automaton) : List Char := M.writingOrder.flatMap M.stateText

theorem map_name_declarations (M : Automaton) :
    M.declarations.map Declaration.name = M.writingOrder.map M.label := by
  unfold declarations
  rw [List.map_map]
  rfl

theorem label_mem_declarations (h : p < M.size) :
    M.label p ∈ M.declarations.map Declaration.name := by
  rw [map_name_declarations]
  exact List.mem_map_of_mem (mem_writingOrder.2 h)

/-- No state is written twice. -/
theorem nodup_declarations (M : Automaton) : (M.declarations.map Declaration.name).Nodup := by
  rw [map_name_declarations]
  refine (nodup_writingOrder M).map_on fun p hp q hq h => ?_
  exact label_inj (mem_writingOrder.1 hp) (mem_writingOrder.1 hq) h

theorem length_declarations (M : Automaton) : M.declarations.length = M.size := by
  rw [declarations, List.length_map, length_writingOrder]

/-- A state is written at its place in the writing order. -/
theorem getElem?_declarations (h : p < M.size) :
    M.declarations[M.renumber p]? = some ⟨M.label p, M.isAccepting p⟩ := by
  rw [declarations, List.getElem?_map, getElem?_writingOrder h]
  rfl

end ShortestWitness.Automaton

namespace ShortestWitness.Line

open Automaton

variable {M N : Automaton} {p q : Nat} {c : Char} {s t name : String} {e : Edge}

/-! ## Tokens among other characters -/

theorem IsToken.ne_nil (h : IsToken name) : name.toList ≠ [] := by
  obtain ⟨ds, hname, -, -⟩ := h
  rw [hname]
  exact List.cons_ne_nil _ _

theorem IsToken.isTrimmed (h : IsToken name) : Text.IsTrimmed name.toList := by
  obtain ⟨ds, hname, hne, hdigits⟩ := h
  rw [hname]
  constructor
  · intro c hc
    obtain rfl := Option.some.inj hc
    decide
  · intro c hc
    rw [List.getLast?_cons_of_ne_nil hne] at hc
    exact Text.isBlank_of_isDigit (hdigits c (List.mem_of_getLast? hc))

theorem IsToken.comma_not_mem (h : IsToken name) : ',' ∉ name.toList := by
  obtain ⟨ds, hname, -, hdigits⟩ := h
  rw [hname]
  intro hmem
  rcases List.mem_cons.1 hmem with hq | hd
  · exact absurd hq (by decide)
  · exact absurd (hdigits _ hd) (by decide)

/-- The name can stand in a field: it has no comma, and there is nothing to trim. -/
structure IsPlain (name : String) : Prop where
  ne_nil : name.toList ≠ []
  isTrimmed : Text.IsTrimmed name.toList
  comma_not_mem : ',' ∉ name.toList

theorem IsToken.isPlain (h : IsToken name) : IsPlain name :=
  ⟨h.ne_nil, h.isTrimmed, h.comma_not_mem⟩

/-- Whatever symbol stands between two names, there is nothing to trim. -/
theorem isTrimmed_move (hs : IsPlain s) (ht : IsPlain t) (c : Char) :
    Text.IsTrimmed (s.toList ++ c :: t.toList) := by
  have h := hs.isTrimmed.surround ht.isTrimmed hs.ne_nil ht.ne_nil [c]
  rwa [List.append_assoc] at h

/-- Pieces that start with commas are split one by one. -/
theorem splitOn_append_flatMap {α : Type} (f : α → List Char) (as : List α) (cs : List Char) :
    (cs ++ as.flatMap fun a => ',' :: f a).splitOn ',' =
      cs.splitOn ',' ++ as.flatMap fun a => (f a).splitOn ',' := by
  induction as generalizing cs with
  | nil => simp
  | cons a as ih =>
    rw [List.flatMap_cons, List.flatMap_cons, List.cons_append, List.splitOn_append_cons_self, ih]

/-! ## The fields that are written -/

theorem edgeText_ne_nil (M : Automaton) (e : Edge) : M.edgeText e ≠ [] := by
  simp [edgeText]

section Plain

variable (hM : ∀ p name, M.name? p = some name → IsPlain name)

include hM

theorem isPlain_label (h : p < M.size) : IsPlain (M.label p) := hM p _ (name?_eq_label h)

theorem isPlain_source (h : e ∈ M.edges) : IsPlain (M.label e.source) :=
  isPlain_label hM (source_lt_of_step (mem_edges.1 h))

theorem isPlain_target (h : e ∈ M.edges) : IsPlain (M.label e.target) :=
  isPlain_label hM (target_lt_of_step (mem_edges.1 h))

theorem isTrimmed_edgeText (h : e ∈ M.edges) : Text.IsTrimmed (M.edgeText e) :=
  isTrimmed_move (isPlain_source hM h) (isPlain_target hM h) e.symbol

theorem isTrimmed_stateSection : Text.IsTrimmed (M.stateSection) := by
  apply Text.isTrimmed_flatMap
  intro p hp
  apply (isPlain_label hM (mem_writingOrder.1 hp)).isTrimmed.append
  cases M.isAccepting p
  · exact Text.isTrimmed_nil
  · exact Text.isTrimmed_singleton (by decide)

theorem isTrimmed_encode : Text.IsTrimmed M.encode := by
  apply (isTrimmed_stateSection hM).append
  apply Text.isTrimmed_flatMap
  intro e he
  exact (Text.isTrimmed_singleton (by decide)).append (isTrimmed_edgeText hM he)

theorem comma_not_mem_stateSection : ',' ∉ M.stateSection := by
  intro h
  obtain ⟨p, hp, hc⟩ := List.mem_flatMap.1 h
  rcases List.mem_append.1 hc with hc | hc
  · exact (isPlain_label hM (mem_writingOrder.1 hp)).comma_not_mem hc
  · cases ha : M.isAccepting p <;> simp [ha] at hc

/-- The line is split into the states and the pieces of the moves, which are the moves themselves
unless one of them is on a comma. -/
theorem splitOn_encode : M.encode.splitOn ',' =
    M.stateSection :: M.edges.flatMap fun e => (M.edgeText e).splitOn ',' := by
  rw [encode, splitOn_append_flatMap, ← stateSection,
    List.splitOn_eq_singleton (comma_not_mem_stateSection hM)]
  rfl

/-- The first field is what is written of the states. -/
theorem stateField_encode : stateField M.encode = M.stateSection := by
  rw [stateField, (isTrimmed_encode hM).trim_eq, splitOn_encode hM]
  exact (isTrimmed_stateSection hM).trim_eq

/-- What is left of an edge between commas is a field. -/
theorem mem_moveFields_encode {piece : List Char} (he : e ∈ M.edges)
    (hpiece : piece ∈ (M.edgeText e).splitOn ',') (htrimmed : Text.IsTrimmed piece)
    (hne : piece ≠ []) : piece ∈ moveFields M.encode := by
  rw [moveFields, (isTrimmed_encode hM).trim_eq, splitOn_encode hM]
  refine List.mem_filter.2 ⟨List.mem_map.2 ⟨piece, ?_, htrimmed.trim_eq⟩, decide_eq_true hne⟩
  exact List.mem_flatMap.2 ⟨e, he, hpiece⟩

/-- An edge on anything but a comma is one field. -/
theorem splitOn_edgeText (he : e ∈ M.edges) (hc : e.symbol ≠ ',') :
    (M.edgeText e).splitOn ',' = [M.edgeText e] := by
  apply List.splitOn_eq_singleton
  intro hmem
  rcases List.mem_append.1 hmem with h | h
  · exact (isPlain_source hM he).comma_not_mem h
  · rcases List.mem_cons.1 h with h | h
    · exact hc h.symm
    · exact (isPlain_target hM he).comma_not_mem h

/-- If no move is on a comma, every move is a field. -/
theorem moveFields_encode (hcomma : ∀ e ∈ M.edges, e.symbol ≠ ',') :
    moveFields M.encode = M.edges.map M.edgeText := by
  have hpieces : (M.edges.flatMap fun e => (M.edgeText e).splitOn ',') =
      M.edges.map M.edgeText := by
    rw [List.map_eq_flatMap]
    exact List.flatMap_congr fun e he => splitOn_edgeText hM he (hcomma e he)
  rw [moveFields, (isTrimmed_encode hM).trim_eq, splitOn_encode hM, List.tail_cons, hpieces,
    List.map_map]
  have htrim : M.edges.map (Text.trim ∘ M.edgeText) = M.edges.map M.edgeText :=
    List.map_congr_left fun e he => (isTrimmed_edgeText hM he).trim_eq
  rw [htrim, List.filter_eq_self]
  intro field hf
  obtain ⟨e, he, rfl⟩ := List.mem_map.1 hf
  exact decide_eq_true (edgeText_ne_nil M e)

end Plain

/-! ## Which lines are valid -/

section Tokens

variable (hM : ∀ p name, M.name? p = some name → IsToken name)

include hM

theorem forall_isPlain : ∀ p name, M.name? p = some name → IsPlain name := fun p name h =>
  (hM p name h).isPlain

theorem isToken_label (h : p < M.size) : IsToken (M.label p) := hM p _ (name?_eq_label h)

theorem isToken_source (h : e ∈ M.edges) : IsToken (M.label e.source) :=
  isToken_label hM (source_lt_of_step (mem_edges.1 h))

theorem isToken_target (h : e ∈ M.edges) : IsToken (M.label e.target) :=
  isToken_label hM (target_lt_of_step (mem_edges.1 h))

/-- Tokens that are written one after the other are declared. -/
theorem declares_flatMap_stateText {l : List Nat} (hl : ∀ p ∈ l, p < M.size) :
    Declares (l.flatMap M.stateText) (l.map fun p => ⟨M.label p, M.isAccepting p⟩) := by
  induction l with
  | nil => exact .nil
  | cons p l ih =>
    have hp := isToken_label hM (hl p List.mem_cons_self)
    have hrest := ih fun q hq => hl q (List.mem_cons_of_mem _ hq)
    rw [List.flatMap_cons, List.map_cons, stateText, List.append_assoc]
    cases M.isAccepting p with
    | false => exact .rejecting ⟨hp, rfl, hrest.greedy⟩ hrest
    | true =>
      have hmark : ∀ c ∈ ('f' :: l.flatMap M.stateText).head?, c.isDigit = false := by
        intro c hc
        obtain rfl := Option.some.inj hc
        decide
      exact .accepting ⟨hp, rfl, hmark⟩ hrest

theorem declares_stateField_encode : Declares (stateField M.encode) M.declarations := by
  rw [stateField_encode (forall_isPlain hM)]
  exact declares_flatMap_stateText hM fun p hp => mem_writingOrder.1 hp

/-- On a comma the field of a move falls apart, and on a digit it is not read as a move. -/
theorem symbol_of_valid {A : Alphabet} {ds : List Declaration} (h : Valid A M.encode ds)
    (he : e ∈ M.edges) : e.symbol ≠ ',' ∧ e.symbol.isDigit = false := by
  have hs := isToken_source hM he
  have ht := isToken_target hM he
  have hcomma : e.symbol ≠ ',' := by
    intro hc
    have hpiece : (M.label e.source).toList ∈ (M.edgeText e).splitOn ',' := by
      rw [edgeText, hc, List.splitOn_append_cons_self,
        List.splitOn_eq_singleton hs.comma_not_mem]
      exact List.mem_cons_self
    have hfield := mem_moveFields_encode (forall_isPlain hM) he hpiece hs.isTrimmed hs.ne_nil
    obtain ⟨_, _, _, hmove, -⟩ := h.moves _ hfield
    exact not_isMove_token hs hmove
  refine ⟨hcomma, Bool.eq_false_iff.2 fun hdigit => ?_⟩
  have hpiece : M.edgeText e ∈ (M.edgeText e).splitOn ',' := by
    rw [splitOn_edgeText (forall_isPlain hM) he hcomma]
    exact List.mem_cons_self
  have hfield := mem_moveFields_encode (forall_isPlain hM) he hpiece
    (isTrimmed_edgeText (forall_isPlain hM) he) (edgeText_ne_nil M e)
  obtain ⟨_, _, _, hmove, -⟩ := h.moves _ hfield
  exact not_isMove_of_isDigit hs ht hdigit hmove

section Symbols

variable (hsymbol : ∀ e ∈ M.edges, e.symbol ≠ ',' ∧ e.symbol.isDigit = false)

include hsymbol

/-- An edge between states that are named by tokens is written as a move. -/
theorem isMove_edgeText (he : e ∈ M.edges) :
    IsMove (M.edgeText e) (M.label e.source) e.symbol (M.label e.target) :=
  ⟨isToken_source hM he, isToken_target hM he, rfl, (hsymbol e he).2⟩

/-- The moves of the line are the moves of the automaton. -/
theorem hasMove_encode_iff : HasMove M.encode s c t ↔
    ∃ p q, M.name? p = some s ∧ M.name? q = some t ∧ M.step p c = some q := by
  rw [HasMove, moveFields_encode (forall_isPlain hM) fun e he => (hsymbol e he).1]
  constructor
  · rintro ⟨field, hfield, hmove⟩
    obtain ⟨e, he, rfl⟩ := List.mem_map.1 hfield
    obtain ⟨rfl, rfl, rfl⟩ := hmove.unique (isMove_edgeText hM hsymbol he)
    have hstep := mem_edges.1 he
    exact ⟨e.source, e.target, name?_eq_label (source_lt_of_step hstep),
      name?_eq_label (target_lt_of_step hstep), hstep⟩
  · rintro ⟨p, q, hp, hq, hstep⟩
    have he : (⟨p, c, q⟩ : Edge) ∈ M.edges := mem_edges.2 hstep
    have hmove := isMove_edgeText hM hsymbol he
    rw [label_of_name? hp, label_of_name? hq] at hmove
    exact ⟨_, List.mem_map_of_mem he, hmove⟩

theorem valid_encode : Valid M.alphabet M.encode M.declarations := by
  refine ⟨declares_stateField_encode hM, ?_, nodup_declarations M, ?_, ?_⟩
  · exact List.cons_ne_nil _ _
  · intro field hfield
    rw [moveFields_encode (forall_isPlain hM) fun e he => (hsymbol e he).1] at hfield
    obtain ⟨e, he, rfl⟩ := List.mem_map.1 hfield
    have hstep := mem_edges.1 he
    exact ⟨_, _, _, isMove_edgeText hM hsymbol he, mem_alphabet_of_step hstep,
      label_mem_declarations (source_lt_of_step hstep),
      label_mem_declarations (target_lt_of_step hstep)⟩
  · intro s c t t' h h'
    obtain ⟨p, q, hp, hq, hstep⟩ := (hasMove_encode_iff hM hsymbol).1 h
    obtain ⟨p', q', hp', hq', hstep'⟩ := (hasMove_encode_iff hM hsymbol).1 h'
    obtain rfl := eq_of_name? hp hp'
    obtain rfl := Option.some.inj (hstep.symm.trans hstep')
    exact Option.some.inj (hq.symm.trans hq')

/-- What the line describes is the automaton, up to the place of the initial state. -/
theorem initialFirst_of_describes (h : Describes M.alphabet M.encode M.declarations N) :
    InitialFirst M N := by
  have hnone : ∀ {p}, ¬ p < M.size → M.declarations[M.renumber p]? = none := by
    intro p hp
    rw [List.getElem?_eq_none_iff, length_declarations]
    exact Nat.not_lt.1 (mt renumber_lt_size_iff.1 hp)
  have hname : ∀ p, N.name? (M.renumber p) = M.name? p := by
    intro p
    rw [h.name?, List.getElem?_map]
    by_cases hp : p < M.size
    · rw [getElem?_declarations hp, name?_eq_label hp]
      rfl
    · rw [hnone hp, name?_of_le (Nat.not_lt.1 hp)]
      rfl
  refine ⟨h.alphabet, h.size.trans (length_declarations M), h.initial, hname, fun p => ?_,
    fun p c => Option.ext fun i => ?_⟩
  · rw [h.isAccepting]
    by_cases hp : p < M.size
    · rw [getElem?_declarations hp, Option.any_some]
    · rw [hnone hp, isAccepting_of_le (Nat.not_lt.1 hp)]
      rfl
  · rw [h.step_iff, Option.map_eq_some_iff]
    constructor
    · rintro ⟨s, t, hs, ht, hmove⟩
      obtain ⟨p', q, hp', hq, hstep⟩ := (hasMove_encode_iff hM hsymbol).1 hmove
      rw [hname] at hs
      obtain rfl := eq_of_name? hs hp'
      exact ⟨q, hstep, eq_of_name? ((hname q).trans hq) ht⟩
    · rintro ⟨q, hstep, rfl⟩
      have hp := name?_eq_label (source_lt_of_step hstep)
      have hq := name?_eq_label (target_lt_of_step hstep)
      exact ⟨_, _, (hname p).trans hp, (hname q).trans hq,
        (hasMove_encode_iff hM hsymbol).2 ⟨p, q, hp, hq, hstep⟩⟩

end Symbols

/-- The line can be read back just if no move is on a comma or on a digit. -/
theorem exists_valid_encode_iff : (∃ ds, Valid M.alphabet M.encode ds) ↔
    ∀ e ∈ M.edges, e.symbol ≠ ',' ∧ e.symbol.isDigit = false := by
  constructor
  · rintro ⟨ds, h⟩ e he
    exact symbol_of_valid hM h he
  · intro h
    exact ⟨_, valid_encode hM h⟩

/-- What is read back is the automaton with its initial state at the front. -/
theorem initialFirst_of_decode (h : Decode.decode M.alphabet M.encode = .ok N) :
    InitialFirst M N := by
  obtain ⟨ds, hvalid, hdescribes⟩ := decode_eq_ok_iff.1 h
  have hsymbol := (exists_valid_encode_iff hM).1 ⟨ds, hvalid⟩
  obtain rfl := hvalid.unique (valid_encode hM hsymbol)
  exact initialFirst_of_describes hM hsymbol hdescribes

end Tokens

/-- An automaton with tokens for names is read back from its line just if no move is on a comma or
on a digit. What is read has the initial state at the front and the others in their order, and is the
same automaton in all other respects, so all questions about words have the same answers. -/
theorem ofLine_line_exact (M : Automaton) (hM : ∀ p name, M.name? p = some name → IsToken name) :
    ((∃ N, ofLine M.alphabet M.line = .ok N) ↔
        ∀ p c q, M.step p c = some q → c ≠ ',' ∧ c.isDigit = false) ∧
      (M.renumber M.initial = 0 ∧ (∀ i, ∃ p, M.renumber p = i) ∧
        ∀ p q, p ≠ M.initial → q ≠ M.initial → (M.renumber p < M.renumber q ↔ p < q)) ∧
      ∀ N, ofLine M.alphabet M.line = .ok N → InitialFirst M N ∧
        (∀ w, N.machine.accepts w = M.machine.accepts w) ∧
        N.machine.emptiness = M.machine.emptiness ∧
        (∀ (σ : Type) [Comparable σ] (S : Machine σ Bool),
          N.machine.compare S = M.machine.compare S ∧
            S.compare N.machine = S.compare M.machine) ∧
        (M.initial = 0 → N = M) := by
  have hdecode : ofLine M.alphabet M.line = Decode.decode M.alphabet M.encode := by
    rw [ofLine, line, String.toList_ofList]
  rw [hdecode]
  refine ⟨?_, ⟨renumber_initial M, exists_renumber_eq M, fun p q => renumber_lt_renumber_iff⟩,
    fun N hN => ?_⟩
  · rw [← forall_mem_edges_iff (P := fun e => e.symbol ≠ ',' ∧ e.symbol.isDigit = false),
      ← exists_valid_encode_iff hM]
    exact exists_decode_iff
  · have hfirst := initialFirst_of_decode hM hN
    have hagrees := hfirst.renames.agrees
    refine ⟨hfirst, hagrees.accepts, hagrees.emptiness_eq, fun σ _ S => ⟨?_, ?_⟩,
      hfirst.eq_of_initial_eq_zero⟩
    · exact hagrees.compare_eq (.refl S)
    · exact Machine.Agrees.compare_eq (.refl S) hagrees

/-- Two states that move to each other. The one that is initial accepts and has the greater number;
it moves on the given symbol, and the other one on `q`. -/
def relay (c : Char) : Automaton :=
  tabulate (.ofList ['q', c]) (⟨1, Nat.one_lt_two⟩ : Fin 2) (fun p => numberedName (7 + 3 * p))
    (fun h => by have := numberedName_inj h; omega) (fun p => p.val = 1)
    fun p d => if p.val = 1 then if d = c then some ⟨0, Nat.zero_lt_two⟩ else none
      else if d = 'q' then some ⟨1, Nat.one_lt_two⟩ else none

theorem isToken_of_name?_relay {c : Char} (h : (relay c).name? p = some name) : IsToken name := by
  have hsize : (relay c).size = 2 := Array.size_ofFn
  have hp : p < 2 := hsize ▸ lt_size_of_name? h
  have hname : (relay c).name? p = some (numberedName (7 + 3 * p)) := by
    simp [name?, relay, tabulate, hp]
  rw [← Option.some.inj (hname.symm.trans h)]
  exact isToken_numberedName _

/-- A blank between two tokens is read back, and a comma is not. -/
theorem ofLine_line_relay :
    (∀ p name, (relay ' ').name? p = some name → IsToken name) ∧
      (∀ p name, (relay ',').name? p = some name → IsToken name) ∧
      (relay ' ').line = "q10fq7,q7qq10,q10 q7" ∧
      (∃ N, ofLine (relay ' ').alphabet (relay ' ').line = .ok N ∧ InitialFirst (relay ' ') N ∧
        N.machine.emptiness = (relay ' ').machine.emptiness) ∧
      ¬ ∃ N, ofLine (relay ',').alphabet (relay ',').line = .ok N := by
  have hblank := ofLine_line_exact (relay ' ') fun p name => isToken_of_name?_relay
  have hcomma := ofLine_line_exact (relay ',') fun p name => isToken_of_name?_relay
  refine ⟨fun p name => isToken_of_name?_relay, fun p name => isToken_of_name?_relay, ?_, ?_, ?_⟩
  · decide
  · have hsymbol : ∀ p c q, (relay ' ').step p c = some q → c ≠ ',' ∧ c.isDigit = false := by
      intro p c q h
      have hc : c ∈ ['q', ' '] := mem_alphabet_of_step h
      rcases List.mem_pair.1 hc with rfl | rfl <;> decide
    obtain ⟨N, hN⟩ := hblank.1.2 hsymbol
    have h := hblank.2.2 N hN
    exact ⟨N, hN, h.1, h.2.2.1⟩
  · intro h
    have hstep : (relay ',').step 1 ',' = some 0 := by decide
    exact (hcomma.1.1 h 1 ',' 0 hstep).1 rfl

end ShortestWitness.Line
