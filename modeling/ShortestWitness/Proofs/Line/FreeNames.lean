import ShortestWitness.Proofs.Line.RoundTrip
import ShortestWitness.Proofs.Line.Runs

/-!
# Lines of automata with free names

Names are written as they are, one after the other, so a name may look like a part of the format. A state
with the name `q0fq1` is read back as two states (`ofLine_line_of_two_tokens`). What is read back is the
automaton, with its initial state at the front, just if all its names are tokens
(`forall_isToken_iff_initialFirst`). Names that are not can be told from tokens if each of them stays
apart from the others (`StaysApart`): then the field of the states is read name by name, since a token
ends where a name ends (`Declares.exists_append`), and a line that can be read back has tokens for names.
-/

namespace ShortestWitness.Line

open Automaton

variable {u v text : List Char} {ds : List Declaration} {M N : Automaton} {p : Nat} {name : String}

/-- A text that starts like this does not continue a token or the mark after it. -/
def Separate (text : List Char) : Prop := ∀ c ∈ text.head?, c.isDigit = false ∧ c ≠ 'f'

/-- The name is not mistaken for something else: it has no comma and nothing to trim, it does not
continue what is written before it, and it is not read as states, unless it is a token. -/
structure StaysApart (name : String) : Prop where
  comma_not_mem : ',' ∉ name.toList
  isTrimmed : Text.IsTrimmed name.toList
  separate : Separate name.toList
  isToken_of_declares : ∀ ds, Declares name.toList ds → IsToken name

theorem StaysApart.ne_nil (h : StaysApart name) : name.toList ≠ [] := by
  intro hnil
  exact (h.isToken_of_declares [] (hnil ▸ .nil)).ne_nil hnil

theorem StaysApart.isPlain (h : StaysApart name) : IsPlain name :=
  ⟨h.ne_nil, h.isTrimmed, h.comma_not_mem⟩

/-- Tokens are not mistaken for something else. -/
theorem IsToken.staysApart (h : IsToken name) : StaysApart name := by
  refine ⟨h.comma_not_mem, h.isTrimmed, fun c hc => ?_, fun _ _ => h⟩
  rw [(startsWith_self h).head?_eq] at hc
  obtain rfl := Option.some.inj hc
  decide

/-- A token is read to its end. -/
theorem IsToken.token?_eq (h : IsToken name) : Decode.token? name.toList = some (name, []) :=
  token?_eq_some_iff.2 (startsWith_self h)

/-! ## States read one after the other -/

/-- A token at the start of two texts is one of the first text, unless that is empty: the second text
does not continue it. -/
theorem StartsWith.exists_append {rest : List Char} (h : StartsWith (u ++ v) name rest) (hu : u ≠ [])
    (hv : ∀ c ∈ v.head?, c.isDigit = false) : ∃ u', StartsWith u name u' ∧ rest = u' ++ v := by
  obtain ⟨htoken, heq, hgreedy⟩ := h
  rcases List.append_eq_append_iff.1 heq with ⟨w, hname, rfl⟩ | ⟨u', rfl, rfl⟩
  · cases w with
    | nil =>
      rw [List.append_nil] at hname
      subst hname
      exact ⟨[], startsWith_self htoken, rfl⟩
    | cons c w =>
      -- what is left of the token would be digits at the start of the second text
      obtain ⟨ds, hds, -, hdigits⟩ := htoken
      obtain ⟨q, u', rfl⟩ := List.exists_cons_of_ne_nil hu
      rw [hds] at hname
      obtain ⟨-, rfl⟩ := List.cons.inj hname
      have hdigit := hdigits c (by simp)
      rw [hv c rfl] at hdigit
      cases hdigit
  · refine ⟨u', ⟨htoken, rfl, fun c hc => hgreedy c ?_⟩, rfl⟩
    obtain ⟨u'', rfl⟩ := List.head?_eq_some_iff.1 hc
    rfl

/-- States that are read from two texts are read from each of them. -/
theorem Declares.exists_append (h : Declares (u ++ v) ds) (hv : Separate v) :
    ∃ ds₁ ds₂, Declares u ds₁ ∧ Declares v ds₂ ∧ ds = ds₁ ++ ds₂ := by
  generalize htext : u ++ v = text at h
  induction h generalizing u with
  | nil =>
    obtain ⟨rfl, rfl⟩ := List.append_eq_nil_iff.1 htext
    exact ⟨[], [], .nil, .nil, rfl⟩
  | @rejecting text rest name ds hs hrest ih =>
    subst htext
    by_cases hu : u = []
    · subst hu
      exact ⟨[], _, .nil, .rejecting hs hrest, rfl⟩
    obtain ⟨u', hu', rfl⟩ := hs.exists_append hu fun c hc => (hv c hc).1
    obtain ⟨ds₁, ds₂, h₁, h₂, rfl⟩ := ih rfl
    exact ⟨_, ds₂, .rejecting hu' h₁, h₂, rfl⟩
  | @accepting text rest name ds hs hrest ih =>
    subst htext
    by_cases hu : u = []
    · subst hu
      exact ⟨[], _, .nil, .accepting hs hrest, rfl⟩
    obtain ⟨u', hu', heq⟩ := hs.exists_append hu fun c hc => (hv c hc).1
    cases u' with
    | nil =>
      -- the mark belongs to the first text, as the second one does not start with it
      rw [List.nil_append] at heq
      exact absurd rfl (hv 'f' (by rw [← heq]; rfl)).2
    | cons c u' =>
      obtain ⟨rfl, rfl⟩ := List.cons.inj heq
      obtain ⟨ds₁, ds₂, h₁, h₂, rfl⟩ := ih rfl
      exact ⟨_, ds₂, .accepting hu' h₁, h₂, rfl⟩

/-- A token before a mark is a token without it. -/
theorem StartsWith.exists_append_mark {rest : List Char} (h : StartsWith (u ++ ['f']) name rest) :
    ∃ u', StartsWith u name u' ∧ rest = u' ++ ['f'] := by
  refine h.exists_append ?_ fun c hc => ?_
  · rintro rfl
    exact absurd h.head?_eq (by decide)
  · obtain rfl := Option.some.inj hc
    decide

/-- If the last state loses its mark, states are read still. -/
theorem Declares.exists_of_append_mark (h : Declares (u ++ ['f']) ds) : ∃ ds', Declares u ds' := by
  generalize htext : u ++ ['f'] = text at h
  induction h generalizing u with
  | nil => simp at htext
  | rejecting hs _ ih =>
    subst htext
    obtain ⟨u', hu', rfl⟩ := hs.exists_append_mark
    obtain ⟨ds', h'⟩ := ih rfl
    exact ⟨_, .rejecting hu' h'⟩
  | accepting hs _ ih =>
    subst htext
    obtain ⟨u', hu', heq⟩ := hs.exists_append_mark
    cases u' with
    | nil => exact ⟨_, .rejecting hu' .nil⟩
    | cons c u' =>
      obtain ⟨rfl, rfl⟩ := List.cons.inj heq
      obtain ⟨ds', h'⟩ := ih rfl
      exact ⟨_, .accepting hu' h'⟩

/-! ## Names in the field of the states -/

section Apart

variable (hM : ∀ p name, M.name? p = some name → StaysApart name)

include hM

/-- Further states do not continue the state before them. -/
theorem separate_flatMap_stateText {l : List Nat} (hl : ∀ p ∈ l, p < M.size) :
    Separate (l.flatMap M.stateText) := by
  cases l with
  | nil => exact fun c hc => absurd hc (by simp)
  | cons p l =>
    have hp := hM p _ (name?_eq_label (hl p List.mem_cons_self))
    intro c hc
    rw [List.flatMap_cons, stateText, List.append_assoc,
      List.head?_append_of_ne_nil _ hp.ne_nil] at hc
    exact hp.separate c hc

/-- Each name is read on its own. -/
theorem exists_declares_label {l : List Nat} (hl : ∀ p ∈ l, p < M.size)
    (h : Declares (l.flatMap M.stateText) ds) : ∀ p ∈ l, ∃ ds', Declares (M.label p).toList ds' := by
  induction l generalizing ds with
  | nil => exact fun p hp => absurd hp List.not_mem_nil
  | cons q l ih =>
    have hl' : ∀ p ∈ l, p < M.size := fun p hp => hl p (List.mem_cons_of_mem _ hp)
    rw [List.flatMap_cons] at h
    obtain ⟨ds₁, ds₂, hq, hrest, -⟩ := h.exists_append (separate_flatMap_stateText hM hl')
    intro p hp
    rcases List.mem_cons.1 hp with rfl | hp
    · unfold stateText at hq
      cases haccepting : M.isAccepting p with
      | false =>
        rw [haccepting] at hq
        exact ⟨ds₁, by simpa using hq⟩
      | true =>
        rw [haccepting] at hq
        exact hq.exists_of_append_mark
    · exact ih hl' hrest p hp

/-- If the line can be read back, all names are tokens. -/
theorem forall_isToken_of_decode (h : Decode.decode M.alphabet M.encode = .ok N) :
    ∀ p name, M.name? p = some name → IsToken name := by
  obtain ⟨declared, hvalid, -⟩ := decode_eq_ok_iff.1 h
  have hdeclares := hvalid.declares
  rw [stateField_encode fun p name hp => (hM p name hp).isPlain] at hdeclares
  intro p name hp
  have hlt := lt_size_of_name? hp
  obtain ⟨ds, hds⟩ := exists_declares_label hM (fun q => mem_writingOrder.1) hdeclares p
    (mem_writingOrder.2 hlt)
  rw [label_of_name? hp] at hds
  exact (hM p name hp).isToken_of_declares ds hds

end Apart

/-! ## What is read back -/

/-- What is read back has tokens for names, so it can be the automaton only if that has them too. -/
theorem forall_isToken_iff_initialFirst (h : Decode.decode M.alphabet M.encode = .ok N) :
    (∀ p name, M.name? p = some name → IsToken name) ↔ InitialFirst M N := by
  refine ⟨fun hM => initialFirst_of_decode hM h, fun hfirst p name hp => ?_⟩
  obtain ⟨declared, hvalid, hN⟩ := decode_eq_ok_iff.1 h
  exact isToken_of_name? hvalid hN ((hfirst.name? p).trans hp)

/-- Whatever the names are, what is read back from the line has the same states under the same names, and
so accepts the same words, just if all names are tokens. If every name stays apart, a line that can be
read back has tokens for names, and then as many states are read back and the same words are accepted. -/
theorem ofLine_line_freeNames (M : Automaton) :
    (∀ N, ofLine M.alphabet M.line = .ok N →
        ((∀ p name, M.name? p = some name → IsToken name) ↔ InitialFirst M N)) ∧
      ((∀ p name, M.name? p = some name → StaysApart name) →
        ∀ N, ofLine M.alphabet M.line = .ok N →
          (∀ p name, M.name? p = some name → IsToken name) ∧ N.size = M.size ∧
            ∀ w, N.machine.accepts w = M.machine.accepts w) := by
  have hdecode : ofLine M.alphabet M.line = Decode.decode M.alphabet M.encode := by
    rw [ofLine, line, String.toList_ofList]
  rw [hdecode]
  refine ⟨fun N => forall_isToken_iff_initialFirst, fun hM N hN => ?_⟩
  have htokens := forall_isToken_of_decode hM hN
  have hfirst := (forall_isToken_iff_initialFirst hN).1 htokens
  exact ⟨htokens, hfirst.size, hfirst.renames.agrees.accepts⟩

/-- The draft of one state, which does not accept. -/
def loneState (name : String) : Draft := (Draft.empty .standard).addState name false

/-- One state that rejects, with a name that reads like two states, the first of which accepts. -/
theorem ofLine_line_of_two_tokens :
    ∃ M N, (loneState "q0fq1").build 0 = .ok M ∧ ofLine M.alphabet M.line = .ok N ∧
      M.name? 0 = some "q0fq1" ∧ ¬ IsToken "q0fq1" ∧ M.size = 1 ∧ N.size = 2 ∧
      M.machine.accepts [] = false ∧ N.machine.accepts [] = true := by
  have hbuild : ((loneState "q0fq1").build 0).map (fun M =>
      ((M.alphabet.symbols, M.line), M.name? 0, M.size, M.machine.accepts [])) =
        .ok ((['a', 'b'], "q0fq1"), some "q0fq1", 1, false) := by
    cbv
  have hread : (ofLine .standard "q0fq1").map (fun N => (N.size, N.machine.accepts [])) =
      .ok (2, true) := by
    cbv
  obtain ⟨M, hM, hparts⟩ := map_eq_ok_iff.1 hbuild
  obtain ⟨N, hN, hparts'⟩ := map_eq_ok_iff.1 hread
  simp only [Prod.mk.injEq] at hparts hparts'
  obtain ⟨⟨halphabet, hline⟩, hname, hsize, hrejects⟩ := hparts
  have halphabet : M.alphabet = .standard := Alphabet.ext halphabet
  refine ⟨M, N, hM, ?_, hname, ?_, hsize, hparts'.1, hrejects, hparts'.2⟩
  · rw [halphabet, hline, hN]
  · exact fun htoken => absurd htoken.token?_eq (by decide)

/-- A state and a letter that it is not marked with are no states. -/
theorem staysApart_token_and_letter : StaysApart "q1x" where
  comma_not_mem := by decide
  isTrimmed := by
    have hq : Text.IsTrimmed ['q'] := Text.isTrimmed_singleton (by decide)
    have hx : Text.IsTrimmed ['x'] := Text.isTrimmed_singleton (by decide)
    exact hq.surround hx (by simp) (by simp) ['1']
  separate c hc := by
    obtain rfl := Option.some.inj hc
    decide
  isToken_of_declares ds hds := by
    have hrest : (Decode.declarations "q1x".toList).2 = ['x'] := by cbv
    rw [declares_iff.1 hds] at hrest
    cases hrest

/-- Tokens stay apart, and one move reads a blank between them. A name that goes on after a token stays
apart as well, and a line with it is refused. -/
theorem ofLine_line_freeNames_relay :
    (∀ p name, (relay ' ').name? p = some name → StaysApart name) ∧
      (∃ N, ofLine (relay ' ').alphabet (relay ' ').line = .ok N ∧ InitialFirst (relay ' ') N ∧
        N.size = (relay ' ').size ∧ ∀ w, N.machine.accepts w = (relay ' ').machine.accepts w) ∧
      ∃ M, (loneState "q1x").build 0 = .ok M ∧ M.name? 0 = some "q1x" ∧ ¬ IsToken "q1x" ∧
        (∀ p name, M.name? p = some name → StaysApart name) ∧
        ¬ ∃ N, ofLine M.alphabet M.line = .ok N := by
  have htokens : ∀ p name, (relay ' ').name? p = some name → IsToken name := fun p name =>
    isToken_of_name?_relay
  have hapart : ∀ p name, (relay ' ').name? p = some name → StaysApart name := fun p name hp =>
    (htokens p name hp).staysApart
  have hread : (ofLine (relay ' ').alphabet (relay ' ').line).map Automaton.size = .ok 2 := by
    cbv
  obtain ⟨N, hN, -⟩ := map_eq_ok_iff.1 hread
  obtain ⟨hiff, hnames⟩ := ofLine_line_freeNames (relay ' ')
  refine ⟨hapart, ⟨N, hN, (hiff N hN).1 htokens, (hnames hapart N hN).2⟩, ?_⟩
  have hbuild : ((loneState "q1x").build 0).map (fun M => M.states.toList.map State.name) =
      .ok ["q1x"] := by
    cbv
  obtain ⟨M, hM, hstates⟩ := map_eq_ok_iff.1 hbuild
  have hname : ∀ p, M.name? p = ["q1x"][p]? := by
    intro p
    rw [← hstates, List.getElem?_map, Array.getElem?_toList]
    rfl
  have hlone : ∀ p name, M.name? p = some name → StaysApart name := by
    intro p name hp
    rw [hname] at hp
    rw [List.mem_singleton.1 (List.mem_of_getElem? hp)]
    exact staysApart_token_and_letter
  have hnotoken : ¬ IsToken "q1x" := fun htoken => absurd htoken.token?_eq (by decide)
  refine ⟨M, hM, hname 0, hnotoken, hlone, ?_⟩
  rintro ⟨N, hN⟩
  obtain ⟨-, hnames⟩ := ofLine_line_freeNames M
  exact hnotoken ((hnames hlone N hN).1 0 _ (hname 0))

end ShortestWitness.Line
