import ShortestWitness.Proofs.Except
import ShortestWitness.Proofs.Word.Order

/-!
# Intersections of alphabets

Alphabets come from lists of symbols and from numbers of letters, and from these by intersecting them.
However the intersections are nested, what comes out has the symbols that all sources show, in the
order in which the first source shows them (`Nesting.mem_iff`, `Nesting.before_iff`). So it does not
depend on the brackets (`Nesting.alphabet_eq_of_sources`), and intersecting is associative. It is not
commutative: the other way round the same symbols come out in the order of the other alphabet.

The symbols can also be put together as bare lists, in whose type nothing rules out that one occurs
twice. The same lists come out (`Nesting.entries_eq`).
-/

namespace ShortestWitness.Alphabet

variable {A B C : Alphabet} {c d : Char} {cs : List Char}

/-! ## Laws -/

/-- An alphabet has all its symbols in common with itself. -/
theorem intersection_self (A : Alphabet) : A.intersection A = A :=
  ext (List.filter_eq_self.2 fun _ hc => decide_eq_true hc)

/-- Common symbols of three alphabets may be taken in two ways. -/
theorem intersection_assoc (A B C : Alphabet) :
    (A.intersection B).intersection C = A.intersection (B.intersection C) := by
  refine eq_of_before (fun c => ?_) fun c d h => ?_
  · simp only [mem_intersection, and_assoc]
  · simp only [before_intersection_iff, mem_intersection] at h ⊢
    obtain ⟨⟨hA, hcB, hdB⟩, hcC, hdC⟩ := h
    exact ⟨hA, ⟨hcB, hcC⟩, hdB, hdC⟩

/-! ## First places in a list -/

theorem distinct_of_nodup (h : cs.Nodup) : distinct cs = cs := by
  induction cs with
  | nil => rfl
  | cons c cs ih =>
    obtain ⟨hc, hcs⟩ := List.nodup_cons.1 h
    rw [distinct, ih hcs, List.filter_eq_self.2]
    exact fun d hd => decide_eq_true (ne_of_mem_of_not_mem hd hc)

theorem distinct_filter (p : Char → Bool) (cs : List Char) :
    distinct (cs.filter p) = (distinct cs).filter p := by
  induction cs with
  | nil => rfl
  | cons c cs ih =>
    by_cases hc : p c
    · rw [List.filter_cons_of_pos hc, distinct, ih, distinct, List.filter_cons_of_pos hc,
        List.filter_comm]
    · have hne : ∀ d ∈ (distinct cs).filter p, decide (d ≠ c) = true := fun d hd =>
        decide_eq_true fun h => hc (h ▸ (List.mem_filter.1 hd).2)
      rw [List.filter_cons_of_neg hc, ih, distinct, List.filter_cons_of_neg hc, List.filter_comm,
        List.filter_eq_self.2 hne]

/-- Going through a list with an eye on what has been met comes to the same symbols. -/
theorem distinct_eq_eraseDups (cs : List Char) : distinct cs = cs.eraseDups := by
  -- The rest of the list is filtered before it is gone through, so the induction is on the length.
  induction hn : cs.length using Nat.strongRecOn generalizing cs with
  | ind n ih =>
    cases cs with
    | nil => rfl
    | cons c cs =>
      have hlen : (cs.filter (· ≠ c)).length < n := by
        have := List.length_filter_le (· ≠ c) cs
        rw [List.length_cons] at hn
        omega
      have hne : (fun d => !d == c) = fun d => decide (d ≠ c) := by
        funext d
        rw [decide_not, beq_eq_decide]
      rw [List.eraseDups_cons, hne, ← ih _ hlen _ rfl, distinct_filter, distinct]

/-- Symbols stand where they are first met. -/
theorem pairwise_distinct (cs : List Char) :
    (distinct cs).Pairwise fun c d => cs.idxOf c < cs.idxOf d := by
  induction cs with
  | nil => exact .nil
  | cons e cs ih =>
    have hidx : ∀ c ∈ (distinct cs).filter (· ≠ e), (e :: cs).idxOf c = cs.idxOf c + 1 := by
      intro c hc
      exact List.idxOf_cons_ne cs (Ne.symm (of_decide_eq_true (List.mem_filter.1 hc).2))
    refine .cons (fun d hd => ?_) ((ih.sublist List.filter_sublist).imp_of_mem fun hc hd hcd => ?_)
    · rw [List.idxOf_cons_self, hidx d hd]
      exact Nat.succ_pos _
    · rw [hidx _ hc, hidx _ hd]
      exact Nat.succ_lt_succ hcd

theorem mem_ofList : c ∈ ofList cs ↔ c ∈ cs := mem_distinct

/-- The order is that of the first occurrences. -/
theorem before_ofList_iff :
    (ofList cs).Before c d ↔ c ∈ cs ∧ d ∈ cs ∧ cs.idxOf c < cs.idxOf d := by
  have hbefore (hc : c ∈ cs) (hd : d ∈ cs) :
      (ofList cs).Before c d ↔ cs.idxOf c < cs.idxOf d :=
    before_iff_of_pairwise (pairwise_distinct cs) Nat.lt_asymm (mem_ofList.2 hc) (mem_ofList.2 hd)
  constructor
  · intro h
    have hc := mem_ofList.1 h.mem_left
    have hd := mem_ofList.1 h.mem_right
    exact ⟨hc, hd, (hbefore hc hd).1 h⟩
  · rintro ⟨hc, hd, h⟩
    exact (hbefore hc hd).2 h

/-! ## Sources -/

/-- What an alphabet is made from: the symbols in a list, or the first so many letters. -/
inductive Source where
  | listed (symbols : List Char)
  | letters (count : Nat)

namespace Source

variable {s : Source}

/-- The alphabet that is made from a source. -/
def alphabet : Source → Except Misuse Alphabet
  | listed cs => .ok (ofList cs)
  | letters n => ofSize n

/-- No more letters are asked for than there are. -/
def Fits : Source → Prop
  | listed _ => True
  | letters n => n ≤ 26

/-- The symbols that a source shows, with repetitions. -/
def symbols : Source → List Char
  | listed cs => cs
  | letters n => Alphabet.letters.take n

/-- The letter before which so many others come, by its code of eight bits. -/
def letterAt (i : Nat) : Char := .ofUInt8 ('a'.toUInt8 + i.toUInt8)

/-- The bare list of the symbols that are not met before, or of the letters by their codes. -/
def entries : Source → Except Misuse (List Char)
  | listed cs => .ok cs.eraseDups
  | letters n => if n ≤ 26 then .ok ((List.range n).map letterAt) else .error .alphabetTooLarge

theorem alphabet_of_fits (h : s.Fits) : s.alphabet = .ok (ofList s.symbols) := by
  cases s with
  | listed cs => rfl
  | letters n => exact if_pos (c := n ≤ 26) h

theorem alphabet_of_not_fits (h : ¬ s.Fits) : s.alphabet = .error .alphabetTooLarge := by
  cases s with
  | listed cs => exact absurd trivial h
  | letters n => exact if_neg (c := n ≤ 26) h

/-- A source is an alphabet if it fits, and the alphabet has its symbols in their order. -/
theorem alphabet_eq_ok_iff : s.alphabet = .ok A ↔ s.Fits ∧ A = ofList s.symbols := by
  by_cases h : s.Fits
  · rw [alphabet_of_fits h, Except.ok.injEq, eq_comm, and_iff_right h]
  · rw [alphabet_of_not_fits h]
    exact iff_of_false (fun hok => nomatch hok) fun hok => h hok.1

/-- Counting up from `a` gives the first letters. -/
theorem map_letterAt {n : Nat} (h : n ≤ 26) :
    (List.range n).map letterAt = (ofList (Alphabet.letters.take n)).symbols := by
  have hletters : Alphabet.letters = (List.range 26).map letterAt := by decide
  have hnodup : (Alphabet.letters.take n).Nodup :=
    List.Nodup.sublist (List.take_sublist n _) (by decide)
  calc (List.range n).map letterAt
    _ = Alphabet.letters.take n := by
      rw [hletters, ← List.map_take, List.take_range, Nat.min_eq_left h]
    _ = (ofList (Alphabet.letters.take n)).symbols := (distinct_of_nodup hnodup).symm

/-- On a bare list of symbols a source fails alike and has the same symbols. -/
theorem entries_eq (s : Source) : s.entries = s.alphabet.map Alphabet.symbols := by
  cases s with
  | listed cs => exact congrArg Except.ok (distinct_eq_eraseDups cs).symm
  | letters n =>
    by_cases h : n ≤ 26
    · rw [alphabet_of_fits (s := letters n) h, entries, if_pos h, map_letterAt h]
      rfl
    · rw [alphabet_of_not_fits (s := letters n) h]
      exact if_neg h

end Source

/-! ## Nested intersections -/

/-- Sources, and intersections of what is nested in them. -/
inductive Nesting where
  | source (s : Source)
  | intersection (left right : Nesting)

namespace Nesting

variable {e f : Nesting}

/-- The alphabet that comes out. -/
def alphabet : Nesting → Except Misuse Alphabet
  | source s => s.alphabet
  | intersection e f => do
    let A ← e.alphabet
    let B ← f.alphabet
    return A.intersection B

/-- The bare list that comes out if the symbols on the left are kept that have a place on the right. -/
def entries : Nesting → Except Misuse (List Char)
  | source s => s.entries
  | intersection e f => do
    let cs ← e.entries
    let ds ← f.entries
    return cs.filter fun c => (ds.idxOf? c).isSome

def sources : Nesting → List Source
  | source s => [s]
  | intersection e f => e.sources ++ f.sources

def first : Nesting → Source
  | source s => s
  | intersection e _ => e.first

/-- No source asks for more letters than there are. -/
def Fits (e : Nesting) : Prop := ∀ s ∈ e.sources, s.Fits

/-- An intersection is an alphabet if both sides are, and it is their intersection then. -/
theorem alphabet_intersection_eq_ok_iff : (intersection e f).alphabet = .ok C ↔
    ∃ A B, e.alphabet = .ok A ∧ f.alphabet = .ok B ∧ A.intersection B = C := by
  constructor
  · intro h
    obtain ⟨A, hA, h⟩ := bind_eq_ok_iff.1 h
    obtain ⟨B, hB, h⟩ := bind_eq_ok_iff.1 h
    exact ⟨A, B, hA, hB, Except.ok.inj h⟩
  · rintro ⟨A, B, hA, hB, rfl⟩
    exact bind_eq_ok_iff.2 ⟨A, hA, bind_eq_ok_iff.2 ⟨B, hB, rfl⟩⟩

/-- An intersection fits just if both sides do. -/
theorem fits_intersection : (intersection e f).Fits ↔ e.Fits ∧ f.Fits := List.forall_mem_append

theorem exists_alphabet_iff : (∃ A, e.alphabet = .ok A) ↔ e.Fits := by
  induction e with
  | source s =>
    rw [Fits, sources, List.forall_mem_singleton]
    constructor
    · rintro ⟨A, hA⟩
      exact (Source.alphabet_eq_ok_iff.1 hA).1
    · intro h
      exact ⟨_, Source.alphabet_of_fits h⟩
  | intersection e f ihe ihf =>
    rw [fits_intersection, ← ihe, ← ihf]
    constructor
    · rintro ⟨C, hC⟩
      obtain ⟨A, B, hA, hB, -⟩ := alphabet_intersection_eq_ok_iff.1 hC
      exact ⟨⟨A, hA⟩, ⟨B, hB⟩⟩
    · rintro ⟨⟨A, hA⟩, ⟨B, hB⟩⟩
      exact ⟨_, alphabet_intersection_eq_ok_iff.2 ⟨A, B, hA, hB, rfl⟩⟩

/-- The symbols are those that all sources show. -/
theorem mem_iff (h : e.alphabet = .ok A) : c ∈ A ↔ ∀ s ∈ e.sources, c ∈ s.symbols := by
  induction e generalizing A with
  | source s =>
    obtain ⟨-, rfl⟩ := Source.alphabet_eq_ok_iff.1 h
    rw [mem_ofList, sources, List.forall_mem_singleton]
  | intersection e f ihe ihf =>
    obtain ⟨A, B, hA, hB, rfl⟩ := alphabet_intersection_eq_ok_iff.1 h
    rw [mem_intersection, ihe hA, ihf hB, sources, List.forall_mem_append]

/-- They stand in the order in which the first source shows them. -/
theorem before_iff (h : e.alphabet = .ok A) : A.Before c d ↔
    c ∈ A ∧ d ∈ A ∧ e.first.symbols.idxOf c < e.first.symbols.idxOf d := by
  induction e generalizing A with
  | source s =>
    obtain ⟨-, rfl⟩ := Source.alphabet_eq_ok_iff.1 h
    rw [before_ofList_iff, mem_ofList, mem_ofList]
    rfl
  | intersection e f ihe _ =>
    obtain ⟨A, B, hA, hB, rfl⟩ := alphabet_intersection_eq_ok_iff.1 h
    rw [before_intersection_iff, ihe hA, mem_intersection, mem_intersection]
    constructor
    · rintro ⟨⟨hcA, hdA, hlt⟩, hcB, hdB⟩
      exact ⟨⟨hcA, hcB⟩, ⟨hdA, hdB⟩, hlt⟩
    · rintro ⟨⟨hcA, hcB⟩, ⟨hdA, hdB⟩, hlt⟩
      exact ⟨⟨hcA, hdA, hlt⟩, hcB, hdB⟩

/-- The order of a nesting is that of its first source. -/
theorem head?_sources (e : Nesting) : e.sources.head? = some e.first := by
  induction e with
  | source s => rfl
  | intersection e f ihe _ => rw [sources, List.head?_append, ihe, Option.some_or, first]

/-- Brackets do not matter. -/
theorem alphabet_eq_of_sources (h : e.alphabet = .ok A) (hs : f.sources = e.sources) :
    f.alphabet = .ok A := by
  -- Symbols and their order are told by the sources, so they are the same on both sides.
  have hfirst : f.first = e.first := Option.some.inj (by rw [← head?_sources, hs, head?_sources])
  have hfits : f.Fits := by
    rw [Fits, hs]
    exact exists_alphabet_iff.1 ⟨A, h⟩
  obtain ⟨B, hB⟩ := exists_alphabet_iff.2 hfits
  have hmem : ∀ c, c ∈ B ↔ c ∈ A := fun c => by rw [mem_iff hB, mem_iff h, hs]
  have hAB : B = A := eq_of_before hmem fun c d hcd => by
    obtain ⟨hc, hd, hlt⟩ := (before_iff hB).1 hcd
    exact (before_iff h).2 ⟨(hmem c).1 hc, (hmem d).1 hd, hfirst ▸ hlt⟩
  rw [hB, hAB]

/-- The bare lists are those of the alphabets. -/
theorem entries_eq (e : Nesting) : e.entries = e.alphabet.map symbols := by
  induction e with
  | source s => exact s.entries_eq
  | intersection e f ihe ihf =>
    rw [entries, alphabet, ihe, ihf]
    cases e.alphabet with
    | error x => rfl
    | ok A =>
      cases f.alphabet with
      | error x => rfl
      | ok B =>
        have hkept : ∀ c ∈ A.symbols, (B.symbols.idxOf? c).isSome = decide (c ∈ B) := by
          intro c _
          rw [Bool.eq_iff_iff, List.isSome_idxOf?, decide_eq_true_iff, mem_def]
        exact congrArg Except.ok (List.filter_congr hkept)

end Nesting

/-! ## Alphabets are exact -/

/-- Intersections can be nested at will if no source asks for too many letters. The alphabet that comes
out has the symbols that all sources show, in the order of the first source and whatever the brackets
are. The same symbols come out as a bare list. No symbol occurs twice, and positions and symbols
determine each other. Intersecting two alphabets keeps the common symbols in the order of the first. It
is idempotent and associative, and the other way round it gives the same symbols, in the same order if
and only if they have the same order in both alphabets. -/
theorem intersection_exact (e f g : Nesting) (he : e.Fits) (hf : f.Fits) (hg : g.Fits) :
    ∃ A B C : Alphabet, e.alphabet = .ok A ∧ f.alphabet = .ok B ∧ g.alphabet = .ok C ∧
      e.entries = .ok A.symbols ∧ A.symbols.Nodup ∧
      (∀ i < A.size, ∃ c, A.symbol? i = some c ∧ A.position c = some i) ∧
      (∀ c i, A.position c = some i → A.symbol? i = some c) ∧
      (∀ c, c ∈ A ↔ ∀ s ∈ e.sources, c ∈ s.symbols) ∧
      (∀ c d, A.Before c d ↔
        c ∈ A ∧ d ∈ A ∧ e.first.symbols.idxOf c < e.first.symbols.idxOf d) ∧
      (∀ e' : Nesting, e'.sources = e.sources → e'.alphabet = .ok A) ∧
      (e.intersection f).alphabet = .ok (A.intersection B) ∧
      (∀ c, c ∈ A.intersection B ↔ c ∈ A ∧ c ∈ B) ∧
      (∀ c d, (A.intersection B).Before c d ↔ A.Before c d ∧ c ∈ B ∧ d ∈ B) ∧
      A.intersection A = A ∧
      (A.intersection B).intersection C = A.intersection (B.intersection C) ∧
      (A.intersection B).symbols.Perm (B.intersection A).symbols ∧
      (A.intersection B = B.intersection A ↔ A.SameOrder B) := by
  obtain ⟨A, hA⟩ := Nesting.exists_alphabet_iff.2 he
  obtain ⟨B, hB⟩ := Nesting.exists_alphabet_iff.2 hf
  obtain ⟨C, hC⟩ := Nesting.exists_alphabet_iff.2 hg
  have hentries : e.entries = .ok A.symbols := by
    rw [e.entries_eq, hA]
    rfl
  have hposition : ∀ i < A.size, ∃ c, A.symbol? i = some c ∧ A.position c = some i := by
    intro i hi
    have hc : A.symbol? i = some (A.symbols.get ⟨i, hi⟩) := List.getElem?_eq_getElem hi
    exact ⟨_, hc, position_of_symbol? hc⟩
  exact ⟨A, B, C, hA, hB, hC, hentries, A.nodup, hposition, fun c i => symbol?_of_position,
    fun c => Nesting.mem_iff hA, fun c d => Nesting.before_iff hA,
    fun e' => Nesting.alphabet_eq_of_sources hA,
    Nesting.alphabet_intersection_eq_ok_iff.2 ⟨A, B, hA, hB, rfl⟩, fun c => mem_intersection,
    fun c d => before_intersection_iff, intersection_self A, intersection_assoc A B C,
    perm_symbols fun c => mem_intersection_comm, sameOrder_iff.symm⟩

/-- The letters from `b` to `d`. -/
def lettersAfterA : Nesting :=
  .intersection (.source (.letters 4)) (.source (.listed ['d', 'x', 'b', 'c', 'b']))

/-- Two of these letters in another order, and a symbol that is none of them. -/
def cBeforeB : Nesting := .source (.listed ['c', 'b', 'y', 'c'])

/-- The common symbols come out in one order or the other, depending on which alphabet is first. -/
theorem intersection_exact_lettersAfterA :
    lettersAfterA.Fits ∧ cBeforeB.Fits ∧ Nesting.Fits (.source (.letters 3)) ∧
      ∃ A B C : Alphabet, lettersAfterA.alphabet = .ok A ∧ cBeforeB.alphabet = .ok B ∧
        Nesting.alphabet (.source (.letters 3)) = .ok C ∧ A.symbols = ['b', 'c', 'd'] ∧
        A.Before 'b' 'c' ∧ (A.intersection B).symbols = ['b', 'c'] ∧
        (B.intersection A).symbols = ['c', 'b'] ∧
        ((A.intersection B).intersection C).symbols = (A.intersection (B.intersection C)).symbols ∧
        (A.intersection B).symbols.Perm (B.intersection A).symbols ∧ ¬ A.SameOrder B := by
  have he : lettersAfterA.Fits := by
    simp [Nesting.Fits, lettersAfterA, Nesting.sources, Source.Fits]
  have hf : cBeforeB.Fits := by
    simp [Nesting.Fits, cBeforeB, Nesting.sources, Source.Fits]
  have hg : Nesting.Fits (.source (.letters 3)) := by
    simp [Nesting.Fits, Nesting.sources, Source.Fits]
  obtain ⟨A, B, C, hA, hB, hC, -, -, -, -, -, hbefore, -, -, -, -, -, hassoc, hperm, hiff⟩ :=
    intersection_exact lettersAfterA cBeforeB (.source (.letters 3)) he hf hg
  obtain rfl : ofList ['b', 'c', 'd'] = A := Except.ok.inj hA
  obtain rfl : ofList ['c', 'b', 'y', 'c'] = B := Except.ok.inj hB
  have hne : (ofList ['b', 'c', 'd']).intersection (ofList ['c', 'b', 'y', 'c']) ≠
      (ofList ['c', 'b', 'y', 'c']).intersection (ofList ['b', 'c', 'd']) := by
    decide
  exact ⟨he, hf, hg, _, _, C, hA, hB, hC, rfl, (hbefore _ _).2 (by decide), rfl, rfl,
    congrArg symbols hassoc, hperm, fun h => hne (hiff.2 h)⟩

end ShortestWitness.Alphabet
