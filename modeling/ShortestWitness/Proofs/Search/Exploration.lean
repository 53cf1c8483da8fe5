import Mathlib.Data.List.Induction
import Mathlib.Data.List.Nodup
import ShortestWitness.Proofs.Machine.Run
import ShortestWitness.Proofs.Search.Entries
import ShortestWitness.Proofs.Word.Order

/-!
# The order of discovery

`Explored` is the invariant of a search: what its yielded and its waiting entries have to do with
the machine and the start. It holds of a search that starts and is kept by a visit
(`Explored.visit`). All that makes a search find first words follows from it: a word that leads to
a state that has not been found passes a waiting state (`Explored.covers`), and the word of a found
state is the first of all words that lead there (`Explored.least`), already when it is found. The
same argument shows that the first yielded state of some kind has the first word of all that lead
to states of this kind (`Explored.least_of_first`).
-/

namespace ShortestWitness

variable {σ κ : Type} {S : Machine σ κ} {o p q : σ} {v w : Word}

/-! ## Moves in the order of the alphabet -/

/-- Moves are listed in the order of their symbols. -/
theorem Machine.pairwise_moves (S : Machine σ κ) (p : σ) :
    (S.moves p).Pairwise fun m n => S.alphabet.Before m.1 n.1 := by
  refine S.alphabet.pairwise_before.filterMap _ fun c d h m hm n hn => ?_
  obtain ⟨_, _, rfl⟩ := Option.map_eq_some_iff.1 hm
  obtain ⟨_, _, rfl⟩ := Option.map_eq_some_iff.1 hn
  exact h

theorem Machine.runFrom_extend {e : Representative σ} {m : Char × σ}
    (he : S.runFrom o e.word = some e.state) (hm : m ∈ S.moves e.state) :
    S.runFrom o (e.extend m).word = some (e.extend m).state := by
  rw [Representative.extend, runFrom_snoc, he, Option.bind_some]
  exact mem_moves.1 hm

/-! ## The invariant -/

/-- The entries `ys` have been yielded and the entries `ws` are waiting in a search from `o`. States are
found once, in the order of their words, and by visits only (`tight`); the visits have found all states that
moves lead to, if not on earlier words (`closed`). -/
structure Explored (S : Machine σ κ) (o : σ) (ys ws : List (Representative σ)) : Prop where
  origin : ⟨o, []⟩ ∈ ys ++ ws
  nodup : ((ys ++ ws).map Representative.state).Nodup
  sorted : (ys ++ ws).Pairwise fun d e => S.alphabet.Shortlex d.word e.word
  runs : ∀ e ∈ ys ++ ws, S.runFrom o e.word = some e.state
  tight : ∀ e ∈ ys ++ ws, e = ⟨o, []⟩ ∨ ∃ d ∈ ys, ∃ m ∈ S.moves d.state, e = d.extend m
  closed : ∀ d ∈ ys, ∀ m ∈ S.moves d.state,
    ∃ e ∈ ys ++ ws, e.state = m.2 ∧ S.alphabet.ShortlexLe e.word (d.extend m).word

namespace Explored

variable {d e : Representative σ} {ys ws : List (Representative σ)}

theorem start (S : Machine σ κ) (o : σ) : Explored S o [] [⟨o, []⟩] where
  origin := List.mem_singleton_self _
  nodup := List.nodup_singleton _
  sorted := List.pairwise_singleton ..
  runs e he := by
    obtain rfl := List.mem_singleton.1 he
    rfl
  tight e he := .inl (List.mem_singleton.1 he)
  closed d hd := absurd hd List.not_mem_nil

/-- The yielded entries come before the waiting ones. -/
theorem shortlex_waiting (h : Explored S o ys ws) (hd : d ∈ ys) (he : e ∈ ws) :
    S.alphabet.Shortlex d.word e.word :=
  (List.pairwise_append.1 h.sorted).2.2 d hd e he

/-! ## A visit keeps the invariant -/

/-- What a visit finds comes after all that has been found before it. -/
theorem shortlex_extend (h : Explored S o ys (e :: ws)) (hd : d ∈ ys ++ e :: ws) (m : Char × σ) :
    S.alphabet.Shortlex d.word (e.extend m).word := by
  rcases h.tight d hd with rfl | ⟨d', hd', n, -, rfl⟩
  · exact .of_length_lt (by simp [Representative.extend])
  · have hlt := h.shortlex_waiting hd' List.mem_cons_self
    exact hlt.append_singleton n.1 m.1

/-- Of two moves the one on the earlier symbol gives the earlier word. -/
theorem shortlex_extend_of_before {m n : Char × σ} (h : S.alphabet.Before m.1 n.1) :
    S.alphabet.Shortlex (e.extend m).word (e.extend n).word :=
  Alphabet.shortlex_append_of_before e.word h

variable {news : List (Char × σ)}

theorem visit_append (e : Representative σ) (ys ws : List (Representative σ))
    (news : List (Char × σ)) : (ys ++ [e]) ++ (ws ++ news.map e.extend) =
      (ys ++ e :: ws) ++ news.map e.extend := by
  simp

theorem mem_visit_iff : d ∈ (ys ++ [e]) ++ (ws ++ news.map e.extend) ↔
    d ∈ ys ++ e :: ws ∨ ∃ n ∈ news, e.extend n = d := by
  rw [visit_append, List.mem_append, List.mem_map]

/-- The new entries come after the old ones and stand in the order of the moves. -/
theorem sorted_visit (h : Explored S o ys (e :: ws)) (hs : news.Sublist (S.moves e.state)) :
    ((ys ++ [e]) ++ (ws ++ news.map e.extend)).Pairwise
      fun d x => S.alphabet.Shortlex d.word x.word := by
  rw [visit_append, List.pairwise_append]
  refine ⟨h.sorted, ?_, ?_⟩
  · have hnews := (S.pairwise_moves e.state).sublist hs
    exact List.pairwise_map.2 (hnews.imp shortlex_extend_of_before)
  · intro d hd x hx
    obtain ⟨n, -, rfl⟩ := List.mem_map.1 hx
    exact h.shortlex_extend hd n

/-- The target of a move of the visited state is an old entry, or the entry of a fresh move that is
this move or stands before it. -/
theorem exists_of_moves (h : Explored S o ys (e :: ws))
    (hf : Fresh ((ys ++ e :: ws).map Representative.state) (S.moves e.state) news)
    {m : Char × σ} (hm : m ∈ S.moves e.state) :
    ∃ x ∈ (ys ++ [e]) ++ (ws ++ news.map e.extend),
      x.state = m.2 ∧ S.alphabet.ShortlexLe x.word (e.extend m).word := by
  rcases hf.first m hm with hk | ⟨n, hn, hnm, hle⟩
  · obtain ⟨x, hx, hxs⟩ := List.mem_map.1 hk
    exact ⟨x, mem_visit_iff.2 (.inl hx), hxs, .inr (h.shortlex_extend hx m)⟩
  · refine ⟨e.extend n, mem_visit_iff.2 (.inr ⟨n, hn, rfl⟩), hnm, ?_⟩
    rcases hle with rfl | hs
    · exact .inl rfl
    · exact .inr (shortlex_extend_of_before ((S.pairwise_moves e.state).forall_sublist hs))

/-- A visit keeps the invariant. -/
theorem visit (h : Explored S o ys (e :: ws))
    (hf : Fresh ((ys ++ e :: ws).map Representative.state) (S.moves e.state) news)
    (hn : (((ys ++ [e]) ++ (ws ++ news.map e.extend)).map Representative.state).Nodup) :
    Explored S o (ys ++ [e]) (ws ++ news.map e.extend) where
  origin := mem_visit_iff.2 (.inl h.origin)
  nodup := hn
  sorted := h.sorted_visit hf.sublist
  runs x hx := by
    rcases mem_visit_iff.1 hx with hx | ⟨n, hn, rfl⟩
    · exact h.runs x hx
    · have he := h.runs e (List.mem_append_right _ List.mem_cons_self)
      exact Machine.runFrom_extend he (hf.sublist.subset hn)
  tight x hx := by
    rcases mem_visit_iff.1 hx with hx | ⟨n, hn, rfl⟩
    · refine (h.tight x hx).imp_right ?_
      rintro ⟨d, hd, hm⟩
      exact ⟨d, List.mem_append_left _ hd, hm⟩
    · have he : e ∈ ys ++ [e] := List.mem_append_right _ (List.mem_singleton_self e)
      exact .inr ⟨e, he, n, hf.sublist.subset hn, rfl⟩
  closed d hd m hm := by
    rcases List.mem_append.1 hd with hd | hd
    · obtain ⟨x, hx, hxs, hle⟩ := h.closed d hd m hm
      exact ⟨x, mem_visit_iff.2 (.inl hx), hxs, hle⟩
    · obtain rfl := List.mem_singleton.1 hd
      exact h.exists_of_moves hf hm

/-! ## What follows from it -/

/-- The state that a word leads to has been found, on this word or one before it; or else the run
passes a state that waits, having been found on the part of the word so far or on one before it. -/
theorem covers (h : Explored S o ys ws) (hv : S.runFrom o v = some q) :
    (∃ e ∈ ys ++ ws, e.state = q ∧ S.alphabet.ShortlexLe e.word v) ∨
      ∃ e ∈ ws, ∃ x c y, v = x ++ c :: y ∧ S.alphabet.ShortlexLe e.word x := by
  induction v using List.reverseRecOn generalizing q with
  | nil => exact .inl ⟨_, h.origin, Option.some.inj hv, .inl rfl⟩
  | append_singleton v c ih =>
    rw [Machine.runFrom_snoc] at hv
    obtain ⟨p, hp, hstep⟩ := Option.bind_eq_some_iff.1 hv
    rcases ih hp with ⟨d, hd, rfl, hle⟩ | ⟨d, hd, x, b, y, rfl, hle⟩
    · rcases List.mem_append.1 hd with hd | hd
      · obtain ⟨e, he, hes, hle'⟩ := h.closed d hd (c, q) (Machine.mem_moves.2 hstep)
        exact .inl ⟨e, he, hes, hle'.trans (hle.append_singleton c)⟩
      · exact .inr ⟨d, hd, v, c, [], rfl, hle⟩
    · exact .inr ⟨d, hd, x, b, y ++ [c], by simp, hle⟩

/-- Two entries of one state are one entry. -/
theorem eq_of_state_eq (h : Explored S o ys ws) (hd : d ∈ ys ++ ws) (he : e ∈ ys ++ ws)
    (hde : d.state = e.state) : d = e :=
  List.inj_on_of_nodup_map h.nodup hd he hde

/-- The word of a found state is the first of all words that lead to the state. -/
theorem least (h : Explored S o ys ws) (he : e ∈ ys ++ ws) :
    S.alphabet.Least (fun v => S.runFrom o v = some e.state) e.word := by
  refine Alphabet.least_iff.2 ⟨h.runs e he, fun v hv => ?_⟩
  rcases h.covers hv with ⟨d, hd, hds, hle⟩ | ⟨d, hd, x, c, y, rfl, hle⟩
  · rwa [← h.eq_of_state_eq hd he hds]
  · rcases h.tight e he with rfl | ⟨b, hb, m, -, rfl⟩
    · exact Alphabet.nil_shortlexLe ..
    · -- `b` has been visited and `d` has not, so one more symbol does not bring it behind `x`
      have hlt := h.shortlex_waiting hb hd
      exact (hlt.trans_le hle).append_singleton_le m.1 c y

/-- The word of the first yielded state of some kind is the first of all words that lead to states
of this kind. -/
theorem least_of_first {P : σ → Prop} (h : Explored S o (ys ++ [e]) ws) (he : P e.state)
    (hys : ∀ d ∈ ys, ¬ P d.state) :
    S.alphabet.Least (fun v => ∃ q, S.runFrom o v = some q ∧ P q) e.word := by
  have hall : ys ++ [e] ++ ws = ys ++ e :: ws := List.append_assoc ..
  have hsorted := h.sorted
  rw [hall, List.pairwise_append, List.pairwise_cons] at hsorted
  have hafter := hsorted.2.1.1
  refine Alphabet.least_iff.2 ⟨⟨e.state, h.runs e (by simp), he⟩, fun v hv => ?_⟩
  obtain ⟨q, hq, hP⟩ := hv
  rcases h.covers hq with ⟨d, hd, rfl, hle⟩ | ⟨d, hd, x, c, y, rfl, hle⟩
  · rcases List.mem_append.1 (hall ▸ hd) with hd | hd
    · exact absurd hP (hys d hd)
    · rcases List.mem_cons.1 hd with rfl | hd
      · exact hle
      · exact .inr ((hafter d hd).trans_le hle)
  · have hlt := (hafter d hd).trans_le hle
    exact .inr (hlt.trans_le (Alphabet.shortlexLe_append _ x (c :: y)))

/-- Once nothing waits, the states that words lead to are those that have been found. -/
theorem mem_states_iff (h : Explored S o ys []) :
    q ∈ ys.map Representative.state ↔ ∃ w, S.runFrom o w = some q := by
  constructor
  · intro hq
    obtain ⟨e, he, rfl⟩ := List.mem_map.1 hq
    exact ⟨e.word, h.runs e (List.mem_append_left _ he)⟩
  · rintro ⟨w, hw⟩
    rcases h.covers hw with ⟨e, he, rfl, -⟩ | ⟨e, he, -⟩
    · exact List.mem_map_of_mem (by simpa using he)
    · exact absurd he List.not_mem_nil

end Explored

end ShortestWitness
