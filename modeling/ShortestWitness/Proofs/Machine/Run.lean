import ShortestWitness.Machine.Combine

/-!
# Runs

What a run needs and where it leads: only symbols of the alphabet are read, and a run from a state
that exists ends in a state that exists. A combined machine runs as its parts do: recoloring
changes no run (`runFrom_recolor`), and the product runs where both parts run
(`runFrom_product_eq_some_iff`).
-/

namespace ShortestWitness.Machine

variable {σ τ κ μ : Type} {S : Machine σ κ} {L : Machine σ κ} {R : Machine τ μ}

theorem runFrom_cons_eq_some_iff {p q : σ} {c : Char} {w : Word} :
    S.runFrom p (c :: w) = some q ↔ ∃ r, S.step p c = some r ∧ S.runFrom r w = some q := by
  rw [runFrom_cons, Option.bind_eq_some_iff]

/-- A run is extended by one step at its end. -/
theorem runFrom_snoc {p : σ} {c : Char} {w : Word} :
    S.runFrom p (w ++ [c]) = (S.runFrom p w).bind fun q => S.step q c := by
  rw [runFrom_append]
  refine Option.bind_congr fun q _ => ?_
  rw [runFrom_cons]
  cases S.step q c <;> rfl

/-- Nothing but symbols of moves is read. -/
theorem exists_step_of_runFrom {p q : σ} {w : Word} (h : S.runFrom p w = some q) :
    ∀ c ∈ w, ∃ r t, S.step r c = some t := by
  induction w generalizing p with
  | nil => exact fun c hc => absurd hc List.not_mem_nil
  | cons d w ih =>
    obtain ⟨r, hr, hw⟩ := runFrom_cons_eq_some_iff.1 h
    intro c hc
    rcases List.mem_cons.1 hc with rfl | hc
    · exact ⟨p, r, hr⟩
    · exact ih hw c hc

/-- A word that is read to its end has only symbols of the alphabet. -/
theorem mem_alphabet_of_runFrom {p q : σ} {w : Word} (h : S.runFrom p w = some q) :
    ∀ c ∈ w, c ∈ S.alphabet := by
  intro c hc
  obtain ⟨r, t, hstep⟩ := exists_step_of_runFrom h c hc
  exact S.mem_of_step hstep

/-- What moves keep, runs keep. -/
theorem of_runFrom {P : σ → Prop} (hstep : ∀ {p c q}, P p → S.step p c = some q → P q) {p q : σ}
    {w : Word} (hp : P p) (h : S.runFrom p w = some q) : P q := by
  induction w generalizing p with
  | nil =>
    obtain rfl := Option.some.inj h
    exact hp
  | cons c w ih =>
    obtain ⟨r, hr, hw⟩ := runFrom_cons_eq_some_iff.1 h
    exact ih (hstep hp hr) hw

/-- A run from a state that exists ends in one. -/
theorem isSome_color_of_runFrom {p q : σ} {w : Word} (hp : (S.color p).isSome)
    (h : S.runFrom p w = some q) : (S.color q).isSome :=
  of_runFrom (fun _ hr => S.color_of_step hr) hp h

theorem isSome_color_of_run {q : σ} {w : Word} (h : S.run w = some q) : (S.color q).isSome :=
  isSome_color_of_runFrom S.color_initial h

/-! ## Acceptance -/

section Acceptance

variable {S : Machine σ Bool} {p q : σ} {w : Word}

/-- The run from the state on the word ends in a true state. -/
def AcceptsFrom (S : Machine σ Bool) (p : σ) (w : Word) : Prop :=
  ∃ q, S.runFrom p w = some q ∧ S.color q = some true

theorem AcceptsFrom.mem_alphabet (h : S.AcceptsFrom p w) : ∀ c ∈ w, c ∈ S.alphabet := by
  obtain ⟨q, hq, -⟩ := h
  exact mem_alphabet_of_runFrom hq

/-- If the run ends, the color of its end decides. -/
theorem acceptsFrom_iff_of_runFrom (h : S.runFrom p w = some q) :
    S.AcceptsFrom p w ↔ S.color q = some true := by
  rw [AcceptsFrom, h]
  simp

/-- A word is accepted if what is left of it is accepted where the run has got to. -/
theorem acceptsFrom_append_iff {u v : Word} :
    S.AcceptsFrom p (u ++ v) ↔ ∃ q, S.runFrom p u = some q ∧ S.AcceptsFrom q v := by
  simp only [AcceptsFrom, runFrom_append, Option.bind_eq_some_iff]
  constructor
  · rintro ⟨r, ⟨q, hq, hr⟩, hc⟩
    exact ⟨q, hq, r, hr, hc⟩
  · rintro ⟨q, hq, r, hr, hc⟩
    exact ⟨r, ⟨q, hq, hr⟩, hc⟩

theorem accepts_iff : S.accepts w = true ↔ S.AcceptsFrom S.initial w := by
  rw [accepts, decide_eq_true_eq, Option.bind_eq_some_iff]
  rfl

/-- If the run ends, the color of its end decides. -/
theorem accepts_iff_of_run (h : S.run w = some q) : S.accepts w = true ↔ S.color q = some true :=
  accepts_iff.trans (acceptsFrom_iff_of_runFrom h)

/-- The color of the last state decides acceptance. -/
theorem accepts_eq_of_color {b : Bool} (h : S.run w = some q) (hc : S.color q = some b) :
    S.accepts w = b := by
  rw [Bool.eq_iff_iff, accepts_iff_of_run h, hc, Option.some.injEq]

end Acceptance

/-! ## Runs of combined machines -/

@[simp] theorem runFrom_recolor (f : κ → μ) (p : σ) (w : Word) :
    (S.recolor f).runFrom p w = S.runFrom p w := rfl

/-- The product reads a word to its end if both parts do, and ends where they end. -/
theorem runFrom_product_eq_some_iff {p q : σ × τ} {w : Word} :
    (L.product R).runFrom p w = some q ↔
      L.runFrom p.1 w = some q.1 ∧ R.runFrom p.2 w = some q.2 := by
  induction w generalizing p with
  | nil => simp [Prod.ext_iff]
  | cons c w ih =>
    simp only [runFrom_cons_eq_some_iff]
    constructor
    · rintro ⟨r, hr, hw⟩
      obtain ⟨hl, hr⟩ := stepBoth_eq_some_iff.1 hr
      obtain ⟨hwl, hwr⟩ := ih.1 hw
      exact ⟨⟨r.1, hl, hwl⟩, ⟨r.2, hr, hwr⟩⟩
    · rintro ⟨⟨l, hl, hwl⟩, ⟨r, hr, hwr⟩⟩
      exact ⟨(l, r), stepBoth_eq_some_iff.2 ⟨hl, hr⟩, ih.2 ⟨hwl, hwr⟩⟩

/-- A pair of states has a color if both have one. -/
theorem color_product_eq_some_iff {p : σ × τ} {colors : κ × μ} :
    (L.product R).color p = some colors ↔
      L.color p.1 = some colors.1 ∧ R.color p.2 = some colors.2 := by
  change colorBoth L R p = _ ↔ _
  rw [colorBoth, Option.bind_eq_some_iff]
  simp only [Option.map_eq_some_iff]
  constructor
  · rintro ⟨l, hl, r, hr, rfl⟩
    exact ⟨hl, hr⟩
  · rintro ⟨hl, hr⟩
    exact ⟨colors.1, hl, colors.2, hr, rfl⟩

/-- A combination accepts what both parts read to the end if it accepts the colors there. -/
theorem acceptsFrom_recolor_product_iff {f : κ × μ → Bool} {p : σ × τ} {w : Word} :
    ((L.product R).recolor f).AcceptsFrom p w ↔ ∃ q r l k, L.runFrom p.1 w = some q ∧
      R.runFrom p.2 w = some r ∧ L.color q = some l ∧ R.color r = some k ∧ f (l, k) = true := by
  constructor
  · rintro ⟨q, hq, hc⟩
    obtain ⟨hql, hqr⟩ := runFrom_product_eq_some_iff.1 hq
    obtain ⟨colors, hcolors, hf⟩ := Option.map_eq_some_iff.1 hc
    obtain ⟨hl, hr⟩ := color_product_eq_some_iff.1 hcolors
    exact ⟨q.1, q.2, colors.1, colors.2, hql, hqr, hl, hr, hf⟩
  · rintro ⟨q, r, l, k, hql, hqr, hl, hk, hf⟩
    have hcolors : (L.product R).color (q, r) = some (l, k) :=
      color_product_eq_some_iff.2 ⟨hl, hk⟩
    exact ⟨(q, r), runFrom_product_eq_some_iff.2 ⟨hql, hqr⟩, Option.map_eq_some_iff.2 ⟨_, hcolors, hf⟩⟩

end ShortestWitness.Machine
