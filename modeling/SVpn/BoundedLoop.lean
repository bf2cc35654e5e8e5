import Mathlib.Data.Nat.Basic

set_option autoImplicit false

/-!
Loops that end by a test inside their body. `loop` runs one with a bound on the
number of turns; a measure that every turn lowers shows that the bound is enough.
-/
namespace SVpn.BoundedLoop

/-- The end of one turn: go on, leave the loop, or run into undefined behaviour. -/
inductive Turn (σ : Type) where
  | again (s : σ)
  | done (s : σ)
  | fault

variable {σ : Type} (turn : σ → Turn σ)

def loop : ℕ → σ → Option σ
  | 0, _ => none
  | fuel + 1, s =>
    match turn s with
    | .again s' => loop fuel s'
    | .done s' => some s'
    | .fault => none

/-- The loop entered in the first state is left in the second. -/
inductive Runs : σ → σ → Prop where
  | done {s s' : σ} (h : turn s = .done s') : Runs s s'
  | again {s s' t : σ} (h : turn s = .again s') (rest : Runs s' t) : Runs s t

/-- The loop entered in the first state takes a turn in the second. -/
inductive Visits : σ → σ → Prop where
  | here {s : σ} : Visits s s
  | again {s s' t : σ} (h : turn s = .again s') (rest : Visits s' t) : Visits s t

variable {turn}

theorem loop_of_runs (μ : σ → ℕ) (hμ : ∀ s s', turn s = .again s' → μ s' < μ s) {s t : σ}
    (run : Runs turn s t) {fuel : ℕ} (hfuel : μ s < fuel) : loop turn fuel s = some t := by
  induction run generalizing fuel with
  | done h =>
    obtain ⟨fuel, rfl⟩ := Nat.exists_eq_add_one_of_ne_zero (Nat.ne_of_gt (Nat.zero_lt_of_lt hfuel))
    simp only [loop, h]
  | again h rest ih =>
    obtain ⟨fuel, rfl⟩ := Nat.exists_eq_add_one_of_ne_zero (Nat.ne_of_gt (Nat.zero_lt_of_lt hfuel))
    have hlower := hμ _ _ h
    simp only [loop, h]
    exact ih (by omega)

theorem runs_of_loop {fuel : ℕ} {s t : σ} (h : loop turn fuel s = some t) : Runs turn s t := by
  induction fuel generalizing s with
  | zero => cases h
  | succ fuel ih =>
    rw [loop] at h
    cases hturn : turn s with
    | again s' =>
      rw [hturn] at h
      exact .again hturn (ih h)
    | done s' =>
      rw [hturn] at h
      cases h
      exact .done hturn
    | fault =>
      rw [hturn] at h
      cases h

theorem forall_visits_again {s s' : σ} (h : turn s = .again s') {P : σ → Prop} :
    (∀ t, Visits turn s t → P t) ↔ P s ∧ ∀ t, Visits turn s' t → P t := by
  constructor
  · intro hall
    exact ⟨hall s .here, fun t ht => hall t (.again h ht)⟩
  · rintro ⟨hs, hall⟩ t ht
    cases ht with
    | here => exact hs
    | again hturn hrest =>
      obtain rfl := Turn.again.inj (h.symm.trans hturn)
      exact hall t hrest

theorem forall_visits_last {s : σ} (h : ∀ s', turn s ≠ .again s') {P : σ → Prop} :
    (∀ t, Visits turn s t → P t) ↔ P s := by
  constructor
  · exact fun hall => hall s .here
  · intro hs t ht
    cases ht with
    | here => exact hs
    | again hturn => exact absurd hturn (h _)

theorem loop_isSome_iff (μ : σ → ℕ) (hμ : ∀ s s', turn s = .again s' → μ s' < μ s) {s : σ}
    {fuel : ℕ} (hfuel : μ s < fuel) :
    (loop turn fuel s).isSome = true ↔ ∀ t, Visits turn s t → turn t ≠ .fault := by
  induction fuel generalizing s with
  | zero => exact absurd hfuel (Nat.not_lt_zero _)
  | succ fuel ih =>
    cases hturn : turn s with
    | again s' =>
      have hlower := hμ s s' hturn
      simp only [loop, hturn]
      rw [ih (by omega), forall_visits_again hturn, hturn]
      exact ⟨fun h => ⟨fun hfault => (nomatch hfault), h⟩, And.right⟩
    | done s' =>
      have hstops : ∀ t, turn s ≠ .again t := fun t ht => by cases hturn.symm.trans ht
      simp only [loop, hturn]
      rw [forall_visits_last hstops, hturn]
      exact ⟨fun _ hfault => (nomatch hfault), fun _ => rfl⟩
    | fault =>
      have hstops : ∀ t, turn s ≠ .again t := fun t ht => by cases hturn.symm.trans ht
      simp only [loop, hturn]
      rw [forall_visits_last hstops, hturn]
      exact ⟨fun h => (nomatch h), fun h => absurd rfl h⟩

theorem Runs.of_turn_eq {s s' t : σ} (h : turn s = turn s') (run : Runs turn s' t) :
    Runs turn s t := by
  cases run with
  | done hdone => exact .done (h.trans hdone)
  | again hagain rest => exact .again (h.trans hagain) rest

theorem Runs.unique {s t t' : σ} (run : Runs turn s t) (run' : Runs turn s t') : t = t' := by
  induction run with
  | done h =>
    cases run' with
    | done h' => exact Turn.done.inj (h.symm.trans h')
    | again h' => cases h.symm.trans h'
  | again h rest ih =>
    cases run' with
    | done h' => cases h.symm.trans h'
    | again h' rest' =>
      obtain rfl := Turn.again.inj (h.symm.trans h')
      exact ih rest'

/-- A loop that goes on from every state of a kind, and to one of the kind, is not left. -/
theorem not_runs {P : σ → Prop} (h : ∀ s, P s → ∃ s', turn s = .again s' ∧ P s') {s t : σ}
    (hs : P s) : ¬ Runs turn s t := by
  intro run
  induction run with
  | done hdone =>
    obtain ⟨s', hagain, -⟩ := h _ hs
    cases hdone.symm.trans hagain
  | again hagain rest ih =>
    obtain ⟨s', hagain', hs'⟩ := h _ hs
    obtain rfl := Turn.again.inj (hagain.symm.trans hagain')
    exact ih hs'

end SVpn.BoundedLoop
