import Mathlib.Data.List.Basic

set_option autoImplicit false

/-!
Histories of a transition system. A step may look at the history so far, as the
delivery of a message does; it adds a block of events and ends in a state, or in
none when the system has stopped.
-/
namespace SVpn.Trace

variable {σ ω : Type}

/-- Every event of the history is related to the events before it. -/
def Each (Q : List ω → ω → Prop) (h : List ω) : Prop :=
  ∀ before e after, h = before ++ e :: after → Q before e

theorem each_nil (Q : List ω → ω → Prop) : Each Q [] := by
  intro before e after heq
  cases before <;> cases heq

theorem each_append {Q : List ω → ω → Prop} {h es : List ω} :
    Each Q (h ++ es) ↔ Each Q h ∧ Each (fun before e => Q (h ++ before) e) es := by
  constructor
  · intro hall
    constructor
    · rintro before e after rfl
      exact hall before e (after ++ es) (by simp)
    · rintro before e after rfl
      exact hall (h ++ before) e after (by simp)
  · rintro ⟨hold, hnew⟩ before e after heq
    rcases List.append_eq_append_iff.1 heq with ⟨mid, rfl, hrest⟩ | ⟨mid, rfl, hrest⟩
    · exact hnew mid e after hrest
    · cases mid with
      | nil => simpa using hnew [] e after (by simpa using hrest.symm)
      | cons first mid =>
        obtain ⟨rfl, -⟩ := List.cons.inj hrest
        exact hold before e mid rfl

theorem each_cons {Q : List ω → ω → Prop} {e : ω} {es : List ω} :
    Each Q (e :: es) ↔ Q [] e ∧ Each (fun before => Q (e :: before)) es := by
  constructor
  · intro hall
    constructor
    · exact hall [] e es rfl
    · rintro before x after rfl
      exact hall (e :: before) x after rfl
  · rintro ⟨hfirst, hrest⟩ before x after heq
    cases before with
    | nil =>
      obtain ⟨rfl, -⟩ := List.cons.inj heq
      exact hfirst
    | cons first before =>
      obtain ⟨rfl, htail⟩ := List.cons.inj heq
      exact hrest before x after htail

theorem Each.mono {Q R : List ω → ω → Prop} (hQR : ∀ before e, Q before e → R before e)
    {h : List ω} (hall : Each Q h) : Each R h :=
  fun before e after heq => hQR before e (hall before e after heq)

theorem each_map {ι : Type} {Q : List ω → ω → Prop} (f : ι → ω) {es : List ι} :
    Each Q (es.map f) ↔ Each (fun before e => Q (before.map f) (f e)) es := by
  constructor
  · rintro hall before e after rfl
    exact hall (before.map f) (f e) (after.map f) (by simp)
  · intro hall before e after heq
    obtain ⟨first, rest, rfl, rfl, hrest⟩ := List.map_eq_append_iff.1 heq
    obtain ⟨x, last, rfl, rfl, rfl⟩ := List.map_eq_cons_iff.1 hrest
    exact hall first x last rfl

/-- Where an event of the history stands, and what `Q` says of it there. -/
theorem Each.of_mem_history {Q : List ω → ω → Prop} {h : List ω} (hall : Each Q h) {e : ω}
    (he : e ∈ h) : ∃ before after, h = before ++ e :: after ∧ Q before e := by
  obtain ⟨before, after, rfl⟩ := List.append_of_mem he
  exact ⟨before, after, rfl, hall before e after rfl⟩

inductive Reaches (step : List ω → σ → List ω → Option σ → Prop) (s₀ : σ) :
    List ω → Option σ → Prop where
  | start : Reaches step s₀ [] (some s₀)
  | step {h es : List ω} {s : σ} {r : Option σ} (before : Reaches step s₀ h (some s))
      (hs : step h s es r) : Reaches step s₀ (h ++ es) r

variable {step : List ω → σ → List ω → Option σ → Prop} {s₀ : σ}

/-- A relation between history and state that every step keeps holds in every state reached. -/
theorem Reaches.invariant {I : List ω → σ → Prop} (h0 : I [] s₀)
    (hstep : ∀ h s es s', I h s → step h s es (some s') → I (h ++ es) s') {h : List ω} {s : σ}
    (run : Reaches step s₀ h (some s)) : I h s := by
  generalize hr : some s = r at run
  induction run generalizing s with
  | start =>
    cases hr
    exact h0
  | step before hs ih =>
    subst hr
    exact hstep _ _ _ _ (ih rfl) hs

/-- What every block of events added to a reachable history satisfies holds of all histories. -/
theorem Reaches.each {Q : List ω → ω → Prop}
    (hstep : ∀ h s es r, Reaches step s₀ h (some s) → Each Q h → step h s es r →
      Each (fun before e => Q (h ++ before) e) es) {h : List ω} {r : Option σ}
    (run : Reaches step s₀ h r) : Each Q h := by
  induction run with
  | start => exact each_nil Q
  | step before hs ih => exact each_append.2 ⟨ih, hstep _ _ _ _ before ih hs⟩

end SVpn.Trace
