import SVpn.Trace
import Mathlib.Data.List.Infix

set_option autoImplicit false

/-!
Machines that answer every input with a block of outputs, and what it means that a
transition system, seen through some of its events, behaves as such a machine.
-/
namespace SVpn.Transducer
open SVpn.Trace

structure Machine (σ ι ο : Type) where
  out : σ → ι → List ο
  next : σ → ι → σ

variable {σ ι ο : Type}

namespace Machine

def run (T : Machine σ ι ο) : σ → List ι → List ο
  | _, [] => []
  | s, x :: xs => T.out s x ++ T.run (T.next s x) xs

variable (T : Machine σ ι ο)

def after (s : σ) (xs : List ι) : σ := xs.foldl T.next s

@[simp] theorem after_nil (s : σ) : T.after s [] = s := rfl

@[simp] theorem after_cons (s : σ) (x : ι) (xs : List ι) :
    T.after s (x :: xs) = T.after (T.next s x) xs := rfl

@[simp] theorem run_nil (s : σ) : T.run s [] = [] := rfl

@[simp] theorem run_cons (s : σ) (x : ι) (xs : List ι) :
    T.run s (x :: xs) = T.out s x ++ T.run (T.next s x) xs := rfl

theorem after_append (s : σ) (xs ys : List ι) :
    T.after s (xs ++ ys) = T.after (T.after s xs) ys := List.foldl_append

theorem run_append (s : σ) (xs ys : List ι) :
    T.run s (xs ++ ys) = T.run s xs ++ T.run (T.after s xs) ys := by
  induction xs generalizing s with
  | nil => rfl
  | cons x xs ih =>
    rw [List.cons_append, run_cons, run_cons, ih, List.append_assoc]
    rfl

/-- Where the part of an answer that `g` shows does not depend on the state, that part
of a run is a map of the inputs. -/
theorem filterMap_run {I : σ → Prop} (hnext : ∀ s x, I s → I (T.next s x)) {π : Type}
    {g : ο → Option π} {f : ι → Option π} {xs : List ι}
    (hout : ∀ s, I s → ∀ x ∈ xs, (T.out s x).filterMap g = (f x).toList) {s : σ} (hs : I s) :
    (T.run s xs).filterMap g = xs.filterMap f := by
  rw [List.filterMap_eq_flatMap_toList f xs]
  induction xs generalizing s with
  | nil => rfl
  | cons x xs ih =>
    rw [run_cons, List.filterMap_append, List.flatMap_cons, hout s hs x List.mem_cons_self,
      ih (fun s hs y hy => hout s hs y (List.mem_cons_of_mem x hy)) (hnext s x hs)]

/-- Where the state decides only what is left out, the run is a part of the map. -/
theorem filterMap_run_sublist {I : σ → Prop} (hnext : ∀ s x, I s → I (T.next s x)) {π : Type}
    {g : ο → Option π} {f : ι → Option π}
    (hout : ∀ s, I s → ∀ x, ((T.out s x).filterMap g).Sublist (f x).toList) (xs : List ι) {s : σ}
    (hs : I s) : ((T.run s xs).filterMap g).Sublist (xs.filterMap f) := by
  rw [List.filterMap_eq_flatMap_toList f xs]
  induction xs generalizing s with
  | nil => exact List.Sublist.slnil
  | cons x xs ih =>
    rw [run_cons, List.filterMap_append, List.flatMap_cons]
    exact (hout s hs x).append (ih (hnext s x hs))

end Machine

/-- A block of events between two states of the system is a run of the machine. A
block in which the system stops may leave the end of an answer out. -/
structure Simulation {κ ω : Type} (step : List ω → κ → List ω → Option κ → Prop)
    (T : Machine σ ι ο) where
  view : κ → σ
  input : ω → Option ι
  output : ω → Option ο
  stay : ∀ h c es c', step h c es (some c') →
    es.filterMap output = T.run (view c) (es.filterMap input) ∧
      view c' = T.after (view c) (es.filterMap input)
  stop : ∀ h c es, step h c es none →
    es.filterMap output <+: T.run (view c) (es.filterMap input)

namespace Simulation

variable {κ ω : Type} {step : List ω → κ → List ω → Option κ → Prop} {T : Machine σ ι ο}
variable (S : Simulation step T) {c₀ : κ}

theorem follows {h : List ω} {c : κ} (run : Reaches step c₀ h (some c)) :
    h.filterMap S.output = T.run (S.view c₀) (h.filterMap S.input) ∧
      S.view c = T.after (S.view c₀) (h.filterMap S.input) := by
  refine run.invariant (I := fun h c => h.filterMap S.output =
    T.run (S.view c₀) (h.filterMap S.input) ∧
      S.view c = T.after (S.view c₀) (h.filterMap S.input)) ⟨rfl, rfl⟩ ?_
  intro h c es c' hbefore hstep
  obtain ⟨hout, hview⟩ := S.stay h c es c' hstep
  rw [hbefore.2] at hout hview
  rw [List.filterMap_append, List.filterMap_append, T.run_append, T.after_append]
  exact ⟨by rw [hbefore.1, hout], hview⟩

theorem outputs_cut {h : List ω} {r : Option κ} (run : Reaches step c₀ h r) :
    h.filterMap S.output <+: T.run (S.view c₀) (h.filterMap S.input) := by
  cases run with
  | start => exact List.prefix_rfl
  | @step h es s r before hs =>
    cases r with
    | some c => rw [(S.follows (before.step hs)).1]
    | none =>
      obtain ⟨hout, hview⟩ := S.follows before
      have hlast := S.stop h s es hs
      rw [hview] at hlast
      rw [List.filterMap_append, List.filterMap_append, T.run_append, hout]
      exact (List.prefix_append_right_inj _).2 hlast

end Simulation

end SVpn.Transducer
