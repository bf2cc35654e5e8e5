import Mathlib.Algebra.BigOperators.Group.Finset.Basic
import Mathlib.Algebra.BigOperators.Group.Finset.Piecewise

set_option autoImplicit false

/-!
Machines whose state is one cell for each key, and whose events read and write the
cell of their own key only. A run is determined by its subsequence for each key, so
the order in which events of different keys come does not matter.
-/
namespace SVpn.KeyedRuns

variable {κ ε σ ο M : Type} [DecidableEq κ] (key : ε → κ) (next : ε → σ → σ)

def step (m : κ → σ) (x : ε) : κ → σ := Function.update m (key x) (next x (m (key x)))

def run (m : κ → σ) (xs : List ε) : κ → σ := xs.foldl (step key next) m

def eventsOf (k : κ) (xs : List ε) : List ε := xs.filter fun x => key x = k

theorem eventsOf_cons_self (x : ε) (xs : List ε) :
    eventsOf key (key x) (x :: xs) = x :: eventsOf key (key x) xs := by
  simp [eventsOf]

theorem eventsOf_cons_ne {k : κ} {x : ε} (h : key x ≠ k) (xs : List ε) :
    eventsOf key k (x :: xs) = eventsOf key k xs := by
  simp [eventsOf, h]

theorem step_self (m : κ → σ) (x : ε) : step key next m x (key x) = next x (m (key x)) :=
  Function.update_self _ _ _

theorem step_ne (m : κ → σ) {x : ε} {k : κ} (h : key x ≠ k) : step key next m x k = m k :=
  Function.update_of_ne (Ne.symm h) _ _

/-- The cell of a key after a run, from the events of this key alone. -/
theorem run_apply (m : κ → σ) (xs : List ε) (k : κ) :
    run key next m xs k = (eventsOf key k xs).foldl (fun s x => next x s) (m k) := by
  induction xs generalizing m with
  | nil => rfl
  | cons x xs ih =>
    change run key next (step key next m x) xs k = _
    rw [ih]
    by_cases hk : key x = k
    · subst k
      rw [eventsOf_cons_self, step_self, List.foldl_cons]
    · rw [eventsOf_cons_ne key hk, step_ne key next m hk]

def emitted (emit : ε → σ → List ο) : (κ → σ) → List ε → List (κ × ο)
  | _, [] => []
  | m, x :: xs => (emit x (m (key x))).map (Prod.mk (key x)) ++
      emitted emit (step key next m x) xs

/-- The outputs of events that all use one cell. -/
def emittedAlone (emit : ε → σ → List ο) : σ → List ε → List ο
  | _, [] => []
  | s, x :: xs => emit x s ++ emittedAlone emit (next x s) xs

theorem filter_map_mk (k j : κ) (os : List ο) :
    (os.map (Prod.mk j)).filter (fun o => o.1 = k) = if j = k then os.map (Prod.mk j) else [] := by
  by_cases hj : j = k <;> simp [hj, List.filter_map, Function.comp_def]

theorem emitted_filter (emit : ε → σ → List ο) (m : κ → σ) (xs : List ε) (k : κ) :
    (emitted key next emit m xs).filter (fun o => o.1 = k) =
      (emittedAlone next emit (m k) (eventsOf key k xs)).map (Prod.mk k) := by
  induction xs generalizing m with
  | nil => rfl
  | cons x xs ih =>
    rw [emitted, List.filter_append, filter_map_mk, ih]
    by_cases hk : key x = k
    · subst k
      rw [eventsOf_cons_self, step_self, emittedAlone, if_pos rfl, List.map_append]
    · rw [eventsOf_cons_ne key hk, step_ne key next m hk, if_neg hk, List.nil_append]

variable [AddCommMonoid M]

def gained (gain : ε → σ → M) : (κ → σ) → List ε → M
  | _, [] => 0
  | m, x :: xs => gain x (m (key x)) + gained gain (step key next m x) xs

def gainedAlone (gain : ε → σ → M) : σ → List ε → M
  | _, [] => 0
  | s, x :: xs => gain x s + gainedAlone gain (next x s) xs

theorem gained_eq_sum (gain : ε → σ → M) (m : κ → σ) (xs : List ε) (K : Finset κ)
    (hK : ∀ x ∈ xs, key x ∈ K) :
    gained key next gain m xs = ∑ k ∈ K, gainedAlone next gain (m k) (eventsOf key k xs) := by
  induction xs generalizing m with
  | nil => simp [gained, eventsOf, gainedAlone]
  | cons x xs ih =>
    have hcell : ∀ k, gainedAlone next gain (m k) (eventsOf key k (x :: xs)) =
        (if key x = k then gain x (m (key x)) else 0) +
          gainedAlone next gain (step key next m x k) (eventsOf key k xs) := by
      intro k
      by_cases hk : key x = k
      · subst k
        rw [eventsOf_cons_self, step_self, gainedAlone, if_pos rfl]
      · rw [eventsOf_cons_ne key hk, step_ne key next m hk, if_neg hk, zero_add]
    rw [gained, ih _ fun y hy => hK y (List.mem_cons_of_mem x hy), Finset.sum_congr rfl fun k _ => hcell k,
      Finset.sum_add_distrib, Finset.sum_ite_eq, if_pos (hK x List.mem_cons_self)]

theorem gained_congr (gain : ε → σ → M) (m : κ → σ) {xs ys : List ε}
    (h : ∀ k, eventsOf key k xs = eventsOf key k ys) :
    gained key next gain m xs = gained key next gain m ys := by
  have hxs : ∀ x ∈ xs, key x ∈ ((xs ++ ys).map key).toFinset := fun x hx =>
    List.mem_toFinset.2 (List.mem_map_of_mem (List.mem_append_left ys hx))
  have hys : ∀ y ∈ ys, key y ∈ ((xs ++ ys).map key).toFinset := fun y hy =>
    List.mem_toFinset.2 (List.mem_map_of_mem (List.mem_append_right xs hy))
  rw [gained_eq_sum key next gain m xs _ hxs, gained_eq_sum key next gain m ys _ hys]
  exact Finset.sum_congr rfl fun k _ => by rw [h]

end SVpn.KeyedRuns
