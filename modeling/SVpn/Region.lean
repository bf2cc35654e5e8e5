import Mathlib.Data.List.Basic
import Mathlib.Data.List.GetD
import Mathlib.Logic.Function.Basic

set_option autoImplicit false

/-!
Memory as a loop sees it: a cell at each offset. The arrays a program reuses
without clearing are regions, so that what an earlier pass left past the end of
the bytes just written stays readable.
-/
namespace SVpn.Region

abbrev Cells (α : Type) := ℕ → α

variable {α β : Type}

/-- Copy `xs` to offset `off`; every cell outside keeps what it held. -/
def store (m : Cells α) (off : ℕ) (xs : List α) : Cells α :=
  fun i => if off ≤ i then xs.getD (i - off) (m i) else m i

def load (m : Cells α) (n : ℕ) : List α := (List.range n).map m

/-- `for (i = 0; i < n; i++) out[i] = f(inp[i])`, turn by turn. -/
def transform (f : α → β) (inp : Cells α) (out : Cells β) : ℕ → Cells β
  | 0 => out
  | n + 1 => Function.update (transform f inp out n) n (f (inp n))

theorem store_before (m : Cells α) (off : ℕ) (xs : List α) (i : ℕ) (h : i < off) :
    store m off xs i = m i := by
  simp [store, Nat.not_le.2 h]

theorem store_inside (m : Cells α) (off : ℕ) (xs : List α) (i : ℕ) (h : i < xs.length) :
    store m off xs (off + i) = xs[i] := by
  simp [store, h]

theorem store_after (m : Cells α) (off : ℕ) (xs : List α) (i : ℕ) (h : off + xs.length ≤ i) :
    store m off xs i = m i := by
  have hoff : off ≤ i := by omega
  simp only [store, hoff, ↓reduceIte]
  exact List.getD_eq_default _ _ (by omega)

theorem store_nil (m : Cells α) (off : ℕ) : store m off [] = m := by
  funext i
  simp [store]

theorem store_zero_lt (m : Cells α) (xs : List α) (i : ℕ) (h : i < xs.length) :
    store m 0 xs i = xs[i] := by
  simpa using store_inside m 0 xs i h

theorem store_zero_ge (m : Cells α) (xs : List α) (i : ℕ) (h : xs.length ≤ i) :
    store m 0 xs i = m i :=
  store_after m 0 xs i (by omega)

@[simp] theorem length_load (m : Cells α) (n : ℕ) : (load m n).length = n := by
  simp [load]

@[simp] theorem getElem_load (m : Cells α) (n i : ℕ) (h : i < (load m n).length) :
    (load m n)[i] = m i := by
  simp [load]

theorem load_congr {m m' : Cells α} {n : ℕ} (h : ∀ i < n, m i = m' i) :
    load m n = load m' n :=
  List.map_congr_left fun i hi => h i (List.mem_range.1 hi)

@[simp] theorem load_store (m : Cells α) (xs : List α) :
    load (store m 0 xs) xs.length = xs := by
  apply List.ext_getElem (by simp)
  intro i _ hi
  rw [getElem_load, store_zero_lt m xs i hi]

theorem load_add (m : Cells α) (j k : ℕ) :
    load m (j + k) = load m j ++ load (fun i => m (j + i)) k := by
  simp only [load, List.range_add, List.map_append, List.map_map, Function.comp_def]

theorem drop_load (m : Cells α) (j n : ℕ) :
    (load m n).drop j = load (fun i => m (j + i)) (n - j) := by
  apply List.ext_getElem (by simp)
  intro i _ _
  rw [List.getElem_drop, getElem_load, getElem_load]

/-- A store that continues the cells loaded. -/
theorem load_store_append (m : Cells α) (off : ℕ) (xs : List α) :
    load (store m off xs) (off + xs.length) = load m off ++ xs := by
  rw [load_add]
  congr 1
  · exact load_congr fun i hi => store_before m off xs i hi
  · apply List.ext_getElem (by simp)
    intro i _ hi
    rw [getElem_load, store_inside m off xs i hi]

/-- The cells a store has written. -/
theorem load_store_window (m : Cells α) (off : ℕ) (xs : List α) :
    load (fun i => store m off xs (off + i)) xs.length = xs := by
  apply List.ext_getElem (by simp)
  intro i _ hi
  rw [getElem_load, store_inside m off xs i hi]

/-- A last cell written before the cells in front of it. -/
theorem store_update (m : Cells α) (off : ℕ) (xs : List α) (x : α) :
    store (Function.update m (off + xs.length) x) off xs = store m off (xs ++ [x]) := by
  funext i
  rcases Nat.lt_or_ge i off with hi | hi
  · rw [store_before _ _ _ _ hi, store_before _ _ _ _ hi, Function.update_of_ne (by omega)]
  · rcases Nat.lt_or_ge i (off + xs.length + 1) with hlt | hge
    · obtain ⟨j, rfl⟩ := Nat.exists_eq_add_of_le hi
      have hj : j < (xs ++ [x]).length := by
        rw [List.length_append, List.length_singleton]
        omega
      rw [store_inside m off (xs ++ [x]) j hj]
      rcases Nat.lt_or_ge j xs.length with hin | hout
      · rw [store_inside _ off xs j hin, List.getElem_append_left hin]
      · obtain rfl : j = xs.length := by omega
        rw [store_after _ off xs _ (Nat.le_refl _), Function.update_self]
        simp
    · rw [store_after _ _ _ _ (by omega), store_after _ _ _ _ (by simpa [← Nat.add_assoc] using hge),
        Function.update_of_ne (by omega)]

theorem take_load_store (m : Cells α) (xs : List α) (n : ℕ) (h : xs.length ≤ n) :
    (load (store m 0 xs) n).take xs.length = xs := by
  apply List.ext_getElem (by simp [h])
  intro i _ hi
  rw [List.getElem_take, getElem_load, store_zero_lt m xs i hi]

theorem transform_lt (f : α → β) (inp : Cells α) (out : Cells β) (n i : ℕ) (h : i < n) :
    transform f inp out n i = f (inp i) := by
  induction n with
  | zero => omega
  | succ n ih =>
    rw [transform]
    by_cases hi : i = n
    · subst i
      rw [Function.update_self]
    · rw [Function.update_of_ne hi]
      exact ih (by omega)

theorem transform_ge (f : α → β) (inp : Cells α) (out : Cells β) (n i : ℕ) (h : n ≤ i) :
    transform f inp out n i = out i := by
  induction n with
  | zero => rfl
  | succ n ih =>
    rw [transform, Function.update_of_ne (by omega)]
    exact ih (by omega)

/-- The loop writes its image of the first `n` cells and nothing else. -/
theorem transform_eq_store (f : α → β) (inp : Cells α) (out : Cells β) (n : ℕ) :
    transform f inp out n = store out 0 ((load inp n).map f) := by
  funext i
  by_cases hi : i < n
  · rw [transform_lt f inp out n i hi, store_zero_lt _ _ _ (by simpa using hi)]
    simp
  · rw [transform_ge f inp out n i (by omega), store_zero_ge _ _ _ (by simpa using Nat.not_lt.1 hi)]

theorem load_transform (f : α → β) (inp : Cells α) (out : Cells β) (n : ℕ) :
    load (transform f inp out n) n = (load inp n).map f := by
  rw [transform_eq_store]
  simpa using load_store out ((load inp n).map f)

/-- The cells from `off` on after `xs` has been copied to the start of the region. -/
def overwrite {n : ℕ} (off : ℕ) (window : Fin n → α) (xs : List α) : Fin n → α :=
  fun k => xs.getD (off + k) (window k)

theorem overwrite_store {n : ℕ} (m : Cells α) (off : ℕ) (xs : List α) :
    (fun k : Fin n => store m 0 xs (off + k)) = overwrite off (fun k : Fin n => m (off + k)) xs := by
  funext k
  simp [store, overwrite]

/-- The entry at `i` of the last list that is long enough to have one. -/
def lastReaching (i : ℕ) (copies : List (List α)) : Option α := (copies.filterMap (·[i]?)).getLast?

theorem lastReaching_cons (i : ℕ) (xs : List α) (copies : List (List α)) :
    lastReaching i (xs :: copies) = (lastReaching i copies).or xs[i]? := by
  unfold lastReaching
  rw [List.filterMap_cons]
  cases hget : xs[i]? with
  | none => rw [Option.or_none]
  | some x =>
    rw [List.getLast?_cons]
    cases (copies.filterMap (·[i]?)).getLast? <;> rfl

/-- Copies to the start of a region leave in each cell what the last one that reached it put there. -/
theorem foldl_store (m : Cells α) (copies : List (List α)) (i : ℕ) :
    copies.foldl (fun m xs => store m 0 xs) m i = (lastReaching i copies).getD (m i) := by
  induction copies generalizing m with
  | nil => rfl
  | cons xs copies ih =>
    have hcell : store m 0 xs i = xs[i]?.getD (m i) := by
      simp [store, List.getD_eq_getElem?_getD]
    rw [List.foldl_cons, ih, lastReaching_cons, hcell]
    cases lastReaching i copies <;> rfl

end SVpn.Region
