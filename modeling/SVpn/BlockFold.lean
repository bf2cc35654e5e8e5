import Mathlib.Data.List.Basic

set_option autoImplicit false

/-!
Folding a sequence over blocks of a fixed size. The whole blocks go into the state
and a rest shorter than a block is kept back, so that the sequence may come in
pieces of any length.
-/
namespace SVpn.BlockFold

variable {α σ : Type} (n : ℕ) (compress : σ → List α → σ)

/-- The state after the first `k` blocks. -/
def blocks : ℕ → σ → List α → σ
  | 0, s, _ => s
  | k + 1, s, xs => blocks k (compress s (xs.take n)) (xs.drop n)

def whole (s : σ) (xs : List α) : σ := blocks n compress (xs.length / n) s xs

def rest (xs : List α) : List α := xs.drop (n * (xs.length / n))

theorem blocks_add (j k : ℕ) (s : σ) (xs : List α) :
    blocks n compress (j + k) s xs =
      blocks n compress k (blocks n compress j s xs) (xs.drop (n * j)) := by
  induction j generalizing s xs with
  | zero => rw [Nat.zero_add, Nat.mul_zero, List.drop_zero, blocks]
  | succ j ih =>
    rw [Nat.add_right_comm, blocks, ih, blocks, List.drop_drop]
    congr 2
    rw [Nat.mul_succ, Nat.add_comm]

theorem blocks_append (k : ℕ) (s : σ) (xs ys : List α) (h : n * k ≤ xs.length) :
    blocks n compress k s (xs ++ ys) = blocks n compress k s xs := by
  induction k generalizing s xs with
  | zero => rfl
  | succ k ih =>
    have hn : n ≤ xs.length := Nat.le_trans (Nat.le_mul_of_pos_right n k.succ_pos) h
    rw [Nat.mul_succ] at h
    rw [blocks, blocks, List.take_append_of_le_length hn, List.drop_append_of_le_length hn]
    exact ih _ _ (by rw [List.length_drop]; omega)

theorem length_rest (xs : List α) : (rest n xs).length = xs.length % n := by
  rw [rest, List.length_drop]
  have hdiv := Nat.div_add_mod xs.length n
  omega

theorem whole_short (s : σ) {xs : List α} (h : xs.length < n) : whole n compress s xs = s := by
  rw [whole, Nat.div_eq_of_lt h, blocks]

theorem rest_short {xs : List α} (h : xs.length < n) : rest n xs = xs := by
  rw [rest, Nat.div_eq_of_lt h, Nat.mul_zero, List.drop_zero]

variable {n} (hn : 0 < n)
include hn

theorem count_append (xs ys : List α) :
    (xs ++ ys).length / n = xs.length / n + (rest n xs ++ ys).length / n := by
  have hdiv := Nat.div_add_mod xs.length n
  have hlen : (xs ++ ys).length = (rest n xs ++ ys).length + n * (xs.length / n) := by
    rw [List.length_append, List.length_append, length_rest]
    omega
  rw [hlen, Nat.add_mul_div_left _ _ hn, Nat.add_comm]

/-- What follows is folded from the state of the whole blocks, behind the rest. -/
theorem whole_append (s : σ) (xs ys : List α) :
    whole n compress s (xs ++ ys) = whole n compress (whole n compress s xs) (rest n xs ++ ys) := by
  have hle : n * (xs.length / n) ≤ xs.length := Nat.mul_div_le _ _
  rw [whole, count_append hn, blocks_add, blocks_append _ _ _ _ _ _ hle,
    List.drop_append_of_le_length hle]
  rfl

theorem rest_append (xs ys : List α) : rest n (xs ++ ys) = rest n (rest n xs ++ ys) := by
  have hle : n * (xs.length / n) ≤ xs.length := Nat.mul_div_le _ _
  rw [rest, count_append hn, Nat.mul_add, ← List.drop_drop, List.drop_append_of_le_length hle]
  rfl

theorem rest_full {xs : List α} (h : xs.length = n) : rest n xs = [] := by
  rw [rest, h, Nat.div_self hn, Nat.mul_one, List.drop_of_length_le (Nat.le_of_eq h)]

theorem rest_block (xs ys : List α) (h : xs.length = n) : rest n (xs ++ ys) = rest n ys := by
  rw [rest_append hn, rest_full hn h, List.nil_append]

/-- A block that is full goes into the state. -/
theorem whole_block (s : σ) (xs ys : List α) (h : xs.length = n) :
    whole n compress s (xs ++ ys) = whole n compress (compress s xs) ys := by
  have hfirst : whole n compress s xs = compress s xs := by
    rw [whole, h, Nat.div_self hn, blocks, blocks, List.take_of_length_le (Nat.le_of_eq h)]
  rw [whole_append compress hn, hfirst, rest_full hn h, List.nil_append]

end SVpn.BlockFold
