import Mathlib.Data.Nat.Digits.Lemmas

set_option autoImplicit false

/-!
A number written into a fixed number of columns from the right, with marks at given
places between its digits and blanks before its first. What can be read back is the
number modulo the power of the base that the places for digits hold.
-/
namespace SVpn.NumberColumns

inductive Column where
  | blank
  | mark
  | digit (d : ℕ)
  deriving DecidableEq

variable (base : ℕ) (marks : ℕ → Bool)

/-- `left` columns of which the last has `place` columns to its right. -/
def columns (place : ℕ) : ℕ → ℕ → List Column
  | 0, _ => []
  | left + 1, n =>
    if n = 0 then columns (place + 1) left n ++ [.blank]
    else if marks place then columns (place + 1) left n ++ [.mark]
    else columns (place + 1) left (n / base) ++ [.digit (n % base)]

def digitPlaces (place : ℕ) : ℕ → ℕ
  | 0 => 0
  | left + 1 => digitPlaces (place + 1) left + if marks place then 0 else 1

def readColumn (v : ℕ) : Column → ℕ
  | .digit d => base * v + d
  | _ => v

/-- The number the digits spell; blanks and marks are passed over. -/
def value (cs : List Column) : ℕ := cs.foldl (readColumn base) 0

theorem value_append_singleton (cs : List Column) (c : Column) :
    value base (cs ++ [c]) = readColumn base (value base cs) c := by
  simp only [value, List.foldl_append, List.foldl_cons, List.foldl_nil]

@[simp] theorem length_columns (place left n : ℕ) : (columns base marks place left n).length = left := by
  induction left generalizing place n with
  | zero => rfl
  | succ left ih =>
    unfold columns
    split_ifs <;> rw [List.length_append, ih, List.length_singleton]

theorem readColumn_digit_mod (n k : ℕ) :
    readColumn base (n / base % base ^ k) (.digit (n % base)) = n % base ^ (k + 1) := by
  rw [readColumn, Nat.pow_succ', Nat.mod_mul]
  omega

theorem value_columns (place left n : ℕ) :
    value base (columns base marks place left n) = n % base ^ digitPlaces marks place left := by
  induction left generalizing place n with
  | zero => rw [digitPlaces, Nat.pow_zero, Nat.mod_one]; rfl
  | succ left ih =>
    unfold columns digitPlaces
    split_ifs with hzero hmark hmark
    · rw [value_append_singleton, ih, hzero, Nat.zero_mod, Nat.zero_mod]
      rfl
    · rw [value_append_singleton, ih, hzero, Nat.zero_mod, Nat.zero_mod]
      rfl
    · rw [value_append_singleton, ih]
      rfl
    · rw [value_append_singleton, ih]
      exact readColumn_digit_mod base n _

theorem digit_lt (hbase : 0 < base) {place left n d : ℕ}
    (h : .digit d ∈ columns base marks place left n) : d < base := by
  induction left generalizing place n with
  | zero => exact absurd h List.not_mem_nil
  | succ left ih =>
    unfold columns at h
    split_ifs at h <;> rcases List.mem_append.1 h with h | h
    · exact ih h
    · simp at h
    · exact ih h
    · simp at h
    · exact ih h
    · simp only [List.mem_singleton, Column.digit.injEq] at h
      rw [h]
      exact Nat.mod_lt n hbase

def digitOf : Column → Option ℕ
  | .digit d => some d
  | _ => none

theorem columns_zero (place left : ℕ) :
    columns base marks place left 0 = List.replicate left .blank := by
  induction left generalizing place with
  | zero => rfl
  | succ left ih =>
    unfold columns
    rw [if_pos rfl, ih, List.replicate_succ']

variable {base marks}

/-- Blanks stand before the first digit only. -/
theorem columns_blanks (place left n : ℕ) : ∃ k shown,
    columns base marks place left n = List.replicate k .blank ++ shown ∧ .blank ∉ shown := by
  induction left generalizing place n with
  | zero => exact ⟨0, [], rfl, List.not_mem_nil⟩
  | succ left ih =>
    unfold columns
    split_ifs with hn hmark
    · refine ⟨left + 1, [], ?_, List.not_mem_nil⟩
      rw [hn, columns_zero, List.append_nil, List.replicate_succ']
    · obtain ⟨k, shown, hcolumns, hshown⟩ := ih (place + 1) n
      refine ⟨k, shown ++ [.mark], ?_, by simp [hshown]⟩
      rw [hcolumns, List.append_assoc]
    · obtain ⟨k, shown, hcolumns, hshown⟩ := ih (place + 1) (n / base)
      refine ⟨k, shown ++ [.digit (n % base)], ?_, by simp [hshown]⟩
      rw [hcolumns, List.append_assoc]

theorem columns_succ (hbase : 1 < base) {place left n : ℕ}
    (hfits : n < base ^ digitPlaces marks place (left + 1)) : ∃ n' c,
      columns base marks place (left + 1) n = columns base marks (place + 1) left n' ++ [c] ∧
      n' < base ^ digitPlaces marks (place + 1) left ∧
      (c = .mark ↔ marks place = true ∧ n' ≠ 0) ∧
      (Nat.digits base n).reverse = (Nat.digits base n').reverse ++ [c].filterMap digitOf := by
  rw [digitPlaces] at hfits
  by_cases hn : n = 0
  · refine ⟨0, .blank, ?_, Nat.pow_pos (by omega), by simp, ?_⟩
    · rw [columns, if_pos hn, hn]
    · rw [hn]
      exact (List.append_nil _).symm
  · by_cases hmark : marks place = true
    · rw [if_pos hmark] at hfits
      refine ⟨n, .mark, ?_, hfits, by simp [hn, hmark], (List.append_nil _).symm⟩
      rw [columns, if_neg hn, if_pos hmark]
    · rw [if_neg hmark, Nat.pow_succ, Nat.mul_comm] at hfits
      refine ⟨n / base, .digit (n % base), ?_, Nat.div_lt_of_lt_mul hfits, by simp [hmark], ?_⟩
      · rw [columns, if_neg hn, if_neg hmark]
      · rw [Nat.digits_def' hbase (Nat.pos_of_ne_zero hn), List.reverse_cons]
        rfl

/-- The digits of a number that fits are all there. -/
theorem digits_columns (hbase : 1 < base) {place left n : ℕ}
    (hfits : n < base ^ digitPlaces marks place left) :
    (columns base marks place left n).filterMap digitOf = (Nat.digits base n).reverse := by
  induction left generalizing place n with
  | zero =>
    have hn : n = 0 := Nat.lt_one_iff.1 hfits
    rw [hn, Nat.digits_zero]
    rfl
  | succ left ih =>
    obtain ⟨n', c, hcolumns, hfits', -, hdigits⟩ := columns_succ hbase hfits
    rw [hcolumns, List.filterMap_append, ih hfits', hdigits]

theorem exists_digit_iff (hbase : 1 < base) {place left n : ℕ}
    (hfits : n < base ^ digitPlaces marks place left) :
    (∃ d, .digit d ∈ columns base marks place left n) ↔ n ≠ 0 := by
  have hdigits := digits_columns hbase hfits
  rw [← Nat.digits_ne_nil_iff_ne_zero (b := base), ← List.reverse_ne_nil_iff, ← hdigits]
  constructor
  · rintro ⟨d, hd⟩
    exact List.ne_nil_of_mem (List.mem_filterMap.2 ⟨_, hd, rfl⟩)
  · intro hne
    obtain ⟨d, hd⟩ := List.exists_mem_of_ne_nil _ hne
    obtain ⟨c, hc, hcd⟩ := List.mem_filterMap.1 hd
    cases c with
    | blank => cases hcd
    | mark => cases hcd
    | digit d' => exact ⟨d', hc⟩

theorem mark_iff (hbase : 1 < base) {place left n : ℕ}
    (hfits : n < base ^ digitPlaces marks place left) {before after : List Column} {c : Column}
    (h : columns base marks place left n = before ++ c :: after) :
    c = .mark ↔ marks (place + after.length) = true ∧ ∃ d, .digit d ∈ before := by
  induction left generalizing place n after with
  | zero => exact absurd h (by simp [columns])
  | succ left ih =>
    obtain ⟨n', last, hcolumns, hfits', hlast, -⟩ := columns_succ hbase hfits
    rw [hcolumns] at h
    rcases List.eq_nil_or_concat after with rfl | ⟨rest, x, rfl⟩
    · obtain ⟨rfl, hc⟩ := List.append_inj' h rfl
      obtain rfl : last = c := List.singleton_inj.1 hc
      rw [exists_digit_iff hbase hfits']
      exact hlast
    · rw [List.concat_eq_append, ← List.cons_append, ← List.append_assoc] at h
      have hrest := ih hfits' (List.append_inj' h rfl).1
      rw [hrest, List.length_concat, Nat.add_right_comm, Nat.add_assoc]

example : columns 10 (fun c => c % 4 = 3) 0 6 4711 =
    [.blank, .digit 4, .mark, .digit 7, .digit 1, .digit 1] := by decide

end SVpn.NumberColumns
