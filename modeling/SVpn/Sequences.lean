import Mathlib.Data.List.Destutter

set_option autoImplicit false

/-!
What lists tell of the things they record: where a value has changed along a list, and
what a map does, from texts and their images under it.
-/
namespace SVpn.Sequences

section Changes
variable {α : Type} [DecidableEq α]

/-- The entries that differ from the one before, `a` being the one before the first. -/
def changes (a : α) (xs : List α) : List α := (List.destutter' (· ≠ ·) a xs).tail

@[simp] theorem changes_nil (a : α) : changes a [] = [] := rfl

theorem tail_cons_destutter (a : α) (xs : List α) :
    a :: (List.destutter' (· ≠ ·) a xs).tail = List.destutter' (· ≠ ·) a xs := by
  induction xs with
  | nil => rfl
  | cons x xs ih =>
    by_cases h : a ≠ x
    · rw [List.destutter'_cons_pos _ h, List.tail_cons]
    · rw [List.destutter'_cons_neg _ h, ih]

theorem changes_cons (a x : α) (xs : List α) :
    changes a (x :: xs) = (if a ≠ x then [x] else []) ++ changes x xs := by
  unfold changes
  by_cases h : a ≠ x
  · rw [List.destutter'_cons_pos _ h, if_pos h, List.tail_cons, List.singleton_append,
      tail_cons_destutter]
  · rw [List.destutter'_cons_neg _ h, if_neg h, not_ne_iff.1 h, List.nil_append]

theorem changes_append (a : α) (xs ys : List α) :
    changes a (xs ++ ys) = changes a xs ++ changes (xs.getLast?.getD a) ys := by
  induction xs generalizing a with
  | nil => rfl
  | cons x xs ih =>
    have hlast : (x :: xs).getLast?.getD a = xs.getLast?.getD x := by
      rw [List.getLast?_cons, Option.getD_some]
    rw [List.cons_append, changes_cons, changes_cons, ih, hlast, List.append_assoc]

theorem getLast_changes (a : α) (xs : List α) :
    (changes a xs).getLast?.getD a = xs.getLast?.getD a := by
  induction xs generalizing a with
  | nil => rfl
  | cons x xs ih =>
    rw [changes_cons, List.getLast?_cons, Option.getD_some, ← ih x]
    by_cases h : a ≠ x
    · rw [if_pos h, List.singleton_append, List.getLast?_cons, Option.getD_some]
    · rw [if_neg h, List.nil_append, not_ne_iff.1 h]

end Changes

section Books
variable {α β : Type}

def translate [BEq α] (book : List (α × β)) : List α → Option (List β)
  | [] => some []
  | x :: xs => (book.lookup x).bind fun y => (translate book xs).map (y :: ·)

/-- The pairs in texts and their images, position by position. -/
def pairUp (texts : List (List α)) (images : List (List β)) : List (α × β) :=
  (texts.zip images).flatMap fun x => x.1.zip x.2

theorem pairUp_map (f : α → β) (texts : List (List α)) :
    pairUp texts (texts.map (·.map f)) = texts.flatten.map fun x => (x, f x) := by
  induction texts with
  | nil => rfl
  | cons text texts ih =>
    unfold pairUp at ih ⊢
    rw [List.map_cons, List.zip_cons_cons, List.flatMap_cons, ih, List.flatten_cons,
      List.map_append, ← List.map_prod_left_eq_zip]

variable [BEq α] [LawfulBEq α]

theorem lookup_map_graph (f : α → β) {xs : List α} {x : α} (h : x ∈ xs) :
    (xs.map fun x => (x, f x)).lookup x = some (f x) := by
  induction xs with
  | nil => cases h
  | cons y ys ih =>
    rw [List.map_cons, List.lookup_cons]
    by_cases hxy : x = y
    · subst y
      simp
    · rw [beq_eq_false_iff_ne.2 hxy]
      exact ih ((List.mem_cons.1 h).resolve_left hxy)

/-- A book taken from `f` translates every text over the entries it has as `f` does. -/
theorem translate_graph (f : α → β) {texts : List (List α)} {xs : List α}
    (h : ∀ x ∈ xs, ∃ text ∈ texts, x ∈ text) :
    translate (pairUp texts (texts.map (·.map f))) xs = some (xs.map f) := by
  rw [pairUp_map]
  induction xs with
  | nil => rfl
  | cons x xs ih =>
    have hx : x ∈ texts.flatten := List.mem_flatten.2 (h x List.mem_cons_self)
    rw [translate, lookup_map_graph f hx, ih fun y hy => h y (List.mem_cons_of_mem x hy)]
    rfl

end Books

end SVpn.Sequences
