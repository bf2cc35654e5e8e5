import Mathlib.Data.List.Basic

set_option autoImplicit false

/-!
Resources along a history. An event may acquire a resource or release one; what is
held is what has been acquired and not released since.
-/
namespace SVpn.Ledger

variable {ε κ : Type} [DecidableEq κ] (acquires releases : ε → Option κ)

def book (holding : List κ) (e : ε) : List κ :=
  match acquires e, releases e with
  | some k, _ => k :: holding
  | none, some k => holding.erase k
  | none, none => holding

def held (start : List κ) (es : List ε) : List κ := es.foldl (book acquires releases) start

/-- The history ends with what it has started with. -/
def Balanced (es : List ε) : Prop := ∀ start, held acquires releases start es = start

/-- The history adds one resource to what it has started with. -/
def Leaves (k : κ) (es : List ε) : Prop := ∀ start, held acquires releases start es = k :: start

variable {acquires releases}

theorem held_append (start : List κ) (es fs : List ε) :
    held acquires releases start (es ++ fs) =
      held acquires releases (held acquires releases start es) fs := List.foldl_append

theorem balanced_nil : Balanced acquires releases [] := fun _ => rfl

theorem Balanced.append {es fs : List ε} (hes : Balanced acquires releases es)
    (hfs : Balanced acquires releases fs) : Balanced acquires releases (es ++ fs) := by
  intro start
  rw [held_append, hes, hfs]

theorem balanced_of_idle {es : List ε} (h : ∀ e ∈ es, acquires e = none ∧ releases e = none) :
    Balanced acquires releases es := by
  induction es with
  | nil => exact balanced_nil
  | cons e es ih =>
    intro start
    obtain ⟨hacquire, hrelease⟩ := h e List.mem_cons_self
    change held acquires releases (book acquires releases start e) es = start
    rw [ih fun e' he' => h e' (List.mem_cons_of_mem e he'), book, hacquire, hrelease]

theorem leaves_cons {e : ε} {k : κ} (h : acquires e = some k) {es : List ε}
    (hes : Balanced acquires releases es) : Leaves acquires releases k (e :: es) := by
  intro start
  change held acquires releases (book acquires releases start e) es = k :: start
  rw [hes, book, h]

theorem Leaves.append {k : κ} {es fs : List ε} (hes : Leaves acquires releases k es)
    (hfs : Balanced acquires releases fs) : Leaves acquires releases k (es ++ fs) := by
  intro start
  rw [held_append, hes, hfs]

theorem Balanced.append_leaves {k : κ} {es fs : List ε} (hes : Balanced acquires releases es)
    (hfs : Leaves acquires releases k fs) : Leaves acquires releases k (es ++ fs) := by
  intro start
  rw [held_append, hes, hfs]

theorem held_release {start : List κ} {e : ε} {k : κ} (hacquire : acquires e = none)
    (hrelease : releases e = some k) : held acquires releases start [e] = start.erase k := by
  change book acquires releases start e = start.erase k
  rw [book, hacquire, hrelease]

theorem Leaves.release {k : κ} {es : List ε} {e : ε} (h : Leaves acquires releases k es)
    (hacquire : acquires e = none) (hrelease : releases e = some k) :
    Balanced acquires releases (es ++ [e]) := by
  intro start
  rw [held_append, h, held_release hacquire hrelease, List.erase_cons_head]

/-- One release does not make up for two acquisitions. -/
theorem Leaves.held_ne_nil {j k : κ} {es fs : List ε} {e : ε} (hes : Leaves acquires releases j es)
    (hfs : Leaves acquires releases k fs) (hacquire : acquires e = none)
    (hrelease : releases e = some j) : held acquires releases [] (es ++ fs ++ [e]) ≠ [] := by
  have hmem : j ∈ [k, j] := by simp
  rw [held_append, held_append, hes, hfs, held_release hacquire hrelease]
  intro hnil
  have hlength := List.length_erase_of_mem hmem
  rw [hnil] at hlength
  simp at hlength

end SVpn.Ledger
