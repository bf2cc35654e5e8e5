import Mathlib.Data.Fintype.EquivFin
import Mathlib.Data.List.FinRange
import Mathlib.Logic.Equiv.Basic

set_option autoImplicit false

/-!
Arrays that hold a permutation: exchanging two entries, searching an entry, and
filling one array through the entries of another.
-/
namespace SVpn.ArrayPermutation

variable {α : Type} {n : ℕ}

def entry (v : Vector α n) (i : Fin n) : α := v[i]

theorem ext_entry {v w : Vector α n} (h : ∀ i, entry v i = entry w i) : v = w :=
  Vector.ext fun i hi => h ⟨i, hi⟩

theorem entry_set (v : Vector α n) (i : Fin n) (x : α) :
    entry (v.set i x i.isLt) = Function.update (entry v) i x := by
  funext k
  by_cases hk : k = i
  · subst k
    simp [entry]
  · have hne : i.val ≠ k.val := fun h => hk (Fin.ext h.symm)
    simp [entry, hk, hne]

/-- `v[i] = x;` -/
def put (v : Vector α n) (i : Fin n) (x : α) : Vector α n := v.set i x i.isLt

theorem entry_put (v : Vector α n) (i : Fin n) (x : α) :
    entry (put v i x) = Function.update (entry v) i x := entry_set v i x

/-- `tmp = v[a]; v[a] = v[i]; v[i] = tmp;` -/
def exchange (v : Vector α n) (a i : Fin n) : Vector α n :=
  let tmp := v[a]
  (v.set a v[i] a.isLt).set i tmp i.isLt

theorem entry_exchange (v : Vector α n) (a i : Fin n) :
    entry (exchange v a i) = entry v ∘ Equiv.swap a i := by
  funext k
  change entry ((v.set a (entry v i) a.isLt).set i (entry v a) i.isLt) k = _
  rw [entry_set, entry_set, Function.comp_apply, Equiv.swap_apply_def]
  simp only [Function.update_apply]
  split_ifs with hi ha <;> simp_all

theorem exchange_injective {v : Vector α n} (h : Function.Injective (entry v)) (a i : Fin n) :
    Function.Injective (entry (exchange v a i)) := by
  rw [entry_exchange]
  exact h.comp (Equiv.swap a i).injective

/-- `for (i = 0; i < n; i++) if (v[i] == x) break;`: the first index of `x`, or `n`. -/
def search [BEq α] (v : Vector α n) (x : α) : ℕ :=
  (List.finRange n).findIdx fun i => entry v i == x

theorem search_lt [BEq α] [LawfulBEq α] {v : Vector α n} {x : α} (i : Fin n)
    (h : entry v i = x) : search v x < n := by
  have hlt : (List.finRange n).findIdx (fun i => entry v i == x) < (List.finRange n).length :=
    List.findIdx_lt_length_of_exists ⟨i, List.mem_finRange i, by simp [h]⟩
  simpa [search] using hlt

theorem entry_search [BEq α] [LawfulBEq α] {v : Vector α n} {x : α} (h : search v x < n) :
    entry v ⟨search v x, h⟩ = x := by
  have hlen : (List.finRange n).findIdx (fun i => entry v i == x) < (List.finRange n).length := by
    simpa [search] using h
  have hp := List.findIdx_getElem (w := hlen)
  simpa [search] using hp

/-- `v[pos(i)] = val(i)` for the indices of a list in turn. -/
def fill {ι : Type} (pos : ι → Fin n) (val : ι → α) (v : Vector α n) (is : List ι) : Vector α n :=
  is.foldl (fun v i => v.set (pos i) (val i) (pos i).isLt) v

theorem entry_fill_of_notMem {ι : Type} (pos : ι → Fin n) (val : ι → α) (v : Vector α n)
    (is : List ι) (k : Fin n) (hk : ∀ i ∈ is, pos i ≠ k) :
    entry (fill pos val v is) k = entry v k := by
  induction is generalizing v with
  | nil => rfl
  | cons i is ih =>
    change entry (fill pos val (v.set (pos i) (val i) (pos i).isLt) is) k = entry v k
    rw [ih _ fun j hj => hk j (List.mem_cons_of_mem i hj), entry_set]
    exact Function.update_of_ne (hk i List.mem_cons_self).symm _ _

theorem entry_fill_of_mem {ι : Type} (pos : ι → Fin n) (hpos : Function.Injective pos)
    (val : ι → α) (v : Vector α n) (is : List ι) (hnodup : is.Nodup) (i : ι) (hi : i ∈ is) :
    entry (fill pos val v is) (pos i) = val i := by
  induction is generalizing v with
  | nil => exact absurd hi List.not_mem_nil
  | cons j is ih =>
    change entry (fill pos val (v.set (pos j) (val j) (pos j).isLt) is) (pos i) = val i
    obtain ⟨hj, hrest⟩ := List.nodup_cons.1 hnodup
    rcases List.mem_cons.1 hi with rfl | htail
    · have hother : ∀ k ∈ is, pos k ≠ pos i := fun k hk he => hj (hpos he ▸ hk)
      rw [entry_fill_of_notMem pos val _ is (pos i) hother, entry_set, Function.update_self]
    · exact ih _ hrest htail

/-- A fill through a permutation of all indices reaches every slot, so nothing
of the array before it is left. -/
theorem entry_fill_finRange (pos : Fin n → Fin n) (hpos : Function.Injective pos)
    (val : Fin n → α) (v : Vector α n) (i : Fin n) :
    entry (fill pos val v (List.finRange n)) (pos i) = val i :=
  entry_fill_of_mem pos hpos val v _ (List.nodup_finRange n) i (List.mem_finRange i)

theorem fill_finRange_congr (pos : Fin n → Fin n) (hpos : Function.Injective pos)
    (val : Fin n → α) (v w : Vector α n) :
    fill pos val v (List.finRange n) = fill pos val w (List.finRange n) := by
  apply ext_entry
  intro k
  obtain ⟨i, rfl⟩ := Finite.injective_iff_surjective.1 hpos k
  rw [entry_fill_finRange pos hpos, entry_fill_finRange pos hpos]

end SVpn.ArrayPermutation
