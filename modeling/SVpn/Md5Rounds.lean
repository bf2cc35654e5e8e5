import Mathlib.Algebra.Group.Nat.Defs
import SVpn.Md5
import SVpn.MessageDigest

set_option autoImplicit false

/-!
`MD5Transform` is the compression of the message digest. The code writes out its 64
steps with the four words in rotating roles; four steps bring the roles round again.
-/
namespace SVpn.Md5Rounds
open SVpn.Region SVpn.Md5 SVpn.MessageDigest

theorem rotateLeft_eq (x : UInt32) {n : ℕ} (hpos : 0 < n) (hlt : n < 32) :
    rotateLeft x (UInt32.ofNat n) = rotl x n := by
  have hleft : (UInt32.ofNat n).toBitVec % 32 = BitVec.ofNat 32 n := by
    apply BitVec.eq_of_toNat_eq
    rw [BitVec.toNat_umod, UInt32.toNat_toBitVec, UInt32.toNat_ofNat', BitVec.toNat_ofNat]
    change n % 2 ^ 32 % 32 = _
    omega
  have hright : (32 - UInt32.ofNat n).toBitVec % 32 = BitVec.ofNat 32 (32 - n) := by
    apply BitVec.eq_of_toNat_eq
    rw [BitVec.toNat_umod, UInt32.toNat_toBitVec, UInt32.toNat_sub, UInt32.toNat_ofNat',
      BitVec.toNat_ofNat]
    change (2 ^ 32 - n % 2 ^ 32 + 32) % 2 ^ 32 % 32 = _
    omega
  apply UInt32.toBitVec_inj.1
  rw [rotateLeft, rotl, BitVec.rotateLeft_def, Nat.mod_eq_of_lt hlt, UInt32.toBitVec_or,
    UInt32.toBitVec_shiftLeft, UInt32.toBitVec_shiftRight, hleft, hright]
  have hn : (BitVec.ofNat 32 n).toNat = n :=
    (BitVec.toNat_ofNat n 32).trans (Nat.mod_eq_of_lt (by omega))
  have hm : (BitVec.ofNat 32 (32 - n)).toNat = 32 - n :=
    (BitVec.toNat_ofNat (32 - n) 32).trans (Nat.mod_eq_of_lt (by omega))
  rw [BitVec.shiftLeft_eq', BitVec.ushiftRight_eq', hn, hm]

/-- Step `i` as the macros of the code make it, with their round function as `fn`. -/
def turn (fn : UInt32 → UInt32 → UInt32 → UInt32) (x : Cells UInt32) (s : Chain) (i : ℕ) : Chain :=
  #v[reg s 3, roundStep fn (reg s 0) (reg s 1) (reg s 2) (reg s 3) (x (wordIndex i))
    (UInt32.ofNat (shift i)) (constants.getD i 0), reg s 1, reg s 2]

theorem turn_words (fn : UInt32 → UInt32 → UInt32 → UInt32) (x : Cells UInt32) (a b c d : UInt32) (i : ℕ) :
    turn fn x #v[a, b, c, d] i = #v[d, roundStep fn a b c d (x (wordIndex i))
      (UInt32.ofNat (shift i)) (constants.getD i 0), b, c] := rfl

theorem shift_bounds (i : ℕ) : 0 < shift i ∧ shift i < 32 := by
  unfold shift
  split <;> decide

theorem turn_eq_step (x : Cells UInt32) (s : Chain) (i : ℕ) :
    turn (roundFunction (i / 16)) x s i = step x s i := by
  obtain ⟨hpos, hlt⟩ := shift_bounds i
  unfold turn step roundStep
  rw [rotateLeft_eq _ hpos hlt, ← UInt32.add_assoc, ← UInt32.add_assoc, UInt32.add_comm _ (reg s 1)]

theorem step_congr {x y : ℕ → UInt32} (h : ∀ k < 16, x k = y k) (s : Chain) (i : ℕ) :
    step x s i = step y s i := by
  have hindex : wordIndex i < 16 := by
    unfold wordIndex
    split <;> omega
  unfold step
  rw [h _ hindex]

def fourTurns (fn : UInt32 → UInt32 → UInt32 → UInt32) (x : Cells UInt32) (s : Chain) (i : ℕ) :
    Chain :=
  (List.range' i 4).foldl (turn fn x) s

theorem fourTurns_words (fn : UInt32 → UInt32 → UInt32 → UInt32) (x : Cells UInt32)
    (a b c d : UInt32) (i : ℕ) :
    let step := fun a b c d j => roundStep fn a b c d (x (wordIndex j)) (UInt32.ofNat (shift j))
      (constants.getD j 0)
    let a1 := step a b c d i
    let d1 := step d a1 b c (i + 1)
    let c1 := step c d1 a1 b (i + 2)
    let b1 := step b c1 d1 a1 (i + 3)
    fourTurns fn x #v[a, b, c, d] i = #v[a1, b1, c1, d1] := by
  intro step a1 d1 c1 b1
  simp only [fourTurns, List.range', List.foldl_cons, List.foldl_nil, turn_words]
  rfl

/-- Four turns at a time are a round. -/
theorem foldl_fourTurns (fn : UInt32 → UInt32 → UInt32 → UInt32) (x : Cells UInt32) (s : Chain)
    (i : ℕ) : [i, i + 4, i + 8, i + 12].foldl (fourTurns fn x) s =
      (List.range' i 16).foldl (turn fn x) s := by
  simp only [fourTurns, List.foldl_cons, List.foldl_nil, ← List.foldl_append]
  rfl

theorem md5Round1_eq (x : Cells UInt32) (s : Chain) :
    md5Round1 x s = [0, 4, 8, 12].foldl (fourTurns f x) s := by
  obtain ⟨w, y, z, v, rfl⟩ := exists_words s
  unfold md5Round1
  extract_lets a b c d a1 d1 c1 b1 a2 d2 c2 b2 a3 d3 c3 b3 a4 d4 c4 b4
  have h1 : fourTurns f x #v[w, y, z, v] 0 = #v[a1, b1, c1, d1] := fourTurns_words f x w y z v 0
  have h2 : fourTurns f x #v[a1, b1, c1, d1] 4 = #v[a2, b2, c2, d2] :=
    fourTurns_words f x a1 b1 c1 d1 4
  have h3 : fourTurns f x #v[a2, b2, c2, d2] 8 = #v[a3, b3, c3, d3] :=
    fourTurns_words f x a2 b2 c2 d2 8
  have h4 : fourTurns f x #v[a3, b3, c3, d3] 12 = #v[a4, b4, c4, d4] :=
    fourTurns_words f x a3 b3 c3 d3 12
  rw [List.foldl, h1, List.foldl, h2, List.foldl, h3, List.foldl, h4, List.foldl]

theorem md5Round2_eq (x : Cells UInt32) (s : Chain) :
    md5Round2 x s = [16, 20, 24, 28].foldl (fourTurns g x) s := by
  obtain ⟨w, y, z, v, rfl⟩ := exists_words s
  unfold md5Round2
  extract_lets a b c d a1 d1 c1 b1 a2 d2 c2 b2 a3 d3 c3 b3 a4 d4 c4 b4
  have h1 : fourTurns g x #v[w, y, z, v] 16 = #v[a1, b1, c1, d1] := fourTurns_words g x w y z v 16
  have h2 : fourTurns g x #v[a1, b1, c1, d1] 20 = #v[a2, b2, c2, d2] :=
    fourTurns_words g x a1 b1 c1 d1 20
  have h3 : fourTurns g x #v[a2, b2, c2, d2] 24 = #v[a3, b3, c3, d3] :=
    fourTurns_words g x a2 b2 c2 d2 24
  have h4 : fourTurns g x #v[a3, b3, c3, d3] 28 = #v[a4, b4, c4, d4] :=
    fourTurns_words g x a3 b3 c3 d3 28
  rw [List.foldl, h1, List.foldl, h2, List.foldl, h3, List.foldl, h4, List.foldl]

theorem md5Round3_eq (x : Cells UInt32) (s : Chain) :
    md5Round3 x s = [32, 36, 40, 44].foldl (fourTurns h x) s := by
  obtain ⟨w, y, z, v, rfl⟩ := exists_words s
  unfold md5Round3
  extract_lets a b c d a1 d1 c1 b1 a2 d2 c2 b2 a3 d3 c3 b3 a4 d4 c4 b4
  have h1 : fourTurns h x #v[w, y, z, v] 32 = #v[a1, b1, c1, d1] := fourTurns_words h x w y z v 32
  have h2 : fourTurns h x #v[a1, b1, c1, d1] 36 = #v[a2, b2, c2, d2] :=
    fourTurns_words h x a1 b1 c1 d1 36
  have h3 : fourTurns h x #v[a2, b2, c2, d2] 40 = #v[a3, b3, c3, d3] :=
    fourTurns_words h x a2 b2 c2 d2 40
  have h4 : fourTurns h x #v[a3, b3, c3, d3] 44 = #v[a4, b4, c4, d4] :=
    fourTurns_words h x a3 b3 c3 d3 44
  rw [List.foldl, h1, List.foldl, h2, List.foldl, h3, List.foldl, h4, List.foldl]

theorem md5Round4_eq (x : Cells UInt32) (s : Chain) :
    md5Round4 x s = [48, 52, 56, 60].foldl (fourTurns i x) s := by
  obtain ⟨w, y, z, v, rfl⟩ := exists_words s
  unfold md5Round4
  extract_lets a b c d a1 d1 c1 b1 a2 d2 c2 b2 a3 d3 c3 b3 a4 d4 c4 b4
  have h1 : fourTurns i x #v[w, y, z, v] 48 = #v[a1, b1, c1, d1] := fourTurns_words i x w y z v 48
  have h2 : fourTurns i x #v[a1, b1, c1, d1] 52 = #v[a2, b2, c2, d2] :=
    fourTurns_words i x a1 b1 c1 d1 52
  have h3 : fourTurns i x #v[a2, b2, c2, d2] 56 = #v[a3, b3, c3, d3] :=
    fourTurns_words i x a2 b2 c2 d2 56
  have h4 : fourTurns i x #v[a3, b3, c3, d3] 60 = #v[a4, b4, c4, d4] :=
    fourTurns_words i x a3 b3 c3 d3 60
  rw [List.foldl, h1, List.foldl, h2, List.foldl, h3, List.foldl, h4, List.foldl]

theorem or_shift {a b n : ℕ} (h : a < 2 ^ n) : a ||| b <<< n = a + 2 ^ n * b := by
  rw [Nat.or_comm, ← Nat.shiftLeft_add_eq_or_of_lt h, Nat.shiftLeft_eq, Nat.mul_comm, Nat.add_comm]

theorem toNat_shifted (b : UInt8) {n : ℕ} (h : n ≤ 24) :
    (b.toUInt32 <<< UInt32.ofNat n).toNat = b.toNat <<< n := by
  have hb := b.toNat_lt
  have hn : (UInt32.ofNat n).toNat % 32 = n := by
    rw [UInt32.toNat_ofNat']
    omega
  rw [UInt32.toNat_shiftLeft, hn, UInt8.toNat_toUInt32, Nat.shiftLeft_eq]
  apply Nat.mod_eq_of_lt
  calc b.toNat * 2 ^ n ≤ 255 * 2 ^ 24 := Nat.mul_le_mul (by omega) (Nat.pow_le_pow_right (by decide) h)
    _ < 2 ^ 32 := by decide

theorem toNat_md5Decode (input : Cells UInt8) (i : ℕ) :
    (md5Decode input i).toNat = littleEndian [input (4 * i), input (4 * i + 1), input (4 * i + 2),
      input (4 * i + 3)] := by
  have h0 := (input (4 * i)).toNat_lt
  have h1 := (input (4 * i + 1)).toNat_lt
  have h2 := (input (4 * i + 2)).toNat_lt
  have hone := toNat_shifted (input (4 * i + 1)) (show 8 ≤ 24 by decide)
  have htwo := toNat_shifted (input (4 * i + 2)) (show 16 ≤ 24 by decide)
  have hthree := toNat_shifted (input (4 * i + 3)) (show 24 ≤ 24 by decide)
  unfold md5Decode
  rw [UInt32.toNat_or, UInt32.toNat_or, UInt32.toNat_or, UInt8.toNat_toUInt32]
  change _ ||| (_ <<< UInt32.ofNat 8).toNat ||| (_ <<< UInt32.ofNat 16).toNat |||
    (_ <<< UInt32.ofNat 24).toNat = _
  rw [hone, htwo, hthree, or_shift h0, or_shift (n := 16) (by omega), or_shift (n := 24) (by omega)]
  simp only [littleEndian, List.foldr_cons, List.foldr_nil]
  omega

theorem word_load (block : Cells UInt8) {k : ℕ} (hk : k < 16) :
    word (load block 64) k = md5Decode block k := by
  have hbytes : ((load block 64).drop (4 * k)).take 4 =
      [block (4 * k), block (4 * k + 1), block (4 * k + 2), block (4 * k + 3)] := by
    apply List.ext_getElem (by simp; omega)
    intro j hj hj'
    rw [List.getElem_take, List.getElem_drop, getElem_load]
    have hcases : j = 0 ∨ j = 1 ∨ j = 2 ∨ j = 3 := by
      simp at hj'
      omega
    rcases hcases with rfl | rfl | rfl | rfl <;> rfl
  rw [word, hbytes, ← toNat_md5Decode, UInt32.ofNat_toNat]

theorem foldl_turn (x : Cells UInt32) (block : Cells UInt8) (hx : x = md5Decode block) (s : Chain)
    (r : ℕ) : (List.range' (16 * r) 16).foldl (turn (roundFunction r) x) s =
      (List.range' (16 * r) 16).foldl (step (word (load block 64))) s := by
  apply List.foldl_ext
  intro s i hi
  have hround : i / 16 = r := by
    rw [List.mem_range'_1] at hi
    omega
  rw [← hround, turn_eq_step]
  apply step_congr
  intro k hk
  rw [hx, word_load block hk]

theorem addState_words (s t : Chain) :
    addState s t = #v[reg s 0 + reg t 0, reg s 1 + reg t 1, reg s 2 + reg t 2, reg s 3 + reg t 3] := by
  obtain ⟨a, b, c, d, rfl⟩ := exists_words s
  obtain ⟨a', b', c', d', rfl⟩ := exists_words t
  rfl

theorem md5Transform_eq (state : Chain) (block : Cells UInt8) :
    md5Transform state block = compress state (load block 64) := by
  have hsteps : ∀ x, x = md5Decode block →
      md5Round4 x (md5Round3 x (md5Round2 x (md5Round1 x state))) =
        (List.range 64).foldl (step (word (load block 64))) state := by
    intro x hx
    have hsplit : List.range 64 = List.range' (16 * 0) 16 ++ List.range' (16 * 1) 16 ++
        List.range' (16 * 2) 16 ++ List.range' (16 * 3) 16 := rfl
    rw [md5Round1_eq, md5Round2_eq, md5Round3_eq, md5Round4_eq, foldl_fourTurns f x _ 0,
      foldl_fourTurns g x _ 16, foldl_fourTurns h x _ 32, foldl_fourTurns i x _ 48, hsplit,
      List.foldl_append, List.foldl_append, List.foldl_append, ← foldl_turn x block hx,
      ← foldl_turn x block hx, ← foldl_turn x block hx, ← foldl_turn x block hx]
    rfl
  change addState state _ = compress state _
  rw [hsteps _ rfl, addState_words]
  rfl

end SVpn.Md5Rounds
