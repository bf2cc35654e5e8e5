import SVpn.KeyTable

set_option autoImplicit false

/-!
The mixing round of the shuffle loop. Each of its turns can be undone, the carry
recovered from the byte it came out of, so a digest keeps all it was given.
-/
namespace SVpn.KeyMixing
open SVpn.ArrayPermutation SVpn.Crypt

section Undo
variable {σ ι : Type} {step undo : σ → ι → σ}

theorem foldl_undo (h : ∀ s i, undo (step s i) i = s) (is : List ι) (s : σ) :
    is.reverse.foldl undo (is.foldl step s) = s := by
  induction is generalizing s with
  | nil => rfl
  | cons i is ih =>
    rw [List.foldl_cons, List.reverse_cons, List.foldl_append, ih (step s i)]
    exact h s i

theorem foldl_bijective (hundo : ∀ s i, undo (step s i) i = s)
    (hstep : ∀ s i, step (undo s i) i = s) (is : List ι) :
    Function.Bijective fun s => is.foldl step s := by
  apply Function.bijective_iff_has_inverse.2
  refine ⟨fun s => is.reverse.foldl undo s, foldl_undo hundo is, fun s => ?_⟩
  have hback := foldl_undo hstep is.reverse s
  rw [List.reverse_reverse] at hback
  exact hback

end Undo

/-- Byte `j` becomes its image under `image`, and what it `passes` on is added to the next. -/
def turn (image passes : UInt8 → UInt8) (md : Digest) (j : Fin 15) : Digest :=
  let b := entry md j.castSucc
  let md := put md j.castSucc (image b)
  put md j.succ (entry md j.succ + passes b)

section Turn
variable {image passes image' passes' : UInt8 → UInt8}

theorem entry_turn (md : Digest) (j : Fin 15) :
    entry (turn image passes md j) = Function.update
      (Function.update (entry md) j.castSucc (image (entry md j.castSucc))) j.succ
      (entry md j.succ + passes (entry md j.castSucc)) := by
  have hnext : j.succ ≠ j.castSucc := j.castSucc_lt_succ.ne'
  have hkept : entry (put md j.castSucc (image (entry md j.castSucc))) j.succ = entry md j.succ := by
    rw [entry_put, Function.update_of_ne hnext]
  rw [← hkept, ← entry_put, ← entry_put]
  rfl

/-- A turn is undone by one that finds the byte back and takes away what was passed on. -/
theorem turn_turn (himage : ∀ b, image' (image b) = b)
    (hpasses : ∀ b, passes b + passes' (image b) = 0) (md : Digest) (j : Fin 15) :
    turn image' passes' (turn image passes md j) j = md := by
  have hnext : j.castSucc ≠ j.succ := j.castSucc_lt_succ.ne
  have hbyte : entry (turn image passes md j) j.castSucc = image (entry md j.castSucc) := by
    rw [entry_turn, Function.update_of_ne hnext, Function.update_self]
  have hpassed : entry (turn image passes md j) j.succ =
      entry md j.succ + passes (entry md j.castSucc) := by
    rw [entry_turn, Function.update_self]
  apply ext_entry
  intro k
  rw [entry_turn, hbyte, hpassed, himage, UInt8.add_assoc, hpasses, UInt8.add_zero]
  by_cases hk : k = j.succ
  · rw [hk, Function.update_self]
  · rw [Function.update_of_ne hk]
    by_cases hk' : k = j.castSucc
    · rw [hk', Function.update_self]
    · rw [Function.update_of_ne hk', entry_turn, Function.update_of_ne hk,
        Function.update_of_ne hk']

end Turn

def product (b : UInt8) : UInt8 := UInt8.ofNat (b.toNat * primeForGen)

def carry (b : UInt8) : UInt8 := UInt8.ofNat ((b.toNat * primeForGen) >>> 8)

theorem mixByte_eq (md : Digest) (j : Fin 15) : mixByte md j = turn product carry md j := rfl

/-- Takes a product back: 47 times 207 is one more than 38 times 256. -/
def factor (b : UInt8) : UInt8 := b * 207

theorem product_eq (b : UInt8) : product b = b * 47 := by
  rw [product, UInt8.ofNat_mul, UInt8.ofNat_toNat]
  rfl

theorem factor_product (b : UInt8) : factor (product b) = b := by
  rw [factor, product_eq, UInt8.mul_assoc, show (47 * 207 : UInt8) = 1 by decide, UInt8.mul_one]

theorem product_factor (b : UInt8) : product (factor b) = b := by
  rw [product_eq, factor, UInt8.mul_assoc, show (207 * 47 : UInt8) = 1 by decide, UInt8.mul_one]

def unmixByte (md : Digest) (j : Fin 15) : Digest := turn factor (fun b => -carry (factor b)) md j

theorem unmixByte_mixByte (md : Digest) (j : Fin 15) : unmixByte (mixByte md j) j = md := by
  rw [mixByte_eq, unmixByte]
  apply turn_turn factor_product
  intro b
  rw [factor_product, UInt8.add_right_neg]

theorem mixByte_unmixByte (md : Digest) (j : Fin 15) : mixByte (unmixByte md j) j = md := by
  rw [mixByte_eq, unmixByte]
  apply turn_turn product_factor
  intro b
  rw [UInt8.add_left_neg]

theorem mixRound_bijective : Function.Bijective mixRound :=
  foldl_bijective unmixByte_mixByte mixByte_unmixByte (List.finRange 15)

/-- After any turns of the shuffle the digest has been mixed as often. -/
theorem shuffleTurns_fst (is : List (Fin 256)) (s : Digest × Vector UInt8 256) :
    (is.foldl shuffleTurn s).1 = mixRound^[is.length] s.1 := by
  induction is generalizing s with
  | nil => rfl
  | cons i is ih =>
    rw [List.foldl_cons, ih, List.length_cons, Function.iterate_succ_apply]
    rfl

/-- No digest is lost in a round, nor in the rounds of the turns a shuffle has taken. -/
theorem mixRound_lossless :
    Function.Bijective mixRound ∧ (∀ n, Function.Injective mixRound^[n]) ∧
      ∀ (is : List (Fin 256)) (encode : Vector UInt8 256),
        Function.Injective fun md => (is.foldl shuffleTurn (md, encode)).1 := by
  refine ⟨mixRound_bijective, fun n => mixRound_bijective.injective.iterate n, ?_⟩
  intro is encode md md' heq
  have hround : mixRound^[is.length] md = mixRound^[is.length] md' := by
    rw [← shuffleTurns_fst is (md, encode), ← shuffleTurns_fst is (md', encode)]
    exact heq
  exact mixRound_bijective.injective.iterate is.length hround

end SVpn.KeyMixing
