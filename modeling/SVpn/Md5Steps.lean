import SVpn.Md5Rounds

set_option autoImplicit false

/-!
What a context holds: the compressed blocks of the message it has been given, the
bytes that do not fill a block yet, and the length in bits. The block loop ends
when its index has no room to wrap.
-/
namespace SVpn.Md5Steps
open SVpn.Region SVpn.BlockFold SVpn.Md5 SVpn.MessageDigest SVpn.Md5Rounds

theorem toNat_add_block {i inputlen : UInt32} (hi : i.toNat ≤ inputlen.toNat)
    (hlen : inputlen.toNat + 64 < 2 ^ 32) : (i + 64).toNat = i.toNat + 64 := by
  rw [UInt32.toNat_add]
  exact Nat.mod_eq_of_lt (by change i.toNat + 64 < 2 ^ 32; omega)

/-- The loop compresses the whole blocks of what is left of the input, and stops
where no block is left. -/
theorem blockLoop_whole (input : Cells UInt8) {inputlen : UInt32}
    (hlen : inputlen.toNat + 64 < 2 ^ 32) (fuel : ℕ) {i : UInt32} (hi : i.toNat ≤ inputlen.toNat)
    (hfuel : inputlen.toNat < i.toNat + 64 * fuel) (state : Chain) :
    ∃ j, blockLoop input inputlen fuel i state =
        some (j, whole 64 compress state
          (load (fun k => input (i.toNat + k)) (inputlen.toNat - i.toNat))) ∧
      j.toNat = i.toNat + 64 * ((inputlen.toNat - i.toNat) / 64) := by
  induction fuel generalizing i state with
  | zero => omega
  | succ fuel ih =>
    have hnext := toNat_add_block hi hlen
    rw [blockLoop]
    by_cases hle : i + 64 ≤ inputlen
    · rw [if_pos hle]
      rw [UInt32.le_iff_toNat_le, hnext] at hle
      obtain ⟨j, hloop, hj⟩ := ih (i := i + 64) (by omega) (by omega)
        (md5Transform state fun k => input (i.toNat + k))
      refine ⟨j, ?_, by omega⟩
      have hsplit : inputlen.toNat - i.toNat = 64 + (inputlen.toNat - (i.toNat + 64)) := by omega
      rw [hloop, hsplit, load_add, whole_block compress (by decide) _ _ _ (length_load _ _),
        md5Transform_eq, hnext]
      simp only [Nat.add_assoc]
    · rw [if_neg hle]
      rw [UInt32.le_iff_toNat_le, hnext] at hle
      refine ⟨i, ?_, by omega⟩
      rw [whole_short _ _ _ (by rw [length_load]; omega)]

theorem toNat_mask (x : UInt32) : (x >>> 3 &&& 0x3F).toNat = x.toNat / 8 % 64 := by
  rw [UInt32.toNat_and, UInt32.toNat_shiftRight]
  change x.toNat >>> 3 &&& 2 ^ 6 - 1 = _
  rw [Nat.and_two_pow_sub_one_eq_mod, Nat.shiftRight_eq_div_pow]

theorem index_lt (count : Vector UInt32 2) : (index count).toNat < 64 := by
  rw [index, toNat_mask]
  omega

theorem toNat_partlen (count : Vector UInt32 2) :
    (64 - index count).toNat = 64 - (index count).toNat := by
  have hlt := index_lt count
  rw [UInt32.toNat_sub_of_le _ _ (by rw [UInt32.le_iff_toNat_le]; change _ ≤ 64; omega)]
  rfl

def bitCount (count : Vector UInt32 2) : ℕ :=
  (count.toArray.getD 0 0).toNat + 2 ^ 32 * (count.toArray.getD 1 0).toNat

theorem toNat_index (count : Vector UInt32 2) : (index count).toNat = bitCount count / 8 % 64 := by
  have hlt := count[0].toNat_lt
  have hfirst : count.toArray.getD 0 0 = count[0] := by simp
  rw [index, toNat_mask, bitCount, hfirst]
  omega

/-- The carry into the second word makes the addition one of 64 bits. -/
theorem bitCount_addBits (count : Vector UInt32 2) (inputlen : UInt32) :
    bitCount (addBits count inputlen) = (bitCount count + 8 * inputlen.toNat) % 2 ^ 64 := by
  have hlow : (count[0] + (inputlen <<< 3)).toNat =
      (count[0].toNat + inputlen.toNat * 8 % 2 ^ 32) % 2 ^ 32 := by
    rw [UInt32.toNat_add, UInt32.toNat_shiftLeft]
    change (_ + inputlen.toNat <<< 3 % 2 ^ 32) % 2 ^ 32 = _
    rw [Nat.shiftLeft_eq]
  have hshift : (inputlen <<< 3).toNat = inputlen.toNat * 8 % 2 ^ 32 := by
    rw [UInt32.toNat_shiftLeft]
    change inputlen.toNat <<< 3 % 2 ^ 32 = _
    rw [Nat.shiftLeft_eq]
  have hhigh : (inputlen >>> 29).toNat = inputlen.toNat / 2 ^ 29 := by
    rw [UInt32.toNat_shiftRight]
    exact Nat.shiftRight_eq_div_pow _ _
  have h0 := count[0].toNat_lt
  have h1 := count[1].toNat_lt
  have hlen := inputlen.toNat_lt
  have hfirst : count.toArray.getD 0 0 = count[0] := by simp
  have hsecond : count.toArray.getD 1 0 = count[1] := by simp
  unfold bitCount addBits
  rw [hfirst, hsecond]
  change (count[0] + (inputlen <<< 3)).toNat + 2 ^ 32 * ((if count[0] + (inputlen <<< 3) <
    inputlen <<< 3 then count[1] + 1 else count[1]) + (inputlen >>> 29)).toNat = _
  rw [hlow, UInt32.toNat_add _ (inputlen >>> 29), hhigh]
  by_cases hcarry : count[0] + (inputlen <<< 3) < inputlen <<< 3
  · rw [if_pos hcarry, UInt32.toNat_add]
    rw [UInt32.lt_iff_toNat_lt, hlow, hshift] at hcarry
    change _ + 2 ^ 32 * (((count[1].toNat + 1) % 2 ^ 32 + _) % 2 ^ 32) = _
    omega
  · rw [if_neg hcarry]
    rw [UInt32.lt_iff_toNat_lt, hlow, hshift] at hcarry
    omega

/-- The context has taken in the message. -/
structure Absorbed (context : Md5Ctx) (message : List UInt8) : Prop where
  count : bitCount context.count = 8 * message.length % 2 ^ 64
  state : context.state = whole 64 compress initial message
  buffer : load context.buffer (message.length % 64) = rest 64 message

variable {context : Md5Ctx} {message : List UInt8}

theorem Absorbed.index_eq (h : Absorbed context message) :
    (index context.count).toNat = message.length % 64 := by
  rw [toNat_index, h.count]
  omega

theorem absorbed_md5Init (buffer : Cells UInt8) : Absorbed (md5Init buffer) [] :=
  ⟨rfl, rfl, rfl⟩

theorem Absorbed.count_append (h : Absorbed context message) (input : Cells UInt8)
    (inputlen : UInt32) : bitCount (addBits context.count inputlen) =
      8 * (message ++ load input inputlen.toNat).length % 2 ^ 64 := by
  rw [bitCount_addBits, h.count, List.length_append, length_load]
  omega

theorem Absorbed.store (h : Absorbed context message) (bytes : List UInt8) :
    load (store context.buffer (index context.count).toNat bytes)
      (message.length % 64 + bytes.length) = rest 64 message ++ bytes := by
  rw [h.index_eq, load_store_append, h.buffer]

/-- An update takes its input in behind the message. -/
theorem md5Update_absorbed (h : Absorbed context message) (input : Cells UInt8)
    (inputlen : UInt32) (hlen : inputlen.toNat + 64 < 2 ^ 32) :
    ∃ context', md5Update context input inputlen = some context' ∧
      Absorbed context' (message ++ load input inputlen.toNat) := by
  have hindex := h.index_eq
  have hpart := toNat_partlen context.count
  have hrest : (rest 64 message).length = message.length % 64 := length_rest 64 message
  by_cases hfull : inputlen ≥ 64 - index context.count
  · -- the buffer is filled up and compressed, then the loop takes what is left
    simp only [md5Update, hfull, if_true]
    rw [ge_iff_le, UInt32.le_iff_toNat_le, hpart] at hfull
    have hblock := h.store (load input (64 - index context.count).toNat)
    rw [length_load, hpart, ← hindex, Nat.add_sub_cancel' (by omega)] at hblock
    have hsplit : load input inputlen.toNat = load input (64 - (index context.count).toNat) ++
        load (fun k => input (64 - (index context.count).toNat + k))
          (inputlen.toNat - (64 - (index context.count).toNat)) := by
      rw [← load_add, Nat.add_sub_cancel' hfull]
    have hone : (rest 64 message ++ load input (64 - (index context.count).toNat)).length = 64 := by
      rw [List.length_append, hrest, length_load]
      omega
    obtain ⟨j, hloop, hj⟩ := blockLoop_whole input hlen (blockFuel inputlen)
      (i := 64 - index context.count) (by omega) (by rw [blockFuel]; omega)
      (md5Transform context.state (store context.buffer (index context.count).toNat
        (load input (64 - index context.count).toNat)))
    rw [hpart] at hj hloop
    rw [hpart, hloop, md5Transform_eq, hblock]
    simp only [Option.map_some, Option.some.injEq, exists_eq_left']
    refine ⟨h.count_append input inputlen, ?_, ?_⟩
    · rw [hsplit, whole_append compress (by decide), ← h.state, ← List.append_assoc,
        whole_block compress (by decide) _ _ _ hone]
    · have hleft : (inputlen - j).toNat = inputlen.toNat - j.toNat :=
        UInt32.toNat_sub_of_le _ _ (UInt32.le_iff_toNat_le.2 (by omega))
      have hkept : load (fun k => input (j.toNat + k)) (inputlen - j).toNat =
          rest 64 (message ++ load input inputlen.toNat) := by
        rw [hsplit, rest_append (by decide), ← List.append_assoc, rest_block (by decide) _ _ hone,
          rest, drop_load, length_load, hleft, hj]
        simp only [Nat.add_assoc, Nat.sub_sub]
      rw [← hkept, ← length_rest, ← hkept, load_store]
  · simp only [md5Update, hfull, if_false, Option.some.injEq, exists_eq_left']
    rw [ge_iff_le, UInt32.le_iff_toNat_le] at hfull
    have hshort : (rest 64 message ++ load input inputlen.toNat).length < 64 := by
      rw [List.length_append, hrest, length_load]
      omega
    have hlength : (message ++ load input inputlen.toNat).length % 64 =
        message.length % 64 + inputlen.toNat := by
      rw [List.length_append, length_load]
      omega
    refine ⟨h.count_append input inputlen, ?_, ?_⟩
    · rw [whole_append compress (by decide), whole_short _ _ _ hshort]
      exact h.state
    · have hstore := h.store (load input inputlen.toNat)
      rw [length_load] at hstore
      rw [hlength, hstore, rest_append (by decide), rest_short _ hshort]

end SVpn.Md5Steps
