import SVpn.Md5Steps

set_option autoImplicit false

/-!
The code's digest is the message digest, of a message given at once or in parts.
-/
namespace SVpn.Md5Digest
open SVpn.Region SVpn.BlockFold SVpn.Md5 SVpn.MessageDigest SVpn.Md5Steps

theorem md5Encode_eq (input : Cells UInt32) (j : ℕ) :
    md5Encode input j = UInt8.ofNat ((input (j / 4)).toNat / 256 ^ (j % 4)) := by
  have hshift : (UInt32.ofNat (8 * (j % 4))).toNat % 32 = 8 * (j % 4) := by
    rw [UInt32.toNat_ofNat']
    omega
  apply UInt8.toNat_inj.1
  rw [md5Encode, UInt32.toNat_toUInt8, UInt32.toNat_and, UInt32.toNat_shiftRight, hshift,
    Nat.shiftRight_eq_div_pow, UInt8.toNat_ofNat', Nat.pow_mul]
  change (_ &&& 2 ^ 8 - 1) % 2 ^ 8 = _
  rw [Nat.and_two_pow_sub_one_eq_mod, Nat.mod_mod]

theorem bytesOf_count (count : Vector UInt32 2) {bits : ℕ} (h : bitCount count = bits % 2 ^ 64) :
    load (md5Encode fun k => count.toArray.getD k 0) 8 = bytesOf 8 bits := by
  have hlow := (count.toArray.getD 0 0).toNat_lt
  have hhigh := (count.toArray.getD 1 0).toNat_lt
  unfold bitCount at h
  apply List.map_congr_left
  intro k hk
  rw [List.mem_range] at hk
  apply UInt8.toNat_inj.1
  rw [md5Encode_eq, UInt8.toNat_ofNat', UInt8.toNat_ofNat']
  have hcases : k = 0 ∨ k = 1 ∨ k = 2 ∨ k = 3 ∨ k = 4 ∨ k = 5 ∨ k = 6 ∨ k = 7 := by omega
  rcases hcases with rfl | rfl | rfl | rfl | rfl | rfl | rfl | rfl <;>
    simp only [Nat.reduceDiv, Nat.reduceMod, Nat.reducePow] <;> omega

theorem toList_md5Encode (state : Chain) :
    (Vector.ofFn fun k : Fin 16 => md5Encode (fun w => state.toArray.getD w 0) k).toList =
      state.toList.flatMap fun w => bytesOf 4 w.toNat := by
  obtain ⟨a, b, c, d, rfl⟩ := exists_words state
  simp [Vector.toList_ofFn, List.ofFn_succ, md5Encode_eq, bytesOf, List.range_succ]

theorem load_padding (n : ℕ) : load padding (n + 1) = 0x80 :: List.replicate n 0 := by
  have hzeros : load (fun k => padding (1 + k)) n = List.replicate n 0 := by
    refine List.eq_replicate_iff.2 ⟨length_load _ _, fun b hb => ?_⟩
    obtain ⟨k, -, rfl⟩ := List.mem_map.1 hb
    rw [padding, if_neg (by omega)]
  rw [Nat.add_comm, load_add, hzeros]
  rfl

variable {context : Md5Ctx} {message : List UInt8}

theorem md5Final_absorbed (h : Absorbed context message) :
    ∃ d, md5Final context = some d ∧ d.toList = digest message := by
  have hindex := h.index_eq
  have hlt := index_lt context.count
  obtain ⟨padlen, hpadlen, hpad⟩ : ∃ padlen : UInt32,
      (if index context.count < 56 then 56 - index context.count else 120 - index context.count) =
        padlen ∧ padlen.toNat = (119 - message.length % 64) % 64 + 1 := by
    refine ⟨_, rfl, ?_⟩
    by_cases hsmall : index context.count < 56
    · rw [if_pos hsmall, UInt32.toNat_sub_of_le _ _ (UInt32.le_of_lt hsmall)]
      rw [UInt32.lt_iff_toNat_lt] at hsmall
      change _ < 56 at hsmall
      change 56 - _ = _
      omega
    · rw [if_neg hsmall, UInt32.toNat_sub_of_le _ _ (by
        rw [UInt32.le_iff_toNat_le]
        change _ ≤ 120
        omega)]
      rw [UInt32.lt_iff_toNat_lt] at hsmall
      change ¬ _ < 56 at hsmall
      change 120 - _ = _
      omega
  obtain ⟨padded, hpadded, habsorbed⟩ := md5Update_absorbed h padding padlen (by omega)
  obtain ⟨ended, hended, hdone⟩ := md5Update_absorbed habsorbed
    (md5Encode fun k => context.count.toArray.getD k 0) 8 (by decide)
  refine ⟨Vector.ofFn fun k => md5Encode (fun w => ended.state.toArray.getD w 0) k, ?_, ?_⟩
  · simp only [md5Final, hpadlen, hpadded, hended, Option.bind_some, Option.map_some]
  · have hbits : load (md5Encode fun k => context.count.toArray.getD k 0) (8 : UInt32).toNat =
        bytesOf 8 (8 * message.length) := bytesOf_count context.count h.count
    rw [toList_md5Encode, hdone.state, hbits, hpad, load_padding, List.append_assoc]
    rfl

theorem md5Update_chunks {chunks : List (Cells UInt8 × UInt32)} (h : Absorbed context message)
    (hlen : ∀ c ∈ chunks, c.2.toNat + 64 < 2 ^ 32) :
    ∃ context', chunks.foldlM (fun context c => md5Update context c.1 c.2) context = some context' ∧
      Absorbed context' (message ++ chunks.flatMap fun c => load c.1 c.2.toNat) := by
  induction chunks generalizing context message with
  | nil => exact ⟨context, rfl, by simpa using h⟩
  | cons c chunks ih =>
    obtain ⟨next, hnext, habsorbed⟩ := md5Update_absorbed h c.1 c.2 (hlen c List.mem_cons_self)
    obtain ⟨last, hlast, hdone⟩ := ih habsorbed fun c' hc' => hlen c' (List.mem_cons_of_mem c hc')
    refine ⟨last, ?_, ?_⟩
    · rw [List.foldlM_cons, hnext]
      exact hlast
    · rw [List.flatMap_cons, ← List.append_assoc]
      exact hdone

/-- `MD5Init`, `MD5Update` on each of the strings and `MD5Final`. -/
def md5Stream (buffer : Cells UInt8) (chunks : List (Cells UInt8 × UInt32)) :
    Option (Vector UInt8 16) :=
  (chunks.foldlM (fun context c => md5Update context c.1 c.2) (md5Init buffer)).bind md5Final

theorem md5Stream_digest (buffer : Cells UInt8) (chunks : List (Cells UInt8 × UInt32))
    (hlen : ∀ c ∈ chunks, c.2.toNat + 64 < 2 ^ 32) :
    ∃ d, md5Stream buffer chunks = some d ∧
      d.toList = digest (chunks.flatMap fun c => load c.1 c.2.toNat) := by
  obtain ⟨context, hupdates, habsorbed⟩ := md5Update_chunks (absorbed_md5Init buffer) hlen
  obtain ⟨d, hd, hdigest⟩ := md5Final_absorbed habsorbed
  exact ⟨d, by rw [md5Stream, hupdates, Option.bind_some, hd], hdigest⟩

theorem md5Fast_stream (stack input : Cells UInt8) (len : UInt32) :
    md5Fast stack input len = md5Stream stack [(input, len)] := by
  rw [md5Stream, List.foldlM_cons, md5Fast]
  cases md5Update (md5Init stack) input len <;> rfl

theorem md5Fast_digest (stack input : Cells UInt8) (len : UInt32)
    (hlen : len.toNat + 64 < 2 ^ 32) :
    ∃ d, md5Fast stack input len = some d ∧ d.toList = digest (load input len.toNat) := by
  obtain ⟨d, hd, hdigest⟩ := md5Stream_digest stack [(input, len)] (by simpa using hlen)
  refine ⟨d, (md5Fast_stream stack input len).trans hd, ?_⟩
  simpa using hdigest

theorem md5Fast_congr (stack stack' : Cells UInt8) {input input' : Cells UInt8} {len : UInt32}
    (hlen : len.toNat + 64 < 2 ^ 32) (hinput : ∀ k < len.toNat, input k = input' k) :
    ∃ d, md5Fast stack input len = some d ∧ md5Fast stack' input' len = some d := by
  obtain ⟨d, hd, hdigest⟩ := md5Fast_digest stack input len hlen
  obtain ⟨d', hd', hdigest'⟩ := md5Fast_digest stack' input' len hlen
  rw [← load_congr hinput, ← hdigest] at hdigest'
  exact ⟨d, hd, Vector.toList_inj.1 hdigest' ▸ hd'⟩

/-- `MD5Fast` gives every string the message digest of its bytes. -/
theorem md5Fast_is_md5 (stack : Cells UInt8) (message : List UInt8)
    (hlen : message.length < 2 ^ 32 - 64) (input : Cells UInt8)
    (hinput : load input message.length = message) :
    ∃ d, md5Fast stack input (UInt32.ofNat message.length) = some d ∧
      d.toList = digest message := by
  have hlength : (UInt32.ofNat message.length).toNat = message.length := by
    rw [UInt32.toNat_ofNat']
    omega
  obtain ⟨d, hd, hdigest⟩ := md5Fast_digest stack input (UInt32.ofNat message.length) (by omega)
  exact ⟨d, hd, by rw [hdigest, hlength, hinput]⟩

def sampleText : Cells UInt8 := fun i => UInt8.ofNat (7 * i + 1)

/-- One hundred bytes: a whole block and a part of one. -/
theorem md5Fast_is_md5_sample :
    ∃ d, md5Fast (fun _ => 7) sampleText 100 = some d ∧ d.toList = digest (load sampleText 100) :=
  md5Fast_is_md5 (fun _ => 7) (load sampleText 100) (by decide) sampleText rfl

/-- However a string is cut into parts, the updates on them lead to its digest. -/
theorem md5_streaming (buffer stack : Cells UInt8) (chunks : List (Cells UInt8 × UInt32))
    (hchunks : ∀ c ∈ chunks, c.2.toNat < 2 ^ 32 - 64) (input : Cells UInt8) (len : UInt32)
    (hlen : len.toNat < 2 ^ 32 - 64)
    (hinput : load input len.toNat = chunks.flatMap fun c => load c.1 c.2.toNat) :
    ∃ d, md5Stream buffer chunks = some d ∧ md5Fast stack input len = some d := by
  obtain ⟨d, hd, hdigest⟩ := md5Stream_digest buffer chunks
    fun c hc => by have := hchunks c hc; omega
  obtain ⟨d', hd', hdigest'⟩ := md5Fast_digest stack input len (by omega)
  rw [hinput, ← hdigest] at hdigest'
  exact ⟨d, hd, Vector.toList_inj.1 hdigest' ▸ hd'⟩

/-- The same bytes in three parts, cut inside the first block and inside the second. -/
theorem md5_streaming_sample :
    ∃ d, md5Stream (fun _ => 9) [(sampleText, 30), (fun k => sampleText (30 + k), 50),
        (fun k => sampleText (80 + k), 20)] = some d ∧
      md5Fast (fun _ => 7) sampleText 100 = some d :=
  md5_streaming (fun _ => 9) (fun _ => 7) [(sampleText, 30), (fun k => sampleText (30 + k), 50),
    (fun k => sampleText (80 + k), 20)] (by decide) sampleText 100 (by decide) rfl

end SVpn.Md5Digest
