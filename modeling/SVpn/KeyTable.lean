import SVpn.Crypt

set_option autoImplicit false

/-!
What `buildTable` returns. The shuffle keeps the encoding table injective, so the
search for `identity` ends inside the table and the decoding loop fills every slot.
-/
namespace SVpn.KeyTable
open SVpn.ArrayPermutation SVpn.Region SVpn.Crypt

@[simp] theorem slot_byteOf (i : Fin 256) : slot (byteOf i) = i := by
  apply Fin.ext
  have hi := i.isLt
  change (UInt8.ofNat i.val).toNat = i.val
  rw [UInt8.toNat_ofNat']
  omega

theorem slot_injective : Function.Injective slot := fun _ _ h => UInt8.toFin_inj.1 h

@[simp] theorem byteOf_slot (b : UInt8) : byteOf (slot b) = b :=
  slot_injective (slot_byteOf (slot b))

theorem byteOf_injective : Function.Injective byteOf :=
  Function.LeftInverse.injective slot_byteOf

theorem surjective_of_injective {v : Vector UInt8 256} (h : Function.Injective (entry v)) :
    Function.Surjective (entry v) := by
  intro b
  obtain ⟨i, hi⟩ := Finite.injective_iff_surjective.1 (slot_injective.comp h) (slot b)
  exact ⟨i, slot_injective hi⟩

theorem shuffleTurn_snd (s : Digest × Vector UInt8 256) (i : Fin 256) :
    ∃ j, (shuffleTurn s i).2 = exchange s.2 j i := ⟨_, rfl⟩

theorem shuffleTurns_injective (is : List (Fin 256)) (s : Digest × Vector UInt8 256)
    (h : Function.Injective (entry s.2)) :
    Function.Injective (entry (is.foldl shuffleTurn s).2) := by
  induction is generalizing s with
  | nil => exact h
  | cons i is ih =>
    apply ih
    obtain ⟨j, hj⟩ := shuffleTurn_snd s i
    rw [hj]
    exact exchange_injective h j i

theorem shuffle_injective (encode : Vector UInt8 256) (passmd5 : Digest) :
    Function.Injective (entry (shuffle encode passmd5)) := by
  unfold shuffle
  apply shuffleTurns_injective
  have hinit : entry (fill id byteOf encode (List.finRange 256)) = byteOf :=
    funext (entry_fill_finRange id Function.injective_id byteOf encode)
  rw [hinit]
  exact byteOf_injective

theorem shuffle_congr (v w : Vector UInt8 256) (passmd5 : Digest) :
    shuffle v passmd5 = shuffle w passmd5 := by
  unfold shuffle
  rw [fill_finRange_congr id Function.injective_id byteOf v w]

theorem search_shuffle_lt (encode : Vector UInt8 256) (passmd5 : Digest) (identity : UInt8) :
    search (shuffle encode passmd5) identity < 256 := by
  obtain ⟨i, hi⟩ := surjective_of_injective (shuffle_injective encode passmd5) identity
  exact search_lt i hi

/-- The exchange brings `identity` to the header byte, also when it is there already. -/
theorem fixIdentity_eq {encode : Vector UInt8 256} {identity : UInt8}
    (hinj : Function.Injective (entry encode)) (hlt : search encode identity < 256) :
    ∃ fixed, fixIdentity encode identity = some fixed ∧ Function.Injective (entry fixed) ∧
      entry fixed (slot ipMagicHeader) = identity := by
  refine ⟨exchange encode (slot ipMagicHeader) ⟨search encode identity, hlt⟩, ?_, ?_, ?_⟩
  · simp [fixIdentity, hlt]
  · exact exchange_injective hinj _ _
  · rw [entry_exchange, Function.comp_apply, Equiv.swap_apply_left]
    exact entry_search hlt

/-- A code table whose two halves undo each other, with the header byte at `identity`. -/
structure Key (identity : UInt8) where
  table : CodeTable
  decode_encode : ∀ b, table.decodeByte (table.encodeByte b) = b
  encode_decode : ∀ b, table.encodeByte (table.decodeByte b) = b
  encode_header : table.encodeByte ipMagicHeader = identity

theorem fixIdentity_shuffle (encode : Vector UInt8 256) (passmd5 : Digest) (identity : UInt8) :
    ∃ fixed, fixIdentity (shuffle encode passmd5) identity = some fixed ∧
      Function.Injective (entry fixed) ∧ entry fixed (slot ipMagicHeader) = identity :=
  fixIdentity_eq (shuffle_injective encode passmd5) (search_shuffle_lt encode passmd5 identity)

theorem entry_genDecode {encode : Vector UInt8 256} (h : Function.Injective (entry encode))
    (decode : Vector UInt8 256) (i : Fin 256) :
    entry (genDecode encode decode) (slot (entry encode i)) = byteOf i := by
  unfold genDecode
  exact entry_fill_finRange (fun i => slot (entry encode i)) (slot_injective.comp h) byteOf decode i

theorem genDecode_congr {encode : Vector UInt8 256} (h : Function.Injective (entry encode))
    (v w : Vector UInt8 256) : genDecode encode v = genDecode encode w := by
  unfold genDecode
  exact fill_finRange_congr (fun i => slot (entry encode i)) (slot_injective.comp h) byteOf v w

theorem buildTable_of_fixed {ct : CodeTable} {passmd5 : Digest} {identity : UInt8}
    {fixed : Vector UInt8 256} (h : fixIdentity (shuffle ct.encode passmd5) identity = some fixed) :
    buildTable ct passmd5 identity = some ⟨fixed, genDecode fixed ct.decode⟩ :=
  congrArg (Option.map fun encode => CodeTable.mk encode (genDecode encode ct.decode)) h

theorem buildTable_eq (ct : CodeTable) (passmd5 : Digest) (identity : UInt8) :
    ∃ key : Key identity, buildTable ct passmd5 identity = some key.table := by
  obtain ⟨fixed, hfixed, hinj, hheader⟩ := fixIdentity_shuffle ct.encode passmd5 identity
  refine ⟨⟨⟨fixed, genDecode fixed ct.decode⟩, ?_, ?_, hheader⟩, buildTable_of_fixed hfixed⟩
  · intro b
    rw [CodeTable.decodeByte, CodeTable.encodeByte, entry_genDecode hinj, byteOf_slot]
  · intro b
    obtain ⟨i, rfl⟩ := surjective_of_injective hinj b
    rw [CodeTable.encodeByte, CodeTable.decodeByte, entry_genDecode hinj, slot_byteOf]

theorem buildTable_congr (ct ct' : CodeTable) (passmd5 : Digest) (identity : UInt8) :
    buildTable ct passmd5 identity = buildTable ct' passmd5 identity := by
  obtain ⟨fixed, hfixed, hinj, -⟩ := fixIdentity_shuffle ct.encode passmd5 identity
  have hfixed' : fixIdentity (shuffle ct'.encode passmd5) identity = some fixed := by
    rw [← shuffle_congr ct.encode ct'.encode]
    exact hfixed
  rw [buildTable_of_fixed hfixed, buildTable_of_fixed hfixed',
    genDecode_congr hinj ct.decode ct'.decode]

def blank : CodeTable := ⟨Vector.replicate 256 0, Vector.replicate 256 0⟩

def keyTable (passmd5 : Digest) (identity : UInt8) : CodeTable :=
  (buildTable blank passmd5 identity).getD blank

theorem buildTable_keyTable (ct : CodeTable) (passmd5 : Digest) (identity : UInt8) :
    buildTable ct passmd5 identity = some (keyTable passmd5 identity) := by
  obtain ⟨key, hkey⟩ := buildTable_eq ct passmd5 identity
  unfold keyTable
  rw [buildTable_congr blank ct, hkey, Option.getD_some]

/-- The built table as a permutation of the bytes, with the header byte at `identity`. -/
def key (passmd5 : Digest) (identity : UInt8) : Key identity where
  table := keyTable passmd5 identity
  decode_encode := by
    obtain ⟨key, hkey⟩ := buildTable_eq (keyTable passmd5 identity) passmd5 identity
    rw [buildTable_keyTable, Option.some.injEq] at hkey
    exact hkey ▸ key.decode_encode
  encode_decode := by
    obtain ⟨key, hkey⟩ := buildTable_eq (keyTable passmd5 identity) passmd5 identity
    rw [buildTable_keyTable, Option.some.injEq] at hkey
    exact hkey ▸ key.encode_decode
  encode_header := by
    obtain ⟨key, hkey⟩ := buildTable_eq (keyTable passmd5 identity) passmd5 identity
    rw [buildTable_keyTable, Option.some.injEq] at hkey
    exact hkey ▸ key.encode_header

theorem key_table (passmd5 : Digest) (identity : UInt8) :
    (key passmd5 identity).table = keyTable passmd5 identity := rfl

variable {identity : UInt8}

def Key.perm (k : Key identity) : Equiv.Perm UInt8 where
  toFun := k.table.encodeByte
  invFun := k.table.decodeByte
  left_inv := k.decode_encode
  right_inv := k.encode_decode

theorem Key.map_decode_encode (k : Key identity) (bytes : List UInt8) :
    (bytes.map k.table.encodeByte).map k.table.decodeByte = bytes := by
  simp [Function.comp_def, k.decode_encode]

theorem Key.load_decrypt_encrypt (k : Key identity) (input scratch output : Cells UInt8) (len : ℕ) :
    load (decrypt k.table (encrypt k.table input scratch len) output len) len = load input len := by
  unfold decrypt encrypt
  rw [load_transform, load_transform, k.map_decode_encode]

theorem Key.load_encrypt_decrypt (k : Key identity) (input scratch output : Cells UInt8) (len : ℕ) :
    load (encrypt k.table (decrypt k.table input scratch len) output len) len = load input len := by
  unfold decrypt encrypt
  rw [load_transform, load_transform]
  simp [Function.comp_def, k.encode_decode]

/-- `BuildTable` gives one pair of mutually inverse permutations, from any memory
and with its search ending inside the table, so the two ciphers undo each other. -/
theorem buildTable_inverse_pair (passmd5 : Digest) (identity : UInt8) :
    ∃ ct : CodeTable,
      (∀ prior : CodeTable, search (shuffle prior.encode passmd5) identity < 256 ∧
        buildTable prior passmd5 identity = some ct) ∧
      Function.Bijective ct.encodeByte ∧
      Function.LeftInverse ct.decodeByte ct.encodeByte ∧
      Function.RightInverse ct.decodeByte ct.encodeByte ∧
      ∀ (b scratch output : Cells UInt8) (len : ℕ),
        load (decrypt ct (encrypt ct b scratch len) output len) len = load b len ∧
        load (encrypt ct (decrypt ct b scratch len) output len) len = load b len := by
  let k := key passmd5 identity
  refine ⟨k.table, ?_, k.perm.bijective, k.decode_encode, k.encode_decode, ?_⟩
  · intro prior
    exact ⟨search_shuffle_lt prior.encode passmd5 identity, buildTable_keyTable prior passmd5 identity⟩
  · intro b scratch output len
    exact ⟨k.load_decrypt_encrypt b scratch output len, k.load_encrypt_decrypt b scratch output len⟩

end SVpn.KeyTable
