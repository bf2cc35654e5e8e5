import SVpn.BoundedLoop
import SVpn.Md5Steps

set_option autoImplicit false

/-!
Where `md5Update` reads and writes. Its loop tests `i + 64` in 32 bits: near the top of
the type the sum wraps and passes the test, and the loop goes on past the input for ever.
-/
namespace SVpn.Md5Blocks
open SVpn.Region SVpn.BoundedLoop SVpn.Md5 SVpn.Md5Steps

/-- The index of the loop, and where the blocks of the input it has compressed start. -/
structure BlockState where
  i : UInt32
  starts : List UInt32

def blockTurn (inputlen : UInt32) (s : BlockState) : Turn BlockState :=
  if s.i + 64 ≤ inputlen then .again ⟨s.i + 64, s.starts ++ [s.i]⟩ else .done s

/-- What an update does: whether it fills and compresses the buffer, which blocks of the
input it compresses after it, and its last copy, into the buffer at `dest`. -/
structure Update where
  buffered : Bool
  starts : List UInt32
  dest : UInt32
  source : UInt32
  bytes : UInt32

inductive Updates (count : Vector UInt32 2) (inputlen : UInt32) : Update → Prop where
  | full {s : BlockState} (hlen : inputlen ≥ 64 - index count)
    (run : Runs (blockTurn inputlen) ⟨64 - index count, []⟩ s) :
    Updates count inputlen ⟨true, s.starts, 0, s.i, inputlen - s.i⟩
  | short (hlen : ¬ inputlen ≥ 64 - index count) :
    Updates count inputlen ⟨false, [], index count, 0, inputlen⟩

/-- The blocks and the copied bytes are inside the input, as many blocks are compressed
as there are, and the copy stays within the buffer. -/
structure Inside (count : Vector UInt32 2) (inputlen : UInt32) (u : Update) : Prop where
  block : ∀ i ∈ u.starts, i.toNat + 64 ≤ inputlen.toNat
  calls : u.buffered.toNat + u.starts.length = ((index count).toNat + inputlen.toNat) / 64
  source : u.source.toNat + u.bytes.toNat = inputlen.toNat
  dest : u.dest.toNat + u.bytes.toNat ≤ 64

def Contained (count : Vector UInt32 2) (inputlen : UInt32) : Prop :=
  (∃ u, Updates count inputlen u) ∧ ∀ u, Updates count inputlen u → Inside count inputlen u

/-- How far the last index before the wrap is from 2 ^ 32. -/
def room (count : Vector UInt32 2) : ℕ :=
  if (index count).toNat = 0 then 64 else (index count).toNat

def Aligned (count : Vector UInt32 2) (i : UInt32) : Prop :=
  (i.toNat + (index count).toNat) % 64 = 0

variable {count : Vector UInt32 2} {inputlen i : UInt32}

theorem room_pos (count : Vector UInt32 2) : 0 < room count ∧ room count ≤ 64 := by
  have hindex := index_lt count
  rw [room]
  split_ifs <;> omega

theorem Aligned.room_le (h : Aligned count i) : i.toNat + room count ≤ 2 ^ 32 := by
  have hi := i.toNat_lt
  have hindex := index_lt count
  rw [Aligned] at h
  rw [room]
  split_ifs <;> omega

theorem toNat_next (i : UInt32) : (i + 64).toNat = (i.toNat + 64) % 2 ^ 32 := UInt32.toNat_add i 64

theorem Aligned.next (h : Aligned count i) : Aligned count (i + 64) := by
  rw [Aligned] at h ⊢
  rw [toNat_next]
  omega

theorem aligned_partlen (count : Vector UInt32 2) : Aligned count (64 - index count) := by
  have hindex := index_lt count
  rw [Aligned, toNat_partlen]
  omega

theorem Aligned.toNat_next (h : Aligned count i) (hroom : inputlen.toNat + room count < 2 ^ 32)
    (hi : i.toNat ≤ inputlen.toNat) : (i + 64).toNat = i.toNat + 64 := by
  rw [Md5Blocks.toNat_next]
  rw [Aligned] at h
  rw [room] at hroom
  split_ifs at hroom <;> omega

theorem loop_blocks (hroom : inputlen.toNat + room count < 2 ^ 32) (n : ℕ) (starts : List UInt32)
    (halign : Aligned count i) (hi : i.toNat ≤ inputlen.toNat)
    (hn : (inputlen.toNat - i.toNat) / 64 = n) :
    ∃ s, (∀ fuel, n < fuel → loop (blockTurn inputlen) fuel ⟨i, starts⟩ = some s) ∧
      s.i.toNat = i.toNat + 64 * n ∧ s.starts.length = starts.length + n ∧
      ∀ k ∈ s.starts, k ∈ starts ∨ k.toNat + 64 ≤ inputlen.toNat := by
  have hnext := halign.toNat_next hroom hi
  induction n generalizing i starts with
  | zero =>
    have hstop : ¬ i + 64 ≤ inputlen := by
      rw [UInt32.le_iff_toNat_le, hnext]
      omega
    refine ⟨⟨i, starts⟩, ?_, rfl, rfl, fun k hk => .inl hk⟩
    intro fuel hfuel
    obtain ⟨fuel, rfl⟩ := Nat.exists_eq_add_one_of_ne_zero (Nat.ne_of_gt hfuel)
    rw [loop, blockTurn, if_neg hstop]
  | succ n ih =>
    have hle : i.toNat + 64 ≤ inputlen.toNat := by omega
    have hgo : i + 64 ≤ inputlen := by
      rw [UInt32.le_iff_toNat_le, hnext]
      exact hle
    have hin : (i + 64).toNat ≤ inputlen.toNat := by rw [hnext]; exact hle
    obtain ⟨s, hloop, hindex, hlength, hstarts⟩ := ih (starts ++ [i]) halign.next hin (by omega)
      (halign.next.toNat_next hroom hin)
    refine ⟨s, ?_, by omega, ?_, ?_⟩
    · intro fuel hfuel
      obtain ⟨fuel, rfl⟩ := Nat.exists_eq_add_one_of_ne_zero (Nat.ne_of_gt (Nat.zero_lt_of_lt hfuel))
      rw [loop, blockTurn, if_pos hgo]
      exact hloop fuel (by omega)
    · rw [hlength, List.length_append, List.length_singleton]
      omega
    · intro k hk
      rcases hstarts k hk with hmem | hinside
      · rcases List.mem_append.1 hmem with hmem | hlast
        · exact .inl hmem
        · rw [List.mem_singleton.1 hlast]
          exact .inr hle
      · exact .inr hinside

theorem not_runs_blocks (hroom : ¬ inputlen.toNat + room count < 2 ^ 32) {s t : BlockState}
    (hs : Aligned count s.i) : ¬ Runs (blockTurn inputlen) s t := by
  apply not_runs (P := fun s => Aligned count s.i) _ hs
  intro s hs
  have hgo : s.i + 64 ≤ inputlen := by
    have hwrap := hs.next.room_le
    rw [UInt32.le_iff_toNat_le]
    omega
  exact ⟨⟨s.i + 64, s.starts ++ [s.i]⟩, if_pos hgo, hs.next⟩

theorem le_partlen_iff : inputlen ≥ 64 - index count ↔ 64 ≤ (index count).toNat + inputlen.toNat := by
  have hindex := index_lt count
  rw [ge_iff_le, UInt32.le_iff_toNat_le, toNat_partlen]
  omega

theorem loop_partlen (hroom : inputlen.toNat + room count < 2 ^ 32)
    (hlen : inputlen ≥ 64 - index count) :
    ∃ s, loop (blockTurn inputlen) (blockFuel inputlen) ⟨64 - index count, []⟩ = some s ∧
      Inside count inputlen ⟨true, s.starts, 0, s.i, inputlen - s.i⟩ := by
  have hindex := index_lt count
  have hpart := toNat_partlen count
  rw [le_partlen_iff] at hlen
  obtain ⟨s, hloop, hi, hlength, hstarts⟩ := loop_blocks hroom _ [] (aligned_partlen count)
    (by omega) rfl
  rw [hpart] at hloop hi hlength
  have hrest : (inputlen - s.i).toNat = inputlen.toNat - s.i.toNat :=
    UInt32.toNat_sub_of_le _ _ (UInt32.le_iff_toNat_le.2 (by omega))
  refine ⟨s, hloop _ (by rw [blockFuel]; omega), ?_, ?_, ?_, ?_⟩
  · intro k hk
    rcases hstarts k hk with hnil | hinside
    · exact absurd hnil List.not_mem_nil
    · exact hinside
  · rw [hlength, List.length_nil]
    change 1 + _ = _
    omega
  · change s.i.toNat + (inputlen - s.i).toNat = _
    omega
  · change 0 + (inputlen - s.i).toNat ≤ 64
    omega

theorem inside_short (hlen : ¬ inputlen ≥ 64 - index count) :
    Inside count inputlen ⟨false, [], index count, 0, inputlen⟩ := by
  rw [le_partlen_iff] at hlen
  constructor
  · exact fun i hi => absurd hi List.not_mem_nil
  · change 0 = _
    omega
  · exact Nat.zero_add _
  · change (index count).toNat + inputlen.toNat ≤ 64
    omega

theorem contained_of_room (hroom : inputlen.toNat + room count < 2 ^ 32) :
    Contained count inputlen := by
  by_cases hlen : inputlen ≥ 64 - index count
  · obtain ⟨s, hloop, hinside⟩ := loop_partlen hroom hlen
    have hrun := runs_of_loop hloop
    refine ⟨⟨_, .full hlen hrun⟩, fun u hu => ?_⟩
    cases hu with
    | full _ run =>
      obtain rfl := run.unique hrun
      exact hinside
    | short hshort => exact absurd hlen hshort
  · refine ⟨⟨_, .short hlen⟩, fun u hu => ?_⟩
    cases hu with
    | full hfull run => exact absurd hfull hlen
    | short _ => exact inside_short hlen

theorem room_of_updates {u : Update} (h : Updates count inputlen u) :
    inputlen.toNat + room count < 2 ^ 32 := by
  cases h with
  | full hlen run =>
    by_contra hroom
    refine not_runs_blocks hroom ?_ run
    exact aligned_partlen count
  | short hlen =>
    have hroom := room_pos count
    rw [le_partlen_iff] at hlen
    omega

/-- An update ends inside its arrays exactly if its input leaves room below 2 ^ 32 for the
bytes that wait in the buffer, and for a block if there are none. -/
theorem md5Update_contained_iff (count : Vector UInt32 2) (inputlen : UInt32) :
    Contained count inputlen ↔ inputlen.toNat + room count < 2 ^ 32 :=
  ⟨fun ⟨⟨_, hu⟩, _⟩ => room_of_updates hu, contained_of_room⟩

/-- With nothing in the buffer the longest input is never left. -/
theorem longest_not_contained : ¬ Contained #v[0, 0] 0xFFFFFFFF :=
  fun ⟨⟨_, hu⟩, _⟩ => absurd (room_of_updates hu) (by decide)

def compressAt (input : Cells UInt8) (state : Vector UInt32 4) (i : UInt32) : Vector UInt32 4 :=
  md5Transform state fun k => input (i.toNat + k)

def filled (context : Md5Ctx) (input : Cells UInt8) : Cells UInt8 :=
  store context.buffer (index context.count).toNat (load input (64 - index context.count).toNat)

def Update.apply (u : Update) (context : Md5Ctx) (input : Cells UInt8) (inputlen : UInt32) : Md5Ctx :=
  { count := addBits context.count inputlen
    state := u.starts.foldl (compressAt input)
      (if u.buffered then md5Transform context.state (filled context input) else context.state)
    buffer := store (if u.buffered then filled context input else context.buffer) u.dest.toNat
      (load (fun k => input (u.source.toNat + k)) u.bytes.toNat) }

theorem blockLoop_eq_loop (input : Cells UInt8) (inputlen : UInt32) (fuel : ℕ) (i : UInt32)
    (starts : List UInt32) (state : Vector UInt32 4) :
    blockLoop input inputlen fuel i (starts.foldl (compressAt input) state) =
      (loop (blockTurn inputlen) fuel ⟨i, starts⟩).map fun s =>
        (s.i, s.starts.foldl (compressAt input) state) := by
  induction fuel generalizing i starts with
  | zero => rfl
  | succ fuel ih =>
    rw [blockLoop, loop, blockTurn]
    by_cases hgo : i + 64 ≤ inputlen
    · have hstarts : md5Transform (starts.foldl (compressAt input) state)
          (fun k => input (i.toNat + k)) = (starts ++ [i]).foldl (compressAt input) state := by
        rw [List.foldl_append]
        rfl
      rw [if_pos hgo, if_pos hgo, hstarts]
      exact ih (i + 64) (starts ++ [i])
    · rw [if_neg hgo, if_neg hgo]
      rfl

theorem md5Update_full {context : Md5Ctx} (input : Cells UInt8)
    (hlen : inputlen ≥ 64 - index context.count) :
    md5Update context input inputlen =
      (loop (blockTurn inputlen) (blockFuel inputlen) ⟨64 - index context.count, []⟩).map fun s =>
        Update.apply ⟨true, s.starts, 0, s.i, inputlen - s.i⟩ context input inputlen := by
  have hloop := blockLoop_eq_loop input inputlen (blockFuel inputlen) (64 - index context.count) []
    (md5Transform context.state (filled context input))
  rw [List.foldl_nil] at hloop
  unfold md5Update
  simp only [hlen, if_true]
  change Option.map _ (blockLoop _ _ _ _ (md5Transform context.state (filled context input))) = _
  rw [hloop, Option.map_map]
  rfl

theorem md5Update_short {context : Md5Ctx} (input : Cells UInt8)
    (hlen : ¬ inputlen ≥ 64 - index context.count) :
    md5Update context input inputlen =
      some (Update.apply ⟨false, [], index context.count, 0, inputlen⟩ context input inputlen) := by
  have hsource : (fun k => input ((0 : UInt32).toNat + k)) = input := by
    funext k
    exact congrArg input (Nat.zero_add k)
  unfold md5Update Update.apply
  simp only [hlen, if_false, hsource]
  rfl

/-- The update of the model has a result exactly if it comes to an end, and it is the
context that the update leaves. -/
theorem md5Update_iff (context context' : Md5Ctx) (input : Cells UInt8) (inputlen : UInt32) :
    md5Update context input inputlen = some context' ↔
      ∃ u, Updates context.count inputlen u ∧ context' = u.apply context input inputlen := by
  by_cases hlen : inputlen ≥ 64 - index context.count
  · rw [md5Update_full input hlen, Option.map_eq_some_iff]
    constructor
    · rintro ⟨s, hloop, rfl⟩
      exact ⟨_, .full hlen (runs_of_loop hloop), rfl⟩
    · rintro ⟨u, hu, rfl⟩
      obtain ⟨s, hloop, -⟩ := loop_partlen (room_of_updates hu) hlen
      refine ⟨s, hloop, ?_⟩
      cases hu with
      | full _ run => rw [run.unique (runs_of_loop hloop)]
      | short hshort => exact absurd hlen hshort
  · rw [md5Update_short input hlen, Option.some.injEq]
    constructor
    · rintro rfl
      exact ⟨_, .short hlen, rfl⟩
    · rintro ⟨u, hu, rfl⟩
      cases hu with
      | full hfull run => exact absurd hfull hlen
      | short _ => rfl

end SVpn.Md5Blocks
