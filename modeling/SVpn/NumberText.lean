import SVpn.StatusLine

set_option autoImplicit false

/-!
The text `fillnum` and `fillnum64` write. A window of `len` bytes has a comma in every
fourth place and holds the numbers below ten to the power of the other places.
-/
namespace SVpn.NumberText
open SVpn.Region SVpn.OutputInfo SVpn.NumberColumns SVpn.StatusLine

def digitByte (d : ℕ) : UInt8 := UInt8.ofNat (48 + d)

def IsDigit (b : UInt8) : Prop := 48 ≤ b ∧ b ≤ 57

/-- The digits of a number, the first one first and none for zero. -/
def decimal (n : ℕ) : List UInt8 := (Nat.digits 10 n).reverse.map digitByte

def dropMarks (text : List UInt8) : List UInt8 := text.filter fun b => b ≠ 32 ∧ b ≠ 44

/-- A number shown in `len` bytes, right-aligned and with a comma between its digits in
every fourth place from the right. -/
structure Shows (len n : ℕ) (text : List UInt8) : Prop where
  length : text.length = len
  zero : n = 0 → text = List.replicate len 32
  aligned : ∃ k shown, text = List.replicate k 32 ++ shown ∧ 32 ∉ shown
  digits : dropMarks text = decimal n
  leading : ∀ b ∈ (dropMarks text).head?, b ≠ 48
  comma : ∀ before b after, text = before ++ b :: after →
    (b = 44 ↔ after.length % 4 = 3 ∧ ∃ b' ∈ before, IsDigit b')
  read : (dropMarks text).foldl readDigit 0 = n

theorem digitPlaces_marked (place left : ℕ) :
    digitPlaces marked place left + (place + left) / 4 = left + place / 4 := by
  induction left generalizing place with
  | zero => simp [digitPlaces]
  | succ left ih =>
    have hrest := ih (place + 1)
    rw [digitPlaces]
    by_cases hmark : marked place = true
    · rw [if_pos hmark]
      have hplace : place % 4 = 3 := of_decide_eq_true hmark
      omega
    · rw [if_neg hmark]
      have hplace : place % 4 ≠ 3 := fun h => hmark (decide_eq_true h)
      omega

theorem digitPlaces_window (len : ℕ) : digitPlaces marked 0 len = len - len / 4 := by
  have hplaces := digitPlaces_marked 0 len
  omega

theorem toNat_digitByte {d : ℕ} (h : d < 10) : (digitByte d).toNat = 48 + d := toNat_digit h

theorem isDigit_digitByte {d : ℕ} (h : d < 10) : IsDigit (digitByte d) := by
  rw [IsDigit, UInt8.le_iff_toNat_le, UInt8.le_iff_toNat_le, toNat_digitByte h]
  change 48 ≤ 48 + d ∧ 48 + d ≤ 57
  omega

theorem IsDigit.ne {b : UInt8} (h : IsDigit b) : b ≠ 32 ∧ b ≠ 44 := by
  constructor
  · rintro rfl
    exact absurd h.1 (by decide)
  · rintro rfl
    exact absurd h.1 (by decide)

theorem glyph_eq_blank {c : Column} (h : ∀ d, c = .digit d → d < 10) : glyph c = 32 ↔ c = .blank := by
  cases c with
  | blank => simp [glyph]
  | mark => simp [glyph]
  | digit d =>
    have hne := (isDigit_digitByte (h d rfl)).ne.1
    exact ⟨fun heq => absurd heq hne, fun heq => by cases heq⟩

theorem glyph_eq_comma {c : Column} (h : ∀ d, c = .digit d → d < 10) : glyph c = 44 ↔ c = .mark := by
  cases c with
  | blank => simp [glyph]
  | mark => simp [glyph]
  | digit d =>
    have hne := (isDigit_digitByte (h d rfl)).ne.2
    exact ⟨fun heq => absurd heq hne, fun heq => by cases heq⟩

theorem isDigit_glyph {c : Column} (h : ∀ d, c = .digit d → d < 10) :
    IsDigit (glyph c) ↔ ∃ d, c = .digit d := by
  cases c with
  | blank => exact ⟨fun hdigit => absurd rfl hdigit.ne.1, fun ⟨d, hd⟩ => by cases hd⟩
  | mark => exact ⟨fun hdigit => absurd rfl hdigit.ne.2, fun ⟨d, hd⟩ => by cases hd⟩
  | digit d => exact ⟨fun _ => ⟨d, rfl⟩, fun _ => isDigit_digitByte (h d rfl)⟩

theorem dropMarks_glyph (cs : List Column) (h : ∀ d, .digit d ∈ cs → d < 10) :
    dropMarks (cs.map glyph) = (cs.filterMap digitOf).map digitByte := by
  induction cs with
  | nil => rfl
  | cons c cs ih =>
    have hrest := ih fun d hd => h d (List.mem_cons_of_mem c hd)
    cases c with
    | blank => exact hrest
    | mark => exact hrest
    | digit d =>
      have hkeep := (isDigit_digitByte (h d List.mem_cons_self)).ne
      change List.filter _ (digitByte d :: cs.map glyph) = _
      rw [List.filter_cons, if_pos (decide_eq_true hkeep)]
      exact congrArg (digitByte d :: ·) hrest

/-- The first digit of a number is not zero. -/
theorem decimal_leading (n : ℕ) : ∀ b ∈ (decimal n).head?, b ≠ 48 := by
  intro b hb
  rw [decimal, List.head?_map, List.head?_reverse] at hb
  obtain ⟨d, hd, rfl⟩ := Option.map_eq_some_iff.1 hb
  have hmem := List.mem_of_getLast? hd
  have hn : n ≠ 0 := Nat.digits_ne_nil_iff_ne_zero.1 (List.ne_nil_of_mem hmem)
  have hlast := Nat.getLast_digit_ne_zero 10 hn
  rw [List.getLast?_eq_some_getLast (List.ne_nil_of_mem hmem)] at hd
  rw [Option.some.inj hd] at hlast
  intro hzero
  have hbyte := toNat_digitByte (Nat.digits_lt_base (by omega) hmem)
  rw [hzero] at hbyte
  change 48 = 48 + d at hbyte
  omega

theorem windowText_comma {len n : ℕ} (hfits : n < 10 ^ digitPlaces marked 0 len)
    {before after : List UInt8} {b : UInt8} (h : windowText len n = before ++ b :: after) :
    b = 44 ↔ after.length % 4 = 3 ∧ ∃ b' ∈ before, IsDigit b' := by
  have hlt : ∀ c ∈ columns 10 marked 0 len n, ∀ d, c = .digit d → d < 10 := fun _ => digit_lt_ten
  obtain ⟨left, rest, hcolumns, rfl, hrest⟩ := List.map_eq_append_iff.1 h
  obtain ⟨c, right, rfl, rfl, rfl⟩ := List.map_eq_cons_iff.1 hrest
  rw [hcolumns] at hlt
  have hdigit : (∃ b' ∈ left.map glyph, IsDigit b') ↔ ∃ d, .digit d ∈ left := by
    constructor
    · rintro ⟨b', hb', his⟩
      obtain ⟨c', hc', rfl⟩ := List.mem_map.1 hb'
      obtain ⟨d, rfl⟩ := (isDigit_glyph (hlt c' (List.mem_append_left _ hc'))).1 his
      exact ⟨d, hc'⟩
    · rintro ⟨d, hd⟩
      have hten := hlt _ (List.mem_append_left _ hd) d rfl
      exact ⟨_, List.mem_map_of_mem hd, isDigit_digitByte hten⟩
  have hplace : marked (0 + right.length) = true ↔ (right.map glyph).length % 4 = 3 := by
    rw [List.length_map, Nat.zero_add]
    exact decide_eq_true_iff
  rw [glyph_eq_comma (hlt c (by simp)), mark_iff (by omega) hfits hcolumns, hplace, hdigit]

theorem windowText_aligned (len n : ℕ) :
    ∃ k shown, windowText len n = List.replicate k 32 ++ shown ∧ 32 ∉ shown := by
  obtain ⟨k, shown, hcolumns, hblank⟩ := @columns_blanks 10 marked 0 len n
  refine ⟨k, shown.map glyph, ?_, ?_⟩
  · rw [windowText, hcolumns, List.map_append, List.map_replicate]
    rfl
  · intro hmem
    obtain ⟨c, hc, hglyph⟩ := List.mem_map.1 hmem
    have hcolumn : c ∈ columns 10 marked 0 len n := by
      rw [hcolumns]
      exact List.mem_append_right _ hc
    rw [glyph_eq_blank (digit_lt_ten hcolumn)] at hglyph
    exact hblank (hglyph ▸ hc)

theorem windowText_shows {len n : ℕ} (h : n < 10 ^ (len - len / 4)) :
    Shows len n (windowText len n) := by
  have hfits : n < 10 ^ digitPlaces marked 0 len := by
    rw [digitPlaces_window]
    exact h
  have hdigits : dropMarks (windowText len n) = decimal n := by
    rw [windowText, dropMarks_glyph _ fun d hd => digit_lt 10 marked (by omega) hd,
      digits_columns (by omega) hfits]
    rfl
  constructor
  · rw [windowText, List.length_map, length_columns]
  · rintro rfl
    rw [windowText, columns_zero, List.map_replicate]
    rfl
  · exact windowText_aligned len n
  · exact hdigits
  · rw [hdigits]
    exact decimal_leading n
  · exact fun before b after htext => windowText_comma hfits htext
  · rw [dropMarks, read_windowText, Nat.mod_eq_of_lt hfits]

/-- A number that fits its window is written there readably and nothing else is
written, by both functions. -/
theorem fillnum_round_trip :
    (∀ (len : ℕ) (num : ℤ), 0 ≤ num → num < 10 ^ (len - len / 4) →
      ∃ text, Shows len num.toNat text ∧ ∀ (s : Cells UInt8) (off : ℕ),
        fillnum s off len num = store s off text ∧ fillnum64 s off len num = store s off text) ∧
    ∀ (s : Cells UInt8) (off len : ℕ) (num : ℤ), fillnum s off len num = fillnum64 s off len num := by
  constructor
  · intro len num hnum hfits
    have hshort : num.toNat < 10 ^ (len - len / 4) := by
      rw [← Nat.cast_lt (α := ℤ), Int.toNat_of_nonneg hnum]
      exact_mod_cast hfits
    refine ⟨windowText len num.toNat, windowText_shows hshort, fun s off => ?_⟩
    rw [fillnum_eq]
    exact ⟨fillnum64_store s off len hnum, fillnum64_store s off len hnum⟩
  · exact fillnum_eq

/-- The largest number of a window of nine. -/
theorem fillnum_round_trip_full : ∃ text, Shows 9 9999999 text ∧ ∀ (s : Cells UInt8) (off : ℕ),
    fillnum s off 9 9999999 = store s off text ∧ fillnum64 s off 9 9999999 = store s off text :=
  fillnum_round_trip.1 9 9999999 (by omega) (by decide)

example : windowText 9 1000200 = chars "1,000,200" ∧ windowText 9 20 = chars "       20" := by decide

end SVpn.NumberText
