import Mathlib.Algebra.Order.Ring.Int
import Mathlib.Data.List.TakeWhile
import SVpn.Region

set_option autoImplicit false

/-!
The C input functions a line-oriented reader uses, on the bytes a stream has left:
`fscanf` with `%s` and with the integer conversions, and `fgets`. A conversion that
fails for want of input and one that fails to match both leave no value.
-/
namespace SVpn.Stdio
open SVpn.Region

abbrev Stream := List UInt8

def newline : UInt8 := 10

def isSpace (c : UInt8) : Bool := c = 32 || (9 ≤ c && c ≤ 13)

def isDigit (c : UInt8) : Bool := 48 ≤ c && c ≤ 57

def toLower (c : UInt8) : UInt8 := if 65 ≤ c && c ≤ 90 then c + 32 else c

structure Scanned (α : Type) where
  value : Option α
  rest : Stream

/-- `fscanf(fin, "%s", ..)`. -/
def scanWord (fin : Stream) : Scanned (List UInt8) :=
  match fin.dropWhile isSpace with
  | [] => ⟨none, []⟩
  | fin => ⟨some (fin.takeWhile fun c => !isSpace c), fin.dropWhile fun c => !isSpace c⟩

def digitsValue (digits : List UInt8) : ℕ :=
  digits.foldl (fun n c => 10 * n + (c.toNat - 48)) 0

/-- The end of `long` that a number beyond it is converted to. -/
def saturate (n : ℤ) : ℤ := max (-2 ^ 63) (min (2 ^ 63 - 1) n)

def scanDigits (negative : Bool) (fin : Stream) : Scanned ℤ :=
  let digits := fin.takeWhile isDigit
  let rest := fin.dropWhile isDigit
  if digits = [] then ⟨none, rest⟩
  else
    ⟨some (saturate (if negative then -(digitsValue digits : ℤ) else digitsValue digits)), rest⟩

/-- `fscanf(fin, "%d", ..)`: the number as `strtol` gives it, before it is cut to the width
of its target. -/
def scanInt (fin : Stream) : Scanned ℤ :=
  match fin.dropWhile isSpace with
  | 45 :: fin => scanDigits true fin
  | 43 :: fin => scanDigits false fin
  | fin => scanDigits false fin

/-- `fgets(.., size, fin)`: the bytes it stores before the terminator. -/
def fgets (size : ℕ) (fin : Stream) : Scanned (List UInt8) :=
  match fin with
  | [] => ⟨none, []⟩
  | _ =>
    let line := fin.takeWhile (· ≠ newline) ++ (fin.dropWhile (· ≠ newline)).take 1
    ⟨some (line.take (size - 1)), fin.drop (line.take (size - 1)).length⟩

def putString (m : Cells UInt8) (bytes : List UInt8) : Cells UInt8 := store m 0 (bytes ++ [0])

def cString (size : ℕ) (m : Cells UInt8) : List UInt8 := (load m size).takeWhile (· ≠ 0)

/-- The string that bytes stored with a terminator are: a zero among them ends it. -/
def asString (bytes : List UInt8) : List UInt8 := bytes.takeWhile (· ≠ 0)

/-- `strcasecmp(a, b) == 0`. -/
def strcaseEq (a b : List UInt8) : Bool := a.map toLower = b.map toLower

/-- No byte of the class comes next. -/
def Stops (p : UInt8 → Bool) (fin : Stream) : Prop := ∀ c, fin.head? = some c → p c = false

theorem stops_nil (p : UInt8 → Bool) : Stops p [] := fun _ h => by cases h

theorem stops_cons {p : UInt8 → Bool} {c : UInt8} (h : p c = false) (fin : Stream) :
    Stops p (c :: fin) := by
  intro c' hc'
  cases hc'
  exact h

instance (p : UInt8 → Bool) : ∀ fin : Stream, Decidable (Stops p fin)
  | [] => isTrue (stops_nil p)
  | c :: fin =>
    if h : p c = false then isTrue (stops_cons h fin) else isFalse fun hstops => h (hstops c rfl)

theorem dropWhile_stops {p : UInt8 → Bool} {fin : Stream} (h : Stops p fin) :
    fin.dropWhile p = fin := by
  cases fin with
  | nil => rfl
  | cons c rest => rw [List.dropWhile_cons_of_neg (by simp [h c rfl])]

theorem takeWhile_append_stops {p : UInt8 → Bool} (bytes : List UInt8) {fin : Stream}
    (hstop : Stops p fin) : (bytes ++ fin).takeWhile p = bytes.takeWhile p := by
  induction bytes with
  | nil =>
    cases fin with
    | nil => rfl
    | cons c fin => exact List.takeWhile_cons_of_neg (by simp [hstop c rfl])
  | cons c bytes ih =>
    rw [List.cons_append, List.takeWhile_cons, List.takeWhile_cons, ih]

theorem takeWhile_of_stops {p : UInt8 → Bool} {bytes fin : Stream} (h : ∀ c ∈ bytes, p c = true)
    (hstop : Stops p fin) : (bytes ++ fin).takeWhile p = bytes := by
  rw [takeWhile_append_stops bytes hstop, List.takeWhile_eq_self_iff]
  exact h

theorem dropWhile_of_stops {p : UInt8 → Bool} {bytes fin : Stream} (h : ∀ c ∈ bytes, p c = true)
    (hstop : Stops p fin) : (bytes ++ fin).dropWhile p = fin := by
  rw [List.dropWhile_append_of_pos h, dropWhile_stops hstop]

theorem dropWhile_append_stops {p : UInt8 → Bool} (bytes : List UInt8) {fin : Stream}
    (hstop : Stops p fin) : (bytes ++ fin).dropWhile p = bytes.dropWhile p ++ fin := by
  induction bytes with
  | nil => exact dropWhile_stops hstop
  | cons c bytes ih =>
    rw [List.cons_append, List.dropWhile_cons, List.dropWhile_cons, ih]
    split <;> rfl

def Blank (bytes : List UInt8) : Prop := ∀ c ∈ bytes, isSpace c = true

instance (bytes : List UInt8) : Decidable (Blank bytes) :=
  decidable_of_iff (bytes.all isSpace = true) List.all_eq_true

theorem blank_nil : Blank [] := fun c hc => by cases hc

theorem Blank.append {a b : List UInt8} (ha : Blank a) (hb : Blank b) : Blank (a ++ b) := by
  intro c hc
  exact (List.mem_append.1 hc).elim (ha c) (hb c)

theorem Blank.stops {fin : Stream} (h : Blank fin) : Stops (fun c => !isSpace c) fin := by
  intro c hc
  simp [h c (List.mem_of_mem_head? hc)]

theorem blank_iff_dropWhile {bytes : List UInt8} : Blank bytes ↔ bytes.dropWhile isSpace = [] := by
  rw [List.dropWhile_eq_nil_iff]
  rfl

theorem dropWhile_blank {blank : List UInt8} (h : Blank blank) (fin : Stream) :
    (blank ++ fin).dropWhile isSpace = fin.dropWhile isSpace := List.dropWhile_append_of_pos h

structure Word (bytes : List UInt8) : Prop where
  ne_nil : bytes ≠ []
  visible : ∀ c ∈ bytes, isSpace c = false

instance (bytes : List UInt8) : Decidable (Word bytes) :=
  decidable_of_iff (bytes ≠ [] ∧ bytes.all (fun c => !isSpace c) = true) (by
    simp only [List.all_eq_true, Bool.not_eq_true']
    exact ⟨fun h => ⟨h.1, h.2⟩, fun h => ⟨h.ne_nil, h.visible⟩⟩)

theorem Word.stops {bytes : List UInt8} (h : Word bytes) (fin : Stream) :
    Stops isSpace (bytes ++ fin) := by
  cases bytes with
  | nil => exact absurd rfl h.ne_nil
  | cons c bytes => exact stops_cons (h.visible c List.mem_cons_self) _

theorem scanWord_blank {blank : List UInt8} (hblank : Blank blank) (fin : Stream) :
    scanWord (blank ++ fin) = scanWord fin := by
  unfold scanWord
  rw [List.dropWhile_append_of_pos hblank]

theorem scanWord_word {blank bytes fin : List UInt8} (hblank : Blank blank) (hword : Word bytes)
    (hstop : Stops (fun c => !isSpace c) fin) :
    scanWord (blank ++ (bytes ++ fin)) = ⟨some bytes, fin⟩ := by
  have hskip := dropWhile_stops (hword.stops fin)
  have hvisible : ∀ c ∈ bytes, (!isSpace c) = true := fun c hc => by rw [hword.visible c hc]; rfl
  rw [scanWord_blank hblank, scanWord, hskip]
  cases hbytes : bytes ++ fin with
  | nil => exact absurd (List.append_eq_nil_iff.1 hbytes).1 hword.ne_nil
  | cons c rest =>
    simp only
    rw [← hbytes, takeWhile_of_stops hvisible hstop, dropWhile_of_stops hvisible hstop]

theorem isDigit_iff (c : UInt8) : isDigit c = true ↔ 48 ≤ c.toNat ∧ c.toNat ≤ 57 := by
  simp [isDigit, UInt8.le_iff_toNat_le]

theorem isSpace_iff (c : UInt8) :
    isSpace c = true ↔ c.toNat = 32 ∨ (9 ≤ c.toNat ∧ c.toNat ≤ 13) := by
  simp [isSpace, UInt8.le_iff_toNat_le, ← UInt8.toNat_inj]

theorem isDigit_not_space {c : UInt8} (h : isDigit c = true) : isSpace c = false := by
  rw [isDigit_iff] at h
  rw [← Bool.not_eq_true, isSpace_iff]
  omega

theorem isDigit_not_sign {c : UInt8} (h : isDigit c = true) : c ≠ 45 ∧ c ≠ 43 := by
  rw [isDigit_iff] at h
  constructor <;> rintro rfl <;> simp at h

theorem saturate_of_long {n : ℤ} (h : -2 ^ 63 ≤ n ∧ n < 2 ^ 63) : saturate n = n := by
  unfold saturate
  omega

/-- A number that a `long` holds is read as it is written. -/
theorem scanInt_digits {blank digits fin : List UInt8} (hblank : Blank blank) (hne : digits ≠ [])
    (hdigits : ∀ c ∈ digits, isDigit c = true) (hstop : Stops isDigit fin)
    (hlong : digitsValue digits < 2 ^ 63) :
    scanInt (blank ++ (digits ++ fin)) = ⟨some (digitsValue digits), fin⟩ := by
  have hword : Word digits := ⟨hne, fun c hc => isDigit_not_space (hdigits c hc)⟩
  have hscan : scanDigits false (digits ++ fin) = ⟨some (digitsValue digits), fin⟩ := by
    rw [scanDigits, takeWhile_of_stops hdigits hstop, dropWhile_of_stops hdigits hstop]
    simp [hne, saturate_of_long (show -2 ^ 63 ≤ (digitsValue digits : ℤ) ∧ _ by omega)]
  rw [scanInt, dropWhile_of_stops hblank (hword.stops fin), ← hscan]
  cases digits with
  | nil => exact absurd rfl hne
  | cons c digits =>
    obtain ⟨hminus, hplus⟩ := isDigit_not_sign (hdigits c List.mem_cons_self)
    rw [List.cons_append]
    split
    · rename_i heq
      exact absurd (List.cons.inj heq).1 hminus
    · rename_i heq
      exact absurd (List.cons.inj heq).1 hplus
    · rfl

theorem scanDigits_append (negative : Bool) (bytes : List UInt8) {fin : Stream}
    (hstop : Stops isDigit fin) :
    scanDigits negative (bytes ++ fin) =
      ⟨(scanDigits negative bytes).value, (scanDigits negative bytes).rest ++ fin⟩ := by
  simp only [scanDigits, takeWhile_append_stops bytes hstop, dropWhile_append_stops bytes hstop]
  split_ifs <;> rfl

/-- A number is looked for in the first bytes that are not blank. -/
theorem scanInt_append {bytes fin : List UInt8} (h : ¬ Blank bytes) (hstop : Stops isDigit fin) :
    scanInt (bytes ++ fin) = ⟨(scanInt bytes).value, (scanInt bytes).rest ++ fin⟩ := by
  have hskip : (bytes ++ fin).dropWhile isSpace = bytes.dropWhile isSpace ++ fin := by
    rw [List.dropWhile_append, if_neg (by simpa [blank_iff_dropWhile] using h)]
  have hne : bytes.dropWhile isSpace ≠ [] := fun hnil => h (blank_iff_dropWhile.2 hnil)
  unfold scanInt
  rw [hskip]
  generalize bytes.dropWhile isSpace = visible at hne
  cases visible with
  | nil => exact absurd rfl hne
  | cons c visible =>
    rw [List.cons_append]
    by_cases hminus : c = 45
    · subst hminus
      exact scanDigits_append true visible hstop
    · by_cases hplus : c = 43
      · subst hplus
        exact scanDigits_append false visible hstop
      · have hscan := scanDigits_append false (c :: visible) hstop
        rw [List.cons_append] at hscan
        split
        · rename_i heq
          exact absurd (List.cons.inj heq).1 hminus
        · rename_i heq
          exact absurd (List.cons.inj heq).1 hplus
        · split
          · rename_i heq
            exact absurd (List.cons.inj heq).1 hminus
          · rename_i heq
            exact absurd (List.cons.inj heq).1 hplus
          · exact hscan

/-- What is left after the end of a line. -/
def LineEnd (fin after : Stream) : Prop := (fin = [] ∧ after = []) ∨ fin = newline :: after

theorem LineEnd.stops {fin after : Stream} (h : LineEnd fin after) :
    Stops (fun c => !isSpace c) fin := by
  rcases h with ⟨rfl, -⟩ | rfl
  · exact stops_nil _
  · exact stops_cons rfl after

theorem fgets_line {line fin after : List UInt8} (hline : newline ∉ line) (hend : LineEnd fin after)
    {size : ℕ} (hsize : line.length + 1 < size) : (fgets size (line ++ fin)).rest = after := by
  have hne : ∀ c ∈ line, decide (c ≠ newline) = true := by
    intro c hc
    exact decide_eq_true fun heq => hline (heq ▸ hc)
  rcases hend with ⟨rfl, rfl⟩ | rfl
  · rw [List.append_nil]
    cases line with
    | nil => rfl
    | cons c line =>
      have htake : (c :: line).takeWhile (· ≠ newline) = c :: line := by
        simpa using takeWhile_of_stops hne (stops_nil _)
      have hdrop : (c :: line).dropWhile (· ≠ newline) = [] := by
        simpa using dropWhile_of_stops hne (stops_nil _)
      simp only [fgets, htake, hdrop, List.take_nil, List.append_nil]
      rw [List.take_of_length_le (by omega), List.drop_length]
  · have hstop : Stops (fun c => decide (c ≠ newline)) (newline :: after) := stops_cons rfl after
    cases hall : line ++ newline :: after with
    | nil => simp at hall
    | cons c rest =>
      simp only [fgets]
      rw [← hall, takeWhile_of_stops hne hstop, dropWhile_of_stops hne hstop, List.take_succ_cons,
        List.take_zero, List.take_of_length_le (by rw [List.length_append]; simp; omega)]
      exact (congrArg _ (List.append_cons _ _ _)).trans List.drop_left

theorem Stops.append {p q : UInt8 → Bool} (hpq : ∀ c, q c = true → p c = true)
    {tail fin : Stream} (htail : Stops p tail) (hfin : Stops p fin) : Stops q (tail ++ fin) := by
  intro c hc
  have hp : p c = false := by
    cases tail with
    | nil => exact hfin c hc
    | cons t tail => exact htail c hc
  exact Bool.eq_false_iff.2 fun hq => Bool.false_ne_true (hp.symm.trans (hpq c hq))

theorem LineEnd.blank {fin after : Stream} (h : LineEnd fin after) :
    ∃ sep, Blank sep ∧ fin = sep ++ after := by
  rcases h with ⟨rfl, rfl⟩ | rfl
  · exact ⟨[], blank_nil, rfl⟩
  · refine ⟨[newline], ?_, rfl⟩
    intro c hc
    rw [List.mem_singleton.1 hc]
    rfl

/-- The end of the first line of a text. -/
theorem lineEnd_intercalate (line : List UInt8) (lines : List (List UInt8)) :
    ∃ fin, [newline].intercalate (line :: lines) = line ++ fin ∧
      LineEnd fin ([newline].intercalate lines) := by
  cases lines with
  | nil => exact ⟨[], by rw [List.intercalate_singleton, List.append_nil], .inl ⟨rfl, rfl⟩⟩
  | cons next lines =>
    refine ⟨newline :: [newline].intercalate (next :: lines), ?_, .inr rfl⟩
    rw [List.intercalate_cons_cons, List.append_assoc]
    rfl

theorem strcaseEq_congr {a b : List UInt8} (h : strcaseEq a b = true) (c : List UInt8) :
    strcaseEq a c = strcaseEq b c := by
  have heq : a.map toLower = b.map toLower := by simpa [strcaseEq] using h
  rw [strcaseEq, strcaseEq, heq]

theorem length_scanWord {fin : Stream} {word : List UInt8} (h : (scanWord fin).value = some word) :
    (scanWord fin).rest.length < fin.length := by
  have hle := List.length_dropWhile_le isSpace fin
  have hhead := List.head?_dropWhile_not isSpace fin
  unfold scanWord at *
  cases hskip : fin.dropWhile isSpace with
  | nil => simp [hskip] at h
  | cons c rest =>
    rw [hskip] at hle hhead
    simp only [List.head?_cons] at hhead
    simp only [List.dropWhile_cons] at *
    have hrest := List.length_dropWhile_le (fun c => !isSpace c) rest
    simp only [hhead, Bool.not_false, if_true]
    rw [List.length_cons] at hle
    omega

theorem rest_scanWord {fin : Stream} (h : (scanWord fin).value = none) : (scanWord fin).rest = [] := by
  unfold scanWord at *
  cases hskip : fin.dropWhile isSpace with
  | nil => rfl
  | cons c rest => simp [hskip] at h

theorem length_scanDigits (negative : Bool) (fin : Stream) :
    (scanDigits negative fin).rest.length ≤ fin.length := by
  unfold scanDigits
  simp only
  split_ifs <;> exact List.length_dropWhile_le isDigit fin

theorem length_scanInt (fin : Stream) : (scanInt fin).rest.length ≤ fin.length := by
  have hle := List.length_dropWhile_le isSpace fin
  unfold scanInt
  split
  · rename_i rest heq
    have hrest := length_scanDigits true rest
    rw [heq, List.length_cons] at hle
    omega
  · rename_i rest heq
    have hrest := length_scanDigits false rest
    rw [heq, List.length_cons] at hle
    omega
  · exact Nat.le_trans (length_scanDigits false _) hle

theorem length_fgets (size : ℕ) (fin : Stream) : (fgets size fin).rest.length ≤ fin.length := by
  unfold fgets
  split
  · exact Nat.le_refl _
  · simp

theorem suffix_scanWord (fin : Stream) : (scanWord fin).rest <:+ fin := by
  unfold scanWord
  cases hskip : fin.dropWhile isSpace with
  | nil => exact List.nil_suffix
  | cons c rest => exact (List.dropWhile_suffix _).trans (hskip ▸ List.dropWhile_suffix isSpace)

theorem suffix_scanDigits (negative : Bool) (fin : Stream) : (scanDigits negative fin).rest <:+ fin := by
  unfold scanDigits
  simp only
  split_ifs <;> exact List.dropWhile_suffix isDigit

theorem suffix_scanInt (fin : Stream) : (scanInt fin).rest <:+ fin := by
  have hskip : fin.dropWhile isSpace <:+ fin := List.dropWhile_suffix isSpace
  unfold scanInt
  split
  · rename_i rest heq
    rw [heq] at hskip
    exact (suffix_scanDigits true rest).trans ((List.suffix_cons _ _).trans hskip)
  · rename_i rest heq
    rw [heq] at hskip
    exact (suffix_scanDigits false rest).trans ((List.suffix_cons _ _).trans hskip)
  · exact (suffix_scanDigits false _).trans hskip

/-- Where the rest of the line fits, `fgets` stops behind its newline, or at the end. -/
theorem fgets_short {size : ℕ} {fin : Stream}
    (h : (fin.takeWhile (· ≠ newline)).length + 1 < size) :
    (fgets size fin).rest = [] ∨
      ∃ line, fin = line ++ newline :: (fgets size fin).rest := by
  have hline : newline ∉ fin.takeWhile (· ≠ newline) := by
    intro hmem
    simpa using List.mem_takeWhile_imp hmem
  have hsplit := List.takeWhile_append_dropWhile (p := (· ≠ newline)) (l := fin)
  cases hrest : fin.dropWhile (· ≠ newline) with
  | nil =>
    rw [hrest] at hsplit
    exact .inl (hsplit ▸ fgets_line hline (.inl ⟨rfl, rfl⟩) h)
  | cons c after =>
    have hhead := List.head?_dropWhile_not (· ≠ newline) fin
    rw [hrest] at hsplit hhead
    obtain rfl : c = newline := by simpa using hhead
    refine .inr ⟨fin.takeWhile (· ≠ newline), ?_⟩
    have hend : LineEnd (newline :: after) after := .inr rfl
    have hfgets := fgets_line hline hend h
    rw [hsplit] at hfgets
    rw [hfgets, hsplit]

theorem length_fgets_lt {size : ℕ} (hsize : 2 ≤ size) {fin : Stream} (h : fin ≠ []) :
    (fgets size fin).rest.length < fin.length := by
  have hpos : 0 < fin.length := List.length_pos_of_ne_nil h
  have hsplit := List.takeWhile_append_dropWhile (p := (· ≠ newline)) (l := fin)
  have hlen := congrArg List.length hsplit
  rw [List.length_append] at hlen
  unfold fgets
  split
  · exact absurd rfl h
  · simp only [List.length_drop, List.length_take, List.length_append]
    omega

/-- A number takes bytes that are not blank. -/
theorem length_scanInt_visible (fin : Stream) :
    (scanInt fin).rest.length ≤ (fin.dropWhile isSpace).length := by
  unfold scanInt
  split
  · rename_i rest heq
    have hrest := length_scanDigits true rest
    rw [heq, List.length_cons]
    omega
  · rename_i rest heq
    have hrest := length_scanDigits false rest
    rw [heq, List.length_cons]
    omega
  · exact length_scanDigits false _

theorem length_scanWord_visible {fin : Stream} {word : List UInt8}
    (h : (scanWord fin).value = some word) :
    (scanWord fin).rest.length < (fin.dropWhile isSpace).length := by
  have hblank := scanWord_blank (show Blank (fin.takeWhile isSpace) from
    List.all_eq_true.1 List.all_takeWhile) (fin.dropWhile isSpace)
  rw [List.takeWhile_append_dropWhile] at hblank
  rw [hblank] at h ⊢
  exact length_scanWord h

theorem asString_append_nul (bytes rest : List UInt8) :
    (bytes ++ 0 :: rest).takeWhile (· ≠ 0) = asString bytes := by
  induction bytes with
  | nil => rfl
  | cons c bytes ih =>
    rw [asString, List.cons_append, List.takeWhile_cons, List.takeWhile_cons, ih]
    rfl

theorem asString_of_nul {bytes : List UInt8} (hnul : (0 : UInt8) ∉ bytes) :
    asString bytes = bytes := by
  rw [asString, List.takeWhile_eq_self_iff]
  intro c hc
  exact decide_eq_true fun heq => hnul (heq ▸ hc)

theorem length_asString (bytes : List UInt8) : (asString bytes).length ≤ bytes.length :=
  (List.takeWhile_sublist _).length_le

theorem cString_putString_asString {size : ℕ} {bytes : List UInt8} (m : Cells UInt8)
    (hfit : bytes.length + 1 ≤ size) : cString size (putString m bytes) = asString bytes := by
  have hprefix : (load (putString m bytes) size).take (bytes ++ [0]).length = bytes ++ [0] :=
    take_load_store m (bytes ++ [0]) size (by simpa using hfit)
  rw [cString, ← List.take_append_drop (bytes ++ [0]).length (load (putString m bytes) size),
    hprefix, List.append_assoc]
  exact asString_append_nul bytes _

theorem cString_putString {size : ℕ} {bytes : List UInt8} (m : Cells UInt8)
    (hfit : bytes.length + 1 ≤ size) (hnul : (0 : UInt8) ∉ bytes) :
    cString size (putString m bytes) = bytes := by
  rw [cString_putString_asString m hfit, asString_of_nul hnul]

end SVpn.Stdio
