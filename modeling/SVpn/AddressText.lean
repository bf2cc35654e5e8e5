import Mathlib.Data.Nat.Digits.Defs
import Mathlib.Data.Nat.Digits.Lemmas
import SVpn.SetUp
import SVpn.NumberText

set_option autoImplicit false

/-!
Addresses as text. `inet_pton` takes exactly what `inet_ntoa` writes, while the numbers
that `inet_addr` reads may be spelt in other ways too.
-/
namespace SVpn.AddressText
open SVpn.OutputInfo SVpn.Stdio SVpn.InetAddr SVpn.NumberText SVpn.SetUp

/-- The octets that are complete, and the value of the one being read; `sawDigit` is
whether it has a digit. -/
structure Octets where
  filled : List UInt8
  value : ℕ
  sawDigit : Bool

def ptonTurn (o : Octets) (ch : UInt8) : Option Octets :=
  if isDigit ch then
    let new := 10 * o.value + (ch.toNat - 48)
    if o.sawDigit ∧ o.value = 0 then none
    else if 255 < new then none
    else some { o with value := new, sawDigit := true }
  else if ch = dot ∧ o.sawDigit then
    if o.filled.length = 3 then none
    else some ⟨o.filled ++ [UInt8.ofNat o.value], 0, false⟩
  else none

def ptonLoop : Octets → List UInt8 → Option Octets
  | o, [] => some o
  | o, ch :: src => (ptonTurn o ch).bind fun o => ptonLoop o src

def ptonEnd (o : Octets) : Option (Vector UInt8 4) :=
  match o.filled with
  | [a, b, c] => if o.sawDigit then some #v[a, b, c, UInt8.ofNat o.value] else none
  | _ => none

/-- `inet_pton(PF_INET, src, ..)`. -/
def inetPton (src : List UInt8) : Option (Vector UInt8 4) :=
  (ptonLoop ⟨[], 0, false⟩ src).bind ptonEnd

/-- The text of one byte of an address. -/
def octet (b : UInt8) : List UInt8 := chars (toString b.toNat)

def digitValue (c : UInt8) : ℕ := c.toNat - 48

theorem digitByte_digitValue {c : UInt8} (h : Stdio.isDigit c = true) : digitByte (digitValue c) = c := by
  rw [isDigit_iff] at h
  have hsum : 48 + (c.toNat - 48) = c.toNat := by omega
  rw [digitByte, digitValue, hsum, UInt8.ofNat_toNat]

theorem ofDigits_reverse (digits : List UInt8) :
    Nat.ofDigits 10 (digits.map digitValue).reverse = digitsValue digits := by
  rw [Nat.ofDigits_eq_foldr, List.foldr_reverse, List.foldl_map, digitsValue]
  congr 1
  funext n c
  rw [digitValue, Nat.cast_id, Nat.add_comm]

/-- A number has one numeral. -/
theorem eq_of_numeral {digits : List UInt8} {n : ℕ} (h : Numeral digits n) :
    digits = if n = 0 then [48] else decimal n := by
  by_cases hzero : digits = [48]
  · have hn : n = 0 := by
      rw [← h.value, hzero]
      rfl
    rw [if_pos hn, hzero]
  · have hplaces : Nat.digits 10 n = (digits.map digitValue).reverse := by
      rw [← h.value, ← ofDigits_reverse]
      apply Nat.digits_ofDigits 10 (by omega)
      · intro d hd
        obtain ⟨c, hc, rfl⟩ := List.mem_map.1 (List.mem_reverse.1 hd)
        have hdigit := (isDigit_iff c).1 (h.isDigit c hc)
        rw [digitValue]
        omega
      · intro hne hlast
        rw [List.getLast_reverse, List.head_map, digitValue] at hlast
        have hhead := h.isDigit _ (List.head_mem h.ne_nil)
        have hdigit := (isDigit_iff _).1 hhead
        have hfirst : digits.head h.ne_nil = 48 := by
          rw [← UInt8.toNat_inj]
          change _ = 48
          omega
        exact hzero (h.leading (by rw [List.head?_eq_some_head h.ne_nil, hfirst]))
    have hn : n ≠ 0 := by
      rintro rfl
      rw [Nat.digits_zero] at hplaces
      exact h.ne_nil (List.map_eq_nil_iff.1 (List.reverse_eq_nil_iff.1 hplaces.symm))
    rw [if_neg hn, decimal, hplaces, List.reverse_reverse, List.map_map]
    have hsame : digits.map (digitByte ∘ digitValue) = digits.map id :=
      List.map_congr_left fun c hc => digitByte_digitValue (h.isDigit c hc)
    rw [hsame, List.map_id]

theorem numeral_unique {digits digits' : List UInt8} {n : ℕ} (h : Numeral digits n)
    (h' : Numeral digits' n) : digits = digits' :=
  (eq_of_numeral h).trans (eq_of_numeral h').symm

theorem numeral_octet (b : UInt8) : Numeral (octet b) b.toNat := by
  have hdigits : ∀ i : Fin 256,
      Numeral ((Nat.toDigits 10 i.val).map fun c => UInt8.ofNat c.toNat) i.val := by decide +kernel
  have hchars : octet b = (Nat.toDigits 10 b.toNat).map fun c => UInt8.ofNat c.toNat := by
    simp [octet, chars, toString, Nat.repr]
  rw [hchars]
  exact hdigits b.toFin

theorem numeral_concat {digits : List UInt8} {n : ℕ} {c : UInt8} (h : Numeral digits n) (hn : n ≠ 0)
    (hc : Stdio.isDigit c = true) : Numeral (digits ++ [c]) (10 * n + (c.toNat - 48)) := by
  refine ⟨⟨by simp, ?_, ?_⟩, fun hhead => ?_⟩
  · intro d hd
    rcases List.mem_append.1 hd with hd | hd
    · exact h.isDigit d hd
    · exact List.mem_singleton.1 hd ▸ hc
  · rw [digitsValue, List.foldl_append, ← h.value]
    rfl
  · rw [List.head?_append_of_ne_nil _ h.ne_nil] at hhead
    refine absurd ?_ hn
    rw [← h.value, h.leading hhead]
    rfl

theorem numeral_digit {c : UInt8} (hc : Stdio.isDigit c = true) : Numeral [c] (10 * 0 + (c.toNat - 48)) :=
  ⟨⟨by simp, by simpa using hc, rfl⟩, fun hhead => by simpa using hhead⟩

/-- The text that has been read. -/
def written (filled : List UInt8) : List UInt8 := filled.flatMap fun b => octet b ++ [dot]

theorem written_append (filled : List UInt8) (b : UInt8) :
    written (filled ++ [b]) = written filled ++ (octet b ++ [dot]) := by
  rw [written, List.flatMap_append, List.flatMap_singleton]
  rfl

/-- The text spells the octets. -/
structure Spells (text : List UInt8) (o : Octets) : Prop where
  split : ∃ digits, text = written o.filled ++ digits ∧
    if o.sawDigit then Numeral digits o.value else digits = [] ∧ o.value = 0
  small : o.value ≤ 255

theorem octet_ofNat {digits : List UInt8} {n : ℕ} (h : Numeral digits n) (hsmall : n ≤ 255) :
    octet (UInt8.ofNat n) = digits := by
  have hoctet := numeral_octet (UInt8.ofNat n)
  rw [UInt8.toNat_ofNat', Nat.mod_eq_of_lt (by omega)] at hoctet
  exact numeral_unique hoctet h

theorem Spells.turn {text : List UInt8} {o o' : Octets} {ch : UInt8} (h : Spells text o)
    (hturn : ptonTurn o ch = some o') : Spells (text ++ [ch]) o' := by
  obtain ⟨⟨digits, rfl, hdigits⟩, hsmall⟩ := h
  unfold ptonTurn at hturn
  simp only at hturn
  split_ifs at hturn with hdigit hzero hlarge hdot hfull
  · cases hturn
    refine ⟨⟨digits ++ [ch], List.append_assoc _ _ _, ?_⟩, Nat.not_lt.1 hlarge⟩
    rw [if_pos rfl]
    cases hsaw : o.sawDigit with
    | false =>
      rw [hsaw, if_neg Bool.false_ne_true] at hdigits
      rw [hdigits.1, hdigits.2]
      exact numeral_digit hdigit
    | true =>
      rw [hsaw, if_pos rfl] at hdigits
      exact numeral_concat hdigits (fun hvalue => hzero ⟨hsaw, hvalue⟩) hdigit
  · cases hturn
    rw [hdot.2, if_pos rfl] at hdigits
    refine ⟨⟨[], ?_, by simp⟩, Nat.zero_le _⟩
    rw [written_append, octet_ofNat hdigits hsmall, hdot.1, List.append_nil, List.append_assoc]

theorem Spells.loop {text src : List UInt8} {o o' : Octets} (h : Spells text o)
    (hloop : ptonLoop o src = some o') : Spells (text ++ src) o' := by
  induction src generalizing text o with
  | nil =>
    cases hloop
    rwa [List.append_nil]
  | cons ch src ih =>
    obtain ⟨o₁, hturn, hrest⟩ := Option.bind_eq_some_iff.1 hloop
    rw [← List.singleton_append, ← List.append_assoc]
    exact ih (h.turn hturn) hrest

theorem inetNtoa_eq (w x y z : UInt8) :
    inetNtoa #v[w, x, y, z] = dotted (octet w) (octet x) (octet y) (octet z) := by
  have hdot : chars "." = [dot] := by decide
  simp [inetNtoa, hdot, dotted, octet, List.intercalate, List.intersperse]

theorem exists_octets (a : Vector UInt8 4) : ∃ w x y z, a = #v[w, x, y, z] :=
  ⟨a[0], a[1], a[2], a[3], by ext i hi; interval_cases i <;> rfl⟩

theorem dotted_eq_written (w x y : UInt8) (digits : List UInt8) :
    dotted (octet w) (octet x) (octet y) digits = written [w, x, y] ++ digits := by
  simp [dotted, written]

theorem inetNtoa_of_inetPton {src : List UInt8} {a : Vector UInt8 4} (h : inetPton src = some a) :
    src = inetNtoa a := by
  obtain ⟨o, hloop, hend⟩ := Option.bind_eq_some_iff.1 h
  have hstart : Spells [] ⟨[], 0, false⟩ := ⟨⟨[], rfl, by simp⟩, Nat.zero_le _⟩
  obtain ⟨⟨digits, htext, hdigits⟩, hsmall⟩ := hstart.loop hloop
  unfold ptonEnd at hend
  split at hend
  · rename_i w x y hfilled
    split_ifs at hend with hsaw
    cases hend
    rw [if_pos hsaw] at hdigits
    rw [hfilled, List.nil_append] at htext
    rw [inetNtoa_eq, dotted_eq_written, octet_ofNat hdigits hsmall, htext]
  · cases hend

theorem foldl_ge (digits : List UInt8) (n : ℕ) :
    n ≤ digits.foldl (fun n c => 10 * n + (c.toNat - 48)) n := by
  induction digits generalizing n with
  | nil => exact Nat.le_refl n
  | cons c digits ih =>
    have hrest := ih (10 * n + (c.toNat - 48))
    rw [List.foldl_cons]
    omega

theorem ptonTurn_digit {o : Octets} {c : UInt8} (hc : Stdio.isDigit c = true)
    (hfirst : o.sawDigit = true → o.value ≠ 0) (hsmall : 10 * o.value + (c.toNat - 48) ≤ 255) :
    ptonTurn o c = some ⟨o.filled, 10 * o.value + (c.toNat - 48), true⟩ := by
  unfold ptonTurn
  simp only
  rw [if_pos hc, if_neg (fun h => hfirst h.1 h.2), if_neg (by omega)]

theorem ptonLoop_digits {filled digits : List UInt8} (h : ∀ c ∈ digits, Stdio.isDigit c = true) {n : ℕ}
    (hn : n ≠ 0) (hsmall : digits.foldl (fun n c => 10 * n + (c.toNat - 48)) n ≤ 255)
    (rest : List UInt8) :
    ptonLoop ⟨filled, n, true⟩ (digits ++ rest) =
      ptonLoop ⟨filled, digits.foldl (fun n c => 10 * n + (c.toNat - 48)) n, true⟩ rest := by
  induction digits generalizing n with
  | nil => rfl
  | cons c digits ih =>
    have hle := foldl_ge digits (10 * n + (c.toNat - 48))
    rw [List.foldl_cons] at hsmall ⊢
    have hnext : 10 * n + (c.toNat - 48) ≠ 0 := by omega
    rw [List.cons_append, ptonLoop,
      ptonTurn_digit (h c List.mem_cons_self) (fun _ => hn) (hle.trans hsmall)]
    exact ih (fun d hd => h d (List.mem_cons_of_mem c hd)) hnext hsmall

theorem ptonLoop_numeral {filled digits : List UInt8} {n : ℕ} (h : Numeral digits n)
    (hsmall : n ≤ 255) (rest : List UInt8) :
    ptonLoop ⟨filled, 0, false⟩ (digits ++ rest) = ptonLoop ⟨filled, n, true⟩ rest := by
  cases digits with
  | nil => exact absurd rfl h.ne_nil
  | cons c digits =>
    have hvalue : digits.foldl (fun n c => 10 * n + (c.toNat - 48)) (10 * 0 + (c.toNat - 48)) = n :=
      h.value
    have hle := foldl_ge digits (10 * 0 + (c.toNat - 48))
    have hc := h.isDigit c List.mem_cons_self
    rw [List.cons_append, ptonLoop, ptonTurn_digit hc (absurd · Bool.false_ne_true)
      (show 10 * 0 + (c.toNat - 48) ≤ 255 by omega), Option.bind_some]
    by_cases hzero : c = 48
    · obtain rfl : digits = [] := (List.cons.inj (h.leading (hzero ▸ rfl))).2
      rw [← hvalue]
      rfl
    · have hpositive : 10 * 0 + (c.toNat - 48) ≠ 0 := by
        have hdigit := (isDigit_iff c).1 hc
        have hne : c.toNat ≠ 48 := fun heq => hzero (UInt8.toNat_inj.1 heq)
        omega
      rw [ptonLoop_digits (fun d hd => h.isDigit d (List.mem_cons_of_mem c hd)) hpositive
        (by omega), hvalue]

theorem ptonLoop_octet (filled : List UInt8) (b : UInt8) (rest : List UInt8) :
    ptonLoop ⟨filled, 0, false⟩ (octet b ++ rest) = ptonLoop ⟨filled, b.toNat, true⟩ rest :=
  ptonLoop_numeral (numeral_octet b) (Nat.le_of_lt_succ b.toNat_lt) rest

theorem ptonLoop_dot {filled : List UInt8} (h : filled.length < 3) (b : UInt8) (rest : List UInt8) :
    ptonLoop ⟨filled, b.toNat, true⟩ (dot :: rest) = ptonLoop ⟨filled ++ [b], 0, false⟩ rest := by
  have hdigit : ¬ Stdio.isDigit dot = true := by decide
  have hturn : ptonTurn ⟨filled, b.toNat, true⟩ dot = some ⟨filled ++ [b], 0, false⟩ := by
    unfold ptonTurn
    simp only
    rw [if_neg hdigit, if_pos (by simp), if_neg (by omega), UInt8.ofNat_toNat]
  rw [ptonLoop, hturn, Option.bind_some]

theorem inetPton_inetNtoa (a : Vector UInt8 4) : inetPton (inetNtoa a) = some a := by
  obtain ⟨w, x, y, z, rfl⟩ := exists_octets a
  rw [inetNtoa_eq, inetPton, dotted, ptonLoop_octet, ptonLoop_dot (by simp), ptonLoop_octet,
    ptonLoop_dot (by simp), ptonLoop_octet, ptonLoop_dot (by simp), ← List.append_nil (octet z),
    ptonLoop_octet]
  simp [ptonLoop, ptonEnd]

/-- `inet_pton` takes the text of an address and nothing else. -/
theorem inetPton_eq_some {src : List UInt8} {a : Vector UInt8 4} :
    inetPton src = some a ↔ src = inetNtoa a :=
  ⟨inetNtoa_of_inetPton, fun h => h ▸ inetPton_inetNtoa a⟩

end SVpn.AddressText
