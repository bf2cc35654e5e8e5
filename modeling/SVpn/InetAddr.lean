import Mathlib.Algebra.Group.Nat.Defs
import SVpn.Stdio

set_option autoImplicit false

/-!
`inet_addr`: one to four numbers with dots between them, each decimal, octal or
hexadecimal by its prefix. The last one fills the bytes the others have left.
-/
namespace SVpn.InetAddr
open SVpn.Stdio

def inaddrNone : Vector UInt8 4 := Vector.replicate 4 255

def dot : UInt8 := 46

def digitIn (base : ℕ) (c : UInt8) : Option ℕ :=
  let v :=
    if 48 ≤ c ∧ c ≤ 57 then c.toNat - 48
    else if 97 ≤ c ∧ c ≤ 102 then c.toNat - 87
    else if 65 ≤ c ∧ c ≤ 70 then c.toNat - 55
    else base
  if v < base then some v else none

/-- The digits of the base that come next, with the value `n` of those before. -/
def number (base : ℕ) : ℕ → List UInt8 → ℕ × List UInt8
  | n, [] => (n, [])
  | n, c :: cs =>
    match digitIn base c with
    | some d => number base (base * n + d) cs
    | none => (n, c :: cs)

/-- After a leading zero: an `x` with a hexadecimal digit behind it. -/
def hexPrefix : List UInt8 → Bool
  | x :: d :: _ => (x = 120 || x = 88) && (digitIn 16 d).isSome
  | _ => false

def part : List UInt8 → Option (ℕ × List UInt8)
  | [] => none
  | c :: cs =>
    if isDigit c = false then none
    else if c = 48 then
      if hexPrefix cs then some (number 16 0 cs.tail) else some (number 8 0 cs)
    else some (number 10 0 (c :: cs))

/-- At most `n` numbers, up to the end of the string or to white space. -/
def parts : ℕ → List UInt8 → Option (List ℕ)
  | 0, _ => none
  | n + 1, s =>
    match part s with
    | none => none
    | some (v, rest) =>
      if rest.head? = some dot then (parts n rest.tail).map (v :: ·)
      else if rest.head?.all isSpace then some [v]
      else none

def byteAt (v k : ℕ) : UInt8 := UInt8.ofNat (v / 256 ^ k)

def address : List ℕ → Option (Vector UInt8 4)
  | [a] => if a < 256 ^ 4 then some #v[byteAt a 3, byteAt a 2, byteAt a 1, byteAt a 0] else none
  | [a, b] =>
    if a < 256 ∧ b < 256 ^ 3 then some #v[byteAt a 0, byteAt b 2, byteAt b 1, byteAt b 0] else none
  | [a, b, c] =>
    if a < 256 ∧ b < 256 ∧ c < 256 ^ 2 then some #v[byteAt a 0, byteAt b 0, byteAt c 1, byteAt c 0]
    else none
  | [a, b, c, d] =>
    if a < 256 ∧ b < 256 ∧ c < 256 ∧ d < 256 then
      some #v[byteAt a 0, byteAt b 0, byteAt c 0, byteAt d 0]
    else none
  | _ => none

/-- The bytes of the result in memory, which is in network order. -/
def inetAddr (cp : List UInt8) : Vector UInt8 4 := ((parts 4 cp).bind address).getD inaddrNone

structure Digits (digits : List UInt8) (n : ℕ) : Prop where
  ne_nil : digits ≠ []
  isDigit : ∀ c ∈ digits, isDigit c = true
  value : digitsValue digits = n

instance (digits : List UInt8) (n : ℕ) : Decidable (Digits digits n) :=
  decidable_of_iff (digits ≠ [] ∧ digits.all Stdio.isDigit = true ∧ digitsValue digits = n) (by
    rw [List.all_eq_true]
    exact ⟨fun h => ⟨h.1, h.2.1, h.2.2⟩, fun h => ⟨h.ne_nil, h.isDigit, h.value⟩⟩)

/-- The decimal digits of `n` without a leading zero, which would make them octal. -/
structure Numeral (digits : List UInt8) (n : ℕ) : Prop extends Digits digits n where
  leading : digits.head? = some 48 → digits = [48]

instance (digits : List UInt8) (n : ℕ) : Decidable (Numeral digits n) :=
  decidable_of_iff (Digits digits n ∧ (digits.head? = some 48 → digits = [48]))
    ⟨fun h => ⟨h.1, h.2⟩, fun h => ⟨h.toDigits, h.leading⟩⟩

theorem digitIn_ten {c : UInt8} (h : isDigit c = true) : digitIn 10 c = some (c.toNat - 48) := by
  have hc : 48 ≤ c ∧ c ≤ 57 := by simpa [isDigit] using h
  rw [isDigit_iff] at h
  have hlt : c.toNat - 48 < 10 := by omega
  simp [digitIn, hc, hlt]

theorem number_ten {digits : List UInt8} (h : ∀ c ∈ digits, isDigit c = true) {rest : List UInt8}
    (hstop : ∀ c, rest.head? = some c → digitIn 10 c = none) (n : ℕ) :
    number 10 n (digits ++ rest) = (digits.foldl (fun n c => 10 * n + (c.toNat - 48)) n, rest) := by
  induction digits generalizing n with
  | nil =>
    cases rest with
    | nil => rfl
    | cons c rest => simp [number, hstop c rfl]
  | cons c digits ih =>
    rw [List.cons_append, number, digitIn_ten (h c List.mem_cons_self)]
    exact ih (fun d hd => h d (List.mem_cons_of_mem c hd)) _

def Ends (rest : List UInt8) : Prop := rest = [] ∨ rest.head? = some dot

theorem part_numeral {digits : List UInt8} {n : ℕ} (h : Numeral digits n) {rest : List UInt8}
    (hends : Ends rest) : part (digits ++ rest) = some (n, rest) := by
  have hstop : ∀ c, rest.head? = some c → c = dot := by
    intro c hc
    rcases hends with rfl | hdot
    · cases hc
    · exact Option.some.inj (hc.symm.trans hdot)
  cases digits with
  | nil => exact absurd rfl h.ne_nil
  | cons c digits =>
    have hdigit := h.isDigit c List.mem_cons_self
    by_cases hc : c = 48
    · subst c
      obtain rfl : digits = [] := (List.cons.inj (h.leading rfl)).2
      have hvalue : n = 0 := h.value.symm.trans rfl
      have hoctal : number 8 0 rest = (n, rest) := by
        rw [hvalue]
        cases rest with
        | nil => rfl
        | cons d rest =>
          rw [hstop d rfl]
          rfl
      have hprefix : hexPrefix rest = false := by
        rcases rest with - | ⟨x, - | ⟨d, rest⟩⟩
        · rfl
        · rfl
        · rw [hstop x rfl]
          rfl
      rw [List.singleton_append, part]
      simp only [hdigit, Bool.true_eq_false, Bool.false_eq_true, if_false, if_true, hprefix, hoctal]
    · have hother : ∀ d, rest.head? = some d → digitIn 10 d = none := by
        intro d hd
        rw [hstop d hd]
        rfl
      have hnumber := number_ten h.isDigit hother 0
      rw [List.cons_append, part]
      simp only [hdigit, Bool.true_eq_false, if_false, hc]
      rw [← List.cons_append, hnumber, ← h.value]
      rfl

def dotted (a b c d : List UInt8) : List UInt8 := a ++ dot :: (b ++ dot :: (c ++ dot :: d))

/-- Four decimal numbers below 256 are the four bytes of the address. -/
theorem inetAddr_dotted {a b c d : List UInt8} {w x y z : UInt8} (ha : Numeral a w.toNat)
    (hb : Numeral b x.toNat) (hc : Numeral c y.toNat) (hd : Numeral d z.toNat) :
    inetAddr (dotted a b c d) = #v[w, x, y, z] := by
  have hparts : parts 4 (dotted a b c d) = some [w.toNat, x.toNat, y.toNat, z.toNat] := by
    have hlast : part d = some (z.toNat, []) := by
      simpa using part_numeral hd (show Ends [] from .inl rfl)
    rw [dotted, parts, part_numeral ha (.inr rfl)]
    simp only [List.head?_cons, if_true, List.tail_cons]
    rw [parts, part_numeral hb (.inr rfl)]
    simp only [List.head?_cons, if_true, List.tail_cons]
    rw [parts, part_numeral hc (.inr rfl)]
    simp only [List.head?_cons, if_true, List.tail_cons]
    rw [parts, hlast]
    rfl
  have hbyte : ∀ u : UInt8, byteAt u.toNat 0 = u := by
    intro u
    rw [byteAt, Nat.pow_zero, Nat.div_one, UInt8.ofNat_toNat]
  rw [inetAddr, hparts, Option.bind_some, address,
    if_pos ⟨w.toNat_lt, x.toNat_lt, y.toNat_lt, z.toNat_lt⟩, hbyte, hbyte, hbyte, hbyte]
  rfl

end SVpn.InetAddr
