import Mathlib.Algebra.Group.Nat.Defs
import SVpn.BlockFold

set_option autoImplicit false

/-!
The MD5 message digest as a function on byte strings: a message is padded to whole
blocks of 64 bytes, and 64 steps of one form fold each block into four words.
-/
namespace SVpn.MessageDigest
open SVpn.BlockFold

abbrev Chain := Vector UInt32 4

/-- Word `k` of the chain. -/
def reg (s : Chain) (k : ℕ) : UInt32 := s.toArray.getD k 0

def rotl (x : UInt32) (n : ℕ) : UInt32 := ⟨x.toBitVec.rotateLeft n⟩

def roundFunction (round : ℕ) (x y z : UInt32) : UInt32 :=
  match round with
  | 0 => (x &&& y) ||| (~~~x &&& z)
  | 1 => (x &&& z) ||| (y &&& ~~~z)
  | 2 => x ^^^ y ^^^ z
  | _ => y ^^^ (x ||| ~~~z)

def wordIndex (i : ℕ) : ℕ :=
  match i / 16 with
  | 0 => i % 16
  | 1 => (5 * i + 1) % 16
  | 2 => (3 * i + 5) % 16
  | _ => 7 * i % 16

def shift (i : ℕ) : ℕ :=
  match i / 16, i % 4 with
  | 0, 0 => 7
  | 0, 1 => 12
  | 0, 2 => 17
  | 0, _ => 22
  | 1, 0 => 5
  | 1, 1 => 9
  | 1, 2 => 14
  | 1, _ => 20
  | 2, 0 => 4
  | 2, 1 => 11
  | 2, 2 => 16
  | 2, _ => 23
  | _, 0 => 6
  | _, 1 => 10
  | _, 2 => 15
  | _, _ => 21

/-- The integer parts of 2^32 times the absolute sine of 1, 2, .., 64. -/
def constants : List UInt32 :=
  [0xd76aa478, 0xe8c7b756, 0x242070db, 0xc1bdceee, 0xf57c0faf, 0x4787c62a, 0xa8304613, 0xfd469501,
    0x698098d8, 0x8b44f7af, 0xffff5bb1, 0x895cd7be, 0x6b901122, 0xfd987193, 0xa679438e, 0x49b40821,
    0xf61e2562, 0xc040b340, 0x265e5a51, 0xe9b6c7aa, 0xd62f105d, 0x02441453, 0xd8a1e681, 0xe7d3fbc8,
    0x21e1cde6, 0xc33707d6, 0xf4d50d87, 0x455a14ed, 0xa9e3e905, 0xfcefa3f8, 0x676f02d9, 0x8d2a4c8a,
    0xfffa3942, 0x8771f681, 0x6d9d6122, 0xfde5380c, 0xa4beea44, 0x4bdecfa9, 0xf6bb4b60, 0xbebfbc70,
    0x289b7ec6, 0xeaa127fa, 0xd4ef3085, 0x04881d05, 0xd9d4d039, 0xe6db99e5, 0x1fa27cf8, 0xc4ac5665,
    0xf4292244, 0x432aff97, 0xab9423a7, 0xfc93a039, 0x655b59c3, 0x8f0ccc92, 0xffeff47d, 0x85845dd1,
    0x6fa87e4f, 0xfe2ce6e0, 0xa3014314, 0x4e0811a1, 0xf7537e82, 0xbd3af235, 0x2ad7d2bb, 0xeb86d391]

/-- Step `i` on the words `a, b, c, d`; `x` is the block. -/
def step (x : ℕ → UInt32) (s : Chain) (i : ℕ) : Chain :=
  let sum := reg s 0 + roundFunction (i / 16) (reg s 1) (reg s 2) (reg s 3) + x (wordIndex i) +
    constants.getD i 0
  #v[reg s 3, reg s 1 + rotl sum (shift i), reg s 1, reg s 2]

def littleEndian (bytes : List UInt8) : ℕ := bytes.foldr (fun b v => b.toNat + 256 * v) 0

/-- The `n` low bytes of `v`, the lowest first. -/
def bytesOf (n v : ℕ) : List UInt8 := (List.range n).map fun k => UInt8.ofNat (v / 256 ^ k)

def word (block : List UInt8) (k : ℕ) : UInt32 :=
  UInt32.ofNat (littleEndian ((block.drop (4 * k)).take 4))

def compress (s : Chain) (block : List UInt8) : Chain :=
  let t := (List.range 64).foldl (step (word block)) s
  #v[reg s 0 + reg t 0, reg s 1 + reg t 1, reg s 2 + reg t 2, reg s 3 + reg t 3]

def initialBytes : List UInt8 :=
  [0x01, 0x23, 0x45, 0x67, 0x89, 0xab, 0xcd, 0xef, 0xfe, 0xdc, 0xba, 0x98, 0x76, 0x54, 0x32, 0x10]

def initial : Chain :=
  #v[word initialBytes 0, word initialBytes 1, word initialBytes 2, word initialBytes 3]

def pad (message : List UInt8) : List UInt8 :=
  message ++ (0x80 :: List.replicate ((119 - message.length % 64) % 64) 0 ++
    bytesOf 8 (8 * message.length))

def digest (message : List UInt8) : List UInt8 :=
  (whole 64 compress initial (pad message)).toList.flatMap fun w => bytesOf 4 w.toNat

theorem exists_words (s : Chain) : ∃ a b c d, s = #v[a, b, c, d] := by
  refine ⟨s[0], s[1], s[2], s[3], Vector.ext fun k hk => ?_⟩
  have hcases : k = 0 ∨ k = 1 ∨ k = 2 ∨ k = 3 := by omega
  rcases hcases with rfl | rfl | rfl | rfl <;> rfl

end SVpn.MessageDigest
