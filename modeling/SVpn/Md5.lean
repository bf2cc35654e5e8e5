import SVpn.Region

set_option autoImplicit false

/-!
The digest of `md5.c`. Words are 32 bits wide and wrap; an array a function is
handed by pointer is a region.
-/
namespace SVpn.Md5
open SVpn.Region

structure Md5Ctx where
  count : Vector UInt32 2
  state : Vector UInt32 4
  buffer : Cells UInt8

def padding : Cells UInt8 := fun i => if i = 0 then 0x80 else 0

def f (x y z : UInt32) : UInt32 := (x &&& y) ||| (~~~x &&& z)
def g (x y z : UInt32) : UInt32 := (x &&& z) ||| (y &&& ~~~z)
def h (x y z : UInt32) : UInt32 := x ^^^ y ^^^ z
def i (x y z : UInt32) : UInt32 := y ^^^ (x ||| ~~~z)

def rotateLeft (x n : UInt32) : UInt32 := (x <<< n) ||| (x >>> (32 - n))

/-- The shape the four step macros share, with their round function as `fn`. -/
def roundStep (fn : UInt32 → UInt32 → UInt32 → UInt32) (a b c d x s ac : UInt32) : UInt32 :=
  rotateLeft (a + (fn b c d + x + ac)) s + b

def ff (a b c d x s ac : UInt32) : UInt32 := roundStep f a b c d x s ac
def gg (a b c d x s ac : UInt32) : UInt32 := roundStep g a b c d x s ac
def hh (a b c d x s ac : UInt32) : UInt32 := roundStep h a b c d x s ac
def ii (a b c d x s ac : UInt32) : UInt32 := roundStep i a b c d x s ac

def md5Encode (input : Cells UInt32) : Cells UInt8 :=
  fun j => ((input (j / 4) >>> UInt32.ofNat (8 * (j % 4))) &&& 0xFF).toUInt8

def md5Decode (input : Cells UInt8) : Cells UInt32 := fun i =>
  (input (4 * i)).toUInt32 ||| ((input (4 * i + 1)).toUInt32 <<< 8) |||
    ((input (4 * i + 2)).toUInt32 <<< 16) ||| ((input (4 * i + 3)).toUInt32 <<< 24)

/-- Round 1 of `MD5Transform`; `x` is the decoded block. -/
def md5Round1 (x : Cells UInt32) (abcd : Vector UInt32 4) : Vector UInt32 4 :=
  let a := abcd[0]
  let b := abcd[1]
  let c := abcd[2]
  let d := abcd[3]
  let a := ff a b c d (x 0) 7 0xd76aa478
  let d := ff d a b c (x 1) 12 0xe8c7b756
  let c := ff c d a b (x 2) 17 0x242070db
  let b := ff b c d a (x 3) 22 0xc1bdceee
  let a := ff a b c d (x 4) 7 0xf57c0faf
  let d := ff d a b c (x 5) 12 0x4787c62a
  let c := ff c d a b (x 6) 17 0xa8304613
  let b := ff b c d a (x 7) 22 0xfd469501
  let a := ff a b c d (x 8) 7 0x698098d8
  let d := ff d a b c (x 9) 12 0x8b44f7af
  let c := ff c d a b (x 10) 17 0xffff5bb1
  let b := ff b c d a (x 11) 22 0x895cd7be
  let a := ff a b c d (x 12) 7 0x6b901122
  let d := ff d a b c (x 13) 12 0xfd987193
  let c := ff c d a b (x 14) 17 0xa679438e
  let b := ff b c d a (x 15) 22 0x49b40821
  #v[a, b, c, d]

def md5Round2 (x : Cells UInt32) (abcd : Vector UInt32 4) : Vector UInt32 4 :=
  let a := abcd[0]
  let b := abcd[1]
  let c := abcd[2]
  let d := abcd[3]
  let a := gg a b c d (x 1) 5 0xf61e2562
  let d := gg d a b c (x 6) 9 0xc040b340
  let c := gg c d a b (x 11) 14 0x265e5a51
  let b := gg b c d a (x 0) 20 0xe9b6c7aa
  let a := gg a b c d (x 5) 5 0xd62f105d
  let d := gg d a b c (x 10) 9 0x2441453
  let c := gg c d a b (x 15) 14 0xd8a1e681
  let b := gg b c d a (x 4) 20 0xe7d3fbc8
  let a := gg a b c d (x 9) 5 0x21e1cde6
  let d := gg d a b c (x 14) 9 0xc33707d6
  let c := gg c d a b (x 3) 14 0xf4d50d87
  let b := gg b c d a (x 8) 20 0x455a14ed
  let a := gg a b c d (x 13) 5 0xa9e3e905
  let d := gg d a b c (x 2) 9 0xfcefa3f8
  let c := gg c d a b (x 7) 14 0x676f02d9
  let b := gg b c d a (x 12) 20 0x8d2a4c8a
  #v[a, b, c, d]

def md5Round3 (x : Cells UInt32) (abcd : Vector UInt32 4) : Vector UInt32 4 :=
  let a := abcd[0]
  let b := abcd[1]
  let c := abcd[2]
  let d := abcd[3]
  let a := hh a b c d (x 5) 4 0xfffa3942
  let d := hh d a b c (x 8) 11 0x8771f681
  let c := hh c d a b (x 11) 16 0x6d9d6122
  let b := hh b c d a (x 14) 23 0xfde5380c
  let a := hh a b c d (x 1) 4 0xa4beea44
  let d := hh d a b c (x 4) 11 0x4bdecfa9
  let c := hh c d a b (x 7) 16 0xf6bb4b60
  let b := hh b c d a (x 10) 23 0xbebfbc70
  let a := hh a b c d (x 13) 4 0x289b7ec6
  let d := hh d a b c (x 0) 11 0xeaa127fa
  let c := hh c d a b (x 3) 16 0xd4ef3085
  let b := hh b c d a (x 6) 23 0x4881d05
  let a := hh a b c d (x 9) 4 0xd9d4d039
  let d := hh d a b c (x 12) 11 0xe6db99e5
  let c := hh c d a b (x 15) 16 0x1fa27cf8
  let b := hh b c d a (x 2) 23 0xc4ac5665
  #v[a, b, c, d]

def md5Round4 (x : Cells UInt32) (abcd : Vector UInt32 4) : Vector UInt32 4 :=
  let a := abcd[0]
  let b := abcd[1]
  let c := abcd[2]
  let d := abcd[3]
  let a := ii a b c d (x 0) 6 0xf4292244
  let d := ii d a b c (x 7) 10 0x432aff97
  let c := ii c d a b (x 14) 15 0xab9423a7
  let b := ii b c d a (x 5) 21 0xfc93a039
  let a := ii a b c d (x 12) 6 0x655b59c3
  let d := ii d a b c (x 3) 10 0x8f0ccc92
  let c := ii c d a b (x 10) 15 0xffeff47d
  let b := ii b c d a (x 1) 21 0x85845dd1
  let a := ii a b c d (x 8) 6 0x6fa87e4f
  let d := ii d a b c (x 15) 10 0xfe2ce6e0
  let c := ii c d a b (x 6) 15 0xa3014314
  let b := ii b c d a (x 13) 21 0x4e0811a1
  let a := ii a b c d (x 4) 6 0xf7537e82
  let d := ii d a b c (x 11) 10 0xbd3af235
  let c := ii c d a b (x 2) 15 0x2ad7d2bb
  let b := ii b c d a (x 9) 21 0xeb86d391
  #v[a, b, c, d]

def addState (state abcd : Vector UInt32 4) : Vector UInt32 4 :=
  #v[state[0] + abcd[0], state[1] + abcd[1], state[2] + abcd[2], state[3] + abcd[3]]

def md5Transform (state : Vector UInt32 4) (block : Cells UInt8) : Vector UInt32 4 :=
  let x := md5Decode block
  addState state (md5Round4 x (md5Round3 x (md5Round2 x (md5Round1 x state))))

def md5Init (buffer : Cells UInt8) : Md5Ctx :=
  { count := #v[0, 0]
    state := #v[0x67452301, 0xEFCDAB89, 0x98BADCFE, 0x10325476]
    buffer := buffer }

/-- `for (i = partlen; i + 64 <= inputlen; i += 64)`. The guard wraps with the
index, so the loop may run for ever: it has no result when the fuel is spent. -/
def blockLoop (input : Cells UInt8) (inputlen : UInt32) :
    ℕ → UInt32 → Vector UInt32 4 → Option (UInt32 × Vector UInt32 4)
  | 0, _, _ => none
  | fuel + 1, i, state =>
    if i + 64 ≤ inputlen then
      blockLoop input inputlen fuel (i + 64) (md5Transform state fun k => input (i.toNat + k))
    else some (i, state)

/-- Each turn of the loop consumes 64 of the input bytes. -/
def blockFuel (inputlen : UInt32) : ℕ := inputlen.toNat / 64 + 1

def addBits (count : Vector UInt32 2) (inputlen : UInt32) : Vector UInt32 2 :=
  let count0 := count[0] + (inputlen <<< 3)
  let count1 := if count0 < inputlen <<< 3 then count[1] + 1 else count[1]
  #v[count0, count1 + (inputlen >>> 29)]

/-- The number of bytes that wait in the buffer. -/
def index (count : Vector UInt32 2) : UInt32 := (count[0] >>> 3) &&& 0x3F

def md5Update (context : Md5Ctx) (input : Cells UInt8) (inputlen : UInt32) : Option Md5Ctx :=
  let index := index context.count
  let partlen := 64 - index
  let count := addBits context.count inputlen
  if inputlen ≥ partlen then
    let buffer := store context.buffer index.toNat (load input partlen.toNat)
    let state := md5Transform context.state buffer
    (blockLoop input inputlen (blockFuel inputlen) partlen state).map fun (i, state) =>
      let rest := load (fun k => input (i.toNat + k)) (inputlen - i).toNat
      { count, state, buffer := store buffer 0 rest }
  else
    some { context with
      count
      buffer := store context.buffer index.toNat (load input inputlen.toNat) }

def md5Final (context : Md5Ctx) : Option (Vector UInt8 16) :=
  let index := index context.count
  let padlen := if index < 56 then 56 - index else 120 - index
  let bits := md5Encode fun k => context.count.toArray.getD k 0
  (md5Update context padding padlen).bind fun context =>
    (md5Update context bits 8).map fun context =>
      Vector.ofFn fun k => md5Encode (fun w => context.state.toArray.getD w 0) k

/-- The context is a local of the function; `stack` is what its buffer held. -/
def md5Fast (stack input : Cells UInt8) (len : UInt32) : Option (Vector UInt8 16) :=
  (md5Update (md5Init stack) input len).bind md5Final

end SVpn.Md5
