import Mathlib.Data.FinEnum
import SVpn.ArrayPermutation
import SVpn.Region

set_option autoImplicit false

/-!
The byte cipher of `crypt.c`: a substitution table of 256 entries, shuffled by
the password digest and adjusted so that the header byte carries the user id.
-/
namespace SVpn.Crypt
open SVpn.ArrayPermutation SVpn.Region

abbrev Digest := Vector UInt8 16

def ipMagicHeader : UInt8 := 0x45

def primeForGen : ℕ := 47

structure CodeTable where
  encode : Vector UInt8 256
  decode : Vector UInt8 256
  deriving DecidableEq

def slot (b : UInt8) : Fin 256 := b.toFin

/-- The value the table loops store for index `i`. -/
def byteOf (i : Fin 256) : UInt8 := UInt8.ofNat i

def CodeTable.encodeByte (ct : CodeTable) (b : UInt8) : UInt8 := entry ct.encode (slot b)

def CodeTable.decodeByte (ct : CodeTable) (b : UInt8) : UInt8 := entry ct.decode (slot b)

/-- Body of the inner loop: multiply byte `j`, carry into byte `j + 1`. -/
def mixByte (md : Digest) (j : Fin 15) : Digest :=
  let k := md[j.castSucc].toNat * primeForGen
  let md := md.set j.castSucc (UInt8.ofNat k) j.castSucc.isLt
  md.set j.succ (md[j.succ] + UInt8.ofNat (k >>> 8)) j.succ.isLt

def mixRound (md : Digest) : Digest := (List.finRange 15).foldl mixByte md

/-- Body of the shuffle loop: one mixing round, then exchange entries `md[15]` and `i`. -/
def shuffleTurn (s : Digest × Vector UInt8 256) (i : Fin 256) : Digest × Vector UInt8 256 :=
  let md := mixRound s.1
  (md, exchange s.2 (slot md[15]) i)

/-- `ct->encode[i] = i` for every index, then the shuffle loop. -/
@[irreducible] def shuffle (encode : Vector UInt8 256) (passmd5 : Digest) : Vector UInt8 256 :=
  ((List.finRange 256).foldl shuffleTurn (passmd5, fill id byteOf encode (List.finRange 256))).2

/-- The search stops at index 256 when no entry equals `identity`; the exchange
then reads past the array, and the function has no result. -/
def fixIdentity (encode : Vector UInt8 256) (identity : UInt8) : Option (Vector UInt8 256) :=
  let i := search encode identity
  if h : i < 256 then some (exchange encode (slot ipMagicHeader) ⟨i, h⟩) else none

/-- `ct->decode[ct->encode[i]] = i` for every index. -/
@[irreducible] def genDecode (encode decode : Vector UInt8 256) : Vector UInt8 256 :=
  fill (fun i => slot (entry encode i)) byteOf decode (List.finRange 256)

def buildTable (ct : CodeTable) (passmd5 : Digest) (identity : UInt8) : Option CodeTable :=
  (fixIdentity (shuffle ct.encode passmd5) identity).map fun encode =>
    ⟨encode, genDecode encode ct.decode⟩

def encrypt (ct : CodeTable) (input output : Cells UInt8) (len : ℕ) : Cells UInt8 :=
  transform ct.encodeByte input output len

def decrypt (ct : CodeTable) (input output : Cells UInt8) (len : ℕ) : Cells UInt8 :=
  transform ct.decodeByte input output len

/-- `BUFFER_LEN`, of the packet buffers of both programs. -/
def bufferLen : ℕ := 4096

/-- What is stored of the bytes of a packet: the rest of a longer one is cut off. -/
def received (bytes : List UInt8) : List UInt8 := bytes.take bufferLen

theorem received_eq {bytes : List UInt8} (h : bytes.length ≤ bufferLen) : received bytes = bytes :=
  List.take_of_length_le h

theorem length_received_le (bytes : List UInt8) : (received bytes).length ≤ bufferLen :=
  List.length_take_le _ _

end SVpn.Crypt
