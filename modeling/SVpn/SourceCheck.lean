import SVpn.ServerRuns

set_option autoImplicit false

/-!
The source check on bytes. It reads the shared buffer; from 16 bytes on it reads
the datagram alone, below that it also reads what earlier traffic left there.
-/
namespace SVpn.SourceCheck
open SVpn.Region SVpn.Crypt SVpn.KeyTable SVpn.OutputInfo SVpn.ServerLoop SVpn.ServerSteps
open SVpn.ServerRuns

/-- The packet holds a source field, and it is `localAddr[0..2].uid`. -/
def SourceIs (localAddr : Vector UInt8 4) (uid : UInt8) (packet : List UInt8) : Prop :=
  packet[12]? = some (addrByte localAddr 0) ∧ packet[13]? = some (addrByte localAddr 1) ∧
    packet[14]? = some (addrByte localAddr 2) ∧ packet[15]? = some uid

instance (localAddr : Vector UInt8 4) (uid : UInt8) (packet : List UInt8) :
    Decidable (SourceIs localAddr uid packet) :=
  inferInstanceAs (Decidable (_ ∧ _ ∧ _ ∧ _))

theorem SourceIs.length {localAddr : Vector UInt8 4} {uid : UInt8} {packet : List UInt8}
    (h : SourceIs localAddr uid packet) : 16 ≤ packet.length := by
  obtain ⟨hlt, -⟩ := List.getElem?_eq_some_iff.1 h.2.2.2
  exact hlt

theorem store_eq_iff (m : Cells UInt8) (bytes : List UInt8) (i : ℕ) (b : UInt8)
    (h : i < bytes.length) : store m 0 bytes i = b ↔ bytes[i]? = some b := by
  rw [store_zero_lt m bytes i h, List.getElem?_eq_getElem h, Option.some.injEq]

theorem getElem?_received (bytes : List UInt8) (i : ℕ) (h : i < bufferLen) :
    (received bytes)[i]? = bytes[i]? := by
  rw [received, List.getElem?_take, if_pos h]

/-- On 16 bytes or more the check depends on nothing but the datagram. -/
theorem sourceOk_decoded (s : LoopState) (table : CodeTable) (d : Datagram) (uid : UInt8)
    (h : 16 ≤ d.data.length) :
    SourceOk s.psc.localAddr uid (decoded s table d) ↔
      SourceIs s.psc.localAddr uid (d.data.map table.decodeByte) := by
  have hlen : 16 ≤ ((received d.data).map table.decodeByte).length := by
    simp only [List.length_map, received, List.length_take, bufferLen]
    omega
  have hbyte : ∀ i b, i < 16 → (decoded s table d i = b ↔
      (d.data.map table.decodeByte)[i]? = some b) := by
    intro i b hi
    rw [decoded, store_eq_iff _ _ _ _ (by omega), List.getElem?_map, List.getElem?_map,
      getElem?_received _ _ (by rw [bufferLen]; omega)]
  unfold SourceOk SourceIs srcIp
  rw [hbyte _ _ (by decide), hbyte _ _ (by decide), hbyte _ _ (by decide), hbyte _ _ (by decide)]

theorem accepts_tick (clock : ℤ) {s : LoopState} {d : Datagram} {uid : UInt8}
    {node : SvpnClientNode} : Accepts (tick s clock) d uid node ↔ Accepts s d uid node :=
  ⟨fun h => ⟨h.head, h.client, h.source⟩, fun h => ⟨h.head, h.client, h.source⟩⟩

theorem accepts_iff {s : LoopState} {d : Datagram} {uid : UInt8} {node : SvpnClientNode}
    (hhead : d.data.head? = some uid) (hclient : s.psc.client uid = some node)
    (h : 16 ≤ d.data.length) :
    Accepts s d uid node ↔ SourceIs s.psc.localAddr uid (d.data.map node.table.decodeByte) := by
  rw [← sourceOk_decoded s node.table d uid h]
  exact ⟨fun ha => ha.source, fun hs => ⟨hhead, hclient, hs⟩⟩

def serverOf (localAddr : Vector UInt8 4) (addrs : UInt8 → SockaddrIn6)
    (users : UInt8 → Option Digest) : SvpnServer where
  localAddr := localAddr
  clients := Vector.ofFn fun i =>
    (users (byteOf i)).map fun passmd5 => ⟨addrs (byteOf i), keyTable passmd5 (byteOf i)⟩

theorem client_serverOf (localAddr : Vector UInt8 4) (addrs : UInt8 → SockaddrIn6)
    (users : UInt8 → Option Digest) (uid : UInt8) :
    (serverOf localAddr addrs users).client uid =
      (users uid).map fun passmd5 => ⟨addrs uid, keyTable passmd5 uid⟩ := by
  have hentry : (serverOf localAddr addrs users).client uid =
      (users (byteOf (slot uid))).map fun passmd5 =>
        ⟨addrs (byteOf (slot uid)), keyTable passmd5 (byteOf (slot uid))⟩ :=
    Vector.getElem_ofFn (slot uid).isLt
  rw [hentry, byteOf_slot]

/-- The packets for which clients and server have agreed on a first byte. -/
def HeaderPacket (p : List UInt8) : Prop :=
  20 ≤ p.length ∧ p.length ≤ bufferLen ∧ p.head? = some ipMagicHeader

instance (p : List UInt8) : Decidable (HeaderPacket p) :=
  inferInstanceAs (Decidable (_ ∧ _ ∧ _))

def sampleAddr (port : UInt16) : SockaddrIn6 := ⟨10, port, 0, Vector.replicate 16 0, 0⟩

def sampleUsers (uid : UInt8) : Option Digest :=
  if uid = 6 ∨ uid = 3 then some (Vector.replicate 16 0) else none

def sampleLocal : Vector UInt8 4 := #v[192, 168, 3, 1]

def sampleServer : SvpnServer := serverOf sampleLocal (fun _ => sampleAddr 0) sampleUsers

def sampleKey : Key 6 := key (Vector.replicate 16 0) 6

theorem client_sampleServer : sampleServer.client 6 = some ⟨sampleAddr 0, sampleKey.table⟩ :=
  client_serverOf sampleLocal (fun _ => sampleAddr 0) sampleUsers 6

/-- An IPv4 packet from 192.168.3.6 to 192.168.3.1. -/
def samplePacket : List UInt8 :=
  [0x45, 0, 0, 20, 0, 0, 0, 0, 64, 17, 0, 0, 192, 168, 3, 6, 192, 168, 3, 1]

def sampleDatagram (sender : SockaddrIn6) : Datagram := ⟨sender, samplePacket.map sampleKey.table.encodeByte⟩

def sampleStart : LoopState := loopStart sampleServer (fun _ => 0) (fun _ => 0) 0

variable {uid : UInt8} (k : Key uid)

theorem head?_encrypted {p : List UInt8} (h : HeaderPacket p) :
    (p.map k.table.encodeByte).head? = some uid := by
  rw [List.head?_map, h.2.2, Option.map_some, k.encode_header]

theorem accepts_encrypted_iff {s : LoopState} {d : Datagram} {node : SvpnClientNode}
    {p : List UInt8} (hp : HeaderPacket p) (hdata : d.data = p.map k.table.encodeByte)
    (hclient : s.psc.client uid = some node) (htable : node.table = k.table) :
    Accepts s d uid node ↔ SourceIs s.psc.localAddr uid p := by
  have hhead : d.data.head? = some uid := by
    rw [hdata]
    exact head?_encrypted k hp
  have hlen : 16 ≤ d.data.length := by
    rw [hdata, List.length_map]
    exact le_trans (by decide) hp.1
  rw [accepts_iff hhead hclient hlen, hdata, htable, k.map_decode_encode]

theorem accepts_sample {s : LoopState} (hpsc : s.psc = sampleServer) (sender : SockaddrIn6) :
    Accepts s (sampleDatagram sender) 6 ⟨sampleAddr 0, sampleKey.table⟩ := by
  have hclient : s.psc.client 6 = some ⟨sampleAddr 0, sampleKey.table⟩ := by
    rw [hpsc]
    exact client_sampleServer
  rw [accepts_encrypted_iff sampleKey (p := samplePacket) (by decide) rfl hclient rfl, hpsc]
  decide

end SVpn.SourceCheck
