import SVpn.ClientSteps
import SVpn.Authentication

set_option autoImplicit false

/-!
The first byte of a datagram names its user. The tables pin one plaintext byte
only, the header byte, to the id of the sender.
-/
namespace SVpn.FirstByte
open SVpn.Region SVpn.Crypt SVpn.KeyTable SVpn.OutputInfo SVpn.ServerLoop SVpn.ServerSteps
open SVpn.ServerRuns SVpn.SourceCheck SVpn.RoutingTable SVpn.Authentication

theorem table_of_serverOf {localAddr : Vector UInt8 4} {addrs : UInt8 → SockaddrIn6}
    {users : UInt8 → Option Digest} {h : List Effect} {s : LoopState}
    (hr : Routed (serverOf localAddr addrs users) h s) {uid : UInt8} {node : SvpnClientNode}
    (hclient : s.psc.client uid = some node) :
    ∃ passmd5, users uid = some passmd5 ∧ node.table = keyTable passmd5 uid := by
  obtain ⟨first, hfirst, htable, -⟩ := hr.client_start hclient
  rw [client_serverOf, Option.map_eq_some_iff] at hfirst
  obtain ⟨passmd5, huser, rfl⟩ := hfirst
  exact ⟨passmd5, huser, htable⟩

theorem client_of_serverOf {localAddr : Vector UInt8 4} {addrs : UInt8 → SockaddrIn6}
    {users : UInt8 → Option Digest} {h : List Effect} {s : LoopState}
    (hr : Routed (serverOf localAddr addrs users) h s) {uid : UInt8} {passmd5 : Digest}
    (huser : users uid = some passmd5) :
    ∃ node, s.psc.client uid = some node ∧ node.table = keyTable passmd5 uid := by
  rw [hr.clients uid, client_serverOf, huser]
  exact ⟨_, rfl, rfl⟩

theorem acceptedOf_of_writesOf {report : Reporter} {ev : SockReady} {s : LoopState} {d : Datagram}
    {uid : UInt8} {packet : List UInt8} (hrecv : ev.recv = some d)
    (hmem : (uid, packet) ∈ writesOf (sockBranch report ev s).effects) :
    (uid, d.sender) ∈ acceptedOf (sockBranch report ev s).effects := by
  have hcases := sockBranch_effects report ev s
  generalize (sockBranch report ev s).effects = es at hcases hmem
  cases hcases with
  | failed hnone => simp at hmem
  | refused _ _ htalk => simp [writeOf, htalk.writesOf] at hmem
  | died _ _ hshown => simp [writeOf, hshown.writesOf] at hmem
  | accepted hsome _ hshown =>
    obtain rfl := Option.some.inj (hrecv.symm.trans hsome)
    simp only [writesOf_cons, writesOf_append, writeOf, hshown.writesOf, Option.toList,
      List.nil_append, writesOf_nil, List.append_nil, List.mem_singleton, Prod.mk.injEq] at hmem
    rw [hmem.1]
    simp [acceptOf]

theorem untouched_of_not_accepted {report : Reporter} {clock : ℤ} {ev : SockReady}
    {tun : Option TunReady} {s : LoopState} {d : Datagram} {uid : UInt8} (hrecv : ev.recv = some d)
    (hnot : (uid, d.sender) ∉ acceptedOf (loopBody report (.ready clock (some ev) tun) s).effects) :
    (∀ packet, (uid, packet) ∉ writesOf (loopBody report (.ready clock (some ev) tun) s).effects) ∧
      ∀ s', (loopBody report (.ready clock (some ev) tun) s).control.state = some s' →
        s'.psc.client uid = s.psc.client uid := by
  constructor
  · intro packet hmem
    apply hnot
    rw [loopBody_ready, (andThen_tun_frame _ _ tun).2.1] at hmem
    rw [loopBody_ready, (andThen_tun_frame _ _ tun).1]
    exact acceptedOf_of_writesOf hrecv hmem
  · intro s' hstate
    rcases pass_psc hstate with hpsc | ⟨ev', d', v, node, hev, hrecv', ha, hpsc⟩
    · rw [hpsc]
    · obtain rfl := Option.some.inj hev
      obtain rfl := Option.some.inj (hrecv.symm.trans hrecv')
      have hv : uid ≠ v := by
        rintro rfl
        exact hnot ((mem_acceptedOf_pass clock (some ev) tun s uid d.sender).2
          ⟨d, rfl, ev, node, rfl, hrecv, ha⟩)
      rw [hpsc, client_setClient, if_neg hv]

theorem datagram_of_sent {ev : ClientLoop.TunReady} {c : ClientLoop.SvpnClient}
    {p datagram : List UInt8} {ret : ℤ} (hpacket : ev.packet = some p) (hlen : p.length ≤ bufferLen)
    (hsent : .sendto datagram ret ∈ (ClientLoop.tunBranch ev c).1) :
    datagram = p.map c.table.encodeByte := by
  have hcases := (ClientSteps.tunBranch_cases ev c).1
  generalize (ClientLoop.tunBranch ev c).1 = es at hcases hsent
  cases hcases with
  | failed hnone => simp at hsent
  | sent hsome =>
    obtain rfl := Option.some.inj (hpacket.symm.trans hsome)
    simp only [List.mem_cons, reduceCtorEq, ClientLoop.ClientEffect.sendto.injEq, List.not_mem_nil,
      or_false, false_or] at hsent
    rw [hsent.1, received_eq hlen]
  | dropped hsome =>
    obtain rfl := Option.some.inj (hpacket.symm.trans hsome)
    simp only [List.mem_cons, reduceCtorEq, ClientLoop.ClientEffect.sendto.injEq, List.not_mem_nil,
      or_false, false_or] at hsent
    rw [hsent.1, received_eq hlen]

/-- What client `v` sends is accepted as user `u` only if the packet does not
start with the header byte, and then exactly if `v`'s table gives `u` for that
byte and `u`'s table finds `u`'s source address in the datagram. -/
theorem cross_user_attribution (localAddr : Vector UInt8 4) (addrs : UInt8 → SockaddrIn6)
    (users : UInt8 → Option Digest) (buffer tmpBuffer : Cells UInt8) (start : ℤ)
    (inputs : List Select) (s : LoopState)
    (hrun : (svpnServerHandleThread outputInfo inputs
      (loopStart (serverOf localAddr addrs users) buffer tmpBuffer start)).2 = some s)
    (u v : UInt8) (digestU digestV : Digest) (hne : u ≠ v) (hu : users u = some digestU)
    (c : ClientLoop.SvpnClient)
    (htable : c.table = keyTable digestV v) (cev : ClientLoop.TunReady) (p : List UInt8)
    (hpacket : cev.packet = some p) (hlen : 20 ≤ p.length ∧ p.length ≤ bufferLen)
    (datagram : List UInt8) (sent : ℤ)
    (hsent : .sendto datagram sent ∈ (ClientLoop.tunBranch cev c).1) (clock : ℤ) (ev : SockReady)
    (tun : Option TunReady) (sender : SockaddrIn6) (hrecv : ev.recv = some ⟨sender, datagram⟩) :
    ((u, sender) ∈ acceptedOf (loopBody outputInfo (.ready clock (some ev) tun) s).effects ↔
      p.head? ≠ some ipMagicHeader ∧ datagram.head? = some u ∧
        SourceIs localAddr u (datagram.map (keyTable digestU u).decodeByte)) ∧
    ((u, sender) ∉ acceptedOf (loopBody outputInfo (.ready clock (some ev) tun) s).effects →
      (∀ packet, (u, packet) ∉
        writesOf (loopBody outputInfo (.ready clock (some ev) tun) s).effects) ∧
      ∀ s', (loopBody outputInfo (.ready clock (some ev) tun) s).control.state = some s' →
        s'.psc.client u = s.psc.client u) := by
  obtain rfl : datagram = p.map (keyTable digestV v).encodeByte := by
    rw [← htable]
    exact datagram_of_sent hpacket hlen.2 hsent
  have hrouted := routed_of_handleThread hrun
  have hlocal : s.psc.localAddr = localAddr := hrouted.localAddr
  obtain ⟨node, hclient, hnode⟩ := client_of_serverOf hrouted hu
  have hlong : 16 ≤ (p.map (keyTable digestV v).encodeByte).length := by
    rw [List.length_map]
    omega
  refine ⟨?_, fun hnot => untouched_of_not_accepted hrecv hnot⟩
  rw [← hlocal, ← hnode, mem_acceptedOf_pass]
  constructor
  · rintro ⟨d, -, ev', node', hev, hrecv', ha⟩
    obtain rfl := Option.some.inj hev
    obtain rfl := Option.some.inj (hrecv.symm.trans hrecv')
    obtain rfl := Option.some.inj (hclient.symm.trans ha.client)
    refine ⟨fun hhead => hne ?_, ha.head, (accepts_iff ha.head hclient hlong).1 ha⟩
    have hfirst := ha.head
    rw [List.head?_map, hhead, Option.map_some, ← key_table, (key digestV v).encode_header,
      Option.some.injEq] at hfirst
    exact hfirst.symm
  · rintro ⟨-, hhead, hsource⟩
    exact ⟨_, rfl, ev, node, rfl, hrecv, (accepts_iff hhead hclient hlong).2 hsource⟩

def sampleClient : ClientLoop.SvpnClient := ⟨keyTable (Vector.replicate 16 0) 3, fun _ => 0, fun _ => 0⟩

/-- The source field of user 6 in user 6's code, after the byte 6. -/
def crossedDatagram : List UInt8 :=
  6 :: List.replicate 11 0 ++ [192, 168, 3, 6].map sampleKey.table.encodeByte ++ List.replicate 4 0

/-- The packet that client 3 has to read in order to send the crossed datagram. -/
def crossedPacket : List UInt8 := crossedDatagram.map sampleClient.table.decodeByte

theorem crossedDatagram_eq : crossedPacket.map sampleClient.table.encodeByte = crossedDatagram := by
  have hinverse := (key (Vector.replicate 16 0) 3).encode_decode
  rw [key_table] at hinverse
  unfold crossedPacket sampleClient
  simp [Function.comp_def, hinverse]

theorem sent_crossedPacket :
    .sendto crossedDatagram 20 ∈ (ClientLoop.tunBranch ⟨some crossedPacket, 20⟩ sampleClient).1 := by
  have hcases := (ClientSteps.tunBranch_cases ⟨some crossedPacket, 20⟩ sampleClient).1
  generalize (ClientLoop.tunBranch ⟨some crossedPacket, 20⟩ sampleClient).1 = es at hcases
  have hle : crossedPacket.length ≤ bufferLen := by decide
  cases hcases with
  | failed hnone => cases hnone
  | sent hsome =>
    obtain rfl := Option.some.inj hsome
    rw [received_eq hle, crossedDatagram_eq]
    simp
  | dropped hsome =>
    obtain rfl := Option.some.inj hsome
    rw [received_eq hle, crossedDatagram_eq]
    simp

theorem sourceIs_crossed :
    SourceIs sampleLocal 6 (crossedDatagram.map sampleKey.table.decodeByte) := by
  have hinverse := sampleKey.decode_encode
  refine ⟨?_, ?_, ?_, ?_⟩ <;>
    simp only [crossedDatagram, List.map_cons, List.map_nil, List.replicate, List.cons_append,
      List.nil_append, List.getElem?_cons_succ, List.getElem?_cons_zero, hinverse] <;>
    rfl

/-- Client 3 sends a packet that the server accepts and writes as user 6. -/
theorem crossed_packet_accepted :
    .sendto crossedDatagram 20 ∈ (ClientLoop.tunBranch ⟨some crossedPacket, 20⟩ sampleClient).1 ∧
      (6, sampleAddr 1) ∈ acceptedOf (loopBody outputInfo
        (.ready 1 (some ⟨some ⟨sampleAddr 1, crossedDatagram⟩, 20, true⟩) none) sampleStart).effects ∧
      ∃ packet, (6, packet) ∈ writesOf (loopBody outputInfo
        (.ready 1 (some ⟨some ⟨sampleAddr 1, crossedDatagram⟩, 20, true⟩) none) sampleStart).effects := by
  have hsource : SourceOk sampleStart.psc.localAddr 6
      (decoded sampleStart sampleKey.table ⟨sampleAddr 1, crossedDatagram⟩) :=
    (sourceOk_decoded _ _ _ _ (by decide)).2 sourceIs_crossed
  have hclient : sampleStart.psc.client 6 = some ⟨sampleAddr 0, sampleKey.table⟩ := client_sampleServer
  refine ⟨sent_crossedPacket, ?_, ?_⟩
  · exact (mem_acceptedOf_of_client (d := ⟨sampleAddr 1, crossedDatagram⟩) rfl rfl hclient).2 hsource
  · refine (mem_writesOf_pass (d := ⟨sampleAddr 1, crossedDatagram⟩) rfl rfl hclient).2 ⟨hsource, ?_⟩
    rw [← outputInfo_eq_none]
    exact Option.some_ne_none _

/-- The crossed packet meets the condition under which it is taken for user 6's. -/
theorem cross_user_attribution_sample :
    (6, sampleAddr 1) ∈ acceptedOf (loopBody outputInfo
        (.ready 1 (some ⟨some ⟨sampleAddr 1, crossedDatagram⟩, 20, true⟩) none) sampleStart).effects ↔
      crossedPacket.head? ≠ some ipMagicHeader ∧ crossedDatagram.head? = some 6 ∧
        SourceIs sampleLocal 6
          (crossedDatagram.map (keyTable (Vector.replicate 16 0) 6).decodeByte) :=
  (cross_user_attribution sampleLocal (fun _ => sampleAddr 0) sampleUsers (fun _ => 0) (fun _ => 0) 0
    [] sampleStart rfl 6 3 (Vector.replicate 16 0) (Vector.replicate 16 0) (by decide) rfl
    sampleClient rfl ⟨some crossedPacket, 20⟩ crossedPacket rfl (by decide) crossedDatagram 20
    sent_crossedPacket 1 ⟨some ⟨sampleAddr 1, crossedDatagram⟩, 20, true⟩ none (sampleAddr 1) rfl).1

end SVpn.FirstByte
