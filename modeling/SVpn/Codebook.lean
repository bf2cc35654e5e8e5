import SVpn.ClientRelay
import SVpn.Registration
import SVpn.Sequences

set_option autoImplicit false

/-!
What known packets give away. The cipher replaces byte by byte, so an observer who
has packets of a user and the datagrams made of them can write datagrams of its own:
any packet over the bytes it has seen.
-/
namespace SVpn.Codebook
open SVpn.Crypt SVpn.KeyTable SVpn.OutputInfo SVpn.ServerLoop SVpn.ServerSteps SVpn.ServerRuns
open SVpn.SourceCheck SVpn.Sequences SVpn.Trace

/-- A datagram for `q`, from the packets a client has read and the datagrams it has sent. -/
def forge (packets datagrams : List (List UInt8)) (q : List UInt8) : Option (List UInt8) :=
  translate (pairUp packets datagrams) q

theorem forge_client {c₀ : ClientLoop.SvpnClient} {h : List ClientLoop.ClientEffect}
    {r : Option ClientLoop.SvpnClient} (run : Reaches ClientRelay.Pass c₀ h r) {q : List UInt8}
    (hbytes : ∀ b ∈ q, ∃ p ∈ ClientRelay.readsOf h, b ∈ p) :
    forge (ClientRelay.readsOf h) (ClientRelay.sendsOf h) q = some (q.map c₀.table.encodeByte) := by
  rw [forge, ClientRelay.sends_eq run]
  exact translate_graph c₀.table.encodeByte hbytes

variable {uid : UInt8} (k : Key uid)

/-- A packet with the user's source field passes under the user's table from anywhere. -/
theorem accepts_forged {s : LoopState} {node : SvpnClientNode} {d : Datagram} {q : List UInt8}
    (hclient : s.psc.client uid = some node) (htable : node.table = k.table)
    (hdata : d.data = q.map k.table.encodeByte) (hheader : q.head? = some ipMagicHeader)
    (hsource : SourceIs s.psc.localAddr uid q) : Accepts s d uid node := by
  have hhead : d.data.head? = some uid := by
    rw [hdata, List.head?_map, hheader, Option.map_some, k.encode_header]
  have hlen : 16 ≤ d.data.length := by
    rw [hdata, List.length_map]
    exact hsource.length
  rw [accepts_iff hhead hclient hlen, hdata, htable, k.map_decode_encode]
  exact hsource

theorem write_forged {report : Reporter} {ev : SockReady} {s s' : LoopState} {node : SvpnClientNode}
    {d : Datagram} {q : List UInt8} (htable : node.table = k.table)
    (hdata : d.data = q.map k.table.encodeByte) (hlen : q.length ≤ bufferLen)
    (hrecv : ev.recv = some d) (haccepts : Accepts s d uid node)
    (hstate : (sockBranch report ev s).control.state = some s') :
    .write uid q ev.writeRet ∈ (sockBranch report ev s).effects := by
  have hwrite := (accepted_survives hrecv haccepts hstate).2
  rwa [received_eq (by simpa [hdata] using hlen), hdata, htable, k.map_decode_encode] at hwrite

theorem client_write_forged {ev : ClientLoop.SockReady} {c : ClientLoop.SvpnClient} {q : List UInt8}
    (htable : c.table = k.table) (hrecv : ev.recv = some (q.map k.table.encodeByte))
    (hlen : q.length ≤ bufferLen) (hversion : ClientSteps.VersionFour q) :
    .write q ev.writeRet ∈ (ClientLoop.sockBranch ev c).1 := by
  have hplain : (received (q.map k.table.encodeByte)).map c.table.decodeByte = q := by
    rw [received_eq (by rw [List.length_map]; exact hlen), htable, k.map_decode_encode]
  have hcases := (ClientSteps.sockBranch_cases ev c).1
  generalize (ClientLoop.sockBranch ev c).1 = es at hcases
  cases hcases with
  | failed hnone =>
    rw [hrecv] at hnone
    cases hnone
  | @written d hd =>
    obtain rfl := Option.some.inj (hrecv.symm.trans hd)
    rw [hplain]
    exact List.mem_cons_of_mem _ List.mem_cons_self
  | @refused d hd hrefused =>
    obtain rfl := Option.some.inj (hrecv.symm.trans hd)
    rw [hplain] at hrefused
    refine absurd hversion (hrefused fun hnil => ?_)
    rw [List.map_eq_nil_iff.1 hnil] at hversion
    cases hversion

theorem client_table {report : Reporter} {s₀ s : LoopState} {h : List Effect}
    (run : Reaches (Phase report) s₀ h (some s))
    (htable : (s₀.psc.client uid).map (·.table) = some k.table) :
    ∃ node, s.psc.client uid = some node ∧ node.table = k.table := by
  have hlater := (routed_of_phases run).clients uid
  obtain ⟨first, hfirst, hsame⟩ := Option.map_eq_some_iff.1 htable
  rw [hfirst, Option.map_some] at hlater
  exact ⟨_, hlater, hsame⟩

/-- Whoever has the packets a client has read and the datagrams it has sent can make,
for every packet over the same bytes, a datagram that the server accepts from any
sender and writes as that packet if its report returns, and that every client with the key
writes so too. -/
theorem known_packets_forge {report : Reporter} {c₀ : ClientLoop.SvpnClient}
    {hc : List ClientLoop.ClientEffect} {rc : Option ClientLoop.SvpnClient} {s₀ s : LoopState}
    {hs : List Effect} {q : List UInt8} (hkey : c₀.table = k.table)
    (htable : (s₀.psc.client uid).map (·.table) = some k.table)
    (runClient : Reaches ClientRelay.Pass c₀ hc rc)
    (runServer : Reaches (Phase report) s₀ hs (some s))
    (hbytes : ∀ b ∈ q, ∃ p ∈ ClientRelay.readsOf hc, b ∈ p) (hlen : q.length ≤ bufferLen) :
    ∃ data, forge (ClientRelay.readsOf hc) (ClientRelay.sendsOf hc) q = some data ∧
      (q.head? = some ipMagicHeader → SourceIs s₀.psc.localAddr uid q →
        ∀ ev sender, ev.recv = some ⟨sender, data⟩ →
          .accepted uid sender ∈ (sockBranch report ev s).effects ∧
            ∀ s', (sockBranch report ev s).control.state = some s' →
              .write uid q ev.writeRet ∈ (sockBranch report ev s).effects) ∧
      (ClientSteps.VersionFour q → ∀ (ev : ClientLoop.SockReady) (c : ClientLoop.SvpnClient),
        c.table = k.table → ev.recv = some data →
          .write q ev.writeRet ∈ (ClientLoop.sockBranch ev c).1) := by
  obtain ⟨node, hclient, hnode⟩ := client_table k runServer htable
  refine ⟨q.map k.table.encodeByte, hkey ▸ forge_client runClient hbytes, ?_, ?_⟩
  · intro hheader hsource ev sender hrecv
    rw [← (routed_of_phases runServer).localAddr] at hsource
    have haccepts := accepts_forged k (d := ⟨sender, _⟩) hclient hnode rfl hheader hsource
    exact ⟨accepted_mem report hrecv haccepts,
      fun s' hstate => write_forged k hnode rfl hlen hrecv haccepts hstate⟩
  · intro hversion ev c hc hrecv
    exact client_write_forged k hc hrecv hlen hversion

def sampleKnown : ClientLoop.Select := .ready (some ⟨some samplePacket, 20⟩) none

def sampleOther : List UInt8 :=
  [0x45, 0, 0, 20, 0, 0, 0, 0, 64, 1, 0, 0, 192, 168, 3, 6, 192, 168, 3, 64]

theorem source_sampleOther : SourceIs sampleStart.psc.localAddr 6 sampleOther := by
  change SourceIs sampleLocal 6 sampleOther
  decide

def sampleOtherReady : SockReady :=
  ⟨some ⟨sampleAddr 2, sampleOther.map sampleKey.table.encodeByte⟩, 20, true⟩

theorem state_sampleOther :
    ∃ s', (sockBranch outputInfo sampleOtherReady sampleStart).control.state = some s' := by
  have haccepts := accepts_forged sampleKey (s := sampleStart)
    (d := ⟨sampleAddr 2, sampleOther.map sampleKey.table.encodeByte⟩) client_sampleServer rfl rfl rfl
    source_sampleOther
  have hrecv : sampleOtherReady.recv =
      some ⟨sampleAddr 2, sampleOther.map sampleKey.table.encodeByte⟩ := rfl
  obtain ⟨shown, -, heq⟩ := sockBranch_accepted outputInfo hrecv haccepts
  rw [heq]
  exact ⟨_, rfl⟩

theorem known_packets_forge_sample :
    .write 6 sampleOther 20 ∈ (sockBranch outputInfo sampleOtherReady sampleStart).effects := by
  have runClient : Reaches ClientRelay.Pass ClientRelay.sampleClient
      ([] ++ (ClientLoop.loopBody sampleKnown ClientRelay.sampleClient).1)
      (ClientLoop.loopBody sampleKnown ClientRelay.sampleClient).2 :=
    .step .start ⟨sampleKnown, rfl⟩
  have runServer : Reaches (Phase outputInfo) sampleStart [] (some sampleStart) := .start
  have htable : (sampleStart.psc.client 6).map (·.table) = some sampleKey.table := by
    have hpsc : sampleStart.psc = sampleServer := rfl
    rw [hpsc, client_sampleServer, Option.map_some]
  have hreads : ClientRelay.readsOf
      ([] ++ (ClientLoop.loopBody sampleKnown ClientRelay.sampleClient).1) = [samplePacket] := by
    have hreceived : received samplePacket = samplePacket :=
      received_eq (by decide)
    exact congrArg (fun p => [p]) hreceived
  have hbytes : ∀ b ∈ sampleOther, ∃ p ∈ ClientRelay.readsOf
      ([] ++ (ClientLoop.loopBody sampleKnown ClientRelay.sampleClient).1), b ∈ p := by
    have hover : ∀ b ∈ sampleOther, b ∈ samplePacket := by decide +kernel
    rw [hreads]
    exact fun b hb => ⟨samplePacket, List.mem_singleton_self _, hover b hb⟩
  obtain ⟨data, hforge, huplink, -⟩ :=
    known_packets_forge sampleKey rfl htable runClient runServer hbytes (by decide)
  obtain rfl : sampleOther.map sampleKey.table.encodeByte = data :=
    Option.some.inj ((forge_client runClient hbytes).symm.trans hforge)
  obtain ⟨s', hstate⟩ := state_sampleOther
  exact (huplink rfl source_sampleOther sampleOtherReady (sampleAddr 2) rfl).2 s' hstate

end SVpn.Codebook
