import SVpn.RoutingTable

set_option autoImplicit false

/-!
What decides about a datagram. With 16 bytes or more it is the datagram; a
shorter one is judged by bytes that earlier traffic left in the buffer.
-/
namespace SVpn.Authentication
open SVpn.Region SVpn.Crypt SVpn.KeyTable SVpn.OutputInfo SVpn.ServerLoop SVpn.ServerSteps
open SVpn.ServerRuns SVpn.SourceCheck SVpn.RoutingTable SVpn.Trace

/-- The server records the sender, and writes to the tunnel, exactly when the
datagram itself holds the encrypted source address of its user. -/
def DecidedByDatagram (s : LoopState) (clock : ℤ) (ev : SockReady) (tun : Option TunReady)
    (d : Datagram) (uid : UInt8) (node : SvpnClientNode) : Prop :=
  ((uid, d.sender) ∈ acceptedOf (loopBody outputInfo (.ready clock (some ev) tun) s).effects ↔
    SourceIs s.psc.localAddr uid (d.data.map node.table.decodeByte)) ∧
  ((∃ packet, (uid, packet) ∈
      writesOf (loopBody outputInfo (.ready clock (some ev) tun) s).effects) ↔
    SourceIs s.psc.localAddr uid (d.data.map node.table.decodeByte))

/-- A datagram too short for a source address meets no matching bytes in the
buffer, and the report on a rightful one does not end the process. -/
def Conclusive (s : LoopState) (clock : ℤ) (ev : SockReady) (d : Datagram) (uid : UInt8)
    (node : SvpnClientNode) : Prop :=
  (d.data.length < 16 → ¬ SourceOk s.psc.localAddr uid (decoded s node.table d)) ∧
  (SourceIs s.psc.localAddr uid (d.data.map node.table.decodeByte) →
    ¬ ReportFaults ev.fopen (countSend (tick s clock).globals (received d.data).length))

def ConclusiveInput (s : LoopState) (input : Select) : Prop :=
  ∀ clock ev tun d uid node, input = .ready clock (some ev) tun → ev.recv = some d →
    d.data.head? = some uid → s.psc.client uid = some node → Conclusive s clock ev d uid node

theorem mem_writesOf_pass {s : LoopState} {clock : ℤ} {ev : SockReady} {tun : Option TunReady}
    {d : Datagram} {uid : UInt8} {node : SvpnClientNode} (hrecv : ev.recv = some d)
    (hhead : d.data.head? = some uid) (hclient : s.psc.client uid = some node) :
    (∃ packet, (uid, packet) ∈ writesOf (loopBody outputInfo (.ready clock (some ev) tun) s).effects) ↔
      SourceOk s.psc.localAddr uid (decoded s node.table d) ∧
        ¬ ReportFaults ev.fopen (countSend (tick s clock).globals (received d.data).length) := by
  by_cases hsource : SourceOk s.psc.localAddr uid (decoded s node.table d)
  · rw [(pass_accepts _ _ tun hrecv ⟨hhead, hclient, hsource⟩).2.1, ← outputInfo_eq_none]
    change _ ↔ _ ∧ ¬ (sendReport outputInfo ev (tick s clock) d).2 = none
    cases (sendReport outputInfo ev (tick s clock) d).2 with
    | none => simp
    | some globals => simp [hsource]
  · have hrefused : ∀ uid' node', ¬ Accepts s d uid' node' := by
      intro uid' node' ha
      obtain rfl : uid' = uid := Option.some.inj (ha.head.symm.trans hhead)
      obtain rfl : node' = node := Option.some.inj (ha.client.symm.trans hclient)
      exact hsource ha.source
    rw [(pass_refuses _ _ tun hrecv hrefused).2]
    simp [hsource]

theorem mem_acceptedOf_of_client {s : LoopState} {clock : ℤ} {ev : SockReady}
    {tun : Option TunReady} {d : Datagram} {uid : UInt8} {node : SvpnClientNode}
    (hrecv : ev.recv = some d) (hhead : d.data.head? = some uid)
    (hclient : s.psc.client uid = some node) :
    (uid, d.sender) ∈ acceptedOf (loopBody outputInfo (.ready clock (some ev) tun) s).effects ↔
      SourceOk s.psc.localAddr uid (decoded s node.table d) := by
  rw [mem_acceptedOf_pass]
  constructor
  · rintro ⟨d', -, ev', node', hev, hrecv', ha⟩
    obtain rfl := Option.some.inj hev
    obtain rfl := Option.some.inj (hrecv.symm.trans hrecv')
    obtain rfl := Option.some.inj (hclient.symm.trans ha.client)
    exact ha.source
  · intro hsource
    exact ⟨d, rfl, ev, node, rfl, hrecv, hhead, hclient, hsource⟩

theorem decidedByDatagram_iff (tun : Option TunReady) {s : LoopState} {clock : ℤ} {ev : SockReady}
    {d : Datagram} {uid : UInt8} {node : SvpnClientNode} (hrecv : ev.recv = some d)
    (hhead : d.data.head? = some uid) (hclient : s.psc.client uid = some node) :
    DecidedByDatagram s clock ev tun d uid node ↔ Conclusive s clock ev d uid node := by
  unfold DecidedByDatagram Conclusive
  rw [mem_acceptedOf_of_client hrecv hhead hclient, mem_writesOf_pass hrecv hhead hclient]
  by_cases hlen : 16 ≤ d.data.length
  · rw [sourceOk_decoded s node.table d uid hlen]
    have hlong : ¬ d.data.length < 16 := by omega
    simp only [iff_self, true_and, hlong, false_imp_iff]
    tauto
  · have hown : ¬ SourceIs s.psc.localAddr uid (d.data.map node.table.decodeByte) := by
      intro h
      have := h.length
      rw [List.length_map] at this
      omega
    have hshort : d.data.length < 16 := by omega
    simp only [hown, iff_false, hshort, true_imp_iff, false_imp_iff, and_true]
    tauto

def Authentic (psc : SvpnServer) (h : List Effect) (uid : UInt8) (addr : SockaddrIn6) : Prop :=
  ∃ d first, .recvfrom d ∈ h ∧ d.sender = addr ∧ psc.client uid = some first ∧
    SourceIs psc.localAddr uid (d.data.map first.table.decodeByte)

theorem Authentic.append {psc : SvpnServer} {h : List Effect} {uid : UInt8} {addr : SockaddrIn6}
    (ha : Authentic psc h uid addr) (es : List Effect) : Authentic psc (h ++ es) uid addr := by
  obtain ⟨d, first, hmem, hrest⟩ := ha
  exact ⟨d, first, List.mem_append_left es hmem, hrest⟩

theorem mem_recvfrom_of_accepted {s : LoopState} {clock : ℤ} {ev : SockReady}
    {tun : Option TunReady} {d : Datagram} {uid : UInt8} {node : SvpnClientNode}
    (hrecv : ev.recv = some d) (ha : Accepts s d uid node) :
    .recvfrom d ∈ (loopBody outputInfo (.ready clock (some ev) tun) s).effects := by
  have hfirst : .recvfrom d ∈ (sockBranch outputInfo ev (tick s clock)).effects := by
    obtain ⟨shown, -, heq⟩ := sockBranch_accepted outputInfo hrecv
      ((accepts_tick clock).2 ha)
    rw [heq]
    cases (sendReport outputInfo ev (tick s clock) d).2 <;> exact List.mem_cons_self
  change _ ∈ ((sockBranch outputInfo ev (tick s clock)).andThen _).effects
  unfold Outcome.andThen
  cases (sockBranch outputInfo ev (tick s clock)).control with
  | next s' => exact List.mem_append_left _ hfirst
  | skip s' => exact hfirst
  | exit => exact hfirst
  | fault => exact hfirst

theorem routed_of_passes {ok : LoopState → Select → Prop} {s₀ s : LoopState} {h : List Effect}
    (run : Reaches (Pass outputInfo ok) s₀ h (some s)) : Routed s₀.psc h s :=
  routed_of_phases (phases_of_passes run)

theorem Conclusive.sourceIs {s : LoopState} {clock : ℤ} {ev : SockReady} {d : Datagram}
    {uid : UInt8} {node : SvpnClientNode} (hc : Conclusive s clock ev d uid node)
    (ha : Accepts s d uid node) :
    SourceIs s.psc.localAddr uid (d.data.map node.table.decodeByte) := by
  have hlen : 16 ≤ d.data.length := by
    by_contra hshort
    exact hc.1 (by omega) ha.source
  exact (sourceOk_decoded s node.table d uid hlen).1 ha.source

theorem accepted_authentic {s₀ : LoopState} {h : List Effect} {r : Option LoopState}
    (run : Reaches (Pass outputInfo ConclusiveInput) s₀ h r) :
    ∀ uid addr, (uid, addr) ∈ acceptedOf h → Authentic s₀.psc h uid addr := by
  induction run with
  | start => simp
  | @step h es s r before hs ih =>
    intro uid addr hmem
    rw [acceptedOf_append, List.mem_append] at hmem
    rcases hmem with hold | hnew
    · exact (ih uid addr hold).append es
    · obtain ⟨input, hguard, rfl, -⟩ := hs
      cases input with
      | interrupted => simp [loopBody] at hnew
      | failed => simp [loopBody] at hnew
      | ready clock sock tun =>
        obtain ⟨d, rfl, ev, node, rfl, hrecv, ha⟩ := (mem_acceptedOf_pass clock sock tun s uid addr).1 hnew
        have hrouted := routed_of_passes before
        obtain ⟨first, hfirst, htable, -⟩ := hrouted.client_start ha.client
        have hsource :=
          (hguard clock ev tun d uid node rfl hrecv ha.head ha.client).sourceIs ha
        rw [hrouted.localAddr, htable] at hsource
        exact ⟨d, first, List.mem_append_right h (mem_recvfrom_of_accepted hrecv ha), rfl, hfirst,
          hsource⟩

/-- In every state reached, the datagram alone decides exactly when it is
conclusive. In runs of conclusive datagrams nobody's address moves without an
encrypted source address, and two such runs judge a datagram alike. -/
theorem authentication_by_datagram (s₀ : LoopState) :
    (∀ h s, Reaches (Pass outputInfo anyInput) s₀ h (some s) →
      ∀ clock ev tun d uid node, ev.recv = some d → d.data.head? = some uid →
        s.psc.client uid = some node →
        (DecidedByDatagram s clock ev tun d uid node ↔ Conclusive s clock ev d uid node)) ∧
    (∀ h s, Reaches (Pass outputInfo ConclusiveInput) s₀ h (some s) →
      ∀ uid first node, s₀.psc.client uid = some first → s.psc.client uid = some node →
        node.addr ≠ first.addr → Authentic s₀.psc h uid node.addr) ∧
    (∀ s₀' h h' s s', s₀'.psc.localAddr = s₀.psc.localAddr →
      (∀ uid, (s₀'.psc.client uid).map (·.table) = (s₀.psc.client uid).map (·.table)) →
      Reaches (Pass outputInfo ConclusiveInput) s₀ h (some s) →
      Reaches (Pass outputInfo ConclusiveInput) s₀' h' (some s') →
      ∀ clock ev tun clock' ev' tun' d uid node node', ev.recv = some d → ev'.recv = some d →
        d.data.head? = some uid → s.psc.client uid = some node → s'.psc.client uid = some node' →
        Conclusive s clock ev d uid node → Conclusive s' clock' ev' d uid node' →
        ((uid, d.sender) ∈ acceptedOf (loopBody outputInfo (.ready clock (some ev) tun) s).effects ↔
          (uid, d.sender) ∈
            acceptedOf (loopBody outputInfo (.ready clock' (some ev') tun') s').effects)) := by
  refine ⟨?_, ?_, ?_⟩
  · intro h s _ clock ev tun d uid node hrecv hhead hclient
    exact decidedByDatagram_iff tun hrecv hhead hclient
  · intro h s run uid first node hfirst hclient hmoved
    obtain ⟨first', hfirst', -, haddr⟩ := (routed_of_passes run).client_start hclient
    obtain rfl : first = first' := Option.some.inj (hfirst.symm.trans hfirst')
    cases hlast : lastAccepted uid h with
    | none => exact absurd (by rw [haddr, hlast, Option.getD_none]) hmoved
    | some addr =>
      rw [haddr, hlast, Option.getD_some]
      exact accepted_authentic run uid addr (mem_acceptedOf_of_lastAccepted hlast)
  · intro s₀' h h' s s' hlocal htables run run' clock ev tun clock' ev' tun' d uid node node'
      hrecv hrecv' hhead hclient hclient' hc hc'
    have hrouted := routed_of_passes run
    have hrouted' := routed_of_passes run'
    have htable : node'.table = node.table := by
      obtain ⟨first, hfirst, ht, -⟩ := hrouted.client_start hclient
      obtain ⟨first', hfirst', ht', -⟩ := hrouted'.client_start hclient'
      have hsame := htables uid
      rw [hfirst, hfirst', Option.map_some, Option.map_some, Option.some.injEq] at hsame
      rw [ht, ht', hsame]
    have hdecided := (decidedByDatagram_iff tun hrecv hhead hclient).2 hc
    have hdecided' := (decidedByDatagram_iff tun' hrecv' hhead hclient').2 hc'
    rw [hdecided.1, hdecided'.1, hrouted.localAddr, hrouted'.localAddr, hlocal, htable]

/-- After one packet of user 6, a datagram that is the single byte 6 is accepted
from another address: the source it is judged by is the one still in the buffer. -/
theorem stale_source_accepted :
    ∃ h s node, Reaches (Pass outputInfo anyInput) sampleStart h (some s) ∧
      s.psc.client 6 = some node ∧
      (6, sampleAddr 2) ∈ acceptedOf (loopBody outputInfo
        (.ready 2 (some ⟨some ⟨sampleAddr 2, [6]⟩, 1, true⟩) none) s).effects ∧
      ¬ DecidedByDatagram s 2 ⟨some ⟨sampleAddr 2, [6]⟩, 1, true⟩ none ⟨sampleAddr 2, [6]⟩ 6 node := by
  have hclient := client_sampleAccepted
  have hsource : SourceOk sampleAccepted.psc.localAddr 6
      (decoded sampleAccepted sampleKey.table ⟨sampleAddr 2, [6]⟩) := by
    have hbyte : ∀ i, 1 ≤ i → decoded sampleAccepted sampleKey.table ⟨sampleAddr 2, [6]⟩ i =
        store (fun _ => 0) 0 samplePacket i := by
      intro i hi
      rw [← buffer_sampleAccepted]
      exact store_zero_ge _ _ _ hi
    unfold SourceOk srcIp
    rw [hbyte _ (by decide), hbyte _ (by decide), hbyte _ (by decide), hbyte _ (by decide)]
    decide
  have haccepted : (6, sampleAddr 2) ∈ acceptedOf (loopBody outputInfo
      (.ready 2 (some ⟨some ⟨sampleAddr 2, [6]⟩, 1, true⟩) none) sampleAccepted).effects :=
    (mem_acceptedOf_of_client (d := ⟨sampleAddr 2, [6]⟩) rfl rfl hclient).2 hsource
  refine ⟨_, sampleAccepted, ⟨sampleAddr 1, sampleKey.table⟩,
    .step .start ⟨sampleFirst, trivial, rfl, state_sampleFirst⟩, hclient, haccepted, ?_⟩
  intro hdecided
  have hlong := (hdecided.1.1 haccepted).length
  simp at hlong

end SVpn.Authentication
