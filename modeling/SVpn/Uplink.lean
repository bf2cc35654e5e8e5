import SVpn.System

set_option autoImplicit false

/-!
From the clients to the server. What the server writes was read by the client it
names; a rightful datagram is written unless its report ends the process first.
-/
namespace SVpn.Uplink
open SVpn.Region SVpn.Crypt SVpn.KeyTable SVpn.OutputInfo SVpn.ServerLoop SVpn.ServerSteps
open SVpn.ServerRuns SVpn.SourceCheck SVpn.RoutingTable SVpn.Trace SVpn.System

/-- Clients read packets that start with the header byte, and the server receives
what a client has sent: late, twice or never, in any order. -/
def uplink (before : List Event) : Event → Prop
  | .server (.recvfrom d) => ∃ uid ret, .client uid d.sender (.sendto d.data ret) ∈ before
  | .client _ _ (.read p) => HeaderPacket p
  | _ => True

variable {env : List Event → Event → Prop} {D : Deployment}

theorem head?_of_encrypts {uid : UInt8} {p datagram : List UInt8} (h : D.Encrypts uid p datagram)
    (hp : HeaderPacket p) : datagram.head? = some uid := by
  obtain ⟨passmd5, -, rfl⟩ := h
  rw [← key_table]
  exact head?_encrypted (key passmd5 uid) hp

theorem length_of_encrypts {uid : UInt8} {p datagram : List UInt8}
    (h : D.Encrypts uid p datagram) : datagram.length = p.length := by
  obtain ⟨passmd5, -, rfl⟩ := h
  exact List.length_map _

theorem packet_of_encrypts {uid : UInt8} {p p' datagram : List UInt8}
    (h : D.Encrypts uid p datagram) (h' : D.Encrypts uid p' datagram) : p = p' := by
  obtain ⟨passmd5, huser, rfl⟩ := h
  obtain ⟨passmd5', huser', heq⟩ := h'
  obtain rfl := Option.some.inj (huser.symm.trans huser')
  rw [← key_table] at heq
  exact List.map_injective_iff.2 (key passmd5 uid).perm.injective heq

theorem sent_packet {h : List Event} (hcause : Each (Cause D) h) (huplink : Each uplink h)
    {uid : UInt8} {addr : SockaddrIn6} {datagram : List UInt8} {ret : ℤ}
    (hsent : .client uid addr (.sendto datagram ret) ∈ h) :
    ∃ a p, .client uid a (.read p) ∈ h ∧ HeaderPacket p ∧ D.Encrypts uid p datagram := by
  obtain ⟨before, after, rfl, a, p, hread, hencrypts⟩ := hcause.of_mem_history hsent
  obtain ⟨first, rest, -, hp⟩ := huplink.of_mem_history (List.mem_append_left _ hread)
  exact ⟨a, p, List.mem_append_left _ hread, hp, hencrypts⟩

theorem received_packet {h : List Event} (hcause : Each (Cause D) h) (huplink : Each uplink h)
    {d : Datagram} (hrecv : .server (.recvfrom d) ∈ h) {v : UInt8} (hhead : d.data.head? = some v) :
    ∃ a p ret, .client v d.sender (.sendto d.data ret) ∈ h ∧ .client v a (.read p) ∈ h ∧
      HeaderPacket p ∧ D.Encrypts v p d.data := by
  obtain ⟨before, after, rfl, uid, ret, hsent⟩ := huplink.of_mem_history hrecv
  have hmem := List.mem_append_left (Event.server (.recvfrom d) :: after) hsent
  obtain ⟨a, p, hread, hp, hencrypts⟩ := sent_packet hcause huplink hmem
  obtain rfl : uid = v := Option.some.inj ((head?_of_encrypts hencrypts hp).symm.trans hhead)
  exact ⟨a, p, ret, hmem, hread, hp, hencrypts⟩

/-- Every packet the server writes was read by the client of its source address. -/
theorem written_packet {h : List Event} (hcause : Each (Cause D) h) (huplink : Each uplink h) :
    Each (fun before e => ∀ uid packet ret, e = .server (.write uid packet ret) →
      SourceIs D.localAddr uid packet ∧ ∃ a, .client uid a (.read packet) ∈ before) h := by
  rintro before e after rfl uid packet ret rfl
  obtain ⟨hbefore, hwrite⟩ := each_append.1 hcause
  obtain ⟨d, whole, hrecv, -, hhead, hwhole, rfl, hsource⟩ := (each_cons.1 hwrite).1
  rw [List.append_nil] at hrecv
  obtain ⟨a, p, -, -, hread, hp, hencrypts⟩ :=
    received_packet hbefore (each_append.1 huplink).1 hrecv hhead
  obtain rfl := packet_of_encrypts hencrypts hwhole
  have hlen := length_of_encrypts hencrypts
  have hmin := hp.1
  rw [received_eq hp.2.1]
  exact ⟨hsource (by omega), a, hread⟩

/-- The pass writes exactly `p` and records the sender if the source address of
`p` is the user's, and does nothing else. -/
def Delivered (localAddr : Vector UInt8 4) (s : LoopState) (clock : ℤ) (ev : SockReady)
    (tun : Option TunReady) (sender : SockaddrIn6) (uid : UInt8) (p : List UInt8) : Prop :=
  let o := loopBody outputInfo (.ready clock (some ev) tun) s
  if SourceIs localAddr uid p then
    writesOf o.effects = [(uid, p)] ∧ acceptedOf o.effects = [(uid, sender)] ∧
      ∀ s', o.control.state = some s' → (s'.psc.client uid).map (·.addr) = some sender
  else writesOf o.effects = [] ∧ acceptedOf o.effects = []

theorem delivered_iff {h : List Event} {m : Parties} {s : LoopState} (run : Run env D h m)
    (hs : m.server = some s) (clock : ℤ) {ev : SockReady} (tun : Option TunReady) {d : Datagram}
    (hrecv : ev.recv = some d) {uid : UInt8} {p : List UInt8} (hp : HeaderPacket p)
    (hencrypts : D.Encrypts uid p d.data) :
    Delivered D.localAddr s clock ev tun d.sender uid p ↔
      (SourceIs D.localAddr uid p →
        ¬ ReportFaults ev.fopen (countSend (tick s clock).globals d.data.length)) := by
  have hrouted := (settled_of_run run).server s hs
  have hhead := head?_of_encrypts hencrypts hp
  have hreceived : received d.data = d.data :=
    received_eq ((length_of_encrypts hencrypts).trans_le hp.2.1)
  obtain ⟨passmd5, huser, hdata⟩ := hencrypts
  obtain ⟨node, hclient, htable⟩ := FirstByte.client_of_serverOf hrouted huser
  have haccepts : Accepts s d uid node ↔ SourceIs D.localAddr uid p := by
    rw [accepts_encrypted_iff (key passmd5 uid) hp hdata hclient htable, hrouted.localAddr]
    rfl
  unfold Delivered
  by_cases hsource : SourceIs D.localAddr uid p
  · obtain ⟨haccepted, hwrites, hpsc⟩ :=
      pass_accepts outputInfo clock tun hrecv (haccepts.2 hsource)
    have hdecoded : (received d.data).map node.table.decodeByte = p := by
      rw [hreceived, hdata, htable, ← key_table, (key passmd5 uid).map_decode_encode]
    have haddr : ∀ s', (loopBody outputInfo (.ready clock (some ev) tun) s).control.state = some s' →
        (s'.psc.client uid).map (·.addr) = some d.sender := by
      intro s' hs'
      rw [hpsc s' hs', client_setClient, if_pos rfl]
      rfl
    simp only [hsource, if_true, true_imp_iff, haccepted, hwrites, hdecoded]
    rw [← outputInfo_eq_none, ← hreceived]
    change _ ↔ ¬ (sendReport outputInfo ev (tick s clock) d).2 = none
    cases (sendReport outputInfo ev (tick s clock) d).2 with
    | none => simp
    | some globals => simpa using haddr
  · have hrefused : ∀ uid' node', ¬ Accepts s d uid' node' := by
      intro uid' node' ha
      obtain rfl : uid' = uid := Option.some.inj (ha.head.symm.trans hhead)
      obtain rfl : node' = node := Option.some.inj (ha.client.symm.trans hclient)
      exact hsource (haccepts.1 ha)
    obtain ⟨haccepted, hwrites⟩ := pass_refuses outputInfo clock tun hrecv hrefused
    simp only [hsource, if_false, false_imp_iff, haccepted, hwrites, and_self]

/-- In every run, what the server writes was read before by the client its source
address names. A client's datagram leads to exactly its packet being written when
the source address is right, if and only if the report on it does not end the
process, and to nothing when it is not right. -/
theorem uplink_agreement (D : Deployment) :
    (∀ h r, Reaches (Step uplink) D.boot h r →
      ∀ before uid packet ret after, h = before ++ .server (.write uid packet ret) :: after →
        SourceIs D.localAddr uid packet ∧ ∃ a, .client uid a (.read packet) ∈ before) ∧
    (∀ h m s, Run uplink D h m → m.server = some s →
      ∀ clock ev tun d uid ret, ev.recv = some d → .client uid d.sender (.sendto d.data ret) ∈ h →
        ∃ a p, .client uid a (.read p) ∈ h ∧ D.Encrypts uid p d.data ∧
          (Delivered D.localAddr s clock ev tun d.sender uid p ↔
            (SourceIs D.localAddr uid p →
              ¬ ReportFaults ev.fopen (countSend (tick s clock).globals d.data.length)))) := by
  refine ⟨?_, ?_⟩
  · intro h r run before uid packet ret after heq
    exact written_packet (each_cause run) (each_env run) before _ after heq uid packet ret rfl
  · intro h m s run hs clock ev tun d uid ret hrecv hsent
    obtain ⟨a, p, hread, hp, hencrypts⟩ := sent_packet (each_cause run) (each_env run) hsent
    exact ⟨a, p, hread, hencrypts, delivered_iff run hs clock tun hrecv hp hencrypts⟩

def sampleDeployment : Deployment where
  localAddr := sampleLocal
  users := sampleUsers
  addrs := fun _ => sampleAddr 0
  buffers := (fun _ => 0, fun _ => 0)
  clientBuffers := fun _ => (fun _ => 0, fun _ => 0)
  start := 0

def sampleSent : List Event :=
  [.client 6 (sampleAddr 1) (.read samplePacket),
    .client 6 (sampleAddr 1) (.sendto (sampleDatagram (sampleAddr 1)).data 20)]

theorem run_sampleSent {env : List Event → Event → Prop}
    (henv : Each env sampleSent) :
    ∃ m, Run env sampleDeployment sampleSent m ∧ m.server = some sampleStart := by
  let c : ClientLoop.SvpnClient := ⟨keyTable (Vector.replicate 16 0) 6, fun _ => 0, fun _ => 0⟩
  have hc : sampleDeployment.boot.clients 6 = some c := rfl
  have heffects : (ClientLoop.loopBody (.ready (some ⟨some samplePacket, 20⟩) none) c).1 = _ :=
    ClientSteps.loopBody_sent c rfl (by decide) (by decide)
  have hstep : Step env [] sampleDeployment.boot _ _ := .client hc (fun _ => sampleAddr 1)
    (.ready (some ⟨some samplePacket, 20⟩) none) (by
      rw [heffects]
      exact henv)
  have hrun := (.start : Reaches (Step env) sampleDeployment.boot [] _).step hstep
  rw [heffects] at hrun
  exact ⟨_, hrun, rfl⟩

theorem each_uplink_sampleSent : Each uplink sampleSent :=
  each_cons.2 ⟨show HeaderPacket samplePacket by decide, each_cons.2 ⟨trivial, each_nil _⟩⟩

/-- The server has been up for 2^32 microseconds when the datagram arrives: the
elapsed time is zero as an `int`, and the division by it ends the process between
the recording of the address and the write. -/
theorem rightful_datagram_lost :
    ∃ h m, Run uplink sampleDeployment h m ∧ m.server = some sampleStart ∧
      .client 6 (sampleAddr 1) (.read samplePacket) ∈ h ∧
      .client 6 (sampleAddr 1) (.sendto (sampleDatagram (sampleAddr 1)).data 20) ∈ h ∧
      SourceIs sampleLocal 6 samplePacket ∧
      writesOf (loopBody outputInfo (.ready 4294967296
        (some ⟨some (sampleDatagram (sampleAddr 1)), 20, true⟩) none) sampleStart).effects = [] := by
  obtain ⟨m, run, hserver⟩ := run_sampleSent each_uplink_sampleSent
  refine ⟨sampleSent, m, run, hserver, by simp [sampleSent], by simp [sampleSent], by decide, ?_⟩
  have hfault : (sendReport outputInfo ⟨some (sampleDatagram (sampleAddr 1)), 20, true⟩
      (tick sampleStart 4294967296) (sampleDatagram (sampleAddr 1))).2 = none :=
    (outputInfo_eq_none _ _).2 ⟨rfl, .inl rfl⟩
  rw [(pass_accepts _ _ none rfl (accepts_sample (s := sampleStart) rfl (sampleAddr 1))).2.1, hfault]

end SVpn.Uplink
