import SVpn.Uplink

set_option autoImplicit false

/-!
From the server to the clients. A packet goes to the address its user was last
heard from; as no two clients share an address, nobody else can receive it.
-/
namespace SVpn.Downlink
open SVpn.Region SVpn.Crypt SVpn.KeyTable SVpn.OutputInfo SVpn.ServerLoop SVpn.ServerSteps
open SVpn.ServerRuns SVpn.SourceCheck SVpn.RoutingTable SVpn.ServerCauses SVpn.Trace SVpn.System
open SVpn.Uplink

def Uses (uid : UInt8) (addr : SockaddrIn6) (h : List Event) : Prop :=
  (∃ datagram ret, .client uid addr (.sendto datagram ret) ∈ h) ∨
    ∃ d, .client uid addr (.recvfrom d) ∈ h

/-- The uplink conditions; further, the server reads whole packets, and none for a
user it has not heard from, a client uses no address of another one, and it
receives only what the server has sent to the address it uses. -/
def downlink (D : Deployment) (before : List Event) : Event → Prop
  | .server (.recvfrom d) => ∃ uid ret, .client uid d.sender (.sendto d.data ret) ∈ before
  | .server (.read _ p) => 20 ≤ p.length ∧ ∀ uid, p[19]? = some uid → (D.users uid).isSome →
      ∃ addr, .server (.accepted uid addr) ∈ before
  | .client _ _ (.read p) => HeaderPacket p
  | .client uid addr (.sendto _ _) => ∀ v, Uses v addr before → v = uid
  | .client uid addr (.recvfrom d) => (∀ v, Uses v addr before → v = uid) ∧
      ∃ v ret, .server (.sendto v addr d ret) ∈ before
  | _ => True

variable {D : Deployment}

theorem uplink_of_downlink (before : List Event) (e : Event) (h : downlink D before e) :
    uplink before e := by
  cases e with
  | server e =>
    cases e with
    | recvfrom d => exact h
    | _ => trivial
  | client uid addr e =>
    cases e with
    | read p => exact h
    | _ => trivial

theorem Uses.mem {uid : UInt8} {addr : SockaddrIn6} {h : List Event} (hu : Uses uid addr h) :
    ∃ e, .client uid addr e ∈ h ∧ ∀ before, .client uid addr e ∈ before → Uses uid addr before := by
  rcases hu with ⟨datagram, ret, hmem⟩ | ⟨d, hmem⟩
  · exact ⟨_, hmem, fun before hb => .inl ⟨datagram, ret, hb⟩⟩
  · exact ⟨_, hmem, fun before hb => .inr ⟨d, hb⟩⟩

theorem uses_before {uid v : UInt8} {addr : SockaddrIn6} {before : List Event} {e : ClientLoop.ClientEffect}
    (he : Uses uid addr [.client uid addr e]) (henv : downlink D before (.client uid addr e))
    (hv : Uses v addr before) : v = uid := by
  rcases he with ⟨datagram, ret, hmem⟩ | ⟨d, hmem⟩
  · cases List.mem_singleton.1 hmem
    exact henv v hv
  · cases List.mem_singleton.1 hmem
    exact henv.1 v hv

/-- Whichever of two uses of an address comes later, its client made the earlier one. -/
theorem uses_unique {h : List Event} (henv : Each (downlink D) h) {u v : UInt8}
    {addr : SockaddrIn6} (hu : Uses u addr h) (hv : Uses v addr h) : u = v := by
  obtain ⟨x, hx, hxuses⟩ := hu.mem
  obtain ⟨y, hy, hyuses⟩ := hv.mem
  obtain ⟨before, after, rfl⟩ := List.append_of_mem hx
  have hxenv := henv before _ after rfl
  rcases List.mem_append.1 hy with hy | hy
  · exact (uses_before (hxuses _ (by simp)) hxenv (hyuses _ hy)).symm
  · rcases List.mem_cons.1 hy with heq | hy
    · cases heq
      rfl
    · obtain ⟨middle, rest, rfl⟩ := List.append_of_mem hy
      have hyenv := henv (before ++ .client u addr x :: middle) (.client v addr y) rest (by simp)
      exact uses_before (hyuses _ (List.mem_singleton.2 rfl)) hyenv (hxuses _ (by simp))

theorem uses_of_accepted {h : List Event} (hcause : Each (Cause D) h) (henv : Each (downlink D) h)
    {uid : UInt8} {addr : SockaddrIn6} (haccepted : .server (.accepted uid addr) ∈ h) :
    Uses uid addr h := by
  obtain ⟨before, after, rfl, d, packet, hrecv, rfl, hhead, -⟩ := hcause.of_mem_history haccepted
  obtain ⟨a, p, ret, hsent, -⟩ := received_packet hcause (henv.mono uplink_of_downlink)
    (List.mem_append_left _ hrecv) hhead
  exact .inl ⟨_, _, hsent⟩

theorem sent_to_accepted {h : List Event} (hcause : Each (Cause D) h) (henv : Each (downlink D) h)
    {uid : UInt8} {addr : SockaddrIn6} {datagram : List UInt8} {ret : ℤ}
    (hsent : .server (.sendto uid addr datagram ret) ∈ h) :
    .server (.accepted uid addr) ∈ h ∧ ∃ p, .server (.read uid p) ∈ h ∧ 20 ≤ p.length ∧
      p.length ≤ bufferLen ∧ D.Encrypts uid p datagram := by
  obtain ⟨before, after, rfl, p, hread, hencrypts, haddr⟩ := hcause.of_mem_history hsent
  obtain ⟨first, rest, hsplit, hmin, hheard⟩ := (each_append.1 henv).1.of_mem_history hread
  obtain ⟨hmax, huid⟩ := (each_append.1 hcause).1 first _ rest hsplit
  obtain ⟨a, ha⟩ := hheard uid (huid hmin) (by
    obtain ⟨passmd5, huser, -⟩ := hencrypts
    simp [huser])
  have hbefore : (uid, a) ∈ acceptedOf (serverEffects before) := by
    rw [mem_acceptedOf, mem_serverEffects, hsplit]
    exact List.mem_append_left _ ha
  obtain ⟨latest, hlatest⟩ := lastAccepted_of_mem hbefore
  obtain rfl := haddr latest hlatest
  have haccepted := mem_acceptedOf_of_lastAccepted hlatest
  rw [mem_acceptedOf, mem_serverEffects] at haccepted
  exact ⟨List.mem_append_left _ haccepted, p, List.mem_append_left _ hread, hmin, hmax, hencrypts⟩

theorem delivered_packet {h : List Event} (hcause : Each (Cause D) h) (henv : Each (downlink D) h)
    {uid : UInt8} {addr : SockaddrIn6} {d : List UInt8} (hrecv : .client uid addr (.recvfrom d) ∈ h) :
    ∃ p, .server (.read uid p) ∈ h ∧ 20 ≤ p.length ∧ p.length ≤ bufferLen ∧ D.Encrypts uid p d := by
  obtain ⟨before, after, rfl, -, v, ret, hsent⟩ := henv.of_mem_history hrecv
  obtain ⟨haccepted, p, hread, hmin, hmax, hencrypts⟩ := sent_to_accepted hcause henv
    (List.mem_append_left (Event.client uid addr (.recvfrom d) :: after) hsent)
  obtain rfl : v = uid :=
    uses_unique henv (uses_of_accepted hcause henv haccepted) (.inr ⟨d, hrecv⟩)
  exact ⟨p, hread, hmin, hmax, hencrypts⟩

theorem ne_nil_of_encrypts {uid : UInt8} {p datagram : List UInt8} (h : D.Encrypts uid p datagram)
    (hmin : 20 ≤ p.length) : datagram ≠ [] := by
  have hlen := length_of_encrypts h
  apply List.ne_nil_of_length_pos
  omega

theorem written_by_client {h : List Event} (hcause : Each (Cause D) h)
    (henv : Each (downlink D) h) :
    Each (fun before e => ∀ uid addr packet ret, e = .client uid addr (.write packet ret) →
      .server (.read uid packet) ∈ before ∧ 20 ≤ packet.length ∧ packet.length ≤ bufferLen ∧
        ClientSteps.VersionFour packet) h := by
  rintro before e after rfl uid addr packet ret rfl
  obtain ⟨hbefore, hwrite⟩ := each_append.1 hcause
  obtain ⟨a, d, whole, hrecv, hwhole, rfl, hversion⟩ := (each_cons.1 hwrite).1
  rw [List.append_nil] at hrecv
  obtain ⟨p, hread, hmin, hmax, hencrypts⟩ :=
    delivered_packet hbefore (each_append.1 henv).1 hrecv
  obtain rfl := packet_of_encrypts hencrypts hwhole
  rw [received_eq hmax] at hversion ⊢
  exact ⟨hread, hmin, hmax, hversion (ne_nil_of_encrypts hencrypts hmin)⟩

/-- A pass of the server that reads a packet for a configured user makes one send
attempt, to the address recorded when it reads. -/
theorem sends_of_read {h : List Event} {m : Parties} {s : LoopState} (run : Run (downlink D) D h m)
    (hs : m.server = some s) {input : Select}
    (henv : Each (fun before e => downlink D (h ++ before) e)
      ((loopBody outputInfo input s).effects.map .server)) {uid : UInt8} {p : List UInt8}
    (hread : .read uid p ∈ (loopBody outputInfo input s).effects) :
    (20 ≤ p.length ∧ p.length ≤ bufferLen ∧ p[19]? = some uid) ∧
    ((D.users uid).isSome → ∃ a,
      lastAccepted uid (serverEffects h ++ (loopBody outputInfo input s).effects) = some a) ∧
    ∃ s₁, ServerCauses.stateAtRead outputInfo input s = some s₁ ∧
      Routed D.server (serverEffects h ++ (loopBody outputInfo input s).effects) s₁ ∧
      sendsOf (loopBody outputInfo input s).effects = match s₁.psc.client uid with
        | none => []
        | some node => [(uid, node.addr, p.map node.table.encodeByte)] := by
  obtain ⟨before, after, hsplit⟩ := List.append_of_mem hread
  have hmin := (each_map _).1 henv before _ after hsplit
  obtain ⟨hmax, huid⟩ := ServerCauses.loopBody_caused outputInfo input s before _ after hsplit
  obtain ⟨s₁, hstate, hrouted, hsends⟩ := ServerCauses.pass_read hread
  refine ⟨⟨hmin.1, hmax, huid hmin.1⟩, fun huser => ?_, s₁, hstate,
    ((settled_of_run run).server s hs).trans hrouted, hsends⟩
  obtain ⟨a, ha⟩ := hmin.2 uid (huid hmin.1) huser
  refine lastAccepted_of_mem (show (uid, a) ∈ acceptedOf _ from ?_)
  rw [← mem_serverEffects, serverEffects_append, serverEffects_server] at ha
  rw [mem_acceptedOf, hsplit, ← List.append_assoc]
  exact List.mem_append_left _ ha

/-- In every run, each packet the server reads for a configured user is sent once,
encrypted for that user and to the address last accepted for it; a packet for
anybody else is not sent. A client writes exactly those of the packets read for it
and received by it that have version nibble 4. -/
theorem downlink_agreement (D : Deployment) :
    (∀ h m s, Run (downlink D) D h m → m.server = some s → ∀ input,
      Each (fun before e => downlink D (h ++ before) e)
        ((loopBody outputInfo input s).effects.map .server) →
      ∀ uid p, .read uid p ∈ (loopBody outputInfo input s).effects →
        (20 ≤ p.length ∧ p.length ≤ bufferLen ∧ p[19]? = some uid) ∧
        (∀ passmd5, D.users uid = some passmd5 → ∃ s₁ node,
          ServerCauses.stateAtRead outputInfo input s = some s₁ ∧ s₁.psc.client uid = some node ∧
          lastAccepted uid (serverEffects h ++ (loopBody outputInfo input s).effects) =
            some node.addr ∧
          sendsOf (loopBody outputInfo input s).effects =
            [(uid, node.addr, p.map (keyTable passmd5 uid).encodeByte)]) ∧
        (D.users uid = none → sendsOf (loopBody outputInfo input s).effects = [])) ∧
    (∀ h r, Reaches (Step (downlink D)) D.boot h r →
      ∀ before uid addr packet ret after,
        h = before ++ .client uid addr (.write packet ret) :: after →
        .server (.read uid packet) ∈ before ∧ 20 ≤ packet.length ∧ packet.length ≤ bufferLen ∧
          ClientSteps.VersionFour packet) ∧
    (∀ h m uid c, Run (downlink D) D h m → m.clients uid = some c →
      ∀ (place : ClientEffect → SockaddrIn6) input,
      Each (fun before e => downlink D (h ++ before) e)
        ((ClientLoop.loopBody input c).1.map fun e => .client uid (place e) e) →
      ∀ d, .recvfrom d ∈ (ClientLoop.loopBody input c).1 →
        ∃ p, .server (.read uid p) ∈ h ∧ 20 ≤ p.length ∧ p.length ≤ bufferLen ∧
          D.Encrypts uid p d ∧ ClientSteps.writesOf (ClientLoop.loopBody input c).1 =
            if ClientSteps.VersionFour p then [p] else []) := by
  refine ⟨?_, ?_, ?_⟩
  · intro h m s run hs input henv uid p hread
    obtain ⟨hlen, hheard, s₁, hstate, hrouted, hsends⟩ := sends_of_read run hs henv hread
    refine ⟨hlen, fun passmd5 huser => ?_, fun huser => ?_⟩
    · obtain ⟨node, hclient, htable⟩ := FirstByte.client_of_serverOf hrouted huser
      obtain ⟨a, ha⟩ := hheard (by simp [huser])
      obtain ⟨first, -, -, haddr⟩ := hrouted.client_start hclient
      refine ⟨s₁, node, hstate, hclient, ?_, ?_⟩
      · rw [haddr, ha, Option.getD_some]
      · rw [hsends, hclient, ← htable]
    · have hclient : s₁.psc.client uid = none := by
        rw [hrouted.clients uid, Deployment.server, client_serverOf, huser]
        rfl
      rw [hsends, hclient]
  · intro h r run before uid addr packet ret after heq
    exact written_by_client (each_cause run) (each_env run) before _ after heq uid addr packet ret rfl
  · intro h m uid c run hc place input henv d hrecv
    have hstep : Step (downlink D) h m _ _ := Step.client hc place input henv
    have hlonger := run.step hstep
    obtain ⟨p, hread, hmin, hmax, hencrypts⟩ :=
      delivered_packet (each_cause hlonger) (each_env hlonger)
        (List.mem_append_right h (List.mem_map.2 ⟨_, hrecv, rfl⟩))
    have hold : .server (.read uid p) ∈ h := by
      rw [← mem_serverEffects, serverEffects_append, serverEffects_client, List.append_nil,
        mem_serverEffects] at hread
      exact hread
    refine ⟨p, hold, hmin, hmax, hencrypts, ?_⟩
    have hne := ne_nil_of_encrypts hencrypts hmin
    have hlen := length_of_encrypts hencrypts
    rw [ClientSteps.writesOf_loopBody hrecv hne (hlen.trans_le hmax)]
    obtain ⟨passmd5, huser, hdata⟩ := hencrypts
    obtain ⟨passmd5', huser', htable⟩ := (settled_of_run run).clients uid c hc
    obtain rfl := Option.some.inj (huser.symm.trans huser')
    rw [hdata, htable, ← key_table, (key passmd5 uid).map_decode_encode]

theorem each_of_talk {talk : List Effect} (htalk : Talk talk) (past : List Event → List Event) :
    Each (fun before e => downlink D (past before) e) (talk.map .server) := by
  rw [each_map]
  rintro before e after rfl
  rcases htalk e (by simp) with ⟨p, rfl⟩ | ⟨n, rfl⟩ <;> trivial

theorem run_sampleHeard : ∃ h m, Run (downlink sampleDeployment) sampleDeployment h m ∧
    m.server = some sampleAccepted ∧ .server (.accepted 6 (sampleAddr 1)) ∈ h := by
  have hsent : Each (downlink sampleDeployment) sampleSent := by
    refine each_cons.2 ⟨show HeaderPacket samplePacket by decide, each_cons.2 ⟨?_, each_nil _⟩⟩
    rintro v (⟨datagram, ret, hmem⟩ | ⟨d, hmem⟩) <;> simp at hmem
  obtain ⟨m, run, hserver⟩ := run_sampleSent hsent
  obtain ⟨shown, hshown, heq⟩ := pass_sampleFirst
  have henv : Each (fun before e => downlink sampleDeployment (sampleSent ++ before) e)
      ((loopBody outputInfo sampleFirst sampleStart).effects.map .server) := by
    rw [heq]
    refine each_cons.2 ⟨⟨6, 20, .tail _ (.head _)⟩, each_cons.2 ⟨trivial, ?_⟩⟩
    rw [List.map_append]
    exact each_append.2 ⟨each_of_talk hshown _, each_cons.2 ⟨trivial, each_nil _⟩⟩
  obtain ⟨m', run', hserver'⟩ := run.server_pass hserver henv state_sampleFirst
  refine ⟨_, m', run', hserver', ?_⟩
  rw [heq]
  exact List.mem_append_right _ (.tail _ (.head _))

/-- The next packet for user 6 is sent to where user 6 was heard. -/
theorem downlink_agreement_sample :
    ∃ passmd5 addr, sendsOf (loopBody outputInfo sampleSecond sampleAccepted).effects =
      [(6, addr, sampleReply.map (keyTable passmd5 6).encodeByte)] := by
  obtain ⟨h, m, run, hserver, hheard⟩ := run_sampleHeard
  obtain ⟨talk, htalk, heq⟩ := pass_sampleSecond outputInfo client_sampleAccepted
  have henv : Each (fun before e => downlink sampleDeployment (h ++ before) e)
      ((loopBody outputInfo sampleSecond sampleAccepted).effects.map .server) := by
    rw [heq]
    refine each_cons.2 ⟨⟨by decide, fun uid huid _ => ?_⟩,
      each_cons.2 ⟨trivial, each_of_talk htalk _⟩⟩
    obtain rfl : 6 = uid := Option.some.inj huid
    exact ⟨sampleAddr 1, List.mem_append_left _ hheard⟩
  have hsent := (downlink_agreement sampleDeployment).1 h m sampleAccepted run hserver sampleSecond
    henv 6 sampleReply (by rw [heq]; exact .head _)
  obtain ⟨s₁, node, -, -, -, hsends⟩ := hsent.2.1 (Vector.replicate 16 0) rfl
  exact ⟨_, _, hsends⟩

end SVpn.Downlink
