import SVpn.SourceCheck

set_option autoImplicit false

/-!
The routing table over whole runs: who is configured never changes, and an
address is always the sender of the datagram accepted last for that user.
-/
namespace SVpn.RoutingTable
open SVpn.Region SVpn.Crypt SVpn.OutputInfo SVpn.ServerLoop SVpn.ServerSteps SVpn.ServerRuns
open SVpn.SourceCheck SVpn.Trace

variable {report : Reporter}

theorem ifSet_tun_frame (report : Reporter) (tun : Option TunReady) (s : LoopState) :
    acceptedOf (ifSet tun (tunBranch report) s).effects = [] ∧
      writesOf (ifSet tun (tunBranch report) s).effects = [] ∧
      ∀ s', (ifSet tun (tunBranch report) s).control.state = some s' → s'.psc = s.psc := by
  cases tun with
  | none => exact ⟨rfl, rfl, fun s' h => by cases h; rfl⟩
  | some ev =>
    obtain ⟨heffects, hpsc⟩ := tunBranch_cases report ev s
    exact ⟨heffects.acceptedOf, heffects.writesOf, hpsc⟩

/-- The tunnel half of a pass adds neither an acceptance nor a write, and keeps
the routing table its socket half has left. -/
theorem andThen_tun_frame (report : Reporter) (first : Outcome) (tun : Option TunReady) :
    let o := first.andThen (ifSet tun (tunBranch report))
    acceptedOf o.effects = acceptedOf first.effects ∧ writesOf o.effects = writesOf first.effects ∧
      ∀ s', o.control.state = some s' → ∃ s₁, first.control.state = some s₁ ∧ s'.psc = s₁.psc := by
  obtain ⟨es, control⟩ := first
  cases control with
  | next s₁ =>
    obtain ⟨haccepted, hwrites, hpsc⟩ := ifSet_tun_frame report tun s₁
    refine ⟨?_, ?_, fun s' h => ⟨s₁, rfl, hpsc s' h⟩⟩
    · simp [Outcome.andThen, haccepted]
    · simp [Outcome.andThen, hwrites]
  | skip s₁ => exact ⟨rfl, rfl, fun s' h => ⟨s₁, rfl, by cases h; rfl⟩⟩
  | exit => exact ⟨rfl, rfl, fun s' h => by cases h⟩
  | fault => exact ⟨rfl, rfl, fun s' h => by cases h⟩

def AcceptedIn (s : LoopState) (sock : Option SockReady) (d : Datagram) (uid : UInt8) : Prop :=
  ∃ ev node, sock = some ev ∧ ev.recv = some d ∧ Accepts s d uid node

theorem mem_acceptedOf_sockBranch (ev : SockReady) (s : LoopState) (uid : UInt8)
    (addr : SockaddrIn6) :
    (uid, addr) ∈ acceptedOf (sockBranch report ev s).effects ↔
      ∃ d, d.sender = addr ∧ AcceptedIn s (some ev) d uid := by
  have hcases := sockBranch_effects report ev s
  generalize (sockBranch report ev s).effects = es at hcases
  constructor
  · intro hmem
    cases hcases with
    | failed hrecv => simp at hmem
    | refused hrecv hrefused htalk => simp [acceptOf, htalk.acceptedOf] at hmem
    | died hrecv haccepts hshown =>
      simp only [acceptedOf_cons, acceptOf, hshown.acceptedOf, Option.toList, List.nil_append,
        List.append_nil, List.mem_singleton, Prod.mk.injEq] at hmem
      obtain ⟨rfl, rfl⟩ := hmem
      exact ⟨_, rfl, ev, _, rfl, hrecv, haccepts⟩
    | accepted hrecv haccepts hshown =>
      simp only [acceptedOf_cons, acceptedOf_append, acceptOf, hshown.acceptedOf, Option.toList,
        List.nil_append, List.append_nil, acceptedOf_nil, List.mem_singleton, Prod.mk.injEq] at hmem
      obtain ⟨rfl, rfl⟩ := hmem
      exact ⟨_, rfl, ev, _, rfl, hrecv, haccepts⟩
  · rintro ⟨d, rfl, ev', node, hev, hrecv, ha⟩
    obtain rfl := Option.some.inj hev
    cases hcases with
    | failed hnone => simp [hrecv] at hnone
    | refused hsome hrefused htalk =>
      obtain rfl := Option.some.inj (hrecv.symm.trans hsome)
      exact absurd ha (hrefused uid node)
    | died hsome haccepts hshown =>
      obtain rfl := Option.some.inj (hrecv.symm.trans hsome)
      obtain ⟨rfl, rfl⟩ := ha.unique haccepts
      simp [acceptOf]
    | accepted hsome haccepts hshown =>
      obtain rfl := Option.some.inj (hrecv.symm.trans hsome)
      obtain ⟨rfl, rfl⟩ := ha.unique haccepts
      simp [acceptOf]

theorem mem_acceptedOf_pass (clock : ℤ) (sock : Option SockReady) (tun : Option TunReady)
    (s : LoopState) (uid : UInt8) (addr : SockaddrIn6) :
    (uid, addr) ∈ acceptedOf (loopBody report (.ready clock sock tun) s).effects ↔
      ∃ d, d.sender = addr ∧ AcceptedIn s sock d uid := by
  rw [loopBody_ready, (andThen_tun_frame _ _ tun).1]
  cases sock with
  | none => simp [ifSet, AcceptedIn]
  | some ev =>
    change (uid, addr) ∈ acceptedOf (sockBranch report ev (tick s clock)).effects ↔ _
    rw [mem_acceptedOf_sockBranch]
    unfold AcceptedIn
    simp only [accepts_tick]

theorem pass_psc {clock : ℤ} {sock : Option SockReady} {tun : Option TunReady} {s s' : LoopState}
    (h : (loopBody report (.ready clock sock tun) s).control.state = some s') :
    s'.psc = s.psc ∨ ∃ ev d uid node, sock = some ev ∧ ev.recv = some d ∧ Accepts s d uid node ∧
      s'.psc = s.psc.setClient uid { node with addr := d.sender } := by
  rw [loopBody_ready] at h
  obtain ⟨s₁, hfirst, hpsc⟩ := (andThen_tun_frame _ _ tun).2.2 s' h
  rw [hpsc]
  cases sock with
  | none =>
    cases hfirst
    exact .inl rfl
  | some ev =>
    rcases sockBranch_psc hfirst with ⟨hsame, -⟩ | ⟨d, uid, node, hrecv, ha, hset, -⟩
    · exact .inl hsame
    · exact .inr ⟨ev, d, uid, node, rfl, hrecv, (accepts_tick _).1 ha, hset⟩

def DropsDatagram (s : LoopState) (ev : SockReady) : Prop :=
  ev.recv = none ∨ ∃ d, ev.recv = some d ∧ (d.data = [] ∨ ∃ uid, d.data.head? = some uid ∧
    (s.psc.client uid = none ∨ ∃ node, s.psc.client uid = some node ∧
      ¬ SourceOk s.psc.localAddr uid (decoded s node.table d)))

/-- The tunnel branch reads nothing, reads a packet for nobody, or fails to send. -/
def DropsPacket (s : LoopState) (ev : TunReady) : Prop :=
  ev.packet = none ∨ ev.packet = some [] ∨ ∃ p, ev.packet = some p ∧
    (s.psc.client (tunUid s p) = none ∨ ev.sendRet ≤ 0)

/-- Nothing is written to the tunnel, and the loop goes on with every address and
both totals as they were. -/
structure Unrouted (s : LoopState) (o : Outcome) : Prop where
  writes : writesOf o.effects = []
  state : ∃ s', o.control = .skip s' ∧ s'.psc = s.psc ∧
    s'.globals.stat.totalSend = s.globals.stat.totalSend ∧
    s'.globals.stat.totalRecv = s.globals.stat.totalRecv

theorem DropsDatagram.refused {s : LoopState} {ev : SockReady} {d : Datagram}
    (h : DropsDatagram s ev) (hrecv : ev.recv = some d) (uid : UInt8) (node : SvpnClientNode) :
    ¬ Accepts s d uid node := by
  intro ha
  rcases h with hnone | ⟨d', hsome, hcases⟩
  · simp [hrecv] at hnone
  · obtain rfl := Option.some.inj (hrecv.symm.trans hsome)
    rcases hcases with hempty | ⟨v, hhead, hcases⟩
    · simpa [hempty] using ha.head
    · obtain rfl : uid = v := Option.some.inj (ha.head.symm.trans hhead)
      rcases hcases with hunknown | ⟨node', hclient, hsource⟩
      · simpa [hunknown] using ha.client
      · obtain rfl : node = node' := Option.some.inj (ha.client.symm.trans hclient)
        exact hsource ha.source

theorem sockBranch_unrouted (report : Reporter) {ev : SockReady} {s : LoopState} (h : DropsDatagram s ev) :
    Unrouted s (sockBranch report ev s) := by
  have hstep := sockBranch_step report ev s
  generalize sockBranch report ev s = o at hstep
  cases hstep with
  | failed => exact ⟨rfl, s, rfl, rfl, rfl, rfl⟩
  | refused hrecv hrefused htalk hpsc hglobals =>
    exact ⟨by simp [writeOf, htalk.writesOf], _, rfl, hpsc, by rw [hglobals], by rw [hglobals]⟩
  | died hrecv haccepts => exact absurd haccepts (h.refused hrecv _ _)
  | accepted hrecv haccepts => exact absurd haccepts (h.refused hrecv _ _)

theorem tunBranch_unrouted {ev : TunReady} {s : LoopState} (h : DropsPacket s ev) :
    Unrouted s (tunBranch report ev s) := by
  refine ⟨(tunBranch_cases report ev s).1.writesOf, ?_⟩
  have hunsent : ∀ {p : List UInt8} {node : SvpnClientNode}, ev.packet = some p → p ≠ [] →
      s.psc.client (tunUid s p) = some node → ev.sendRet ≤ 0 := by
    intro p node hpacket hp hclient
    rcases h with hnone | hempty | ⟨p', hpacket', hdrop⟩
    · cases hnone.symm.trans hpacket
    · exact absurd (Option.some.inj (hempty.symm.trans hpacket)).symm hp
    · obtain rfl := Option.some.inj (hpacket.symm.trans hpacket')
      exact hdrop.resolve_left (by simp [hclient])
  have hstep := tunBranch_step report ev s
  generalize tunBranch report ev s = o at hstep
  cases hstep with
  | idle => exact ⟨s, rfl, rfl, rfl, rfl⟩
  | unknown => exact ⟨_, rfl, rfl, rfl, rfl⟩
  | unsent => exact ⟨_, rfl, rfl, rfl, rfl⟩
  | died hpacket hp hclient hret =>
    have hnot := hunsent hpacket hp hclient
    omega
  | sent hpacket hp hclient hret =>
    have hnot := hunsent hpacket hp hclient
    omega

theorem pass_unrouted {ev : SockReady} {s : LoopState} (h : DropsDatagram s ev) (clock : ℤ)
    (tun : Option TunReady) : Unrouted s (loopBody report (.ready clock (some ev) tun) s) := by
  have hticked : DropsDatagram (tick s clock) ev := h
  obtain ⟨hwrites, s', hcontrol, hstate⟩ := sockBranch_unrouted report hticked
  rw [loopBody_ready]
  refine ⟨((andThen_tun_frame _ _ tun).2.1).trans hwrites, s', ?_, hstate⟩
  change ((sockBranch report ev (tick s clock)).andThen _).control = _
  rw [Outcome.andThen, hcontrol]

theorem routed_of_handleThread {inputs : List Select} {s₀ s : LoopState}
    (h : (svpnServerHandleThread report inputs s₀).2 = some s) :
    Routed s₀.psc (svpnServerHandleThread report inputs s₀).1 s := by
  have hrun := reaches_handleThread report inputs (.start : Reaches (Pass report anyInput) s₀ [] (some s₀))
  rw [h, List.nil_append] at hrun
  exact routed_of_phases (phases_of_passes hrun)

theorem pass_accepts (report : Reporter) (clock : ℤ) {s : LoopState} {ev : SockReady} {d : Datagram} {uid : UInt8}
    {node : SvpnClientNode} (tun : Option TunReady) (hrecv : ev.recv = some d)
    (ha : Accepts s d uid node) :
    let o := loopBody report (.ready clock (some ev) tun) s
    acceptedOf o.effects = [(uid, d.sender)] ∧
      (writesOf o.effects = match (sendReport report ev (tick s clock) d).2 with
        | none => []
        | some _ => [(uid, (received d.data).map node.table.decodeByte)]) ∧
      ∀ s', o.control.state = some s' →
        s'.psc = s.psc.setClient uid { node with addr := d.sender } := by
  obtain ⟨shown, hshown, heq⟩ := sockBranch_accepted report hrecv
    ((accepts_tick clock).2 ha)
  obtain ⟨haccepted, hwrites, hpsc⟩ :=
    andThen_tun_frame report (sockBranch report ev (tick s clock)) tun
  change acceptedOf ((sockBranch report ev (tick s clock)).andThen _).effects = _ ∧
    writesOf ((sockBranch report ev (tick s clock)).andThen _).effects = _ ∧
    ∀ s', ((sockBranch report ev (tick s clock)).andThen _).control.state = some s' → _
  rw [haccepted, hwrites]
  rw [heq] at hpsc ⊢
  generalize (sendReport report ev (tick s clock) d).2 = reported at hpsc ⊢
  cases reported with
  | none =>
    refine ⟨by simp [acceptOf, hshown.acceptedOf], by simp [writeOf, hshown.writesOf], ?_⟩
    intro s' hs'
    obtain ⟨s₁, hs₁, -⟩ := hpsc s' hs'
    cases hs₁
  | some globals =>
    refine ⟨by simp [acceptOf, hshown.acceptedOf], by simp [writeOf, hshown.writesOf], ?_⟩
    intro s' hs'
    obtain ⟨s₁, hs₁, hsame⟩ := hpsc s' hs'
    cases hs₁
    exact hsame

theorem pass_refuses (report : Reporter) (clock : ℤ) {s : LoopState} {ev : SockReady} {d : Datagram}
    (tun : Option TunReady) (hrecv : ev.recv = some d) (h : ∀ uid node, ¬ Accepts s d uid node) :
    acceptedOf (loopBody report (.ready clock (some ev) tun) s).effects = [] ∧
      writesOf (loopBody report (.ready clock (some ev) tun) s).effects = [] := by
  obtain ⟨talk, s', htalk, -, -, -, heq⟩ := sockBranch_refused report (s := tick s clock)
    hrecv fun uid node ha => h uid node ((accepts_tick _).1 ha)
  obtain ⟨haccepted, hwrites, -⟩ :=
    andThen_tun_frame report (sockBranch report ev (tick s clock)) tun
  rw [loopBody_ready]
  change acceptedOf ((sockBranch report ev (tick s clock)).andThen _).effects = _ ∧
    writesOf ((sockBranch report ev (tick s clock)).andThen _).effects = _
  rw [haccepted, hwrites, heq]
  exact ⟨by simp [acceptOf, htalk.acceptedOf], by simp [writeOf, htalk.writesOf]⟩

theorem pass_accepted {s : LoopState} {clock : ℤ} {ev : SockReady} {d : Datagram} {uid : UInt8}
    {node : SvpnClientNode} {globals : Globals} (hrecv : ev.recv = some d) (ha : Accepts s d uid node)
    (hreport : (sendReport report ev (tick s clock) d).2 = some globals) :
    ∃ shown, Talk shown ∧ loopBody report (.ready clock (some ev) none) s =
      ⟨.recvfrom d :: .accepted uid d.sender :: (shown ++
        [.write uid ((received d.data).map node.table.decodeByte) ev.writeRet]),
        .next (acceptedState (tick s clock) d uid node globals)⟩ := by
  obtain ⟨shown, hshown, heq⟩ := sockBranch_accepted report hrecv
    ((accepts_tick clock).2 ha)
  exact ⟨shown, hshown, by rw [loopBody_sock, heq, hreport]⟩

/-- The first pass of a sample run: user 6 is heard from `sampleAddr 1`. -/
def sampleFirst : Select := .ready 1 (some ⟨some (sampleDatagram (sampleAddr 1)), 20, true⟩) none

def sampleAccepted : LoopState :=
  acceptedState (tick sampleStart 1) (sampleDatagram (sampleAddr 1)) 6
    ⟨sampleAddr 0, sampleKey.table⟩ (countSend (tick sampleStart 1).globals 20)

theorem pass_sampleFirst : ∃ shown, Talk shown ∧ loopBody outputInfo sampleFirst sampleStart =
    ⟨.recvfrom (sampleDatagram (sampleAddr 1)) :: .accepted 6 (sampleAddr 1) :: (shown ++
      [.write 6 ((received (sampleDatagram (sampleAddr 1)).data).map sampleKey.table.decodeByte) 20]),
      .next sampleAccepted⟩ :=
  pass_accepted rfl (accepts_sample (s := sampleStart) rfl (sampleAddr 1)) rfl

theorem state_sampleFirst :
    (loopBody outputInfo sampleFirst sampleStart).control.state = some sampleAccepted := by
  obtain ⟨shown, -, heq⟩ := pass_sampleFirst
  rw [heq]
  rfl

theorem acceptedOf_sampleFirst :
    acceptedOf (loopBody outputInfo sampleFirst sampleStart).effects = [(6, sampleAddr 1)] := by
  obtain ⟨shown, hshown, heq⟩ := pass_sampleFirst
  rw [heq]
  simp [acceptOf, hshown.acceptedOf]

theorem client_sampleAccepted :
    sampleAccepted.psc.client 6 = some ⟨sampleAddr 1, sampleKey.table⟩ := by
  change (sampleServer.setClient 6 _).client 6 = _
  rw [client_setClient, if_pos rfl]
  rfl

theorem buffer_sampleAccepted : sampleAccepted.buffer = store (fun _ => 0) 0 samplePacket := by
  change store (fun _ => 0) 0 ((received (samplePacket.map sampleKey.table.encodeByte)).map
    sampleKey.table.decodeByte) = _
  rw [received_eq (by decide), sampleKey.map_decode_encode]

theorem handleThread_singleton {input : Select} {s s' : LoopState}
    (h : (loopBody report input s).control.state = some s') :
    (svpnServerHandleThread report [input] s).1 = (loopBody report input s).effects ∧
      (svpnServerHandleThread report [input] s).2 = some s' := by
  rw [handleThread_next h, svpnServerHandleThread, List.append_nil]
  exact ⟨rfl, rfl⟩

/-- The routing table in every state the loop reaches, and what the next pass
does to it. -/
theorem routing_table_invariant (psc : SvpnServer) (buffer tmpBuffer : Cells UInt8) (start : ℤ)
    (inputs : List Select) (s : LoopState)
    (hrun : (svpnServerHandleThread outputInfo inputs
      (loopStart psc buffer tmpBuffer start)).2 = some s) :
    (∀ uid, (s.psc.client uid).map (·.table) = (psc.client uid).map (·.table)) ∧
    (∀ uid node addr, s.psc.client uid = some node →
      lastAccepted uid (svpnServerHandleThread outputInfo inputs
        (loopStart psc buffer tmpBuffer start)).1 = some addr → node.addr = addr) ∧
    (∀ clock sock tun uid addr,
      (uid, addr) ∈ acceptedOf (loopBody outputInfo (.ready clock sock tun) s).effects ↔
        ∃ d, d.sender = addr ∧ AcceptedIn s sock d uid) ∧
    (∀ clock sock tun s' uid,
      (loopBody outputInfo (.ready clock sock tun) s).control.state = some s' →
      (s'.psc.client uid).map (·.addr) ≠ (s.psc.client uid).map (·.addr) →
        ∃ ev d, sock = some ev ∧ ev.recv = some d ∧ d.data.head? = some uid) ∧
    (∀ clock ev tun, DropsDatagram s ev →
      Unrouted s (loopBody outputInfo (.ready clock (some ev) tun) s)) ∧
    (∀ ev s₁, DropsPacket s₁ ev → Unrouted s₁ (tunBranch outputInfo ev s₁)) := by
  have hrouted := routed_of_handleThread hrun
  refine ⟨fun uid => ?_, fun uid node addr hclient hlast => ?_, ?_, ?_, ?_, ?_⟩
  · rw [hrouted.clients uid, Option.map_map]
    rfl
  · rw [hrouted.clients uid, hlast] at hclient
    obtain ⟨first, -, rfl⟩ := Option.map_eq_some_iff.1 hclient
    rfl
  · exact fun clock sock tun uid addr => mem_acceptedOf_pass clock sock tun s uid addr
  · intro clock sock tun s' uid hstate hchanged
    rcases pass_psc hstate with hpsc | ⟨ev, d, v, node, hsock, hrecv, ha, hpsc⟩
    · exact absurd (by rw [hpsc]) hchanged
    · refine ⟨ev, d, hsock, hrecv, ?_⟩
      by_cases hv : uid = v
      · exact hv ▸ ha.head
      · rw [hpsc, client_setClient, if_neg hv] at hchanged
        exact absurd rfl hchanged
  · exact fun clock ev tun h => pass_unrouted h clock tun
  · exact fun ev s₁ h => tunBranch_unrouted h

theorem routing_table_invariant_sample :
    ∃ s node, (svpnServerHandleThread outputInfo [sampleFirst] sampleStart).2 = some s ∧
      s.psc.client 6 = some node ∧ node.addr = sampleAddr 1 ∧ node.table = sampleKey.table := by
  obtain ⟨heffects, hrun⟩ := handleThread_singleton state_sampleFirst
  have hlast := lastAccepted_of_acceptedOf_singleton 6 acceptedOf_sampleFirst
  rw [if_pos rfl, ← heffects] at hlast
  rw [sampleStart] at hrun hlast ⊢
  have hinv := routing_table_invariant sampleServer (fun _ => 0) (fun _ => 0) 0 [sampleFirst]
    sampleAccepted hrun
  have htable := hinv.1 6
  rw [client_sampleAccepted, client_sampleServer, Option.map_some, Option.map_some,
    Option.some.injEq] at htable
  exact ⟨sampleAccepted, _, hrun, client_sampleAccepted,
    hinv.2.1 6 _ _ client_sampleAccepted hlast, htable⟩

end SVpn.RoutingTable
