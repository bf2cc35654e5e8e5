import SVpn.RoutingTable

set_option autoImplicit false

/-!
What each call of a server pass is caused by: an acceptance and a write by the
datagram received before it, a send by the packet read before it.
-/
namespace SVpn.ServerCauses
open SVpn.Region SVpn.Crypt SVpn.OutputInfo SVpn.ServerLoop SVpn.ServerSteps SVpn.ServerRuns
open SVpn.SourceCheck SVpn.RoutingTable SVpn.Trace

variable {report : Reporter}

/-- The calls before one of a pass that starts in `s` explain it. -/
def Caused (s : LoopState) (before : List Effect) : Effect → Prop
  | .accepted uid addr => ∃ d node, .recvfrom d ∈ before ∧ d.sender = addr ∧ Accepts s d uid node
  | .write uid packet _ => ∃ d node, .recvfrom d ∈ before ∧ .accepted uid d.sender ∈ before ∧
      Accepts s d uid node ∧ packet = (received d.data).map node.table.decodeByte
  | .read uid packet => packet.length ≤ bufferLen ∧ (20 ≤ packet.length → packet[19]? = some uid)
  | .sendto uid addr datagram _ => ∃ p node, .read uid p ∈ before ∧ s.psc.client uid = some node ∧
      addr = (lastAccepted uid before).getD node.addr ∧ datagram = p.map node.table.encodeByte
  | _ => True

theorem caused_of_talk {s : LoopState} {talk : List Effect} (h : Talk talk) (earlier : List Effect) :
    Each (fun before e => Caused s (earlier ++ before) e) talk := by
  rintro before e after rfl
  rcases h e (by simp) with ⟨p, rfl⟩ | ⟨n, rfl⟩ <;> trivial

theorem caused_of_sockEffects {ev : SockReady} {s : LoopState} {es : List Effect}
    (h : SockEffects ev s es) : Each (Caused s) es := by
  cases h with
  | failed => exact each_nil _
  | @refused d talk hrecv hrefused htalk =>
    exact each_cons.2 ⟨trivial, caused_of_talk htalk [.recvfrom d]⟩
  | @died d uid node shown hrecv haccepts hshown =>
    exact each_cons.2 ⟨trivial, each_cons.2 ⟨⟨d, node, by simp, rfl, haccepts⟩,
      caused_of_talk hshown [.recvfrom d, .accepted uid d.sender]⟩⟩
  | @accepted d uid node shown hrecv haccepts hshown =>
    refine each_cons.2 ⟨trivial, each_cons.2 ⟨⟨d, node, by simp, rfl, haccepts⟩,
      each_append.2 ⟨caused_of_talk hshown [.recvfrom d, .accepted uid d.sender], ?_⟩⟩⟩
    exact each_cons.2 ⟨⟨d, node, by simp, by simp, haccepts, rfl⟩, each_nil _⟩

theorem getElem?_tunUid (s : LoopState) (p : List UInt8) (h : 20 ≤ (received p).length) :
    (received p)[19]? = some (tunUid s p) :=
  (store_eq_iff s.tmpBuffer (received p) 19 _ (by omega)).1 rfl

theorem caused_of_tunEffects {ev : TunReady} {s s₁ : LoopState} {earlier es : List Effect}
    (hr : Routed s.psc earlier s₁) (h : TunEffects ev s₁ es) :
    Each (fun before e => Caused s (earlier ++ before) e) es := by
  cases h with
  | idle => exact each_nil _
  | @unknown p talk hpacket hp hclient htalk =>
    refine each_cons.2 ⟨⟨length_received_le p, getElem?_tunUid s₁ p⟩, ?_⟩
    exact (caused_of_talk htalk (earlier ++ [.read (tunUid s₁ p) (received p)])).mono
      fun before e he => by simpa using he
  | @attempt p node talk hpacket hp hclient htalk =>
    rw [hr.clients, Option.map_eq_some_iff] at hclient
    obtain ⟨first, hfirst, rfl⟩ := hclient
    refine each_append.2 ⟨each_cons.2 ⟨⟨length_received_le p, getElem?_tunUid s₁ p⟩,
      each_cons.2 ⟨⟨received p, first, by simp, hfirst, ?_, rfl⟩, each_nil _⟩⟩, ?_⟩
    · rw [lastAccepted_append]
      rfl
    · exact (caused_of_talk htalk (earlier ++ _)).mono fun before e he => by simpa using he

theorem routed_sockBranch {ev : SockReady} {s s₁ : LoopState}
    (h : (sockBranch report ev s).control.state = some s₁) :
    Routed s.psc (sockBranch report ev s).effects s₁ := by
  have hphase := (.start : Reaches (Phase report) s [] (some s)).step (.sock [] s ev)
  rw [h] at hphase
  exact routed_of_phases hphase

theorem Caused.of_tick {s : LoopState} {clock : ℤ} {before : List Effect} {e : Effect}
    (h : Caused (tick s clock) before e) : Caused s before e := by
  cases e with
  | accepted uid addr =>
    obtain ⟨d, node, hrecv, haddr, ha⟩ := h
    exact ⟨d, node, hrecv, haddr, (accepts_tick _).1 ha⟩
  | write uid packet ret =>
    obtain ⟨d, node, hrecv, haccepted, ha, hpacket⟩ := h
    exact ⟨d, node, hrecv, haccepted, (accepts_tick _).1 ha, hpacket⟩
  | read uid packet => exact h
  | sendto uid addr datagram ret => exact h
  | recvfrom d => trivial
  | printed p => trivial
  | notice n => trivial

def stateAtRead (report : Reporter) (input : Select) (s : LoopState) : Option LoopState :=
  match input with
  | .ready clock sock _ =>
    match (ifSet sock (sockBranch report) (tick s clock)).control with
    | .next s₁ => some s₁
    | _ => none
  | _ => none

/-- A pass is its socket half, followed by its tunnel half if the first falls through. -/
theorem pass_halves (report : Reporter) (clock : ℤ) (sock : Option SockReady) (tun : Option TunReady) (s : LoopState) :
    let first := (ifSet sock (sockBranch report) (tick s clock)).effects
    Each (Caused s) first ∧ sendsOf first = [] ∧
    ((loopBody report (.ready clock sock tun) s).effects = first ∨
      ∃ s₁, stateAtRead report (.ready clock sock tun) s = some s₁ ∧ Routed s.psc first s₁ ∧
        (loopBody report (.ready clock sock tun) s).effects =
          first ++ (ifSet tun (tunBranch report) s₁).effects) := by
  have hsock : Each (Caused s) (ifSet sock (sockBranch report) (tick s clock)).effects ∧
      sendsOf (ifSet sock (sockBranch report) (tick s clock)).effects = [] ∧
      ∀ s₁, (ifSet sock (sockBranch report) (tick s clock)).control = .next s₁ →
        Routed s.psc (ifSet sock (sockBranch report) (tick s clock)).effects s₁ := by
    cases sock with
    | none => exact ⟨each_nil _, rfl, fun s₁ h => by cases h; exact routed_start (tick s clock)⟩
    | some ev =>
      have heffects := sockBranch_effects report ev (tick s clock)
      exact ⟨(caused_of_sockEffects heffects).mono fun _ _ h => h.of_tick, heffects.sendsOf, fun s₁ h =>
        routed_sockBranch (s := tick s clock) (congrArg Control.state h)⟩
  refine ⟨hsock.1, hsock.2.1, ?_⟩
  rw [loopBody_ready]
  unfold Outcome.andThen stateAtRead
  simp only
  cases hcontrol : (ifSet sock (sockBranch report) (tick s clock)).control with
  | next s₁ => exact .inr ⟨s₁, rfl, hsock.2.2 s₁ hcontrol, rfl⟩
  | skip s₁ => exact .inl rfl
  | exit => exact .inl rfl
  | fault => exact .inl rfl

theorem loopBody_caused (report : Reporter) (input : Select) (s : LoopState) :
    Each (Caused s) (loopBody report input s).effects := by
  cases input with
  | interrupted => exact each_nil _
  | failed => exact each_nil _
  | ready clock sock tun =>
    obtain ⟨hfirst, -, heq | ⟨s₁, -, hr, heq⟩⟩ := pass_halves report clock sock tun s
    · rw [heq]
      exact hfirst
    · rw [heq, each_append]
      refine ⟨hfirst, ?_⟩
      cases tun with
      | none => exact each_nil _
      | some ev => exact caused_of_tunEffects hr (tunBranch_cases report ev s₁).1

theorem read_not_mem_talk {talk : List Effect} (h : Talk talk) (uid : UInt8) (p : List UInt8) :
    .read uid p ∉ talk := by
  intro hmem
  rcases h _ hmem with ⟨x, hx⟩ | ⟨n, hn⟩
  · cases hx
  · cases hn

theorem read_not_mem_sock (sock : Option SockReady) {s : LoopState} (uid : UInt8)
    (p : List UInt8) : .read uid p ∉ (ifSet sock (sockBranch report) s).effects := by
  cases sock with
  | none => exact List.not_mem_nil
  | some ev =>
    have hcases := sockBranch_effects report ev s
    change .read uid p ∉ (sockBranch report ev s).effects
    generalize (sockBranch report ev s).effects = es at hcases
    cases hcases with
    | failed => exact List.not_mem_nil
    | refused _ _ hquiet => simp [read_not_mem_talk hquiet]
    | died _ _ hshown => simp [read_not_mem_talk hshown]
    | accepted _ _ hshown => simp [read_not_mem_talk hshown]

/-- A packet read from the tunnel leads to one send attempt when its user is
configured at that moment, and to none otherwise. -/
theorem pass_read {input : Select} {s : LoopState} {uid : UInt8} {p : List UInt8}
    (hread : .read uid p ∈ (loopBody report input s).effects) :
    ∃ s₁, stateAtRead report input s = some s₁ ∧
      Routed s.psc (loopBody report input s).effects s₁ ∧
      sendsOf (loopBody report input s).effects = match s₁.psc.client uid with
        | none => []
        | some node => [(uid, node.addr, p.map node.table.encodeByte)] := by
  cases input with
  | interrupted => exact absurd hread List.not_mem_nil
  | failed => exact absurd hread List.not_mem_nil
  | ready clock sock tun =>
    obtain ⟨-, hsends, heq | ⟨s₁, hstate, hr, heq⟩⟩ := pass_halves report clock sock tun s
    · rw [heq] at hread
      exact absurd hread (read_not_mem_sock sock uid p)
    · have htun := ifSet_tun_frame report tun s₁
      refine ⟨s₁, hstate, heq ▸ hr.of_psc_eq rfl htun.1, ?_⟩
      rw [heq, List.mem_append, or_iff_right (read_not_mem_sock sock uid p)] at hread
      rw [heq, sendsOf_append, hsends, List.nil_append]
      cases tun with
      | none => exact absurd hread List.not_mem_nil
      | some ev =>
        have hcases := (tunBranch_cases report ev s₁).1
        change .read uid p ∈ (tunBranch report ev s₁).effects at hread
        change sendsOf (tunBranch report ev s₁).effects = _
        generalize (tunBranch report ev s₁).effects = es at hcases hread
        cases hcases with
        | idle => exact absurd hread List.not_mem_nil
        | @unknown q talk hpacket hq hclient htalk =>
          obtain ⟨rfl, rfl⟩ : uid = tunUid s₁ q ∧ p = received q := by
            simpa [read_not_mem_talk htalk] using hread
          exact (TunEffects.unknown hpacket hq hclient htalk).sendsOf_eq hpacket hq
        | @attempt q node talk hpacket hq hclient htalk =>
          obtain ⟨rfl, rfl⟩ : uid = tunUid s₁ q ∧ p = received q := by
            simpa [sendAttempt, read_not_mem_talk htalk] using hread
          exact (TunEffects.attempt hpacket hq hclient htalk).sendsOf_eq hpacket hq

/-- An IPv4 packet from 192.168.3.1 to 192.168.3.6. -/
def sampleReply : List UInt8 :=
  [0x45, 0, 0, 20, 0, 0, 0, 0, 64, 17, 0, 0, 192, 168, 3, 1, 192, 168, 3, 6]

def sampleSecond : Select := .ready 2 none (some ⟨some sampleReply, 20, true⟩)

theorem tunUid_sampleReply (s : LoopState) : tunUid s sampleReply = 6 := by
  have hreceived : received sampleReply = sampleReply := received_eq (by decide)
  have hget := getElem?_tunUid s sampleReply (by decide)
  rw [hreceived] at hget
  exact (Option.some.inj hget).symm

theorem pass_sampleSecond (report : Reporter) {s : LoopState} {node : SvpnClientNode}
    (hclient : s.psc.client 6 = some node) : ∃ talk, Talk talk ∧
    (loopBody report sampleSecond s).effects =
      .read 6 sampleReply ::
        .sendto 6 node.addr (sampleReply.map node.table.encodeByte) 20 :: talk := by
  have hreceived : received sampleReply = sampleReply := received_eq (by decide)
  have huid := tunUid_sampleReply (tick s 2)
  have huser : (tick s 2).psc.client (tunUid (tick s 2) sampleReply) = some node := by
    rw [huid]
    exact hclient
  obtain ⟨talk, htalk, heq⟩ := (tunBranch_cases report ⟨some sampleReply, 20, true⟩
    (tick s 2)).1.of_client rfl (by decide) huser
  rw [sendAttempt, huid, hreceived] at heq
  refine ⟨talk, htalk, ?_⟩
  rw [sampleSecond, loopBody_tun, heq]
  rfl

end SVpn.ServerCauses
