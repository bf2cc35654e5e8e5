import SVpn.ServerCauses

set_option autoImplicit false

/-!
What the socket half of a pass does to its tunnel half. A datagram that is refused
ends the pass before the tunnel is read, although `select` reported it readable.
-/
namespace SVpn.TunnelReads
open SVpn.Region SVpn.Crypt SVpn.OutputInfo SVpn.ServerLoop SVpn.ServerSteps SVpn.ServerRuns
open SVpn.SourceCheck SVpn.RoutingTable SVpn.ServerCauses

structure Both where
  clock : ℤ
  sock : SockReady
  packet : List UInt8
  ne_nil : packet ≠ []
  sendRet : ℤ
  fopen : Bool

namespace Both

def tun (r : Both) : TunReady := ⟨some r.packet, r.sendRet, r.fopen⟩

def input (r : Both) : Select := .ready r.clock (some r.sock) (some r.tun)

def tunOnly (r : Both) : Select := .ready r.clock none (some r.tun)

end Both

/-- The datagram, sent to where its user has been heard since. -/
def redirected (es : List Effect) (x : UInt8 × SockaddrIn6 × List UInt8) :
    UInt8 × SockaddrIn6 × List UInt8 :=
  (x.1, (lastAccepted x.1 es).getD x.2.1, x.2.2)

/-- What is sent is what would be sent without the socket, to the address that a
datagram accepted in the pass has recorded. -/
def Undisturbed (s : LoopState) (r : Both) : Prop :=
  let es := (loopBody outputInfo r.input s).effects
  sendsOf es = (sendsOf (loopBody outputInfo r.tunOnly s).effects).map (redirected es)

/-- The destination octet is read the same behind the datagram, as it is from 20
bytes on, or it names no user either way. -/
def SameUser (s : LoopState) (r : Both) (d : Datagram) : Prop :=
  let stored : LoopState := { s with tmpBuffer := store s.tmpBuffer 0 (received d.data) }
  tunUid stored r.packet = tunUid s r.packet ∨
    (s.psc.client (tunUid stored r.packet) = none ∧ s.psc.client (tunUid s r.packet) = none)

def AcceptedDatagram (s : LoopState) (r : Both) : Prop :=
  ∃ d uid node, r.sock.recv = some d ∧ Accepts s d uid node

def ReportReturns (s : LoopState) (r : Both) (d : Datagram) : Prop :=
  ¬ ReportFaults r.sock.fopen (countSend (tick s r.clock).globals (received d.data).length)

/-- The datagram of the pass is accepted, its report returns, and it leaves the packet its
user. -/
def GivesWay (s : LoopState) (r : Both) : Prop :=
  ∃ d uid node, r.sock.recv = some d ∧ Accepts s d uid node ∧ ReportReturns s r d ∧ SameUser s r d

theorem loopBody_both (s : LoopState) (r : Both) : loopBody outputInfo r.input s =
    (sockBranch outputInfo r.sock (tick s r.clock)).andThen (tunBranch outputInfo r.tun) := rfl

theorem sameUser_of_length {s : LoopState} {r : Both} (d : Datagram)
    (h : 20 ≤ (received r.packet).length) : SameUser s r d := by
  left
  have hget := getElem?_tunUid s r.packet h
  rw [getElem?_tunUid { s with tmpBuffer := store s.tmpBuffer 0 (received d.data) } r.packet h] at hget
  exact Option.some.inj hget

theorem readsOf_sock (ev : SockReady) (s : LoopState) :
    readsOf (sockBranch outputInfo ev s).effects = [] := by
  apply List.filterMap_eq_nil_iff.2
  intro e he
  cases e with
  | read uid p => exact absurd he (read_not_mem_sock (some ev) uid p)
  | _ => rfl

theorem readsOf_tun {ev : TunReady} {s : LoopState} {p : List UInt8} (hpacket : ev.packet = some p)
    (hp : p ≠ []) :
    readsOf (tunBranch outputInfo ev s).effects = [(tunUid s p, received p)] := by
  have hcases := (tunBranch_cases outputInfo ev s).1
  generalize (tunBranch outputInfo ev s).effects = es at hcases
  cases hcases with
  | idle hidle => exact absurd (hidle p hpacket) hp
  | unknown hsome _ _ htalk =>
    obtain rfl := Option.some.inj (hpacket.symm.trans hsome)
    simp [readOf, htalk.readsOf]
  | attempt hsome _ _ htalk =>
    obtain rfl := Option.some.inj (hpacket.symm.trans hsome)
    simp [sendAttempt, readOf, htalk.readsOf]

theorem sendReport_eq_none {s : LoopState} {r : Both} {d : Datagram} :
    (sendReport outputInfo r.sock (tick s r.clock) d).2 = none ↔ ¬ ReportReturns s r d := by
  rw [ReportReturns, not_not]
  exact outputInfo_eq_none _ _

theorem pass_refused {s : LoopState} {r : Both} (h : ¬ AcceptedDatagram s r) :
    (loopBody outputInfo r.input s).effects = (sockBranch outputInfo r.sock (tick s r.clock)).effects := by
  have hskip : ∃ s', (sockBranch outputInfo r.sock (tick s r.clock)).control = .skip s' := by
    have hnot : ∀ {d : Datagram} {uid : UInt8} {node : SvpnClientNode}, r.sock.recv = some d →
        ¬ Accepts (tick s r.clock) d uid node :=
      fun hrecv ha => h ⟨_, _, _, hrecv, (accepts_tick _).1 ha⟩
    have hstep := sockBranch_step outputInfo r.sock (tick s r.clock)
    generalize sockBranch outputInfo r.sock (tick s r.clock) = o at hstep
    cases hstep with
    | failed => exact ⟨_, rfl⟩
    | refused => exact ⟨_, rfl⟩
    | died hrecv haccepts => exact absurd haccepts (hnot hrecv)
    | accepted hrecv haccepts => exact absurd haccepts (hnot hrecv)
  obtain ⟨s', hskip⟩ := hskip
  rw [loopBody_both, Outcome.andThen, hskip]

theorem pass_accepts_read {s : LoopState} {r : Both} {d : Datagram} {uid : UInt8}
    {node : SvpnClientNode} (hrecv : r.sock.recv = some d) (ha : Accepts s d uid node)
    (hreturns : ReportReturns s r d) :
    ∃ globals, (loopBody outputInfo r.input s).effects =
      (sockBranch outputInfo r.sock (tick s r.clock)).effects ++
        (tunBranch outputInfo r.tun (acceptedState (tick s r.clock) d uid node globals)).effects := by
  obtain ⟨shown, -, heq⟩ := sockBranch_accepted outputInfo hrecv ((accepts_tick r.clock).2 ha)
  rw [loopBody_both, heq]
  cases hreport : (sendReport outputInfo r.sock (tick s r.clock) d).2 with
  | none => exact absurd hreturns (sendReport_eq_none.1 hreport)
  | some globals => exact ⟨globals, rfl⟩

theorem reads_accepted {s : LoopState} {r : Both} {d : Datagram} {uid : UInt8}
    {node : SvpnClientNode} (hrecv : r.sock.recv = some d) (ha : Accepts s d uid node)
    (hreturns : ReportReturns s r d) :
    readsOf (loopBody outputInfo r.input s).effects =
      [(tunUid { s with tmpBuffer := store s.tmpBuffer 0 (received d.data) } r.packet,
        received r.packet)] := by
  obtain ⟨globals, heq⟩ := pass_accepts_read hrecv ha hreturns
  rw [heq, readsOf_append, readsOf_sock, List.nil_append, readsOf_tun rfl r.ne_nil]
  rfl

theorem reads_died {s : LoopState} {r : Both} {d : Datagram} {uid : UInt8} {node : SvpnClientNode}
    (hrecv : r.sock.recv = some d) (ha : Accepts s d uid node) (hdies : ¬ ReportReturns s r d) :
    readsOf (loopBody outputInfo r.input s).effects = [] := by
  have hquiet := readsOf_sock r.sock (tick s r.clock)
  obtain ⟨shown, -, heq⟩ := sockBranch_accepted outputInfo hrecv ((accepts_tick r.clock).2 ha)
  rw [sendReport_eq_none.2 hdies] at heq
  rw [heq] at hquiet
  rw [loopBody_both, heq]
  exact hquiet

theorem reads_refused {s : LoopState} {r : Both} (h : ¬ AcceptedDatagram s r) :
    readsOf (loopBody outputInfo r.input s).effects = [] := by
  rw [pass_refused h, readsOf_sock]

def sendFor (s : LoopState) (uid : UInt8) (p : List UInt8) :
    List (UInt8 × SockaddrIn6 × List UInt8) :=
  match s.psc.client uid with
  | none => []
  | some node => [(uid, node.addr, p.map node.table.encodeByte)]

theorem sendsOf_pass {input : Select} {s : LoopState} {uid : UInt8} {p : List UInt8}
    (hread : (uid, p) ∈ readsOf (loopBody outputInfo input s).effects) :
    sendsOf (loopBody outputInfo input s).effects =
      (sendFor s uid p).map (redirected (loopBody outputInfo input s).effects) := by
  obtain ⟨e, he, hsome⟩ := List.mem_filterMap.1 hread
  cases e with
  | read v q =>
    cases hsome
    obtain ⟨s₁, -, hrouted, hsends⟩ := pass_read he
    rw [hsends, hrouted.clients uid, sendFor]
    cases s.psc.client uid <;> rfl
  | _ => cases hsome

theorem sendsOf_tunOnly (s : LoopState) (r : Both) :
    sendsOf (loopBody outputInfo r.tunOnly s).effects =
      sendFor s (tunUid s r.packet) (received r.packet) :=
  (tunBranch_cases outputInfo r.tun (tick s r.clock)).1.sendsOf_eq rfl r.ne_nil

theorem undisturbed_iff {s : LoopState} {r : Both} {d : Datagram} {uid : UInt8}
    {node : SvpnClientNode} (hrecv : r.sock.recv = some d) (ha : Accepts s d uid node)
    (hreturns : ReportReturns s r d) : Undisturbed s r ↔ SameUser s r d := by
  have hreads := reads_accepted hrecv ha hreturns
  have hsends := sendsOf_pass (hreads ▸ List.mem_singleton_self _)
  unfold Undisturbed SameUser
  simp only
  rw [hsends, sendsOf_tunOnly]
  generalize tunUid { s with tmpBuffer := store s.tmpBuffer 0 (received d.data) } r.packet = v
  generalize tunUid s r.packet = w
  constructor
  · intro heq
    unfold sendFor at heq
    cases hv : s.psc.client v with
    | none =>
      cases hw : s.psc.client w with
      | none => exact .inr ⟨rfl, rfl⟩
      | some node' => simp [hv, hw] at heq
    | some node' =>
      cases hw : s.psc.client w with
      | none => simp [hv, hw] at heq
      | some node'' =>
        simp only [hv, hw, List.map_cons, List.map_nil, redirected, List.cons.injEq,
          Prod.mk.injEq] at heq
        exact .inl heq.1.1
  · rintro (rfl | ⟨hv, hw⟩)
    · rfl
    · rw [sendFor, sendFor, hv, hw]

/-- A pass reads its packet and sends it undisturbed exactly if its datagram gives way; it
never reads more than one. -/
theorem pass_served (s : LoopState) (r : Both) :
    (readsOf (loopBody outputInfo r.input s).effects).length ≤ 1 ∧
      ((readsOf (loopBody outputInfo r.input s).effects).length = 1 ∧ Undisturbed s r ↔
        GivesWay s r) := by
  by_cases h : AcceptedDatagram s r
  · obtain ⟨d, uid, node, hrecv, ha⟩ := h
    by_cases hreturns : ReportReturns s r d
    · have hreads := reads_accepted hrecv ha hreturns
      rw [hreads, List.length_singleton, undisturbed_iff hrecv ha hreturns]
      refine ⟨Nat.le_refl 1, fun hsame => ⟨d, uid, node, hrecv, ha, hreturns, hsame.2⟩, ?_⟩
      rintro ⟨d', uid', node', hrecv', -, -, hsame⟩
      obtain rfl := Option.some.inj (hrecv.symm.trans hrecv')
      exact ⟨rfl, hsame⟩
    · rw [reads_died hrecv ha hreturns]
      refine ⟨Nat.zero_le 1, fun hone => absurd hone.1 (by decide), ?_⟩
      rintro ⟨d', uid', node', hrecv', -, hreturns', -⟩
      obtain rfl := Option.some.inj (hrecv.symm.trans hrecv')
      exact absurd hreturns' hreturns
  · rw [reads_refused h]
    refine ⟨Nat.zero_le 1, fun hone => absurd hone.1 (by decide), ?_⟩
    rintro ⟨d, uid, node, hrecv, ha, -, -⟩
    exact absurd ⟨d, uid, node, hrecv, ha⟩ h

def Throughout (Q : LoopState → Both → Prop) (rs : List Both) (s₀ : LoopState) : Prop :=
  ∀ before r after s, rs = before ++ r :: after →
    (svpnServerHandleThread outputInfo (before.map Both.input) s₀).2 = some s → Q s r

theorem throughout_nil (Q : LoopState → Both → Prop) (s₀ : LoopState) : Throughout Q [] s₀ := by
  intro before r after s heq
  cases before <;> cases heq

/-- The iterations that a run begins; the process may die in the last one. -/
def iterations : List Both → LoopState → ℕ
  | [], _ => 0
  | r :: rs, s =>
    match (loopBody outputInfo r.input s).control.state with
    | none => 1
    | some s' => iterations rs s' + 1

theorem iterations_stop {r : Both} {s : LoopState}
    (h : (loopBody outputInfo r.input s).control.state = none) (rs : List Both) :
    iterations (r :: rs) s = 1 := by
  simp only [iterations, h]

theorem iterations_next {r : Both} {s s' : LoopState}
    (h : (loopBody outputInfo r.input s).control.state = some s') (rs : List Both) :
    iterations (r :: rs) s = iterations rs s' + 1 := by
  simp only [iterations, h]

theorem throughout_stop {Q : LoopState → Both → Prop} {r : Both} {rs : List Both} {s₀ : LoopState}
    (hstate : (loopBody outputInfo r.input s₀).control.state = none) :
    Throughout Q (r :: rs) s₀ ↔ Q s₀ r := by
  constructor
  · exact fun h => h [] r rs s₀ rfl rfl
  · intro hfirst before x after s heq hs
    cases before with
    | nil =>
      obtain ⟨rfl, -⟩ := List.cons.inj heq
      cases hs
      exact hfirst
    | cons y before =>
      obtain ⟨rfl, rfl⟩ := List.cons.inj heq
      rw [List.map_cons, handleThread_stop hstate] at hs
      cases hs

theorem throughout_cons {Q : LoopState → Both → Prop} {r : Both} {rs : List Both}
    {s₀ s₁ : LoopState} (hstate : (loopBody outputInfo r.input s₀).control.state = some s₁) :
    Throughout Q (r :: rs) s₀ ↔ Q s₀ r ∧ Throughout Q rs s₁ := by
  constructor
  · intro h
    refine ⟨h [] r rs s₀ rfl rfl, ?_⟩
    rintro before x after s rfl hs
    refine h (r :: before) x after s rfl ?_
    rw [List.map_cons, handleThread_next hstate]
    exact hs
  · rintro ⟨hfirst, hrest⟩ before x after s heq hs
    cases before with
    | nil =>
      obtain ⟨rfl, -⟩ := List.cons.inj heq
      cases hs
      exact hfirst
    | cons y before =>
      obtain ⟨rfl, rfl⟩ := List.cons.inj heq
      rw [List.map_cons, handleThread_next hstate] at hs
      exact hrest before x after s rfl hs

theorem reads_run (rs : List Both) (s₀ : LoopState) :
    (readsOf (svpnServerHandleThread outputInfo (rs.map Both.input) s₀).1).length ≤
        iterations rs s₀ ∧
      ((readsOf (svpnServerHandleThread outputInfo (rs.map Both.input) s₀).1).length =
          iterations rs s₀ ∧ Throughout Undisturbed rs s₀ ↔ Throughout GivesWay rs s₀) := by
  induction rs generalizing s₀ with
  | nil =>
    exact ⟨Nat.le_refl 0, fun _ => throughout_nil _ _, fun _ => ⟨rfl, throughout_nil _ _⟩⟩
  | cons r rs ih =>
    obtain ⟨hone, hfirst⟩ := pass_served s₀ r
    cases hstate : (loopBody outputInfo r.input s₀).control.state with
    | none =>
      rw [List.map_cons, handleThread_stop hstate, iterations_stop hstate, throughout_stop hstate,
        throughout_stop hstate]
      exact ⟨hone, hfirst⟩
    | some s₁ =>
      obtain ⟨hle, hrest⟩ := ih s₁
      rw [List.map_cons, handleThread_next hstate, readsOf_append, List.length_append,
        iterations_next hstate, throughout_cons hstate, throughout_cons hstate, ← hfirst, ← hrest]
      refine ⟨by omega, ?_, ?_⟩
      · rintro ⟨hcount, hsent, hsents⟩
        exact ⟨⟨by omega, hsent⟩, by omega, hsents⟩
      · rintro ⟨⟨hread, hsent⟩, hreads, hsents⟩
        exact ⟨by omega, hsent, hsents⟩

/-- A run in which both descriptors are always readable reads one packet in each iteration and
sends it undisturbed, if and only if every datagram gives way. -/
theorem served_iff_givesWay (rs : List Both) (s₀ : LoopState) :
    ((readsOf (svpnServerHandleThread outputInfo (rs.map Both.input) s₀).1).length =
        iterations rs s₀ ∧ Throughout Undisturbed rs s₀) ↔ Throughout GivesWay rs s₀ :=
  (reads_run rs s₀).2

def sampleBlocked : Both :=
  ⟨1, ⟨some ⟨sampleAddr 2, [9]⟩, 1, true⟩, sampleReply, by decide, 20, true⟩

/-- The datagram of an unknown user leaves the packet in the tunnel. -/
theorem rejected_datagram_holds_up :
    ∃ s, (svpnServerHandleThread outputInfo [sampleBlocked.input] sampleStart).2 = some s ∧
      readsOf (svpnServerHandleThread outputInfo [sampleBlocked.input] sampleStart).1 = [] := by
  have hunknown : sampleStart.psc.client 9 = none :=
    client_serverOf sampleLocal (fun _ => sampleAddr 0) sampleUsers 9
  have hdrops : DropsDatagram sampleStart sampleBlocked.sock :=
    .inr ⟨_, rfl, .inr ⟨9, rfl, .inl hunknown⟩⟩
  have hpass : Unrouted sampleStart (loopBody outputInfo sampleBlocked.input sampleStart) :=
    pass_unrouted hdrops 1 (some sampleBlocked.tun)
  obtain ⟨-, s, hcontrol, -⟩ := hpass
  obtain ⟨heffects, hstate⟩ := handleThread_singleton (congrArg Control.state hcontrol)
  refine ⟨s, hstate, ?_⟩
  rw [heffects]
  exact reads_refused fun ⟨d, uid, node, hrecv, ha⟩ => hdrops.refused hrecv uid node ha

def sampleBoth : Both :=
  ⟨1, ⟨some (sampleDatagram (sampleAddr 1)), 20, true⟩, sampleReply, by decide, -1, true⟩

theorem givesWay_sampleBoth : GivesWay sampleStart sampleBoth :=
  ⟨_, 6, _, rfl, accepts_sample (s := sampleStart) rfl (sampleAddr 1),
    fun hfaults => absurd hfaults.1 (by decide), sameUser_of_length _ (by decide)⟩

theorem served_iff_givesWay_sample :
    (readsOf (svpnServerHandleThread outputInfo [sampleBoth.input] sampleStart).1).length = 1 := by
  have hone : iterations [sampleBoth] sampleStart = 1 := by
    cases hstate : (loopBody outputInfo sampleBoth.input sampleStart).control.state with
    | none => exact iterations_stop hstate []
    | some s' => exact iterations_next hstate []
  rw [← hone]
  refine ((served_iff_givesWay [sampleBoth] sampleStart).2 ?_).1
  rintro before r after s' heq hs'
  rcases before with - | ⟨x, before⟩
  · obtain ⟨rfl, -⟩ := List.cons.inj heq
    cases hs'
    exact givesWay_sampleBoth
  · simp at heq

end SVpn.TunnelReads
