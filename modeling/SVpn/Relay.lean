import SVpn.Leftovers
import SVpn.RoutingTable
import SVpn.Transducer

set_option autoImplicit false

/-!
The server as a relay. Of the two packet buffers only five bytes outlive a pass: the
source field in one, the destination octet in the other. With these and the routing
table a small machine answers what arrives exactly as the loop does.
-/
namespace SVpn.Relay
open SVpn.Region SVpn.Crypt SVpn.OutputInfo SVpn.ServerLoop SVpn.ServerSteps SVpn.ServerRuns
open SVpn.SourceCheck SVpn.RoutingTable SVpn.Leftovers SVpn.Trace SVpn.Transducer

/-- What the socket or the tunnel has delivered. -/
inductive Arrival where
  | datagram (d : Datagram)
  | packet (p : List UInt8)

inductive Action where
  | accept (uid : UInt8) (addr : SockaddrIn6)
  | write (uid : UInt8) (packet : List UInt8)
  | send (uid : UInt8) (addr : SockaddrIn6) (datagram : List UInt8)
  deriving DecidableEq

structure State where
  localAddr : Vector UInt8 4
  client : UInt8 → Option SvpnClientNode
  source : Fin 4 → UInt8
  dest : UInt8

namespace State

/-- The user a datagram names, if there is one. -/
def named (r : State) (d : Datagram) : Option (UInt8 × SvpnClientNode) :=
  d.data.head?.bind fun uid => (r.client uid).map (Prod.mk uid)

def plain (node : SvpnClientNode) (d : Datagram) : List UInt8 :=
  (received d.data).map node.table.decodeByte

/-- The source field of the decrypted datagram is the user's own. -/
def Vouched (r : State) (d : Datagram) (uid : UInt8) (node : SvpnClientNode) : Prop :=
  overwrite 12 r.source (plain node d) = sourceField r.localAddr uid

instance (r : State) (d : Datagram) (uid : UInt8) (node : SvpnClientNode) :
    Decidable (r.Vouched d uid node) :=
  inferInstanceAs (Decidable (_ = _))

def destOf (r : State) (p : List UInt8) : UInt8 := p.getD 19 r.dest

end State

def answer (r : State) : Arrival → List Action
  | .datagram d =>
    match r.named d with
    | none => []
    | some (uid, node) =>
      if r.Vouched d uid node then [.accept uid d.sender, .write uid (State.plain node d)] else []
  | .packet p =>
    match r.client (r.destOf p) with
    | none => []
    | some node => [.send (r.destOf p) node.addr (p.map node.table.encodeByte)]

def advance (r : State) : Arrival → State
  | .datagram d =>
    let dest := (received d.data).getD 19 r.dest
    match r.named d with
    | none => { r with dest }
    | some (uid, node) =>
      { r with
        dest
        source := overwrite 12 r.source (State.plain node d)
        client := if r.Vouched d uid node then
            Function.update r.client uid (some { node with addr := d.sender })
          else r.client }
  | .packet p =>
    let dest := r.destOf p
    match r.client dest with
    | none => { r with dest }
    | some node =>
      { r with dest, source := overwrite 12 r.source (p.map node.table.encodeByte) }

def relay : Machine State Arrival Action where
  out := answer
  next := advance

def view (s : LoopState) : State where
  localAddr := s.psc.localAddr
  client := s.psc.client
  source := fun k => s.buffer (12 + k)
  dest := s.tmpBuffer 19

def arrivalOf : Effect → Option Arrival
  | .recvfrom d => some (.datagram d)
  | .read _ packet => some (.packet packet)
  | _ => none

def actionOf : Effect → Option Action
  | .accepted uid addr => some (.accept uid addr)
  | .write uid packet _ => some (.write uid packet)
  | .sendto uid addr datagram _ => some (.send uid addr datagram)
  | _ => none

def arrivals (es : List Effect) : List Arrival := es.filterMap arrivalOf

def actions (es : List Effect) : List Action := es.filterMap actionOf

@[simp] theorem arrivals_append (es fs : List Effect) :
    arrivals (es ++ fs) = arrivals es ++ arrivals fs := List.filterMap_append

@[simp] theorem actions_append (es fs : List Effect) :
    actions (es ++ fs) = actions es ++ actions fs := List.filterMap_append

@[simp] theorem arrivals_cons (e : Effect) (es : List Effect) :
    arrivals (e :: es) = (arrivalOf e).toList ++ arrivals es := filterMap_cons_toList _ _ _

@[simp] theorem actions_cons (e : Effect) (es : List Effect) :
    actions (e :: es) = (actionOf e).toList ++ actions es := filterMap_cons_toList _ _ _

@[simp] theorem arrivals_nil : arrivals [] = [] := rfl
@[simp] theorem actions_nil : actions [] = [] := rfl

theorem arrivals_talk {es : List Effect} (h : Talk es) : arrivals es = [] := by
  apply List.filterMap_eq_nil_iff.2
  intro e he
  rcases h e he with ⟨p, rfl⟩ | ⟨n, rfl⟩ <;> rfl

theorem actions_talk {es : List Effect} (h : Talk es) : actions es = [] := by
  apply List.filterMap_eq_nil_iff.2
  intro e he
  rcases h e he with ⟨p, rfl⟩ | ⟨n, rfl⟩ <;> rfl

theorem overwrite_view (s : LoopState) (bytes : List UInt8) :
    (fun k : Fin 4 => store s.buffer 0 bytes (12 + k)) = overwrite 12 (view s).source bytes :=
  overwrite_store _ _ _

theorem store_getD (m : Cells UInt8) (bytes : List UInt8) (i : ℕ) :
    store m 0 bytes i = bytes.getD i (m i) := by
  simp [store]

theorem vouched_view {s : LoopState} {d : Datagram} {uid : UInt8} {node : SvpnClientNode} :
    (view s).Vouched d uid node ↔ SourceOk s.psc.localAddr uid (decoded s node.table d) := by
  rw [sourceOk_iff_window, decoded, overwrite_view]
  rfl

theorem named_view {s : LoopState} {d : Datagram} {uid : UInt8} {node : SvpnClientNode}
    (hhead : d.data.head? = some uid) (hclient : s.psc.client uid = some node) :
    (view s).named d = some (uid, node) := by
  have hview : (view s).client uid = some node := hclient
  simp [State.named, hhead, hview]

theorem named_view_none {s : LoopState} {d : Datagram}
    (h : ∀ uid, d.data.head? = some uid → s.psc.client uid = none) : (view s).named d = none := by
  unfold State.named
  cases hhead : d.data.head? with
  | none => rfl
  | some uid =>
    have hview : (view s).client uid = none := h uid hhead
    simp [hview]

@[simp] theorem relay_out (r : State) (x : Arrival) : relay.out r x = answer r x := rfl
@[simp] theorem relay_next (r : State) (x : Arrival) : relay.next r x = advance r x := rfl

theorem advance_unnamed {r : State} {d : Datagram} (h : r.named d = none) :
    advance r (.datagram d) = { r with dest := (received d.data).getD 19 r.dest } := by
  simp only [advance, h]

theorem advance_refused {r : State} {d : Datagram} {uid : UInt8} {node : SvpnClientNode}
    (h : r.named d = some (uid, node)) (hvouched : ¬ r.Vouched d uid node) :
    advance r (.datagram d) =
      { r with
        dest := (received d.data).getD 19 r.dest
        source := overwrite 12 r.source (State.plain node d) } := by
  simp only [advance, h, hvouched, if_false]

theorem advance_vouched {r : State} {d : Datagram} {uid : UInt8} {node : SvpnClientNode}
    (h : r.named d = some (uid, node)) (hvouched : r.Vouched d uid node) :
    advance r (.datagram d) =
      { r with
        dest := (received d.data).getD 19 r.dest
        source := overwrite 12 r.source (State.plain node d)
        client := Function.update r.client uid (some { node with addr := d.sender }) } := by
  simp only [advance, h, hvouched, if_true]

theorem advance_packet (r : State) (p : List UInt8) :
    (advance r (.packet p)).localAddr = r.localAddr ∧ (advance r (.packet p)).client = r.client := by
  simp only [advance]
  cases r.client (r.destOf p) with
  | none => exact ⟨rfl, rfl⟩
  | some node => exact ⟨rfl, rfl⟩

/-- A phase seen as a run of the relay; a phase that stops may cut the last answer short. -/
structure Relayed (s : LoopState) (es : List Effect) (r : Option LoopState) : Prop where
  answered : r.isSome → actions es = relay.run (view s) (arrivals es)
  cut : actions es <+: relay.run (view s) (arrivals es)
  moved : ∀ s', r = some s' → view s' = relay.after (view s) (arrivals es)

theorem relayed_idle (s : LoopState) : Relayed s [] (some s) :=
  ⟨fun _ => rfl, List.prefix_rfl, fun s' h => by cases h; rfl⟩

/-- One arrival, answered in full. -/
theorem Relayed.of_arrival {s s' : LoopState} {es : List Effect} {x : Arrival}
    (harrivals : arrivals es = [x]) (hactions : actions es = answer (view s) x)
    (hmoved : view s' = advance (view s) x) : Relayed s es (some s') := by
  have hrun : actions es = relay.run (view s) (arrivals es) := by
    simp [harrivals, hactions]
  refine ⟨fun _ => hrun, hrun ▸ List.prefix_rfl, fun s₁ h => ?_⟩
  cases h
  simp [harrivals, hmoved]

theorem Relayed.of_stopped {s : LoopState} {es : List Effect} {x : Arrival}
    (harrivals : arrivals es = [x]) (hactions : actions es <+: answer (view s) x) :
    Relayed s es none := by
  constructor
  · intro h
    cases h
  · simpa [harrivals] using hactions
  · intro s₁ h
    cases h

theorem relayed_sockBranch (report : Reporter) (ev : SockReady) (s : LoopState) :
    Relayed s (sockBranch report ev s).effects (sockBranch report ev s).control.state := by
  have hcase := sockBranch_case report ev s
  generalize sockBranch report ev s = o at hcase
  -- what the relay answers to a datagram that is accepted
  have hanswer : ∀ {d : Datagram} {uid : UInt8} {node : SvpnClientNode}, Accepts s d uid node →
      answer (view s) (.datagram d) = [.accept uid d.sender, .write uid (State.plain node d)] := by
    intro d uid node haccepts
    simp [answer, named_view haccepts.head haccepts.client, vouched_view.2 haccepts.source]
  cases hcase with
  | failed => exact relayed_idle s
  | @empty d _ hdata =>
    have hnamed := named_view_none (s := s) (d := d) (by simp [hdata])
    apply Relayed.of_arrival (x := .datagram d) (by simp [arrivalOf])
    · simp [actionOf, answer, hnamed]
    · rw [advance_unnamed hnamed, received_nil hdata]
      rfl
  | @unknownUser d uid _ hhead hclient =>
    have hnamed := named_view_none (s := s) (d := d) fun v hv => by
      obtain rfl := Option.some.inj (hhead.symm.trans hv)
      exact hclient
    apply Relayed.of_arrival (x := .datagram d) (by simp [arrivalOf])
    · simp [actionOf, answer, hnamed]
    · rw [advance_unnamed hnamed]
      simp only [view, store_getD]
  | @invalidPassword d uid node _ hhead hclient hsource =>
    have hnamed := named_view hhead hclient
    have hvouched := mt vouched_view.1 hsource
    apply Relayed.of_arrival (x := .datagram d) (by simp [arrivalOf])
    · simp [actionOf, answer, hnamed, hvouched]
    · rw [advance_refused hnamed hvouched]
      simp only [view, decoded, store_getD]
      rfl
  | @died d uid node _ haccepts =>
    have hshown := talk_acceptedTalk report ev s d uid node
    apply Relayed.of_stopped (x := .datagram d) (by simp [arrivalOf, arrivals_talk hshown])
    simp [actionOf, actions_talk hshown, hanswer haccepts]
  | @accepted d uid node globals _ haccepts =>
    have hshown := talk_acceptedTalk report ev s d uid node
    apply Relayed.of_arrival (x := .datagram d) (by simp [arrivalOf, arrivals_talk hshown])
    · simp [actionOf, actions_talk hshown, hanswer haccepts, State.plain]
    · have hclients : (s.psc.setClient uid { node with addr := d.sender }).client =
          Function.update s.psc.client uid (some { node with addr := d.sender }) := by
        funext v
        rw [Function.update_apply]
        exact client_setClient s.psc uid v _
      rw [advance_vouched (named_view haccepts.head haccepts.client) (vouched_view.2 haccepts.source)]
      simp only [view, acceptedState, hclients, decoded, store_getD, localAddr_setClient]
      rfl

theorem relayed_tunBranch (report : Reporter) (ev : TunReady) (s : LoopState) :
    Relayed s (tunBranch report ev s).effects (tunBranch report ev s).control.state := by
  have hdest : ∀ p, tunUid s p = (view s).destOf (received p) := fun p => store_getD _ _ _
  have hsent : ∀ {p : List UInt8} {node : SvpnClientNode} (talk : List Effect), Talk talk →
      s.psc.client (tunUid s p) = some node →
      arrivals (sendAttempt ev s p node ++ talk) = [.packet (received p)] ∧
      actions (sendAttempt ev s p node ++ talk) = answer (view s) (.packet (received p)) ∧
      view (encryptedState s p node) = advance (view s) (.packet (received p)) := by
    intro p node talk htalk hclient
    have hview : (view s).client ((view s).destOf (received p)) = some node := by
      rw [← hdest]
      exact hclient
    refine ⟨by simp [sendAttempt, arrivalOf, arrivals_talk htalk], ?_, ?_⟩
    · simp only [sendAttempt, actions_append, actions_talk htalk, answer, hview, hdest]
      rfl
    · simp only [advance, hview]
      simp only [view, encryptedState, store_getD]
      rfl
  have hstep := tunBranch_step report ev s
  generalize tunBranch report ev s = o at hstep
  cases hstep with
  | idle => exact relayed_idle s
  | @unknown p _ _ hclient =>
    have hview : (view s).client ((view s).destOf (received p)) = none := by
      rw [← hdest]
      exact hclient
    apply Relayed.of_arrival (x := .packet (received p)) (by simp [arrivalOf])
    · simp [actionOf, answer, hview]
    · simp only [advance, hview]
      simp only [view, store_getD]
      rfl
  | @unsent p node _ _ hclient =>
    obtain ⟨hin, hout, hview⟩ := hsent [.notice (.clientDisconnected (tunUid s p))] (talk_notice _) hclient
    exact Relayed.of_arrival hin hout hview
  | @died p node _ _ hclient =>
    obtain ⟨hin, hout, -⟩ := hsent _ (talk_printed _) hclient
    exact Relayed.of_stopped hin (hout ▸ List.prefix_rfl)
  | @sent p node globals _ _ hclient =>
    obtain ⟨hin, hout, hview⟩ := hsent _ (talk_printed _) hclient
    exact Relayed.of_arrival hin hout hview

theorem relayed_phase {report : Reporter} {h es : List Effect} {s : LoopState} {r : Option LoopState}
    (hphase : Phase report h s es r) : Relayed s es r := by
  cases hphase with
  | clock clock => exact ⟨fun _ => rfl, List.prefix_rfl, fun s' hs' => by cases hs'; rfl⟩
  | sock ev => exact relayed_sockBranch report ev s
  | tun ev => exact relayed_tunBranch report ev s
  | exit => exact ⟨fun _ => rfl, List.prefix_rfl, fun s' hs' => by cases hs'⟩

def simulation (report : Reporter) : Simulation (Phase report) relay where
  view := view
  input := arrivalOf
  output := actionOf
  stay _ _ _ s' hphase :=
    ⟨(relayed_phase hphase).answered rfl, (relayed_phase hphase).moved s' rfl⟩
  stop _ _ _ hphase := (relayed_phase hphase).cut

theorem phases_of_handleThread (report : Reporter) (inputs : List Select) (s : LoopState) :
    Reaches (Phase report) s (svpnServerHandleThread report inputs s).1
      (svpnServerHandleThread report inputs s).2 := by
  have hpasses := reaches_handleThread report inputs
    (Reaches.start : Reaches (Pass report anyInput) s [] (some s))
  rw [List.nil_append] at hpasses
  exact phases_of_passes hpasses

theorem relay_of_handleThread {report : Reporter} {inputs : List Select} {s₀ s : LoopState}
    (hrun : (svpnServerHandleThread report inputs s₀).2 = some s) :
    actions (svpnServerHandleThread report inputs s₀).1 =
      relay.run (view s₀) (arrivals (svpnServerHandleThread report inputs s₀).1) ∧
    view s = relay.after (view s₀) (arrivals (svpnServerHandleThread report inputs s₀).1) := by
  have hphases := phases_of_handleThread report inputs s₀
  rw [hrun] at hphases
  exact (simulation report).follows hphases

/-- Over every run the loop acts as the relay does on what the run received. A run
that the process does not survive may lack the end of the last answer. -/
theorem svpnServerHandleThread_relays (report : Reporter) (inputs : List Select) (s₀ : LoopState) :
    actions (svpnServerHandleThread report inputs s₀).1 <+:
      relay.run (view s₀) (arrivals (svpnServerHandleThread report inputs s₀).1) ∧
    ∀ s, (svpnServerHandleThread report inputs s₀).2 = some s →
      actions (svpnServerHandleThread report inputs s₀).1 =
        relay.run (view s₀) (arrivals (svpnServerHandleThread report inputs s₀).1) ∧
      view s = relay.after (view s₀) (arrivals (svpnServerHandleThread report inputs s₀).1) :=
  ⟨(simulation report).outputs_cut (phases_of_handleThread report inputs s₀),
    fun _ hrun => relay_of_handleThread hrun⟩

theorem state_sampleRun :
    (svpnServerHandleThread outputInfo [sampleFirst] sampleStart).2 = some sampleAccepted :=
  (handleThread_singleton state_sampleFirst).2

theorem arrivals_sampleRun :
    arrivals (svpnServerHandleThread outputInfo [sampleFirst] sampleStart).1 =
      [.datagram (sampleDatagram (sampleAddr 1))] := by
  obtain ⟨shown, hshown, heq⟩ := pass_sampleFirst
  rw [(handleThread_singleton state_sampleFirst).1, heq]
  simp [arrivalOf, arrivals_talk hshown]

theorem svpnServerHandleThread_relays_sample :
    view sampleAccepted = relay.after (view sampleStart)
      (arrivals (svpnServerHandleThread outputInfo [sampleFirst] sampleStart).1) :=
  ((svpnServerHandleThread_relays outputInfo [sampleFirst] sampleStart).2 sampleAccepted state_sampleRun).2

end SVpn.Relay
