import SVpn.KeyedRuns
import SVpn.ServerCauses
import SVpn.ServerStreams

set_option autoImplicit false

/-!
The server as one session for each user. On arrivals of full size the relay touches
the session of the arrival's own user only, so users do not depend on the order of
each other's traffic, although all of it goes through the same two buffers.
-/
namespace SVpn.UserSessions
open SVpn.Region SVpn.Crypt SVpn.OutputInfo SVpn.ServerLoop SVpn.ServerSteps SVpn.ServerRuns
open SVpn.SourceCheck SVpn.RoutingTable SVpn.Leftovers SVpn.Transducer SVpn.Relay
open SVpn.ServerStreams

abbrev Session := Option SvpnClientNode

/-- The user an arrival belongs to: the first byte of a datagram, the last octet of
a packet's destination. -/
def arrivalUser : Arrival → UInt8
  | .datagram d => d.data.headD 0
  | .packet p => p.getD 19 0

def actionUser : Action → UInt8
  | .accept uid _ => uid
  | .write uid _ => uid
  | .send uid _ _ => uid

def FullSize : Arrival → Prop
  | .datagram d => Whole d
  | .packet p => 20 ≤ p.length

variable (localAddr : Vector UInt8 4)

/-- The datagram decrypts to a packet with the source address of its user. -/
def Genuine (d : Datagram) (node : SvpnClientNode) : Prop :=
  SourceIs localAddr (d.data.headD 0) (State.plain node d)

instance (d : Datagram) (node : SvpnClientNode) : Decidable (Genuine localAddr d node) :=
  inferInstanceAs (Decidable (SourceIs _ _ _))

def serve : Arrival → Session → Session
  | .datagram d, some node =>
    if Genuine localAddr d node then some { node with addr := d.sender } else some node
  | _, session => session

def respond : Arrival → Session → List Action
  | .datagram d, some node =>
    if Genuine localAddr d node then
      [.accept (d.data.headD 0) d.sender, .write (d.data.headD 0) (State.plain node d)]
    else []
  | .packet p, some node => [.send (p.getD 19 0) node.addr (p.map node.table.encodeByte)]
  | _, none => []

theorem user_of_respond (x : Arrival) (session : Session) :
    ∀ a ∈ respond localAddr x session, actionUser a = arrivalUser x := by
  intro a ha
  cases session with
  | none => cases x <;> exact absurd ha List.not_mem_nil
  | some node =>
    cases x with
    | packet p =>
      obtain rfl := List.mem_singleton.1 ha
      rfl
    | datagram d =>
      simp only [respond] at ha
      split at ha
      · simp only [List.mem_cons, List.not_mem_nil, or_false] at ha
        rcases ha with rfl | rfl <;> rfl
      · exact absurd ha List.not_mem_nil

theorem named_head {r : State} {d : Datagram} {uid : UInt8} (hhead : d.data.head? = some uid) :
    r.named d = (r.client uid).map (Prod.mk uid) ∧ d.data.headD 0 = uid := by
  constructor
  · simp [State.named, hhead]
  · rw [List.headD_eq_head?_getD, hhead]
    rfl

theorem vouched_iff_genuine {r : State} {d : Datagram} {uid : UInt8} {node : SvpnClientNode}
    (hhead : d.data.head? = some uid) (hwhole : Whole d) :
    r.Vouched d uid node ↔ Genuine r.localAddr d node := by
  have hne : d.data ≠ [] := by
    rintro hnil
    rw [hnil] at hhead
    cases hhead
  rw [Genuine, (named_head (r := r) hhead).2]
  exact vouched_iff_source r node uid (hwhole.resolve_left hne)

theorem named_empty (r : State) {d : Datagram} (h : d.data = []) : r.named d = none := by
  simp [State.named, h]

theorem not_genuine_empty {d : Datagram} (h : d.data = []) (node : SvpnClientNode) :
    ¬ Genuine localAddr d node := by
  intro hgenuine
  have hlen := hgenuine.length
  simp [State.plain, h, received] at hlen

theorem destOf_of_length (r : State) {p : List UInt8} (h : 20 ≤ p.length) :
    r.destOf p = arrivalUser (.packet p) := by
  change p.getD 19 r.dest = p.getD 19 0
  rw [List.getD_eq_getElem _ _ (by omega), List.getD_eq_getElem _ _ (by omega)]

theorem answer_fullSize {r : State} {x : Arrival} (hx : FullSize x) :
    answer r x = respond r.localAddr x (r.client (arrivalUser x)) := by
  cases x with
  | packet p =>
    simp only [answer, destOf_of_length r hx]
    cases r.client (arrivalUser (.packet p)) <;> rfl
  | datagram d =>
    cases hhead : d.data.head? with
    | none =>
      have hnil : d.data = [] := List.head?_eq_none_iff.1 hhead
      simp only [answer, named_empty r hnil]
      cases r.client (arrivalUser (.datagram d)) with
      | none => rfl
      | some node => simp [respond, not_genuine_empty r.localAddr hnil node]
    | some uid =>
      obtain ⟨hnamed, huser⟩ := named_head (r := r) hhead
      simp only [answer, hnamed, arrivalUser, huser]
      cases hclient : r.client uid with
      | none => rfl
      | some node =>
        simp only [Option.map_some, respond, vouched_iff_genuine hhead hx, huser]

theorem client_fullSize {r : State} {x : Arrival} (hx : FullSize x) :
    (advance r x).localAddr = r.localAddr ∧
      (advance r x).client = KeyedRuns.step arrivalUser (serve r.localAddr) r.client x := by
  have hsame : ∀ {x : Arrival}, serve r.localAddr x (r.client (arrivalUser x)) =
      r.client (arrivalUser x) → KeyedRuns.step arrivalUser (serve r.localAddr) r.client x = r.client := by
    intro x h
    rw [KeyedRuns.step, h]
    exact Function.update_eq_self _ _
  cases x with
  | packet p =>
    rw [hsame (by simp [serve])]
    exact advance_packet r p
  | datagram d =>
    cases hhead : d.data.head? with
    | none =>
      have hnil : d.data = [] := List.head?_eq_none_iff.1 hhead
      rw [advance_unnamed (named_empty r hnil), hsame]
      · exact ⟨rfl, rfl⟩
      · cases r.client (arrivalUser (.datagram d)) with
        | none => rfl
        | some node => simp [serve, not_genuine_empty r.localAddr hnil node]
    | some uid =>
      obtain ⟨hnamed, huser⟩ := named_head (r := r) hhead
      cases hclient : r.client uid with
      | none =>
        rw [hclient, Option.map_none] at hnamed
        rw [advance_unnamed hnamed, hsame]
        · exact ⟨rfl, rfl⟩
        · simp only [arrivalUser, huser, hclient, serve]
      | some node =>
        rw [hclient, Option.map_some] at hnamed
        by_cases hvouched : r.Vouched d uid node
        · have hgenuine := (vouched_iff_genuine hhead hx).1 hvouched
          rw [advance_vouched hnamed hvouched]
          refine ⟨rfl, ?_⟩
          simp only [KeyedRuns.step, arrivalUser, huser, hclient, serve, hgenuine, if_true]
        · have hrefused := mt (vouched_iff_genuine hhead hx).2 hvouched
          rw [advance_refused hnamed hvouched, hsame]
          · exact ⟨rfl, rfl⟩
          · simp only [arrivalUser, huser, hclient, serve, hrefused, if_false]

theorem relay_sessions {r : State} {xs : List Arrival} (hxs : ∀ x ∈ xs, FullSize x) :
    relay.run r xs = (KeyedRuns.emitted arrivalUser (serve r.localAddr) (respond r.localAddr)
      r.client xs).map Prod.snd ∧
    (relay.after r xs).client = KeyedRuns.run arrivalUser (serve r.localAddr) r.client xs := by
  induction xs generalizing r with
  | nil => exact ⟨rfl, rfl⟩
  | cons x xs ih =>
    have hx := hxs x List.mem_cons_self
    obtain ⟨hlocal, hclient⟩ := client_fullSize (r := r) hx
    obtain ⟨hrun, hafter⟩ := ih (r := advance r x) fun y hy => hxs y (List.mem_cons_of_mem x hy)
    rw [hlocal, hclient] at hrun hafter
    constructor
    · rw [Machine.run_cons, relay_next, hrun, relay_out, answer_fullSize hx, KeyedRuns.emitted,
        List.map_append, List.map_map]
      simp [Function.comp_def]
    · rw [Machine.after_cons, relay_next, hafter]
      rfl

/-- The actions for one user come from the session of this user alone. -/
theorem actions_user {r : State} {xs : List Arrival} (hxs : ∀ x ∈ xs, FullSize x) (uid : UInt8) :
    (relay.run r xs).filter (fun a => actionUser a = uid) =
      KeyedRuns.emittedAlone (serve r.localAddr) (respond r.localAddr) (r.client uid)
        (xs.filter fun x => arrivalUser x = uid) := by
  have hkeys : ∀ (m : UInt8 → Session) (ys : List Arrival),
      ∀ o ∈ KeyedRuns.emitted arrivalUser (serve r.localAddr) (respond r.localAddr) m ys,
        actionUser o.2 = o.1 := by
    intro m ys
    induction ys generalizing m with
    | nil => exact fun o ho => absurd ho List.not_mem_nil
    | cons y ys ih =>
      intro o ho
      rcases List.mem_append.1 ho with ho | ho
      · obtain ⟨a, ha, rfl⟩ := List.mem_map.1 ho
        exact user_of_respond _ y _ a ha
      · exact ih _ o ho
  have hfilter : ∀ os : List (UInt8 × Action), (∀ o ∈ os, actionUser o.2 = o.1) →
      (os.map Prod.snd).filter (fun a => actionUser a = uid) =
        (os.filter fun o => o.1 = uid).map Prod.snd := by
    intro os hos
    rw [List.filter_map]
    congr 1
    exact List.filter_congr fun o ho => by simp [hos o ho]
  rw [(relay_sessions hxs).1, hfilter _ (hkeys _ _), KeyedRuns.emitted_filter, List.map_map]
  exact List.map_id' _

/-- What a run that the process survives has done for a user is what the session of
this user does, from the user's own arrivals. -/
theorem session_of_handleThread {report : Reporter} {inputs : List Select} {s₀ s : LoopState}
    (hrun : (svpnServerHandleThread report inputs s₀).2 = some s)
    (hfull : ∀ x ∈ arrivals (svpnServerHandleThread report inputs s₀).1, FullSize x) (uid : UInt8) :
    (actions (svpnServerHandleThread report inputs s₀).1).filter (fun a => actionUser a = uid) =
      KeyedRuns.emittedAlone (serve s₀.psc.localAddr) (respond s₀.psc.localAddr)
        (s₀.psc.client uid) ((arrivals (svpnServerHandleThread report inputs s₀).1).filter
          fun x => arrivalUser x = uid) ∧
    s.psc.client uid = ((arrivals (svpnServerHandleThread report inputs s₀).1).filter
      fun x => arrivalUser x = uid).foldl
        (fun session x => serve s₀.psc.localAddr x session) (s₀.psc.client uid) := by
  obtain ⟨hactions, hview⟩ := relay_of_handleThread hrun
  have hafter := (relay_sessions (r := view s₀) hfull).2
  rw [← hview] at hafter
  constructor
  · rw [hactions, actions_user hfull]
    rfl
  · exact (congrFun hafter uid).trans (KeyedRuns.run_apply _ _ _ _ _)

/-- A datagram that reaches past the source field or a packet with a whole header,
with the result of the write or the send it may lead to. -/
inductive Traffic where
  | datagram (d : Datagram) (hmin : 16 ≤ d.data.length) (hmax : d.data.length ≤ bufferLen)
      (writeRet : ℤ)
  | packet (p : List UInt8) (hmin : 20 ≤ p.length) (hmax : p.length ≤ bufferLen) (sendRet : ℤ)

/-- What a pass finds besides its traffic; only reports look at it. -/
structure Moment where
  clock : ℤ
  fopen : Bool

namespace Traffic

def user : Traffic → UInt8
  | .datagram d _ _ _ => d.data[0]
  | .packet p _ _ _ => p[19]

def arrival : Traffic → Arrival
  | .datagram d _ _ _ => .datagram d
  | .packet p _ _ _ => .packet p

def input (now : Moment) : Traffic → Select
  | .datagram d _ _ writeRet => .ready now.clock (some ⟨some d, writeRet, now.fopen⟩) none
  | .packet p _ _ sendRet => .ready now.clock none (some ⟨some p, sendRet, now.fopen⟩)

end Traffic

def inputs (xs : List (Moment × Traffic)) : List Select := xs.map fun x => x.2.input x.1

theorem inputs_cons (x : Moment × Traffic) (xs : List (Moment × Traffic)) :
    inputs (x :: xs) = x.2.input x.1 :: inputs xs := rfl

/-- A reporter that leaves the two totals as they are. -/
def Harmless (report : Reporter) : Prop :=
  ∀ fopen g g', (report fopen g).2 = some g' →
    g'.stat.totalSend = g.stat.totalSend ∧ g'.stat.totalRecv = g.stat.totalRecv

theorem harmless_outputInfo : Harmless outputInfo := fun _ _ _ h => outputInfo_totals h

def quiet : Reporter := fun _ g => ([], some g)

theorem harmless_quiet : Harmless quiet := fun _ _ _ h => by cases h; exact ⟨rfl, rfl⟩


variable {localAddr}

theorem head?_eq_getElem (bytes : List UInt8) (h : 0 < bytes.length) :
    bytes.head? = some bytes[0] := by
  rw [List.head?_eq_getElem?, List.getElem?_eq_getElem h]

theorem arrivalUser_arrival (t : Traffic) : arrivalUser t.arrival = t.user := by
  cases t with
  | datagram d hmin hmax writeRet =>
    change d.data.headD 0 = d.data[0]
    rw [List.headD_eq_head?_getD, head?_eq_getElem d.data (by omega), Option.getD_some]
  | packet p hmin hmax sendRet => exact List.getD_eq_getElem _ _ (by omega)

theorem filter_arrivals (ts : List Traffic) (uid : UInt8) :
    (ts.map Traffic.arrival).filter (fun x => arrivalUser x = uid) =
      (ts.filter fun t => t.user = uid).map Traffic.arrival := by
  rw [List.filter_map]
  simp only [Function.comp_def, arrivalUser_arrival]

theorem fullSize_arrival (t : Traffic) : FullSize t.arrival := by
  cases t with
  | datagram d hmin hmax writeRet => exact .inr hmin
  | packet p hmin hmax sendRet => exact hmin

variable {report : Reporter}

theorem arrivals_pass (report : Reporter) (now : Moment) (t : Traffic) (s : LoopState) :
    arrivals (loopBody report (t.input now) s).effects = [t.arrival] := by
  cases t with
  | datagram d hmin hmax writeRet =>
    rw [Traffic.input, loopBody_sock]
    have heffects := sockBranch_effects report ⟨some d, writeRet, now.fopen⟩ (tick s now.clock)
    generalize (sockBranch report ⟨some d, writeRet, now.fopen⟩ (tick s now.clock)).effects = es
      at heffects
    cases heffects with
    | failed hrecv => cases hrecv
    | refused hrecv _ htalk =>
      cases hrecv
      simp [arrivalOf, arrivals_talk htalk, Traffic.arrival]
    | died hrecv _ hshown =>
      cases hrecv
      simp [arrivalOf, arrivals_talk hshown, Traffic.arrival]
    | accepted hrecv _ hshown =>
      cases hrecv
      simp [arrivalOf, arrivals_talk hshown, Traffic.arrival]
  | packet p hmin hmax sendRet =>
    have hp : p ≠ [] := List.ne_nil_of_length_pos (by omega)
    have hreceived : received p = p := received_eq hmax
    rw [Traffic.input, loopBody_tun]
    have heffects := (tunBranch_cases report ⟨some p, sendRet, now.fopen⟩ (tick s now.clock)).1
    generalize (tunBranch report ⟨some p, sendRet, now.fopen⟩ (tick s now.clock)).effects = es
      at heffects
    cases heffects with
    | idle hidle => exact absurd (hidle p rfl) hp
    | unknown hpacket _ _ htalk =>
      cases hpacket
      simp [arrivalOf, arrivals_talk htalk, hreceived, Traffic.arrival]
    | attempt hpacket _ _ htalk =>
      cases hpacket
      simp [sendAttempt, arrivalOf, arrivals_talk htalk, hreceived, Traffic.arrival]

theorem arrivals_run {xs : List (Moment × Traffic)} {s s' : LoopState}
    (hrun : (svpnServerHandleThread report (inputs xs) s).2 = some s') :
    arrivals (svpnServerHandleThread report (inputs xs) s).1 =
      (xs.map Prod.snd).map Traffic.arrival := by
  induction xs generalizing s with
  | nil => rfl
  | cons x xs ih =>
    rw [inputs_cons] at hrun ⊢
    cases hstate : (loopBody report (x.2.input x.1) s).control.state with
    | none =>
      rw [handleThread_stop hstate] at hrun
      cases hrun
    | some s₁ =>
      rw [handleThread_next hstate] at hrun ⊢
      rw [arrivals_append, arrivals_pass, ih hrun]
      rfl

theorem fullSize_run {xs : List (Moment × Traffic)} {s s' : LoopState}
    (hrun : (svpnServerHandleThread report (inputs xs) s).2 = some s') :
    ∀ x ∈ arrivals (svpnServerHandleThread report (inputs xs) s).1, FullSize x := by
  rw [arrivals_run hrun]
  intro x hx
  obtain ⟨t, -, rfl⟩ := List.mem_map.1 hx
  exact fullSize_arrival t

theorem client_pass {now : Moment} {t : Traffic} {s s' : LoopState}
    (hstate : (loopBody report (t.input now) s).control.state = some s') :
    s'.psc.localAddr = s.psc.localAddr ∧ s'.psc.client =
      KeyedRuns.step Traffic.user (fun t => serve s.psc.localAddr t.arrival) s.psc.client t := by
  obtain ⟨heffects, hrun⟩ := handleThread_singleton hstate
  have hview : view s' = advance (view s) t.arrival := by
    rw [(relay_of_handleThread hrun).2, heffects, arrivals_pass]
    rfl
  obtain ⟨hlocal, hclient⟩ := client_fullSize (r := view s) (fullSize_arrival t)
  rw [← hview] at hlocal hclient
  refine ⟨hlocal, hclient.trans ?_⟩
  rw [KeyedRuns.step, KeyedRuns.step, arrivalUser_arrival]
  rfl

/-- What a datagram adds to the bytes sent by its user. -/
def sendGain (localAddr : Vector UInt8 4) : Traffic → Session → ℤ
  | .datagram d _ _ _, some node => if Genuine localAddr d node then d.data.length else 0
  | _, _ => 0

def recvGain : Traffic → Session → ℤ
  | .packet _ _ _ sendRet, some _ => if sendRet ≤ 0 then 0 else sendRet
  | _, _ => 0

theorem accepts_iff_genuine {s : LoopState} {d : Datagram} {uid : UInt8} {node : SvpnClientNode}
    (hhead : d.data.head? = some uid) (hclient : s.psc.client uid = some node) (hwhole : Whole d) :
    Accepts s d uid node ↔ Genuine s.psc.localAddr d node := by
  have hgenuine : (view s).Vouched d uid node ↔ Genuine s.psc.localAddr d node :=
    vouched_iff_genuine hhead hwhole
  exact ⟨fun ha => hgenuine.1 (vouched_view.2 ha.source),
    fun hg => ⟨hhead, hclient, vouched_view.1 (hgenuine.2 hg)⟩⟩

/-- The totals after a call, against those before. -/
def Gains (s s' : LoopState) (send recv : ℤ) : Prop :=
  s'.globals.stat.totalSend = s.globals.stat.totalSend + send ∧
    s'.globals.stat.totalRecv = s.globals.stat.totalRecv + recv

theorem gains_datagram (hreport : Harmless report) {d : Datagram} (hmin : 16 ≤ d.data.length)
    (hmax : d.data.length ≤ bufferLen) {ev : SockReady} (hrecv : ev.recv = some d) {s s' : LoopState}
    (hstate : (sockBranch report ev s).control.state = some s') :
    Gains s s' (sendGain s.psc.localAddr (.datagram d hmin hmax ev.writeRet)
      (s.psc.client d.data[0])) 0 := by
  have hhead := head?_eq_getElem d.data (by omega)
  have hstep := sockBranch_step report ev s
  generalize sockBranch report ev s = o at hstep hstate
  cases hstep with
  | failed hfailed => cases hfailed.symm.trans hrecv
  | @refused d' _ _ hsome hrefused _ _ hglobals =>
    obtain rfl : d' = d := Option.some.inj (hsome.symm.trans hrecv)
    cases hstate
    have hnone : sendGain s.psc.localAddr (.datagram d' hmin hmax ev.writeRet)
        (s.psc.client d'.data[0]) = 0 := by
      cases hclient : s.psc.client d'.data[0] with
      | none => rfl
      | some node =>
        exact if_neg fun hg => hrefused _ _ ((accepts_iff_genuine hhead hclient (.inr hmin)).2 hg)
    rw [hnone]
    simp [Gains, hglobals]
  | died => cases hstate
  | @accepted d' uid node _ globals hsome haccepts _ hreported =>
    obtain rfl : d' = d := Option.some.inj (hsome.symm.trans hrecv)
    cases hstate
    obtain rfl : d'.data[0] = uid := Option.some.inj (hhead.symm.trans haccepts.head)
    obtain ⟨hsend, hkeep⟩ := hreport _ _ _ hreported
    have hgenuine := (accepts_iff_genuine hhead haccepts.client (.inr hmin)).1 haccepts
    rw [haccepts.client, sendGain, if_pos hgenuine]
    constructor
    · change globals.stat.totalSend = _
      rw [hsend, received_eq hmax]
      rfl
    · change globals.stat.totalRecv = _
      rw [hkeep]
      exact (add_zero _).symm

theorem gains_packet (hreport : Harmless report) {p : List UInt8} (hmin : 20 ≤ p.length)
    (hmax : p.length ≤ bufferLen) {ev : TunReady} (hpacket : ev.packet = some p) {s s' : LoopState}
    (hstate : (tunBranch report ev s).control.state = some s') :
    Gains s s' 0 (recvGain (.packet p hmin hmax ev.sendRet) (s.psc.client p[19])) := by
  have hp : p ≠ [] := List.ne_nil_of_length_pos (by omega)
  have huser : tunUid s p = p[19] := by
    have hget := ServerCauses.getElem?_tunUid s p (by rwa [received_eq hmax])
    rw [received_eq hmax, List.getElem?_eq_getElem (by omega)] at hget
    exact (Option.some.inj hget).symm
  rw [← huser]
  have hstep := tunBranch_step report ev s
  generalize tunBranch report ev s = o at hstep hstate
  cases hstep with
  | idle hidle => exact absurd (hidle p hpacket) hp
  | unknown hsome _ hclient =>
    obtain rfl := Option.some.inj (hpacket.symm.trans hsome)
    cases hstate
    rw [hclient]
    exact ⟨(add_zero _).symm, (add_zero _).symm⟩
  | unsent hsome _ hclient hret =>
    obtain rfl := Option.some.inj (hpacket.symm.trans hsome)
    cases hstate
    rw [hclient, recvGain, if_pos hret]
    exact ⟨(add_zero _).symm, (add_zero _).symm⟩
  | died => cases hstate
  | sent hsome _ hclient hret hreported =>
    obtain rfl := Option.some.inj (hpacket.symm.trans hsome)
    cases hstate
    rw [hclient, recvGain, if_neg (Int.not_le.2 hret)]
    obtain ⟨hsend, hrecv⟩ := hreport _ _ _ hreported
    exact ⟨hsend.trans (add_zero _).symm, hrecv⟩

theorem gains_pass (hreport : Harmless report) (now : Moment) (t : Traffic) {s s' : LoopState}
    (hstate : (loopBody report (t.input now) s).control.state = some s') :
    Gains s s' (sendGain s.psc.localAddr t (s.psc.client t.user))
      (recvGain t (s.psc.client t.user)) := by
  cases t with
  | datagram d hmin hmax writeRet =>
    rw [Traffic.input, loopBody_sock] at hstate
    exact gains_datagram hreport hmin hmax rfl hstate
  | packet p hmin hmax sendRet =>
    rw [Traffic.input, loopBody_tun] at hstate
    exact gains_packet hreport hmin hmax rfl hstate

/-- The totals add up what every event gains in the session of its user. -/
theorem gains_run (hreport : Harmless report) (xs : List (Moment × Traffic)) {s s' : LoopState}
    (hrun : (svpnServerHandleThread report (inputs xs) s).2 = some s') :
    Gains s s'
      (KeyedRuns.gained Traffic.user (fun t => serve s.psc.localAddr t.arrival)
        (sendGain s.psc.localAddr) s.psc.client (xs.map Prod.snd))
      (KeyedRuns.gained Traffic.user (fun t => serve s.psc.localAddr t.arrival)
        recvGain s.psc.client (xs.map Prod.snd)) := by
  induction xs generalizing s with
  | nil =>
    cases hrun
    exact ⟨(add_zero _).symm, (add_zero _).symm⟩
  | cons x xs ih =>
    rw [inputs_cons] at hrun
    cases hstate : (loopBody report (x.2.input x.1) s).control.state with
    | none =>
      rw [handleThread_stop hstate] at hrun
      cases hrun
    | some s₁ =>
      rw [handleThread_next hstate] at hrun
      obtain ⟨hsend, hrecv⟩ := ih hrun
      obtain ⟨hsendPass, hrecvPass⟩ := gains_pass hreport x.1 x.2 hstate
      obtain ⟨hlocal, hclients⟩ := client_pass hstate
      rw [hlocal, hclients] at hsend hrecv
      constructor
      · rw [hsend, hsendPass, add_assoc]
        rfl
      · rw [hrecv, hrecvPass, add_assoc]
        rfl

theorem quiet_pass (now : Moment) (t : Traffic) (s : LoopState) :
    ∃ s', (loopBody quiet (t.input now) s).control.state = some s' := by
  cases t with
  | datagram d hmin hmax writeRet =>
    rw [Traffic.input, loopBody_sock]
    have hstep := sockBranch_step quiet ⟨some d, writeRet, now.fopen⟩ (tick s now.clock)
    generalize sockBranch quiet ⟨some d, writeRet, now.fopen⟩ (tick s now.clock) = o at hstep
    cases hstep with
    | failed => exact ⟨_, rfl⟩
    | refused => exact ⟨_, rfl⟩
    | died _ _ _ hreport => cases hreport
    | accepted => exact ⟨_, rfl⟩
  | packet p hmin hmax sendRet =>
    rw [Traffic.input, loopBody_tun]
    have hstep := tunBranch_step quiet ⟨some p, sendRet, now.fopen⟩ (tick s now.clock)
    generalize tunBranch quiet ⟨some p, sendRet, now.fopen⟩ (tick s now.clock) = o at hstep
    cases hstep with
    | idle => exact ⟨_, rfl⟩
    | unknown => exact ⟨_, rfl⟩
    | unsent => exact ⟨_, rfl⟩
    | died _ _ _ _ hreport => cases hreport
    | sent => exact ⟨_, rfl⟩

theorem quiet_run (xs : List (Moment × Traffic)) (s : LoopState) :
    ∃ s', (svpnServerHandleThread quiet (inputs xs) s).2 = some s' := by
  induction xs generalizing s with
  | nil => exact ⟨s, rfl⟩
  | cons x xs ih =>
    obtain ⟨s₁, hstate⟩ := quiet_pass x.1 x.2 s
    obtain ⟨s', hrun⟩ := ih s₁
    rw [inputs_cons, handleThread_next hstate]
    exact ⟨s', hrun⟩

/-- Two runs leave the same addresses and totals, and wrote and sent the same for
each user. -/
structure Agree (r r' : List Effect × Option LoopState) : Prop where
  addrs : ∀ s s', r.2 = some s → r'.2 = some s' →
    ∀ uid, (s.psc.client uid).map (·.addr) = (s'.psc.client uid).map (·.addr)
  totals : ∀ s s', r.2 = some s → r'.2 = some s' →
    s.globals.stat.totalSend = s'.globals.stat.totalSend ∧
      s.globals.stat.totalRecv = s'.globals.stat.totalRecv
  writes : ∀ uid, (writesOf r.1).filter (fun o => o.1 = uid) =
    (writesOf r'.1).filter (fun o => o.1 = uid)
  sends : ∀ uid, (sendsOf r.1).filter (fun o => o.1 = uid) =
    (sendsOf r'.1).filter (fun o => o.1 = uid)

def sentBy : Action → Option (UInt8 × SockaddrIn6 × List UInt8)
  | .send uid addr datagram => some (uid, addr, datagram)
  | _ => none

theorem sendsOf_eq_actions (es : List Effect) : sendsOf es = (actions es).filterMap sentBy := by
  unfold sendsOf actions
  rw [List.filterMap_filterMap]
  congr 1
  funext e
  cases e <;> rfl

theorem user_of_writtenBy {a : Action} {x : UInt8 × List UInt8} (h : writtenBy a = some x) :
    x.1 = actionUser a := by
  cases a <;> cases h
  rfl

theorem user_of_sentBy {a : Action} {x : UInt8 × SockaddrIn6 × List UInt8} (h : sentBy a = some x) :
    x.1 = actionUser a := by
  cases a <;> cases h
  rfl

theorem filterMap_user {β : Type} {f : Action → Option (UInt8 × β)}
    (hf : ∀ {a : Action} {x : UInt8 × β}, f a = some x → x.1 = actionUser a) (as : List Action)
    (uid : UInt8) : (as.filterMap f).filter (fun x => x.1 = uid) =
      (as.filter fun a => actionUser a = uid).filterMap f := by
  rw [List.filter_filterMap, List.filterMap_filter]
  congr 1
  funext a
  cases h : f a with
  | none => simp
  | some x => simp [Option.filter, hf h]

theorem agree_of_runs {report report' : Reporter} (hreport : Harmless report)
    (hreport' : Harmless report') (s₀ : LoopState) {xs ys : List (Moment × Traffic)}
    (huser : ∀ uid, (xs.map Prod.snd).filter (fun t => t.user = uid) =
      (ys.map Prod.snd).filter (fun t => t.user = uid)) {s s' : LoopState}
    (hxs : (svpnServerHandleThread report (inputs xs) s₀).2 = some s)
    (hys : (svpnServerHandleThread report' (inputs ys) s₀).2 = some s') :
    Agree (svpnServerHandleThread report (inputs xs) s₀)
      (svpnServerHandleThread report' (inputs ys) s₀) := by
  have hown : ∀ uid, (arrivals (svpnServerHandleThread report (inputs xs) s₀).1).filter
      (fun x => arrivalUser x = uid) = (arrivals (svpnServerHandleThread report' (inputs ys) s₀).1).filter
        (fun x => arrivalUser x = uid) := by
    intro uid
    rw [arrivals_run hxs, arrivals_run hys, filter_arrivals, filter_arrivals, huser]
  have hsession := session_of_handleThread hxs (fullSize_run hxs)
  have hsession' := session_of_handleThread hys (fullSize_run hys)
  have hactions : ∀ uid, (actions (svpnServerHandleThread report (inputs xs) s₀).1).filter
      (fun a => actionUser a = uid) = (actions (svpnServerHandleThread report' (inputs ys) s₀).1).filter
        (fun a => actionUser a = uid) := by
    intro uid
    rw [(hsession uid).1, (hsession' uid).1, hown]
  obtain ⟨hsend, hrecv⟩ := gains_run hreport xs hxs
  obtain ⟨hsend', hrecv'⟩ := gains_run hreport' ys hys
  constructor
  · intro r r' hr hr' uid
    obtain rfl := Option.some.inj (hxs.symm.trans hr)
    obtain rfl := Option.some.inj (hys.symm.trans hr')
    rw [(hsession uid).2, (hsession' uid).2, hown]
  · intro r r' hr hr'
    obtain rfl := Option.some.inj (hxs.symm.trans hr)
    obtain rfl := Option.some.inj (hys.symm.trans hr')
    rw [hsend, hsend', hrecv, hrecv', KeyedRuns.gained_congr _ _ _ _ huser,
      KeyedRuns.gained_congr _ _ _ _ huser]
    exact ⟨rfl, rfl⟩
  · intro uid
    rw [writesOf_eq_actions, writesOf_eq_actions, filterMap_user user_of_writtenBy,
      filterMap_user user_of_writtenBy, hactions]
  · intro uid
    rw [sendsOf_eq_actions, sendsOf_eq_actions, filterMap_user user_of_sentBy,
      filterMap_user user_of_sentBy, hactions]

/-- Two sequences of traffic with the same events of each user in the same order
lead to the same addresses, totals and outputs for each user: always when reports
are left out, and also with them as long as they end neither run. -/
theorem order_independence (s₀ : LoopState) (xs ys : List (Moment × Traffic))
    (huser : ∀ uid, (xs.map Prod.snd).filter (fun t => t.user = uid) =
      (ys.map Prod.snd).filter (fun t => t.user = uid)) :
    (∃ s s', (svpnServerHandleThread quiet (inputs xs) s₀).2 = some s ∧
      (svpnServerHandleThread quiet (inputs ys) s₀).2 = some s' ∧
      Agree (svpnServerHandleThread quiet (inputs xs) s₀)
        (svpnServerHandleThread quiet (inputs ys) s₀)) ∧
    ∀ s s', (svpnServerHandleThread outputInfo (inputs xs) s₀).2 = some s →
      (svpnServerHandleThread outputInfo (inputs ys) s₀).2 = some s' →
      Agree (svpnServerHandleThread outputInfo (inputs xs) s₀)
        (svpnServerHandleThread outputInfo (inputs ys) s₀) := by
  obtain ⟨s, hxs⟩ := quiet_run xs s₀
  obtain ⟨s', hys⟩ := quiet_run ys s₀
  refine ⟨⟨s, s', hxs, hys, agree_of_runs harmless_quiet harmless_quiet s₀ huser hxs hys⟩, ?_⟩
  intro r r' hr hr'
  exact agree_of_runs harmless_outputInfo harmless_outputInfo s₀ huser hr hr'

def sampleUp : Traffic := .datagram (sampleDatagram (sampleAddr 1)) (by decide) (by decide) 20

/-- A packet for user 3. -/
def sampleDown : Traffic :=
  .packet [0x45, 0, 0, 20, 0, 0, 0, 0, 64, 17, 0, 0, 192, 168, 3, 1, 192, 168, 3, 3]
    (by decide) (by decide) 20

theorem user_sampleUp : sampleUp.user = 6 := by
  have hhead := head?_encrypted sampleKey (p := samplePacket) (by decide)
  rw [head?_eq_getElem _ (by decide), Option.some.injEq] at hhead
  exact hhead

/-- Traffic of two users in either order. -/
theorem order_independence_sample :
    ∃ s s', (svpnServerHandleThread quiet
        (inputs [(⟨1, true⟩, sampleUp), (⟨2, true⟩, sampleDown)]) sampleStart).2 = some s ∧
      (svpnServerHandleThread quiet
        (inputs [(⟨1, true⟩, sampleDown), (⟨2, true⟩, sampleUp)]) sampleStart).2 = some s' ∧
      Agree (svpnServerHandleThread quiet
          (inputs [(⟨1, true⟩, sampleUp), (⟨2, true⟩, sampleDown)]) sampleStart)
        (svpnServerHandleThread quiet
          (inputs [(⟨1, true⟩, sampleDown), (⟨2, true⟩, sampleUp)]) sampleStart) := by
  refine (order_independence sampleStart [(⟨1, true⟩, sampleUp), (⟨2, true⟩, sampleDown)]
    [(⟨1, true⟩, sampleDown), (⟨2, true⟩, sampleUp)] ?_).1
  intro uid
  have hdown : sampleDown.user = 3 := rfl
  simp only [List.map_cons, List.map_nil, List.filter_cons, List.filter_nil, user_sampleUp, hdown]
  by_cases h6 : (6 : UInt8) = uid
  · subst h6
    simp
  · simp [h6]

end SVpn.UserSessions
