import SVpn.KeyTable
import SVpn.ServerLoop
import SVpn.Trace

set_option autoImplicit false

/-!
What one pass of the server loop can do. Each branch either leaves routing and
counters alone or does its one accepted action; later results use only these cases.
-/
namespace SVpn.ServerSteps
open SVpn.ArrayPermutation SVpn.Region SVpn.Crypt SVpn.KeyTable SVpn.OutputInfo SVpn.ServerLoop
open SVpn.Trace

theorem client_setClient (psc : SvpnServer) (uid v : UInt8) (node : SvpnClientNode) :
    (psc.setClient uid node).client v = if v = uid then some node else psc.client v := by
  change entry (psc.clients.set (slot uid) (some node) (slot uid).isLt) (slot v) = _
  rw [entry_set, Function.update_apply]
  simp only [slot_injective.eq_iff]
  rfl

@[simp] theorem localAddr_setClient (psc : SvpnServer) (uid : UInt8) (node : SvpnClientNode) :
    (psc.setClient uid node).localAddr = psc.localAddr := rfl

/-- Skipping the copy of an equal address is the same as making it. -/
theorem setClient_self {psc : SvpnServer} {uid : UInt8} {node : SvpnClientNode}
    (h : psc.client uid = some node) : psc.setClient uid node = psc := by
  have hget : psc.clients[(slot uid).val] = some node := h
  have hclients : psc.clients.set (slot uid) (some node) (slot uid).isLt = psc.clients := by
    rw [← hget]
    exact Vector.set_getElem_self (slot uid).isLt
  unfold SvpnServer.setClient
  rw [hclients]

def writeOf : Effect → Option (UInt8 × List UInt8)
  | .write uid packet _ => some (uid, packet)
  | _ => none

def sendOf : Effect → Option (UInt8 × SockaddrIn6 × List UInt8)
  | .sendto uid addr datagram _ => some (uid, addr, datagram)
  | _ => none

def acceptOf : Effect → Option (UInt8 × SockaddrIn6)
  | .accepted uid addr => some (uid, addr)
  | _ => none

def readOf : Effect → Option (UInt8 × List UInt8)
  | .read uid packet => some (uid, packet)
  | _ => none

def writesOf (es : List Effect) : List (UInt8 × List UInt8) := es.filterMap writeOf

def sendsOf (es : List Effect) : List (UInt8 × SockaddrIn6 × List UInt8) := es.filterMap sendOf

def acceptedOf (es : List Effect) : List (UInt8 × SockaddrIn6) := es.filterMap acceptOf

def readsOf (es : List Effect) : List (UInt8 × List UInt8) := es.filterMap readOf

@[simp] theorem writesOf_append (es fs : List Effect) :
    writesOf (es ++ fs) = writesOf es ++ writesOf fs := List.filterMap_append

@[simp] theorem sendsOf_append (es fs : List Effect) :
    sendsOf (es ++ fs) = sendsOf es ++ sendsOf fs := List.filterMap_append

@[simp] theorem acceptedOf_append (es fs : List Effect) :
    acceptedOf (es ++ fs) = acceptedOf es ++ acceptedOf fs := List.filterMap_append

@[simp] theorem readsOf_append (es fs : List Effect) :
    readsOf (es ++ fs) = readsOf es ++ readsOf fs := List.filterMap_append

@[simp] theorem writesOf_cons (e : Effect) (es : List Effect) :
    writesOf (e :: es) = (writeOf e).toList ++ writesOf es := by
  cases h : writeOf e <;> simp [writesOf, h]

@[simp] theorem sendsOf_cons (e : Effect) (es : List Effect) :
    sendsOf (e :: es) = (sendOf e).toList ++ sendsOf es := by
  cases h : sendOf e <;> simp [sendsOf, h]

@[simp] theorem acceptedOf_cons (e : Effect) (es : List Effect) :
    acceptedOf (e :: es) = (acceptOf e).toList ++ acceptedOf es := by
  cases h : acceptOf e <;> simp [acceptedOf, h]

@[simp] theorem readsOf_cons (e : Effect) (es : List Effect) :
    readsOf (e :: es) = (readOf e).toList ++ readsOf es := by
  cases h : readOf e <;> simp [readsOf, h]

@[simp] theorem writesOf_nil : writesOf [] = [] := rfl
@[simp] theorem sendsOf_nil : sendsOf [] = [] := rfl
@[simp] theorem acceptedOf_nil : acceptedOf [] = [] := rfl
@[simp] theorem readsOf_nil : readsOf [] = [] := rfl

/-- Output for the operator only. -/
def Talk (es : List Effect) : Prop :=
  ∀ e ∈ es, (∃ p, e = .printed p) ∨ ∃ n, e = .notice n

theorem talk_nil : Talk [] := fun _ h => absurd h List.not_mem_nil

theorem talk_notice (n : Notice) : Talk [.notice n] := by
  intro e he
  exact .inr ⟨n, List.mem_singleton.1 he⟩

theorem talk_printed (ps : List Printed) : Talk (ps.map .printed) := by
  intro e he
  obtain ⟨p, -, rfl⟩ := List.mem_map.1 he
  exact .inl ⟨p, rfl⟩

theorem Talk.append {es fs : List Effect} (hes : Talk es) (hfs : Talk fs) : Talk (es ++ fs) := by
  intro e he
  rcases List.mem_append.1 he with he | he
  · exact hes e he
  · exact hfs e he

theorem Talk.writesOf {es : List Effect} (h : Talk es) : writesOf es = [] := by
  apply List.filterMap_eq_nil_iff.2
  intro e he
  rcases h e he with ⟨p, rfl⟩ | ⟨n, rfl⟩ <;> rfl

theorem Talk.sendsOf {es : List Effect} (h : Talk es) : sendsOf es = [] := by
  apply List.filterMap_eq_nil_iff.2
  intro e he
  rcases h e he with ⟨p, rfl⟩ | ⟨n, rfl⟩ <;> rfl

theorem Talk.acceptedOf {es : List Effect} (h : Talk es) : acceptedOf es = [] := by
  apply List.filterMap_eq_nil_iff.2
  intro e he
  rcases h e he with ⟨p, rfl⟩ | ⟨n, rfl⟩ <;> rfl

theorem Talk.readsOf {es : List Effect} (h : Talk es) : readsOf es = [] := by
  apply List.filterMap_eq_nil_iff.2
  intro e he
  rcases h e he with ⟨p, rfl⟩ | ⟨n, rfl⟩ <;> rfl

def decoded (s : LoopState) (table : CodeTable) (d : Datagram) : Cells UInt8 :=
  store s.buffer 0 ((received d.data).map table.decodeByte)

def SourceOk (localAddr : Vector UInt8 4) (uid : UInt8) (pheader : Cells UInt8) : Prop :=
  srcIp pheader 0 = addrByte localAddr 0 ∧ srcIp pheader 1 = addrByte localAddr 1 ∧
    srcIp pheader 2 = addrByte localAddr 2 ∧ srcIp pheader 3 = uid

instance (localAddr : Vector UInt8 4) (uid : UInt8) (pheader : Cells UInt8) :
    Decidable (SourceOk localAddr uid pheader) :=
  inferInstanceAs (Decidable (_ ∧ _ ∧ _ ∧ _))

/-- The datagram passes the checks the socket branch makes. -/
structure Accepts (s : LoopState) (d : Datagram) (uid : UInt8) (node : SvpnClientNode) : Prop where
  head : d.data.head? = some uid
  client : s.psc.client uid = some node
  source : SourceOk s.psc.localAddr uid (decoded s node.table d)

theorem Accepts.unique {s : LoopState} {d : Datagram} {uid uid' : UInt8}
    {node node' : SvpnClientNode} (h : Accepts s d uid node) (h' : Accepts s d uid' node') :
    uid = uid' ∧ node = node' := by
  obtain rfl : uid = uid' := Option.some.inj (h.head.symm.trans h'.head)
  exact ⟨rfl, Option.some.inj (h.client.symm.trans h'.client)⟩

def acceptedState (s : LoopState) (d : Datagram) (uid : UInt8) (node : SvpnClientNode)
    (globals : Globals) : LoopState :=
  { psc := s.psc.setClient uid { node with addr := d.sender }
    buffer := decoded s node.table d
    tmpBuffer := store s.tmpBuffer 0 (received d.data)
    globals }

theorem decrypt_received (table : CodeTable) (tmpBuffer buffer : Cells UInt8) (bytes : List UInt8) :
    decrypt table (store tmpBuffer 0 bytes) buffer bytes.length =
      store buffer 0 (bytes.map table.decodeByte) := by
  unfold decrypt
  rw [transform_eq_store, load_store]

theorem encrypt_received (table : CodeTable) (tmpBuffer buffer : Cells UInt8) (bytes : List UInt8) :
    encrypt table (store tmpBuffer 0 bytes) buffer bytes.length =
      store buffer 0 (bytes.map table.encodeByte) := by
  unfold encrypt
  rw [transform_eq_store, load_store]

theorem load_store_map (f : UInt8 → UInt8) (m : Cells UInt8) (bytes : List UInt8) :
    load (store m 0 (bytes.map f)) bytes.length = bytes.map f := by
  simpa using load_store m (bytes.map f)

def sendReport (report : Reporter) (ev : SockReady) (s : LoopState) (d : Datagram) :
    List Printed × Option Globals :=
  report ev.fopen (countSend s.globals (received d.data).length)

/-- What is said of a datagram that is accepted: that its user has moved, and a report. -/
def acceptedTalk (report : Reporter) (ev : SockReady) (s : LoopState) (d : Datagram) (uid : UInt8)
    (node : SvpnClientNode) : List Effect :=
  (if d.sender ≠ node.addr then [.notice (.clientMoved uid d.sender)] else []) ++
    (sendReport report ev s d).1.map .printed

theorem talk_acceptedTalk (report : Reporter) (ev : SockReady) (s : LoopState) (d : Datagram)
    (uid : UInt8) (node : SvpnClientNode) : Talk (acceptedTalk report ev s d uid node) := by
  apply Talk.append _ (talk_printed _)
  split
  · exact talk_notice _
  · exact talk_nil

theorem acceptDatagram_eq (report : Reporter) (ev : SockReady) (s : LoopState) (d : Datagram)
    (uid : UInt8) (node : SvpnClientNode) (h : s.psc.client uid = some node) :
    acceptDatagram report ev d.sender uid node (received d.data).length
        { s with
          tmpBuffer := store s.tmpBuffer 0 (received d.data)
          buffer := decoded s node.table d } =
      match (sendReport report ev s d).2 with
      | none => ⟨.accepted uid d.sender :: acceptedTalk report ev s d uid node, .fault⟩
      | some globals =>
        ⟨.accepted uid d.sender :: (acceptedTalk report ev s d uid node ++
          [.write uid ((received d.data).map node.table.decodeByte) ev.writeRet]),
          .next (acceptedState s d uid node globals)⟩ := by
  have hpsc : (if d.sender ≠ node.addr then
      s.psc.setClient uid { node with addr := d.sender } else s.psc) =
      s.psc.setClient uid { node with addr := d.sender } := by
    by_cases haddr : d.sender = node.addr
    · rw [if_neg (not_not.2 haddr), haddr]
      exact (setClient_self h).symm
    · rw [if_pos haddr]
  have hload : load (decoded s node.table d) (received d.data).length =
      (received d.data).map node.table.decodeByte := load_store_map _ _ _
  simp only [acceptDatagram, hpsc, hload, acceptedTalk]
  unfold sendReport
  cases (report ev.fopen (countSend s.globals (received d.data).length)).2 with
  | none => rfl
  | some globals => simp [acceptedState]

theorem received_head {bytes : List UInt8} {uid : UInt8} (h : bytes.head? = some uid) :
    ∃ rest, received bytes = uid :: rest := by
  cases bytes with
  | nil => cases h
  | cons first rest =>
    obtain rfl := Option.some.inj h
    exact ⟨rest.take 4095, rfl⟩

theorem sourceRejected_iff (localAddr : Vector UInt8 4) (uid : UInt8) (pheader : Cells UInt8) :
    (srcIp pheader 0 ≠ addrByte localAddr 0 ∨ srcIp pheader 1 ≠ addrByte localAddr 1 ∨
      srcIp pheader 2 ≠ addrByte localAddr 2 ∨ srcIp pheader 3 ≠ uid) ↔ ¬ SourceOk localAddr uid pheader := by
  unfold SourceOk
  tauto

theorem sockBranch_failed {report : Reporter} {ev : SockReady} {s : LoopState}
    (h : ev.recv = none) : sockBranch report ev s = ⟨[], .skip s⟩ := by
  unfold sockBranch
  rw [h]

theorem sockBranch_empty {report : Reporter} {ev : SockReady} {s : LoopState} {d : Datagram}
    (h : ev.recv = some d) (hempty : d.data.head? = none) :
    sockBranch report ev s = ⟨[.recvfrom d], .skip s⟩ := by
  have hdata : d.data = [] := List.head?_eq_none_iff.1 hempty
  have hstore : store s.tmpBuffer 0 ([] : List UInt8) = s.tmpBuffer := rfl
  unfold sockBranch
  simp only [h, hdata, List.take_nil, List.length_nil, hstore]
  rfl

theorem sockBranch_head {report : Reporter} {ev : SockReady} {s : LoopState} {d : Datagram}
    {uid : UInt8} (h : ev.recv = some d) (hhead : d.data.head? = some uid) :
    sockBranch report ev s =
      match s.psc.client uid with
      | none => ⟨[.recvfrom d, .notice (.unknownUser uid)],
          .skip { s with tmpBuffer := store s.tmpBuffer 0 (received d.data) }⟩
      | some node =>
        let s' : LoopState := { s with
          tmpBuffer := store s.tmpBuffer 0 (received d.data)
          buffer := decoded s node.table d }
        if SourceOk s.psc.localAddr uid s'.buffer then
          let o := acceptDatagram report ev d.sender uid node (received d.data).length s'
          ⟨.recvfrom d :: o.effects, o.control⟩
        else ⟨[.recvfrom d, .notice (.invalidPassword d.sender)], .skip s'⟩ := by
  obtain ⟨rest, hrest⟩ := received_head hhead
  have hle := length_received_le d.data
  have hlen : ¬ ((received d.data).length ≤ 0 ∨ bufferLen < (received d.data).length) := by
    rw [hrest, List.length_cons] at hle ⊢
    omega
  have hfirst : store s.tmpBuffer 0 (received d.data) 0 = uid := by
    rw [hrest]
    rfl
  unfold sockBranch received at *
  simp only [h, hlen, if_false, hfirst]
  cases hclient : s.psc.client uid with
  | none => rfl
  | some node =>
    simp only [decrypt_received, sourceRejected_iff, ite_not]
    rfl

/-- What a call of the socket branch comes to, with what it leaves in the buffers. -/
inductive SockCase (report : Reporter) (ev : SockReady) (s : LoopState) : Outcome → Prop where
  | failed (hrecv : ev.recv = none) : SockCase report ev s ⟨[], .skip s⟩
  | empty {d : Datagram} (hrecv : ev.recv = some d) (hdata : d.data = []) :
      SockCase report ev s ⟨[.recvfrom d], .skip s⟩
  | unknownUser {d : Datagram} {uid : UInt8} (hrecv : ev.recv = some d)
      (hhead : d.data.head? = some uid) (hclient : s.psc.client uid = none) :
      SockCase report ev s ⟨[.recvfrom d, .notice (.unknownUser uid)],
        .skip { s with tmpBuffer := store s.tmpBuffer 0 (received d.data) }⟩
  | invalidPassword {d : Datagram} {uid : UInt8} {node : SvpnClientNode} (hrecv : ev.recv = some d)
      (hhead : d.data.head? = some uid) (hclient : s.psc.client uid = some node)
      (hsource : ¬ SourceOk s.psc.localAddr uid (decoded s node.table d)) :
      SockCase report ev s ⟨[.recvfrom d, .notice (.invalidPassword d.sender)],
        .skip { s with
          tmpBuffer := store s.tmpBuffer 0 (received d.data)
          buffer := decoded s node.table d }⟩
  | died {d : Datagram} {uid : UInt8} {node : SvpnClientNode} (hrecv : ev.recv = some d)
      (haccepts : Accepts s d uid node) (hreport : (sendReport report ev s d).2 = none) :
      SockCase report ev s
        ⟨.recvfrom d :: .accepted uid d.sender :: acceptedTalk report ev s d uid node, .fault⟩
  | accepted {d : Datagram} {uid : UInt8} {node : SvpnClientNode} {globals : Globals}
      (hrecv : ev.recv = some d) (haccepts : Accepts s d uid node)
      (hreport : (sendReport report ev s d).2 = some globals) :
      SockCase report ev s ⟨.recvfrom d :: .accepted uid d.sender ::
        (acceptedTalk report ev s d uid node ++
          [.write uid ((received d.data).map node.table.decodeByte) ev.writeRet]),
        .next (acceptedState s d uid node globals)⟩

theorem sockBranch_case (report : Reporter) (ev : SockReady) (s : LoopState) :
    SockCase report ev s (sockBranch report ev s) := by
  cases hrecv : ev.recv with
  | none =>
    rw [sockBranch_failed hrecv]
    exact .failed hrecv
  | some d =>
    cases hhead : d.data.head? with
    | none =>
      rw [sockBranch_empty hrecv hhead]
      exact .empty hrecv (List.head?_eq_none_iff.1 hhead)
    | some uid =>
      rw [sockBranch_head hrecv hhead]
      cases hclient : s.psc.client uid with
      | none => exact .unknownUser hrecv hhead hclient
      | some node =>
        by_cases hsource : SourceOk s.psc.localAddr uid (decoded s node.table d)
        · simp only [hsource, if_true, acceptDatagram_eq report ev s d uid node hclient]
          cases hreport : (sendReport report ev s d).2 with
          | none => exact .died hrecv ⟨hhead, hclient, hsource⟩ hreport
          | some globals => exact .accepted hrecv ⟨hhead, hclient, hsource⟩ hreport
        · simp only [hsource, if_false]
          exact .invalidPassword hrecv hhead hclient hsource

/-- The same with the three kinds of refusal as one, where the buffers do not matter. -/
inductive SockStep (report : Reporter) (ev : SockReady) (s : LoopState) : Outcome → Prop where
  | failed (hrecv : ev.recv = none) : SockStep report ev s ⟨[], .skip s⟩
  | refused {d : Datagram} {talk : List Effect} {s' : LoopState} (hrecv : ev.recv = some d)
      (hrefused : ∀ uid node, ¬ Accepts s d uid node) (htalk : Talk talk) (hpsc : s'.psc = s.psc)
      (hglobals : s'.globals = s.globals) (hquiet : ∀ p, .printed p ∉ talk) :
      SockStep report ev s ⟨.recvfrom d :: talk, .skip s'⟩
  | died {d : Datagram} {uid : UInt8} {node : SvpnClientNode} {shown : List Effect}
      (hrecv : ev.recv = some d) (haccepts : Accepts s d uid node) (hshown : Talk shown)
      (hreport : (sendReport report ev s d).2 = none) :
      SockStep report ev s ⟨.recvfrom d :: .accepted uid d.sender :: shown, .fault⟩
  | accepted {d : Datagram} {uid : UInt8} {node : SvpnClientNode} {shown : List Effect}
      {globals : Globals} (hrecv : ev.recv = some d) (haccepts : Accepts s d uid node)
      (hshown : Talk shown) (hreport : (sendReport report ev s d).2 = some globals) :
      SockStep report ev s ⟨.recvfrom d :: .accepted uid d.sender :: (shown ++
        [.write uid ((received d.data).map node.table.decodeByte) ev.writeRet]),
        .next (acceptedState s d uid node globals)⟩

theorem SockCase.step {report : Reporter} {ev : SockReady} {s : LoopState} {o : Outcome}
    (h : SockCase report ev s o) : SockStep report ev s o := by
  cases h with
  | failed hrecv => exact .failed hrecv
  | empty hrecv hdata =>
    refine .refused hrecv (fun uid node ha => ?_) talk_nil rfl rfl (by simp)
    cases (List.head?_eq_none_iff.2 hdata).symm.trans ha.head
  | unknownUser hrecv hhead hclient =>
    refine .refused hrecv (fun uid node ha => ?_) (talk_notice _) rfl rfl (by simp)
    obtain rfl := Option.some.inj (hhead.symm.trans ha.head)
    cases hclient.symm.trans ha.client
  | invalidPassword hrecv hhead hclient hsource =>
    refine .refused hrecv (fun uid node ha => hsource ?_) (talk_notice _) rfl rfl (by simp)
    obtain rfl := Option.some.inj (hhead.symm.trans ha.head)
    obtain rfl := Option.some.inj (hclient.symm.trans ha.client)
    exact ha.source
  | died hrecv haccepts hreport =>
    exact .died hrecv haccepts (talk_acceptedTalk _ _ _ _ _ _) hreport
  | accepted hrecv haccepts hreport =>
    exact .accepted hrecv haccepts (talk_acceptedTalk _ _ _ _ _ _) hreport

theorem sockBranch_step (report : Reporter) (ev : SockReady) (s : LoopState) :
    SockStep report ev s (sockBranch report ev s) := (sockBranch_case report ev s).step

/-- The datagram is refused: it is empty, the user is unknown, or the source
check failed. -/
theorem sockBranch_refused (report : Reporter) {ev : SockReady} {s : LoopState} {d : Datagram}
    (hrecv : ev.recv = some d) (h : ∀ uid node, ¬ Accepts s d uid node) :
    ∃ talk s', Talk talk ∧ s'.psc = s.psc ∧ s'.globals = s.globals ∧ (∀ p, .printed p ∉ talk) ∧
      sockBranch report ev s = ⟨.recvfrom d :: talk, .skip s'⟩ := by
  have hstep := sockBranch_step report ev s
  generalize sockBranch report ev s = o at hstep
  cases hstep with
  | failed hfailed => cases hfailed.symm.trans hrecv
  | refused hsome _ htalk hpsc hglobals hquiet =>
    obtain rfl := Option.some.inj (hrecv.symm.trans hsome)
    exact ⟨_, _, htalk, hpsc, hglobals, hquiet, rfl⟩
  | died hsome haccepts =>
    obtain rfl := Option.some.inj (hrecv.symm.trans hsome)
    exact absurd haccepts (h _ _)
  | accepted hsome haccepts =>
    obtain rfl := Option.some.inj (hrecv.symm.trans hsome)
    exact absurd haccepts (h _ _)

/-- The datagram is accepted. If its report returns, the decrypted packet is
written after the sender has been recorded; if not, the process has died. -/
theorem sockBranch_accepted (report : Reporter) {ev : SockReady} {s : LoopState} {d : Datagram}
    {uid : UInt8} {node : SvpnClientNode} (hrecv : ev.recv = some d) (h : Accepts s d uid node) :
    ∃ shown, Talk shown ∧ sockBranch report ev s =
      match (sendReport report ev s d).2 with
      | none => ⟨.recvfrom d :: .accepted uid d.sender :: shown, .fault⟩
      | some globals =>
        ⟨.recvfrom d :: .accepted uid d.sender :: (shown ++
          [.write uid ((received d.data).map node.table.decodeByte) ev.writeRet]),
          .next (acceptedState s d uid node globals)⟩ := by
  have hstep := sockBranch_step report ev s
  generalize sockBranch report ev s = o at hstep
  cases hstep with
  | failed hfailed => cases hfailed.symm.trans hrecv
  | refused hsome hrefused =>
    obtain rfl := Option.some.inj (hrecv.symm.trans hsome)
    exact absurd h (hrefused _ _)
  | died hsome haccepts hshown hreport =>
    obtain rfl := Option.some.inj (hrecv.symm.trans hsome)
    obtain ⟨rfl, rfl⟩ := h.unique haccepts
    exact ⟨_, hshown, by rw [hreport]⟩
  | accepted hsome haccepts hshown hreport =>
    obtain rfl := Option.some.inj (hrecv.symm.trans hsome)
    obtain ⟨rfl, rfl⟩ := h.unique haccepts
    exact ⟨_, hshown, by rw [hreport]⟩

theorem accepted_mem (report : Reporter) {ev : SockReady} {s : LoopState} {d : Datagram} {uid : UInt8}
    {node : SvpnClientNode} (hrecv : ev.recv = some d) (h : Accepts s d uid node) :
    .accepted uid d.sender ∈ (sockBranch report ev s).effects := by
  obtain ⟨shown, -, heq⟩ := sockBranch_accepted report hrecv h
  rw [heq]
  cases (sendReport report ev s d).2 <;> simp

/-- Where the report returns the sender is recorded and the packet written. -/
theorem accepted_survives {report : Reporter} {ev : SockReady} {s s' : LoopState} {d : Datagram}
    {uid : UInt8} {node : SvpnClientNode} (hrecv : ev.recv = some d) (h : Accepts s d uid node)
    (hstate : (sockBranch report ev s).control.state = some s') :
    s'.psc = s.psc.setClient uid { node with addr := d.sender } ∧
      .write uid ((received d.data).map node.table.decodeByte) ev.writeRet ∈
        (sockBranch report ev s).effects := by
  obtain ⟨shown, -, heq⟩ := sockBranch_accepted report hrecv h
  rw [heq] at hstate ⊢
  cases hreport : (sendReport report ev s d).2 with
  | none =>
    rw [hreport] at hstate
    cases hstate
  | some globals =>
    rw [hreport] at hstate
    cases hstate
    exact ⟨rfl, by simp⟩

/-- The calls alone. -/
inductive SockEffects (ev : SockReady) (s : LoopState) : List Effect → Prop where
  | failed (hrecv : ev.recv = none) : SockEffects ev s []
  | refused {d : Datagram} {talk : List Effect} (hrecv : ev.recv = some d)
      (hrefused : ∀ uid node, ¬ Accepts s d uid node) (htalk : Talk talk) :
      SockEffects ev s (.recvfrom d :: talk)
  | died {d : Datagram} {uid : UInt8} {node : SvpnClientNode} {shown : List Effect}
      (hrecv : ev.recv = some d) (haccepts : Accepts s d uid node) (hshown : Talk shown) :
      SockEffects ev s (.recvfrom d :: .accepted uid d.sender :: shown)
  | accepted {d : Datagram} {uid : UInt8} {node : SvpnClientNode} {shown : List Effect}
      (hrecv : ev.recv = some d) (haccepts : Accepts s d uid node) (hshown : Talk shown) :
      SockEffects ev s (.recvfrom d :: .accepted uid d.sender :: (shown ++
        [.write uid ((received d.data).map node.table.decodeByte) ev.writeRet]))

theorem sockBranch_effects (report : Reporter) (ev : SockReady) (s : LoopState) :
    SockEffects ev s (sockBranch report ev s).effects := by
  have hstep := sockBranch_step report ev s
  generalize sockBranch report ev s = o at hstep
  cases hstep with
  | failed hrecv => exact .failed hrecv
  | refused hrecv hrefused htalk => exact .refused hrecv hrefused htalk
  | died hrecv haccepts hshown => exact .died hrecv haccepts hshown
  | accepted hrecv haccepts hshown => exact .accepted hrecv haccepts hshown

/-- The routing table after the socket branch: as before, or with one address
replaced by the sender of the datagram that was accepted. -/
theorem sockBranch_psc {report : Reporter} {ev : SockReady} {s s' : LoopState}
    (h : (sockBranch report ev s).control.state = some s') :
    (s'.psc = s.psc ∧ acceptedOf (sockBranch report ev s).effects = []) ∨
      ∃ d uid node, ev.recv = some d ∧ Accepts s d uid node ∧
        s'.psc = s.psc.setClient uid { node with addr := d.sender } ∧
        acceptedOf (sockBranch report ev s).effects = [(uid, d.sender)] := by
  have hstep := sockBranch_step report ev s
  generalize sockBranch report ev s = o at hstep h ⊢
  cases hstep with
  | failed =>
    cases h
    exact .inl ⟨rfl, rfl⟩
  | refused hrecv hrefused htalk hpsc =>
    cases h
    exact .inl ⟨hpsc, by simp [htalk.acceptedOf, acceptOf]⟩
  | died => cases h
  | accepted hrecv haccepts hshown =>
    cases h
    exact .inr ⟨_, _, _, hrecv, haccepts, rfl, by simp [hshown.acceptedOf, acceptOf]⟩

/-- The destination octet the branch reads after a packet has been stored. -/
def tunUid (s : LoopState) (p : List UInt8) : UInt8 :=
  dstIp (store s.tmpBuffer 0 (received p)) 3

def encryptedState (s : LoopState) (p : List UInt8) (node : SvpnClientNode) : LoopState :=
  { s with
    tmpBuffer := store s.tmpBuffer 0 (received p)
    buffer := store s.buffer 0 ((received p).map node.table.encodeByte) }

def sendAttempt (ev : TunReady) (s : LoopState) (p : List UInt8) (node : SvpnClientNode) :
    List Effect :=
  [.read (tunUid s p) (received p),
    .sendto (tunUid s p) node.addr ((received p).map node.table.encodeByte) ev.sendRet]

theorem tunBranch_failed {report : Reporter} {ev : TunReady} {s : LoopState}
    (h : ev.packet = none) : tunBranch report ev s = ⟨[], .skip s⟩ := by
  unfold tunBranch
  rw [h]

theorem tunBranch_empty {report : Reporter} {ev : TunReady} {s : LoopState}
    (h : ev.packet = some []) : tunBranch report ev s = ⟨[], .skip s⟩ := by
  have hstore : store s.tmpBuffer 0 ([] : List UInt8) = s.tmpBuffer := rfl
  unfold tunBranch
  simp only [h, List.take_nil, List.length_nil, hstore]
  rfl

theorem tunBranch_packet {report : Reporter} {ev : TunReady} {s : LoopState} {p : List UInt8}
    (h : ev.packet = some p) (hp : p ≠ []) :
    tunBranch report ev s =
      match s.psc.client (tunUid s p) with
      | none => ⟨[.read (tunUid s p) (received p), .notice (.userNotExist (tunUid s p))],
          .skip { s with tmpBuffer := store s.tmpBuffer 0 (received p) }⟩
      | some node =>
        if ev.sendRet ≤ 0 then
          ⟨sendAttempt ev s p node ++ [.notice (.clientDisconnected (tunUid s p))],
            .skip (encryptedState s p node)⟩
        else
          let reported := report ev.fopen (countRecv s.globals ev.sendRet)
          match reported.2 with
          | none => ⟨sendAttempt ev s p node ++ reported.1.map .printed, .fault⟩
          | some globals =>
            ⟨sendAttempt ev s p node ++ reported.1.map .printed,
              .next { encryptedState s p node with globals }⟩ := by
  have hle := length_received_le p
  have hpos : 0 < (received p).length := by
    have := List.length_pos_of_ne_nil hp
    simp only [received, List.length_take, bufferLen]
    omega
  have hlen : ¬ ((received p).length ≤ 0 ∨ bufferLen < (received p).length) := by omega
  unfold tunBranch sendAttempt encryptedState tunUid received at *
  simp only [h, hlen, if_false]
  cases hclient : s.psc.client (dstIp (store s.tmpBuffer 0 (List.take bufferLen p)) 3) with
  | none => rfl
  | some node =>
    by_cases hret : ev.sendRet ≤ 0
    · simp only [encrypt_received, load_store_map, hret, if_true]
    · cases (report ev.fopen (countRecv s.globals ev.sendRet)).2 with
      | none => simp only [encrypt_received, load_store_map, hret, if_false]
      | some globals => simp only [encrypt_received, load_store_map, hret, if_false]

/-- What a call of the tunnel branch comes to. -/
inductive TunStep (report : Reporter) (ev : TunReady) (s : LoopState) : Outcome → Prop where
  | idle (hidle : ∀ p, ev.packet = some p → p = []) : TunStep report ev s ⟨[], .skip s⟩
  | unknown {p : List UInt8} (hpacket : ev.packet = some p) (hp : p ≠ [])
      (hclient : s.psc.client (tunUid s p) = none) :
      TunStep report ev s ⟨[.read (tunUid s p) (received p), .notice (.userNotExist (tunUid s p))],
        .skip { s with tmpBuffer := store s.tmpBuffer 0 (received p) }⟩
  | unsent {p : List UInt8} {node : SvpnClientNode} (hpacket : ev.packet = some p) (hp : p ≠ [])
      (hclient : s.psc.client (tunUid s p) = some node) (hret : ev.sendRet ≤ 0) :
      TunStep report ev s
        ⟨sendAttempt ev s p node ++ [.notice (.clientDisconnected (tunUid s p))],
          .skip (encryptedState s p node)⟩
  | died {p : List UInt8} {node : SvpnClientNode} (hpacket : ev.packet = some p) (hp : p ≠ [])
      (hclient : s.psc.client (tunUid s p) = some node) (hret : 0 < ev.sendRet)
      (hreport : (report ev.fopen (countRecv s.globals ev.sendRet)).2 = none) :
      TunStep report ev s ⟨sendAttempt ev s p node ++
        (report ev.fopen (countRecv s.globals ev.sendRet)).1.map .printed, .fault⟩
  | sent {p : List UInt8} {node : SvpnClientNode} {globals : Globals} (hpacket : ev.packet = some p)
      (hp : p ≠ []) (hclient : s.psc.client (tunUid s p) = some node) (hret : 0 < ev.sendRet)
      (hreport : (report ev.fopen (countRecv s.globals ev.sendRet)).2 = some globals) :
      TunStep report ev s ⟨sendAttempt ev s p node ++
        (report ev.fopen (countRecv s.globals ev.sendRet)).1.map .printed,
        .next { encryptedState s p node with globals }⟩

theorem tunBranch_step (report : Reporter) (ev : TunReady) (s : LoopState) :
    TunStep report ev s (tunBranch report ev s) := by
  cases hpacket : ev.packet with
  | none =>
    rw [tunBranch_failed hpacket]
    exact .idle (by simp [hpacket])
  | some p =>
    by_cases hp : p = []
    · subst p
      rw [tunBranch_empty hpacket]
      exact .idle (by simp [hpacket])
    · rw [tunBranch_packet hpacket hp]
      cases hclient : s.psc.client (tunUid s p) with
      | none => exact .unknown hpacket hp hclient
      | some node =>
        by_cases hret : ev.sendRet ≤ 0
        · simp only [hret, if_true]
          exact .unsent hpacket hp hclient hret
        · simp only [hret, if_false]
          cases hreport : (report ev.fopen (countRecv s.globals ev.sendRet)).2 with
          | none => exact .died hpacket hp hclient (by omega) hreport
          | some globals => exact .sent hpacket hp hclient (by omega) hreport

/-- What the tunnel branch can emit. -/
inductive TunEffects (ev : TunReady) (s : LoopState) : List Effect → Prop where
  | idle (hidle : ∀ p, ev.packet = some p → p = []) : TunEffects ev s []
  | unknown {p : List UInt8} {talk : List Effect} (hpacket : ev.packet = some p) (hp : p ≠ [])
      (hclient : s.psc.client (tunUid s p) = none) (htalk : Talk talk) :
      TunEffects ev s (.read (tunUid s p) (received p) :: talk)
  | attempt {p : List UInt8} {node : SvpnClientNode} {talk : List Effect}
      (hpacket : ev.packet = some p) (hp : p ≠ [])
      (hclient : s.psc.client (tunUid s p) = some node) (htalk : Talk talk) :
      TunEffects ev s (sendAttempt ev s p node ++ talk)

theorem tunBranch_cases (report : Reporter) (ev : TunReady) (s : LoopState) :
    TunEffects ev s (tunBranch report ev s).effects ∧
      ∀ s', (tunBranch report ev s).control.state = some s' → s'.psc = s.psc := by
  have hstep := tunBranch_step report ev s
  generalize tunBranch report ev s = o at hstep
  cases hstep with
  | idle hidle => exact ⟨.idle hidle, fun s' h => by cases h; rfl⟩
  | unknown hpacket hp hclient =>
    exact ⟨.unknown hpacket hp hclient (talk_notice _), fun s' h => by cases h; rfl⟩
  | unsent hpacket hp hclient =>
    exact ⟨.attempt hpacket hp hclient (talk_notice _), fun s' h => by cases h; rfl⟩
  | died hpacket hp hclient =>
    exact ⟨.attempt hpacket hp hclient (talk_printed _), fun s' h => by cases h⟩
  | sent hpacket hp hclient =>
    exact ⟨.attempt hpacket hp hclient (talk_printed _), fun s' h => by cases h; rfl⟩

theorem TunEffects.of_client {ev : TunReady} {s : LoopState} {es : List Effect} {p : List UInt8}
    {node : SvpnClientNode} (h : TunEffects ev s es) (hpacket : ev.packet = some p) (hp : p ≠ [])
    (hclient : s.psc.client (tunUid s p) = some node) :
    ∃ talk, Talk talk ∧ es = sendAttempt ev s p node ++ talk := by
  cases h with
  | idle hidle => exact absurd (hidle p hpacket) hp
  | unknown hsome _ hnone =>
    obtain rfl := Option.some.inj (hpacket.symm.trans hsome)
    rw [hclient] at hnone
    cases hnone
  | attempt hsome _ hclient' htalk =>
    obtain rfl := Option.some.inj (hpacket.symm.trans hsome)
    obtain rfl := Option.some.inj (hclient.symm.trans hclient')
    exact ⟨_, htalk, rfl⟩

theorem TunEffects.sendsOf_eq {ev : TunReady} {s : LoopState} {es : List Effect} {p : List UInt8}
    (h : TunEffects ev s es) (hpacket : ev.packet = some p) (hp : p ≠ []) :
    sendsOf es = match s.psc.client (tunUid s p) with
      | none => []
      | some node => [(tunUid s p, node.addr, (received p).map node.table.encodeByte)] := by
  cases h with
  | idle hidle => exact absurd (hidle p hpacket) hp
  | unknown hsome _ hclient htalk =>
    obtain rfl := Option.some.inj (hpacket.symm.trans hsome)
    rw [hclient]
    simp [sendOf, htalk.sendsOf]
  | attempt hsome _ hclient htalk =>
    obtain rfl := Option.some.inj (hpacket.symm.trans hsome)
    rw [hclient]
    simp [sendAttempt, sendOf, htalk.sendsOf]

theorem TunEffects.acceptedOf {ev : TunReady} {s : LoopState} {es : List Effect}
    (h : TunEffects ev s es) : acceptedOf es = [] := by
  cases h with
  | idle => rfl
  | unknown _ _ _ htalk => simp [htalk.acceptedOf, acceptOf]
  | attempt _ _ _ htalk => simp [sendAttempt, htalk.acceptedOf, acceptOf]

theorem TunEffects.writesOf {ev : TunReady} {s : LoopState} {es : List Effect}
    (h : TunEffects ev s es) : writesOf es = [] := by
  cases h with
  | idle => rfl
  | unknown _ _ _ htalk => simp [htalk.writesOf, writeOf]
  | attempt _ _ _ htalk => simp [sendAttempt, htalk.writesOf, writeOf]

theorem SockEffects.sendsOf {ev : SockReady} {s : LoopState} {es : List Effect}
    (h : SockEffects ev s es) : sendsOf es = [] := by
  cases h with
  | failed => rfl
  | refused _ _ htalk => simp [htalk.sendsOf, sendOf]
  | died _ _ hshown => simp [hshown.sendsOf, sendOf]
  | accepted _ _ hshown =>
    simp [hshown.sendsOf, sendOf]

end SVpn.ServerSteps
