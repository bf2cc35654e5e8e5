import SVpn.RoutingTable
import Mathlib.Data.Fin.VecNotation

set_option autoImplicit false

/-!
What earlier traffic leaves in the two packet buffers. A cell holds the byte of the
last copy that reached it, so the history of the calls tells every byte the checks
read, also where a short datagram or packet does not cover them.
-/
namespace SVpn.Leftovers
open SVpn.Region SVpn.Crypt SVpn.OutputInfo SVpn.ServerLoop SVpn.ServerSteps SVpn.ServerRuns
open SVpn.SourceCheck SVpn.RoutingTable SVpn.Trace

/-- The bytes a call leads the loop to copy to the start of `buffer`. -/
def bufferCopy (psc : SvpnServer) : Effect → Option (List UInt8)
  | .recvfrom d => d.data.head?.bind fun uid =>
      (psc.client uid).map fun node => (received d.data).map node.table.decodeByte
  | .sendto _ _ datagram _ => some datagram
  | _ => none

/-- The bytes a call copies to the start of `tmp_buffer`. -/
def tmpCopy : Effect → Option (List UInt8)
  | .recvfrom d => some (received d.data)
  | .read _ packet => some packet
  | _ => none

def bufferCopies (psc : SvpnServer) (h : List Effect) : List (List UInt8) :=
  h.filterMap (bufferCopy psc)

def tmpCopies (h : List Effect) : List (List UInt8) := h.filterMap tmpCopy

def copied (m : Cells UInt8) (copies : List (List UInt8)) : Cells UInt8 :=
  copies.foldl (fun m bytes => store m 0 bytes) m

theorem copied_append (m : Cells UInt8) (xs ys : List (List UInt8)) :
    copied m (xs ++ ys) = copied (copied m xs) ys := List.foldl_append

theorem filterMap_cons_toList {α β : Type} (f : α → Option β) (x : α) (xs : List α) :
    (x :: xs).filterMap f = (f x).toList ++ xs.filterMap f := by
  cases h : f x <;> simp [h]

@[simp] theorem bufferCopies_append (psc : SvpnServer) (h es : List Effect) :
    bufferCopies psc (h ++ es) = bufferCopies psc h ++ bufferCopies psc es := List.filterMap_append

@[simp] theorem tmpCopies_append (h es : List Effect) :
    tmpCopies (h ++ es) = tmpCopies h ++ tmpCopies es := List.filterMap_append

@[simp] theorem bufferCopies_cons (psc : SvpnServer) (e : Effect) (es : List Effect) :
    bufferCopies psc (e :: es) = (bufferCopy psc e).toList ++ bufferCopies psc es :=
  filterMap_cons_toList _ _ _

@[simp] theorem tmpCopies_cons (e : Effect) (es : List Effect) :
    tmpCopies (e :: es) = (tmpCopy e).toList ++ tmpCopies es := filterMap_cons_toList _ _ _

@[simp] theorem bufferCopies_nil (psc : SvpnServer) : bufferCopies psc [] = [] := rfl
@[simp] theorem tmpCopies_nil : tmpCopies [] = [] := rfl

theorem bufferCopies_talk (psc : SvpnServer) {es : List Effect} (h : Talk es) :
    bufferCopies psc es = [] := by
  apply List.filterMap_eq_nil_iff.2
  intro e he
  rcases h e he with ⟨p, rfl⟩ | ⟨n, rfl⟩ <;> rfl

theorem tmpCopies_talk {es : List Effect} (h : Talk es) : tmpCopies es = [] := by
  apply List.filterMap_eq_nil_iff.2
  intro e he
  rcases h e he with ⟨p, rfl⟩ | ⟨n, rfl⟩ <;> rfl

/-- What is copied depends on the users' tables only, and these stay. -/
theorem bufferCopies_congr {psc psc' : SvpnServer}
    (h : ∀ uid, (psc.client uid).map (·.table) = (psc'.client uid).map (·.table)) :
    bufferCopies psc = bufferCopies psc' := by
  have hcopy : bufferCopy psc = bufferCopy psc' := by
    funext e
    cases e with
    | recvfrom d =>
      change (d.data.head?.bind fun uid => _) = d.data.head?.bind fun uid => _
      congr 1
      funext uid
      have hmap : ∀ c : Option SvpnClientNode, (c.map fun node =>
          (received d.data).map node.table.decodeByte) =
          (c.map (·.table)).map fun table => (received d.data).map table.decodeByte := by
        intro c
        rw [Option.map_map]
        rfl
      rw [hmap, hmap, h]
    | _ => rfl
  unfold bufferCopies
  rw [hcopy]

/-- The step from `s` to `s'` with effects `es` makes these copies and no others. -/
structure Copies (s : LoopState) (es : List Effect) (s' : LoopState) : Prop where
  buffer : s'.buffer = copied s.buffer (bufferCopies s.psc es)
  tmpBuffer : s'.tmpBuffer = copied s.tmpBuffer (tmpCopies es)

theorem received_nil {d : Datagram} (h : d.data = []) : received d.data = [] := by
  rw [h]
  rfl

theorem copies_sockBranch {report : Reporter} {ev : SockReady} {s s' : LoopState}
    (h : (sockBranch report ev s).control.state = some s') :
    Copies s (sockBranch report ev s).effects s' := by
  have hcase := sockBranch_case report ev s
  generalize sockBranch report ev s = o at hcase h ⊢
  cases hcase with
  | failed =>
    cases h
    exact ⟨rfl, rfl⟩
  | empty _ hdata =>
    cases h
    constructor
    · simp [bufferCopy, hdata, copied]
    · simp [tmpCopy, received_nil hdata, copied, store_nil]
  | unknownUser _ hhead hclient =>
    cases h
    constructor
    · simp [bufferCopy, hhead, hclient, copied]
    · simp [tmpCopy, copied]
  | invalidPassword _ hhead hclient =>
    cases h
    constructor
    · simp [hhead, hclient, bufferCopy, copied, decoded]
    · simp [tmpCopy, copied]
  | died => cases h
  | @accepted d uid node _ _ haccepts =>
    cases h
    have hshown := talk_acceptedTalk report ev s d uid node
    constructor
    · simp [haccepts.head, haccepts.client, bufferCopies_talk _ hshown, bufferCopy, copied,
        acceptedState, decoded]
    · simp [tmpCopies_talk hshown, tmpCopy, copied, acceptedState]

theorem copies_tunBranch {report : Reporter} {ev : TunReady} {s s' : LoopState}
    (h : (tunBranch report ev s).control.state = some s') :
    Copies s (tunBranch report ev s).effects s' := by
  have hattempt : ∀ p node (talk : List Effect), Talk talk →
      Copies s (sendAttempt ev s p node ++ talk) (encryptedState s p node) := by
    intro p node talk htalk
    constructor
    · simp [sendAttempt, bufferCopies_talk _ htalk, bufferCopy, copied, encryptedState]
    · simp [sendAttempt, tmpCopies_talk htalk, tmpCopy, copied, encryptedState]
  have hstep := tunBranch_step report ev s
  generalize tunBranch report ev s = o at hstep h ⊢
  cases hstep with
  | idle =>
    cases h
    exact ⟨rfl, rfl⟩
  | unknown =>
    cases h
    exact ⟨rfl, rfl⟩
  | unsent =>
    cases h
    exact hattempt _ _ _ (talk_notice _)
  | died => cases h
  | @sent p node globals =>
    cases h
    have hcopies := hattempt p node _
      (talk_printed (report ev.fopen (countRecv s.globals ev.sendRet)).1)
    exact ⟨hcopies.buffer, hcopies.tmpBuffer⟩

theorem copies_phase {report : Reporter} {h es : List Effect} {s s' : LoopState}
    (hphase : Phase report h s es (some s')) : Copies s es s' := by
  generalize hstate : some s' = r at hphase
  cases hphase with
  | clock =>
    cases hstate
    exact ⟨rfl, rfl⟩
  | sock => exact copies_sockBranch hstate.symm
  | tun => exact copies_tunBranch hstate.symm
  | exit => cases hstate

theorem routed_phase {report : Reporter} {h es : List Effect} {s s' : LoopState}
    (hphase : Phase report h s es (some s')) : Routed s.psc es s' := by
  have hfirst : Phase report [] s es (some s') := by
    generalize some s' = r at hphase
    cases hphase with
    | clock => exact .clock _ _ _
    | sock => exact .sock _ _ _
    | tun => exact .tun _ _ _
    | exit => exact .exit _ _
  simpa using routed_of_phases (Reaches.start.step hfirst)

theorem Routed.tables {psc : SvpnServer} {h : List Effect} {s : LoopState} (hr : Routed psc h s)
    (uid : UInt8) : (s.psc.client uid).map (·.table) = (psc.client uid).map (·.table) := by
  rw [hr.clients, Option.map_map]
  rfl

/-- Both buffers in every state of every run, from the calls made so far. -/
theorem copies_of_phases {report : Reporter} {s₀ s : LoopState} {h : List Effect}
    (run : Reaches (Phase report) s₀ h (some s)) : Copies s₀ h s := by
  have hboth : Routed s₀.psc h s ∧ Copies s₀ h s := by
    refine run.invariant (I := fun h s => Routed s₀.psc h s ∧ Copies s₀ h s)
      ⟨routed_start s₀, rfl, rfl⟩ ?_
    intro h s es s' hboth hphase
    obtain ⟨hr, hc⟩ := hboth
    have hnext := copies_phase hphase
    refine ⟨hr.trans (routed_phase hphase), ?_, ?_⟩
    · rw [hnext.buffer, hc.buffer, bufferCopies_congr (Routed.tables hr), bufferCopies_append,
        copied_append]
    · rw [hnext.tmpBuffer, hc.tmpBuffer, tmpCopies_append, copied_append]
  exact hboth.2

/-- The source address a user's packets must have. -/
def sourceField (localAddr : Vector UInt8 4) (uid : UInt8) : Fin 4 → UInt8 :=
  ![addrByte localAddr 0, addrByte localAddr 1, addrByte localAddr 2, uid]

theorem sourceOk_iff_window (localAddr : Vector UInt8 4) (uid : UInt8) (pheader : Cells UInt8) :
    SourceOk localAddr uid pheader ↔
      (fun k : Fin 4 => pheader (12 + k)) = sourceField localAddr uid := by
  rw [funext_iff, Fin.forall_fin_succ, Fin.forall_fin_succ, Fin.forall_fin_succ, Fin.forall_fin_succ]
  simp [SourceOk, srcIp, sourceField]

/-- Byte `k` of the source field as the check finds it after the history `h`. -/
def sourceAfter (s₀ : LoopState) (h : List Effect) (k : Fin 4) : UInt8 :=
  (lastReaching (12 + k) (bufferCopies s₀.psc h)).getD (s₀.buffer (12 + k))

/-- The destination octet as the tunnel branch finds it after the history `h`. -/
def destAfter (s₀ : LoopState) (h : List Effect) (packet : List UInt8) : UInt8 :=
  (lastReaching 19 (tmpCopies h ++ [packet])).getD (s₀.tmpBuffer 19)

/-- Whether the datagram is accepted is told by the history and the datagram. -/
def Admitted (s₀ : LoopState) (h : List Effect) (d : Datagram) (uid : UInt8) : Prop :=
  d.data.head? = some uid ∧ (s₀.psc.client uid).isSome ∧
    sourceAfter s₀ (h ++ [.recvfrom d]) = sourceField s₀.psc.localAddr uid

theorem accepts_iff_admitted {report : Reporter} {s₀ s : LoopState} {h : List Effect}
    (run : Reaches (Phase report) s₀ h (some s)) (d : Datagram) (uid : UInt8) :
    (∃ node, Accepts s d uid node) ↔ Admitted s₀ h d uid := by
  have hr := routed_of_phases run
  have hsource : ∀ {first : SvpnClientNode}, d.data.head? = some uid →
      s₀.psc.client uid = some first →
      sourceAfter s₀ (h ++ [.recvfrom d]) = fun k : Fin 4 => decoded s first.table d (12 + k) := by
    intro first hhead hfirst
    have hcopies : bufferCopies s₀.psc (h ++ [.recvfrom d]) =
        bufferCopies s₀.psc h ++ [(received d.data).map first.table.decodeByte] := by
      simp [bufferCopy, hhead, hfirst]
    funext k
    rw [sourceAfter, hcopies, ← foldl_store, List.foldl_append, List.foldl_cons, List.foldl_nil,
      decoded, (copies_of_phases run).buffer]
    rfl
  constructor
  · rintro ⟨node, ha⟩
    obtain ⟨first, hfirst, htable, -⟩ := hr.client_start ha.client
    refine ⟨ha.head, by simp [hfirst], ?_⟩
    rw [hsource ha.head hfirst, ← htable, ← hr.localAddr]
    exact (sourceOk_iff_window _ _ _).1 ha.source
  · rintro ⟨hhead, huser, hfield⟩
    obtain ⟨first, hfirst⟩ := Option.isSome_iff_exists.1 huser
    have hclient := hr.clients uid
    rw [hfirst, Option.map_some] at hclient
    refine ⟨_, hhead, hclient, ?_⟩
    rw [sourceOk_iff_window, hr.localAddr, ← hfield, hsource hhead hfirst]

theorem tunUid_eq {report : Reporter} {s₀ s : LoopState} {h : List Effect}
    (run : Reaches (Phase report) s₀ h (some s)) (p : List UInt8) :
    tunUid s p = destAfter s₀ h (received p) := by
  rw [destAfter, ← foldl_store, List.foldl_append, List.foldl_cons, List.foldl_nil, tunUid,
    (copies_of_phases run).tmpBuffer]
  rfl

theorem acceptedOf_sockBranch {report : Reporter} {ev : SockReady} {s : LoopState} {d : Datagram}
    (hrecv : ev.recv = some d) (uid : UInt8) (addr : SockaddrIn6) :
    (uid, addr) ∈ acceptedOf (sockBranch report ev s).effects ↔
      addr = d.sender ∧ ∃ node, Accepts s d uid node := by
  have hstep := sockBranch_effects report ev s
  generalize (sockBranch report ev s).effects = es at hstep
  cases hstep with
  | failed hfailed =>
    rw [hrecv] at hfailed
    cases hfailed
  | refused hsome hrefused htalk =>
    obtain rfl := Option.some.inj (hrecv.symm.trans hsome)
    simp [acceptOf, htalk.acceptedOf, hrefused]
  | @died _ v node _ hsome haccepts hshown =>
    obtain rfl := Option.some.inj (hrecv.symm.trans hsome)
    have huser : (∃ node, Accepts s d uid node) ↔ uid = v :=
      ⟨fun ha => (ha.choose_spec.unique haccepts).1, fun hv => ⟨node, hv ▸ haccepts⟩⟩
    simp [acceptOf, hshown.acceptedOf, huser, and_comm]
  | @accepted _ v node _ hsome haccepts hshown =>
    obtain rfl := Option.some.inj (hrecv.symm.trans hsome)
    have huser : (∃ node, Accepts s d uid node) ↔ uid = v :=
      ⟨fun ha => (ha.choose_spec.unique haccepts).1, fun hv => ⟨node, hv ▸ haccepts⟩⟩
    simp [acceptOf, hshown.acceptedOf, huser, and_comm]

/-- Every decision of the loop is a function of the start and of the calls made so
far: who is accepted, where a packet belongs, and where it is sent. -/
theorem decisions_by_history {report : Reporter} {s₀ s : LoopState} {h : List Effect}
    (run : Reaches (Phase report) s₀ h (some s)) :
    (∀ ev d uid addr, ev.recv = some d →
      ((uid, addr) ∈ acceptedOf (sockBranch report ev s).effects ↔
        addr = d.sender ∧ Admitted s₀ h d uid)) ∧
    ∀ ev p, ev.packet = some p → p ≠ [] →
      readsOf (tunBranch report ev s).effects = [(destAfter s₀ h (received p), received p)] ∧
      sendsOf (tunBranch report ev s).effects =
        match s₀.psc.client (destAfter s₀ h (received p)) with
        | none => []
        | some first => [(destAfter s₀ h (received p),
            (lastAccepted (destAfter s₀ h (received p)) h).getD first.addr,
            (received p).map first.table.encodeByte)] := by
  constructor
  · intro ev d uid addr hrecv
    rw [acceptedOf_sockBranch hrecv, accepts_iff_admitted run]
  · intro ev p hpacket hp
    have hcases := (tunBranch_cases report ev s).1
    rw [hcases.sendsOf_eq hpacket hp, (routed_of_phases run).clients, tunUid_eq run]
    constructor
    · rw [← tunUid_eq run]
      generalize (tunBranch report ev s).effects = es at hcases
      cases hcases with
      | idle hidle => exact absurd (hidle p hpacket) hp
      | unknown hsome _ _ htalk =>
        obtain rfl := Option.some.inj (hpacket.symm.trans hsome)
        simp [readOf, htalk.readsOf]
      | attempt hsome _ _ htalk =>
        obtain rfl := Option.some.inj (hpacket.symm.trans hsome)
        simp [sendAttempt, readOf, htalk.readsOf]
    · cases s₀.psc.client (destAfter s₀ h (received p)) with
      | none => rfl
      | some first => rfl

/-- One byte, from another address. -/
def sampleShort : SockReady := ⟨some ⟨sampleAddr 2, [6]⟩, 1, true⟩

theorem copies_sampleFirst :
    bufferCopies sampleStart.psc (loopBody outputInfo sampleFirst sampleStart).effects =
        [samplePacket] ∧
      tmpCopies (loopBody outputInfo sampleFirst sampleStart).effects =
        [samplePacket.map sampleKey.table.encodeByte] := by
  obtain ⟨shown, hshown, heq⟩ := pass_sampleFirst
  have hhead : (sampleDatagram (sampleAddr 1)).data.head? = some 6 :=
    head?_encrypted sampleKey (p := samplePacket) (by decide)
  have hclient : sampleStart.psc.client 6 = some ⟨sampleAddr 0, sampleKey.table⟩ :=
    client_sampleServer
  have hreceived : received (sampleDatagram (sampleAddr 1)).data =
      samplePacket.map sampleKey.table.encodeByte := received_eq (by decide)
  rw [heq]
  constructor
  · simp [-List.map_map, bufferCopy, hhead, hclient, bufferCopies_talk _ hshown, hreceived,
      sampleKey.map_decode_encode]
  · simp [tmpCopy, tmpCopies_talk hshown, hreceived]

/-- The byte names user 6. At the start it is refused; behind a datagram of the user it is
accepted for the source field that is still in the buffer. A packet of one byte goes by the
ciphertext left in the other. -/
theorem decisions_by_history_sample :
    (6, sampleAddr 2) ∉ acceptedOf (sockBranch outputInfo sampleShort sampleStart).effects ∧
      (6, sampleAddr 2) ∈ acceptedOf (sockBranch outputInfo sampleShort sampleAccepted).effects ∧
      readsOf (tunBranch outputInfo ⟨some [0x45], 1, true⟩ sampleAccepted).effects =
        [(sampleKey.table.encodeByte 1, [0x45])] := by
  have run := phases_of_pass (Reaches.start : Reaches (Phase outputInfo) sampleStart [] _) sampleFirst
  rw [state_sampleFirst, List.nil_append] at run
  obtain ⟨hbuffer, htmp⟩ := copies_sampleFirst
  have hclient : sampleStart.psc.client 6 = some ⟨sampleAddr 0, sampleKey.table⟩ :=
    client_sampleServer
  have hone : ∀ b : UInt8, received [b] = [b] := fun b => rfl
  refine ⟨?_, ?_, ?_⟩
  · rw [(decisions_by_history .start).1 sampleShort _ 6 (sampleAddr 2) rfl]
    rintro ⟨-, -, -, hfield⟩
    have hfirst := congrFun hfield 0
    simp only [sourceAfter, List.nil_append, bufferCopies_cons, bufferCopy, bufferCopies_nil,
      List.head?_cons, Option.bind_some, hclient, Option.map_some, Option.toList_some,
      List.append_nil, lastReaching_cons, hone] at hfirst
    exact absurd (hfirst : (0 : UInt8) = addrByte sampleLocal 0) (by decide)
  · rw [(decisions_by_history run).1 sampleShort _ 6 (sampleAddr 2) rfl]
    refine ⟨rfl, rfl, by simp [hclient], ?_⟩
    funext k
    have hbeyond : (([6] : List UInt8).map sampleKey.table.decodeByte)[12 + (k : ℕ)]? = none :=
      List.getElem?_eq_none (by simp; omega)
    simp only [sourceAfter, bufferCopies_append, hbuffer, bufferCopies_cons, bufferCopy,
      bufferCopies_nil, List.head?_cons, Option.bind_some, hclient, Option.map_some,
      Option.toList_some, List.append_nil, List.singleton_append, lastReaching_cons, hone, hbeyond]
    exact (show ∀ k : Fin 4, (samplePacket[12 + (k : ℕ)]?).getD 0 = sourceField sampleLocal 6 k by
      decide) k
  · rw [((decisions_by_history run).2 _ [0x45] rfl (by decide)).1]
    have hbyte : samplePacket[19]? = some 1 := rfl
    have hbeyond : ([0x45] : List UInt8)[19]? = none := rfl
    have hnone : lastReaching 19 ([] : List (List UInt8)) = none := rfl
    simp only [destAfter, htmp, hone, List.singleton_append, lastReaching_cons, hnone, hbeyond]
    rw [List.getElem?_map, hbyte, Option.map_some, Option.none_or, Option.none_or, Option.getD_some]

end SVpn.Leftovers
