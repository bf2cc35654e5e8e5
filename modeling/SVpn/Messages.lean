import SVpn.Sequences
import SVpn.ServerStreams
import Mathlib.Data.List.Forall2

set_option autoImplicit false

/-!
What the log tells. The messages of a run give an exact account of the traffic: one
verdict for each datagram, one for each packet, and for a user that moves the trace
of its addresses.
-/
namespace SVpn.Messages
open SVpn.Crypt SVpn.OutputInfo SVpn.ServerLoop SVpn.ServerSteps SVpn.ServerRuns SVpn.Leftovers
open SVpn.SourceCheck SVpn.RoutingTable SVpn.Sequences SVpn.Trace SVpn.Relay SVpn.ServerStreams

/-- The calls that matter for the log; reports and the write come in between. -/
def tellable : Effect → Bool
  | .write _ _ _ => false
  | .printed _ => false
  | _ => true

def told (es : List Effect) : List Effect := es.filter tellable

theorem filterMap_told {β : Type} {f : Effect → Option β}
    (hwrite : ∀ uid packet ret, f (.write uid packet ret) = none)
    (hprinted : ∀ p, f (.printed p) = none) (es : List Effect) :
    (told es).filterMap f = es.filterMap f := by
  unfold told
  rw [List.filterMap_filter]
  congr 1
  funext e
  cases e with
  | write uid packet ret => exact (hwrite uid packet ret).symm
  | printed p => exact (hprinted p).symm
  | _ => rfl

theorem told_printed (ps : List Printed) : told (ps.map .printed) = [] := by
  apply List.filter_eq_nil_iff.2
  intro e he
  obtain ⟨p, -, rfl⟩ := List.mem_map.1 he
  simp [tellable]

theorem told_append (es fs : List Effect) : told (es ++ fs) = told es ++ told fs :=
  List.filter_append _ _

/-- On a datagram that reaches past the source field the check decides what is delivered. -/
theorem sourceOk_iff_delivered {s : LoopState} {d : Datagram} {uid : UInt8} {node : SvpnClientNode}
    (hhead : d.data.head? = some uid) (hclient : s.psc.client uid = some node)
    (h : 16 ≤ d.data.length) :
    SourceOk s.psc.localAddr uid (decoded s node.table d) ↔ delivered s.psc d ≠ none := by
  rw [← vouched_view, vouched_iff_source _ _ _ h, delivered, opened_eq hhead hclient]
  by_cases hsource : SourceIs s.psc.localAddr uid ((received d.data).map node.table.decodeByte)
  · simp [State.plain, view, Option.filter, hsource]
  · simp [State.plain, view, Option.filter, hsource]

/-- All a phase can tell, with the state it starts from. -/
inductive Tells (psc : SvpnServer) : List Effect → Prop where
  | quiet : Tells psc []
  | empty {d : Datagram} (hdata : d.data = []) : Tells psc [.recvfrom d]
  | unknownUser {d : Datagram} {uid : UInt8} (hhead : d.data.head? = some uid)
      (hclient : psc.client uid = none) : Tells psc [.recvfrom d, .notice (.unknownUser uid)]
  | invalidPassword {d : Datagram} {uid : UInt8} {node : SvpnClientNode}
      (hhead : d.data.head? = some uid) (hclient : psc.client uid = some node)
      (hsource : 16 ≤ d.data.length → delivered psc d = none) :
      Tells psc [.recvfrom d, .notice (.invalidPassword d.sender)]
  | accepted {d : Datagram} {uid : UInt8} {node : SvpnClientNode}
      (hhead : d.data.head? = some uid) (hclient : psc.client uid = some node)
      (hsource : 16 ≤ d.data.length → delivered psc d ≠ none) :
      Tells psc (.recvfrom d :: .accepted uid d.sender ::
        if d.sender ≠ node.addr then [.notice (.clientMoved uid d.sender)] else [])
  | userNotExist {uid : UInt8} {packet : List UInt8} (hclient : psc.client uid = none) :
      Tells psc [.read uid packet, .notice (.userNotExist uid)]
  | sendto {uid : UInt8} {node : SvpnClientNode} {packet datagram : List UInt8} {ret : ℤ}
      (hclient : psc.client uid = some node) :
      Tells psc (.read uid packet :: .sendto uid node.addr datagram ret ::
        if ret ≤ 0 then [.notice (.clientDisconnected uid)] else [])

theorem told_acceptedTalk (report : Reporter) (ev : SockReady) (s : LoopState) (d : Datagram)
    (uid : UInt8) (node : SvpnClientNode) :
    told (acceptedTalk report ev s d uid node) =
      if d.sender ≠ node.addr then [.notice (.clientMoved uid d.sender)] else [] := by
  rw [acceptedTalk, told_append, told_printed, List.append_nil]
  split <;> rfl

theorem tells_sockBranch (report : Reporter) (ev : SockReady) (s : LoopState) :
    Tells s.psc (told (sockBranch report ev s).effects) := by
  have hcase := sockBranch_case report ev s
  generalize sockBranch report ev s = o at hcase
  have haccepted : ∀ {d : Datagram} {uid : UInt8} {node : SvpnClientNode}, Accepts s d uid node →
      Tells s.psc (.recvfrom d :: .accepted uid d.sender ::
        told (acceptedTalk report ev s d uid node)) := by
    intro d uid node ha
    rw [told_acceptedTalk]
    exact .accepted ha.head ha.client fun h => (sourceOk_iff_delivered ha.head ha.client h).1 ha.source
  cases hcase with
  | failed => exact .quiet
  | empty _ hdata => exact .empty hdata
  | unknownUser _ hhead hclient => exact .unknownUser hhead hclient
  | invalidPassword _ hhead hclient hsource =>
    exact .invalidPassword hhead hclient fun h =>
      not_ne_iff.1 (mt (sourceOk_iff_delivered hhead hclient h).2 hsource)
  | died _ haccepts => exact haccepted haccepts
  | @accepted d uid node _ _ haccepts =>
    have hwrite : told (acceptedTalk report ev s d uid node ++
        [.write uid ((received d.data).map node.table.decodeByte) ev.writeRet]) =
        told (acceptedTalk report ev s d uid node) := by
      rw [told_append]
      exact List.append_nil _
    exact (congrArg (fun es => Tells s.psc (.recvfrom d :: .accepted uid d.sender :: es)) hwrite).mpr
      (haccepted haccepts)

theorem tells_tunBranch (report : Reporter) (ev : TunReady) (s : LoopState) :
    Tells s.psc (told (tunBranch report ev s).effects) := by
  have hstep := tunBranch_step report ev s
  generalize tunBranch report ev s = o at hstep
  -- a failed call of `sendto` ends the pass, so that only a successful one is reported
  have hsent : ∀ {p : List UInt8} {node : SvpnClientNode} (ps : List Printed), 0 < ev.sendRet →
      s.psc.client (tunUid s p) = some node →
      Tells s.psc (told (sendAttempt ev s p node ++ ps.map .printed)) := by
    intro p node ps hret hclient
    have htells : Tells s.psc (sendAttempt ev s p node ++
        if ev.sendRet ≤ 0 then [.notice (.clientDisconnected (tunUid s p))] else []) :=
      .sendto hclient
    rw [if_neg (by omega), List.append_nil] at htells
    rw [told_append, told_printed, List.append_nil]
    exact htells
  cases hstep with
  | idle => exact .quiet
  | unknown _ _ hclient => exact .userNotExist hclient
  | @unsent p node _ _ hclient hret =>
    have htells : Tells s.psc (sendAttempt ev s p node ++
        if ev.sendRet ≤ 0 then [.notice (.clientDisconnected (tunUid s p))] else []) :=
      .sendto hclient
    rw [if_pos hret] at htells
    exact htells
  | died _ _ hclient hret => exact hsent _ hret hclient
  | sent _ _ hclient hret => exact hsent _ hret hclient

theorem tells_phase {report : Reporter} {h es : List Effect} {s : LoopState} {r : Option LoopState}
    (hphase : Phase report h s es r) : Tells s.psc (told es) := by
  cases hphase with
  | clock => exact .quiet
  | sock ev => exact tells_sockBranch report ev s
  | tun ev => exact tells_tunBranch report ev s
  | exit => exact .quiet

def moveOf (uid : UInt8) : Effect → Option SockaddrIn6
  | .notice (.clientMoved v addr) => if v = uid then some addr else none
  | _ => none

/-- The addresses the log gives for a user, in order. -/
def moved (uid : UInt8) (es : List Effect) : List SockaddrIn6 := es.filterMap (moveOf uid)

def senderOf (uid : UInt8) : Effect → Option SockaddrIn6
  | .accepted v addr => if v = uid then some addr else none
  | _ => none

/-- The senders of the datagrams accepted for a user, in order. -/
def senders (uid : UInt8) (es : List Effect) : List SockaddrIn6 := es.filterMap (senderOf uid)

@[simp] theorem moved_append (uid : UInt8) (es fs : List Effect) :
    moved uid (es ++ fs) = moved uid es ++ moved uid fs := List.filterMap_append

@[simp] theorem senders_append (uid : UInt8) (es fs : List Effect) :
    senders uid (es ++ fs) = senders uid es ++ senders uid fs := List.filterMap_append

@[simp] theorem moved_cons (uid : UInt8) (e : Effect) (es : List Effect) :
    moved uid (e :: es) = (moveOf uid e).toList ++ moved uid es := filterMap_cons_toList _ _ _

@[simp] theorem senders_cons (uid : UInt8) (e : Effect) (es : List Effect) :
    senders uid (e :: es) = (senderOf uid e).toList ++ senders uid es := filterMap_cons_toList _ _ _

@[simp] theorem moved_nil (uid : UInt8) : moved uid [] = [] := rfl
@[simp] theorem senders_nil (uid : UInt8) : senders uid [] = [] := rfl

theorem moved_told (uid : UInt8) (es : List Effect) : moved uid (told es) = moved uid es :=
  filterMap_told (fun _ _ _ => rfl) (fun _ => rfl) es

theorem senders_told (uid : UInt8) (es : List Effect) : senders uid (told es) = senders uid es :=
  filterMap_told (fun _ _ _ => rfl) (fun _ => rfl) es

theorem lastAccepted_eq_senders (uid : UInt8) (es : List Effect) :
    lastAccepted uid es = (senders uid es).getLast? := by
  unfold lastAccepted senders acceptedOf
  rw [← List.getLast?_map, ← List.filterMap_eq_map, ← List.filterMap_eq_filter,
    List.filterMap_filterMap, List.filterMap_filterMap]
  congr 2
  funext e
  cases e with
  | accepted v addr => by_cases hv : v = uid <;> simp [acceptOf, senderOf, hv, Option.guard]
  | _ => rfl

/-- What the log should give for a user: the changes of address. -/
def expectedMoves (psc : SvpnServer) (uid : UInt8) (es : List Effect) : List SockaddrIn6 :=
  match psc.client uid with
  | none => []
  | some node => changes node.addr (senders uid es)

theorem moves_of_tells {psc : SvpnServer} {es : List Effect} (h : Tells psc es) (uid : UInt8) :
    moved uid es = expectedMoves psc uid es := by
  have hsilent : ∀ fs, moved uid fs = [] → senders uid fs = [] →
      moved uid fs = expectedMoves psc uid fs := by
    intro fs hmoved hsenders
    rw [hmoved, expectedMoves, hsenders]
    cases psc.client uid <;> rfl
  cases h with
  | @accepted d v node _ hclient =>
    by_cases hv : v = uid
    · subst v
      have hsenders : senders uid (.recvfrom d :: .accepted uid d.sender ::
          if d.sender ≠ node.addr then [.notice (.clientMoved uid d.sender)] else []) =
          [d.sender] := by
        split <;> simp [senderOf]
      rw [expectedMoves, hclient]
      simp only [hsenders, changes_cons, changes_nil, List.append_nil]
      by_cases haddr : d.sender = node.addr
      · simp [moveOf, haddr]
      · simp [moveOf, haddr, Ne.symm haddr]
    · apply hsilent
      · split <;> simp [moveOf, hv]
      · split <;> simp [senderOf, hv]
  | @sendto v node packet datagram ret hclient =>
    apply hsilent
    · split <;> rfl
    · split <;> rfl
  | _ => exact hsilent _ rfl rfl

/-- The log of a run names exactly the changes of each user's address. -/
theorem moves_of_phases {report : Reporter} {s₀ : LoopState} {h : List Effect}
    {r : Option LoopState} (run : Reaches (Phase report) s₀ h r) (uid : UInt8) :
    moved uid h = expectedMoves s₀.psc uid h := by
  induction run with
  | start =>
    unfold expectedMoves
    cases s₀.psc.client uid <;> rfl
  | @step h es s r before hphase ih =>
    have hstep := moves_of_tells (tells_phase hphase) uid
    have hrouted := (routed_of_phases before).clients uid
    rw [moved_told, expectedMoves, hrouted, senders_told, lastAccepted_eq_senders] at hstep
    unfold expectedMoves at ih ⊢
    rw [moved_append, ih, hstep]
    cases s₀.psc.client uid with
    | none => rfl
    | some node => simp only [Option.map_some, senders_append, changes_append]

/-- Where the log has a user is where the table has it. -/
theorem addr_of_moves {report : Reporter} {s₀ s : LoopState} {h : List Effect}
    (run : Reaches (Phase report) s₀ h (some s)) (uid : UInt8) :
    (s.psc.client uid).map (·.addr) =
      (s₀.psc.client uid).map fun node => (moved uid h).getLast?.getD node.addr := by
  rw [(routed_of_phases run).clients uid, moves_of_phases run uid, expectedMoves,
    lastAccepted_eq_senders]
  cases s₀.psc.client uid with
  | none => rfl
  | some node => simp only [Option.map_some, getLast_changes]

/-- The messages about moves are the changes of address, and the last of them tells
where a user is now. -/
theorem moves_logged (report : Reporter) (inputs : List Select) (s₀ : LoopState) :
    (∀ uid, moved uid (svpnServerHandleThread report inputs s₀).1 =
      expectedMoves s₀.psc uid (svpnServerHandleThread report inputs s₀).1) ∧
    ∀ s, (svpnServerHandleThread report inputs s₀).2 = some s →
      ∀ uid, (s.psc.client uid).map (·.addr) = (s₀.psc.client uid).map fun node =>
        (moved uid (svpnServerHandleThread report inputs s₀).1).getLast?.getD node.addr := by
  have run := phases_of_handleThread report inputs s₀
  refine ⟨moves_of_phases run, fun s hs uid => ?_⟩
  rw [hs] at run
  exact addr_of_moves run uid

theorem moves_logged_sample :
    (moved 6 (svpnServerHandleThread outputInfo [sampleFirst] sampleStart).1).getLast?.getD
      (sampleAddr 0) = sampleAddr 1 := by
  have hnow := (moves_logged outputInfo [sampleFirst] sampleStart).2 sampleAccepted state_sampleRun 6
  have hstart : sampleStart.psc.client 6 = some ⟨sampleAddr 0, sampleKey.table⟩ := client_sampleServer
  rw [client_sampleAccepted, hstart, Option.map_some, Option.map_some, Option.some_inj] at hnow
  exact hnow.symm

inductive Verdict where
  | unknownUser (uid : UInt8)
  | invalidPassword (sender : SockaddrIn6)
  | accepted (uid : UInt8) (sender : SockaddrIn6)

def verdictOf : Effect → Option Verdict
  | .notice (.unknownUser uid) => some (.unknownUser uid)
  | .notice (.invalidPassword sender) => some (.invalidPassword sender)
  | .accepted uid sender => some (.accepted uid sender)
  | _ => none

/-- The verdict fits the datagram. -/
def Judges (psc : SvpnServer) (d : Datagram) : Verdict → Prop
  | .unknownUser uid => d.data.head? = some uid ∧ psc.client uid = none
  | .invalidPassword sender =>
    sender = d.sender ∧ (∃ uid, d.data.head? = some uid ∧ psc.client uid ≠ none) ∧
      (16 ≤ d.data.length → delivered psc d = none)
  | .accepted uid sender =>
    sender = d.sender ∧ (d.data.head? = some uid ∧ psc.client uid ≠ none) ∧
      (16 ≤ d.data.length → delivered psc d ≠ none)

/-- What becomes of a packet read from the tunnel. -/
inductive Fate where
  | userNotExist (uid : UInt8)
  | clientDisconnected (uid : UInt8)
  | sent (uid : UInt8)

def fateOf : Effect → Option Fate
  | .notice (.userNotExist uid) => some (.userNotExist uid)
  | .notice (.clientDisconnected uid) => some (.clientDisconnected uid)
  | .sendto uid _ _ ret => if ret ≤ 0 then none else some (.sent uid)
  | _ => none

def Befalls (psc : SvpnServer) (x : UInt8 × List UInt8) : Fate → Prop
  | .userNotExist uid => x.1 = uid ∧ psc.client uid = none
  | .clientDisconnected uid => x.1 = uid ∧ psc.client uid ≠ none
  | .sent uid => x.1 = uid ∧ psc.client uid ≠ none

def lostOf : Effect → Option UInt8
  | .notice (.clientDisconnected uid) => some uid
  | _ => none

/-- A call of `sendto` that failed. -/
def unsentOf : Effect → Option UInt8
  | .sendto uid _ _ ret => if ret ≤ 0 then some uid else none
  | _ => none

def nonempty (d : Datagram) : Option Datagram := if d.data = [] then none else some d

/-- The datagrams that carry anything. -/
def carried (es : List Effect) : List Datagram := (datagramsOf es).filterMap nonempty

/-- Messages and calls of `es` account for each other, one by one and in order. -/
structure Accounted (psc : SvpnServer) (es : List Effect) : Prop where
  datagrams : List.Forall₂ (Judges psc) (carried es) (es.filterMap verdictOf)
  packets : List.Forall₂ (Befalls psc) (readsOf es) (es.filterMap fateOf)
  lost : es.filterMap lostOf = es.filterMap unsentOf

theorem accounted_nil (psc : SvpnServer) : Accounted psc [] := ⟨.nil, .nil, rfl⟩

theorem Accounted.append {psc : SvpnServer} {h es : List Effect} (hold : Accounted psc h)
    (hnew : Accounted psc es) : Accounted psc (h ++ es) := by
  constructor
  · rw [carried, datagramsOf_append, List.filterMap_append, List.filterMap_append]
    exact List.rel_append hold.datagrams hnew.datagrams
  · rw [readsOf_append, List.filterMap_append]
    exact List.rel_append hold.packets hnew.packets
  · rw [List.filterMap_append, List.filterMap_append, hold.lost, hnew.lost]

theorem verdicts_told (es : List Effect) : (told es).filterMap verdictOf = es.filterMap verdictOf :=
  filterMap_told (fun _ _ _ => rfl) (fun _ => rfl) es

theorem fates_told (es : List Effect) : (told es).filterMap fateOf = es.filterMap fateOf :=
  filterMap_told (fun _ _ _ => rfl) (fun _ => rfl) es

theorem lost_told (es : List Effect) : (told es).filterMap lostOf = es.filterMap lostOf :=
  filterMap_told (fun _ _ _ => rfl) (fun _ => rfl) es

theorem unsent_told (es : List Effect) : (told es).filterMap unsentOf = es.filterMap unsentOf :=
  filterMap_told (fun _ _ _ => rfl) (fun _ => rfl) es

theorem datagramsOf_told (es : List Effect) : datagramsOf (told es) = datagramsOf es :=
  filterMap_told (fun _ _ _ => rfl) (fun _ => rfl) es

theorem readsOf_told (es : List Effect) : readsOf (told es) = readsOf es :=
  filterMap_told (fun _ _ _ => rfl) (fun _ => rfl) es

theorem data_ne_nil {d : Datagram} {uid : UInt8} (h : d.data.head? = some uid) : d.data ≠ [] := by
  intro hnil
  rw [hnil] at h
  cases h

/-- A datagram followed by one verdict. -/
theorem accounted_datagram {psc : SvpnServer} {d : Datagram} {uid : UInt8} {v : Verdict}
    {es : List Effect} (hhead : d.data.head? = some uid) (hjudges : Judges psc d v)
    (hverdicts : es.filterMap verdictOf = [v]) (hfates : es.filterMap fateOf = [])
    (hdatagrams : datagramsOf es = []) (hreads : readsOf es = [])
    (hlost : es.filterMap lostOf = es.filterMap unsentOf) :
    Accounted psc (.recvfrom d :: es) := by
  have hcarried : carried (.recvfrom d :: es) = [d] := by
    simp [carried, datagramOf, hdatagrams, nonempty, data_ne_nil hhead]
  constructor
  · rw [hcarried, filterMap_cons_toList, hverdicts]
    exact .cons hjudges .nil
  · rw [readsOf_cons, filterMap_cons_toList, hreads, hfates]
    exact .nil
  · rw [filterMap_cons_toList, filterMap_cons_toList, hlost]
    rfl

theorem accounted_of_tells {psc : SvpnServer} {es : List Effect} (h : Tells psc es) :
    Accounted psc es := by
  cases h with
  | quiet => exact accounted_nil psc
  | @empty d hdata =>
    constructor
    · have hcarried : carried [.recvfrom d] = [] := by simp [carried, datagramOf, nonempty, hdata]
      rw [hcarried]
      exact .nil
    · exact .nil
    · rfl
  | @unknownUser d uid hhead hclient =>
    have hjudges : Judges psc d (.unknownUser uid) := ⟨hhead, hclient⟩
    exact accounted_datagram hhead hjudges rfl rfl rfl rfl rfl
  | @invalidPassword d uid node hhead hclient hsource =>
    have hjudges : Judges psc d (.invalidPassword d.sender) :=
      ⟨rfl, ⟨uid, hhead, by simp [hclient]⟩, hsource⟩
    exact accounted_datagram hhead hjudges rfl rfl rfl rfl rfl
  | @accepted d uid node hhead hclient hsource =>
    have hjudges : Judges psc d (.accepted uid d.sender) :=
      ⟨rfl, ⟨hhead, by simp [hclient]⟩, hsource⟩
    apply accounted_datagram hhead hjudges
    all_goals split <;> rfl
  | userNotExist hclient => exact ⟨.nil, .cons ⟨rfl, hclient⟩ .nil, rfl⟩
  | @sendto uid node packet datagram ret hclient =>
    have hknown : psc.client uid ≠ none := by simp [hclient]
    by_cases hret : ret ≤ 0
    · rw [if_pos hret]
      refine ⟨.nil, ?_, by simp [filterMap_cons_toList, lostOf, unsentOf, hret]⟩
      rw [filterMap_cons_toList, filterMap_cons_toList]
      simp only [fateOf, hret, if_true]
      exact .cons ⟨rfl, hknown⟩ .nil
    · rw [if_neg hret]
      refine ⟨.nil, ?_, by simp [filterMap_cons_toList, lostOf, unsentOf, hret]⟩
      rw [filterMap_cons_toList, filterMap_cons_toList]
      simp only [fateOf, hret, if_false]
      exact .cons ⟨rfl, hknown⟩ .nil

theorem Accounted.told {psc : SvpnServer} {es : List Effect} (h : Accounted psc (told es)) :
    Accounted psc es := by
  have hdatagrams := h.datagrams
  have hpackets := h.packets
  have hlost := h.lost
  rw [carried, datagramsOf_told, verdicts_told] at hdatagrams
  rw [readsOf_told, fates_told] at hpackets
  rw [lost_told, unsent_told] at hlost
  exact ⟨hdatagrams, hpackets, hlost⟩

/-- The judgements use the users' tables and the local address only. -/
theorem Accounted.of_keyed {psc : SvpnServer} {s : LoopState} (hkeyed : Keyed psc (view s))
    {es : List Effect} (h : Accounted s.psc es) : Accounted psc es := by
  have hnone : ∀ uid, s.psc.client uid = none ↔ psc.client uid = none := by
    intro uid
    have htable : (s.psc.client uid).map (·.table) = (psc.client uid).map (·.table) :=
      hkeyed.tables uid
    rw [← Option.map_eq_none_iff, htable, Option.map_eq_none_iff]
  have hdelivered : ∀ d, delivered s.psc d = delivered psc d := by
    intro d
    have hlocal : s.psc.localAddr = psc.localAddr := hkeyed.localAddr
    rw [delivered, delivered, opened_of_keyed hkeyed, opened_of_keyed (keyed_view s), hlocal]
  refine ⟨h.datagrams.imp fun d v hjudges => ?_, h.packets.imp fun x f hbefalls => ?_, h.lost⟩
  · cases v with
    | unknownUser uid =>
      simp only [Judges, hnone] at hjudges ⊢
      exact hjudges
    | invalidPassword sender =>
      simp only [Judges, hdelivered, ne_eq, hnone] at hjudges ⊢
      exact hjudges
    | accepted uid sender =>
      simp only [Judges, hdelivered, ne_eq, hnone] at hjudges ⊢
      exact hjudges
  · cases f <;> simpa only [Befalls, ne_eq, hnone] using hbefalls

theorem keyed_of_routed {psc : SvpnServer} {h : List Effect} {s : LoopState} (hr : Routed psc h s) :
    Keyed psc (view s) :=
  ⟨hr.localAddr, Routed.tables hr⟩

theorem accounted_of_phases {report : Reporter} {s₀ : LoopState} {h : List Effect}
    {r : Option LoopState} (run : Reaches (Phase report) s₀ h r) : Accounted s₀.psc h := by
  induction run with
  | start => exact accounted_nil _
  | step before hphase ih =>
    have hnew := (accounted_of_tells (tells_phase hphase)).told
    exact ih.append (hnew.of_keyed (keyed_of_routed (routed_of_phases before)))

/-- In every run each datagram that carries anything gets one verdict and each packet
meets one fate, in order; the message about a lost client stands for a failed `sendto`. -/
theorem messages_account (report : Reporter) (inputs : List Select) (s₀ : LoopState) :
    Accounted s₀.psc (svpnServerHandleThread report inputs s₀).1 :=
  accounted_of_phases (phases_of_handleThread report inputs s₀)

end SVpn.Messages
