import SVpn.ServerSteps

set_option autoImplicit false

/-!
Runs of the server loop. A pass is a sequence of phases (the clock, the socket
branch, the tunnel branch), so what every phase keeps holds along every run.
-/
namespace SVpn.ServerRuns
open SVpn.Region SVpn.Crypt SVpn.OutputInfo SVpn.ServerLoop SVpn.ServerSteps SVpn.Trace

def tick (s : LoopState) (clock : ℤ) : LoopState :=
  { s with globals := { s.globals with stat := { s.globals.stat with tsCurrent := clock } } }

/-- One phase of a pass. A pass that returns is a phase without a next state. -/
inductive Phase (report : Reporter) : List Effect → LoopState → List Effect → Option LoopState → Prop
    where
  | clock (h : List Effect) (s : LoopState) (clock : ℤ) : Phase report h s [] (some (tick s clock))
  | sock (h : List Effect) (s : LoopState) (ev : SockReady) :
      Phase report h s (sockBranch report ev s).effects (sockBranch report ev s).control.state
  | tun (h : List Effect) (s : LoopState) (ev : TunReady) :
      Phase report h s (tunBranch report ev s).effects (tunBranch report ev s).control.state
  | exit (h : List Effect) (s : LoopState) : Phase report h s [] none

def Pass (report : Reporter) (ok : LoopState → Select → Prop) (_ : List Effect) (s : LoopState)
    (es : List Effect) (r : Option LoopState) : Prop :=
  ∃ input, ok s input ∧ (loopBody report input s).effects = es ∧
    (loopBody report input s).control.state = r

abbrev anyInput : LoopState → Select → Prop := fun _ _ => True

theorem loopBody_ready (report : Reporter) (clock : ℤ) (sock : Option SockReady)
    (tun : Option TunReady) (s : LoopState) :
    loopBody report (.ready clock sock tun) s =
      (ifSet sock (sockBranch report) (tick s clock)).andThen (ifSet tun (tunBranch report)) := rfl

theorem loopBody_tun (report : Reporter) (clock : ℤ) (ev : TunReady) (s : LoopState) :
    loopBody report (.ready clock none (some ev)) s = tunBranch report ev (tick s clock) := rfl

theorem loopBody_sock (report : Reporter) (clock : ℤ) (ev : SockReady) (s : LoopState) :
    loopBody report (.ready clock (some ev) none) s = sockBranch report ev (tick s clock) := by
  change (sockBranch report ev (tick s clock)).andThen (ifSet none (tunBranch report)) = _
  rcases sockBranch report ev (tick s clock) with ⟨es, control⟩
  cases control with
  | next s' =>
    simp only [Outcome.andThen, ifSet, List.append_nil]
  | _ => rfl

theorem phases_ifSet {report : Reporter} {ε : Type} {branch : ε → LoopState → Outcome}
    {s₀ s : LoopState} {h : List Effect} (run : Reaches (Phase report) s₀ h (some s))
    (hbranch : ∀ ev, Phase report h s (branch ev s).effects (branch ev s).control.state)
    (ready : Option ε) :
    Reaches (Phase report) s₀ (h ++ (ifSet ready branch s).effects)
      (ifSet ready branch s).control.state := by
  cases ready with
  | none =>
    change Reaches (Phase report) s₀ (h ++ []) (some s)
    simpa using run
  | some ev => exact run.step (hbranch ev)

theorem phases_of_pass {report : Reporter} {s₀ s : LoopState} {h : List Effect}
    (run : Reaches (Phase report) s₀ h (some s)) (input : Select) :
    Reaches (Phase report) s₀ (h ++ (loopBody report input s).effects)
      (loopBody report input s).control.state := by
  cases input with
  | interrupted => exact run.step (.exit h s)
  | failed =>
    change Reaches (Phase report) s₀ (h ++ []) (some s)
    simpa using run
  | ready clock sock tun =>
    have hticked : Reaches (Phase report) s₀ h (some (tick s clock)) := by
      simpa using run.step (.clock h s clock)
    have hsock := phases_ifSet hticked (fun ev => .sock h _ ev) sock
    rw [loopBody_ready]
    cases hfirst : ifSet sock (sockBranch report) (tick s clock) with
    | mk es control =>
      rw [hfirst] at hsock
      cases control with
      | next s' =>
        have htun := phases_ifSet hsock (fun ev => .tun _ s' ev) tun
        simpa only [Outcome.andThen, List.append_assoc] using htun
      | skip s' => exact hsock
      | exit => exact hsock
      | fault => exact hsock

theorem phases_of_passes {report : Reporter} {ok : LoopState → Select → Prop} {s₀ : LoopState}
    {h : List Effect} {r : Option LoopState} (run : Reaches (Pass report ok) s₀ h r) :
    Reaches (Phase report) s₀ h r := by
  induction run with
  | start => exact .start
  | step before hs ih =>
    obtain ⟨input, -, rfl, rfl⟩ := hs
    exact phases_of_pass ih input

theorem handleThread_stop {report : Reporter} {input : Select} {s : LoopState}
    (h : (loopBody report input s).control.state = none) (inputs : List Select) :
    svpnServerHandleThread report (input :: inputs) s = ((loopBody report input s).effects, none) := by
  simp only [svpnServerHandleThread, h]

theorem handleThread_next {report : Reporter} {input : Select} {s s' : LoopState}
    (h : (loopBody report input s).control.state = some s') (inputs : List Select) :
    svpnServerHandleThread report (input :: inputs) s =
      ((loopBody report input s).effects ++ (svpnServerHandleThread report inputs s').1,
        (svpnServerHandleThread report inputs s').2) := by
  simp only [svpnServerHandleThread, h]

theorem reaches_handleThread (report : Reporter) (inputs : List Select) {s₀ s : LoopState}
    {h : List Effect} (run : Reaches (Pass report anyInput) s₀ h (some s)) :
    Reaches (Pass report anyInput) s₀ (h ++ (svpnServerHandleThread report inputs s).1)
      (svpnServerHandleThread report inputs s).2 := by
  induction inputs generalizing s h with
  | nil => simpa [svpnServerHandleThread] using run
  | cons input inputs ih =>
    have hpass := run.step (show Pass report anyInput h s _ _ from ⟨input, trivial, rfl, rfl⟩)
    cases hstate : (loopBody report input s).control.state with
    | none =>
      rw [hstate] at hpass
      rw [handleThread_stop hstate]
      exact hpass
    | some s' =>
      rw [hstate] at hpass
      rw [handleThread_next hstate, ← List.append_assoc]
      exact ih hpass

/-- The sender of the latest datagram accepted for a user. -/
def lastAccepted (uid : UInt8) (h : List Effect) : Option SockaddrIn6 :=
  (((acceptedOf h).filter fun a => a.1 = uid).getLast?).map (·.2)

theorem lastAccepted_append (uid : UInt8) (h es : List Effect) :
    lastAccepted uid (h ++ es) = (lastAccepted uid es).or (lastAccepted uid h) := by
  unfold lastAccepted
  rw [acceptedOf_append, List.filter_append, List.getLast?_append]
  cases ((acceptedOf es).filter fun a => a.1 = uid).getLast? <;> rfl

theorem lastAccepted_of_acceptedOf_nil {uid : UInt8} {es : List Effect} (h : acceptedOf es = []) :
    lastAccepted uid es = none := by
  simp [lastAccepted, h]

theorem lastAccepted_of_acceptedOf_singleton (uid : UInt8) {v : UInt8} {addr : SockaddrIn6}
    {es : List Effect}
    (h : acceptedOf es = [(v, addr)]) : lastAccepted uid es = if uid = v then some addr else none := by
  unfold lastAccepted
  rw [h]
  by_cases hv : v = uid
  · simp [hv]
  · simp [hv, Ne.symm hv]

theorem mem_acceptedOf {uid : UInt8} {addr : SockaddrIn6} {es : List Effect} :
    (uid, addr) ∈ acceptedOf es ↔ .accepted uid addr ∈ es := by
  unfold acceptedOf
  rw [List.mem_filterMap]
  constructor
  · rintro ⟨e, he, heq⟩
    cases e with
    | accepted v a =>
      cases heq
      exact he
    | _ => cases heq
  · exact fun he => ⟨_, he, rfl⟩

theorem mem_acceptedOf_of_lastAccepted {uid : UInt8} {h : List Effect} {addr : SockaddrIn6}
    (hlast : lastAccepted uid h = some addr) : (uid, addr) ∈ acceptedOf h := by
  obtain ⟨⟨v, a⟩, hget, rfl⟩ := Option.map_eq_some_iff.1 hlast
  obtain ⟨hmem, hv⟩ := List.mem_filter.1 (List.mem_of_getLast? hget)
  rw [decide_eq_true_eq] at hv
  exact hv ▸ hmem

theorem lastAccepted_of_mem {uid : UInt8} {h : List Effect} {addr : SockaddrIn6}
    (hmem : (uid, addr) ∈ acceptedOf h) : ∃ a, lastAccepted uid h = some a := by
  have hne : ((acceptedOf h).filter fun a => a.1 = uid) ≠ [] :=
    List.ne_nil_of_mem (List.mem_filter.2 ⟨hmem, decide_eq_true rfl⟩)
  unfold lastAccepted
  rw [List.getLast?_eq_some_getLast hne]
  exact ⟨_, rfl⟩

/-- Routing state in terms of the start and of the datagrams accepted since. -/
structure Routed (psc : SvpnServer) (h : List Effect) (s : LoopState) : Prop where
  localAddr : s.psc.localAddr = psc.localAddr
  clients : ∀ uid, s.psc.client uid = (psc.client uid).map fun node =>
    { node with addr := (lastAccepted uid h).getD node.addr }

theorem routed_start (s : LoopState) : Routed s.psc [] s := by
  refine ⟨rfl, fun uid => ?_⟩
  cases h : s.psc.client uid <;> simp [lastAccepted]

theorem Routed.client_start {psc : SvpnServer} {h : List Effect} {s : LoopState}
    (hr : Routed psc h s) {uid : UInt8} {node : SvpnClientNode}
    (hclient : s.psc.client uid = some node) :
    ∃ first, psc.client uid = some first ∧ node.table = first.table ∧
      node.addr = (lastAccepted uid h).getD first.addr := by
  rw [hr.clients uid] at hclient
  obtain ⟨first, hfirst, rfl⟩ := Option.map_eq_some_iff.1 hclient
  exact ⟨first, hfirst, rfl, rfl⟩

theorem Routed.of_psc_eq {psc : SvpnServer} {h es : List Effect} {s s' : LoopState}
    (hr : Routed psc h s) (hpsc : s'.psc = s.psc) (hes : acceptedOf es = []) :
    Routed psc (h ++ es) s' := by
  refine ⟨hpsc ▸ hr.localAddr, fun uid => ?_⟩
  rw [lastAccepted_append, lastAccepted_of_acceptedOf_nil hes, Option.none_or, hpsc]
  exact hr.clients uid

theorem Routed.of_accepted {psc : SvpnServer} {h es : List Effect} {s s' : LoopState}
    {uid : UInt8} {node : SvpnClientNode} {addr : SockaddrIn6} (hr : Routed psc h s)
    (hclient : s.psc.client uid = some node)
    (hpsc : s'.psc = s.psc.setClient uid { node with addr := addr })
    (hes : acceptedOf es = [(uid, addr)]) : Routed psc (h ++ es) s' := by
  refine ⟨hpsc ▸ hr.localAddr, fun v => ?_⟩
  rw [lastAccepted_append, lastAccepted_of_acceptedOf_singleton v hes, hpsc, client_setClient]
  by_cases hv : v = uid
  · subst v
    have hold := hr.clients uid
    rw [hclient] at hold
    cases hstart : psc.client uid with
    | none => simp [hstart] at hold
    | some first =>
      rw [hstart, Option.map_some, Option.some.injEq] at hold
      simp [hold]
  · simpa [hv] using hr.clients v

theorem Routed.trans {psc : SvpnServer} {h es : List Effect} {s s' : LoopState}
    (hr : Routed psc h s) (hr' : Routed s.psc es s') : Routed psc (h ++ es) s' := by
  refine ⟨hr'.localAddr.trans hr.localAddr, fun uid => ?_⟩
  rw [hr'.clients uid, hr.clients uid, Option.map_map, lastAccepted_append]
  cases psc.client uid with
  | none => rfl
  | some node => cases lastAccepted uid es <;> rfl

/-- The routing table of every state reached, from the accepted datagrams alone. -/
theorem routed_of_phases {report : Reporter} {s₀ s : LoopState} {h : List Effect}
    (run : Reaches (Phase report) s₀ h (some s)) : Routed s₀.psc h s := by
  refine run.invariant (I := fun h s => Routed s₀.psc h s) (routed_start s₀) ?_
  intro h s es s' hr hphase
  generalize hstate : some s' = r at hphase
  cases hphase with
  | clock clock =>
    cases hstate
    exact hr.of_psc_eq rfl rfl
  | sock ev =>
    rcases sockBranch_psc hstate.symm with ⟨hpsc, hes⟩ | ⟨d, uid, node, -, ha, hpsc, hes⟩
    · exact hr.of_psc_eq hpsc hes
    · exact hr.of_accepted ha.client hpsc hes
  | tun ev =>
    obtain ⟨heffects, hpsc⟩ := tunBranch_cases report ev s
    exact hr.of_psc_eq (hpsc s' hstate.symm) heffects.acceptedOf
  | exit => cases hstate

theorem routed_pass {report : Reporter} {psc : SvpnServer} {h : List Effect} {s s' : LoopState}
    {input : Select} (hr : Routed psc h s)
    (hstate : (loopBody report input s).control.state = some s') :
    Routed psc (h ++ (loopBody report input s).effects) s' := by
  have hpass := phases_of_pass (Reaches.start : Reaches (Phase report) s [] (some s)) input
  rw [hstate, List.nil_append] at hpass
  exact hr.trans (routed_of_phases hpass)

end SVpn.ServerRuns
