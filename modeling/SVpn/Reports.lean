import SVpn.ServerCauses

set_option autoImplicit false

/-!
The calls of `outputInfo`. Each half of a pass makes at most one, on counters to which
it has just added; what a pass prints and what its counters become is the doing of its calls.
-/
namespace SVpn.Reports
open SVpn.Region SVpn.Crypt SVpn.OutputInfo SVpn.ServerLoop SVpn.ServerSteps SVpn.ServerRuns
open SVpn.SourceCheck SVpn.ServerCauses SVpn.Trace

def printOf : Effect → Option Printed
  | .printed p => some p
  | _ => none

def printedOf (es : List Effect) : List Printed := es.filterMap printOf

theorem printedOf_append (es fs : List Effect) :
    printedOf (es ++ fs) = printedOf es ++ printedOf fs := List.filterMap_append

theorem printedOf_map (ps : List Printed) : printedOf (ps.map .printed) = ps := by
  unfold printedOf
  rw [List.filterMap_map]
  exact List.filterMap_some

theorem mem_printedOf {p : Printed} {es : List Effect} : p ∈ printedOf es ↔ .printed p ∈ es := by
  unfold printedOf
  rw [List.mem_filterMap]
  constructor
  · rintro ⟨e, he, heq⟩
    cases e with
    | printed q =>
      cases heq
      exact he
    | _ => cases heq
  · exact fun he => ⟨_, he, rfl⟩

/-- The call in line 216, with what `fopen` would give it and the counters it sees. -/
inductive SockCalls (s : LoopState) (ev : SockReady) : Bool → Globals → Prop where
  | accepted {d : Datagram} {uid : UInt8} {node : SvpnClientNode} (hrecv : ev.recv = some d)
      (ha : Accepts s d uid node) :
      SockCalls s ev ev.fopen (countSend s.globals (received d.data).length)

/-- The call in line 252. -/
inductive TunCalls (s : LoopState) (ev : TunReady) : Bool → Globals → Prop where
  | sent {p : List UInt8} {node : SvpnClientNode} (hpacket : ev.packet = some p) (hp : p ≠ [])
      (hclient : s.psc.client (tunUid s p) = some node) (hret : 0 < ev.sendRet) :
      TunCalls s ev ev.fopen (countRecv s.globals ev.sendRet)

/-- The calls of a pass that starts in `s`. -/
inductive Calls (s : LoopState) : Select → Bool → Globals → Prop where
  | sock {clock : ℤ} {ev : SockReady} {tun : Option TunReady} {fopen : Bool} {g : Globals}
      (h : SockCalls (tick s clock) ev fopen g) : Calls s (.ready clock (some ev) tun) fopen g
  | tun {clock : ℤ} {sock : Option SockReady} {ev : TunReady} {s₁ : LoopState} {fopen : Bool}
      {g : Globals} (hstate : stateAtRead outputInfo (.ready clock sock (some ev)) s = some s₁)
      (h : TunCalls s₁ ev fopen g) : Calls s (.ready clock sock (some ev)) fopen g

/-- Half a pass with the calls `calls` takes the counters `g` to these. -/
inductive Half (calls : Bool → Globals → Prop) (g : Globals) :
    List Effect → Option Globals → Prop where
  | quiet {es : List Effect} (hnone : ∀ fopen g', ¬ calls fopen g') (hprinted : printedOf es = []) :
      Half calls g es (some g)
  | report {es : List Effect} {fopen : Bool} {g' : Globals} (hcall : calls fopen g')
      (honly : ∀ fopen₁ g₁, calls fopen₁ g₁ → fopen₁ = fopen ∧ g₁ = g')
      (hprinted : printedOf es = (outputInfo fopen g').1) : Half calls g es (outputInfo fopen g').2

def globalsAfter (o : Outcome) : Option Globals := o.control.state.map LoopState.globals

/-- The counters with the speeds that a report computes from them. -/
def computed (g : Globals) : Tstat :=
  withSpeeds g.stat (toInt (g.stat.tsCurrent - g.stat.tsLast))

/-- Bytes a second, in the arithmetic of the code. -/
def speedOf (bytes elapsed : ℤ) : ℤ := toInt ((bytes * 1000000).tdiv (toInt elapsed))

/-- A call leaves the counters alone when no report is due, and starts a new period
after the report otherwise. -/
theorem outputInfo_stat {fopen : Bool} {g g' : Globals} (h : (outputInfo fopen g).2 = some g') :
    (underThresholds g.stat = true ∧ g' = g) ∨
      (underThresholds g.stat = false ∧ g'.stat = startPeriod (computed g)) := by
  unfold outputInfo at h
  simp only at h
  split_ifs at h with hunder hzero
  · cases h
    exact .inl ⟨hunder, rfl⟩
  · exact .inr ⟨eq_false_of_ne_true hunder, logTraffic_stat h⟩

/-- An accepted datagram, with what is shown between the acceptance and the write. -/
theorem sockBranch_shown {ev : SockReady} {s : LoopState} {d : Datagram} {uid : UInt8}
    {node : SvpnClientNode} (hrecv : ev.recv = some d) (ha : Accepts s d uid node) :
    ∃ moved rest, printedOf moved = [] ∧ printedOf rest = [] ∧
      (sockBranch outputInfo ev s).effects = .recvfrom d :: .accepted uid d.sender ::
        (moved ++ (sendReport outputInfo ev s d).1.map .printed ++ rest) ∧
      globalsAfter (sockBranch outputInfo ev s) = (sendReport outputInfo ev s d).2 := by
  have hmoved : printedOf (if d.sender ≠ node.addr then
      [Effect.notice (.clientMoved uid d.sender)] else []) = [] := by
    split <;> rfl
  rw [sockBranch_head hrecv ha.head]
  simp only [ha.client, ha.source, if_true, acceptDatagram]
  unfold sendReport
  cases (outputInfo ev.fopen (countSend s.globals (received d.data).length)).2 with
  | none => exact ⟨_, [], hmoved, rfl, by rw [List.append_nil]; rfl, rfl⟩
  | some globals => exact ⟨_, [_], hmoved, rfl, rfl, rfl⟩

theorem sockBranch_half (ev : SockReady) (s : LoopState) :
    Half (SockCalls s ev) s.globals (sockBranch outputInfo ev s).effects
      (globalsAfter (sockBranch outputInfo ev s)) := by
  by_cases h : ∃ d uid node, ev.recv = some d ∧ Accepts s d uid node
  · obtain ⟨d, uid, node, hrecv, ha⟩ := h
    obtain ⟨moved, rest, hmoved, hrest, heffects, hglobals⟩ := sockBranch_shown hrecv ha
    rw [heffects, hglobals]
    refine .report (.accepted hrecv ha) ?_ ?_
    · rintro _ _ ⟨hrecv', -⟩
      obtain rfl := Option.some.inj (hrecv.symm.trans hrecv')
      exact ⟨rfl, rfl⟩
    · change printedOf (moved ++ _ ++ rest) = _
      rw [printedOf_append, printedOf_append, hmoved, hrest, printedOf_map, List.append_nil,
        List.nil_append]
      rfl
  · have hnone : ∀ fopen g, ¬ SockCalls s ev fopen g := by
      rintro _ _ ⟨hrecv, ha⟩
      exact h ⟨_, _, _, hrecv, ha⟩
    have hstep := sockBranch_step outputInfo ev s
    generalize sockBranch outputInfo ev s = o at hstep
    cases hstep with
    | failed => exact .quiet hnone rfl
    | @refused d talk s' _ _ _ _ hglobals hquiet =>
      change Half _ _ _ (some s'.globals)
      rw [hglobals]
      refine .quiet hnone (List.eq_nil_iff_forall_not_mem.2 fun p hp => ?_)
      rcases List.mem_cons.1 (mem_printedOf.1 hp) with hrecvfrom | hmem
      · cases hrecvfrom
      · exact hquiet p hmem
    | died hrecv haccepts => exact absurd ⟨_, _, _, hrecv, haccepts⟩ h
    | accepted hrecv haccepts => exact absurd ⟨_, _, _, hrecv, haccepts⟩ h

theorem tunBranch_half (ev : TunReady) (s : LoopState) :
    Half (TunCalls s ev) s.globals (tunBranch outputInfo ev s).effects
      (globalsAfter (tunBranch outputInfo ev s)) := by
  have hstep := tunBranch_step outputInfo ev s
  generalize tunBranch outputInfo ev s = o at hstep
  have hsent : ∀ {p : List UInt8} {node : SvpnClientNode}, ev.packet = some p → p ≠ [] →
      s.psc.client (tunUid s p) = some node → 0 < ev.sendRet →
      Half (TunCalls s ev) s.globals (sendAttempt ev s p node ++
        (outputInfo ev.fopen (countRecv s.globals ev.sendRet)).1.map .printed)
        (outputInfo ev.fopen (countRecv s.globals ev.sendRet)).2 := by
    intro p node hpacket hp hclient hret
    refine .report (.sent hpacket hp hclient hret) ?_ ?_
    · rintro _ _ ⟨-⟩
      exact ⟨rfl, rfl⟩
    · rw [printedOf_append, printedOf_map]
      rfl
  cases hstep with
  | idle hidle =>
    refine .quiet ?_ rfl
    rintro _ _ ⟨hsome, hne, -⟩
    exact hne (hidle _ hsome)
  | unknown hpacket hp hclient =>
    refine .quiet ?_ rfl
    rintro _ _ ⟨hsome, -, hknown, -⟩
    rw [Option.some.inj (hsome.symm.trans hpacket), hclient] at hknown
    cases hknown
  | unsent hpacket hp hclient hret =>
    refine .quiet ?_ rfl
    rintro _ _ ⟨-, -, -, hpos⟩
    omega
  | died hpacket hp hclient hret hreport =>
    have hhalf := hsent hpacket hp hclient hret
    rw [hreport] at hhalf
    exact hhalf
  | sent hpacket hp hclient hret hreport =>
    have hhalf := hsent hpacket hp hclient hret
    rw [hreport] at hhalf
    exact hhalf

theorem Half.mem_printedOf {calls : Bool → Globals → Prop} {g : Globals} {es : List Effect}
    {r : Option Globals} (h : Half calls g es r) (p : Printed) :
    p ∈ printedOf es ↔ ∃ fopen g', calls fopen g' ∧ p ∈ (outputInfo fopen g').1 := by
  cases h with
  | quiet hnone hprinted =>
    rw [hprinted]
    exact ⟨fun hmem => absurd hmem List.not_mem_nil, fun ⟨_, _, hcall, _⟩ => absurd hcall (hnone _ _)⟩
  | report hcall honly hprinted =>
    rw [hprinted]
    constructor
    · exact fun hmem => ⟨_, _, hcall, hmem⟩
    · rintro ⟨fopen₁, g₁, hcall₁, hmem⟩
      obtain ⟨rfl, rfl⟩ := honly fopen₁ g₁ hcall₁
      exact hmem

/-- The counters after half a pass are those before it, or what its call has left. -/
theorem Half.after {calls : Bool → Globals → Prop} {g g' : Globals} {es : List Effect}
    {r : Option Globals} (h : Half calls g es r) (hr : r = some g') :
    g' = g ∨ ∃ fopen g₁, calls fopen g₁ ∧ (outputInfo fopen g₁).2 = some g' := by
  cases h with
  | quiet => exact .inl (Option.some.inj hr).symm
  | report hcall => exact .inr ⟨_, _, hcall, hr⟩

/-- Either the socket half is the whole pass, or the tunnel half starts where it has ended. -/
theorem pass_split (clock : ℤ) (sock : Option SockReady) (tun : Option TunReady) (s : LoopState) :
    let first := ifSet sock (sockBranch outputInfo) (tick s clock)
    (stateAtRead outputInfo (.ready clock sock tun) s = none ∧
      loopBody outputInfo (.ready clock sock tun) s = first) ∨
    ∃ s₁, stateAtRead outputInfo (.ready clock sock tun) s = some s₁ ∧ first.control.state = some s₁ ∧
      loopBody outputInfo (.ready clock sock tun) s =
        ⟨first.effects ++ (ifSet tun (tunBranch outputInfo) s₁).effects,
          (ifSet tun (tunBranch outputInfo) s₁).control⟩ := by
  rw [loopBody_ready]
  unfold stateAtRead Outcome.andThen
  simp only
  generalize ifSet sock (sockBranch outputInfo) (tick s clock) = first
  cases first with
  | mk es control =>
    cases control with
    | next s₁ => exact .inr ⟨s₁, rfl, rfl, rfl⟩
    | skip s₁ => exact .inl ⟨rfl, rfl⟩
    | exit => exact .inl ⟨rfl, rfl⟩
    | fault => exact .inl ⟨rfl, rfl⟩

theorem half_ifSet {ε : Type} {branch : ε → LoopState → Outcome}
    {calls : ε → Bool → Globals → Prop} {s : LoopState}
    (h : ∀ ev, Half (calls ev) s.globals (branch ev s).effects (globalsAfter (branch ev s)))
    (ready : Option ε) :
    Half (fun fopen g => ∃ ev, ready = some ev ∧ calls ev fopen g) s.globals
      (ifSet ready branch s).effects (globalsAfter (ifSet ready branch s)) := by
  cases ready with
  | none => exact .quiet (fun _ _ ⟨_, hnone, _⟩ => nomatch hnone) rfl
  | some ev =>
    have hsame : (fun fopen g => ∃ ev', some ev = some ev' ∧ calls ev' fopen g) = calls ev := by
      funext fopen g
      exact propext ⟨fun ⟨_, heq, hcall⟩ => Option.some.inj heq ▸ hcall, fun hcall => ⟨ev, rfl, hcall⟩⟩
    rw [hsame]
    exact h ev

theorem sock_half (clock : ℤ) (sock : Option SockReady) (s : LoopState) :
    Half (fun fopen g => ∃ ev, sock = some ev ∧ SockCalls (tick s clock) ev fopen g)
      (tick s clock).globals (ifSet sock (sockBranch outputInfo) (tick s clock)).effects
      (globalsAfter (ifSet sock (sockBranch outputInfo) (tick s clock))) :=
  half_ifSet (fun ev => sockBranch_half ev (tick s clock)) sock

theorem tun_half (tun : Option TunReady) (s₁ : LoopState) :
    Half (fun fopen g => ∃ ev, tun = some ev ∧ TunCalls s₁ ev fopen g) s₁.globals
      (ifSet tun (tunBranch outputInfo) s₁).effects
      (globalsAfter (ifSet tun (tunBranch outputInfo) s₁)) :=
  half_ifSet (fun ev => tunBranch_half ev s₁) tun

theorem calls_ready {clock : ℤ} {sock : Option SockReady} {tun : Option TunReady} {s : LoopState}
    {fopen : Bool} {g : Globals} : Calls s (.ready clock sock tun) fopen g ↔
      (∃ ev, sock = some ev ∧ SockCalls (tick s clock) ev fopen g) ∨
      ∃ s₁, stateAtRead outputInfo (.ready clock sock tun) s = some s₁ ∧
        ∃ ev, tun = some ev ∧ TunCalls s₁ ev fopen g := by
  constructor
  · rintro (h | ⟨hstate, h⟩)
    · exact .inl ⟨_, rfl, h⟩
    · exact .inr ⟨_, hstate, _, rfl, h⟩
  · rintro (⟨ev, rfl, h⟩ | ⟨s₁, hstate, ev, rfl, h⟩)
    · exact .sock h
    · exact .tun hstate h

/-- What a pass prints is what its calls print. -/
theorem printed_iff_calls {input : Select} {s : LoopState} {p : Printed} :
    .printed p ∈ (loopBody outputInfo input s).effects ↔
      ∃ fopen g, Calls s input fopen g ∧ p ∈ (outputInfo fopen g).1 := by
  cases input with
  | interrupted => exact ⟨fun h => absurd h List.not_mem_nil, fun ⟨_, _, h, _⟩ => nomatch h⟩
  | failed => exact ⟨fun h => absurd h List.not_mem_nil, fun ⟨_, _, h, _⟩ => nomatch h⟩
  | ready clock sock tun =>
    have hsock := (sock_half clock sock s).mem_printedOf p
    simp only [calls_ready]
    rcases pass_split clock sock tun s with ⟨hnone, heq⟩ | ⟨s₁, hstate, -, heq⟩
    · rw [heq, ← mem_printedOf, hsock]
      simp only [hnone, reduceCtorEq, false_and, exists_false, or_false]
    · have htun := (tun_half tun s₁).mem_printedOf p
      rw [heq, ← mem_printedOf, printedOf_append, List.mem_append, hsock, htun]
      simp only [hstate, Option.some.injEq, exists_eq_left', or_and_right, exists_or]

theorem state_of_stateAtRead {clock : ℤ} {sock : Option SockReady} {tun : Option TunReady}
    {s s₁ : LoopState} (h : stateAtRead outputInfo (.ready clock sock tun) s = some s₁) :
    (ifSet sock (sockBranch outputInfo) (tick s clock)).control.state = some s₁ := by
  rcases pass_split clock sock tun s with ⟨hnone, -⟩ | ⟨s₂, hstate, hnext, -⟩
  · cases hnone.symm.trans h
  · rw [hnext, ← hstate, h]

/-- A property of the counters that no phase of a pass can end. -/
structure Kept (I : Globals → Prop) : Prop where
  clock : ∀ s clock, I s.globals → I (tick s clock).globals
  send : ∀ g len, I g → I (countSend g len)
  recv : ∀ g len, 0 < len → I g → I (countRecv g len)
  report : ∀ fopen g g', I g → (outputInfo fopen g).2 = some g' → I g'

theorem Kept.sockCall {I : Globals → Prop} (hI : Kept I) {s : LoopState} {ev : SockReady}
    {fopen : Bool} {g : Globals} (h : SockCalls s ev fopen g) (hs : I s.globals) : I g := by
  cases h with
  | accepted => exact hI.send _ _ hs

theorem Kept.tunCall {I : Globals → Prop} (hI : Kept I) {s : LoopState} {ev : TunReady}
    {fopen : Bool} {g : Globals} (h : TunCalls s ev fopen g) (hs : I s.globals) : I g := by
  cases h with
  | sent _ _ _ hret => exact hI.recv _ _ hret hs

theorem Kept.half {I : Globals → Prop} (hI : Kept I) {calls : Bool → Globals → Prop} {g g' : Globals}
    {es : List Effect} {r : Option Globals} (h : Half calls g es r) (hr : r = some g') (hg : I g)
    (hcalls : ∀ fopen g₁, calls fopen g₁ → I g₁) : I g' := by
  rcases h.after hr with rfl | ⟨fopen, g₁, hcall, hreport⟩
  · exact hg
  · exact hI.report _ _ _ (hcalls _ _ hcall) hreport

theorem Kept.sock {I : Globals → Prop} (hI : Kept I) {clock : ℤ} {sock : Option SockReady}
    {s s' : LoopState} (hs : I s.globals)
    (h : (ifSet sock (sockBranch outputInfo) (tick s clock)).control.state = some s') :
    I s'.globals := by
  refine hI.half (sock_half clock sock s) (congrArg (Option.map LoopState.globals) h)
    (hI.clock s clock hs) ?_
  rintro fopen g ⟨ev, -, hcall⟩
  exact hI.sockCall hcall (hI.clock s clock hs)

theorem Kept.atRead {I : Globals → Prop} (hI : Kept I) {input : Select} {s s₁ : LoopState}
    (hs : I s.globals) (h : stateAtRead outputInfo input s = some s₁) : I s₁.globals := by
  cases input with
  | interrupted => cases h
  | failed => cases h
  | ready clock sock tun => exact hI.sock hs (state_of_stateAtRead h)

theorem Kept.call {I : Globals → Prop} (hI : Kept I) {input : Select} {s : LoopState} {fopen : Bool}
    {g : Globals} (hs : I s.globals) (h : Calls s input fopen g) : I g := by
  cases h with
  | sock h => exact hI.sockCall h (hI.clock s _ hs)
  | tun hstate h => exact hI.tunCall h (hI.atRead hs hstate)

theorem Kept.pass {I : Globals → Prop} (hI : Kept I) {input : Select} {s s' : LoopState}
    (hs : I s.globals) (h : (loopBody outputInfo input s).control.state = some s') : I s'.globals := by
  cases input with
  | interrupted => cases h
  | failed =>
    cases h
    exact hs
  | ready clock sock tun =>
    rcases pass_split clock sock tun s with ⟨-, heq⟩ | ⟨s₁, -, hnext, heq⟩
    · rw [heq] at h
      exact hI.sock hs h
    · rw [heq] at h
      have hmid := hI.sock hs hnext
      refine hI.half (tun_half tun s₁) (congrArg (Option.map LoopState.globals) h) hmid ?_
      rintro fopen g ⟨ev, -, hcall⟩
      exact hI.tunCall hcall hmid

theorem Kept.run {I : Globals → Prop} (hI : Kept I) {inputs : List Select} {s₀ s : LoopState}
    (hs : I s₀.globals) (hrun : (svpnServerHandleThread outputInfo inputs s₀).2 = some s) :
    I s.globals := by
  induction inputs generalizing s₀ with
  | nil =>
    cases hrun
    exact hs
  | cons input inputs ih =>
    cases hstate : (loopBody outputInfo input s₀).control.state with
    | none =>
      rw [handleThread_stop hstate] at hrun
      cases hrun
    | some s₁ =>
      rw [handleThread_next hstate] at hrun
      exact ih (hI.pass hs hstate) hrun

def sampleAt (clock : ℤ) : Select :=
  .ready clock (some ⟨some (sampleDatagram (sampleAddr 1)), 20, true⟩) none

def sampleCall (clock : ℤ) : Globals := countSend (tick sampleStart clock).globals 20

theorem calls_sample (clock : ℤ) : Calls sampleStart (sampleAt clock) true (sampleCall clock) := by
  have hlength : (received (sampleDatagram (sampleAddr 1)).data).length = 20 := rfl
  apply Calls.sock
  rw [sampleCall, ← hlength]
  exact .accepted rfl (accepts_sample rfl (sampleAddr 1))

def sampleRead (clock : ℤ) : Select := .ready clock none (some ⟨some sampleReply, 20, true⟩)

/-- The report on a packet of 20 bytes that is sent at `clock`. -/
def reportAt (clock : ℤ) (g : Globals) : List Printed × Option Globals :=
  outputInfo true (countRecv { g with stat := { g.stat with tsCurrent := clock } } 20)

theorem pass_sampleRead (clock : ℤ) {s : LoopState} {node : SvpnClientNode} {g : Globals}
    (hclient : s.psc.client 6 = some node) (hreport : (reportAt clock s.globals).2 = some g) :
    ∃ s', (loopBody outputInfo (sampleRead clock) s).control.state = some s' ∧ s'.psc = s.psc ∧
      s'.globals = g ∧ printedOf (loopBody outputInfo (sampleRead clock) s).effects =
        (reportAt clock s.globals).1 := by
  have huser : (tick s clock).psc.client (tunUid (tick s clock) sampleReply) = some node := by
    rw [tunUid_sampleReply]
    exact hclient
  have hreported : (outputInfo true (countRecv (tick s clock).globals 20)).2 = some g := hreport
  have hsent : ¬ (20 : ℤ) ≤ 0 := by decide
  rw [sampleRead, loopBody_tun, tunBranch_packet rfl (by decide), huser]
  simp only [hsent, if_false, hreported]
  refine ⟨_, rfl, rfl, rfl, ?_⟩
  rw [printedOf_append, printedOf_map]
  rfl

end SVpn.Reports
