import SVpn.Speeds

set_option autoImplicit false

/-!
What keeps the server alive. A report ends the process when a multiple of 2 ^ 32 microseconds
has passed since the last one, so traffic that comes more often than that keeps it going.
-/
namespace SVpn.Survival
open SVpn.Region SVpn.OutputInfo SVpn.ServerLoop SVpn.ServerSteps SVpn.ServerRuns SVpn.ServerCauses
open SVpn.SourceCheck SVpn.RoutingTable SVpn.Reports SVpn.Speeds

/-- The call has bytes counted, and is followed by a look for a report. -/
def carries : Effect → Bool
  | .accepted _ _ => true
  | .sendto _ _ _ ret => 0 < ret
  | _ => false

def trafficClock (input : Select) (s : LoopState) : Option ℤ :=
  if (loopBody outputInfo input s).effects.any carries then clockOf input else none

def trafficClocks : List Select → LoopState → List ℤ
  | [], _ => []
  | input :: inputs, s =>
    (trafficClock input s).toList ++
      match (loopBody outputInfo input s).control.state with
      | none => []
      | some s' => trafficClocks inputs s'

def Undisturbed : Select → Prop
  | .interrupted => False
  | .failed => True
  | .ready _ sock tun => (∀ ev, sock = some ev → ev.fopen = true) ∧ ∀ ev, tun = some ev → ev.fopen = true

/-- How long the server can do without traffic, in microseconds. -/
def idleLimit : ℤ := 2 ^ 32 - 2000000

/-- At the clock reading `now`, with the last traffic at `last`. -/
structure Alive (last now : ℤ) (st : Tstat) : Prop where
  period : Period now st
  recent : last < st.tsLast + 2000000

structure Within (clock base : ℤ) (called : Prop) (st : Tstat) : Prop where
  stamp : st.tsCurrent = clock
  base : base ≤ st.tsLast
  last : st.tsLast ≤ clock
  recent : called → clock < st.tsLast + 2000000

variable {last now clock base : ℤ}

theorem carries_talk {talk : List Effect} (h : Talk talk) : talk.any carries = false := by
  rw [List.any_eq_false]
  intro e he
  rcases h e he with ⟨p, rfl⟩ | ⟨n, rfl⟩
  · exact Bool.false_ne_true
  · exact Bool.false_ne_true

theorem carries_sock (sock : Option SockReady) (s : LoopState) :
    (ifSet sock (sockBranch outputInfo) s).effects.any carries = true ↔
      ∃ fopen g ev, sock = some ev ∧ SockCalls s ev fopen g := by
  cases sock with
  | none => simp [ifSet]
  | some ev =>
    have heffects := sockBranch_effects outputInfo ev s
    change (sockBranch outputInfo ev s).effects.any carries = true ↔ _
    generalize (sockBranch outputInfo ev s).effects = es at heffects
    have hcall : ∀ {d uid node}, ev.recv = some d → Accepts s d uid node →
        ∃ fopen g ev', some ev = some ev' ∧ SockCalls s ev' fopen g :=
      fun hrecv ha => ⟨_, _, ev, rfl, .accepted hrecv ha⟩
    cases heffects with
    | failed hrecv =>
      refine ⟨fun h => by simp at h, ?_⟩
      rintro ⟨_, _, _, ⟨⟩, ⟨hrecv', -⟩⟩
      cases hrecv.symm.trans hrecv'
    | refused hrecv hrefused htalk =>
      refine ⟨fun h => by simp [carries_talk htalk, carries] at h, ?_⟩
      rintro ⟨_, _, _, ⟨⟩, ⟨hrecv', ha⟩⟩
      obtain rfl := Option.some.inj (hrecv.symm.trans hrecv')
      exact absurd ha (hrefused _ _)
    | died hrecv ha => exact ⟨fun _ => hcall hrecv ha, fun _ => by simp [carries]⟩
    | accepted hrecv ha => exact ⟨fun _ => hcall hrecv ha, fun _ => by simp [carries]⟩

theorem carries_tun (tun : Option TunReady) (s : LoopState) :
    (ifSet tun (tunBranch outputInfo) s).effects.any carries = true ↔
      ∃ fopen g ev, tun = some ev ∧ TunCalls s ev fopen g := by
  cases tun with
  | none => simp [ifSet]
  | some ev =>
    have heffects := (tunBranch_cases outputInfo ev s).1
    change (tunBranch outputInfo ev s).effects.any carries = true ↔ _
    generalize (tunBranch outputInfo ev s).effects = es at heffects
    cases heffects with
    | idle hidle =>
      refine ⟨fun h => by simp at h, ?_⟩
      rintro ⟨_, _, _, ⟨⟩, ⟨hpacket, hp, -⟩⟩
      exact absurd (hidle _ hpacket) hp
    | unknown hpacket hp hclient htalk =>
      refine ⟨fun h => by simp [carries_talk htalk, carries] at h, ?_⟩
      rintro ⟨_, _, _, ⟨⟩, ⟨hpacket', -, hclient', -⟩⟩
      obtain rfl := Option.some.inj (hpacket.symm.trans hpacket')
      cases hclient.symm.trans hclient'
    | @attempt p node talk hpacket hp hclient htalk =>
      rw [List.any_append, carries_talk htalk, Bool.or_false]
      have hret : (sendAttempt ev s p node).any carries = decide (0 < ev.sendRet) := by
        simp [sendAttempt, carries]
      rw [hret, decide_eq_true_eq]
      constructor
      · exact fun hpos => ⟨_, _, ev, rfl, .sent hpacket hp hclient hpos⟩
      · rintro ⟨_, _, _, ⟨⟩, ⟨-, -, -, hpos⟩⟩
        exact hpos

theorem carries_iff_calls (input : Select) (s : LoopState) :
    (loopBody outputInfo input s).effects.any carries = true ↔ ∃ fopen g, Calls s input fopen g := by
  cases input with
  | interrupted => exact ⟨fun h => by simp [loopBody] at h, fun ⟨_, _, h⟩ => nomatch h⟩
  | failed => exact ⟨fun h => by simp [loopBody] at h, fun ⟨_, _, h⟩ => nomatch h⟩
  | ready clock sock tun =>
    have hsock := carries_sock sock (tick s clock)
    simp only [calls_ready]
    rcases pass_split clock sock tun s with ⟨hnone, heq⟩ | ⟨s₁, hstate, -, heq⟩
    · rw [heq, hsock]
      simp only [hnone, reduceCtorEq, false_and, exists_false, or_false]
    · rw [heq, List.any_append, Bool.or_eq_true, hsock, carries_tun tun s₁]
      simp only [hstate, Option.some.injEq, exists_eq_left', exists_or]

theorem within_half {calls : Bool → Globals → Prop} {g g' : Globals} {es : List Effect}
    {r : Option Globals} {called : Prop} (h : Within clock base called g.stat)
    (hhalf : Half calls g es r) (hr : r = some g')
    (hcalls : ∀ fopen g₁, calls fopen g₁ →
      g₁.stat.tsLast = g.stat.tsLast ∧ g₁.stat.tsCurrent = g.stat.tsCurrent) :
    Within clock base (called ∨ ∃ fopen g₁, calls fopen g₁) g'.stat := by
  obtain ⟨hstamp, hbase, hlast, hrecent⟩ := h
  cases hhalf with
  | quiet hnone =>
    cases hr
    refine ⟨hstamp, hbase, hlast, ?_⟩
    rintro (hcalled | ⟨fopen, g₁, hcall⟩)
    · exact hrecent hcalled
    · exact absurd hcall (hnone fopen g₁)
  | report hcall =>
    obtain ⟨hlast₁, hstamp₁⟩ := hcalls _ _ hcall
    rcases outputInfo_stat hr with ⟨hunder, rfl⟩ | ⟨-, hstat⟩
    · have hidle := (of_decide_eq_true hunder).2.2
      unfold timTh at hidle
      exact ⟨by omega, by omega, by omega, fun _ => by omega⟩
    · rw [hstat]
      have hkept : (startPeriod (computed _)).tsCurrent = _ := hstamp₁
      have hnow : (startPeriod (computed _)).tsLast = _ := hstamp₁
      exact ⟨by omega, by omega, by omega, fun _ => by omega⟩

theorem within_pass {sock : Option SockReady} {tun : Option TunReady} {s s' : LoopState}
    (h : s.globals.stat.tsLast ≤ clock)
    (hstate : (loopBody outputInfo (.ready clock sock tun) s).control.state = some s') :
    Within clock s.globals.stat.tsLast (∃ fopen g, Calls s (.ready clock sock tun) fopen g)
      s'.globals.stat := by
  have hstart : Within clock s.globals.stat.tsLast False (tick s clock).globals.stat :=
    ⟨rfl, Int.le_refl _, h, False.elim⟩
  have hsock : ∀ s₁, (ifSet sock (sockBranch outputInfo) (tick s clock)).control.state = some s₁ →
      Within clock s.globals.stat.tsLast
        (∃ fopen g, ∃ ev, sock = some ev ∧ SockCalls (tick s clock) ev fopen g) s₁.globals.stat := by
    intro s₁ hnext
    have hhalf := within_half hstart (sock_half clock sock s)
      (congrArg (Option.map LoopState.globals) hnext) (by
        rintro fopen g ⟨ev, -, hcall⟩
        exact stamps_sockCall hcall)
    rwa [false_or] at hhalf
  simp only [calls_ready]
  rcases pass_split clock sock tun s with ⟨hnone, heq⟩ | ⟨s₁, hread, hnext, heq⟩
  · rw [heq] at hstate
    simpa only [hnone, reduceCtorEq, false_and, exists_false, or_false] using hsock s' hstate
  · rw [heq] at hstate
    have hhalf := within_half (hsock s₁ hnext) (tun_half tun s₁)
      (congrArg (Option.map LoopState.globals) hstate) (by
        rintro fopen g ⟨ev, -, hcall⟩
        cases hcall
        exact ⟨rfl, rfl⟩)
    simpa only [hread, Option.some.injEq, exists_eq_left', exists_or] using hhalf

theorem Half.survives {calls : Bool → Globals → Prop} {g : Globals} {es : List Effect}
    {o : Outcome} (h : Half calls g es (globalsAfter o))
    (hcalls : ∀ fopen g₁, calls fopen g₁ → ¬ ReportFaults fopen g₁) :
    ∃ s', o.control.state = some s' := by
  have hsome : ∃ g', globalsAfter o = some g' := by
    generalize globalsAfter o = r at h
    cases h with
    | quiet => exact ⟨g, rfl⟩
    | @report fopen g₁ hcall =>
      rw [← Option.isSome_iff_exists, Option.isSome_iff_ne_none, Ne, outputInfo_eq_none]
      exact hcalls fopen g₁ hcall
  obtain ⟨g', hg'⟩ := hsome
  obtain ⟨s', hs', -⟩ := Option.map_eq_some_iff.1 hg'
  exact ⟨s', hs'⟩

theorem pass_survives {sock : Option SockReady} {tun : Option TunReady} {s : LoopState}
    (h : ∀ fopen g, Calls s (.ready clock sock tun) fopen g → ¬ ReportFaults fopen g) :
    ∃ s', (loopBody outputInfo (.ready clock sock tun) s).control.state = some s' := by
  simp only [calls_ready] at h
  rcases pass_split clock sock tun s with ⟨-, heq⟩ | ⟨s₁, hread, -, heq⟩
  · rw [heq]
    exact Half.survives (sock_half clock sock s) fun fopen g hcall => h fopen g (.inl hcall)
  · rw [heq]
    exact Half.survives (tun_half tun s₁) fun fopen g hcall => h fopen g (.inr ⟨s₁, hread, hcall⟩)

theorem toInt_ne_zero {x : ℤ} (hpos : 0 < x) (hlt : x < 2 ^ 32) : toInt x ≠ 0 := by
  unfold toInt
  rw [Int.bmod_def]
  split <;> omega

theorem tsLast_call {sock : Option SockReady} {tun : Option TunReady} {s : LoopState} {fopen : Bool}
    {g : Globals} (h : s.globals.stat.tsLast ≤ clock) (hcall : Calls s (.ready clock sock tun) fopen g) :
    g.stat.tsCurrent = clock ∧ s.globals.stat.tsLast ≤ g.stat.tsLast := by
  cases hcall with
  | sock hcall =>
    obtain ⟨hlast, hstamp⟩ := stamps_sockCall hcall
    exact ⟨hstamp, hlast ▸ Int.le_refl _⟩
  | @tun _ _ _ s₁ _ _ hread hcall =>
    have hstart : Within clock s.globals.stat.tsLast False (tick s clock).globals.stat :=
      ⟨rfl, Int.le_refl _, h, False.elim⟩
    have hmid := within_half hstart (sock_half clock sock s)
      (congrArg (Option.map LoopState.globals) (state_of_stateAtRead hread)) (by
        rintro fopen g ⟨ev, -, hcall⟩
        exact stamps_sockCall hcall)
    cases hcall
    exact ⟨hmid.stamp, hmid.base⟩

theorem opens_call {input : Select} {s : LoopState} {fopen : Bool} {g : Globals}
    (h : Undisturbed input) (hcall : Calls s input fopen g) : fopen = true := by
  cases hcall with
  | sock hcall =>
    cases hcall
    exact h.1 _ rfl
  | tun _ hcall =>
    cases hcall
    exact h.2 _ rfl

theorem no_fault {sock : Option SockReady} {tun : Option TunReady} {s : LoopState} {fopen : Bool}
    {g : Globals} (h : Alive last now s.globals.stat) (hclock : now < clock)
    (hgap : clock < last + idleLimit) (hopens : Undisturbed (.ready clock sock tun))
    (hsends : SendsWithin (.ready clock sock tun)) (hcall : Calls s (.ready clock sock tun) fopen g) :
    ¬ ReportFaults fopen g := by
  rintro ⟨hdue, hzero | ⟨-, -, -, hclosed⟩⟩
  · have hclocks : ClocksIncrease now [.ready clock sock tun] := by
      simpa [ClocksIncrease, clockOf] using hclock
    have hpos := (reportable_call h.period hclocks hsends hcall hdue).elapsed
    have hlast := h.period.last
    have hrecent := h.recent
    obtain ⟨hstamp, hbase⟩ := tsLast_call (by omega) hcall
    unfold idleLimit at hgap
    exact toInt_ne_zero hpos (by omega) hzero
  · rw [opens_call hopens hcall] at hclosed
    cases hclosed

theorem trafficClock_calls {clock : ℤ} {sock : Option SockReady} {tun : Option TunReady}
    {s : LoopState} (h : ∃ fopen g, Calls s (.ready clock sock tun) fopen g) :
    trafficClock (.ready clock sock tun) s = some clock := by
  rw [trafficClock, if_pos ((carries_iff_calls _ s).2 h)]
  rfl

theorem trafficClock_idle {input : Select} {s : LoopState}
    (h : ¬ ∃ fopen g, Calls s input fopen g) : trafficClock input s = none := by
  rw [trafficClock, if_neg (mt (carries_iff_calls input s).1 h)]

theorem alive_pass {sock : Option SockReady} {tun : Option TunReady} {s : LoopState}
    (h : Alive last now s.globals.stat) (hclock : now < clock)
    (hopens : Undisturbed (.ready clock sock tun)) (hsends : SendsWithin (.ready clock sock tun))
    (hgap : trafficClock (.ready clock sock tun) s = some clock → clock < last + idleLimit) :
    ∃ s', (loopBody outputInfo (.ready clock sock tun) s).control.state = some s' ∧
      Alive ((trafficClock (.ready clock sock tun) s).getD last) clock s'.globals.stat := by
  have hlast := h.period.last
  by_cases hcalls : ∃ fopen g, Calls s (.ready clock sock tun) fopen g
  · have htime := trafficClock_calls hcalls
    obtain ⟨s', hstate⟩ := pass_survives fun fopen g hcall =>
      no_fault h hclock (hgap htime) hopens hsends hcall
    have hwithin := within_pass (by omega) hstate
    rw [htime]
    exact ⟨s', hstate, period_pass h.period hclock hstate, hwithin.recent hcalls⟩
  · obtain ⟨s', hstate⟩ := pass_survives fun fopen g hcall => absurd ⟨fopen, g, hcall⟩ hcalls
    have hwithin := within_pass (by omega) hstate
    have hrecent := h.recent
    have hbase := hwithin.base
    rw [trafficClock_idle hcalls, Option.getD_none]
    exact ⟨s', hstate, period_pass h.period hclock hstate, by omega⟩

theorem alive_run {inputs : List Select} {s₀ : LoopState} (h : Alive last now s₀.globals.stat)
    (hclocks : ClocksIncrease now inputs)
    (hopens : ∀ input ∈ inputs, Undisturbed input) (hsends : ∀ input ∈ inputs, SendsWithin input)
    (htraffic : (last :: trafficClocks inputs s₀).IsChain fun a b => b < a + idleLimit) :
    ∃ s, (svpnServerHandleThread outputInfo inputs s₀).2 = some s := by
  induction inputs generalizing last now s₀ with
  | nil => exact ⟨s₀, rfl⟩
  | cons input inputs ih =>
    have hopensRest := fun i hi => hopens i (List.mem_cons_of_mem input hi)
    have hsendsRest := fun i hi => hsends i (List.mem_cons_of_mem input hi)
    have hopen := hopens input List.mem_cons_self
    have hsend := hsends input List.mem_cons_self
    cases input with
    | interrupted => exact hopen.elim
    | failed =>
      have hstate : (loopBody outputInfo .failed s₀).control.state = some s₀ := rfl
      rw [handleThread_next hstate]
      exact ih h hclocks hopensRest hsendsRest htraffic
    | ready clock sock tun =>
      obtain ⟨hfirst, hrest⟩ := List.pairwise_cons.1 hclocks
      have hclock : now < clock := hfirst clock List.mem_cons_self
      rw [trafficClocks] at htraffic
      have hgap : trafficClock (.ready clock sock tun) s₀ = some clock →
          clock < last + idleLimit := by
        intro htime
        rw [htime, Option.toList_some, List.singleton_append, List.isChain_cons_cons] at htraffic
        exact htraffic.1
      obtain ⟨s', hstate, halive⟩ := alive_pass h hclock hopen hsend hgap
      rw [hstate] at htraffic
      rw [handleThread_next hstate]
      refine ih halive hrest hopensRest hsendsRest ?_
      cases htime : trafficClock (.ready clock sock tun) s₀ with
      | none =>
        rw [htime, Option.toList_none, List.nil_append] at htraffic
        exact htraffic
      | some time =>
        rw [htime, Option.toList_some, List.singleton_append, List.isChain_cons_cons] at htraffic
        exact htraffic.2

/-- A server that is not interrupted goes on for as long as its traffic never pauses for
`idleLimit`, if its log can be opened and its clock runs forward. -/
theorem server_survives (psc : SvpnServer) (buffer tmpBuffer : Cells UInt8) (start : ℤ)
    (inputs : List Select) (hclocks : ClocksIncrease start inputs)
    (hopens : ∀ input ∈ inputs, Undisturbed input) (hsends : ∀ input ∈ inputs, SendsWithin input)
    (htraffic : (start :: trafficClocks inputs (loopStart psc buffer tmpBuffer start)).IsChain
      fun a b => b < a + idleLimit) :
    ∃ s, (svpnServerHandleThread outputInfo inputs (loopStart psc buffer tmpBuffer start)).2 =
      some s := by
  have hrecent : start < start + 2000000 := by omega
  have halive : Alive start start (loopStart psc buffer tmpBuffer start).globals.stat :=
    ⟨⟨Int.le_refl 0, Int.le_refl 0, Int.le_refl start⟩, hrecent⟩
  exact alive_run halive hclocks hopens hsends htraffic

/-- The first datagram comes half an hour after the start. -/
theorem server_survives_sample : ∃ s, (svpnServerHandleThread outputInfo [sampleAt 1800000000]
    (loopStart sampleServer (fun _ => 0) (fun _ => 0) 0)).2 = some s := by
  refine server_survives sampleServer (fun _ => 0) (fun _ => 0) 0 [sampleAt 1800000000]
    (by simp [ClocksIncrease, sampleAt, clockOf]) (by simp [sampleAt, Undisturbed]) ?_ ?_
  · intro input hinput
    cases List.mem_singleton.1 hinput
    exact trivial
  · have hclocks : trafficClocks [sampleAt 1800000000]
        (loopStart sampleServer (fun _ => 0) (fun _ => 0) 0) = [1800000000] := by
      have htraffic : trafficClock (sampleAt 1800000000) sampleStart = some 1800000000 :=
        trafficClock_calls ⟨_, _, calls_sample 1800000000⟩
      rw [trafficClocks, ← sampleStart, htraffic]
      split <;> rfl
    rw [hclocks, List.isChain_cons_cons]
    exact ⟨by decide, .singleton _⟩

end SVpn.Survival
