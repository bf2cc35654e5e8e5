import SVpn.Speeds
import SVpn.TrafficAccounting

set_option autoImplicit false

/-!
How often the server reports. Every status line uses up a mebibyte of one direction or
two seconds, and what is used up is never used again.
-/
namespace SVpn.ReportPace
open SVpn.Region SVpn.Crypt SVpn.OutputInfo SVpn.ServerLoop SVpn.ServerSteps SVpn.ServerRuns
open SVpn.ServerCauses SVpn.SourceCheck SVpn.RoutingTable SVpn.Reports SVpn.TrafficAccounting
open SVpn.Speeds

def isStatus : Printed → Bool
  | .status _ => true
  | _ => false

def statusCount (ps : List Printed) : ℕ := ps.countP isStatus

/-- The number of status lines in a history. -/
def statuses (es : List Effect) : ℕ := statusCount (printedOf es)

/-- The clock readings of a run that has started at `start` never go back. -/
def ClocksMonotone (start : ℤ) (inputs : List Select) : Prop :=
  (start :: inputs.filterMap clockOf).Pairwise (· ≤ ·)

def lastClock (start : ℤ) (inputs : List Select) : ℤ := (inputs.filterMap clockOf).getLastD start

/-- At the clock reading `now` the `n` status lines since `start` are paid for. -/
structure Paced (start now : ℤ) (n : ℕ) (st : Tstat) : Prop where
  period : Period now st
  paid : (n : ℤ) ≤ st.lastSend / 1048576 + st.lastRecv / 1048576 + (st.tsLast - start) / 2000000

variable {start now clock : ℤ} {n : ℕ}

theorem statuses_append (es fs : List Effect) : statuses (es ++ fs) = statuses es + statuses fs := by
  unfold statuses statusCount
  rw [printedOf_append, List.countP_append]

theorem statusCount_logTraffic (fopen : Bool) (g : Globals) :
    statusCount (logTraffic fopen g).1 = 0 := by
  unfold logTraffic
  simp only
  split_ifs <;> rfl

theorem statusCount_quiet {fopen : Bool} {g : Globals} (h : underThresholds g.stat = true) :
    statusCount (outputInfo fopen g).1 = 0 := by
  unfold outputInfo
  rw [if_pos h]
  rfl

theorem statusCount_report (fopen : Bool) (g : Globals) : statusCount (outputInfo fopen g).1 ≤ 1 := by
  unfold outputInfo
  simp only
  split_ifs with hunder hzero
  · exact Nat.zero_le 1
  · exact Nat.zero_le 1
  · have hlog := statusCount_logTraffic fopen
      { g with
        stat := startPeriod (withSpeeds g.stat (toInt (g.stat.tsCurrent - g.stat.tsLast)))
        fmtstr := formatLine g.fmtstr (withSpeeds g.stat (toInt (g.stat.tsCurrent - g.stat.tsLast))) }
    unfold statusCount at hlog ⊢
    rw [List.countP_cons, hlog]
    rfl

/-- A report that is due finds a threshold reached. -/
theorem threshold_reached {st : Tstat} (h : underThresholds st = false) :
    st.lastSend + 1048576 ≤ st.totalSend ∨ st.lastRecv + 1048576 ≤ st.totalRecv ∨
      st.tsLast + 2000000 ≤ st.tsCurrent := by
  have hnot := of_decide_eq_false h
  unfold optTh timTh at hnot
  omega

theorem paced_report {fopen : Bool} {g g' : Globals} (h : Paced start g.stat.tsCurrent n g.stat)
    (hreport : (outputInfo fopen g).2 = some g') :
    Paced start g.stat.tsCurrent (n + statusCount (outputInfo fopen g).1) g'.stat := by
  obtain ⟨⟨hsend, hrecv, hlast⟩, hpaid⟩ := h
  rcases outputInfo_stat hreport with ⟨hunder, rfl⟩ | ⟨hdue, hstat⟩
  · rw [statusCount_quiet hunder]
    exact ⟨⟨hsend, hrecv, hlast⟩, hpaid⟩
  · have hone := statusCount_report fopen g
    have hreached := threshold_reached hdue
    rw [hstat]
    refine ⟨⟨Int.le_refl _, Int.le_refl _, Int.le_refl _⟩, ?_⟩
    change ((n + statusCount (outputInfo fopen g).1 : ℕ) : ℤ) ≤
      g.stat.totalSend / 1048576 + g.stat.totalRecv / 1048576 + (g.stat.tsCurrent - start) / 2000000
    omega

theorem paced_sockCall {s : LoopState} {ev : SockReady} {fopen : Bool} {g : Globals}
    (h : Paced start now n s.globals.stat) (hcall : SockCalls s ev fopen g) :
    Paced start now n g.stat := by
  refine ⟨period_sockCall h.period hcall, ?_⟩
  cases hcall
  exact h.paid

theorem paced_tunCall {s : LoopState} {ev : TunReady} {fopen : Bool} {g : Globals}
    (h : Paced start now n s.globals.stat) (hcall : TunCalls s ev fopen g) :
    Paced start now n g.stat := by
  refine ⟨period_tunCall h.period hcall, ?_⟩
  cases hcall
  exact h.paid

theorem paced_tick {s : LoopState} (h : Paced start now n s.globals.stat) (hclock : now ≤ clock) :
    Paced start clock n (tick s clock).globals.stat :=
  ⟨⟨h.period.send, h.period.recv, h.period.last.trans hclock⟩, h.paid⟩

/-- Half a pass pays for the status line that its call prints. -/
theorem paced_half {calls : Bool → Globals → Prop} {g g' : Globals} {es : List Effect}
    {r : Option Globals} (h : Paced start clock n g.stat) (hclock : g.stat.tsCurrent = clock)
    (hhalf : Half calls g es r) (hr : r = some g')
    (hcalls : ∀ fopen g₁, calls fopen g₁ → Paced start clock n g₁.stat ∧ g₁.stat.tsCurrent = clock) :
    Paced start clock (n + statuses es) g'.stat ∧ g'.stat.tsCurrent = clock := by
  unfold statuses
  cases hhalf with
  | quiet _ hprinted =>
    rw [hprinted, ← Option.some.inj hr]
    exact ⟨h, hclock⟩
  | report hcall _ hprinted =>
    obtain ⟨hpaced, hstamp⟩ := hcalls _ _ hcall
    rw [hprinted]
    rw [← hstamp] at hpaced
    have hafter := paced_report hpaced hr
    rw [hstamp] at hafter
    exact ⟨hafter, (clock_report hr).trans hstamp⟩

theorem paced_sock {sock : Option SockReady} {s s₁ : LoopState}
    (h : Paced start now n s.globals.stat) (hclock : now ≤ clock)
    (hnext : (ifSet sock (sockBranch outputInfo) (tick s clock)).control.state = some s₁) :
    Paced start clock (n + statuses (ifSet sock (sockBranch outputInfo) (tick s clock)).effects)
      s₁.globals.stat ∧ s₁.globals.stat.tsCurrent = clock := by
  refine paced_half (paced_tick h hclock) rfl (sock_half clock sock s)
    (congrArg (Option.map LoopState.globals) hnext) ?_
  rintro fopen g ⟨ev, -, hcall⟩
  exact ⟨paced_sockCall (paced_tick h hclock) hcall, (stamps_sockCall hcall).2⟩

theorem paced_tun {tun : Option TunReady} {s₁ s' : LoopState}
    (h : Paced start clock n s₁.globals.stat) (hclock : s₁.globals.stat.tsCurrent = clock)
    (hnext : (ifSet tun (tunBranch outputInfo) s₁).control.state = some s') :
    Paced start clock (n + statuses (ifSet tun (tunBranch outputInfo) s₁).effects) s'.globals.stat := by
  refine (paced_half h hclock (tun_half tun s₁) (congrArg (Option.map LoopState.globals) hnext) ?_).1
  rintro fopen g ⟨ev, -, hcall⟩
  refine ⟨paced_tunCall h hcall, ?_⟩
  cases hcall
  exact hclock

theorem paced_pass {sock : Option SockReady} {tun : Option TunReady} {s s' : LoopState}
    (h : Paced start now n s.globals.stat) (hclock : now ≤ clock)
    (hstate : (loopBody outputInfo (.ready clock sock tun) s).control.state = some s') :
    Paced start clock (n + statuses (loopBody outputInfo (.ready clock sock tun) s).effects)
      s'.globals.stat := by
  rcases pass_split clock sock tun s with ⟨-, heq⟩ | ⟨s₁, -, hnext, heq⟩
  · rw [heq] at hstate ⊢
    exact (paced_sock h hclock hstate).1
  · rw [heq] at hstate ⊢
    obtain ⟨hmid, hcurrent⟩ := paced_sock h hclock hnext
    rw [statuses_append, ← Nat.add_assoc]
    exact paced_tun hmid hcurrent hstate

theorem lastClock_cons (input : Select) (inputs : List Select) :
    lastClock start (input :: inputs) = lastClock ((clockOf input).getD start) inputs := by
  unfold lastClock
  cases hclock : clockOf input with
  | none => rw [List.filterMap_cons_none hclock]; rfl
  | some clock => rw [List.filterMap_cons_some hclock, List.getLastD_cons]; rfl

theorem paced_run {inputs : List Select} {s₀ s : LoopState}
    (h : Paced start now n s₀.globals.stat) (hclocks : ClocksMonotone now inputs)
    (hrun : (svpnServerHandleThread outputInfo inputs s₀).2 = some s) :
    Paced start (lastClock now inputs) (n + statuses (svpnServerHandleThread outputInfo inputs s₀).1)
      s.globals.stat := by
  induction inputs generalizing now n s₀ with
  | nil =>
    cases hrun
    exact h
  | cons input inputs ih =>
    cases hstate : (loopBody outputInfo input s₀).control.state with
    | none =>
      rw [handleThread_stop hstate] at hrun
      cases hrun
    | some s₁ =>
      rw [handleThread_next hstate] at hrun ⊢
      rw [lastClock_cons, statuses_append, ← Nat.add_assoc]
      cases input with
      | interrupted => cases hstate
      | failed =>
        cases hstate
        exact ih h hclocks hrun
      | ready clock sock tun =>
        obtain ⟨hfirst, hrest⟩ := List.pairwise_cons.1 hclocks
        exact ih (paced_pass h (hfirst clock List.mem_cons_self) hstate) hrest hrun

/-- A run that is still going has printed at most one status line for each mebibyte it has
accepted, for each mebibyte it has sent and for each two seconds it has taken. -/
theorem report_rate (psc : SvpnServer) (buffer tmpBuffer : Cells UInt8) (start : ℤ)
    (inputs : List Select) (s : LoopState) (hclocks : ClocksMonotone start inputs)
    (hrun : (svpnServerHandleThread outputInfo inputs (loopStart psc buffer tmpBuffer start)).2 = some s) :
    let es := (svpnServerHandleThread outputInfo inputs (loopStart psc buffer tmpBuffer start)).1
    (statuses es : ℤ) ≤ (acceptedBytes es : ℤ) / 1048576 + sentBytes es / 1048576 +
      (lastClock start inputs - start) / 2000000 := by
  have hstart : Paced start start 0 (loopStart psc buffer tmpBuffer start).globals.stat :=
    ⟨⟨Int.le_refl 0, Int.le_refl 0, Int.le_refl start⟩, by simp [loopStart, zeroStat]⟩
  obtain ⟨⟨hsend, hrecv, hlast⟩, hpaid⟩ := paced_run hstart hclocks hrun
  have hcounted : Counted _ _ s.globals := (counted_run hrun).1
  have hbytesSend := hcounted.1.trans (Int.zero_add _)
  have hbytesRecv := hcounted.2.trans (Int.zero_add _)
  intro es
  rw [hbytesSend] at hsend
  rw [hbytesRecv] at hrecv
  change _ ≤ (acceptedBytes es : ℤ) at hsend
  change _ ≤ sentBytes es at hrecv
  rw [Nat.zero_add] at hpaid
  change (statuses es : ℤ) ≤ _ at hpaid
  omega

/-- Two reports in four seconds: as many as the rate allows. -/
theorem report_rate_sample :
    let es := (svpnServerHandleThread outputInfo sampleReads sampleStart).1
    statuses es = 2 ∧ lastClock 0 sampleReads = 4000000 ∧
      (statuses es : ℤ) ≤ (acceptedBytes es : ℤ) / 1048576 + sentBytes es / 1048576 +
        (lastClock 0 sampleReads - 0) / 2000000 := by
  obtain ⟨s, hrun, -, hprinted⟩ := run_sampleReads
  intro es
  have hstatuses : statuses es = 2 := by
    change statusCount (printedOf (svpnServerHandleThread outputInfo sampleReads sampleStart).1) = 2
    rw [hprinted]
    decide
  exact ⟨hstatuses, rfl, report_rate sampleServer (fun _ => 0) (fun _ => 0) 0 sampleReads s
    (by simp [ClocksMonotone, sampleReads, sampleRead, clockOf]) hrun⟩

end SVpn.ReportPace
