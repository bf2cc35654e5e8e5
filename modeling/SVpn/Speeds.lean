import SVpn.Reports

set_option autoImplicit false

/-!
The speeds of a report. With clock readings that increase the elapsed time of a report is
positive, but it is narrowed to an `int` before it divides.
-/
namespace SVpn.Speeds
open SVpn.Region SVpn.Crypt SVpn.OutputInfo SVpn.ServerLoop SVpn.ServerSteps SVpn.ServerRuns
open SVpn.ServerCauses SVpn.SourceCheck SVpn.Reports

def clockOf : Select → Option ℤ
  | .ready clock _ _ => some clock
  | _ => none

def ClocksIncrease (start : ℤ) (inputs : List Select) : Prop :=
  (start :: inputs.filterMap clockOf).Pairwise (· < ·)

/-- `sendto` does not report more bytes than it was given. -/
def SendsWithin : Select → Prop
  | .ready _ _ (some ev) => ∀ p, ev.packet = some p → ev.sendRet ≤ (received p).length
  | _ => True

/-- The value a speed has when nothing is narrowed. -/
def floorSpeed (bytes elapsed : ℤ) : ℤ := bytes * 1000000 / elapsed

/-- The speed is the floor wherever that is an `int`, and negative only where it is not one. -/
structure SpeedSound (speed bytes elapsed : ℤ) : Prop where
  exact : floorSpeed bytes elapsed < 2 ^ 31 → 0 ≤ speed ∧ speed = floorSpeed bytes elapsed
  nonneg : 0 ≤ speed ↔ floorSpeed bytes elapsed % 2 ^ 32 < 2 ^ 31

theorem toInt_eq_iff {x : ℤ} (h : 0 ≤ x) : toInt x = x ↔ x < 2 ^ 31 := by
  unfold toInt
  rw [Int.bmod_def]
  split <;> omega

theorem toInt_nonneg_iff (x : ℤ) : 0 ≤ toInt x ↔ x % 2 ^ 32 < 2 ^ 31 := by
  unfold toInt
  rw [Int.bmod_def]
  split <;> omega

theorem speedSound_speedOf {bytes elapsed : ℤ} (hbytes : 0 ≤ bytes) (hpos : 0 < elapsed)
    (hshort : elapsed < 2 ^ 31) : SpeedSound (speedOf bytes elapsed) bytes elapsed := by
  have hfloor : (bytes * 1000000).tdiv (toInt elapsed) = floorSpeed bytes elapsed := by
    rw [(toInt_eq_iff (Int.le_of_lt hpos)).2 hshort]
    exact Int.tdiv_eq_ediv_of_nonneg (by omega)
  have hnonneg : 0 ≤ floorSpeed bytes elapsed := Int.ediv_nonneg (by omega) (Int.le_of_lt hpos)
  unfold speedOf
  rw [hfloor]
  constructor
  · intro hfits
    rw [(toInt_eq_iff hnonneg).2 hfits]
    exact ⟨hnonneg, rfl⟩
  · exact toInt_nonneg_iff _

structure Period (now : ℤ) (st : Tstat) : Prop where
  send : st.lastSend ≤ st.totalSend
  recv : st.lastRecv ≤ st.totalRecv
  last : st.tsLast ≤ now

structure Fresh (st : Tstat) : Prop where
  period : Period st.tsCurrent st
  idle : st.tsLast < st.tsCurrent ∨ (st.lastSend = st.totalSend ∧ st.lastRecv = st.totalRecv)

structure Reportable (st : Tstat) : Prop where
  send : 0 ≤ st.totalSend - st.lastSend
  recv : 0 ≤ st.totalRecv - st.lastRecv
  elapsed : 0 < st.tsCurrent - st.tsLast

theorem period_report {fopen : Bool} {g g' : Globals} (h : Period g.stat.tsCurrent g.stat)
    (hreport : (outputInfo fopen g).2 = some g') : Period g'.stat.tsCurrent g'.stat := by
  rcases outputInfo_stat hreport with ⟨-, rfl⟩ | ⟨-, hstat⟩
  · exact h
  · rw [hstat]
    exact ⟨Int.le_refl _, Int.le_refl _, Int.le_refl _⟩

theorem clock_report {fopen : Bool} {g g' : Globals} (hreport : (outputInfo fopen g).2 = some g') :
    g'.stat.tsCurrent = g.stat.tsCurrent := by
  rcases outputInfo_stat hreport with ⟨-, rfl⟩ | ⟨-, hstat⟩
  · rfl
  · rw [hstat]
    rfl

theorem period_tick {now clock : ℤ} {s : LoopState} (h : Period now s.globals.stat) (hclock : now < clock) :
    Period clock (tick s clock).globals.stat ∧ (tick s clock).globals.stat.tsLast < clock := by
  have hlast : (tick s clock).globals.stat.tsLast ≤ now := h.last
  exact ⟨⟨h.send, h.recv, by omega⟩, by omega⟩

theorem period_sockCall {s : LoopState} {ev : SockReady} {fopen : Bool} {g : Globals} {now : ℤ}
    (h : Period now s.globals.stat) (hcall : SockCalls s ev fopen g) : Period now g.stat := by
  cases hcall with
  | @accepted d uid node hrecv ha =>
    have hsend := h.send
    refine ⟨?_, h.recv, h.last⟩
    change s.globals.stat.lastSend ≤ s.globals.stat.totalSend + ((received d.data).length : ℤ)
    omega

theorem stamps_sockCall {s : LoopState} {ev : SockReady} {fopen : Bool} {g : Globals}
    (hcall : SockCalls s ev fopen g) :
    g.stat.tsLast = s.globals.stat.tsLast ∧ g.stat.tsCurrent = s.globals.stat.tsCurrent := by
  cases hcall
  exact ⟨rfl, rfl⟩

theorem fresh_sock {clock : ℤ} {sock : Option SockReady} {s s₁ : LoopState} {now : ℤ}
    (h : Period now s.globals.stat) (hclock : now < clock)
    (hnext : (ifSet sock (sockBranch outputInfo) (tick s clock)).control.state = some s₁) :
    Fresh s₁.globals.stat ∧ s₁.globals.stat.tsCurrent = clock := by
  obtain ⟨hperiod, hlt⟩ := period_tick h hclock
  have hglobals : globalsAfter (ifSet sock (sockBranch outputInfo) (tick s clock)) = some s₁.globals :=
    congrArg (Option.map LoopState.globals) hnext
  rcases (sock_half clock sock s).after hglobals with hquiet | ⟨fopen, g, ⟨ev, -, hcall⟩, hreport⟩
  · rw [hquiet]
    exact ⟨⟨hperiod, .inl hlt⟩, rfl⟩
  · obtain ⟨hlast, hcurrent⟩ := stamps_sockCall hcall
    have hg := period_sockCall hperiod hcall
    change g.stat.tsCurrent = clock at hcurrent
    rw [← hcurrent] at hg
    refine ⟨⟨period_report hg hreport, ?_⟩, (clock_report hreport).trans hcurrent⟩
    rcases outputInfo_stat hreport with ⟨-, heq⟩ | ⟨-, hstat⟩
    · rw [heq, hlast, hcurrent]
      exact .inl hlt
    · rw [hstat]
      exact .inr ⟨rfl, rfl⟩

theorem period_tunCall {s : LoopState} {ev : TunReady} {fopen : Bool} {g : Globals} {now : ℤ}
    (h : Period now s.globals.stat) (hcall : TunCalls s ev fopen g) : Period now g.stat := by
  cases hcall with
  | sent hpacket hp hclient hret =>
    have hrecv := h.recv
    refine ⟨h.send, ?_, h.last⟩
    change s.globals.stat.lastRecv ≤ s.globals.stat.totalRecv + ev.sendRet
    omega

/-- A second report in one pass is not due: one packet is below the threshold. -/
theorem elapsed_tunCall {s : LoopState} {ev : TunReady} {fopen : Bool} {g : Globals}
    (h : Fresh s.globals.stat) (hcall : TunCalls s ev fopen g)
    (hsend : ∀ p, ev.packet = some p → ev.sendRet ≤ (received p).length)
    (hdue : underThresholds g.stat = false) : 0 < g.stat.tsCurrent - g.stat.tsLast := by
  cases hcall with
  | @sent p node hpacket hp hclient hret =>
    have hle := length_received_le p
    have hshort := hsend p hpacket
    have hlast := h.period.last
    change 0 < s.globals.stat.tsCurrent - s.globals.stat.tsLast
    rcases h.idle with hlt | ⟨hsendEq, hrecvEq⟩
    · omega
    · by_contra hstill
      have hunder : underThresholds (countRecv s.globals ev.sendRet).stat = true := by
        apply decide_eq_true
        change s.globals.stat.totalSend - s.globals.stat.lastSend < 1024 * 1024 ∧
          s.globals.stat.totalRecv + ev.sendRet - s.globals.stat.lastRecv < 1024 * 1024 ∧
          s.globals.stat.tsCurrent - s.globals.stat.tsLast < 1000000 * 2
        unfold bufferLen at hle
        omega
      exact Bool.noConfusion (hdue.symm.trans hunder)

theorem period_pass {now clock : ℤ} {sock : Option SockReady} {tun : Option TunReady}
    {s s' : LoopState} (h : Period now s.globals.stat) (hclock : now < clock)
    (hstate : (loopBody outputInfo (.ready clock sock tun) s).control.state = some s') :
    Period clock s'.globals.stat := by
  rcases pass_split clock sock tun s with ⟨-, heq⟩ | ⟨s₁, -, hnext, heq⟩
  · rw [heq] at hstate
    obtain ⟨hfresh, hcurrent⟩ := fresh_sock h hclock hstate
    exact hcurrent ▸ hfresh.period
  · rw [heq] at hstate
    obtain ⟨hfresh, hcurrent⟩ := fresh_sock h hclock hnext
    have hglobals : globalsAfter (ifSet tun (tunBranch outputInfo) s₁) = some s'.globals :=
      congrArg (Option.map LoopState.globals) hstate
    rcases (tun_half tun s₁).after hglobals with hquiet | ⟨fopen, g, ⟨ev, -, hcall⟩, hreport⟩
    · rw [hquiet, ← hcurrent]
      exact hfresh.period
    · have hg := period_tunCall hfresh.period hcall
      have hstamp : g.stat.tsCurrent = clock := by
        cases hcall
        exact hcurrent
      rw [hcurrent, ← hstamp] at hg
      have hperiod := period_report hg hreport
      rw [clock_report hreport, hstamp] at hperiod
      exact hperiod

theorem period_run {now : ℤ} {inputs rest : List Select} {s₀ s : LoopState}
    (h : Period now s₀.globals.stat) (hclocks : ClocksIncrease now (inputs ++ rest))
    (hrun : (svpnServerHandleThread outputInfo inputs s₀).2 = some s) :
    ∃ now', Period now' s.globals.stat ∧ ClocksIncrease now' rest := by
  induction inputs generalizing now s₀ with
  | nil =>
    cases hrun
    exact ⟨now, h, hclocks⟩
  | cons input inputs ih =>
    cases hstate : (loopBody outputInfo input s₀).control.state with
    | none =>
      rw [handleThread_stop hstate] at hrun
      cases hrun
    | some s₁ =>
      rw [handleThread_next hstate] at hrun
      cases input with
      | interrupted => cases hstate
      | failed =>
        cases hstate
        exact ih h hclocks hrun
      | ready clock sock tun =>
        obtain ⟨hfirst, hrest⟩ := List.pairwise_cons.1 hclocks
        exact ih (period_pass h (hfirst clock List.mem_cons_self) hstate) hrest hrun

theorem reportable_call {now : ℤ} {input : Select} {s : LoopState} {fopen : Bool} {g : Globals}
    (h : Period now s.globals.stat) (hclocks : ClocksIncrease now [input]) (hsend : SendsWithin input)
    (hcall : Calls s input fopen g) (hdue : underThresholds g.stat = false) : Reportable g.stat := by
  have hlater : ∀ {clock sock tun}, input = .ready clock sock tun → now < clock := by
    rintro clock sock tun rfl
    exact (List.pairwise_cons.1 hclocks).1 clock List.mem_cons_self
  cases hcall with
  | sock hcall =>
    obtain ⟨hperiod, hlt⟩ := period_tick h (hlater rfl)
    obtain ⟨hlast, hcurrent⟩ := stamps_sockCall hcall
    have hg := period_sockCall hperiod hcall
    have hstamp : g.stat.tsLast < g.stat.tsCurrent := by rw [hlast, hcurrent]; exact hlt
    exact ⟨by have := hg.send; omega, by have := hg.recv; omega, by omega⟩
  | @tun clock sock ev s₁ _ _ hstate hcall =>
    obtain ⟨hfresh, -⟩ := fresh_sock h (hlater rfl) (state_of_stateAtRead hstate)
    have hg := period_tunCall hfresh.period hcall
    exact ⟨by have := hg.send; omega, by have := hg.recv; omega,
      elapsed_tunCall hfresh hcall hsend hdue⟩

/-- Every report that is due has a positive elapsed time, and divides by just that and
shows sound speeds if the elapsed time is an `int`. -/
theorem speeds_sound (psc : SvpnServer) (buffer tmpBuffer : Cells UInt8) (clock : ℤ)
    (inputs : List Select) (input : Select) (s : LoopState)
    (hclocks : ClocksIncrease clock (inputs ++ [input]))
    (hsend : SendsWithin input)
    (hrun : (svpnServerHandleThread outputInfo inputs (loopStart psc buffer tmpBuffer clock)).2 = some s)
    (fopen : Bool) (g : Globals) (hcall : Calls s input fopen g)
    (hdue : underThresholds g.stat = false) :
    let st := g.stat
    let elapsed := st.tsCurrent - st.tsLast
    0 < elapsed ∧ (toInt elapsed = elapsed ↔ elapsed < 2 ^ 31) ∧
      (elapsed < 2 ^ 31 → 0 < toInt elapsed ∧
        SpeedSound (computed g).speedSend (st.totalSend - st.lastSend) elapsed ∧
        SpeedSound (computed g).speedRecv (st.totalRecv - st.lastRecv) elapsed) := by
  have hstart : Period clock (loopStart psc buffer tmpBuffer clock).globals.stat :=
    ⟨Int.le_refl 0, Int.le_refl 0, Int.le_refl clock⟩
  obtain ⟨now, hperiod, hrest⟩ := period_run hstart hclocks hrun
  obtain ⟨hbytesSend, hbytesRecv, hpos⟩ := reportable_call hperiod hrest hsend hcall hdue
  have hnarrow := toInt_eq_iff (Int.le_of_lt hpos)
  refine ⟨hpos, hnarrow, fun hshort => ⟨?_, ?_, ?_⟩⟩
  · rw [hnarrow.2 hshort]
    exact hpos
  · exact speedSound_speedOf hbytesSend hpos hshort
  · exact speedSound_speedOf hbytesRecv hpos hshort

theorem speeds_sound_sample :
    SpeedSound (computed (sampleCall 2000000)).speedSend 20 2000000 :=
  ((speeds_sound sampleServer (fun _ => 0) (fun _ => 0) 0 [] (sampleAt 2000000) sampleStart
    (by simp [ClocksIncrease, sampleAt, clockOf]) trivial rfl true _ (calls_sample 2000000)
    (by decide)).2.2 (by decide)).2.1

/-- 2 ^ 32 microseconds without an accepted packet make the divisor zero, which ends the process. -/
theorem divisor_zero :
    ∃ g, ClocksIncrease 0 [sampleAt 4294967296] ∧ Calls sampleStart (sampleAt 4294967296) true g ∧
      underThresholds g.stat = false ∧ toInt (g.stat.tsCurrent - g.stat.tsLast) = 0 ∧
      (outputInfo true g).2 = none :=
  ⟨_, by simp [ClocksIncrease, sampleAt, clockOf], calls_sample 4294967296, by decide, by decide,
    (outputInfo_eq_none _ _).2 ⟨by decide, .inl (by decide)⟩⟩

end SVpn.Speeds
