import Mathlib.Algebra.Ring.Int.Defs
import SVpn.Reports

set_option autoImplicit false

/-!
The books of the server. The totals are the bytes of the calls made, and what is
logged is the growth of `tl_last` since it first became other than zero.
-/
namespace SVpn.TrafficAccounting
open SVpn.Region SVpn.Crypt SVpn.OutputInfo SVpn.ServerLoop SVpn.ServerSteps SVpn.ServerRuns
open SVpn.ServerCauses SVpn.SourceCheck SVpn.RoutingTable SVpn.Reports

/-- The length `recvfrom` has returned for a datagram that is accepted next. -/
def acceptedLength : Effect → Option Effect → ℕ
  | .recvfrom d, some (.accepted _ _) => (received d.data).length
  | _, _ => 0

def acceptedBytes : List Effect → ℕ
  | [] => 0
  | e :: es => acceptedLength e es.head? + acceptedBytes es

/-- A result of `sendto` that is positive. -/
def sentOf : Effect → Option ℤ
  | .sendto _ _ _ ret => if 0 < ret then some ret else none
  | _ => none

def sentBytes (es : List Effect) : ℤ := (es.filterMap sentOf).sum

def loggedOf : Printed → Option ℤ
  | .log _ amount => some amount
  | _ => none

/-- The amounts written to the log. -/
def loggedBytes (es : List Effect) : ℤ := ((printedOf es).filterMap loggedOf).sum

/-- The values of `tl_last` in a run, after every half of a pass. -/
def tlValues : List Select → LoopState → List ℤ
  | [], s => [s.globals.tlLast]
  | input :: inputs, s =>
    s.globals.tlLast :: (((stateAtRead outputInfo input s).map fun s₁ => s₁.globals.tlLast).toList ++
      match (loopBody outputInfo input s).control.state with
      | none => []
      | some s' => tlValues inputs s')

def firstNonzero (vs : List ℤ) : ℤ := (vs.find? (· ≠ 0)).getD 0

/-- What is already logged, what is reported, and what is counted. -/
structure InOrder (g : Globals) : Prop where
  nonneg : 0 ≤ g.tlLast
  logged : g.tlLast ≤ g.stat.lastRecv
  reported : g.stat.lastRecv ≤ g.stat.totalRecv
  sent : g.stat.lastSend ≤ g.stat.totalSend

/-- Less than a threshold has been counted since the last report. -/
structure BelowThreshold (st : Tstat) : Prop where
  send : 0 ≤ st.totalSend - st.lastSend ∧ st.totalSend - st.lastSend < 1048576
  recv : 0 ≤ st.totalRecv - st.lastRecv ∧ st.totalRecv - st.lastRecv < 1048576

theorem sentBytes_append (es fs : List Effect) : sentBytes (es ++ fs) = sentBytes es + sentBytes fs := by
  simp only [sentBytes, List.filterMap_append, List.sum_append]

@[simp] theorem sentBytes_nil : sentBytes [] = 0 := rfl

@[simp] theorem sentBytes_cons (e : Effect) (es : List Effect) :
    sentBytes (e :: es) = (sentOf e).getD 0 + sentBytes es := by
  cases h : sentOf e with
  | none => simp [sentBytes, h]
  | some ret => simp [sentBytes, h]

theorem loggedBytes_append (es fs : List Effect) :
    loggedBytes (es ++ fs) = loggedBytes es + loggedBytes fs := by
  simp only [loggedBytes, printedOf_append, List.filterMap_append, List.sum_append]

/-- Nothing at the start of the history is the acceptance of what came before. -/
def Detached (es : List Effect) : Prop := ∀ e, acceptedLength e es.head? = 0

theorem acceptedLength_none (e : Effect) : acceptedLength e none = 0 := by
  cases e <;> rfl

theorem acceptedBytes_append (es : List Effect) {fs : List Effect} (h : Detached fs) :
    acceptedBytes (es ++ fs) = acceptedBytes es + acceptedBytes fs := by
  induction es with
  | nil => rw [List.nil_append, acceptedBytes, Nat.zero_add]
  | cons e es ih =>
    have hhead : acceptedLength e (es ++ fs).head? = acceptedLength e es.head? := by
      cases es with
      | nil => rw [List.nil_append, h e, List.head?_nil, acceptedLength_none]
      | cons first es => rfl
    rw [List.cons_append, acceptedBytes, acceptedBytes, hhead, ih, Nat.add_assoc]

theorem acceptedBytes_eq_zero {es : List Effect} (h : ∀ d, .recvfrom d ∉ es) :
    acceptedBytes es = 0 := by
  induction es with
  | nil => rfl
  | cons e es ih =>
    have hrest := ih fun d hd => h d (List.mem_cons_of_mem e hd)
    have hfirst : acceptedLength e es.head? = 0 := by
      cases e with
      | recvfrom d => exact absurd List.mem_cons_self (h d)
      | _ => rfl
    rw [acceptedBytes, hfirst, hrest]

theorem recvfrom_not_mem_talk {talk : List Effect} (h : Talk talk) (d : Datagram) :
    .recvfrom d ∉ talk := by
  intro hmem
  rcases h _ hmem with ⟨p, hp⟩ | ⟨n, hn⟩
  · cases hp
  · cases hn

theorem sentBytes_talk {talk : List Effect} (h : Talk talk) : sentBytes talk = 0 := by
  induction talk with
  | nil => rfl
  | cons e talk ih =>
    have hrest := ih fun e' he' => h e' (List.mem_cons_of_mem e he')
    have hfirst : sentOf e = none := by
      rcases h e List.mem_cons_self with ⟨p, rfl⟩ | ⟨n, rfl⟩ <;> rfl
    rw [sentBytes_cons, hfirst, hrest]
    rfl

/-- The totals have grown by the bytes of the history. -/
def Counted (g : Globals) (es : List Effect) (g' : Globals) : Prop :=
  g'.stat.totalSend = g.stat.totalSend + acceptedBytes es ∧
    g'.stat.totalRecv = g.stat.totalRecv + sentBytes es

theorem Counted.append {g g₁ g' : Globals} {es fs : List Effect} (h : Counted g es g₁)
    (h' : Counted g₁ fs g') (hfs : Detached fs) : Counted g (es ++ fs) g' := by
  obtain ⟨hsend, hrecv⟩ := h
  obtain ⟨hsend', hrecv'⟩ := h'
  refine ⟨?_, ?_⟩
  · rw [acceptedBytes_append es hfs]
    omega
  · rw [sentBytes_append]
    omega

theorem detached_sock (sock : Option SockReady) (s : LoopState) :
    Detached (ifSet sock (sockBranch outputInfo) s).effects := by
  intro e
  cases sock with
  | none => exact acceptedLength_none e
  | some ev =>
    have heffects := sockBranch_effects outputInfo ev s
    change acceptedLength e (sockBranch outputInfo ev s).effects.head? = 0
    generalize (sockBranch outputInfo ev s).effects = es at heffects
    cases heffects <;> cases e <;> rfl

theorem detached_tun (tun : Option TunReady) (s : LoopState) :
    Detached (ifSet tun (tunBranch outputInfo) s).effects := by
  intro e
  cases tun with
  | none => exact acceptedLength_none e
  | some ev =>
    have heffects := (tunBranch_cases outputInfo ev s).1
    change acceptedLength e (tunBranch outputInfo ev s).effects.head? = 0
    generalize (tunBranch outputInfo ev s).effects = es at heffects
    cases heffects <;> cases e <;> rfl

/-- What is shown after a refused datagram does not make it count. -/
theorem acceptedLength_talk (d : Datagram) {talk : List Effect} (h : Talk talk) :
    acceptedLength (.recvfrom d) talk.head? = 0 := by
  cases talk with
  | nil => rfl
  | cons e es =>
    rcases h e List.mem_cons_self with ⟨p, rfl⟩ | ⟨n, rfl⟩
    · rfl
    · rfl

theorem counted_sockBranch {ev : SockReady} {s s' : LoopState}
    (h : (sockBranch outputInfo ev s).control.state = some s') :
    Counted s.globals (sockBranch outputInfo ev s).effects s'.globals := by
  have hstep := sockBranch_step outputInfo ev s
  generalize sockBranch outputInfo ev s = o at hstep h ⊢
  cases hstep with
  | failed =>
    cases h
    exact ⟨by simp [acceptedBytes], by simp⟩
  | died => cases h
  | @refused d talk _ hrecv hrefused htalk hpsc hglobals =>
    cases h
    have hsent : sentBytes (.recvfrom d :: talk) = 0 := by
      simp [sentBytes_talk htalk, sentOf]
    refine ⟨?_, ?_⟩
    · rw [acceptedBytes, acceptedLength_talk d htalk,
        acceptedBytes_eq_zero (recvfrom_not_mem_talk htalk), hglobals]
      simp
    · rw [hsent, hglobals, Int.add_zero]
  | @accepted d uid node shown globals hrecv haccepts hshown hreport =>
    cases h
    obtain ⟨hsend, hrecvTotal⟩ := outputInfo_totals hreport
    have hquiet : ∀ d', .recvfrom d' ∉ shown ++
        [.write uid ((received d.data).map node.table.decodeByte) ev.writeRet] := by
      intro d' hmem
      rcases List.mem_append.1 hmem with hmem | hmem
      · exact recvfrom_not_mem_talk hshown d' hmem
      · cases List.mem_singleton.1 hmem
    have hbytes : acceptedBytes (.recvfrom d :: .accepted uid d.sender :: (shown ++
        [.write uid ((received d.data).map node.table.decodeByte) ev.writeRet])) =
        (received d.data).length := by
      rw [acceptedBytes, acceptedBytes, acceptedBytes_eq_zero hquiet]
      rfl
    have hsent : sentBytes (.recvfrom d :: .accepted uid d.sender :: (shown ++
        [.write uid ((received d.data).map node.table.decodeByte) ev.writeRet])) = 0 := by
      simp [sentBytes_append, sentBytes_talk hshown, sentOf]
    refine ⟨?_, ?_⟩
    · rw [hbytes]
      exact hsend
    · rw [hsent, Int.add_zero]
      exact hrecvTotal

theorem recvfrom_not_mem_tun (ev : TunReady) (s : LoopState) (d : Datagram) :
    .recvfrom d ∉ (tunBranch outputInfo ev s).effects := by
  have heffects := (tunBranch_cases outputInfo ev s).1
  generalize (tunBranch outputInfo ev s).effects = es at heffects
  cases heffects with
  | idle => exact List.not_mem_nil
  | unknown _ _ _ htalk => simp [recvfrom_not_mem_talk htalk]
  | attempt _ _ _ htalk => simp [sendAttempt, recvfrom_not_mem_talk htalk]

theorem counted_tunBranch {ev : TunReady} {s s' : LoopState}
    (h : (tunBranch outputInfo ev s).control.state = some s') :
    Counted s.globals (tunBranch outputInfo ev s).effects s'.globals := by
  have hstep := tunBranch_step outputInfo ev s
  unfold Counted
  rw [acceptedBytes_eq_zero (recvfrom_not_mem_tun ev s)]
  generalize tunBranch outputInfo ev s = o at hstep h ⊢
  cases hstep with
  | idle =>
    cases h
    exact ⟨by simp, by simp⟩
  | unknown =>
    cases h
    exact ⟨by simp, by simp [sentOf]⟩
  | unsent hpacket hp hclient hret =>
    cases h
    have hsent : ¬ 0 < ev.sendRet := by omega
    exact ⟨by simp [encryptedState], by simp [sentOf, sendAttempt, hsent, encryptedState]⟩
  | died => cases h
  | @sent p node globals hpacket hp hclient hret hreport =>
    cases h
    obtain ⟨hsend, hrecv⟩ := outputInfo_totals hreport
    have hbytes : sentBytes (sendAttempt ev s p node ++
        (outputInfo ev.fopen (countRecv s.globals ev.sendRet)).1.map .printed) = ev.sendRet := by
      rw [sentBytes_append, sentBytes_talk (talk_printed _)]
      simp [sentOf, sendAttempt, hret]
    rw [hbytes]
    exact ⟨by rw [hsend]; exact (Int.add_zero _).symm, hrecv⟩

theorem counted_ifSet {ε : Type} {branch : ε → LoopState → Outcome} {s s' : LoopState}
    (hbranch : ∀ ev, (branch ev s).control.state = some s' →
      Counted s.globals (branch ev s).effects s'.globals) (ready : Option ε)
    (h : (ifSet ready branch s).control.state = some s') :
    Counted s.globals (ifSet ready branch s).effects s'.globals := by
  cases ready with
  | none =>
    cases h
    exact ⟨by simp [ifSet, acceptedBytes], by simp [ifSet]⟩
  | some ev => exact hbranch ev h

theorem counted_pass {input : Select} {s s' : LoopState}
    (h : (loopBody outputInfo input s).control.state = some s') :
    Counted s.globals (loopBody outputInfo input s).effects s'.globals ∧
      Detached (loopBody outputInfo input s).effects := by
  cases input with
  | interrupted => cases h
  | failed =>
    cases h
    exact ⟨⟨by simp [loopBody, acceptedBytes], by simp [loopBody]⟩, acceptedLength_none⟩
  | ready clock sock tun =>
    have hdetached := detached_sock sock (tick s clock)
    rcases pass_split clock sock tun s with ⟨-, heq⟩ | ⟨s₁, -, hnext, heq⟩
    · rw [heq] at h ⊢
      exact ⟨counted_ifSet (s := tick s clock) (fun ev => counted_sockBranch) sock h, hdetached⟩
    · rw [heq] at h ⊢
      have hsock := counted_ifSet (s := tick s clock) (fun ev => counted_sockBranch) sock hnext
      have htun := counted_ifSet (fun ev => counted_tunBranch) tun h
      refine ⟨hsock.append htun (detached_tun tun s₁), fun e => ?_⟩
      have hfirst := hdetached e
      have hsecond := detached_tun tun s₁ e
      cases hes : (ifSet sock (sockBranch outputInfo) (tick s clock)).effects with
      | nil => exact hsecond
      | cons first es =>
        rw [hes] at hfirst
        exact hfirst

theorem counted_run {inputs : List Select} {s₀ s : LoopState}
    (hrun : (svpnServerHandleThread outputInfo inputs s₀).2 = some s) :
    Counted s₀.globals (svpnServerHandleThread outputInfo inputs s₀).1 s.globals ∧
      Detached (svpnServerHandleThread outputInfo inputs s₀).1 := by
  induction inputs generalizing s₀ with
  | nil =>
    cases hrun
    exact ⟨⟨by simp [svpnServerHandleThread, acceptedBytes], by simp [svpnServerHandleThread]⟩,
      acceptedLength_none⟩
  | cons input inputs ih =>
    cases hstate : (loopBody outputInfo input s₀).control.state with
    | none =>
      rw [handleThread_stop hstate] at hrun
      cases hrun
    | some s₁ =>
      rw [handleThread_next hstate] at hrun ⊢
      obtain ⟨hpass, hdetached⟩ := counted_pass hstate
      obtain ⟨hrest, hdetachedRest⟩ := ih hrun
      refine ⟨hpass.append hrest hdetachedRest, fun e => ?_⟩
      have hfirst := hdetached e
      cases hes : (loopBody outputInfo input s₀).effects with
      | nil => exact hdetachedRest e
      | cons first es =>
        rw [hes] at hfirst
        exact hfirst

/-- A report logs the growth of `tl_last`, or nothing before its first value. -/
structure Logs (v w amount : ℤ) : Prop where
  start : v = 0 → amount = 0
  growth : v ≠ 0 → amount = w - v ∧ w ≠ 0

theorem logs_refl (v : ℤ) : Logs v v 0 := ⟨fun _ => rfl, fun h => ⟨(Int.sub_self v).symm, h⟩⟩

theorem logTraffic_spec {fopen : Bool} {g g' : Globals} (h : (logTraffic fopen g).2 = some g') :
    (g'.tlLast = g.tlLast ∧ (logTraffic fopen g).1.filterMap loggedOf = []) ∨
      (g'.tlLast = g.stat.lastRecv ∧ ((logTraffic fopen g).1.filterMap loggedOf).sum =
        if g.tlLast = 0 then 0 else g.stat.lastRecv - g.tlLast) := by
  unfold logTraffic at h ⊢
  simp only at h ⊢
  split at h
  · rename_i heven
    simp only [heven, if_true]
    right
    split at h
    · rename_i hlast
      split at h
      · rename_i hopen
        cases h
        simp only [hlast, hopen, ne_eq, not_false_eq_true, if_true, if_false, true_and]
        exact Int.add_zero _
      · cases h
    · rename_i hlast
      cases h
      simp [not_not.1 hlast]
  · rename_i heven
    cases h
    simp [heven]

theorem inOrder_report {fopen : Bool} {g g' : Globals} (h : InOrder g)
    (hreport : (outputInfo fopen g).2 = some g') :
    InOrder g' ∧ Logs g.tlLast g'.tlLast ((outputInfo fopen g).1.filterMap loggedOf).sum := by
  obtain ⟨hnonneg, hlogged, hreported, hsent⟩ := h
  unfold outputInfo at hreport ⊢
  simp only at hreport ⊢
  split_ifs at hreport ⊢ with hunder hzero
  · cases hreport
    exact ⟨⟨hnonneg, hlogged, hreported, hsent⟩, logs_refl _⟩
  · have hstat := logTraffic_stat hreport
    have hshown : ∀ line, loggedOf (.status line) = none := fun _ => rfl
    rw [List.filterMap_cons_none (hshown _)]
    rcases logTraffic_spec hreport with ⟨htl, hnil⟩ | ⟨htl, hsum⟩
    · rw [hnil]
      change g'.tlLast = g.tlLast at htl
      rw [htl]
      refine ⟨⟨by omega, ?_, ?_, ?_⟩, logs_refl _⟩
      · rw [htl, hstat]
        change g.tlLast ≤ g.stat.totalRecv
        omega
      · rw [hstat]
        exact Int.le_refl _
      · rw [hstat]
        exact Int.le_refl _
    · rw [hsum]
      change g'.tlLast = g.stat.totalRecv at htl
      change _ ∧ Logs g.tlLast g'.tlLast (if g.tlLast = 0 then 0 else g.stat.totalRecv - g.tlLast)
      refine ⟨⟨by omega, ?_, ?_, ?_⟩, ⟨fun hstart => if_pos hstart, fun hgrowth => ?_⟩⟩
      · rw [htl, hstat]
        exact Int.le_refl _
      · rw [hstat]
        exact Int.le_refl _
      · rw [hstat]
        exact Int.le_refl _
      · rw [if_neg hgrowth, htl]
        exact ⟨rfl, by omega⟩

theorem kept_inOrder : Kept InOrder where
  clock _ _ h := ⟨h.nonneg, h.logged, h.reported, h.sent⟩
  send g len h := by
    refine ⟨h.nonneg, h.logged, h.reported, ?_⟩
    have hsent := h.sent
    change g.stat.lastSend ≤ g.stat.totalSend + (len : ℤ)
    omega
  recv g len hpos h := by
    refine ⟨h.nonneg, h.logged, ?_, h.sent⟩
    have hreported := h.reported
    change g.stat.lastRecv ≤ g.stat.totalRecv + len
    omega
  report _ _ _ h hreport := (inOrder_report h hreport).1

theorem belowThreshold_report {fopen : Bool} {g g' : Globals} (h : InOrder g)
    (hreport : (outputInfo fopen g).2 = some g') : BelowThreshold g'.stat := by
  rcases outputInfo_stat hreport with ⟨hunder, rfl⟩ | ⟨-, hstat⟩
  · obtain ⟨-, -, hreported, hsent⟩ := h
    obtain ⟨hsend, hrecv, -⟩ := of_decide_eq_true hunder
    unfold optTh at hsend hrecv
    exact ⟨⟨by omega, by omega⟩, by omega, by omega⟩
  · rw [hstat]
    have hself : ∀ x : ℤ, 0 ≤ x - x ∧ x - x < 1048576 := by
      intro x
      omega
    exact ⟨hself _, hself _⟩

theorem tlLast_sockCall {s : LoopState} {ev : SockReady} {fopen : Bool} {g : Globals}
    (h : SockCalls s ev fopen g) : g.tlLast = s.globals.tlLast := by
  cases h
  rfl

theorem tlLast_tunCall {s : LoopState} {ev : TunReady} {fopen : Bool} {g : Globals}
    (h : TunCalls s ev fopen g) : g.tlLast = s.globals.tlLast := by
  cases h
  rfl

theorem logs_half {calls : Bool → Globals → Prop} {g g' : Globals} {es : List Effect}
    {r : Option Globals} (h : Half calls g es r) (hr : r = some g')
    (hcalls : ∀ fopen g₁, calls fopen g₁ → InOrder g₁ ∧ g₁.tlLast = g.tlLast) :
    Logs g.tlLast g'.tlLast (loggedBytes es) := by
  unfold loggedBytes
  cases h with
  | quiet _ hprinted =>
    rw [hprinted, ← Option.some.inj hr]
    exact logs_refl _
  | report hcall _ hprinted =>
    obtain ⟨horder, htl⟩ := hcalls _ _ hcall
    rw [hprinted, ← htl]
    exact (inOrder_report horder hr).2

theorem logs_sock {clock : ℤ} {sock : Option SockReady} {s s' : LoopState} (hs : InOrder s.globals)
    (h : (ifSet sock (sockBranch outputInfo) (tick s clock)).control.state = some s') :
    Logs s.globals.tlLast s'.globals.tlLast
      (loggedBytes (ifSet sock (sockBranch outputInfo) (tick s clock)).effects) := by
  refine logs_half (g := (tick s clock).globals) (sock_half clock sock s)
    (congrArg (Option.map LoopState.globals) h) ?_
  rintro fopen g ⟨ev, -, hcall⟩
  exact ⟨kept_inOrder.sockCall hcall (kept_inOrder.clock s clock hs), tlLast_sockCall hcall⟩

theorem logs_tun {tun : Option TunReady} {s s' : LoopState} (hs : InOrder s.globals)
    (h : (ifSet tun (tunBranch outputInfo) s).control.state = some s') :
    Logs s.globals.tlLast s'.globals.tlLast
      (loggedBytes (ifSet tun (tunBranch outputInfo) s).effects) := by
  refine logs_half (tun_half tun s) (congrArg (Option.map LoopState.globals) h) ?_
  rintro fopen g ⟨ev, -, hcall⟩
  exact ⟨kept_inOrder.tunCall hcall hs, tlLast_tunCall hcall⟩

theorem firstNonzero_of_ne {v : ℤ} (h : v ≠ 0) (vs : List ℤ) : firstNonzero (v :: vs) = v := by
  simp [firstNonzero, h]

theorem firstNonzero_zero (vs : List ℤ) : firstNonzero (0 :: vs) = firstNonzero vs := by
  simp [firstNonzero]

/-- Growth that is logged from a value on adds up to the growth since the first
value other than zero. -/
theorem Logs.telescope {v w amount rest last : ℤ} {vs : List ℤ} (h : Logs v w amount)
    (hrest : rest = last - firstNonzero (w :: vs)) :
    amount + rest = last - firstNonzero (v :: w :: vs) := by
  by_cases hv : v = 0
  · subst v
    rw [firstNonzero_zero, h.start rfl]
    omega
  · obtain ⟨hamount, hw⟩ := h.growth hv
    rw [firstNonzero_of_ne hv]
    rw [firstNonzero_of_ne hw] at hrest
    omega

theorem tlValues_head (inputs : List Select) (s : LoopState) :
    ∃ vs, tlValues inputs s = s.globals.tlLast :: vs := by
  cases inputs with
  | nil => exact ⟨[], rfl⟩
  | cons input inputs => exact ⟨_, rfl⟩

theorem logged_run {inputs : List Select} {s₀ s : LoopState} (h : InOrder s₀.globals)
    (hrun : (svpnServerHandleThread outputInfo inputs s₀).2 = some s) :
    loggedBytes (svpnServerHandleThread outputInfo inputs s₀).1 =
      s.globals.tlLast - firstNonzero (tlValues inputs s₀) := by
  induction inputs generalizing s₀ with
  | nil =>
    cases hrun
    change 0 = s.globals.tlLast - firstNonzero [s.globals.tlLast]
    by_cases hzero : s.globals.tlLast = 0
    · rw [hzero]
      rfl
    · rw [firstNonzero_of_ne hzero, Int.sub_self]
  | cons input inputs ih =>
    cases hstate : (loopBody outputInfo input s₀).control.state with
    | none =>
      rw [handleThread_stop hstate] at hrun
      cases hrun
    | some s₁ =>
      rw [handleThread_next hstate] at hrun ⊢
      have hrest := ih (kept_inOrder.pass h hstate) hrun
      obtain ⟨vs, hvs⟩ := tlValues_head inputs s₁
      simp only [tlValues, hstate]
      rw [loggedBytes_append]
      cases input with
      | interrupted => cases hstate
      | failed =>
        cases hstate
        rw [hvs] at hrest ⊢
        exact (logs_refl _).telescope hrest
      | ready clock sock tun =>
        rcases pass_split clock sock tun s₀ with ⟨hnone, heq⟩ | ⟨s₂, hmid, hnext, heq⟩
        · rw [heq] at hstate ⊢
          rw [hvs] at hrest ⊢
          simp only [hnone, Option.map_none, Option.toList_none, List.nil_append]
          exact (logs_sock h hstate).telescope hrest
        · rw [heq] at hstate ⊢
          rw [hvs] at hrest ⊢
          simp only [hmid, Option.map_some, Option.toList_some, List.singleton_append]
          rw [loggedBytes_append, Int.add_assoc]
          exact (logs_sock h hnext).telescope
            ((logs_tun (kept_inOrder.sock h hnext) hstate).telescope hrest)

/-- The books of every run: the totals, the order of the counters, what is left to
report after each call, and the log. A run that stops between the halves of a pass is
one whose last input has nothing in the tunnel. -/
theorem traffic_accounting (psc : SvpnServer) (buffer tmpBuffer : Cells UInt8) (clock : ℤ)
    (inputs : List Select) (s : LoopState)
    (hrun : (svpnServerHandleThread outputInfo inputs (loopStart psc buffer tmpBuffer clock)).2 = some s) :
    let es := (svpnServerHandleThread outputInfo inputs (loopStart psc buffer tmpBuffer clock)).1
    (s.globals.stat.totalSend = acceptedBytes es ∧ s.globals.stat.totalRecv = sentBytes es) ∧
      InOrder s.globals ∧
      (∀ input fopen g, Calls s input fopen g → InOrder g ∧
        ∀ g', (outputInfo fopen g).2 = some g' → InOrder g' ∧ BelowThreshold g'.stat) ∧
      loggedBytes es = s.globals.tlLast -
        firstNonzero (tlValues inputs (loopStart psc buffer tmpBuffer clock)) := by
  have hstart : InOrder (loopStart psc buffer tmpBuffer clock).globals :=
    ⟨Int.le_refl 0, Int.le_refl 0, Int.le_refl 0, Int.le_refl 0⟩
  have horder := kept_inOrder.run hstart hrun
  obtain ⟨hsend, hrecv⟩ := (counted_run hrun).1
  refine ⟨⟨?_, ?_⟩, horder, fun input fopen g hcall => ?_, logged_run hstart hrun⟩
  · exact hsend.trans (Int.zero_add _)
  · exact hrecv.trans (Int.zero_add _)
  · have hg := kept_inOrder.call horder hcall
    exact ⟨hg, fun g' hreport =>
      ⟨kept_inOrder.report _ _ _ hg hreport, belowThreshold_report hg hreport⟩⟩

def sampleReads : List Select := [sampleRead 2000000, sampleRead 4000000]

def firstReport : List Printed × Option Globals := reportAt 2000000 sampleStart.globals

def secondReport : List Printed × Option Globals :=
  reportAt 4000000 (firstReport.2.getD sampleStart.globals)

/-- Two packets for user 6, with two seconds before either: both lead to a report. -/
theorem run_sampleReads :
    ∃ s, (svpnServerHandleThread outputInfo sampleReads sampleStart).2 = some s ∧
      secondReport.2 = some s.globals ∧
      printedOf (svpnServerHandleThread outputInfo sampleReads sampleStart).1 =
        firstReport.1 ++ secondReport.1 := by
  obtain ⟨g₁, hg₁⟩ : ∃ g, firstReport.2 = some g := Option.isSome_iff_exists.1 (by decide)
  obtain ⟨g₂, hg₂⟩ : ∃ g, secondReport.2 = some g := Option.isSome_iff_exists.1 (by decide)
  obtain ⟨s₁, hstate, hpsc, hglobals, hprinted⟩ :=
    pass_sampleRead 2000000 (s := sampleStart) client_sampleServer hg₁
  rw [secondReport, hg₁, Option.getD_some, ← hglobals] at hg₂
  obtain ⟨s₂, hstate', -, hglobals', hprinted'⟩ :=
    pass_sampleRead 4000000 (s := s₁) (by rw [hpsc]; exact client_sampleServer) hg₂
  obtain ⟨heffects, hrun⟩ := handleThread_singleton hstate'
  refine ⟨s₂, ?_, ?_, ?_⟩
  · rw [sampleReads, handleThread_next hstate]
    exact hrun
  · rw [secondReport, hg₁, Option.getD_some, ← hglobals, hg₂, hglobals']
  · rw [sampleReads, handleThread_next hstate, printedOf_append, hprinted, heffects, hprinted',
      secondReport, hg₁, Option.getD_some, ← hglobals]
    rfl

/-- The second of two reports logs the packet of the first two seconds. -/
theorem traffic_accounting_sample :
    ∃ s, (svpnServerHandleThread outputInfo sampleReads sampleStart).2 = some s ∧
      sentBytes (svpnServerHandleThread outputInfo sampleReads sampleStart).1 = 40 ∧
      InOrder s.globals ∧
      s.globals.tlLast - firstNonzero (tlValues sampleReads sampleStart) = 20 := by
  obtain ⟨s, hrun, hglobals, hprinted⟩ := run_sampleReads
  obtain ⟨⟨-, hrecv⟩, horder, -, hlogged⟩ :=
    traffic_accounting sampleServer (fun _ => 0) (fun _ => 0) 0 sampleReads s hrun
  have htotal : secondReport.2.map (fun g => g.stat.totalRecv) = some 40 := by decide
  rw [hglobals, Option.map_some, Option.some_inj] at htotal
  refine ⟨s, hrun, hrecv.symm.trans htotal, horder, hlogged.symm.trans ?_⟩
  change ((printedOf (svpnServerHandleThread outputInfo sampleReads sampleStart).1).filterMap
    loggedOf).sum = 20
  rw [hprinted]
  decide

end SVpn.TrafficAccounting
