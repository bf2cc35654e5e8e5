import SVpn.UserSessions

set_option autoImplicit false

/-!
One user is served apart from the others: what a user gets depends on the user's own
node and own arrivals, whoever else is configured and whatever else arrives.
-/
namespace SVpn.Isolation
open SVpn.Region SVpn.Crypt SVpn.OutputInfo SVpn.ServerLoop SVpn.ServerSteps SVpn.ServerRuns
open SVpn.SourceCheck SVpn.RoutingTable SVpn.Relay SVpn.UserSessions

variable {report report' : Reporter} {selects selects' : List Select} {s₀ s₀' s s' : LoopState}

/-- Two runs of the loop, from servers with the same local address but different users,
buffers and counters, on different traffic and with different reports: as long as
everything that arrives is of full size, a user with the same node and the same
arrivals in both gets the same packets and datagrams in both, and the same address in
the end. -/
theorem isolation (hrun : (svpnServerHandleThread report selects s₀).2 = some s)
    (hrun' : (svpnServerHandleThread report' selects' s₀').2 = some s')
    (hfull : ∀ x ∈ arrivals (svpnServerHandleThread report selects s₀).1, FullSize x)
    (hfull' : ∀ x ∈ arrivals (svpnServerHandleThread report' selects' s₀').1, FullSize x)
    (hlocal : s₀.psc.localAddr = s₀'.psc.localAddr) {uid : UInt8}
    (hclient : s₀.psc.client uid = s₀'.psc.client uid)
    (hown : (arrivals (svpnServerHandleThread report selects s₀).1).filter
        (fun x => arrivalUser x = uid) =
      (arrivals (svpnServerHandleThread report' selects' s₀').1).filter
        (fun x => arrivalUser x = uid)) :
    (actions (svpnServerHandleThread report selects s₀).1).filter (fun a => actionUser a = uid) =
      (actions (svpnServerHandleThread report' selects' s₀').1).filter
        (fun a => actionUser a = uid) ∧
    s.psc.client uid = s'.psc.client uid := by
  obtain ⟨hactions, hsession⟩ := session_of_handleThread hrun hfull uid
  obtain ⟨hactions', hsession'⟩ := session_of_handleThread hrun' hfull' uid
  constructor
  · rw [hactions, hactions', hown, hlocal, hclient]
  · rw [hsession, hsession', hown, hlocal, hclient]

/-- A server that has user 9 as well, with other leftovers in its buffers. -/
def sampleOthers : LoopState :=
  loopStart (sampleServer.setClient 9 ⟨sampleAddr 4, sampleKey.table⟩) (fun _ => 1) (fun _ => 2) 5

/-- User 3's traffic comes first, then the datagram of user 6. -/
def sampleMixed : List (Moment × Traffic) := [(⟨7, true⟩, sampleDown), (⟨9, false⟩, sampleUp)]

/-- User 6 sends a datagram to either server and is served alike. -/
theorem isolation_sample :
    ∃ s', (svpnServerHandleThread quiet (inputs sampleMixed) sampleOthers).2 = some s' ∧
      (actions (svpnServerHandleThread outputInfo [sampleFirst] sampleStart).1).filter
          (fun a => actionUser a = 6) =
        (actions (svpnServerHandleThread quiet (inputs sampleMixed) sampleOthers).1).filter
          (fun a => actionUser a = 6) ∧
      sampleAccepted.psc.client 6 = s'.psc.client 6 := by
  obtain ⟨s', hrun'⟩ := quiet_run sampleMixed sampleOthers
  have hclient : sampleStart.psc.client 6 = sampleOthers.psc.client 6 :=
    (client_setClient sampleServer 9 6 ⟨sampleAddr 4, sampleKey.table⟩).symm
  refine ⟨s', hrun', isolation state_sampleRun hrun' ?_ (fullSize_run hrun') rfl hclient ?_⟩
  · intro x hx
    rw [arrivals_sampleRun] at hx
    obtain rfl := List.mem_singleton.1 hx
    exact .inr (by decide)
  · have hdown : sampleDown.user = 3 := rfl
    have hup : [Arrival.datagram (sampleDatagram (sampleAddr 1))] = [sampleUp].map Traffic.arrival := rfl
    rw [arrivals_sampleRun, hup, arrivals_run hrun', filter_arrivals, filter_arrivals]
    simp [sampleMixed, user_sampleUp, hdown]

end SVpn.Isolation
