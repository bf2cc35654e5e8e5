import SVpn.Registration

set_option autoImplicit false

/-!
What an observer of one datagram can do with it. The server keeps no record of what
it has accepted and reads five bytes of the ciphertext, so these five bytes admit any
later datagram from anywhere, and the user's packets follow its sender.
-/
namespace SVpn.Replay
open SVpn.Region SVpn.Crypt SVpn.OutputInfo SVpn.ServerLoop SVpn.ServerSteps SVpn.ServerRuns
open SVpn.SourceCheck SVpn.RoutingTable SVpn.ServerCauses SVpn.Registration SVpn.Trace

/-- The ciphertexts agree on the user byte and on the source field. -/
def SameClaim (d d' : Datagram) : Prop := ∀ i ∈ [0, 12, 13, 14, 15], d.data[i]? = d'.data[i]?

theorem SameClaim.head? {d d' : Datagram} (h : SameClaim d d') : d.data.head? = d'.data.head? := by
  rw [List.head?_eq_getElem?, List.head?_eq_getElem?]
  exact h 0 (by simp)

theorem SameClaim.sourceIs {d d' : Datagram} (h : SameClaim d d') (localAddr : Vector UInt8 4)
    (uid : UInt8) (table : CodeTable) (hsource : SourceIs localAddr uid (d.data.map table.decodeByte)) :
    SourceIs localAddr uid (d'.data.map table.decodeByte) := by
  unfold SourceIs at hsource ⊢
  simp only [List.getElem?_map] at hsource ⊢
  rwa [← h 12 (by simp), ← h 13 (by simp), ← h 14 (by simp), ← h 15 (by simp)]

variable {report : Reporter}

/-- Acceptance looks neither at the sender nor at what has happened since. -/
theorem accepts_later {s₁ s₂ : LoopState} {h : List Effect}
    (run : Reaches (Phase report) s₁ h (some s₂)) {d d' : Datagram} {uid : UInt8}
    {node : SvpnClientNode} (haccepted : Accepts s₁ d uid node) (hd : 16 ≤ d.data.length)
    (hd' : 16 ≤ d'.data.length) (hsame : SameClaim d d') : ∃ node', Accepts s₂ d' uid node' := by
  have hr := routed_of_phases run
  have hclient := hr.clients uid
  rw [haccepted.client, Option.map_some] at hclient
  have hhead : d'.data.head? = some uid := hsame.head?.symm.trans haccepted.head
  refine ⟨_, (accepts_iff hhead hclient hd').2 ?_⟩
  rw [hr.localAddr]
  exact hsame.sourceIs _ _ _ ((accepts_iff haccepted.head haccepted.client hd).1 haccepted)

/-- Once a datagram of user `uid` has been accepted, in every continuation any datagram
with the same five bytes is accepted from any sender. If its report returns, then from
there on, until another datagram of that user is accepted, every packet for the user goes
to that sender. -/
theorem replay_takes_over {s₁ s₂ : LoopState} {h : List Effect} {d d' : Datagram} {uid : UInt8}
    {ev : SockReady} (haccepted : ∃ node, Accepts s₁ d uid node)
    (run : Reaches (Phase report) s₁ h (some s₂)) (hd : 16 ≤ d.data.length)
    (hd' : 16 ≤ d'.data.length) (hsame : SameClaim d d') (hrecv : ev.recv = some d') :
    .accepted uid d'.sender ∈ (sockBranch report ev s₂).effects ∧
    ∀ s₃ h' r, (sockBranch report ev s₂).control.state = some s₃ →
      Reaches (Phase report) s₃ h' r →
      ∀ before addr datagram ret after, h' = before ++ .sendto uid addr datagram ret :: after →
        (∀ a, .accepted uid a ∉ before) → addr = d'.sender := by
  obtain ⟨node, haccepts⟩ := haccepted
  obtain ⟨node', haccepts'⟩ := accepts_later run haccepts hd hd' hsame
  refine ⟨accepted_mem report hrecv haccepts', ?_⟩
  intro s₃ h' r hstate run' before addr datagram ret after heq hquiet
  obtain ⟨earlier, p, first, rfl, hfirst, haddr⟩ := addressed_of_phases run' _ _ _ heq
  rw [(accepted_survives hrecv haccepts' hstate).1, client_setClient, if_pos rfl,
    Option.some.injEq] at hfirst
  have hnone : lastAccepted uid earlier = none := by
    cases hlast : lastAccepted uid earlier with
    | none => rfl
    | some a =>
      have hmem := mem_acceptedOf.1 (mem_acceptedOf_of_lastAccepted hlast)
      exact absurd (List.mem_append_left _ hmem) (hquiet a)
  rw [haddr, hnone, ← hfirst]
  rfl

def forged (d : Datagram) (sender : SockaddrIn6) : Datagram where
  sender := sender
  data := (List.range 16).map fun i => if i ∈ [0, 12, 13, 14, 15] then d.data.getD i 0 else 0

theorem sameClaim_forged {d : Datagram} (sender : SockaddrIn6) (h : 16 ≤ d.data.length) :
    SameClaim d (forged d sender) := by
  intro i hi
  have hlt : i < 16 := by
    simp only [List.mem_cons, List.not_mem_nil, or_false] at hi
    omega
  simp only [forged, List.getElem?_map, List.getElem?_range hlt, Option.map_some, if_pos hi]
  rw [List.getElem?_eq_getElem (by omega), List.getD_eq_getElem _ _ (by omega)]

def sampleForged : SockReady :=
  ⟨some (forged (sampleDatagram (sampleAddr 1)) (sampleAddr 2)), 16, true⟩

/-- The forged datagram is accepted, and a packet for user 6 goes to the forger. -/
theorem replay_takes_over_sample :
    .accepted 6 (sampleAddr 2) ∈ (sockBranch outputInfo sampleForged sampleAccepted).effects ∧
    ∃ s₃ datagram talk,
      (sockBranch outputInfo sampleForged sampleAccepted).control.state = some s₃ ∧
      (loopBody outputInfo sampleSecond s₃).effects =
        .read 6 sampleReply :: .sendto 6 (sampleAddr 2) datagram 20 :: talk := by
  have hfirst := accepts_sample (s := sampleStart) rfl (sampleAddr 1)
  have hsame := sameClaim_forged (d := sampleDatagram (sampleAddr 1)) (sampleAddr 2) (by decide)
  have hrecv : sampleForged.recv = some (forged (sampleDatagram (sampleAddr 1)) (sampleAddr 2)) := rfl
  have hpass : Reaches (Pass outputInfo anyInput) sampleStart _ (some sampleAccepted) :=
    .step .start ⟨sampleFirst, trivial, rfl, state_sampleFirst⟩
  obtain ⟨node, haccepts⟩ :=
    accepts_later (phases_of_passes hpass) hfirst (by decide) (by decide) hsame
  have hstate : ∃ s₃, (sockBranch outputInfo sampleForged sampleAccepted).control.state = some s₃ := by
    obtain ⟨shown, -, heq⟩ := sockBranch_accepted outputInfo hrecv haccepts
    rw [heq]
    exact ⟨_, rfl⟩
  obtain ⟨s₃, hstate⟩ := hstate
  obtain ⟨haccepted, hfollows⟩ := replay_takes_over ⟨_, hfirst⟩ (phases_of_passes hpass) (by decide)
    (by decide) hsame hrecv
  refine ⟨haccepted, s₃, ?_⟩
  have hclient : s₃.psc.client 6 = some { node with addr := sampleAddr 2 } := by
    rw [(accepted_survives hrecv haccepts hstate).1, client_setClient, if_pos rfl]
    rfl
  obtain ⟨talk, -, hsent⟩ := pass_sampleSecond outputInfo hclient
  have hrun := phases_of_pass (Reaches.start : Reaches (Phase outputInfo) s₃ [] (some s₃)) sampleSecond
  have haddr := hfollows s₃ _ _ hstate hrun [.read 6 sampleReply] _ _ _ talk hsent (by simp)
  exact ⟨_, talk, hstate, hsent.trans (by rw [haddr]; rfl)⟩

end SVpn.Replay
