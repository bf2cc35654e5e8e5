import SVpn.ConfigAgreement
import SVpn.ServerCauses

set_option autoImplicit false

/-!
From the user list to the first packets: the node of a new user has no address
until a datagram of that user is accepted, and the tunnel branch does not ask.
-/
namespace SVpn.Registration
open SVpn.ArrayPermutation SVpn.Region SVpn.Crypt SVpn.OutputInfo SVpn.KeyTable SVpn.ServerLoop
open SVpn.ServerSteps SVpn.ServerRuns SVpn.SourceCheck SVpn.RoutingTable SVpn.ServerCauses SVpn.Trace
open SVpn.Stdio SVpn.ConfigReader SVpn.ConfigGrammar SVpn.ConfigAgreement

/-- `main` once the server exists: the users are read and the loop is entered. The
result is the table of clients the loop starts with and the calls it makes. -/
def serverMain (memory : Memory) (stack : Cells UInt8) (psc : SvpnServer) (fin : Stream)
    (buffer tmpBuffer : Cells UInt8) (clock : ℤ) (inputs : List Select) :
    Option (SvpnServer × List Effect) :=
  (svpnServerInitClient memory stack psc fin).map fun psc =>
    (psc, (svpnServerHandleThread outputInfo inputs (loopStart psc buffer tmpBuffer clock)).1)

def Registered (before : List Effect) : Effect → Prop
  | .sendto uid addr _ _ => .accepted uid addr ∈ before
  | _ => True

/-- The tunnel delivers packets for a configured user once that user has been heard from. -/
def HeardFrom (psc : SvpnServer) (before : List Effect) : Effect → Prop
  | .read uid _ => (psc.client uid).isSome = true → ∃ addr, .accepted uid addr ∈ before
  | _ => True

/-- A send follows the read of its packet, and its address is the one the user
had then. -/
def Addressed (psc : SvpnServer) (before : List Effect) : Effect → Prop
  | .sendto uid addr _ _ => ∃ earlier p node, before = earlier ++ [.read uid p] ∧
      psc.client uid = some node ∧ addr = (lastAccepted uid earlier).getD node.addr
  | _ => True

theorem addressed_of_sendsOf (psc : SvpnServer) {es : List Effect} (h : sendsOf es = [])
    (earlier : List Effect) : Each (fun before e => Addressed psc (earlier ++ before) e) es := by
  rintro before e after rfl
  have hnone := List.filterMap_eq_nil_iff.1 h e (by simp)
  cases e with
  | sendto => cases hnone
  | _ => trivial

theorem addressed_tun {psc : SvpnServer} {h es : List Effect} {ev : TunReady} {s : LoopState}
    (hr : Routed psc h s) (hes : TunEffects ev s es) :
    Each (fun before e => Addressed psc (h ++ before) e) es := by
  cases hes with
  | idle => exact each_nil _
  | unknown _ _ _ htalk => exact addressed_of_sendsOf _ (by simp [sendOf, htalk.sendsOf]) h
  | @attempt p node talk _ _ hclient htalk =>
    obtain ⟨first, hfirst, -, haddr⟩ := hr.client_start hclient
    refine each_append.2 ⟨each_cons.2 ⟨trivial, each_cons.2 ⟨?_, each_nil _⟩⟩, ?_⟩
    · exact ⟨h, received p, first, rfl, hfirst, haddr⟩
    · simpa only [List.append_assoc] using
        addressed_of_sendsOf psc htalk.sendsOf (h ++ sendAttempt ev s p node)

variable {report : Reporter} {s₀ : LoopState} {h : List Effect} {r : Option LoopState}

theorem addressed_of_phases (run : Reaches (Phase report) s₀ h r) : Each (Addressed s₀.psc) h := by
  refine run.each fun h s es r hrun _ hphase => ?_
  cases hphase with
  | clock => exact each_nil _
  | sock ev => exact addressed_of_sendsOf _ (sockBranch_effects report ev s).sendsOf h
  | tun ev => exact addressed_tun (routed_of_phases hrun) (tunBranch_cases report ev s).1
  | exit => exact each_nil _

def Answered (psc : SvpnServer) (h : List Effect) : Prop :=
  ∀ before uid p after, h = before ++ .read uid p :: after → (psc.client uid).isSome = true →
    ∃ addr datagram ret rest, after = .sendto uid addr datagram ret :: rest

theorem answered_of_not_mem {psc : SvpnServer} {es : List Effect}
    (h : ∀ uid p, .read uid p ∉ es) : Answered psc es := by
  rintro before uid p after rfl
  exact absurd (List.mem_append_right _ List.mem_cons_self) (h uid p)

theorem Answered.append {psc : SvpnServer} {h es : List Effect} (hh : Answered psc h)
    (hes : Answered psc es) : Answered psc (h ++ es) := by
  intro before uid p after heq hclient
  rcases List.append_eq_append_iff.1 heq with ⟨mid, rfl, hrest⟩ | ⟨mid, rfl, hrest⟩
  · exact hes mid uid p after hrest hclient
  · cases mid with
    | nil => exact hes [] uid p after (by simpa using hrest.symm) hclient
    | cons first mid =>
      obtain ⟨rfl, rfl⟩ := List.cons.inj hrest
      obtain ⟨addr, datagram, ret, rest, rfl⟩ := hh before uid p mid rfl hclient
      exact ⟨addr, datagram, ret, rest ++ es, rfl⟩

theorem answered_tun {psc : SvpnServer} {h es : List Effect} {ev : TunReady} {s : LoopState}
    (hr : Routed psc h s) (hes : TunEffects ev s es) : Answered psc es := by
  cases hes with
  | idle => exact answered_of_not_mem fun _ _ => List.not_mem_nil
  | @unknown p talk _ _ hclient htalk =>
    intro before uid q after heq hsome
    rw [hr.clients] at hclient
    cases before with
    | nil =>
      cases heq
      rw [Option.map_eq_none_iff.1 hclient] at hsome
      cases hsome
    | cons first before =>
      obtain ⟨-, rfl⟩ := List.cons.inj heq
      exact absurd (List.mem_append_right _ List.mem_cons_self) (read_not_mem_talk htalk uid q)
  | @attempt p node talk _ _ hclient htalk =>
    intro before uid q after heq _
    rcases before with - | ⟨first, - | ⟨second, before⟩⟩
    · cases heq
      exact ⟨_, _, _, _, rfl⟩
    · cases heq
    · obtain rfl : talk = before ++ .read uid q :: after :=
        (List.cons.inj (List.cons.inj heq).2).2
      exact absurd (List.mem_append_right _ List.mem_cons_self) (read_not_mem_talk htalk uid q)

theorem answered_of_phases (run : Reaches (Phase report) s₀ h r) : Answered s₀.psc h := by
  induction run with
  | start => exact answered_of_not_mem fun _ _ => List.not_mem_nil
  | @step h es s r before hphase ih =>
    refine ih.append ?_
    cases hphase with
    | clock => exact answered_of_not_mem fun _ _ => List.not_mem_nil
    | sock ev =>
      exact answered_of_not_mem fun uid p => read_not_mem_sock (some ev) uid p
    | tun ev => exact answered_tun (routed_of_phases before) (tunBranch_cases report ev s).1
    | exit => exact answered_of_not_mem fun _ _ => List.not_mem_nil

theorem registered_of_heardFrom (run : Reaches (Phase report) s₀ h r)
    (hheard : Each (HeardFrom s₀.psc) h) : Each Registered h := by
  intro before e after heq
  cases e with
  | sendto uid addr datagram ret =>
    obtain ⟨earlier, p, node, rfl, hclient, rfl⟩ := addressed_of_phases run before _ after heq
    have hread := hheard earlier (.read uid p) (.sendto uid _ datagram ret :: after)
      (by rw [heq, List.append_assoc, List.singleton_append])
    obtain ⟨first, hfirst⟩ := hread (by rw [hclient]; rfl)
    obtain ⟨latest, hlatest⟩ := lastAccepted_of_mem (mem_acceptedOf.2 hfirst)
    rw [hlatest, Option.getD_some]
    exact List.mem_append_left _ (mem_acceptedOf.1 (mem_acceptedOf_of_lastAccepted hlatest))
  | _ => trivial

theorem heardFrom_of_registered (run : Reaches (Phase report) s₀ h r)
    (hregistered : Each Registered h) : Each (HeardFrom s₀.psc) h := by
  intro before e after heq
  cases e with
  | read uid p =>
    intro hsome
    obtain ⟨addr, datagram, ret, rest, rfl⟩ := answered_of_phases run before uid p after heq hsome
    have hsend := hregistered (before ++ [.read uid p]) (.sendto uid addr datagram ret) rest
      (by rw [heq, List.append_assoc, List.singleton_append])
    exact ⟨addr, (List.mem_append.1 hsend).resolve_right (by simp)⟩
  | _ => trivial

/-- Every packet goes to a registered address exactly when none comes for a
configured user that has not been heard from. -/
theorem registered_iff_heardFrom {memory : Memory} {stack : Cells UInt8} {psc : SvpnServer}
    {fin : Stream} {buffer tmpBuffer : Cells UInt8} {clock : ℤ} {inputs : List Select}
    {start : SvpnServer} {h : List Effect}
    (hmain : serverMain memory stack psc fin buffer tmpBuffer clock inputs = some (start, h)) :
    Each Registered h ↔ Each (HeardFrom start) h := by
  obtain ⟨psc', -, hrun⟩ := Option.map_eq_some_iff.1 hmain
  obtain ⟨rfl, rfl⟩ := Prod.mk.inj hrun
  have hphases := phases_of_passes (reaches_handleThread outputInfo inputs
    (.start : Reaches (Pass outputInfo anyInput) (loopStart psc' buffer tmpBuffer clock) [] _))
  rw [List.nil_append] at hphases
  exact ⟨heardFrom_of_registered hphases, registered_of_heardFrom hphases⟩

def sampleClients : SvpnServer := sampleDirectives.foldl (addUser sampleMemory) (clearClients sampleHost)

def sampleNode : SvpnClientNode := userNode sampleMemory 6 (chars "a")

theorem client_sampleClients : sampleClients.client 6 = some sampleNode :=
  client_config sampleMemory sampleDirectives sampleHost 6

theorem serverMain_sample (inputs : List Select) :
    serverMain sampleMemory (fun _ => 0) sampleHost sampleText (fun _ => 0) (fun _ => 0) 0 inputs =
      some (sampleClients, (svpnServerHandleThread outputInfo inputs
        (loopStart sampleClients (fun _ => 0) (fun _ => 0) 0)).1) := by
  rw [serverMain, svpnServerInitClient_config sample_config]
  rfl

theorem effects_handleThread (report : Reporter) (inputs : List Select) (input : Select) (s : LoopState) :
    ∃ rest, (svpnServerHandleThread report (input :: inputs) s).1 =
      (loopBody report input s).effects ++ rest := by
  cases hstate : (loopBody report input s).control.state with
  | none => exact ⟨[], by rw [handleThread_stop hstate, List.append_nil]⟩
  | some s' => exact ⟨_, by rw [handleThread_next hstate]⟩

/-- Before user 6 has sent anything, a packet for it goes to the address that was
in memory. -/
theorem unregistered_send :
    ∃ start h rest, serverMain sampleMemory (fun _ => 0) sampleHost sampleText (fun _ => 0)
        (fun _ => 0) 0 [sampleSecond] = some (start, h) ∧
      h = .read 6 sampleReply :: .sendto 6 (sampleMemory.heap 6).addr
        (sampleReply.map sampleNode.table.encodeByte) 20 :: rest ∧ ¬ Each Registered h := by
  obtain ⟨rest, hrest⟩ := effects_handleThread outputInfo [] sampleSecond
    (loopStart sampleClients (fun _ => 0) (fun _ => 0) 0)
  obtain ⟨talk, -, heffects⟩ := pass_sampleSecond outputInfo
    (s := loopStart sampleClients (fun _ => 0) (fun _ => 0) 0) client_sampleClients
  rw [heffects] at hrest
  refine ⟨sampleClients, _, talk ++ rest, serverMain_sample _, hrest, fun hall => ?_⟩
  have hsend := hall [.read 6 sampleReply] _ _ hrest
  simp [Registered] at hsend

def helloKey : Key 6 := key (passwordDigest (chars "a")) 6

def helloDatagram : Datagram := ⟨sampleAddr 1, samplePacket.map helloKey.table.encodeByte⟩

def sampleHello : Select := .ready 1 (some ⟨some helloDatagram, 20, true⟩) none

theorem table_sampleNode : sampleNode.table = helloKey.table := key_table (passwordDigest (chars "a")) 6

theorem accepts_hello {s : LoopState} (hpsc : s.psc = sampleClients) :
    Accepts s helloDatagram 6 sampleNode := by
  have hclient : s.psc.client 6 = some sampleNode := by
    rw [hpsc]
    exact client_sampleClients
  rw [accepts_encrypted_iff helloKey (p := samplePacket) (by decide) rfl hclient table_sampleNode,
    hpsc, sampleClients, localAddr_foldl_addUser]
  decide

theorem heardFrom_of_accepted (d : Datagram) (addr : SockaddrIn6) (rest : List Effect) :
    Each (HeardFrom sampleClients) (.recvfrom d :: .accepted 6 addr :: rest) := by
  refine each_cons.2 ⟨trivial, each_cons.2 ⟨trivial, fun before e after _ => ?_⟩⟩
  cases e with
  | read uid p =>
    intro hclient
    rw [sampleClients, client_config, Option.isSome_map, firstPassword_isSome] at hclient
    obtain ⟨password, hmem⟩ := hclient
    obtain rfl : uid = 6 := by
      simp only [sampleDirectives, List.mem_cons, List.not_mem_nil, or_false, reduceCtorEq,
        false_or, Directive.user.injEq] at hmem
      rcases hmem with ⟨huid, -⟩ | ⟨huid, -⟩ <;> exact huid
    exact ⟨addr, by simp⟩
  | _ => trivial

def helloStart : LoopState := loopStart sampleClients (fun _ => 0) (fun _ => 0) 0

def helloAccepted : LoopState :=
  acceptedState (tick helloStart 1) helloDatagram 6 sampleNode (countSend (tick helloStart 1).globals 20)

theorem pass_sampleHello : ∃ shown, loopBody outputInfo sampleHello helloStart =
    ⟨.recvfrom helloDatagram :: .accepted 6 (sampleAddr 1) :: shown, .next helloAccepted⟩ := by
  obtain ⟨shown, -, heq⟩ : ∃ shown, Talk shown ∧ loopBody outputInfo sampleHello helloStart =
      ⟨.recvfrom helloDatagram :: .accepted 6 (sampleAddr 1) :: (shown ++
        [.write 6 ((received helloDatagram.data).map sampleNode.table.decodeByte) 20]),
        .next helloAccepted⟩ :=
    pass_accepted rfl (accepts_hello rfl) rfl
  exact ⟨_, heq⟩

theorem client_helloAccepted :
    helloAccepted.psc.client 6 = some { sampleNode with addr := sampleAddr 1 } := by
  change (sampleClients.setClient 6 _).client 6 = _
  rw [client_setClient, if_pos rfl]
  rfl

/-- After a datagram of user 6, a packet for it goes to where that came from. -/
theorem registered_iff_heardFrom_sample :
    ∃ start h datagram, serverMain sampleMemory (fun _ => 0) sampleHost sampleText (fun _ => 0)
        (fun _ => 0) 0 [sampleHello, sampleSecond] = some (start, h) ∧
      .sendto 6 (sampleAddr 1) datagram 20 ∈ h ∧ Each Registered h := by
  have hmain := serverMain_sample [sampleHello, sampleSecond]
  obtain ⟨shown, hfirst⟩ := pass_sampleHello
  have hnext := handleThread_next (congrArg (fun o => o.control.state) hfirst) [sampleSecond]
  obtain ⟨rest, hrest⟩ := effects_handleThread outputInfo [] sampleSecond helloAccepted
  obtain ⟨talk, -, hsecond⟩ := pass_sampleSecond outputInfo client_helloAccepted
  rw [hfirst, hrest, hsecond] at hnext
  rw [← helloStart, hnext] at hmain
  refine ⟨sampleClients, _, sampleReply.map sampleNode.table.encodeByte, hmain, ?_,
    (registered_iff_heardFrom hmain).2 ?_⟩
  · exact List.mem_append_right _ (.tail _ (.head _))
  · exact heardFrom_of_accepted helloDatagram (sampleAddr 1) _

end SVpn.Registration
