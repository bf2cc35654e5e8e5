import SVpn.Programs
import SVpn.Tunnel

set_option autoImplicit false

/-!
The programs as the parties of the tunnel. What the two `main`s start their loops with
is what the system of server, clients and network starts from, so what holds of the
tunnel holds of the programs and their configuration file.
-/
namespace SVpn.Launch
open SVpn.ArrayPermutation SVpn.Region SVpn.Crypt SVpn.KeyTable SVpn.OutputInfo SVpn.ServerLoop
open SVpn.ServerSteps SVpn.ServerRuns SVpn.SourceCheck SVpn.RoutingTable SVpn.Stdio SVpn.InetAddr
open SVpn.ConfigReader SVpn.ConfigGrammar SVpn.ConfigAgreement SVpn.SetUp SVpn.Programs SVpn.Trace
open SVpn.ServerStreams SVpn.System SVpn.Tunnel SVpn.Registration

variable {text : Stream} {ds : List Directive} {users : UserList}
variable {buffers : Cells UInt8 × Cells UInt8} {clientBuffers : UInt8 → Cells UInt8 × Cells UInt8}
variable {start : ℤ}

/-- The users with their first passwords; their addresses are what memory held. -/
def deployment (ds : List Directive) (memory : Memory) (buffers : Cells UInt8 × Cells UInt8)
    (clientBuffers : UInt8 → Cells UInt8 × Cells UInt8) (start : ℤ) : Deployment where
  localAddr := lastLocal ds
  users uid := (firstPassword ds uid).map passwordDigest
  addrs uid := (memory.heap uid).addr
  buffers := buffers
  clientBuffers := clientBuffers
  start := start

theorem ext_client {psc psc' : SvpnServer} (hlocal : psc.localAddr = psc'.localAddr)
    (hclient : ∀ uid, psc.client uid = psc'.client uid) : psc = psc' := by
  have hclients : psc.clients = psc'.clients := by
    apply ext_entry
    intro i
    rw [← slot_byteOf i]
    exact hclient (byteOf i)
  cases psc
  cases psc'
  cases hlocal
  cases hclients
  rfl

theorem server_launched (hconfig : Config text ds) {argv : List (List UInt8)} {stack : Cells UInt8}
    {fd fd' : ℤ} {sock : SockResults} {tun : TunResults} {niceRet : ℤ} {calls : List Call}
    {psc : SvpnServer} (hfile : users.file = some (fd', text))
    (hserver : Server.boot argv (some (fd, text)) stack sock tun users niceRet =
      some (calls, .loop psc)) :
    psc = (deployment ds users.memory buffers clientBuffers start).server := by
  obtain ⟨hlocal, hclients, -⟩ := serverBoot_config hconfig hfile hserver
  apply ext_client hlocal
  intro uid
  rw [hclients, Deployment.server, client_serverOf]
  change _ = ((firstPassword ds uid).map passwordDigest).map _
  rw [Option.map_map]
  rfl

theorem client_launched (hconfig : Config text ds) (memory : Memory) {uid : UInt8}
    {prog addr port id password : List UInt8} {rest : List (List UInt8)} {stack : Cells UInt8}
    {r : ClientResults} {statuses : Statuses} {calls : List Call} {c : ClientStart}
    (huser : firstPassword ds uid = some password) (hid : Digits id uid.toNat)
    (hclient : Client.boot (prog :: addr :: port :: id :: password :: rest) stack r statuses =
      some (calls, .loop c)) :
    (deployment ds memory buffers clientBuffers start).boot.clients uid =
      some ⟨c.table, (clientBuffers uid).1, (clientBuffers uid).2⟩ := by
  obtain ⟨rfl, -⟩ := clientBoot_loop (length_firstPassword hconfig huser) hid hclient
  change ((firstPassword ds uid).map passwordDigest).map _ = _
  rw [huser, Option.map_some, Option.map_some]
  rfl

/-- What user `uid` gets of the tunnel in a run with the history `h`, after which the
server is still there if `serving`. -/
structure Tunnels (laddr : Vector UInt8 4) (uid : UInt8) (h : List Event) (serving : Prop) :
    Prop where
  upOrder : (upReceived uid h).Sublist (upSent uid h) → (upWritten uid h).Sublist (upRead uid h)
  downOrder : (downReceived uid h).Sublist (downSent uid h) →
    (downWritten uid h).Sublist (downRead uid h)
  up : InNetwork laddr → serving → (∀ d ∈ datagramsOf (serverEffects h), Whole d) →
    (∀ p ∈ upRead uid h, FromOwn uid p) → upReceived uid h = upSent uid h →
    upWritten uid h = upRead uid h
  down : (∀ p ∈ downRead uid h, ClientSteps.VersionFour p) → downReceived uid h = downSent uid h →
    downWritten uid h = downRead uid h

theorem tunnels_of_run {env : List Event → Event → Prop} {D : Deployment} {h : List Event}
    {m : Parties} {uid : UInt8} {passmd5 : Digest} (run : Run env D h m)
    (huser : D.users uid = some passmd5) : Tunnels D.localAddr uid h (m.server ≠ none) where
  upOrder := upWritten_in_order run huser
  downOrder := downWritten_in_order run huser
  up := by
    intro hnetwork hserving hwhole hown hnet
    obtain ⟨s, hserver⟩ := Option.ne_none_iff_exists'.1 hserving
    rw [upWritten_lossless run huser hserver hwhole hnet, List.filter_eq_self]
    exact fun p hp => decide_eq_true ((sourceIs_fromOwn (hown p hp)).2 hnetwork)
  down := by
    intro hversion hnet
    rw [downWritten_lossless run huser hnet, List.filter_eq_self]
    exact fun p hp => decide_eq_true (hversion p hp)

/-- Server and clients are started by their `main`s on one configuration. Then the system
starts from what they start with, and in every run of it, with whatever other users and
whatever network, each configured user has a tunnel: in order where the network keeps the
order, and without loss where it loses nothing, if the client uses its own address and the
server's local address is in its network. -/
theorem programs_tunnel (hconfig : Config text ds) {argv : List (List UInt8)} {stack : Cells UInt8}
    {fd fd' : ℤ} {sock : SockResults} {tun : TunResults} {niceRet : ℤ} {calls : List Call}
    {psc : SvpnServer} (hfile : users.file = some (fd', text))
    (hserver : Server.boot argv (some (fd, text)) stack sock tun users niceRet =
      some (calls, .loop psc)) {uid : UInt8} {password : List UInt8}
    (huser : firstPassword ds uid = some password) :
    (deployment ds users.memory buffers clientBuffers start).boot.server =
      some (loopStart psc buffers.1 buffers.2 start) ∧
    (∀ prog addr port id rest stack' r statuses calls' c, Digits id uid.toNat →
      Client.boot (prog :: addr :: port :: id :: password :: rest) stack' r statuses =
        some (calls', .loop c) →
      (deployment ds users.memory buffers clientBuffers start).boot.clients uid =
        some ⟨c.table, (clientBuffers uid).1, (clientBuffers uid).2⟩) ∧
    ∀ env h m, Run env (deployment ds users.memory buffers clientBuffers start) h m →
      Tunnels (lastLocal ds) uid h (m.server ≠ none) := by
  refine ⟨?_, fun prog addr port id rest stack' r statuses calls' c hid hclient => ?_,
    fun env h m run => ?_⟩
  · rw [server_launched hconfig hfile hserver]
    rfl
  · exact client_launched hconfig users.memory huser hid hclient
  · exact tunnels_of_run run (congrArg (Option.map passwordDigest) huser)

def sampleLaunched : Deployment :=
  deployment sampleDirectives sampleMemory (fun _ => 0, fun _ => 0)
    (fun _ => (fun _ => 0, fun _ => 0)) 0

theorem user_sampleLaunched : sampleLaunched.users 6 = some (passwordDigest (chars "a")) :=
  congrArg (Option.map passwordDigest) password_sample

theorem server_sampleLaunched : sampleLaunched.server = sampleClients := by
  apply ext_client
  · rw [sampleClients, localAddr_foldl_addUser]
    decide
  · intro uid
    rw [sampleClients, client_config, Deployment.server, client_serverOf]
    change ((firstPassword sampleDirectives uid).map passwordDigest).map _ = _
    rw [Option.map_map]
    rfl

def sampleUp : List Event :=
  [.client 6 (sampleAddr 1) (.read samplePacket),
    .client 6 (sampleAddr 1) (.sendto helloDatagram.data 20)]

theorem run_sampleUp : ∃ m, Run (fun _ _ => True) sampleLaunched sampleUp m ∧
    m.server = some helloStart := by
  let c : ClientLoop.SvpnClient :=
    ⟨keyTable (passwordDigest (chars "a")) 6, fun _ => 0, fun _ => 0⟩
  have hc : sampleLaunched.boot.clients 6 = some c := by
    have hboot : sampleLaunched.boot.clients 6 = (sampleLaunched.users 6).map fun passmd5 =>
        ⟨keyTable passmd5 6, fun _ => 0, fun _ => 0⟩ := rfl
    rw [hboot, user_sampleLaunched, Option.map_some]
  have heffects : (ClientLoop.loopBody (.ready (some ⟨some samplePacket, 20⟩) none) c).1 = _ :=
    ClientSteps.loopBody_sent c rfl (by decide) (by decide)
  have hrun := (.start : Reaches (Step fun _ _ => True) sampleLaunched.boot [] _).step
    (.client hc (fun _ => sampleAddr 1) (.ready (some ⟨some samplePacket, 20⟩) none) (each_any _))
  rw [heffects] at hrun
  refine ⟨_, hrun, ?_⟩
  change some (loopStart sampleLaunched.server _ _ _) = _
  rw [server_sampleLaunched]
  rfl

theorem pass_sampleUp : ∃ shown, Talk shown ∧ loopBody outputInfo sampleHello helloStart =
    ⟨.recvfrom helloDatagram :: .accepted 6 (sampleAddr 1) :: (shown ++
      [.write 6 ((received helloDatagram.data).map sampleNode.table.decodeByte) 20]),
      .next helloAccepted⟩ :=
  pass_accepted rfl (accepts_hello rfl) rfl

/-- The client of user 6 reads a packet, and the server receives it. -/
theorem programs_tunnel_sample : ∃ h m, Run (fun _ _ => True) sampleLaunched h m ∧
    upRead 6 h = [samplePacket] ∧ upWritten 6 h = [samplePacket] := by
  obtain ⟨calls, psc, hserver⟩ := serverBoot_sample
  obtain ⟨m, run, hstart⟩ := run_sampleUp
  obtain ⟨shown, hshown, heq⟩ := pass_sampleUp
  have hstate : (loopBody outputInfo sampleHello helloStart).control.state = some helloAccepted := by
    rw [heq]
    rfl
  obtain ⟨m', run', hserving⟩ := run.server_pass hstart (each_any _) hstate
  generalize hes : (loopBody outputInfo sampleHello helloStart).effects = es at run'
  have hclients : clientEffects 6 (sampleUp ++ es.map .server) =
      [.read samplePacket, .sendto helloDatagram.data 20] := by
    rw [clientEffects_append, clientEffects_server, List.append_nil]
    rfl
  have hread : upRead 6 (sampleUp ++ es.map .server) = [samplePacket] := by
    rw [upRead, hclients]
    rfl
  have hone : datagramsOf (serverEffects (sampleUp ++ es.map .server)) = [helloDatagram] := by
    have hquiet : serverEffects sampleUp = [] := rfl
    rw [serverEffects_append, serverEffects_server, hquiet, ← hes, heq]
    simp [datagramOf, datagramsOf_talk hshown]
  have hnet : upReceived 6 (sampleUp ++ es.map .server) = upSent 6 (sampleUp ++ es.map .server) := by
    have hhead : helloDatagram.data.head? = some 6 :=
      head?_encrypted helloKey (p := samplePacket) (by decide)
    rw [upReceived, hone, named_cons, if_pos hhead, upSent, hclients]
    rfl
  have htunnel := (programs_tunnel sample_config rfl hserver password_sample).2.2 _ _ _ run'
  refine ⟨_, m', run', hread, ?_⟩
  rw [← hread]
  refine htunnel.up (by decide) (by simp [hserving]) ?_ ?_ hnet
  · rw [hone]
    intro d hd
    obtain rfl := List.mem_singleton.1 hd
    exact .inr (by decide)
  · rw [hread]
    intro p hp
    obtain rfl := List.mem_singleton.1 hp
    decide

end SVpn.Launch
