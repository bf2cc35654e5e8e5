import SVpn.AddressText
import SVpn.ClientRelay
import SVpn.UserNotices

set_option autoImplicit false

/-!
The two programs up to their packet loops. A client that is started with an id and its
first password in the configuration shares its key with the server; whether it can use the
address it gives itself is up to the local address of the server.
-/
namespace SVpn.Programs
open SVpn.ArrayPermutation SVpn.Region SVpn.Crypt SVpn.Md5 SVpn.KeyTable SVpn.OutputInfo
open SVpn.ServerLoop SVpn.ServerSteps SVpn.ServerRuns SVpn.SourceCheck SVpn.RoutingTable SVpn.Stdio
open SVpn.InetAddr SVpn.ConfigReader SVpn.ConfigGrammar SVpn.ConfigAgreement SVpn.SetUp
open SVpn.AddressText SVpn.UserNotices

/-- `atoi`: what `strtol` gives, cut to an `int`. -/
def atoi (s : List UInt8) : ℤ := toInt ((scanInt s).value.getD 0)

inductive Call where
  | sys (c : SysCall)
  | nice (inc ret : ℤ)

inductive Boot (σ : Type) where
  | exit (status : ℤ)
  | loop (start : σ)

/-- What the second reading of the file, the one for the users, finds and works on. -/
structure UserList where
  file : Option (ℤ × Stream)
  stack : Cells UInt8
  memory : Memory

/-- `svpn_server_init_client`, with the calls it makes; no server is left when it returns -1. -/
def svpnServerInitClientFile (users : UserList) (psc : SvpnServer) :
    Option (List SysCall × Option SvpnServer) :=
  match users.file with
  | none => some ([.fopen none], none)
  | some (fd, fin) =>
    (svpnServerInitClient users.memory users.stack psc fin).map fun read =>
      let shown := (initClientNotices users.memory users.stack psc fin).map userNoticeText
      ([.fopen (some fd)] ++ shown.map .printf ++ [.fclose fd], some read)

def Server.boot (argv : List (List UInt8)) (file : Option (ℤ × Stream)) (stack : Cells UInt8)
    (sock : SockResults) (tun : TunResults) (users : UserList) (niceRet : ℤ) :
    Option (List Call × Boot SvpnServer) :=
  if argv.length ≠ 2 then some ([.sys (.eprintf (chars "[Fatal] Argument invalid.\n"))], .exit (-1))
  else
    (svpnServerInit file stack sock tun).bind fun init =>
      match init.2 with
      | none =>
        some (init.1.map .sys ++ [.sys (.eprintf (chars "[Fatal] Failed to create server.\n"))], .exit (-1))
      | some handle =>
        (svpnServerInitClientFile users handle.server).map fun read =>
          let calls := init.1.map .sys ++ read.1.map .sys
          match read.2 with
          | none => (calls ++ [.sys (.eprintf (chars "[Fatal] Failed to initialze users.\n"))], .exit (-1))
          | some psc => (calls ++ [.nice (-19) niceRet], .loop psc)

structure SockaddrIn where
  sinFamily : UInt16
  sinPort : UInt16
  sinAddr : Vector UInt8 4

/-- `psc->server_addr`; a text that is no address leaves the zeros of the cleared memory. -/
def Client.serverAddr (addr : List UInt8) (port : UInt16) : SockaddrIn :=
  ⟨2, port, (inetPton addr).getD (Vector.replicate 4 0)⟩

structure ClientStart where
  table : CodeTable
  serverAddr : SockaddrIn

structure Statuses where
  up : ℤ
  address : ℤ
  mtu : ℤ

def ifconfigOwn (id : List UInt8) : List UInt8 :=
  chars "ifconfig tun0 192.168.3." ++ id ++ chars "/24"

def usage (name : List UInt8) : List UInt8 :=
  chars "need more parameters : " ++ name ++ chars " server_ip port id password\n"

/-- Nothing is returned for an id that does not fit `buffer[1024]`. -/
def Client.boot (argv : List (List UInt8)) (stack : Cells UInt8) (r : ClientResults)
    (statuses : Statuses) : Option (List Call × Boot ClientStart) :=
  match argv with
  | _ :: addr :: port :: id :: password :: _ =>
    (md5Fast stack (putString (fun _ => 0) password) (UInt32.ofNat password.length)).bind fun md5pd =>
      (svpnInit md5pd (atoi id) r).bind fun init =>
        match init.2 with
        | none => some (init.1.map .sys ++ [.sys (.printf (chars "null pointer!\n"))], .exit (-1))
        | some psc =>
          if (ifconfigOwn id).length < 1024 then
            some (init.1.map .sys ++
              [.sys (.system (ifconfigUp (chars "tun0")) statuses.up),
                .sys (.system (ifconfigOwn id) statuses.address),
                .sys (.system (ifconfigMtu (chars "tun0")) statuses.mtu),
                .sys (.printf (chars "client start\n"))],
              .loop ⟨psc.table, Client.serverAddr addr (UInt16.ofInt (atoi port))⟩)
          else none
  | _ => some ([.sys (.printf (usage (argv.head?.getD (chars "(null)"))))], .exit 0)

theorem atoi_digits {digits : List UInt8} {n : ℕ} (h : Digits digits n) (hn : n < 2 ^ 31) :
    atoi digits = n := by
  have hscan : scanInt digits = ⟨some (digitsValue digits : ℤ), []⟩ := by
    simpa using scanInt_digits blank_nil h.ne_nil h.isDigit (stops_nil isDigit)
      (h.value.trans_lt (hn.trans (by norm_num)))
  rw [atoi, hscan, Option.getD_some, h.value, toInt, Int.bmod_def]
  omega

theorem ofInt_atoi {digits : List UInt8} {b : UInt8} (h : Digits digits b.toNat) :
    UInt8.ofInt (atoi digits) = b := by
  have hlt := b.toNat_lt
  rw [atoi_digits h (by omega), UInt8.ofInt, ← UInt8.toNat_inj, UInt8.toNat_ofNat']
  omega

theorem ofInt_atoi_port {digits : List UInt8} {n : UInt16} (h : Digits digits n.toNat) :
    UInt16.ofInt (atoi digits) = n := by
  have hlt := n.toNat_lt
  rw [atoi_digits h (by omega), UInt16.ofInt, ← UInt16.toNat_inj, UInt16.toNat_ofNat']
  omega

variable {argv : List (List UInt8)} {stack : Cells UInt8} {text : Stream} {ds : List Directive}

theorem initClientFile_config (h : Config text ds) {users : UserList} {fd : ℤ}
    (hfile : users.file = some (fd, text)) (psc : SvpnServer) :
    svpnServerInitClientFile users psc =
      some ([.fopen (some fd)] ++ ((initClientNotices users.memory users.stack psc text).map
          userNoticeText).map .printf ++ [.fclose fd],
        some (ds.foldl (addUser users.memory) (clearClients psc))) := by
  unfold svpnServerInitClientFile
  rw [hfile]
  simp only [svpnServerInitClient_config h, Option.map_some]

theorem svpnServerStart_some {settings : Settings} {sock : SockResults} {tun : TunResults}
    {handle : ServerHandle} (h : (svpnServerStart settings sock tun).2 = some handle) :
    handle.server = ⟨settings.laddr, Vector.replicate 256 none⟩ ∧
      .bind sock.socket settings.port sock.bind ∈ (svpnServerStart settings sock tun).1 ∧
      0 ≤ sock.bind := by
  unfold svpnServerStart at h ⊢
  rcases (svpnSockCreate_cases settings.port sock).2 with ⟨-, hfailed, -⟩ | ⟨-, hret, hcreated, -, hbind⟩
  · rw [if_pos hfailed] at h
    cases h
  · have hopened : ¬ (svpnSockCreate settings.port sock).2 < 0 := by omega
    rw [if_neg hopened] at h ⊢
    simp only at h ⊢
    split_ifs at h ⊢ with htun
    cases h
    exact ⟨rfl, List.mem_append_left _ (List.mem_append_left _ (List.mem_append_right _ hbind)), hret⟩

theorem svpnServerInit_config (h : Config text ds) {fd : ℤ} {sock : SockResults} {tun : TunResults}
    {calls : List SysCall} {handle : ServerHandle}
    (hinit : svpnServerInit (some (fd, text)) stack sock tun = some (calls, some handle)) :
    handle.server = ⟨lastLocal ds, Vector.replicate 256 none⟩ ∧
      .bind sock.socket (lastPort ds) sock.bind ∈ calls ∧ 0 ≤ sock.bind := by
  rw [svpnServerInit, svpnServerInitRead_config h, foldl_nextSettings, Option.map_some] at hinit
  cases hcheck : checkSettings ⟨lastPort ds, lastLocal ds⟩ with
  | none =>
    rw [hcheck] at hinit
    cases hinit
  | some settings =>
    rw [hcheck, Option.some.injEq, Prod.mk.injEq] at hinit
    obtain ⟨rfl, hstart⟩ := hinit
    obtain rfl : settings = ⟨lastPort ds, lastLocal ds⟩ := by
      unfold checkSettings at hcheck
      split_ifs at hcheck
      exact (Option.some.inj hcheck).symm
    obtain ⟨hserver, hbind, hret⟩ := svpnServerStart_some hstart
    exact ⟨hserver, List.mem_append_right _ hbind, hret⟩

theorem serverBoot_config (h : Config text ds) {fd fd' : ℤ} {sock : SockResults} {tun : TunResults}
    {users : UserList} {niceRet : ℤ} {calls : List Call} {psc : SvpnServer}
    (hfile : users.file = some (fd', text))
    (hboot : Server.boot argv (some (fd, text)) stack sock tun users niceRet =
      some (calls, .loop psc)) :
    psc.localAddr = lastLocal ds ∧
      (∀ uid, psc.client uid = (firstPassword ds uid).map (userNode users.memory uid)) ∧
      .sys (.bind sock.socket (lastPort ds) sock.bind) ∈ calls ∧ 0 ≤ sock.bind := by
  unfold Server.boot at hboot
  split_ifs at hboot
  · cases hboot
  · obtain ⟨⟨initCalls, result⟩, hinit, hrest⟩ := Option.bind_eq_some_iff.1 hboot
    cases result with
    | none => cases hrest
    | some handle =>
      obtain ⟨hserver, hbind, hret⟩ := svpnServerInit_config h hinit
      simp only [initClientFile_config h hfile, Option.map_some, Option.some.injEq, Prod.mk.injEq,
        Boot.loop.injEq] at hrest
      obtain ⟨rfl, rfl⟩ := hrest
      refine ⟨?_, fun uid => client_config users.memory ds handle.server uid, ?_, hret⟩
      · rw [localAddr_foldl_addUser, hserver]
        rfl
      · simp [hbind]

theorem length_firstPassword (h : Config text ds) {uid : UInt8} {password : List UInt8}
    (huser : firstPassword ds uid = some password) : password.length < 127 := by
  obtain ⟨lines, -, hlines⟩ := h
  obtain ⟨d, hd, hsome⟩ := List.exists_of_findSome?_eq_some huser
  exact password_lines hlines (passwordOf_eq_some.1 hsome ▸ hd)

theorem svpnInit_some {md5 : Digest} {timestamp : ℤ} {r : ClientResults} {calls : List SysCall}
    {psc : ClientHandle} (h : svpnInit md5 timestamp r = some (calls, some psc)) :
    psc.table = keyTable md5 (UInt8.ofInt timestamp) := by
  rw [svpnInit, buildTable_keyTable, Option.map_some, Option.some.injEq] at h
  simp only at h
  split_ifs at h
  · cases h
  · cases h
  · cases h
    rfl

theorem clientBoot_loop {prog addr port id password : List UInt8} {rest : List (List UInt8)}
    {r : ClientResults} {statuses : Statuses} {calls : List Call} {c : ClientStart} {uid : UInt8}
    (hpassword : password.length < 127) (hid : Digits id uid.toNat)
    (hboot : Client.boot (prog :: addr :: port :: id :: password :: rest) stack r statuses =
      some (calls, .loop c)) :
    c = ⟨keyTable (passwordDigest password) uid, Client.serverAddr addr (UInt16.ofInt (atoi port))⟩ ∧
      .sys (.system (ifconfigOwn id) statuses.address) ∈ calls := by
  have hshort : password.length + 1 ≤ tmpLen := by
    rw [tmpLen]
    omega
  have hdigest : md5Fast stack (putString (fun _ => 0) password) (UInt32.ofNat password.length) =
      some (passwordDigest password) := by
    apply md5Fast_password hshort
    apply List.ext_getElem (length_load _ _)
    intro k hk hk'
    rw [getElem_load, putString, store_zero_lt _ _ _ (by rw [List.length_append]; omega),
      List.getElem_append_left hk']
  rw [Client.boot, hdigest, Option.bind_some] at hboot
  obtain ⟨⟨initCalls, result⟩, hinit, hstart⟩ := Option.bind_eq_some_iff.1 hboot
  cases result with
  | none => cases hstart
  | some psc =>
    have htable := svpnInit_some hinit
    rw [ofInt_atoi hid] at htable
    simp only at hstart
    split_ifs at hstart
    cases hstart
    rw [htable]
    exact ⟨rfl, by simp⟩

theorem ifconfigOwn_numeral {id : List UInt8} {uid : UInt8} (hid : Numeral id uid.toNat) :
    ifconfigOwn id = chars "ifconfig tun0 " ++ inetNtoa #v[192, 168, 3, uid] ++ chars "/24" := by
  have hnetwork : octet 192 ++ dot :: (octet 168 ++ dot :: (octet 3 ++ [dot])) = chars "192.168.3." := by
    decide
  have hprefix : chars "ifconfig tun0 192.168.3." = chars "ifconfig tun0 " ++ chars "192.168.3." := by
    decide
  rw [ifconfigOwn, hprefix, inetNtoa_eq, ← numeral_unique hid (numeral_octet uid), ← hnetwork, dotted]
  simp

def InNetwork (laddr : Vector UInt8 4) : Prop :=
  addrByte laddr 0 = 192 ∧ addrByte laddr 1 = 168 ∧ addrByte laddr 2 = 3

instance (laddr : Vector UInt8 4) : Decidable (InNetwork laddr) :=
  inferInstanceAs (Decidable (_ ∧ _ ∧ _))

/-- A packet from the address that a client with this id gives itself. -/
def FromOwn (uid : UInt8) (p : List UInt8) : Prop :=
  p[12]? = some 192 ∧ p[13]? = some 168 ∧ p[14]? = some 3 ∧ p[15]? = some uid

instance (uid : UInt8) (p : List UInt8) : Decidable (FromOwn uid p) :=
  inferInstanceAs (Decidable (_ ∧ _ ∧ _ ∧ _))

theorem sourceIs_fromOwn {laddr : Vector UInt8 4} {uid : UInt8} {p : List UInt8}
    (h : FromOwn uid p) : SourceIs laddr uid p ↔ InNetwork laddr := by
  obtain ⟨h0, h1, h2, h3⟩ := h
  unfold SourceIs InNetwork
  rw [h0, h1, h2, h3, Option.some.injEq, Option.some.injEq, Option.some.injEq]
  constructor
  · rintro ⟨ha, hb, hc, -⟩
    exact ⟨ha.symm, hb.symm, hc.symm⟩
  · rintro ⟨ha, hb, hc⟩
    exact ⟨ha.symm, hb.symm, hc.symm, rfl⟩

theorem table_in_run {psc : SvpnServer} {buffer tmpBuffer : Cells UInt8} {clock : ℤ}
    {inputs : List Select} {s : LoopState} {uid : UInt8} {node : SvpnClientNode}
    (hrun : (svpnServerHandleThread outputInfo inputs (loopStart psc buffer tmpBuffer clock)).2 = some s)
    (hclient : psc.client uid = some node) :
    s.psc.localAddr = psc.localAddr ∧
      ∃ node', s.psc.client uid = some node' ∧ node'.table = node.table := by
  have hrouted := routed_of_handleThread hrun
  refine ⟨hrouted.localAddr, ?_⟩
  have hnow := hrouted.clients uid
  rw [show (loopStart psc buffer tmpBuffer clock).psc.client uid = some node from hclient] at hnow
  exact ⟨_, hnow, rfl⟩

/-- A server and a client are started on the same configuration, the client with the id of
a user and its first password. Then the client sends to the port the server is bound to, if
it is given that port; both have the same key; and whatever the server has done since, it
accepts the packets of the client's own address, or refuses them all if the local address
is in another network. -/
theorem config_to_wire (hconfig : Config text ds) {uid : UInt8} {password id : List UInt8}
    (huser : firstPassword ds uid = some password) (hid : Numeral id uid.toNat)
    {fd fd' : ℤ} {sock : SockResults} {tun : TunResults} {users : UserList} {niceRet : ℤ}
    {calls : List Call} {psc : SvpnServer} (hfile : users.file = some (fd', text))
    (hserver : Server.boot argv (some (fd, text)) stack sock tun users niceRet =
      some (calls, .loop psc))
    {prog addr port : List UInt8} {rest : List (List UInt8)} {stack' : Cells UInt8}
    {r : ClientResults} {statuses : Statuses} {calls' : List Call} {c : ClientStart}
    (hclient : Client.boot (prog :: addr :: port :: id :: password :: rest) stack' r statuses =
      some (calls', .loop c)) :
    .sys (.bind sock.socket (lastPort ds) sock.bind) ∈ calls ∧
    (Digits port (lastPort ds).toNat → c.serverAddr.sinPort = lastPort ds) ∧
    .sys (.system (chars "ifconfig tun0 " ++ inetNtoa #v[192, 168, 3, uid] ++ chars "/24")
      statuses.address) ∈ calls' ∧
    ∀ buffer tmpBuffer clock inputs s,
      (svpnServerHandleThread outputInfo inputs (loopStart psc buffer tmpBuffer clock)).2 = some s →
      (s.psc.client uid).map (·.table) = some c.table ∧
      ∀ now ev tun sender p, HeaderPacket p → FromOwn uid p →
        ev.recv = some ⟨sender, p.map c.table.encodeByte⟩ →
        let effects := (loopBody outputInfo (.ready now (some ev) tun) s).effects
        acceptedOf effects = (if InNetwork (lastLocal ds) then [(uid, sender)] else []) ∧
          ∀ x ∈ writesOf effects, x = (uid, p) := by
  obtain ⟨hlocal, hclients, hbind, -⟩ := serverBoot_config hconfig hfile hserver
  obtain ⟨rfl, haddress⟩ := clientBoot_loop (length_firstPassword hconfig huser) hid.toDigits hclient
  rw [ifconfigOwn_numeral hid] at haddress
  refine ⟨hbind, ofInt_atoi_port, haddress, fun buffer tmpBuffer clock inputs s hrun => ?_⟩
  have hnode : psc.client uid = some (userNode users.memory uid password) := by
    rw [hclients, huser, Option.map_some]
  obtain ⟨hlocal', node, hnow, htable⟩ := table_in_run hrun hnode
  have hkey : node.table = (key (passwordDigest password) uid).table := htable
  refine ⟨by rw [hnow, Option.map_some, htable]; rfl, ?_⟩
  intro now ev tun sender p hp hown hrecv
  change ev.recv = some ⟨sender, p.map (key (passwordDigest password) uid).table.encodeByte⟩ at hrecv
  have haccepts := accepts_encrypted_iff (key (passwordDigest password) uid) (s := s)
    (d := ⟨sender, _⟩) hp rfl hnow hkey
  rw [hlocal', hlocal, sourceIs_fromOwn hown] at haccepts
  by_cases hnetwork : InNetwork (lastLocal ds)
  · obtain ⟨haccepted, hwrites, -⟩ := pass_accepts outputInfo now tun hrecv (haccepts.2 hnetwork)
    simp only [if_pos hnetwork]
    refine ⟨haccepted, ?_⟩
    have hplain : (received (p.map (key (passwordDigest password) uid).table.encodeByte)).map
        node.table.decodeByte = p := by
      rw [received_eq (by simpa using hp.2.1), hkey,
        (key (passwordDigest password) uid).map_decode_encode]
    rw [hwrites, hplain]
    cases (sendReport outputInfo ev (tick s now) _).2 <;> simp
  · have hrefused : ∀ uid' node', ¬ Accepts s ⟨sender, p.map
        (key (passwordDigest password) uid).table.encodeByte⟩ uid' node' := by
      intro uid' node' ha
      have hhead := head?_encrypted (key (passwordDigest password) uid) hp
      obtain rfl : uid' = uid := Option.some.inj (ha.head.symm.trans hhead)
      obtain rfl : node' = node := Option.some.inj (ha.client.symm.trans hnow)
      exact hnetwork (haccepts.1 ha)
    obtain ⟨haccepted, hwrites⟩ := pass_refuses outputInfo now tun hrecv hrefused
    simp only [if_neg hnetwork]
    refine ⟨haccepted, ?_⟩
    rw [hwrites]
    exact fun x hx => absurd hx List.not_mem_nil

/-- The address a client sends to is the one that its argument spells as `inet_ntoa` would.
Any other argument makes it 0.0.0.0, and nothing else of the start depends on it. -/
theorem peer_address {prog addr port id password : List UInt8} {rest : List (List UInt8)}
    {r : ClientResults} {statuses : Statuses} {calls : List Call} {c : ClientStart}
    (hboot : Client.boot (prog :: addr :: port :: id :: password :: rest) stack r statuses =
      some (calls, .loop c)) (addr' : List UInt8) :
    ∃ peer, Client.boot (prog :: addr' :: port :: id :: password :: rest) stack r statuses =
        some (calls, .loop ⟨c.table, ⟨2, UInt16.ofInt (atoi port), peer⟩⟩) ∧
      ((∃ a, addr' = inetNtoa a) → addr' = inetNtoa peer) ∧
      ((∀ a, addr' ≠ inetNtoa a) → peer = Vector.replicate 4 0) := by
  obtain ⟨md5pd, hdigest, hbind⟩ := Option.bind_eq_some_iff.1 hboot
  obtain ⟨⟨initCalls, result⟩, hinit, hstart⟩ := Option.bind_eq_some_iff.1 hbind
  refine ⟨(inetPton addr').getD (Vector.replicate 4 0), ?_, ?_, fun hnone => ?_⟩
  · rw [Client.boot, hdigest, Option.bind_some, hinit, Option.bind_some]
    cases result with
    | none => cases hstart
    | some psc =>
      simp only at hstart ⊢
      split_ifs at hstart ⊢
      cases hstart
      rfl
  · rintro ⟨a, rfl⟩
    rw [inetPton_eq_some.2 rfl, Option.getD_some]
  · cases hpton : inetPton addr' with
    | none => rfl
    | some a => exact absurd (inetPton_eq_some.1 hpton) (hnone a)

theorem svpnInit_opened {md5 : Digest} {timestamp : ℤ} {r : ClientResults} (hsocket : 0 ≤ r.socket)
    (hbind : 0 ≤ r.bind) (hopen : 0 ≤ r.openTun) (hset : 0 ≤ r.tunSetIff) :
    ∃ calls psc, svpnInit md5 timestamp r = some (calls, some psc) := by
  have hcreated : (Client.svpnSockCreate r).2 = 0 := by
    unfold Client.svpnSockCreate
    simp only
    rw [if_neg (by omega), if_neg (by omega)]
  have htunnel : (Client.svpnTunCreate r).2.2 = r.openTun := by
    unfold Client.svpnTunCreate
    simp only
    rw [if_neg (by omega), if_neg (by omega)]
  rw [svpnInit, buildTable_keyTable, Option.map_some]
  simp only
  rw [if_neg (by omega), if_neg (by omega)]
  exact ⟨_, _, rfl⟩

def sampleArgs (addr : String) : List (List UInt8) :=
  [chars "svpn_client", chars addr, chars "123", chars "6", chars "a"]

theorem clientBoot_sample (addr : String) : ∃ calls c,
    Client.boot (sampleArgs addr) (fun _ => 0) (sampleClient 0) ⟨0, 0, 0⟩ =
      some (calls, .loop c) := by
  have hdigest : md5Fast (fun _ => 0) (putString (fun _ => 0) (chars "a"))
      (UInt32.ofNat (chars "a").length) = some (passwordDigest (chars "a")) :=
    md5Fast_password (by decide) _ (by decide)
  have hinit : ∃ calls psc, svpnInit (passwordDigest (chars "a")) (atoi (chars "6")) (sampleClient 0) =
      some (calls, some psc) :=
    svpnInit_opened (by decide) (by decide) (by decide) (by decide)
  obtain ⟨calls, psc, hinit⟩ := hinit
  rw [sampleArgs, Client.boot, hdigest, Option.bind_some, hinit, Option.bind_some]
  exact ⟨_, _, if_pos (by decide)⟩

theorem password_sample : firstPassword sampleDirectives 6 = some (chars "a") := by decide

theorem serverBoot_sample : ∃ calls psc,
    Server.boot [chars "svpn_server", chars "config"] (some (3, sampleText)) (fun _ => 0) sampleSock
      (sampleTun 0) ⟨some (3, sampleText), fun _ => 0, sampleMemory⟩ 0 = some (calls, .loop psc) := by
  have hargs : ¬ [chars "svpn_server", chars "config"].length ≠ 2 := by simp
  have hstart : (svpnServerStart ⟨123, sampleLocal⟩ sampleSock (sampleTun 0)).2 =
      some ⟨⟨sampleLocal, Vector.replicate 256 none⟩, chars "tun0", 4, 5⟩ := rfl
  rw [Server.boot, if_neg hargs, svpnServerInit_sample, Option.bind_some, hstart]
  simp only
  rw [initClientFile_config sample_config rfl, Option.map_some]
  exact ⟨_, _, rfl⟩

theorem config_to_wire_sample : ∃ c : ClientStart, ∃ calls,
    Client.boot (sampleArgs "10.0.0.1") (fun _ => 0) (sampleClient 0) ⟨0, 0, 0⟩ =
      some (calls, .loop c) ∧ c.serverAddr.sinPort = 123 := by
  obtain ⟨calls', c, hclient⟩ := clientBoot_sample "10.0.0.1"
  obtain ⟨calls, psc, hserver⟩ := serverBoot_sample
  refine ⟨c, calls', hclient, ?_⟩
  have hid : Numeral (chars "6") (6 : UInt8).toNat := by decide
  exact (config_to_wire sample_config password_sample hid rfl hserver hclient).2.1 (by decide)

/-- With a leading zero the argument is no address, though the server would take it for one. -/
theorem peer_address_sample : ∃ calls table,
    Client.boot (sampleArgs "10.0.0.01") (fun _ => 0) (sampleClient 0) ⟨0, 0, 0⟩ =
      some (calls, .loop ⟨table, ⟨2, UInt16.ofInt (atoi (chars "123")), Vector.replicate 4 0⟩⟩) ∧
      inetAddr (chars "10.0.0.01") = #v[10, 0, 0, 1] := by
  obtain ⟨calls, c, hclient⟩ := clientBoot_sample "10.0.0.1"
  obtain ⟨peer, hboot, -, hnone⟩ := peer_address hclient (chars "10.0.0.01")
  have hmalformed : inetPton (chars "10.0.0.01") = none := by decide
  have hpeer : peer = Vector.replicate 4 0 := by
    refine hnone fun a heq => ?_
    rw [inetPton_eq_some.2 heq] at hmalformed
    cases hmalformed
  exact ⟨calls, c.table, hpeer ▸ hboot, by decide⟩

end SVpn.Programs
