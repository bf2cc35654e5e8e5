import SVpn.ConfigAgreement
import SVpn.Ledger

set_option autoImplicit false

/-!
Setting the server and the client up: socket and tunnel are opened, and closed again
when a later step fails. The results of the system calls are given, one for each place
they are called from; what is printed between them is part of the history.
-/
namespace SVpn.SetUp
open SVpn.Region SVpn.Crypt SVpn.OutputInfo SVpn.ServerLoop SVpn.ConfigReader SVpn.ConfigGrammar
open SVpn.ConfigAgreement SVpn.Stdio SVpn.Ledger SVpn.KeyTable SVpn.SourceCheck

inductive Level where
  | info
  | warn
  | error
  | fatal

def Level.mark : Level → List UInt8
  | .info => chars "[Info] "
  | .warn => chars "[Warn] "
  | .error => chars "[Error] "
  | .fatal => chars "[Fatal] "

/-- `mprintf(level, fmt, ..)`; `text` is `fmt` with its arguments. -/
def mprintf (level : Level) (text : List UInt8) : List UInt8 := level.mark ++ text ++ [newline]

inductive SockOption where
  | rcvbuf
  | sndbuf
  deriving DecidableEq

/-- The calls of the set-up, each with its result. `eprintf` is `fprintf` on `stderr`,
and to the label of `perror` the C library adds a text for `errno`. -/
inductive SysCall where
  | fopen (fd : Option ℤ)
  | fclose (fd : ℤ)
  | socket (fd : ℤ)
  | setsockopt (fd : ℤ) (opt : SockOption) (value ret : ℤ)
  | getsockopt (fd : ℤ) (opt : SockOption) (ret : ℤ)
  | bind (fd : ℤ) (port : UInt16) (ret : ℤ)
  | openTun (fd : ℤ)
  | tunSetIff (fd ret : ℤ)
  | setTxqlen (fd : ℤ) (name : List UInt8) (qlen ret : ℤ)
  | system (cmd : List UInt8) (status : ℤ)
  | close (fd : ℤ)
  | sigaction
  | printf (text : List UInt8)
  | eprintf (text : List UInt8)
  | perror (label : List UInt8)

def ifOpened (fd : ℤ) : Option ℤ := if 0 ≤ fd then some fd else none

def SysCall.opens : SysCall → Option ℤ
  | .fopen fd => fd
  | .socket fd => ifOpened fd
  | .openTun fd => ifOpened fd
  | _ => none

def SysCall.closes : SysCall → Option ℤ
  | .fclose fd => some fd
  | .close fd => some fd
  | _ => none

def openAfter (calls : List SysCall) : List ℤ := held SysCall.opens SysCall.closes [] calls

/-- `rcvbuf` is the size that `getsockopt` stores if it succeeds. -/
structure SockResults where
  socket : ℤ
  setRcvbuf : ℤ
  setSndbuf : ℤ
  getRcvbuf : ℤ
  rcvbuf : ℤ
  bind : ℤ

/-- `ifrName` is the name of the interface, which the first `ioctl` writes. -/
structure TunResults where
  openTun : ℤ
  tunSetIff : ℤ
  ifrName : List UInt8
  ctlSocket : ℤ
  setTxqlen : ℤ
  up : ℤ
  mtu : ℤ
  address : ℤ

def signedDecimal (n : ℤ) : List UInt8 := chars (toString n)

/-- `if (ret == -1)`, with what is then printed. -/
def ifFailed (ret : ℤ) (shown : SysCall) : List SysCall := if ret = -1 then [shown] else []

def svpnSetTuntxqlen (name : List UInt8) (qlen : ℤ) (r : TunResults) : List SysCall :=
  .socket r.ctlSocket ::
    if 0 ≤ r.ctlSocket then
      .setTxqlen r.ctlSocket name qlen r.setTxqlen ::
        ((if r.setTxqlen < 0 then [.perror (chars "ioctl SIOCSIFTXQLEN")] else []) ++
          [.close r.ctlSocket])
    else []

/-- `if ((err = system(cmd)) != 0) return err;` for each command, with its status and the
line that is printed after it. -/
def runCommands : List (List UInt8 × ℤ × List UInt8) → List SysCall × ℤ
  | [] => ([], 0)
  | (cmd, err, line) :: rest =>
    if err ≠ 0 then ([.system cmd err], err)
    else
      let later := runCommands rest
      (.system cmd err :: .printf line :: later.1, later.2)

def inetNtoa (addr : Vector UInt8 4) : List UInt8 :=
  (chars ".").intercalate (addr.toList.map fun b => chars (toString b.toNat))

def ifconfigUp (devName : List UInt8) : List UInt8 := chars "ifconfig " ++ devName ++ chars " up"

def ifconfigMtu (devName : List UInt8) : List UInt8 := chars "ifconfig " ++ devName ++ chars " mtu 1400"

def ifconfigAddress (devName : List UInt8) (laddr : Vector UInt8 4) : List UInt8 :=
  chars "ifconfig " ++ devName ++ chars " " ++ inetNtoa laddr ++ chars "/24"

def ifconfigs (devName : List UInt8) (laddr : Vector UInt8 4) (r : TunResults) :
    List (List UInt8 × ℤ × List UInt8) :=
  [(ifconfigUp devName, r.up, chars "[Info] " ++ devName ++ chars " setup.\n"),
    (ifconfigMtu devName, r.mtu, chars "[Info] " ++ devName ++ chars " mtu = 1400\n"),
    (ifconfigAddress devName laddr, r.address,
      chars "[Info] Tunnel ipaddress " ++ inetNtoa laddr ++ [newline])]

/-- The calls, the name stored in `dev_name` if it is written, and the value returned. -/
def svpnTunCreate (laddr : Vector UInt8 4) (r : TunResults) :
    List SysCall × Option (List UInt8) × ℤ :=
  let fd := r.openTun
  if fd < 0 then ([.openTun fd, .perror (chars "tun_create")], none, fd)
  else
    let err := r.tunSetIff
    if err < 0 then ([.openTun fd, .tunSetIff fd err, .close fd], none, err)
    else
      let devName := r.ifrName
      let commands := runCommands (ifconfigs devName laddr r)
      ([.openTun fd, .tunSetIff fd err] ++ svpnSetTuntxqlen devName 1000 r ++ commands.1,
        some devName, if commands.2 ≠ 0 then commands.2 else fd)

/-- The buffer sizes are set and shown before the descriptor is looked at. -/
def sockBuffers (r : SockResults) : List SysCall :=
  let n : ℤ := 1024 * 8
  [.setsockopt r.socket .rcvbuf (1024 * 1024) r.setRcvbuf] ++
    ifFailed r.setRcvbuf (.eprintf (chars "[Error] Receive buffer failed to set.\n")) ++
    [.setsockopt r.socket .sndbuf n r.setSndbuf] ++
    ifFailed r.setSndbuf (.eprintf (chars "[Error] Send buffer size set failed.\n")) ++
    [.printf (chars "[Info] Sendbuffer = " ++ signedDecimal n), .getsockopt r.socket .rcvbuf r.getRcvbuf] ++
    ifFailed r.getRcvbuf (.eprintf (chars "[Error] Get recvbuffer size failed.\n")) ++
    [.printf (chars ", Recvbuffer = " ++ signedDecimal (if r.getRcvbuf = -1 then n else r.rcvbuf) ++
      [newline])]

def svpnSockCreate (port : UInt16) (r : SockResults) : List SysCall × ℤ :=
  let calls := .socket r.socket :: sockBuffers r
  if r.socket < 0 then (calls ++ [.perror (chars "[Fatal] Socket ")], -1)
  else if r.bind < 0 then
    (calls ++ [.bind r.socket port r.bind, .perror (chars "\x1b[0;40;32m[Fatal] Socket Bind "),
      .close r.socket], -1)
  else (calls ++ [.bind r.socket port r.bind], 0)

/-- The server as it is returned; `server` is what its loop works on. -/
structure ServerHandle where
  server : SvpnServer
  devName : List UInt8
  sockFd : ℤ
  tunFd : ℤ

/-- Lines 289 to 298: a port and a local address have been found. -/
def checkSettings (settings : Settings) : Option Settings :=
  if settings.port = 0 then none
  else if settings.laddr = Vector.replicate 4 0 then none
  else some settings

def missingSetting (settings : Settings) : List UInt8 :=
  if settings.port = 0 then mprintf .fatal (chars "No port specified")
  else mprintf .fatal (chars "No local address specified")

/-- Lines 300 to 331. -/
def svpnServerStart (settings : Settings) (sock : SockResults) (tun : TunResults) :
    List SysCall × Option ServerHandle :=
  let assigned := mprintf .info (chars "Assigned local address " ++ inetNtoa settings.laddr)
  let created := svpnSockCreate settings.port sock
  if created.2 < 0 then ([.printf assigned] ++ created.1, none)
  else
    let bound := mprintf .info (chars "Bind Server Port " ++ signedDecimal settings.port.toNat)
    let tunnel := svpnTunCreate settings.laddr tun
    let calls := ([.printf assigned] ++ created.1) ++ ([.printf bound] ++ tunnel.1)
    if tunnel.2.2 < 0 then (calls ++ [.close sock.socket], none)
    else
      (calls ++ [.sigaction], some
        { server := ⟨settings.laddr, Vector.replicate 256 none⟩
          devName := tunnel.2.1.getD []
          sockFd := sock.socket
          tunFd := tunnel.2.2 })

/-- `svpn_server_init`; `file` is the descriptor and the text of the configuration if
it can be opened. -/
def svpnServerInit (file : Option (ℤ × Stream)) (stack : Cells UInt8) (sock : SockResults)
    (tun : TunResults) : Option (List SysCall × Option ServerHandle) :=
  match file with
  | none => some ([.fopen none], none)
  | some (fd, fin) =>
    (svpnServerInitRead stack fin).map fun read =>
      match checkSettings read with
      | none => ([.fopen (some fd), .fclose fd, .printf (missingSetting read)], none)
      | some settings =>
        let started := svpnServerStart settings sock tun
        ([.fopen (some fd), .fclose fd] ++ started.1, started.2)

structure ClientResults where
  socket : ℤ
  setRcvbuf : ℤ
  getRcvbuf : ℤ
  rcvbuf : ℤ
  bind : ℤ
  openTun : ℤ
  tunSetIff : ℤ

def devNetTun : List UInt8 := chars "/dev/net/tun"

def Client.svpnTunCreate (r : ClientResults) : List SysCall × Option (List UInt8) × ℤ :=
  let fd := r.openTun
  if fd < 0 then ([.openTun fd, .perror (chars "tun_create")], none, fd)
  else
    let err := r.tunSetIff
    if err < 0 then ([.openTun fd, .tunSetIff fd err, .close fd], none, err)
    else ([.openTun fd, .tunSetIff fd err], some devNetTun, fd)

def Client.sockBuffers (r : ClientResults) : List SysCall :=
  let n : ℤ := 1024 * 1024
  [.setsockopt r.socket .rcvbuf n r.setRcvbuf] ++
    ifFailed r.setRcvbuf (.printf (chars "set recv_buf failed\n")) ++
    [.getsockopt r.socket .rcvbuf r.getRcvbuf] ++
    ifFailed r.getRcvbuf (.printf (chars "recv_buf not get\n")) ++
    [.printf (chars "recv_buf:" ++ signedDecimal (if r.getRcvbuf = -1 then n else r.rcvbuf) ++ [newline])]

/-- A socket that cannot be bound is not closed. -/
def Client.svpnSockCreate (r : ClientResults) : List SysCall × ℤ :=
  if r.socket < 0 then ([.socket r.socket, .perror (chars "socket")], -1)
  else
    let calls := .socket r.socket :: (Client.sockBuffers r ++ [.bind r.socket 123 r.bind])
    if r.bind < 0 then (calls ++ [.perror (chars "bind")], -2) else (calls, 0)

structure ClientHandle where
  table : CodeTable
  devName : List UInt8
  sockFd : ℤ
  tunFd : ℤ

/-- `svpn_init`; the table is built in memory that has been cleared, and the timestamp
is passed on as the identity, a byte. -/
def svpnInit (md5 : Digest) (timestamp : ℤ) (r : ClientResults) :
    Option (List SysCall × Option ClientHandle) :=
  (buildTable blank md5 (UInt8.ofInt timestamp)).map fun table =>
    let created := Client.svpnSockCreate r
    if created.2 < 0 then (created.1, none)
    else
      let tunnel := Client.svpnTunCreate r
      let calls := created.1 ++ tunnel.1
      if tunnel.2.2 < 0 then (calls ++ [.close r.socket], none)
      else
        (calls ++ [.sigaction], some
          { table
            devName := tunnel.2.1.getD []
            sockFd := r.socket
            tunFd := tunnel.2.2 })

def systemOf : SysCall → Option (List UInt8 × ℤ)
  | .system cmd status => some (cmd, status)
  | _ => none

def commandsOf (calls : List SysCall) : List (List UInt8 × ℤ) := calls.filterMap systemOf

/-- The socket of the server is bound, its `tun_fd` is the descriptor opened on the tunnel
device, and the three commands for its interface have succeeded. -/
structure Established (calls : List SysCall) (h : ServerHandle) : Prop where
  bound : ∃ port ret, .bind h.sockFd port ret ∈ calls ∧ 0 ≤ ret
  tunnel : .openTun h.tunFd ∈ calls ∧ ∃ ret, .tunSetIff h.tunFd ret ∈ calls ∧ 0 ≤ ret
  commands : commandsOf calls = [(ifconfigUp h.devName, 0), (ifconfigMtu h.devName, 0),
    (ifconfigAddress h.devName h.server.localAddr, 0)]

/-- A server that is returned is established, and nothing is left open without one. -/
def AllOrNothing (calls : List SysCall) (result : Option ServerHandle) : Prop :=
  (∀ h, result = some h → Established calls h) ∧ (result = none → openAfter calls = [])

def Configured (file : Option (ℤ × Stream)) (stack : Cells UInt8) : Prop :=
  ∃ fd fin settings, file = some (fd, fin) ∧ svpnServerInitRead stack fin = some settings ∧
    (checkSettings settings).isSome = true

structure CommandFails (sock : SockResults) (tun : TunResults) : Prop where
  socket : 0 ≤ sock.socket
  bind : 0 ≤ sock.bind
  openTun : 0 ≤ tun.openTun
  tunSetIff : 0 ≤ tun.tunSetIff
  command : tun.up ≠ 0 ∨ tun.mtu ≠ 0 ∨ tun.address ≠ 0

theorem openAfter_of_balanced {calls : List SysCall}
    (h : Balanced SysCall.opens SysCall.closes calls) : openAfter calls = [] := h []

theorem allOrNothing_none {calls : List SysCall}
    (h : Balanced SysCall.opens SysCall.closes calls) : AllOrNothing calls none :=
  ⟨fun _ heq => (nomatch heq), fun _ => openAfter_of_balanced h⟩

theorem ifOpened_eq {fd : ℤ} (h : 0 ≤ fd) : ifOpened fd = some fd := if_pos h

theorem ifOpened_neg {fd : ℤ} (h : fd < 0) : ifOpened fd = none := if_neg (by omega)

theorem balanced_idle {calls : List SysCall} (h : ∀ c ∈ calls, c.opens = none ∧ c.closes = none) :
    Balanced SysCall.opens SysCall.closes calls := balanced_of_idle h

def SysCall.minor : SysCall → Bool
  | .setsockopt .. | .getsockopt .. | .printf _ | .eprintf _ | .perror _ => true
  | _ => false

theorem idle_of_minor {c : SysCall} (h : c.minor = true) : c.opens = none ∧ c.closes = none := by
  cases c <;> first | exact ⟨rfl, rfl⟩ | cases h

theorem systemOf_minor {c : SysCall} (h : c.minor = true) : systemOf c = none := by
  cases c <;> first | rfl | cases h

theorem commandsOf_minor {calls : List SysCall} (h : ∀ c ∈ calls, c.minor = true) :
    commandsOf calls = [] :=
  List.filterMap_eq_nil_iff.2 fun c hc => systemOf_minor (h c hc)

theorem minor_ifFailed {ret : ℤ} {shown : SysCall} (h : shown.minor = true) :
    ∀ c ∈ ifFailed ret shown, c.minor = true := by
  unfold ifFailed
  split <;> simp [h]

theorem minor_sockBuffers (r : SockResults) : ∀ c ∈ sockBuffers r, c.minor = true := by
  simp only [sockBuffers, List.forall_mem_append]
  refine ⟨⟨⟨⟨⟨⟨?_, minor_ifFailed rfl⟩, ?_⟩, minor_ifFailed rfl⟩, ?_⟩, minor_ifFailed rfl⟩, ?_⟩ <;>
    simp [SysCall.minor]

theorem minor_clientBuffers (r : ClientResults) : ∀ c ∈ Client.sockBuffers r, c.minor = true := by
  simp only [Client.sockBuffers, List.forall_mem_append]
  refine ⟨⟨⟨⟨?_, minor_ifFailed rfl⟩, ?_⟩, minor_ifFailed rfl⟩, ?_⟩ <;> simp [SysCall.minor]

theorem balanced_printf (text : List UInt8) :
    Balanced SysCall.opens SysCall.closes [.printf text] :=
  balanced_idle (by simp [SysCall.opens, SysCall.closes])

theorem leaves_socket {fd : ℤ} (h : 0 ≤ fd) {later : List SysCall}
    (hlater : Balanced SysCall.opens SysCall.closes later) :
    Leaves SysCall.opens SysCall.closes fd (.socket fd :: later) :=
  leaves_cons (show SysCall.opens (.socket fd) = some fd from ifOpened_eq h) hlater

theorem leaves_openTun {fd : ℤ} (h : 0 ≤ fd) {later : List SysCall}
    (hlater : Balanced SysCall.opens SysCall.closes later) :
    Leaves SysCall.opens SysCall.closes fd (.openTun fd :: later) :=
  leaves_cons (show SysCall.opens (.openTun fd) = some fd from ifOpened_eq h) hlater

theorem balanced_close {calls : List SysCall} {fd : ℤ}
    (h : Leaves SysCall.opens SysCall.closes fd calls) :
    Balanced SysCall.opens SysCall.closes (calls ++ [.close fd]) :=
  h.release rfl rfl

theorem balanced_setTuntxqlen (name : List UInt8) (qlen : ℤ) (r : TunResults) :
    Balanced SysCall.opens SysCall.closes (svpnSetTuntxqlen name qlen r) := by
  unfold svpnSetTuntxqlen
  split
  · rename_i hopened
    have hset : Balanced SysCall.opens SysCall.closes
        (.setTxqlen r.ctlSocket name qlen r.setTxqlen ::
          if r.setTxqlen < 0 then [.perror (chars "ioctl SIOCSIFTXQLEN")] else []) := by
      apply balanced_idle
      split <;> simp [SysCall.opens, SysCall.closes]
    exact balanced_close (leaves_socket hopened hset)
  · rename_i hfailed
    apply balanced_of_idle
    simp [SysCall.opens, SysCall.closes, ifOpened, hfailed]

theorem balanced_runCommands (commands : List (List UInt8 × ℤ × List UInt8)) :
    Balanced SysCall.opens SysCall.closes (runCommands commands).1 := by
  apply balanced_of_idle
  induction commands with
  | nil => simp [runCommands]
  | cons command rest ih =>
    unfold runCommands
    split
    · simp [SysCall.opens, SysCall.closes]
    · exact List.forall_mem_cons.2 ⟨⟨rfl, rfl⟩, List.forall_mem_cons.2 ⟨⟨rfl, rfl⟩, ih⟩⟩

theorem runCommands_status (commands : List (List UInt8 × ℤ × List UInt8)) :
    (runCommands commands).2 = 0 ↔ ∀ c ∈ commands, c.2.1 = 0 := by
  induction commands with
  | nil => simp [runCommands]
  | cons command rest ih =>
    unfold runCommands
    split
    · rename_i hfails
      simp [hfails]
    · rename_i hworks
      simp [ih, not_not.1 hworks]

theorem commandsOf_append (calls later : List SysCall) :
    commandsOf (calls ++ later) = commandsOf calls ++ commandsOf later := List.filterMap_append

theorem commandsOf_runCommands {commands : List (List UInt8 × ℤ × List UInt8)}
    (h : (runCommands commands).2 = 0) :
    commandsOf (runCommands commands).1 = commands.map fun c => (c.1, c.2.1) := by
  induction commands with
  | nil => rfl
  | cons command rest ih =>
    unfold runCommands at h ⊢
    split at h
    · rename_i hfails
      exact absurd h hfails
    · rename_i hworks
      rw [if_neg hworks]
      change (command.1, command.2.1) :: commandsOf (runCommands rest).1 = _
      rw [ih h, List.map_cons]

theorem commandsOf_failed {commands : List (List UInt8 × ℤ × List UInt8)} (h : (runCommands commands).2 ≠ 0) :
    ∃ c ∈ commandsOf (runCommands commands).1, c.2 ≠ 0 := by
  induction commands with
  | nil => exact absurd rfl h
  | cons command rest ih =>
    unfold runCommands at h ⊢
    split at h
    · rename_i hfails
      rw [if_pos hfails]
      exact ⟨(command.1, command.2.1), List.mem_cons_self, hfails⟩
    · rename_i hworks
      rw [if_neg hworks]
      obtain ⟨c, hc, hne⟩ := ih h
      exact ⟨c, List.mem_cons_of_mem _ hc, hne⟩

theorem svpnSockCreate_cases (port : UInt16) (r : SockResults) :
    commandsOf (svpnSockCreate port r).1 = [] ∧
      ((¬ (0 ≤ r.socket ∧ 0 ≤ r.bind) ∧ (svpnSockCreate port r).2 < 0 ∧
        Balanced SysCall.opens SysCall.closes (svpnSockCreate port r).1) ∨
      (0 ≤ r.socket ∧ 0 ≤ r.bind ∧ (svpnSockCreate port r).2 = 0 ∧
        Leaves SysCall.opens SysCall.closes r.socket (svpnSockCreate port r).1 ∧
        .bind r.socket port r.bind ∈ (svpnSockCreate port r).1)) := by
  have hminor := minor_sockBuffers r
  have hquiet := commandsOf_minor hminor
  have hidle : Balanced SysCall.opens SysCall.closes (sockBuffers r) :=
    balanced_idle fun c hc => idle_of_minor (hminor c hc)
  have hcommands : ∀ last : List SysCall, commandsOf last = [] →
      commandsOf (.socket r.socket :: sockBuffers r ++ last) = [] := by
    intro last hlast
    rw [commandsOf_append, hlast, List.append_nil]
    exact hquiet
  unfold svpnSockCreate
  simp only
  split
  · rename_i hsocket
    refine ⟨hcommands _ rfl, .inl ⟨by omega, by omega, ?_⟩⟩
    have hfailed : Balanced SysCall.opens SysCall.closes [.socket r.socket] :=
      balanced_idle (by simp [SysCall.opens, SysCall.closes, ifOpened_neg hsocket])
    exact (hfailed.append hidle).append (balanced_idle (by simp [SysCall.opens, SysCall.closes]))
  · rename_i hsocket
    have hopen := leaves_socket (Int.not_lt.1 hsocket) hidle
    split
    · rename_i hbind
      have hlast : Balanced SysCall.opens SysCall.closes [.bind r.socket port r.bind,
          .perror (chars "\x1b[0;40;32m[Fatal] Socket Bind ")] :=
        balanced_idle (by simp [SysCall.opens, SysCall.closes])
      refine ⟨hcommands _ rfl, .inl ⟨by omega, by omega, ?_⟩⟩
      have hclosed := balanced_close (hopen.append hlast)
      rwa [List.append_assoc] at hclosed
    · have hbound : Balanced SysCall.opens SysCall.closes [.bind r.socket port r.bind] :=
        balanced_idle (by simp [SysCall.opens, SysCall.closes])
      exact ⟨hcommands _ rfl, .inr ⟨by omega, by omega, rfl, hopen.append hbound, by simp⟩⟩

theorem ifconfigs_status (laddr : Vector UInt8 4) (r : TunResults) :
    (runCommands (ifconfigs r.ifrName laddr r)).2 = 0 ↔ r.up = 0 ∧ r.mtu = 0 ∧ r.address = 0 := by
  rw [runCommands_status]
  simp [ifconfigs]

theorem svpnTunCreate_cases (laddr : Vector UInt8 4) (r : TunResults) :
    (¬ (0 ≤ r.openTun ∧ 0 ≤ r.tunSetIff) ∧ (svpnTunCreate laddr r).2.2 < 0 ∧
      Balanced SysCall.opens SysCall.closes (svpnTunCreate laddr r).1) ∨
    (0 ≤ r.openTun ∧ 0 ≤ r.tunSetIff ∧
      Leaves SysCall.opens SysCall.closes r.openTun (svpnTunCreate laddr r).1 ∧
      (svpnTunCreate laddr r).2 = (some r.ifrName,
        if (runCommands (ifconfigs r.ifrName laddr r)).2 ≠ 0 then (runCommands (ifconfigs r.ifrName laddr r)).2
        else r.openTun) ∧
      commandsOf (svpnTunCreate laddr r).1 = commandsOf (runCommands (ifconfigs r.ifrName laddr r)).1 ∧
      .openTun r.openTun ∈ (svpnTunCreate laddr r).1 ∧
      .tunSetIff r.openTun r.tunSetIff ∈ (svpnTunCreate laddr r).1) := by
  unfold svpnTunCreate
  simp only
  split
  · rename_i hopen
    refine .inl ⟨by omega, hopen, ?_⟩
    apply balanced_idle
    simp [SysCall.opens, SysCall.closes, ifOpened_neg hopen]
  · rename_i hopen
    have hset : Leaves SysCall.opens SysCall.closes r.openTun
        [.openTun r.openTun, .tunSetIff r.openTun r.tunSetIff] :=
      leaves_openTun (Int.not_lt.1 hopen) (balanced_idle (by simp [SysCall.opens, SysCall.closes]))
    split
    · rename_i hfails
      exact .inl ⟨by omega, hfails, balanced_close hset⟩
    · refine .inr ⟨by omega, by omega, ?_, rfl, ?_, by simp, by simp⟩
      · exact (hset.append (balanced_setTuntxqlen r.ifrName 1000 r)).append (balanced_runCommands _)
      · have hquiet : commandsOf (svpnSetTuntxqlen r.ifrName 1000 r) = [] := by
          unfold svpnSetTuntxqlen
          split
          · split <;> rfl
          · rfl
        rw [commandsOf_append, commandsOf_append, hquiet]
        rfl

theorem not_established_of_failed {calls : List SysCall} {h : ServerHandle}
    (hfailed : ∃ c ∈ commandsOf calls, c.2 ≠ 0) : ¬ Established calls h := by
  rintro ⟨-, -, hcommands⟩
  obtain ⟨c, hc, hne⟩ := hfailed
  rw [hcommands] at hc
  simp only [List.mem_cons, List.not_mem_nil, or_false] at hc
  rcases hc with rfl | rfl | rfl <;> exact hne rfl

theorem commandsOf_start {settings : Settings} {sock : SockResults} {tun : TunResults}
    {before : List SysCall} (hquiet : commandsOf before = [])
    (hsock : commandsOf (svpnSockCreate settings.port sock).1 = [])
    (htun : commandsOf (svpnTunCreate settings.laddr tun).1 =
      commandsOf (runCommands (ifconfigs tun.ifrName settings.laddr tun)).1)
    (assigned bound : List UInt8) (last : SysCall) :
    commandsOf (before ++ (([.printf assigned] ++ (svpnSockCreate settings.port sock).1) ++
      ([.printf bound] ++ (svpnTunCreate settings.laddr tun).1) ++ [last])) =
      commandsOf (runCommands (ifconfigs tun.ifrName settings.laddr tun)).1 ++ commandsOf [last] := by
  have hprintf : ∀ text, commandsOf [.printf text] = [] := fun _ => rfl
  rw [commandsOf_append, commandsOf_append, commandsOf_append, commandsOf_append, commandsOf_append,
    hquiet, hsock, htun, hprintf, hprintf]
  rfl

theorem svpnServerStart_iff (settings : Settings) (sock : SockResults) (tun : TunResults)
    {before : List SysCall} (hbefore : Balanced SysCall.opens SysCall.closes before)
    (hquiet : commandsOf before = []) :
    AllOrNothing (before ++ (svpnServerStart settings sock tun).1) (svpnServerStart settings sock tun).2 ↔
      ¬ CommandFails sock tun := by
  obtain ⟨hsockCommands, hsock⟩ := svpnSockCreate_cases settings.port sock
  have htun := svpnTunCreate_cases settings.laddr tun
  unfold svpnServerStart
  simp only
  generalize mprintf .info (chars "Assigned local address " ++ inetNtoa settings.laddr) = assigned
  generalize mprintf .info (chars "Bind Server Port " ++ signedDecimal settings.port.toNat) = bound
  have hassigned := hbefore.append (balanced_printf assigned)
  rcases hsock with ⟨hfails, hret, hbalanced⟩ | ⟨hsocket, hbind, hret, hleaves, hmem⟩
  · rw [if_pos hret]
    constructor
    · exact fun _ h => hfails ⟨h.socket, h.bind⟩
    · refine fun _ => allOrNothing_none ?_
      rw [← List.append_assoc]
      exact hassigned.append hbalanced
  · rw [if_neg (by omega)]
    have hopen := hassigned.append_leaves hleaves
    rw [List.append_assoc] at hopen
    rcases htun with ⟨hfails, htunRet, hbalanced⟩ | ⟨hfd, hset, htunLeaves, htunRet, hcommands, hmemOpen, hmemSet⟩
    · rw [if_pos htunRet]
      constructor
      · exact fun _ h => hfails ⟨h.openTun, h.tunSetIff⟩
      · refine fun _ => allOrNothing_none ?_
        rw [← List.append_assoc, ← List.append_assoc]
        exact balanced_close (hopen.append ((balanced_printf bound).append hbalanced))
    · have hcalls := commandsOf_start hquiet hsockCommands hcommands assigned bound
      by_cases hstatus : (runCommands (ifconfigs tun.ifrName settings.laddr tun)).2 = 0
      · have hworks := (ifconfigs_status settings.laddr tun).1 hstatus
        have hreturns : (svpnTunCreate settings.laddr tun).2.2 = tun.openTun := by
          rw [htunRet]
          exact if_neg (not_not.2 hstatus)
        have hname : (svpnTunCreate settings.laddr tun).2.1 = some tun.ifrName := by rw [htunRet]
        rw [hreturns, if_neg (by omega)]
        constructor
        · exact fun _ h => h.command.elim (· hworks.1) (·.elim (· hworks.2.1) (· hworks.2.2))
        · refine fun _ => ⟨?_, fun hnone => nomatch hnone⟩
          rintro h heq
          cases heq
          refine ⟨⟨settings.port, sock.bind, by simp [hmem], hbind⟩,
            ⟨by simp [hmemOpen], tun.tunSetIff, by simp [hmemSet], hset⟩, ?_⟩
          rw [hcalls, commandsOf_runCommands hstatus, hname, ifconfigs, hworks.1, hworks.2.1, hworks.2.2]
          rfl
      · have hfailed : ∀ last : SysCall, ∃ c ∈ commandsOf (before ++
            (([.printf assigned] ++ (svpnSockCreate settings.port sock).1) ++
              ([.printf bound] ++ (svpnTunCreate settings.laddr tun).1) ++ [last])), c.2 ≠ 0 := by
          intro last
          obtain ⟨c, hc, hne⟩ := commandsOf_failed hstatus
          rw [hcalls]
          exact ⟨c, List.mem_append_left _ hc, hne⟩
        have hcommand : tun.up ≠ 0 ∨ tun.mtu ≠ 0 ∨ tun.address ≠ 0 := by
          rw [ifconfigs_status] at hstatus
          tauto
        have hfails : CommandFails sock tun := ⟨hsocket, hbind, hfd, hset, hcommand⟩
        refine ⟨fun hall => absurd hall ?_, fun hnot => absurd hfails hnot⟩
        split
        · rintro ⟨-, hclosed⟩
          have htunnel := (balanced_printf bound).append_leaves htunLeaves
          have hheld := hopen.held_ne_nil htunnel (e := SysCall.close sock.socket) rfl rfl
          have hnil := hclosed rfl
          simp only [openAfter, List.append_assoc] at hheld hnil
          exact hheld hnil
        · rintro ⟨hestablished, -⟩
          exact not_established_of_failed (hfailed _) (hestablished _ rfl)

theorem svpnServerInit_iff {file : Option (ℤ × Stream)} {stack : Cells UInt8} {sock : SockResults}
    {tun : TunResults} {calls : List SysCall} {result : Option ServerHandle}
    (h : svpnServerInit file stack sock tun = some (calls, result)) :
    AllOrNothing calls result ↔ ¬ (Configured file stack ∧ CommandFails sock tun) := by
  have hread : ∀ fd : ℤ, Balanced SysCall.opens SysCall.closes [.fopen (some fd), .fclose fd] := by
    intro fd
    have hopen : Leaves SysCall.opens SysCall.closes fd [.fopen (some fd)] :=
      leaves_cons (show SysCall.opens (.fopen (some fd)) = some fd from rfl) balanced_nil
    exact hopen.release (e := SysCall.fclose fd) rfl rfl
  unfold svpnServerInit at h
  cases file with
  | none =>
    cases h
    constructor
    · rintro - ⟨⟨_, _, _, hfile, -⟩, -⟩
      cases hfile
    · exact fun _ => allOrNothing_none (balanced_idle (by simp [SysCall.opens, SysCall.closes]))
  | some file =>
    obtain ⟨fd, fin⟩ := file
    obtain ⟨settings, hsettings, heq⟩ := Option.map_eq_some_iff.1 h
    cases hcheck : checkSettings settings with
    | none =>
      simp only [hcheck] at heq
      cases heq
      constructor
      · rintro - ⟨⟨fd', fin', settings', hfile, hsettings', hsome⟩, -⟩
        cases hfile
        obtain rfl := Option.some.inj (hsettings.symm.trans hsettings')
        rw [hcheck] at hsome
        cases hsome
      · exact fun _ => allOrNothing_none (hread fd)
    | some checked =>
      simp only [hcheck] at heq
      cases heq
      have hconfigured : Configured (some (fd, fin)) stack :=
        ⟨fd, fin, settings, rfl, hsettings, by rw [hcheck]; rfl⟩
      rw [svpnServerStart_iff checked sock tun (hread fd) rfl]
      exact ⟨fun hnot hboth => hnot hboth.2, fun hnot hfails => hnot ⟨hconfigured, hfails⟩⟩

theorem Client.svpnSockCreate_cases (r : ClientResults) :
    (r.socket < 0 ∧ (Client.svpnSockCreate r).2 < 0 ∧
      Balanced SysCall.opens SysCall.closes (Client.svpnSockCreate r).1) ∨
    (0 ≤ r.socket ∧ ((Client.svpnSockCreate r).2 < 0 ↔ r.bind < 0) ∧
      Leaves SysCall.opens SysCall.closes r.socket (Client.svpnSockCreate r).1) := by
  have hidle : Balanced SysCall.opens SysCall.closes
      (Client.sockBuffers r ++ [.bind r.socket 123 r.bind]) := by
    refine Balanced.append (balanced_idle fun c hc => ?_) ?_
    · exact idle_of_minor (minor_clientBuffers r c hc)
    · exact balanced_idle (by simp [SysCall.opens, SysCall.closes])
  unfold Client.svpnSockCreate
  simp only
  split
  · rename_i hsocket
    refine .inl ⟨hsocket, by omega, balanced_idle ?_⟩
    simp [SysCall.opens, SysCall.closes, ifOpened_neg hsocket]
  · rename_i hsocket
    have hleaves := leaves_socket (Int.not_lt.1 hsocket) hidle
    split
    · rename_i hbind
      have hshown : Balanced SysCall.opens SysCall.closes [.perror (chars "bind")] :=
        balanced_idle (by simp [SysCall.opens, SysCall.closes])
      exact .inr ⟨by omega, by simp [hbind], hleaves.append hshown⟩
    · rename_i hbind
      exact .inr ⟨by omega, by simp [hbind], hleaves⟩

theorem Client.svpnTunCreate_balanced (r : ClientResults) (h : (Client.svpnTunCreate r).2.2 < 0) :
    Balanced SysCall.opens SysCall.closes (Client.svpnTunCreate r).1 := by
  unfold Client.svpnTunCreate at h ⊢
  simp only at h ⊢
  split at h
  · rename_i hopen
    rw [if_pos hopen]
    apply balanced_idle
    simp [SysCall.opens, SysCall.closes, ifOpened_neg hopen]
  · rename_i hopen
    rw [if_neg hopen]
    split at h
    · rename_i hset
      rw [if_pos hset]
      have hidle : Balanced SysCall.opens SysCall.closes [.tunSetIff r.openTun r.tunSetIff] :=
        balanced_idle (by simp [SysCall.opens, SysCall.closes])
      exact balanced_close (leaves_openTun (Int.not_lt.1 hopen) hidle)
    · exact absurd h hopen

theorem svpnInit_iff {md5 : Digest} {timestamp : ℤ} {r : ClientResults} {calls : List SysCall}
    {result : Option ClientHandle} (h : svpnInit md5 timestamp r = some (calls, result)) :
    (result = none → openAfter calls = []) ↔ ¬ (0 ≤ r.socket ∧ r.bind < 0) := by
  obtain ⟨table, -, heq⟩ := Option.map_eq_some_iff.1 h
  simp only at heq
  rcases Client.svpnSockCreate_cases r with ⟨hsocket, hret, hbalanced⟩ | ⟨hsocket, hret, hleaves⟩
  · rw [if_pos hret] at heq
    cases heq
    exact ⟨fun _ hleak => by omega, fun _ _ => openAfter_of_balanced hbalanced⟩
  · by_cases hbind : r.bind < 0
    · rw [if_pos (hret.2 hbind)] at heq
      cases heq
      refine ⟨fun hclosed => ?_, fun hnot => absurd ⟨hsocket, hbind⟩ hnot⟩
      have hopen := (hleaves []).symm.trans (hclosed rfl)
      cases hopen
    · rw [if_neg (fun hneg => hbind (hret.1 hneg))] at heq
      refine ⟨fun _ hleak => hbind hleak.2, ?_⟩
      rintro - rfl
      by_cases htun : (Client.svpnTunCreate r).2.2 < 0
      · rw [if_pos htun] at heq
        cases heq
        exact openAfter_of_balanced (balanced_close (hleaves.append (Client.svpnTunCreate_balanced r htun)))
      · rw [if_neg htun] at heq
        cases heq

/-- The server and the client keep their promises exactly if no command of the server
fails and the socket of the client can be bound. -/
theorem all_or_nothing (file : Option (ℤ × Stream)) (stack : Cells UInt8) (sock : SockResults)
    (tun : TunResults) (md5 : Digest) (timestamp : ℤ) (r : ClientResults)
    (calls clientCalls : List SysCall) (server : Option ServerHandle) (client : Option ClientHandle)
    (hserver : svpnServerInit file stack sock tun = some (calls, server))
    (hclient : svpnInit md5 timestamp r = some (clientCalls, client)) :
    (AllOrNothing calls server ∧ (client = none → openAfter clientCalls = [])) ↔
      ¬ (Configured file stack ∧ CommandFails sock tun) ∧ ¬ (0 ≤ r.socket ∧ r.bind < 0) :=
  and_congr (svpnServerInit_iff hserver) (svpnInit_iff hclient)

def sampleSock : SockResults := ⟨4, 0, 0, 0, 425984, 0⟩

def sampleTun (status : ℤ) : TunResults := ⟨5, 0, chars "tun0", 6, 0, status, 0, 0⟩

def sampleClient (bound : ℤ) : ClientResults := ⟨4, 0, 0, 425984, bound, 5, 0⟩

theorem svpnServerInit_sample (status : ℤ) :
    svpnServerInit (some (3, sampleText)) (fun _ => 0) sampleSock (sampleTun status) =
      some ([.fopen (some 3), .fclose 3] ++
        (svpnServerStart ⟨123, sampleLocal⟩ sampleSock (sampleTun status)).1,
        (svpnServerStart ⟨123, sampleLocal⟩ sampleSock (sampleTun status)).2) := by
  have hread : svpnServerInitRead (fun _ => 0) sampleText = some ⟨123, sampleLocal⟩ :=
    svpnServerInitRead_config sample_config _
  have hcheck : checkSettings ⟨123, sampleLocal⟩ = some ⟨123, sampleLocal⟩ := by decide
  simp only [svpnServerInit, hread, Option.map_some, hcheck]

theorem svpnInit_sample (bound : ℤ) : ∃ handle, svpnInit (Vector.replicate 16 0) 6 (sampleClient bound) =
    some (if bound < 0 then ((Client.svpnSockCreate (sampleClient bound)).1, none)
      else ((Client.svpnSockCreate (sampleClient bound)).1 ++
        (Client.svpnTunCreate (sampleClient bound)).1 ++ [.sigaction], some handle)) := by
  refine ⟨⟨keyTable (Vector.replicate 16 0) (UInt8.ofInt 6), devNetTun, 4, 5⟩, ?_⟩
  unfold svpnInit
  rw [buildTable_keyTable, Option.map_some]
  by_cases hbind : bound < 0
  · simp [sampleClient, Client.svpnSockCreate, hbind]
  · simp [sampleClient, Client.svpnSockCreate, Client.svpnTunCreate, hbind]

theorem all_or_nothing_sample : ∃ calls server,
    svpnServerInit (some (3, sampleText)) (fun _ => 0) sampleSock (sampleTun 0) = some (calls, server) ∧
      AllOrNothing calls server := by
  obtain ⟨handle, hclient⟩ := svpnInit_sample 0
  refine ⟨_, _, svpnServerInit_sample 0, ?_⟩
  refine ((all_or_nothing _ _ _ _ _ _ _ _ _ _ _ (svpnServerInit_sample 0) hclient).2 ⟨?_, by decide⟩).1
  rintro ⟨-, hfails⟩
  exact hfails.command.elim (· rfl) (·.elim (· rfl) (· rfl))

/-- A command that ends with a positive status makes that status the descriptor of the
tunnel; one that cannot be run leaves the tunnel open, as the client does its socket. -/
theorem status_as_descriptor :
    (∃ calls h, svpnServerInit (some (3, sampleText)) (fun _ => 0) sampleSock (sampleTun 256) =
      some (calls, some h) ∧ h.tunFd = 256 ∧ ¬ Established calls h) ∧
    (∃ calls, svpnServerInit (some (3, sampleText)) (fun _ => 0) sampleSock (sampleTun (-1)) =
      some (calls, none) ∧ openAfter calls = [5]) ∧
    ∃ calls, svpnInit (Vector.replicate 16 0) 6 (sampleClient (-1)) = some (calls, none) ∧
      openAfter calls = [4] := by
  refine ⟨⟨_, _, svpnServerInit_sample 256, rfl, ?_⟩, ⟨_, svpnServerInit_sample (-1), by decide⟩, ?_⟩
  · rintro ⟨-, ⟨hopened, -⟩, -⟩
    revert hopened
    simp [svpnServerStart, svpnSockCreate, sockBuffers, ifFailed, svpnTunCreate, runCommands, ifconfigs,
      svpnSetTuntxqlen, sampleSock, sampleTun]
  · obtain ⟨handle, hclient⟩ := svpnInit_sample (-1)
    exact ⟨_, hclient, by decide⟩

end SVpn.SetUp
