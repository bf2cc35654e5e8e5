import SVpn.Crypt
import SVpn.OutputInfo

set_option autoImplicit false

/-!
The packet loop of the server. One pass of the loop takes what `select`, the two
descriptors and the clock deliver, and gives the calls it makes and how it ends.
-/
namespace SVpn.ServerLoop
open SVpn.ArrayPermutation SVpn.Region SVpn.Crypt SVpn.OutputInfo

structure SockaddrIn6 where
  sin6Family : UInt16
  sin6Port : UInt16
  sin6Flowinfo : UInt32
  sin6Addr : Vector UInt8 16
  sin6ScopeId : UInt32
  deriving DecidableEq

structure SvpnClientNode where
  addr : SockaddrIn6
  table : CodeTable
  deriving DecidableEq

structure SvpnServer where
  localAddr : Vector UInt8 4
  clients : Vector (Option SvpnClientNode) 256

/-- `psc->clients[uid]`. -/
def SvpnServer.client (psc : SvpnServer) (uid : UInt8) : Option SvpnClientNode :=
  entry psc.clients (slot uid)

def SvpnServer.setClient (psc : SvpnServer) (uid : UInt8) (node : SvpnClientNode) : SvpnServer :=
  { psc with clients := psc.clients.set (slot uid) (some node) (slot uid).isLt }

/-- Byte `k` of `local_addr`. -/
def addrByte (localAddr : Vector UInt8 4) (k : ℕ) : UInt8 := localAddr.toArray.getD k 0

/-- Byte `k` of `src_ip`, at offset 12 of the IPv4 header. -/
def srcIp (pheader : Cells UInt8) (k : ℕ) : UInt8 := pheader (12 + k)

/-- Byte `k` of `dst_ip`, at offset 16 of the IPv4 header. -/
def dstIp (pheader : Cells UInt8) (k : ℕ) : UInt8 := pheader (16 + k)

structure Datagram where
  sender : SockaddrIn6
  data : List UInt8
  deriving DecidableEq

/-- The messages given to `mprintf`. -/
inductive Notice where
  | unknownUser (uid : UInt8)
  | invalidPassword (sender : SockaddrIn6)
  | clientMoved (uid : UInt8) (addr : SockaddrIn6)
  | userNotExist (uid : UInt8)
  | clientDisconnected (uid : UInt8)

/-- The calls of one pass in order, each with its result. `accepted` marks the
point where the source check has passed and `clients[uid]->addr` is the sender. -/
inductive Effect where
  | recvfrom (d : Datagram)
  | accepted (uid : UInt8) (addr : SockaddrIn6)
  | write (uid : UInt8) (packet : List UInt8) (ret : ℤ)
  | read (uid : UInt8) (packet : List UInt8)
  | sendto (uid : UInt8) (addr : SockaddrIn6) (datagram : List UInt8) (ret : ℤ)
  | printed (p : Printed)
  | notice (n : Notice)

/-- The socket is readable: what `recvfrom` delivers (`none` when it fails), and
the results the later calls of the branch would have. -/
structure SockReady where
  recv : Option Datagram
  writeRet : ℤ
  fopen : Bool

/-- The tunnel is readable: what `read` delivers, and the results of later calls. -/
structure TunReady where
  packet : Option (List UInt8)
  sendRet : ℤ
  fopen : Bool

/-- The result of `select`, with the clock reading taken after it. -/
inductive Select where
  | interrupted
  | failed
  | ready (clock : ℤ) (sock : Option SockReady) (tun : Option TunReady)

structure LoopState where
  psc : SvpnServer
  buffer : Cells UInt8
  tmpBuffer : Cells UInt8
  globals : Globals

/-- `next` falls through to the code after the branch, `skip` is `continue`,
`exit` returns from the function, and `fault` ends the process in a report. -/
inductive Control where
  | next (s : LoopState)
  | skip (s : LoopState)
  | exit
  | fault

def Control.state : Control → Option LoopState
  | .next s => some s
  | .skip s => some s
  | .exit => none
  | .fault => none

structure Outcome where
  effects : List Effect
  control : Control

def Outcome.andThen (o : Outcome) (rest : LoopState → Outcome) : Outcome :=
  match o.control with
  | .next s => ⟨o.effects ++ (rest s).effects, (rest s).control⟩
  | c => ⟨o.effects, c⟩

abbrev Reporter := Bool → Globals → List Printed × Option Globals

def countSend (g : Globals) (len : ℕ) : Globals :=
  { g with stat := { g.stat with
      totalSend := g.stat.totalSend + len
      totalPkgsend := g.stat.totalPkgsend + 1 } }

def countRecv (g : Globals) (len : ℤ) : Globals :=
  { g with stat := { g.stat with
      totalRecv := g.stat.totalRecv + len
      totalPkgrecv := g.stat.totalPkgrecv + 1 } }

/-- Lines 207 to 218: the source check has passed. -/
def acceptDatagram (report : Reporter) (ev : SockReady) (sender : SockaddrIn6) (uid : UInt8)
    (node : SvpnClientNode) (len : ℕ) (s : LoopState) : Outcome :=
  let moved := sender ≠ node.addr
  let psc := if moved then s.psc.setClient uid { node with addr := sender } else s.psc
  let notices := if moved then [Effect.notice (.clientMoved uid sender)] else []
  let reported := report ev.fopen (countSend s.globals len)
  let shown := .accepted uid sender :: notices ++ reported.1.map .printed
  match reported.2 with
  | none => ⟨shown, .fault⟩
  | some globals =>
    ⟨shown ++ [.write uid (load s.buffer len) ev.writeRet], .next { s with psc, globals }⟩

/-- Lines 180 to 219. -/
def sockBranch (report : Reporter) (ev : SockReady) (s : LoopState) : Outcome :=
  match ev.recv with
  | none => ⟨[], .skip s⟩
  | some d =>
    -- recvfrom fills the buffer from its start and cuts a longer datagram off
    let data := d.data.take bufferLen
    let len := data.length
    let s := { s with tmpBuffer := store s.tmpBuffer 0 data }
    if len ≤ 0 ∨ bufferLen < len then ⟨[.recvfrom d], .skip s⟩
    else
      let uid := s.tmpBuffer 0
      match s.psc.client uid with
      | none => ⟨[.recvfrom d, .notice (.unknownUser uid)], .skip s⟩
      | some node =>
        let s := { s with buffer := decrypt node.table s.tmpBuffer s.buffer len }
        if srcIp s.buffer 0 ≠ addrByte s.psc.localAddr 0 ∨ srcIp s.buffer 1 ≠ addrByte s.psc.localAddr 1 ∨
            srcIp s.buffer 2 ≠ addrByte s.psc.localAddr 2 ∨ srcIp s.buffer 3 ≠ uid then
          ⟨[.recvfrom d, .notice (.invalidPassword d.sender)], .skip s⟩
        else
          let o := acceptDatagram report ev d.sender uid node len s
          ⟨.recvfrom d :: o.effects, o.control⟩

/-- Lines 221 to 253. -/
def tunBranch (report : Reporter) (ev : TunReady) (s : LoopState) : Outcome :=
  match ev.packet with
  | none => ⟨[], .skip s⟩
  | some p =>
    let data := p.take bufferLen
    let len := data.length
    let s := { s with tmpBuffer := store s.tmpBuffer 0 data }
    if len ≤ 0 ∨ bufferLen < len then ⟨[], .skip s⟩
    else
      let uid := dstIp s.tmpBuffer 3
      match s.psc.client uid with
      | none => ⟨[.read uid data, .notice (.userNotExist uid)], .skip s⟩
      | some node =>
        let s := { s with buffer := encrypt node.table s.tmpBuffer s.buffer len }
        let sent := [.read uid data, .sendto uid node.addr (load s.buffer len) ev.sendRet]
        if ev.sendRet ≤ 0 then ⟨sent ++ [.notice (.clientDisconnected uid)], .skip s⟩
        else
          let reported := report ev.fopen (countRecv s.globals ev.sendRet)
          let shown := sent ++ reported.1.map .printed
          match reported.2 with
          | none => ⟨shown, .fault⟩
          | some globals => ⟨shown, .next { s with globals }⟩

/-- `if (FD_ISSET(...))`: the branch is taken when the descriptor is readable. -/
def ifSet {ε : Type} (ready : Option ε) (branch : ε → LoopState → Outcome) (s : LoopState) :
    Outcome :=
  match ready with
  | none => ⟨[], .next s⟩
  | some ev => branch ev s

/-- One pass of the `while` loop. -/
def loopBody (report : Reporter) (input : Select) (s : LoopState) : Outcome :=
  match input with
  | .interrupted => ⟨[], .exit⟩
  | .failed => ⟨[], .skip s⟩
  | .ready clock sock tun =>
    let s := { s with globals := { s.globals with stat := { s.globals.stat with tsCurrent := clock } } }
    (ifSet sock (sockBranch report) s).andThen (ifSet tun (tunBranch report))

def zeroStat : Tstat := ⟨0, 0, 0, 0, 0, 0, 0, 0, 0, 0, 0, 0⟩

/-- Lines 152 to 159; the two packet buffers hold whatever the stack held. -/
def loopStart (psc : SvpnServer) (buffer tmpBuffer : Cells UInt8) (clock : ℤ) : LoopState :=
  { psc
    buffer
    tmpBuffer
    globals :=
      { stat := { zeroStat with tsLast := clock }
        tlLast := 0
        frec := false
        fmtstr := store (fun _ => 0) 0 template } }

/-- `svpn_server_handle_thread`: the effects of a run of passes, and the state
after it unless the function has returned or the process has died. -/
def svpnServerHandleThread (report : Reporter) : List Select → LoopState →
    List Effect × Option LoopState
  | [], s => ([], some s)
  | input :: inputs, s =>
    let o := loopBody report input s
    match o.control.state with
    | none => (o.effects, none)
    | some s' =>
      let rest := svpnServerHandleThread report inputs s'
      (o.effects ++ rest.1, rest.2)

end SVpn.ServerLoop
