import SVpn.Crypt

set_option autoImplicit false

/-! The packet loop of the client, which reads its tunnel before its socket. -/
namespace SVpn.ClientLoop
open SVpn.Region SVpn.Crypt

inductive ClientEffect where
  | read (packet : List UInt8)
  | sendto (datagram : List UInt8) (ret : ℤ)
  | recvfrom (datagram : List UInt8)
  | write (packet : List UInt8) (ret : ℤ)
  | dropped

/-- What `read` delivers (`none` when it fails) and what `sendto` would return. -/
structure TunReady where
  packet : Option (List UInt8)
  sendRet : ℤ

/-- What `recvfrom` delivers (`none` when it fails) and what `write` would return. -/
structure SockReady where
  recv : Option (List UInt8)
  writeRet : ℤ

inductive Select where
  | interrupted
  | failed
  | ready (tun : Option TunReady) (sock : Option SockReady)

structure SvpnClient where
  table : CodeTable
  buffer : Cells UInt8
  tmpBuffer : Cells UInt8

/-- Lines 53 to 77; the flag is false after `continue`. An empty packet is sent on. -/
def tunBranch (ev : TunReady) (s : SvpnClient) : List ClientEffect × SvpnClient × Bool :=
  match ev.packet with
  | none => ([], s, false)
  | some p =>
    let data := p.take bufferLen
    let len := data.length
    let s := { s with tmpBuffer := store s.tmpBuffer 0 data }
    let s := { s with buffer := encrypt s.table s.tmpBuffer s.buffer len }
    let sent := [.read data, .sendto (load s.buffer len) ev.sendRet]
    (if ev.sendRet ≤ 0 then sent ++ [.dropped] else sent, s, true)

/-- Lines 79 to 96. -/
def sockBranch (ev : SockReady) (s : SvpnClient) : List ClientEffect × SvpnClient :=
  match ev.recv with
  | none => ([], s)
  | some d =>
    let data := d.take bufferLen
    let len := data.length
    let s := { s with tmpBuffer := store s.tmpBuffer 0 data }
    let s := { s with buffer := decrypt s.table s.tmpBuffer s.buffer len }
    if s.buffer 0 >>> (4 : UInt8) ≠ 4 then ([.recvfrom d], s)
    else ([.recvfrom d, .write (load s.buffer len) ev.writeRet], s)

/-- One pass of the `while` loop; no state is left when the function returns. -/
def loopBody (input : Select) (s : SvpnClient) : List ClientEffect × Option SvpnClient :=
  match input with
  | .interrupted => ([], none)
  | .failed => ([], some s)
  | .ready tun sock =>
    let first := match tun with
      | none => ([], s, true)
      | some ev => tunBranch ev s
    if first.2.2 then
      match sock with
      | none => (first.1, some first.2.1)
      | some ev =>
        let second := sockBranch ev first.2.1
        (first.1 ++ second.1, some second.2)
    else (first.1, some first.2.1)

/-- `svpn_handle_thread`: the calls of a run of passes, and the state after it unless
the function has returned. -/
def svpnHandleThread : List Select → SvpnClient → List ClientEffect × Option SvpnClient
  | [], s => ([], some s)
  | input :: inputs, s =>
    match (loopBody input s).2 with
    | none => ((loopBody input s).1, none)
    | some s' =>
      let rest := svpnHandleThread inputs s'
      ((loopBody input s).1 ++ rest.1, rest.2)

end SVpn.ClientLoop
