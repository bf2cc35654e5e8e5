import SVpn.ClientSteps
import SVpn.FirstByte
import SVpn.ServerCauses

set_option autoImplicit false

/-!
The server and its clients together. Passes of the parties interleave freely, and
the history of all their calls is the network: what may be received, read or used
as an address is a condition on the calls made before.
-/
namespace SVpn.System
open SVpn.Region SVpn.Crypt SVpn.KeyTable SVpn.OutputInfo SVpn.ServerLoop SVpn.ServerSteps
open SVpn.ServerRuns SVpn.SourceCheck SVpn.RoutingTable SVpn.Trace

abbrev ClientEffect := ClientLoop.ClientEffect

/-- A call of the server, or of client `uid`. The address of a client's `sendto`
or `recvfrom` is the one it has on the network at that time. -/
inductive Event where
  | server (e : Effect)
  | client (uid : UInt8) (addr : SockaddrIn6) (e : ClientEffect)

structure Parties where
  server : Option LoopState
  clients : UInt8 → Option ClientLoop.SvpnClient

/-- The users, and what memory and the clock hold when the parties start. -/
structure Deployment where
  localAddr : Vector UInt8 4
  users : UInt8 → Option Digest
  addrs : UInt8 → SockaddrIn6
  buffers : Cells UInt8 × Cells UInt8
  clientBuffers : UInt8 → Cells UInt8 × Cells UInt8
  start : ℤ

namespace Deployment

def server (D : Deployment) : SvpnServer := serverOf D.localAddr D.addrs D.users

def boot (D : Deployment) : Parties where
  server := some (loopStart D.server D.buffers.1 D.buffers.2 D.start)
  clients uid := (D.users uid).map fun passmd5 =>
    ⟨keyTable passmd5 uid, (D.clientBuffers uid).1, (D.clientBuffers uid).2⟩

def Encrypts (D : Deployment) (uid : UInt8) (p datagram : List UInt8) : Prop :=
  ∃ passmd5, D.users uid = some passmd5 ∧ datagram = p.map (keyTable passmd5 uid).encodeByte

end Deployment

/-- One pass of one party, each of whose calls `env` admits after the calls before it. -/
inductive Step (env : List Event → Event → Prop) :
    List Event → Parties → List Event → Option Parties → Prop where
  | server {h : List Event} {m : Parties} {s : LoopState} (hs : m.server = some s) (input : Select)
      (henv : Each (fun before e => env (h ++ before) e)
        ((loopBody outputInfo input s).effects.map .server)) :
      Step env h m ((loopBody outputInfo input s).effects.map .server)
        (some { m with server := (loopBody outputInfo input s).control.state })
  | client {h : List Event} {m : Parties} {uid : UInt8} {c : ClientLoop.SvpnClient}
      (hc : m.clients uid = some c) (place : ClientEffect → SockaddrIn6) (input : ClientLoop.Select)
      (henv : Each (fun before e => env (h ++ before) e)
        ((ClientLoop.loopBody input c).1.map fun e => .client uid (place e) e)) :
      Step env h m ((ClientLoop.loopBody input c).1.map fun e => .client uid (place e) e)
        (some { m with clients := Function.update m.clients uid (ClientLoop.loopBody input c).2 })

abbrev Run (env : List Event → Event → Prop) (D : Deployment) (h : List Event)
    (m : Parties) : Prop :=
  Reaches (Step env) D.boot h (some m)

def serverEffect : Event → Option Effect
  | .server e => some e
  | .client _ _ _ => none

def serverEffects (h : List Event) : List Effect := h.filterMap serverEffect

@[simp] theorem serverEffects_append (h es : List Event) :
    serverEffects (h ++ es) = serverEffects h ++ serverEffects es := List.filterMap_append

@[simp] theorem serverEffects_server (es : List Effect) :
    serverEffects (es.map .server) = es := by
  unfold serverEffects
  rw [List.filterMap_map]
  exact List.filterMap_some

@[simp] theorem serverEffects_client (uid : UInt8) (place : ClientEffect → SockaddrIn6)
    (es : List ClientEffect) :
    serverEffects (es.map fun e => .client uid (place e) e) = [] := by
  simp [serverEffects, serverEffect]

theorem mem_serverEffects {h : List Event} {e : Effect} : e ∈ serverEffects h ↔ .server e ∈ h := by
  unfold serverEffects
  rw [List.mem_filterMap]
  constructor
  · rintro ⟨x, hx, heq⟩
    cases x with
    | server e' =>
      cases heq
      exact hx
    | client uid addr e' => cases heq
  · exact fun he => ⟨_, he, rfl⟩

/-- Tables as configured, addresses as last accepted. -/
structure Settled (D : Deployment) (h : List Event) (m : Parties) : Prop where
  server : ∀ s, m.server = some s → Routed D.server (serverEffects h) s
  clients : ∀ uid c, m.clients uid = some c →
    ∃ passmd5, D.users uid = some passmd5 ∧ c.table = keyTable passmd5 uid

theorem settled_boot (D : Deployment) : Settled D [] D.boot := by
  constructor
  · intro s hs
    cases hs
    exact routed_start (loopStart D.server D.buffers.1 D.buffers.2 D.start)
  · intro uid c hc
    obtain ⟨passmd5, huser, rfl⟩ := Option.map_eq_some_iff.1 hc
    exact ⟨passmd5, huser, rfl⟩

variable {env : List Event → Event → Prop} {D : Deployment}

theorem settled_of_run {h : List Event} {m : Parties} (run : Run env D h m) : Settled D h m := by
  refine run.invariant (settled_boot D) ?_
  intro h m es m' hm hstep
  cases hstep with
  | server hs input henv =>
    refine ⟨fun s' hs' => ?_, hm.clients⟩
    rw [serverEffects_append, serverEffects_server]
    exact routed_pass (hm.server _ hs) hs'
  | @client uid c hc place input henv =>
    refine ⟨fun s hs => ?_, fun v c' hc' => ?_⟩
    · rw [serverEffects_append, serverEffects_client, List.append_nil]
      exact hm.server s hs
    · change Function.update m.clients uid _ v = some c' at hc'
      rw [Function.update_apply] at hc'
      by_cases hv : v = uid
      · subst v
        rw [if_pos rfl] at hc'
        obtain ⟨passmd5, huser, htable⟩ := hm.clients uid c hc
        exact ⟨passmd5, huser, ((ClientSteps.loopBody_cases input c).2 c' hc').trans htable⟩
      · rw [if_neg hv] at hc'
        exact hm.clients v c' hc'

theorem Run.server_pass {h : List Event} {m : Parties} {s s' : LoopState} {input : Select}
    (run : Run env D h m) (hs : m.server = some s)
    (henv : Each (fun before e => env (h ++ before) e)
      ((loopBody outputInfo input s).effects.map .server))
    (hstate : (loopBody outputInfo input s).control.state = some s') :
    ∃ m', Run env D (h ++ (loopBody outputInfo input s).effects.map .server) m' ∧
      m'.server = some s' :=
  ⟨_, run.step (.server hs input henv), hstate⟩

theorem each_env {h : List Event} {r : Option Parties} (run : Reaches (Step env) D.boot h r) :
    Each env h := by
  refine run.each ?_
  intro h m es r _ _ hstep
  cases hstep with
  | server hs input henv => exact henv
  | client hc place input henv => exact henv

/-- The calls before one explain it, in terms of the users alone. -/
def Cause (D : Deployment) (before : List Event) : Event → Prop
  | .server (.accepted uid addr) => ∃ d packet, .server (.recvfrom d) ∈ before ∧ d.sender = addr ∧
      d.data.head? = some uid ∧ D.Encrypts uid packet d.data ∧
      (16 ≤ d.data.length → SourceIs D.localAddr uid packet)
  | .server (.write uid packet _) => ∃ d whole, .server (.recvfrom d) ∈ before ∧
      .server (.accepted uid d.sender) ∈ before ∧ d.data.head? = some uid ∧
      D.Encrypts uid whole d.data ∧ packet = received whole ∧
      (16 ≤ d.data.length → SourceIs D.localAddr uid whole)
  | .server (.read uid packet) =>
      packet.length ≤ bufferLen ∧ (20 ≤ packet.length → packet[19]? = some uid)
  | .server (.sendto uid addr datagram _) => ∃ p, .server (.read uid p) ∈ before ∧
      D.Encrypts uid p datagram ∧ ∀ a, lastAccepted uid (serverEffects before) = some a → addr = a
  | .client uid _ (.sendto datagram _) => ∃ addr p, .client uid addr (.read p) ∈ before ∧
      D.Encrypts uid p datagram
  | .client uid _ (.write packet _) => ∃ addr d whole, .client uid addr (.recvfrom d) ∈ before ∧
      D.Encrypts uid whole d ∧ packet = received whole ∧ (d ≠ [] → ClientSteps.VersionFour packet)
  | _ => True

theorem encrypts_decoded {uid : UInt8} {passmd5 : Digest} (huser : D.users uid = some passmd5)
    {table : CodeTable} (htable : table = keyTable passmd5 uid) (d : List UInt8) :
    D.Encrypts uid (d.map table.decodeByte) d := by
  refine ⟨passmd5, huser, ?_⟩
  have hinverse := (key passmd5 uid).encode_decode
  rw [key_table, ← htable] at hinverse
  simp [← htable, Function.comp_def, hinverse]

theorem cause_of_server {h : List Event} {s : LoopState} (hs : Routed D.server (serverEffects h) s)
    (before : List Effect) (e : Effect) (hcaused : ServerCauses.Caused s before e) :
    Cause D (h ++ before.map .server) (.server e) := by
  have hmem : ∀ x ∈ before, Event.server x ∈ h ++ before.map .server := fun x hx =>
    List.mem_append_right h (List.mem_map.2 ⟨x, hx, rfl⟩)
  have hdecoded : ∀ {uid node} (d : Datagram), s.psc.client uid = some node →
      D.Encrypts uid (d.data.map node.table.decodeByte) d.data := by
    intro uid node d hclient
    obtain ⟨passmd5, huser, htable⟩ := FirstByte.table_of_serverOf hs hclient
    exact encrypts_decoded huser htable d.data
  have hsource : ∀ {uid node} {d : Datagram}, Accepts s d uid node → 16 ≤ d.data.length →
      SourceIs D.localAddr uid (d.data.map node.table.decodeByte) := by
    intro uid node d ha hlen
    have hown := (accepts_iff ha.head ha.client hlen).1 ha
    rwa [hs.localAddr] at hown
  cases e with
  | accepted uid addr =>
    obtain ⟨d, node, hrecv, haddr, ha⟩ := hcaused
    exact ⟨d, _, hmem _ hrecv, haddr, ha.head, hdecoded d ha.client, hsource ha⟩
  | write uid packet ret =>
    obtain ⟨d, node, hrecv, haccepted, ha, rfl⟩ := hcaused
    refine ⟨d, _, hmem _ hrecv, hmem _ haccepted, ha.head, hdecoded d ha.client, ?_, hsource ha⟩
    rw [received, received, List.map_take]
  | read uid packet => exact hcaused
  | sendto uid addr datagram ret =>
    obtain ⟨p, node, hread, hclient, haddr, rfl⟩ := hcaused
    obtain ⟨passmd5, huser, htable⟩ := FirstByte.table_of_serverOf hs hclient
    obtain ⟨first, -, -, hnode⟩ := hs.client_start hclient
    refine ⟨p, hmem _ hread, ⟨passmd5, huser, htable ▸ rfl⟩, fun a ha => ?_⟩
    rw [serverEffects_append, serverEffects_server, lastAccepted_append] at ha
    rw [haddr, hnode]
    cases hlast : lastAccepted uid before with
    | none =>
      rw [hlast, Option.none_or] at ha
      rw [ha]
      rfl
    | some a' =>
      rw [hlast] at ha
      exact Option.some.inj ha
  | recvfrom d => trivial
  | printed p => trivial
  | notice n => trivial

theorem cause_of_client {h : List Event} {uid : UInt8} {c : ClientLoop.SvpnClient}
    {passmd5 : Digest} (huser : D.users uid = some passmd5) (htable : c.table = keyTable passmd5 uid)
    (place : ClientEffect → SockaddrIn6) (before : List ClientEffect) (e : ClientEffect)
    (hcaused : ClientSteps.Caused c.table before e) :
    Cause D (h ++ before.map fun x => .client uid (place x) x) (.client uid (place e) e) := by
  have hmem : ∀ x ∈ before, Event.client uid (place x) x ∈
      h ++ before.map fun x => Event.client uid (place x) x := fun x hx =>
    List.mem_append_right h (List.mem_map.2 ⟨x, hx, rfl⟩)
  cases e with
  | sendto datagram ret =>
    obtain ⟨p, hread, rfl⟩ := hcaused
    exact ⟨_, p, hmem _ hread, passmd5, huser, htable ▸ rfl⟩
  | write packet ret =>
    obtain ⟨d, hrecv, hpacket, hversion⟩ := hcaused
    refine ⟨_, d, _, hmem _ hrecv, encrypts_decoded huser htable d, ?_, hversion⟩
    rw [hpacket, received, List.map_take]
    rfl
  | read packet => trivial
  | recvfrom d => trivial
  | dropped => trivial

theorem each_cause {h : List Event} {r : Option Parties} (run : Reaches (Step env) D.boot h r) :
    Each (Cause D) h := by
  refine run.each ?_
  intro h m es r hrun _ hstep
  have hm := settled_of_run hrun
  cases hstep with
  | server hs input henv =>
    exact (each_map _).2 ((ServerCauses.loopBody_caused _ input _).mono
      (cause_of_server (hm.server _ hs)))
  | client hc place input henv =>
    obtain ⟨passmd5, huser, htable⟩ := hm.clients _ _ hc
    exact (each_map _).2 ((ClientSteps.loopBody_caused input _).mono
      (cause_of_client huser htable place))

end SVpn.System
