import SVpn.ClientRelay
import SVpn.ServerStreams
import SVpn.Uplink

set_option autoImplicit false

/-!
The tunnel from end to end, as two streams for each user. It loses, repeats and
reorders nothing by itself: what the network keeps of the order of the datagrams,
the tunnel keeps of the order of the packets.
-/
namespace SVpn.Tunnel
open SVpn.Region SVpn.Crypt SVpn.KeyTable SVpn.OutputInfo SVpn.ServerLoop SVpn.ServerSteps
open SVpn.ServerRuns SVpn.SourceCheck SVpn.RoutingTable SVpn.Leftovers SVpn.Trace SVpn.Relay
open SVpn.ServerStreams SVpn.System SVpn.Uplink

variable {env : List Event → Event → Prop} {D : Deployment} {h : List Event} {m : Parties}

/-- What the server does in a run of the system is a run of the server. -/
theorem server_reaches (run : Run env D h m) :
    Reaches (Phase outputInfo) (loopStart D.server D.buffers.1 D.buffers.2 D.start)
      (serverEffects h) m.server := by
  refine run.invariant (I := fun h m => Reaches (Phase outputInfo)
    (loopStart D.server D.buffers.1 D.buffers.2 D.start) (serverEffects h) m.server) .start ?_
  intro h m es m' hm hstep
  cases hstep with
  | server hs input henv =>
    rw [serverEffects_append, serverEffects_server]
    exact phases_of_pass (hs ▸ hm) input
  | client hc place input henv =>
    rw [serverEffects_append, serverEffects_client, List.append_nil]
    exact hm

def clientEffect (uid : UInt8) : Event → Option ClientEffect
  | .server _ => none
  | .client v _ e => if v = uid then some e else none

def clientEffects (uid : UInt8) (h : List Event) : List ClientEffect := h.filterMap (clientEffect uid)

theorem clientEffects_append (uid : UInt8) (h es : List Event) :
    clientEffects uid (h ++ es) = clientEffects uid h ++ clientEffects uid es := List.filterMap_append

theorem clientEffects_server (uid : UInt8) (es : List Effect) :
    clientEffects uid (es.map .server) = [] := by
  simp [clientEffects, clientEffect]

theorem clientEffects_client (uid v : UInt8) (place : ClientEffect → SockaddrIn6)
    (es : List ClientEffect) :
    clientEffects uid (es.map fun e => .client v (place e) e) = if v = uid then es else [] := by
  by_cases hv : v = uid
  · simp [clientEffects, clientEffect, hv, Function.comp_def]
  · simp [clientEffects, clientEffect, hv]

/-- The client of user `uid` as it starts. -/
def bootClient (D : Deployment) (uid : UInt8) (passmd5 : Digest) : ClientLoop.SvpnClient :=
  ⟨keyTable passmd5 uid, (D.clientBuffers uid).1, (D.clientBuffers uid).2⟩

theorem boot_client {uid : UInt8} {passmd5 : Digest} (huser : D.users uid = some passmd5) :
    D.boot.clients uid = some (bootClient D uid passmd5) := by
  simp [Deployment.boot, huser, bootClient]

/-- What a client does in a run of the system is a run of the client. -/
theorem client_reaches (run : Run env D h m) {uid : UInt8} {passmd5 : Digest}
    (huser : D.users uid = some passmd5) :
    Reaches ClientRelay.Pass (bootClient D uid passmd5) (clientEffects uid h) (m.clients uid) := by
  refine run.invariant (I := fun h m => Reaches ClientRelay.Pass (bootClient D uid passmd5)
    (clientEffects uid h) (m.clients uid)) ?_ ?_
  · rw [boot_client huser]
    exact .start
  · intro h m es m' hm hstep
    cases hstep with
    | server hs input henv =>
      rw [clientEffects_append, clientEffects_server, List.append_nil]
      exact hm
    | @client v c hc place input henv =>
      rw [clientEffects_append, clientEffects_client]
      change Reaches _ _ _ (Function.update m.clients v _ uid)
      by_cases hv : v = uid
      · subst v
        rw [if_pos rfl, Function.update_self]
        rw [hc] at hm
        exact hm.step ⟨input, rfl⟩
      · rw [if_neg hv, List.append_nil, Function.update_of_ne (Ne.symm hv)]
        exact hm

variable {uid : UInt8}

def ofUser {α : Type} (uid : UInt8) (xs : List (UInt8 × α)) : List α :=
  xs.filterMap fun x => if x.1 = uid then some x.2 else none

/-- The contents of the datagrams that name the user. -/
def named (uid : UInt8) (ds : List Datagram) : List (List UInt8) :=
  (ds.filter fun d => d.data.head? = some uid).map (·.data)

theorem named_cons (uid : UInt8) (d : Datagram) (ds : List Datagram) :
    named uid (d :: ds) = if d.data.head? = some uid then d.data :: named uid ds else named uid ds := by
  by_cases hd : d.data.head? = some uid
  · simp [named, hd]
  · simp [named, hd]

theorem opened_user {psc : SvpnServer} {d : Datagram} {x : UInt8 × List UInt8}
    (h : opened psc d = some x) : d.data.head? = some x.1 := by
  obtain ⟨v, hhead, hmap⟩ := Option.bind_eq_some_iff.1 h
  obtain ⟨node, -, rfl⟩ := Option.map_eq_some_iff.1 hmap
  exact hhead

/-- Of what the server opens, user `uid` has the datagrams that name `uid`. -/
theorem ofUser_opened {psc : SvpnServer} {node : SvpnClientNode} (hclient : psc.client uid = some node)
    (ds : List Datagram) :
    ofUser uid (ds.filterMap (opened psc)) =
      (named uid ds).map fun d => (received d).map node.table.decodeByte := by
  induction ds with
  | nil => rfl
  | cons d ds ih =>
    rw [named_cons]
    by_cases hhead : d.data.head? = some uid
    · rw [List.filterMap_cons, opened_eq hhead hclient, if_pos hhead, List.map_cons, ← ih]
      simp [ofUser]
    · rw [if_neg hhead, ← ih, List.filterMap_cons]
      cases hopened : opened psc d with
      | none => rfl
      | some x =>
        have hx : x.1 ≠ uid := by
          rintro rfl
          exact hhead (opened_user hopened)
        simp [ofUser, hx]

theorem ofUser_delivered {psc : SvpnServer} {node : SvpnClientNode}
    (hclient : psc.client uid = some node) (ds : List Datagram) :
    ofUser uid (ds.filterMap (delivered psc)) =
      ((named uid ds).map fun d => (received d).map node.table.decodeByte).filter
        fun packet => SourceIs psc.localAddr uid packet := by
  rw [← ofUser_opened hclient]
  induction ds with
  | nil => rfl
  | cons d ds ih =>
    have hdelivered : delivered psc d =
      (opened psc d).filter fun x => SourceIs psc.localAddr x.1 x.2 := rfl
    rw [List.filterMap_cons, List.filterMap_cons, hdelivered]
    cases hopened : opened psc d with
    | none => exact ih
    | some x =>
      by_cases hx : x.1 = uid
      · by_cases hsource : SourceIs psc.localAddr uid x.2
        · simpa [ofUser, hx, hsource, Option.filter] using ih
        · simpa [ofUser, hx, hsource, Option.filter] using ih
      · by_cases hsource : SourceIs psc.localAddr x.1 x.2
        · simpa [ofUser, hx, hsource, Option.filter] using ih
        · simpa [ofUser, hx, hsource, Option.filter] using ih

theorem ofUser_sealedFor {psc : SvpnServer} {node : SvpnClientNode}
    (hclient : psc.client uid = some node) (xs : List (UInt8 × List UInt8)) :
    ofUser uid (xs.filterMap (sealedFor psc)) =
      (ofUser uid xs).map fun p => p.map node.table.encodeByte := by
  induction xs with
  | nil => rfl
  | cons x xs ih =>
    by_cases hx : x.1 = uid
    · have hsealed : sealedFor psc x = some (uid, x.2.map node.table.encodeByte) := by
        simp [sealedFor, hx, hclient]
      rw [List.filterMap_cons, hsealed]
      simpa [ofUser, hx] using ih
    · rw [List.filterMap_cons]
      cases hclient' : psc.client x.1 with
      | none =>
        have hsealed : sealedFor psc x = none := by simp [sealedFor, hclient']
        rw [hsealed]
        simpa [ofUser, hx] using ih
      | some node' =>
        have hsealed : sealedFor psc x = some (x.1, x.2.map node'.table.encodeByte) := by
          simp [sealedFor, hclient']
        rw [hsealed]
        simpa [ofUser, hx] using ih

/-- The packets user `uid`'s client reads from its tunnel. -/
def upRead (uid : UInt8) (h : List Event) : List (List UInt8) :=
  ClientRelay.readsOf (clientEffects uid h)

def upSent (uid : UInt8) (h : List Event) : List (List UInt8) :=
  ClientRelay.sendsOf (clientEffects uid h)

def upReceived (uid : UInt8) (h : List Event) : List (List UInt8) :=
  named uid (datagramsOf (serverEffects h))

/-- The packets the server writes for user `uid`. -/
def upWritten (uid : UInt8) (h : List Event) : List (List UInt8) :=
  ofUser uid (writesOf (serverEffects h))

/-- The packets the server reads for user `uid`. -/
def downRead (uid : UInt8) (h : List Event) : List (List UInt8) :=
  ofUser uid (readsOf (serverEffects h))

def downSent (uid : UInt8) (h : List Event) : List (List UInt8) :=
  ofUser uid ((sendsOf (serverEffects h)).map fun x => (x.1, x.2.2))

def downReceived (uid : UInt8) (h : List Event) : List (List UInt8) :=
  ClientRelay.datagramsOf (clientEffects uid h)

/-- The packets user `uid`'s client writes to its tunnel. -/
def downWritten (uid : UInt8) (h : List Event) : List (List UInt8) :=
  ClientSteps.writesOf (clientEffects uid h)

variable {passmd5 : Digest}

theorem client_server (huser : D.users uid = some passmd5) :
    D.server.client uid = some ⟨D.addrs uid, keyTable passmd5 uid⟩ := by
  rw [Deployment.server, client_serverOf, huser]
  rfl

theorem upSent_eq (run : Run env D h m) (huser : D.users uid = some passmd5) :
    upSent uid h = (upRead uid h).map fun p => p.map (keyTable passmd5 uid).encodeByte :=
  ClientRelay.sends_eq (client_reaches run huser)

theorem upWritten_sublist (run : Run env D h m) (huser : D.users uid = some passmd5) :
    (upWritten uid h).Sublist
      ((upReceived uid h).map fun d => (received d).map (keyTable passmd5 uid).decodeByte) := by
  have hwrites := (writes_sublist (server_reaches run)).filterMap
    fun x => if x.1 = uid then some x.2 else none
  exact (ofUser_opened (client_server huser) (datagramsOf (serverEffects h))) ▸ hwrites

theorem upWritten_eq (run : Run env D h m) (huser : D.users uid = some passmd5) {s : LoopState}
    (hserver : m.server = some s) (hwhole : ∀ d ∈ datagramsOf (serverEffects h), Whole d) :
    upWritten uid h = ((upReceived uid h).map fun d =>
      (received d).map (keyTable passmd5 uid).decodeByte).filter
        fun packet => SourceIs D.localAddr uid packet := by
  have hreaches := server_reaches run
  rw [hserver] at hreaches
  rw [upWritten, writes_eq hreaches hwhole]
  exact ofUser_delivered (client_server huser) (datagramsOf (serverEffects h))

theorem downSent_eq (run : Run env D h m) (huser : D.users uid = some passmd5) :
    downSent uid h = (downRead uid h).map fun p => p.map (keyTable passmd5 uid).encodeByte := by
  rw [downSent, sends_eq (server_reaches run)]
  exact ofUser_sealedFor (client_server huser) (readsOf (serverEffects h))

theorem downWritten_sublist (run : Run env D h m) (huser : D.users uid = some passmd5) :
    (downWritten uid h).Sublist
      ((downReceived uid h).map (ClientRelay.decryption (keyTable passmd5 uid))) :=
  ClientRelay.writes_sublist (client_reaches run huser)

theorem downWritten_eq (run : Run env D h m) (huser : D.users uid = some passmd5)
    (hsome : ∀ d ∈ downReceived uid h, d ≠ []) :
    downWritten uid h =
      ((downReceived uid h).map (ClientRelay.decryption (keyTable passmd5 uid))).filter
        fun packet => ClientSteps.VersionFour packet :=
  ClientRelay.writes_eq (client_reaches run huser) hsome

/-- Both ends of a channel undo each other on what was put in. -/
theorem map_of_channel {α β : Type} {enc : α → β} {dec : β → α} {xs : List α}
    (hdec : ∀ x ∈ xs, dec (enc x) = x) : (xs.map enc).map dec = xs := by
  rw [List.map_map]
  exact (List.map_congr_left hdec).trans (List.map_id' xs)

theorem sublist_of_channel {α β : Type} {enc : α → β} {dec : β → α} {xs : List α} {ys : List β}
    (hdec : ∀ x ∈ xs, dec (enc x) = x) (h : ys.Sublist (xs.map enc)) : (ys.map dec).Sublist xs := by
  have hmap := h.map dec
  rwa [map_of_channel hdec] at hmap

theorem subperm_of_channel {α β : Type} {enc : α → β} {dec : β → α} {xs : List α} {ys : List β}
    (hdec : ∀ x ∈ xs, dec (enc x) = x) (h : ys.Subperm (xs.map enc)) : (ys.map dec).Subperm xs := by
  obtain ⟨zs, hperm, hsub⟩ := h
  exact ⟨zs.map dec, hperm.map dec, sublist_of_channel hdec hsub⟩

theorem received_round_trip (passmd5 : Digest) (uid : UInt8) {p : List UInt8}
    (h : p.length ≤ bufferLen) :
    (received (p.map (keyTable passmd5 uid).encodeByte)).map (keyTable passmd5 uid).decodeByte = p := by
  rw [received_eq (by simpa using h), ← key_table, (key passmd5 uid).map_decode_encode]

theorem upRead_bounded (run : Run env D h m) (huser : D.users uid = some passmd5) :
    ∀ p ∈ upRead uid h, p.length ≤ bufferLen :=
  ClientRelay.reads_bounded (client_reaches run huser)

theorem downRead_bounded (run : Run env D h m) :
    ∀ p ∈ downRead uid h, p ≠ [] ∧ p.length ≤ bufferLen := by
  intro p hp
  obtain ⟨x, hx, hsome⟩ := List.mem_filterMap.1 hp
  have hbounded := reads_bounded (server_reaches run) x hx
  by_cases huid : x.1 = uid
  · rw [if_pos huid] at hsome
    exact Option.some.inj hsome ▸ hbounded
  · rw [if_neg huid] at hsome
    cases hsome

theorem upRead_round_trip (run : Run env D h m) (huser : D.users uid = some passmd5) :
    ∀ p ∈ upRead uid h, (received (p.map (keyTable passmd5 uid).encodeByte)).map
      (keyTable passmd5 uid).decodeByte = p :=
  fun p hp => received_round_trip passmd5 uid (upRead_bounded run huser p hp)

theorem downRead_round_trip (run : Run env D h m) (passmd5 : Digest) :
    ∀ p ∈ downRead uid h, ClientRelay.decryption (keyTable passmd5 uid)
      (p.map (keyTable passmd5 uid).encodeByte) = p :=
  fun p hp => received_round_trip passmd5 uid (downRead_bounded run p hp).2

theorem upWritten_in_order (run : Run env D h m) (huser : D.users uid = some passmd5)
    (hnet : (upReceived uid h).Sublist (upSent uid h)) :
    (upWritten uid h).Sublist (upRead uid h) := by
  rw [upSent_eq run huser] at hnet
  exact (upWritten_sublist run huser).trans (sublist_of_channel (upRead_round_trip run huser) hnet)

theorem downWritten_in_order (run : Run env D h m) (huser : D.users uid = some passmd5)
    (hnet : (downReceived uid h).Sublist (downSent uid h)) :
    (downWritten uid h).Sublist (downRead uid h) := by
  rw [downSent_eq run huser] at hnet
  exact (downWritten_sublist run huser).trans
    (sublist_of_channel (downRead_round_trip run passmd5) hnet)

theorem upWritten_lossless (run : Run env D h m) (huser : D.users uid = some passmd5) {s : LoopState}
    (hserver : m.server = some s) (hwhole : ∀ d ∈ datagramsOf (serverEffects h), Whole d)
    (hnet : upReceived uid h = upSent uid h) :
    upWritten uid h = (upRead uid h).filter fun packet => SourceIs D.localAddr uid packet := by
  rw [upWritten_eq run huser hserver hwhole, hnet, upSent_eq run huser, map_of_channel]
  exact upRead_round_trip run huser

theorem ne_nil_of_downSent (run : Run env D h m) (huser : D.users uid = some passmd5) :
    ∀ d ∈ downSent uid h, d ≠ [] := by
  intro d hd
  rw [downSent_eq run huser] at hd
  obtain ⟨p, hp, rfl⟩ := List.mem_map.1 hd
  simpa using (downRead_bounded run p hp).1

theorem downWritten_lossless (run : Run env D h m) (huser : D.users uid = some passmd5)
    (hnet : downReceived uid h = downSent uid h) :
    downWritten uid h = (downRead uid h).filter fun packet => ClientSteps.VersionFour packet := by
  rw [downWritten_eq run huser (hnet ▸ ne_nil_of_downSent run huser), hnet, downSent_eq run huser,
    map_of_channel]
  exact downRead_round_trip run passmd5

/-- In every run of any system of clients, network and server, and for each user in each
direction: if the datagrams arrive in the order they were sent in, none twice, so do
the packets; and if none arrives more often than it was sent, neither does a packet. -/
theorem tunnel_in_order (run : Run env D h m) (huser : D.users uid = some passmd5) :
    ((upReceived uid h).Sublist (upSent uid h) → (upWritten uid h).Sublist (upRead uid h)) ∧
    ((upReceived uid h).Subperm (upSent uid h) → (upWritten uid h).Subperm (upRead uid h)) ∧
    ((downReceived uid h).Sublist (downSent uid h) → (downWritten uid h).Sublist (downRead uid h)) ∧
    ((downReceived uid h).Subperm (downSent uid h) →
      (downWritten uid h).Subperm (downRead uid h)) := by
  have hup := upWritten_sublist run huser
  have hdown := downWritten_sublist run huser
  refine ⟨upWritten_in_order run huser, fun hnet => ?_, downWritten_in_order run huser,
    fun hnet => ?_⟩
  · rw [upSent_eq run huser] at hnet
    exact hup.subperm.trans (subperm_of_channel (upRead_round_trip run huser) hnet)
  · rw [downSent_eq run huser] at hnet
    exact hdown.subperm.trans (subperm_of_channel (downRead_round_trip run passmd5) hnet)

/-- What the network delivers in full, the tunnel delivers in full: the server writes
every packet that has the user's own source address, and the client every packet of
version 4, each once and in order. -/
theorem tunnel_lossless (run : Run env D h m) (huser : D.users uid = some passmd5) :
    (∀ s, m.server = some s → (∀ d ∈ datagramsOf (serverEffects h), Whole d) →
      upReceived uid h = upSent uid h →
      upWritten uid h = (upRead uid h).filter fun packet => SourceIs D.localAddr uid packet) ∧
    (downReceived uid h = downSent uid h →
      downWritten uid h = (downRead uid h).filter fun packet => ClientSteps.VersionFour packet) :=
  ⟨fun _ => upWritten_lossless run huser, downWritten_lossless run huser⟩

theorem each_any (h : List Event) : Each (fun _ _ => True) h := fun _ _ _ _ => trivial

/-- A client sends a packet and the server writes it. -/
theorem run_sampleDelivered : ∃ h m, Run (fun _ _ => True) sampleDeployment h m ∧
    m.server = some sampleAccepted ∧ upSent 6 h = [(sampleDatagram (sampleAddr 1)).data] ∧
    datagramsOf (serverEffects h) = [sampleDatagram (sampleAddr 1)] := by
  obtain ⟨m, run, hserver⟩ := run_sampleSent (each_any _)
  obtain ⟨m', run', hserver'⟩ := run.server_pass hserver (each_any _) state_sampleFirst
  obtain ⟨shown, hshown, heq⟩ := pass_sampleFirst
  refine ⟨_, m', run', hserver', ?_, ?_⟩
  · rw [upSent, clientEffects_append, clientEffects_server, List.append_nil]
    rfl
  · have hclient : serverEffects sampleSent = [] := rfl
    rw [serverEffects_append, serverEffects_server, heq, hclient]
    simp [datagramOf, datagramsOf_talk hshown]

theorem upReceived_sample {h : List Event}
    (hone : datagramsOf (serverEffects h) = [sampleDatagram (sampleAddr 1)]) :
    upReceived 6 h = [(sampleDatagram (sampleAddr 1)).data] := by
  have hhead : (sampleDatagram (sampleAddr 1)).data.head? = some 6 :=
    head?_encrypted sampleKey (p := samplePacket) (by decide)
  rw [upReceived, hone, named_cons, if_pos hhead]
  rfl

theorem tunnel_in_order_sample : ∃ h m, Run (fun _ _ => True) sampleDeployment h m ∧
    upReceived 6 h ≠ [] ∧ (upWritten 6 h).Sublist (upRead 6 h) := by
  obtain ⟨h, m, run, -, hsent, hone⟩ := run_sampleDelivered
  have hreceived := upReceived_sample hone
  refine ⟨h, m, run, by simp [hreceived], (tunnel_in_order run rfl).1 ?_⟩
  rw [hreceived, hsent]

theorem tunnel_lossless_sample : ∃ h m, Run (fun _ _ => True) sampleDeployment h m ∧
    upReceived 6 h ≠ [] ∧
    upWritten 6 h = (upRead 6 h).filter fun packet => SourceIs sampleLocal 6 packet := by
  obtain ⟨h, m, run, hserver, hsent, hone⟩ := run_sampleDelivered
  have hreceived := upReceived_sample hone
  refine ⟨h, m, run, by simp [hreceived], (tunnel_lossless run rfl).1 _ hserver ?_ ?_⟩
  · intro d hd
    rw [hone, List.mem_singleton] at hd
    subst hd
    exact .inr (by decide)
  · rw [hreceived, hsent]

end SVpn.Tunnel
