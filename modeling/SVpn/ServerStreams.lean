import SVpn.Relay

set_option autoImplicit false

/-!
The two directions of the server as streams. What it writes is a filtered image of
the datagrams it receives, and what it sends an image of the packets it reads, both
in order and each at most once.
-/
namespace SVpn.ServerStreams
open SVpn.Region SVpn.Crypt SVpn.OutputInfo SVpn.ServerLoop SVpn.ServerSteps SVpn.ServerRuns
open SVpn.SourceCheck SVpn.RoutingTable SVpn.Leftovers SVpn.Trace SVpn.Transducer SVpn.Relay

def datagramOf : Effect → Option Datagram
  | .recvfrom d => some d
  | _ => none

def datagramsOf (es : List Effect) : List Datagram := es.filterMap datagramOf

@[simp] theorem datagramsOf_append (es fs : List Effect) :
    datagramsOf (es ++ fs) = datagramsOf es ++ datagramsOf fs := List.filterMap_append

@[simp] theorem datagramsOf_cons (e : Effect) (es : List Effect) :
    datagramsOf (e :: es) = (datagramOf e).toList ++ datagramsOf es := filterMap_cons_toList _ _ _

@[simp] theorem datagramsOf_nil : datagramsOf [] = [] := rfl

theorem datagramsOf_talk {es : List Effect} (h : Talk es) : datagramsOf es = [] := by
  apply List.filterMap_eq_nil_iff.2
  intro e he
  rcases h e he with ⟨p, rfl⟩ | ⟨n, rfl⟩ <;> rfl

/-- The datagram under the table of the user it names. -/
def opened (psc : SvpnServer) (d : Datagram) : Option (UInt8 × List UInt8) :=
  d.data.head?.bind fun uid =>
    (psc.client uid).map fun node => (uid, (received d.data).map node.table.decodeByte)

/-- What a datagram stands for: its packet, if the source is the user's own. -/
def delivered (psc : SvpnServer) (d : Datagram) : Option (UInt8 × List UInt8) :=
  (opened psc d).filter fun x => SourceIs psc.localAddr x.1 x.2

theorem opened_eq {psc : SvpnServer} {d : Datagram} {v : UInt8} {node : SvpnClientNode}
    (hhead : d.data.head? = some v) (hclient : psc.client v = some node) :
    opened psc d = some (v, (received d.data).map node.table.decodeByte) := by
  simp [opened, hhead, hclient]

/-- A packet under the table of its user. -/
def sealedFor (psc : SvpnServer) (x : UInt8 × List UInt8) : Option (UInt8 × List UInt8) :=
  (psc.client x.1).map fun node => (x.1, x.2.map node.table.encodeByte)

def writtenBy : Action → Option (UInt8 × List UInt8)
  | .write uid packet => some (uid, packet)
  | _ => none

def datagramIn : Arrival → Option Datagram
  | .datagram d => some d
  | .packet _ => none

theorem writesOf_eq_actions (es : List Effect) : writesOf es = (actions es).filterMap writtenBy := by
  unfold writesOf actions
  rw [List.filterMap_filterMap]
  congr 1
  funext e
  cases e <;> rfl

theorem datagramsOf_eq_arrivals (es : List Effect) :
    datagramsOf es = (arrivals es).filterMap datagramIn := by
  unfold datagramsOf arrivals
  rw [List.filterMap_filterMap]
  congr 1
  funext e
  cases e <;> rfl

/-- The relay still has the local address and the users' tables of `psc`. -/
structure Keyed (psc : SvpnServer) (r : State) : Prop where
  localAddr : r.localAddr = psc.localAddr
  tables : ∀ uid, (r.client uid).map (·.table) = (psc.client uid).map (·.table)

theorem keyed_view (s : LoopState) : Keyed s.psc (view s) := ⟨rfl, fun _ => rfl⟩

theorem keyed_next {psc : SvpnServer} (r : State) (x : Arrival) (h : Keyed psc r) :
    Keyed psc (relay.next r x) := by
  change Keyed psc (advance r x)
  cases x with
  | datagram d =>
    cases hnamed : r.named d with
    | none =>
      rw [advance_unnamed hnamed]
      exact ⟨h.localAddr, h.tables⟩
    | some named =>
      obtain ⟨uid, node⟩ := named
      by_cases hvouched : r.Vouched d uid node
      · rw [advance_vouched hnamed hvouched]
        refine ⟨h.localAddr, fun v => ?_⟩
        have hold := h.tables v
        by_cases hv : v = uid
        · subst v
          obtain ⟨w, -, hmap⟩ := Option.bind_eq_some_iff.1 hnamed
          obtain ⟨node', hclient, heq⟩ := Option.map_eq_some_iff.1 hmap
          cases heq
          rw [hclient] at hold
          simpa using hold
        · simpa [Function.update_of_ne hv] using hold
      · rw [advance_refused hnamed hvouched]
        exact ⟨h.localAddr, h.tables⟩
  | packet p =>
    obtain ⟨hlocal, hclient⟩ := advance_packet r p
    exact ⟨hlocal.trans h.localAddr, fun uid => hclient ▸ h.tables uid⟩

theorem opened_of_keyed {psc : SvpnServer} {r : State} (h : Keyed psc r) (d : Datagram) :
    opened psc d = (r.named d).map fun x => (x.1, State.plain x.2 d) := by
  unfold opened State.named
  cases d.data.head? with
  | none => rfl
  | some uid =>
    have htable := h.tables uid
    simp only [Option.bind_some]
    cases hclient : r.client uid with
    | none =>
      rw [hclient, Option.map_none, eq_comm, Option.map_eq_none_iff] at htable
      rw [htable]
      rfl
    | some node =>
      rw [hclient, Option.map_some, eq_comm, Option.map_eq_some_iff] at htable
      obtain ⟨first, hfirst, hsame⟩ := htable
      rw [hfirst]
      simp [State.plain, hsame]

theorem writes_answer (r : State) (d : Datagram) :
    (answer r (.datagram d)).filterMap writtenBy = match r.named d with
      | none => []
      | some x => if r.Vouched d x.1 x.2 then [(x.1, State.plain x.2 d)] else [] := by
  simp only [answer]
  cases r.named d with
  | none => rfl
  | some x =>
    by_cases hvouched : r.Vouched d x.1 x.2
    · simp only [hvouched, if_true]
      rfl
    · simp only [hvouched, if_false]
      rfl

theorem writes_packet (r : State) (p : List UInt8) :
    (answer r (.packet p)).filterMap writtenBy = [] := by
  simp only [answer]
  cases r.client (r.destOf p) <;> rfl

theorem overwrite_eq_sourceField {window : Fin 4 → UInt8} {bytes : List UInt8}
    (localAddr : Vector UInt8 4) (uid : UInt8) (h : 16 ≤ bytes.length) :
    overwrite 12 window bytes = sourceField localAddr uid ↔ SourceIs localAddr uid bytes := by
  have hbyte : ∀ i x b, i < 16 → (bytes.getD i x = b ↔ bytes[i]? = some b) := by
    intro i x b hi
    rw [List.getD_eq_getElem?_getD, List.getElem?_eq_getElem (by omega), Option.getD_some,
      Option.some_inj]
  rw [funext_iff, Fin.forall_fin_succ, Fin.forall_fin_succ, Fin.forall_fin_succ, Fin.forall_fin_succ]
  simp only [overwrite, SourceIs]
  rw [hbyte _ _ _ (by decide), hbyte _ _ _ (by decide), hbyte _ _ _ (by decide),
    hbyte _ _ _ (by decide)]
  simp [sourceField]

/-- A datagram the check can read in full: it is empty, or it reaches past the source field. -/
def Whole (d : Datagram) : Prop := d.data = [] ∨ 16 ≤ d.data.length

theorem length_plain (node : SvpnClientNode) {d : Datagram} (h : 16 ≤ d.data.length) :
    16 ≤ (State.plain node d).length := by
  simp only [State.plain, received, List.length_map, List.length_take, bufferLen]
  omega

theorem vouched_iff_source (r : State) (node : SvpnClientNode) (uid : UInt8) {d : Datagram}
    (h : 16 ≤ d.data.length) :
    r.Vouched d uid node ↔ SourceIs r.localAddr uid (State.plain node d) :=
  overwrite_eq_sourceField r.localAddr uid (length_plain node h)

theorem writes_whole {psc : SvpnServer} {r : State} (hr : Keyed psc r) {d : Datagram}
    (h : Whole d) :
    (answer r (.datagram d)).filterMap writtenBy = (delivered psc d).toList := by
  rw [writes_answer, delivered, opened_of_keyed hr]
  cases hnamed : r.named d with
  | none => rfl
  | some x =>
    have hlen : 16 ≤ d.data.length := by
      refine h.resolve_left fun hdata => ?_
      simp [State.named, hdata] at hnamed
    have hiff : r.Vouched d x.1 x.2 ↔ SourceIs psc.localAddr x.1 (State.plain x.2 d) := by
      rw [← hr.localAddr]
      exact vouched_iff_source r x.2 x.1 hlen
    by_cases hvouched : r.Vouched d x.1 x.2
    · simp [hvouched, Option.filter, hiff.1 hvouched]
    · simp [hvouched, Option.filter, mt hiff.2 hvouched]

theorem writes_any {psc : SvpnServer} {r : State} (hr : Keyed psc r) (d : Datagram) :
    ((answer r (.datagram d)).filterMap writtenBy).Sublist (opened psc d).toList := by
  rw [writes_answer, opened_of_keyed hr]
  cases r.named d with
  | none => exact List.Sublist.slnil
  | some x =>
    by_cases hvouched : r.Vouched d x.1 x.2
    · simp [hvouched]
    · simp [hvouched]

variable {report : Reporter} {s₀ : LoopState} {h : List Effect}

/-- In every run the packets written are decryptions of datagrams received, in order
and one for each datagram at most. -/
theorem writes_sublist {r : Option LoopState} (run : Reaches (Phase report) s₀ h r) :
    (writesOf h).Sublist ((datagramsOf h).filterMap (opened s₀.psc)) := by
  have hprefix := (simulation report).outputs_cut run
  have hwrites : (writesOf h).Sublist
      ((relay.run (view s₀) (arrivals h)).filterMap writtenBy) := by
    rw [writesOf_eq_actions]
    exact hprefix.sublist.filterMap writtenBy
  refine hwrites.trans ?_
  rw [datagramsOf_eq_arrivals, List.filterMap_filterMap]
  refine relay.filterMap_run_sublist keyed_next ?_ _ (keyed_view s₀)
  intro r hr x
  cases x with
  | datagram d => exact writes_any hr d
  | packet p =>
    rw [relay_out, writes_packet]
    exact List.nil_sublist _

/-- Where every datagram can be read in full, the uplink has no memory: what is
written is a fixed function of each datagram received. -/
theorem writes_eq {s : LoopState} (run : Reaches (Phase report) s₀ h (some s))
    (hwhole : ∀ d ∈ datagramsOf h, Whole d) :
    writesOf h = (datagramsOf h).filterMap (delivered s₀.psc) := by
  have hfollows : actions h = relay.run (view s₀) (arrivals h) :=
    ((simulation report).follows run).1
  rw [datagramsOf_eq_arrivals] at hwhole ⊢
  rw [writesOf_eq_actions, hfollows, List.filterMap_filterMap]
  refine relay.filterMap_run keyed_next ?_ (keyed_view s₀)
  intro r hr x hx
  cases x with
  | datagram d => exact writes_whole hr (hwhole d (List.mem_filterMap.2 ⟨_, hx, rfl⟩))
  | packet p =>
    rw [relay_out, writes_packet]
    rfl

theorem sealedFor_congr {psc psc' : SvpnServer}
    (h : ∀ uid, (psc.client uid).map (·.table) = (psc'.client uid).map (·.table)) :
    sealedFor psc = sealedFor psc' := by
  funext x
  have hmap : ∀ c : Option SvpnClientNode, (c.map fun node => (x.1, x.2.map node.table.encodeByte)) =
      (c.map (·.table)).map fun table => (x.1, x.2.map table.encodeByte) := by
    intro c
    rw [Option.map_map]
    rfl
  unfold sealedFor
  rw [hmap, hmap, h]

theorem sends_phase {es : List Effect} {s : LoopState} {r : Option LoopState}
    (hphase : Phase report h s es r) :
    (sendsOf es).map (fun x => (x.1, x.2.2)) = (readsOf es).filterMap (sealedFor s.psc) := by
  cases hphase with
  | clock => rfl
  | exit => rfl
  | sock ev =>
    have hcases := sockBranch_effects report ev s
    generalize (sockBranch report ev s).effects = es at hcases
    cases hcases with
    | failed => rfl
    | refused _ _ htalk => simp [sendOf, readOf, htalk.sendsOf, htalk.readsOf]
    | died _ _ hshown => simp [sendOf, readOf, hshown.sendsOf, hshown.readsOf]
    | accepted _ _ hshown => simp [sendOf, readOf, hshown.sendsOf, hshown.readsOf]
  | tun ev =>
    have hcases := (tunBranch_cases report ev s).1
    generalize (tunBranch report ev s).effects = es at hcases
    cases hcases with
    | idle => rfl
    | unknown _ _ hclient htalk =>
      simp [sendOf, readOf, htalk.sendsOf, htalk.readsOf, sealedFor, hclient]
    | attempt _ _ hclient htalk =>
      simp [sendAttempt, sendOf, readOf, htalk.sendsOf, htalk.readsOf, sealedFor, hclient]

/-- In every run the datagrams sent are the packets read for configured users, each
encrypted for its user, once and in order. -/
theorem sends_eq {r : Option LoopState} (run : Reaches (Phase report) s₀ h r) :
    (sendsOf h).map (fun x => (x.1, x.2.2)) = (readsOf h).filterMap (sealedFor s₀.psc) := by
  induction run with
  | start => rfl
  | step before hs ih =>
    rw [sendsOf_append, readsOf_append, List.map_append, List.filterMap_append, ih,
      sends_phase hs, sealedFor_congr (Routed.tables (routed_of_phases before))]

theorem reads_phase {es : List Effect} {s : LoopState} {r : Option LoopState}
    (hphase : Phase report h s es r) :
    readsOf es = [] ∨ ∃ uid p, p ≠ [] ∧ readsOf es = [(uid, received p)] := by
  cases hphase with
  | clock => exact .inl rfl
  | exit => exact .inl rfl
  | sock ev =>
    left
    have hcases := sockBranch_effects report ev s
    generalize (sockBranch report ev s).effects = es at hcases
    cases hcases with
    | failed => rfl
    | refused _ _ htalk => simp [readOf, htalk.readsOf]
    | died _ _ hshown => simp [readOf, hshown.readsOf]
    | accepted _ _ hshown => simp [readOf, hshown.readsOf]
  | tun ev =>
    have hcases := (tunBranch_cases report ev s).1
    generalize (tunBranch report ev s).effects = es at hcases
    cases hcases with
    | idle => exact .inl rfl
    | @unknown p _ _ hp _ htalk =>
      exact .inr ⟨tunUid s p, p, hp, by simp [readOf, htalk.readsOf]⟩
    | @attempt p _ _ _ hp _ htalk =>
      exact .inr ⟨tunUid s p, p, hp, by simp [sendAttempt, readOf, htalk.readsOf]⟩

theorem reads_bounded {r : Option LoopState} (run : Reaches (Phase report) s₀ h r) :
    ∀ x ∈ readsOf h, x.2 ≠ [] ∧ x.2.length ≤ bufferLen := by
  induction run with
  | start => exact fun x hx => absurd hx List.not_mem_nil
  | step before hs ih =>
    intro x hx
    rw [readsOf_append, List.mem_append] at hx
    rcases hx with hx | hx
    · exact ih x hx
    · rcases reads_phase hs with hnone | ⟨uid, p, hp, hone⟩
      · rw [hnone] at hx
        exact absurd hx List.not_mem_nil
      · rw [hone, List.mem_singleton] at hx
        subst hx
        refine ⟨fun hnil => hp ?_, length_received_le p⟩
        rcases List.take_eq_nil_iff.1 hnil with hzero | hnil
        · cases hzero
        · exact hnil

/-- Both directions over a whole run, from any state. -/
theorem svpnServerHandleThread_streams (report : Reporter) (inputs : List Select) (s₀ : LoopState) :
    (sendsOf (svpnServerHandleThread report inputs s₀).1).map (fun x => (x.1, x.2.2)) =
      (readsOf (svpnServerHandleThread report inputs s₀).1).filterMap (sealedFor s₀.psc) ∧
    (writesOf (svpnServerHandleThread report inputs s₀).1).Sublist
      ((datagramsOf (svpnServerHandleThread report inputs s₀).1).filterMap (opened s₀.psc)) ∧
    ∀ s, (svpnServerHandleThread report inputs s₀).2 = some s →
      (∀ d ∈ datagramsOf (svpnServerHandleThread report inputs s₀).1, Whole d) →
      writesOf (svpnServerHandleThread report inputs s₀).1 =
        (datagramsOf (svpnServerHandleThread report inputs s₀).1).filterMap (delivered s₀.psc) := by
  have run := phases_of_handleThread report inputs s₀
  refine ⟨sends_eq run, writes_sublist run, fun s hs hwhole => ?_⟩
  rw [hs] at run
  exact writes_eq run hwhole

theorem svpnServerHandleThread_streams_sample :
    writesOf (svpnServerHandleThread outputInfo [sampleFirst] sampleStart).1 =
      (datagramsOf (svpnServerHandleThread outputInfo [sampleFirst] sampleStart).1).filterMap
        (delivered sampleStart.psc) := by
  refine (svpnServerHandleThread_streams outputInfo [sampleFirst] sampleStart).2.2 sampleAccepted
    state_sampleRun ?_
  rw [datagramsOf_eq_arrivals, arrivals_sampleRun]
  intro d hd
  obtain rfl := List.mem_singleton.1 hd
  exact .inr (by decide)

end SVpn.ServerStreams
