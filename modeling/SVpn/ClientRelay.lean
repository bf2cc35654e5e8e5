import SVpn.ClientSteps
import SVpn.Transducer

set_option autoImplicit false

/-!
The client as a relay. One byte of its buffers outlives a pass, the one the version
test reads, and only an empty datagram ever makes it matter.
-/
namespace SVpn.ClientRelay
open SVpn.Region SVpn.Crypt SVpn.ClientLoop SVpn.ClientSteps SVpn.Trace SVpn.Transducer

/-- What the tunnel or the socket has delivered. -/
inductive Arrival where
  | packet (p : List UInt8)
  | datagram (d : List UInt8)

inductive Action where
  | send (datagram : List UInt8)
  | write (packet : List UInt8)
  deriving DecidableEq

structure State where
  table : CodeTable
  first : UInt8

namespace State

/-- The first byte of the buffer after `bytes` has been put at its start. -/
def seen (r : State) (bytes : List UInt8) : UInt8 := bytes.head?.getD r.first

def plain (r : State) (d : List UInt8) : List UInt8 := (received d).map r.table.decodeByte

end State

def answer (r : State) : Arrival → List Action
  | .packet p => [.send (p.map r.table.encodeByte)]
  | .datagram d => if r.seen (r.plain d) >>> (4 : UInt8) = 4 then [.write (r.plain d)] else []

def advance (r : State) : Arrival → State
  | .packet p => { r with first := r.seen (p.map r.table.encodeByte) }
  | .datagram d => { r with first := r.seen (r.plain d) }

def relay : Machine State Arrival Action where
  out := answer
  next := advance

@[simp] theorem relay_out (r : State) (x : Arrival) : relay.out r x = answer r x := rfl
@[simp] theorem relay_next (r : State) (x : Arrival) : relay.next r x = advance r x := rfl

def view (s : SvpnClient) : State where
  table := s.table
  first := s.buffer 0

def arrivalOf : ClientEffect → Option Arrival
  | .read packet => some (.packet packet)
  | .recvfrom d => some (.datagram d)
  | _ => none

def actionOf : ClientEffect → Option Action
  | .sendto datagram _ => some (.send datagram)
  | .write packet _ => some (.write packet)
  | _ => none

def arrivals (es : List ClientEffect) : List Arrival := es.filterMap arrivalOf

def actions (es : List ClientEffect) : List Action := es.filterMap actionOf

/-- The step from `s` to `s'` with the calls `es` is a run of the relay. -/
structure Relayed (s : SvpnClient) (es : List ClientEffect) (s' : SvpnClient) : Prop where
  answered : actions es = relay.run (view s) (arrivals es)
  moved : view s' = relay.after (view s) (arrivals es)

theorem relayed_idle (s : SvpnClient) : Relayed s [] s := ⟨rfl, rfl⟩

theorem Relayed.append {s s' s₁ : SvpnClient} {es fs : List ClientEffect} (h : Relayed s es s')
    (h' : Relayed s' fs s₁) : Relayed s (es ++ fs) s₁ := by
  have harrivals : arrivals (es ++ fs) = arrivals es ++ arrivals fs := List.filterMap_append
  have hactions : actions (es ++ fs) = actions es ++ actions fs := List.filterMap_append
  constructor
  · rw [hactions, harrivals, relay.run_append, h.answered, h'.answered, h.moved]
  · rw [harrivals, relay.after_append, h'.moved, h.moved]

theorem transform_first (f : UInt8 → UInt8) (tmpBuffer buffer : Cells UInt8) (bytes : List UInt8) :
    transform f (store tmpBuffer 0 bytes) buffer bytes.length 0 =
      (bytes.map f).head?.getD (buffer 0) := by
  rw [transform_eq_store, load_store]
  cases bytes with
  | nil => rfl
  | cons b bytes => rfl

theorem relayed_tunBranch (ev : TunReady) (s : SvpnClient) :
    Relayed s (tunBranch ev s).1 (tunBranch ev s).2.1 := by
  unfold tunBranch
  cases ev.packet with
  | none => exact relayed_idle s
  | some p =>
    have hload := load_transform_store s.table.encodeByte s.tmpBuffer s.buffer (p.take bufferLen)
    have hfirst := transform_first s.table.encodeByte s.tmpBuffer s.buffer (p.take bufferLen)
    simp only [encrypt, hload]
    constructor
    · split <;> rfl
    · have hview : view { s with
          tmpBuffer := store s.tmpBuffer 0 (p.take bufferLen)
          buffer := transform s.table.encodeByte (store s.tmpBuffer 0 (p.take bufferLen)) s.buffer
            (p.take bufferLen).length } = advance (view s) (.packet (p.take bufferLen)) := by
        simp only [view, hfirst]
        rfl
      split <;> exact hview

theorem relayed_sockBranch (ev : SockReady) (s : SvpnClient) :
    Relayed s (sockBranch ev s).1 (sockBranch ev s).2 := by
  unfold sockBranch
  cases ev.recv with
  | none => exact relayed_idle s
  | some d =>
    have hload := load_transform_store s.table.decodeByte s.tmpBuffer s.buffer (d.take bufferLen)
    have hfirst : transform s.table.decodeByte (store s.tmpBuffer 0 (d.take bufferLen)) s.buffer
        (d.take bufferLen).length 0 = (view s).seen ((view s).plain d) :=
      transform_first s.table.decodeByte s.tmpBuffer s.buffer (d.take bufferLen)
    have hmoved : view { s with
        tmpBuffer := store s.tmpBuffer 0 (d.take bufferLen)
        buffer := transform s.table.decodeByte (store s.tmpBuffer 0 (d.take bufferLen)) s.buffer
          (d.take bufferLen).length } = advance (view s) (.datagram d) := by
      simp only [view, hfirst]
      rfl
    simp only [decrypt, hload]
    by_cases hversion : (view s).seen ((view s).plain d) >>> (4 : UInt8) = 4
    · simp only [hfirst, hversion, ne_eq, not_true_eq_false, if_false]
      refine ⟨?_, hmoved⟩
      simp only [actions, arrivals, List.filterMap, arrivalOf, actionOf, Machine.run, relay_out,
        answer, hversion, if_true, List.append_nil]
      rfl
    · simp only [hfirst, hversion, ne_eq, not_false_eq_true, if_true]
      refine ⟨?_, hmoved⟩
      simp only [actions, arrivals, List.filterMap, arrivalOf, actionOf, Machine.run, relay_out,
        answer, hversion, if_false, List.append_nil]

theorem relayed_loopBody (input : Select) (s : SvpnClient) :
    actions (loopBody input s).1 = relay.run (view s) (arrivals (loopBody input s).1) ∧
      ∀ s', (loopBody input s).2 = some s' → Relayed s (loopBody input s).1 s' := by
  have hsock : ∀ sock s, ∃ s', (loopBody (.ready none sock) s).2 = some s' ∧
      Relayed s (loopBody (.ready none sock) s).1 s' := by
    intro sock s
    cases sock with
    | none => exact ⟨s, rfl, relayed_idle s⟩
    | some ev => exact ⟨(sockBranch ev s).2, rfl, relayed_sockBranch ev s⟩
  cases input with
  | interrupted => exact ⟨rfl, fun s' h => by cases h⟩
  | failed => exact ⟨rfl, fun s' h => by cases h; exact relayed_idle s⟩
  | ready tun sock =>
    obtain ⟨s', hstate, hrelayed⟩ : ∃ s', (loopBody (.ready tun sock) s).2 = some s' ∧
        Relayed s (loopBody (.ready tun sock) s).1 s' := by
      cases tun with
      | none => exact hsock sock s
      | some ev =>
        have htun := relayed_tunBranch ev s
        rw [loopBody_tun]
        split
        · obtain ⟨s', hstate, hrelayed⟩ := hsock sock (tunBranch ev s).2.1
          exact ⟨s', hstate, htun.append hrelayed⟩
        · exact ⟨_, rfl, htun⟩
    refine ⟨hrelayed.answered, fun s₁ h => ?_⟩
    obtain rfl := Option.some.inj (hstate.symm.trans h)
    exact hrelayed

/-- A pass of the client loop. -/
def Pass (_ : List ClientEffect) (s : SvpnClient) (es : List ClientEffect) (r : Option SvpnClient) :
    Prop :=
  ∃ input, loopBody input s = (es, r)

def simulation : Simulation Pass relay where
  view := view
  input := arrivalOf
  output := actionOf
  stay _ s es s' hpass := by
    obtain ⟨input, heq⟩ := hpass
    have hrelayed := (relayed_loopBody input s).2 s' (by rw [heq])
    rw [heq] at hrelayed
    exact ⟨hrelayed.answered, hrelayed.moved⟩
  stop _ s es hpass := by
    obtain ⟨input, heq⟩ := hpass
    have hanswered := (relayed_loopBody input s).1
    rw [heq] at hanswered
    exact hanswered ▸ List.prefix_rfl

theorem reaches_handleThread (inputs : List Select) {s₀ s : SvpnClient} {h : List ClientEffect}
    (run : Reaches Pass s₀ h (some s)) :
    Reaches Pass s₀ (h ++ (svpnHandleThread inputs s).1) (svpnHandleThread inputs s).2 := by
  induction inputs generalizing s h with
  | nil => simpa [svpnHandleThread] using run
  | cons input inputs ih =>
    have hpass : Pass h s (loopBody input s).1 (loopBody input s).2 := ⟨input, rfl⟩
    cases hstate : (loopBody input s).2 with
    | none =>
      simp only [svpnHandleThread, hstate]
      exact run.step (hstate ▸ hpass)
    | some s' =>
      simp only [svpnHandleThread, hstate, ← List.append_assoc]
      exact ih (run.step (hstate ▸ hpass))

theorem actions_of_reaches {s₀ : SvpnClient} {h : List ClientEffect} {r : Option SvpnClient}
    (run : Reaches Pass s₀ h r) : actions h = relay.run (view s₀) (arrivals h) := by
  cases run with
  | start => rfl
  | @step h es s r before hs =>
    obtain ⟨hanswered, hmoved⟩ := simulation.follows before
    have hlast : actions es = relay.run (view s) (arrivals es) := by
      obtain ⟨input, heq⟩ := hs
      simpa [heq] using (relayed_loopBody input s).1
    have harrivals : arrivals (h ++ es) = arrivals h ++ arrivals es := List.filterMap_append
    have hactions : actions (h ++ es) = actions h ++ actions es := List.filterMap_append
    have hview : view s = relay.after (view s₀) (arrivals h) := hmoved
    have hbefore : actions h = relay.run (view s₀) (arrivals h) := hanswered
    rw [hactions, harrivals, relay.run_append, hbefore, hlast, hview]

/-- Over every run, to its end, the loop acts as the relay does on what the run received. -/
theorem svpnHandleThread_relays (inputs : List Select) (s₀ : SvpnClient) :
    actions (svpnHandleThread inputs s₀).1 =
      relay.run (view s₀) (arrivals (svpnHandleThread inputs s₀).1) ∧
    ∀ s, (svpnHandleThread inputs s₀).2 = some s →
      view s = relay.after (view s₀) (arrivals (svpnHandleThread inputs s₀).1) := by
  have run := reaches_handleThread inputs (Reaches.start : Reaches Pass s₀ [] (some s₀))
  rw [List.nil_append] at run
  refine ⟨actions_of_reaches run, fun s hs => ?_⟩
  rw [hs] at run
  exact (simulation.follows run).2

def sampleClient : SvpnClient :=
  ⟨KeyTable.keyTable (Vector.replicate 16 0) 6, fun _ => 0, fun _ => 0⟩

def samplePass : Select := .ready (some ⟨some [0x45, 0, 0], 3⟩) none

theorem svpnHandleThread_relays_sample :
    ∃ s, (svpnHandleThread [samplePass] sampleClient).2 = some s ∧
      view s = relay.after (view sampleClient)
        (arrivals (svpnHandleThread [samplePass] sampleClient).1) :=
  ⟨_, rfl, (svpnHandleThread_relays [samplePass] sampleClient).2 _ rfl⟩

def sendOf : ClientEffect → Option (List UInt8)
  | .sendto datagram _ => some datagram
  | _ => none

def readOf : ClientEffect → Option (List UInt8)
  | .read packet => some packet
  | _ => none

def datagramOf : ClientEffect → Option (List UInt8)
  | .recvfrom d => some d
  | _ => none

def sendsOf (es : List ClientEffect) : List (List UInt8) := es.filterMap sendOf

def readsOf (es : List ClientEffect) : List (List UInt8) := es.filterMap readOf

def datagramsOf (es : List ClientEffect) : List (List UInt8) := es.filterMap datagramOf

def sentBy : Action → Option (List UInt8)
  | .send datagram => some datagram
  | .write _ => none

def writtenBy : Action → Option (List UInt8)
  | .send _ => none
  | .write packet => some packet

theorem sendsOf_eq_actions (es : List ClientEffect) : sendsOf es = (actions es).filterMap sentBy := by
  unfold sendsOf actions
  rw [List.filterMap_filterMap]
  congr 1
  funext e
  cases e <;> rfl

theorem writesOf_eq_actions (es : List ClientEffect) :
    writesOf es = (actions es).filterMap writtenBy := by
  unfold writesOf actions
  rw [List.filterMap_filterMap]
  congr 1
  funext e
  cases e <;> rfl

def packetIn : Arrival → Option (List UInt8)
  | .packet p => some p
  | .datagram _ => none

def datagramIn : Arrival → Option (List UInt8)
  | .packet _ => none
  | .datagram d => some d

theorem readsOf_eq_arrivals (es : List ClientEffect) :
    readsOf es = (arrivals es).filterMap packetIn := by
  unfold readsOf arrivals
  rw [List.filterMap_filterMap]
  congr 1
  funext e
  cases e <;> rfl

theorem datagramsOf_eq_arrivals (es : List ClientEffect) :
    datagramsOf es = (arrivals es).filterMap datagramIn := by
  unfold datagramsOf arrivals
  rw [List.filterMap_filterMap]
  congr 1
  funext e
  cases e <;> rfl

theorem table_next {table : CodeTable} (r : State) (x : Arrival) (h : r.table = table) :
    (relay.next r x).table = table := by
  cases x <;> exact h

variable {s₀ : SvpnClient} {h : List ClientEffect} {r : Option SvpnClient}

/-- What the client sends is what it reads, encrypted. -/
theorem sends_eq (run : Reaches Pass s₀ h r) :
    sendsOf h = (readsOf h).map fun p => p.map s₀.table.encodeByte := by
  rw [sendsOf_eq_actions, actions_of_reaches run, readsOf_eq_arrivals, List.map_filterMap]
  refine relay.filterMap_run (I := fun r => r.table = s₀.table) table_next ?_ rfl
  intro r hr x _
  cases x with
  | packet p => exact congrArg (fun table : CodeTable => [p.map table.encodeByte]) hr
  | datagram d =>
    rw [relay_out, answer]
    split <;> rfl

def decryption (table : CodeTable) (d : List UInt8) : List UInt8 :=
  (received d).map table.decodeByte

/-- What the client writes are decryptions of what it receives, in order and one for
each datagram at most. -/
theorem writes_sublist (run : Reaches Pass s₀ h r) :
    (writesOf h).Sublist ((datagramsOf h).map (decryption s₀.table)) := by
  rw [writesOf_eq_actions, actions_of_reaches run, datagramsOf_eq_arrivals, List.map_filterMap]
  refine relay.filterMap_run_sublist (I := fun r => r.table = s₀.table) table_next ?_ _ rfl
  intro r hr x
  cases x with
  | packet p => exact List.Sublist.slnil
  | datagram d =>
    have hplain : r.plain d = decryption s₀.table d := by
      rw [← hr]
      rfl
    rw [relay_out, answer, hplain]
    split
    · exact List.Sublist.refl _
    · exact List.nil_sublist _

theorem seen_versionFour (r : State) {d : List UInt8} (hd : d ≠ []) :
    r.seen (r.plain d) >>> (4 : UInt8) = 4 ↔ VersionFour (r.plain d) := by
  cases d with
  | nil => exact absurd rfl hd
  | cons b rest => exact (Option.some_inj (a := r.table.decodeByte b >>> (4 : UInt8)) (b := 4)).symm

/-- Of non-empty datagrams the client writes exactly those of version 4. -/
theorem writes_eq (run : Reaches Pass s₀ h r) (hsome : ∀ d ∈ datagramsOf h, d ≠ []) :
    writesOf h = ((datagramsOf h).map (decryption s₀.table)).filter
      fun packet => VersionFour packet := by
  rw [datagramsOf_eq_arrivals] at hsome ⊢
  rw [writesOf_eq_actions, actions_of_reaches run, ← List.filterMap_eq_filter, List.filterMap_map,
    List.filterMap_filterMap]
  refine relay.filterMap_run (I := fun r => r.table = s₀.table) table_next ?_ rfl
  intro r hr x hx
  cases x with
  | packet p => rfl
  | datagram d =>
    have hplain : r.plain d = decryption s₀.table d := by
      rw [← hr]
      rfl
    have hversion := seen_versionFour r (hsome d (List.mem_filterMap.2 ⟨_, hx, rfl⟩))
    rw [relay_out, answer]
    by_cases hfour : VersionFour (r.plain d)
    · rw [if_pos (hversion.2 hfour), hplain]
      rw [hplain] at hfour
      simp [datagramIn, hfour, writtenBy]
    · rw [if_neg (mt hversion.1 hfour)]
      rw [hplain] at hfour
      simp [datagramIn, hfour]

theorem reads_tunEffects {ev : TunReady} {table : CodeTable} {es : List ClientEffect}
    (heffects : TunEffects ev table es) : ∀ p ∈ readsOf es, p.length ≤ bufferLen := by
  have hone : ∀ q : List UInt8, ∀ p ∈ [received q], p.length ≤ bufferLen := by
    intro q p hp
    rw [List.mem_singleton.1 hp]
    exact List.length_take_le _ _
  cases heffects with
  | failed => exact fun p hp => absurd hp List.not_mem_nil
  | sent => exact hone _
  | dropped => exact hone _

theorem reads_sockEffects {ev : SockReady} {table : CodeTable} {es : List ClientEffect}
    (heffects : SockEffects ev table es) : readsOf es = [] := by
  cases heffects <;> rfl

theorem reads_bounded (run : Reaches Pass s₀ h r) : ∀ p ∈ readsOf h, p.length ≤ bufferLen := by
  induction run with
  | start => exact fun p hp => absurd hp List.not_mem_nil
  | @step h es s r before hs ih =>
    obtain ⟨input, heq⟩ := hs
    obtain ⟨⟨first, second, hes, hfirst, hsecond⟩, -⟩ := loopBody_cases input s
    rw [heq] at hes
    change es = first ++ second at hes
    have hquiet : readsOf second = [] := by
      rcases hsecond with rfl | ⟨ev, hsecond⟩
      · rfl
      · exact reads_sockEffects hsecond
    have hreads : readsOf (h ++ es) = readsOf h ++ readsOf first := by
      rw [hes, readsOf, List.filterMap_append, List.filterMap_append, ← readsOf, ← readsOf,
        ← readsOf, hquiet, List.append_nil]
    intro p hp
    rw [hreads, List.mem_append] at hp
    rcases hp with hp | hp
    · exact ih p hp
    · rcases hfirst with rfl | ⟨ev, hfirst⟩
      · exact absurd hp List.not_mem_nil
      · exact reads_tunEffects hfirst p hp

end SVpn.ClientRelay
