import SVpn.ClientLoop
import SVpn.KeyTable
import SVpn.Trace

set_option autoImplicit false

/-!
What one pass of the client can do. Both branches use the same two buffers, and
neither output depends on what they held.
-/
namespace SVpn.ClientSteps
open SVpn.Region SVpn.Crypt SVpn.KeyTable SVpn.ClientLoop SVpn.Trace

theorem load_transform_store (f : UInt8 → UInt8) (tmpBuffer buffer : Cells UInt8)
    (bytes : List UInt8) :
    load (transform f (store tmpBuffer 0 bytes) buffer bytes.length) bytes.length = bytes.map f := by
  rw [load_transform, load_store]

/-- What the tunnel branch can emit: nothing, or a packet and its encryption. -/
inductive TunEffects (ev : TunReady) (table : CodeTable) : List ClientEffect → Prop where
  | failed (hpacket : ev.packet = none) : TunEffects ev table []
  | sent {p : List UInt8} (hpacket : ev.packet = some p) :
      TunEffects ev table
        [.read (received p), .sendto ((received p).map table.encodeByte) ev.sendRet]
  | dropped {p : List UInt8} (hpacket : ev.packet = some p) :
      TunEffects ev table
        [.read (received p), .sendto ((received p).map table.encodeByte) ev.sendRet, .dropped]

theorem tunBranch_cases (ev : TunReady) (s : SvpnClient) :
    TunEffects ev s.table (tunBranch ev s).1 ∧ (tunBranch ev s).2.1.table = s.table := by
  unfold tunBranch
  cases hpacket : ev.packet with
  | none => exact ⟨.failed hpacket, rfl⟩
  | some p =>
    have hload := load_transform_store s.table.encodeByte s.tmpBuffer s.buffer (p.take bufferLen)
    refine ⟨?_, rfl⟩
    simp only [encrypt, hload]
    split_ifs
    · exact .dropped hpacket
    · exact .sent hpacket

/-- The test a client makes on the first decrypted byte. -/
def VersionFour (packet : List UInt8) : Prop := packet.head?.map (fun b : UInt8 => b >>> (4 : UInt8)) = some 4

instance (packet : List UInt8) : Decidable (VersionFour packet) :=
  inferInstanceAs (Decidable (_ = _))

/-- What the socket branch can emit. On an empty datagram the test reads a byte
that an earlier pass left in the buffer. -/
inductive SockEffects (ev : SockReady) (table : CodeTable) : List ClientEffect → Prop where
  | failed (hrecv : ev.recv = none) : SockEffects ev table []
  | written {d : List UInt8} (hrecv : ev.recv = some d)
      (hversion : d ≠ [] → VersionFour ((received d).map table.decodeByte)) :
      SockEffects ev table [.recvfrom d, .write ((received d).map table.decodeByte) ev.writeRet]
  | refused {d : List UInt8} (hrecv : ev.recv = some d)
      (hversion : d ≠ [] → ¬ VersionFour ((received d).map table.decodeByte)) :
      SockEffects ev table [.recvfrom d]

theorem sockBranch_cases (ev : SockReady) (s : SvpnClient) :
    SockEffects ev s.table (sockBranch ev s).1 ∧ (sockBranch ev s).2.table = s.table := by
  unfold sockBranch
  cases hrecv : ev.recv with
  | none => exact ⟨.failed hrecv, rfl⟩
  | some d =>
    have hload := load_transform_store s.table.decodeByte s.tmpBuffer s.buffer (received d)
    have hversion : d ≠ [] → (VersionFour ((received d).map s.table.decodeByte) ↔
        transform s.table.decodeByte (store s.tmpBuffer 0 (received d)) s.buffer
          (received d).length 0 >>> 4 = 4) := by
      intro hd
      cases d with
      | nil => exact absurd rfl hd
      | cons b rest =>
        rw [transform_eq_store, load_store]
        exact Option.some_inj (a := s.table.decodeByte b >>> (4 : UInt8)) (b := 4)
    simp only [decrypt]
    by_cases hfirst : transform s.table.decodeByte (store s.tmpBuffer 0 (received d)) s.buffer
        (received d).length 0 >>> 4 = 4
    · rw [received] at hfirst hload
      simp only [ne_eq, hfirst, not_true_eq_false, if_false, hload, and_true]
      exact .written hrecv fun hd => (hversion hd).2 hfirst
    · have hrefused : SockEffects ev s.table [.recvfrom d] :=
        .refused hrecv fun hd => mt (hversion hd).1 hfirst
      rw [received] at hfirst
      simp only [ne_eq, hfirst, not_false_eq_true, if_true, and_true]
      exact hrefused

theorem loopBody_sock (sock : Option SockReady) (s : SvpnClient) :
    ((loopBody (.ready none sock) s).1 = [] ∨
      ∃ ev, SockEffects ev s.table (loopBody (.ready none sock) s).1) ∧
    ∀ s', (loopBody (.ready none sock) s).2 = some s' → s'.table = s.table := by
  cases sock with
  | none => exact ⟨.inl rfl, fun s' h => by cases h; rfl⟩
  | some ev =>
    obtain ⟨heffects, htable⟩ := sockBranch_cases ev s
    exact ⟨.inr ⟨ev, heffects⟩, fun s' h => by cases h; exact htable⟩

theorem loopBody_tun (ev : TunReady) (sock : Option SockReady) (s : SvpnClient) :
    loopBody (.ready (some ev) sock) s =
      if (tunBranch ev s).2.2 then
        ((tunBranch ev s).1 ++ (loopBody (.ready none sock) (tunBranch ev s).2.1).1,
          (loopBody (.ready none sock) (tunBranch ev s).2.1).2)
      else ((tunBranch ev s).1, some (tunBranch ev s).2.1) := by
  cases sock with
  | none =>
    simp only [loopBody, if_true, List.append_nil]
  | some ev' =>
    simp only [loopBody, if_true, List.nil_append]

theorem loopBody_cases (input : Select) (s : SvpnClient) :
    (∃ first second, (loopBody input s).1 = first ++ second ∧
      (first = [] ∨ ∃ ev, TunEffects ev s.table first) ∧
      (second = [] ∨ ∃ ev, SockEffects ev s.table second)) ∧
    ∀ s', (loopBody input s).2 = some s' → s'.table = s.table := by
  cases input with
  | interrupted => exact ⟨⟨[], [], rfl, .inl rfl, .inl rfl⟩, fun s' h => by cases h⟩
  | failed => exact ⟨⟨[], [], rfl, .inl rfl, .inl rfl⟩, fun s' h => by cases h; rfl⟩
  | ready tun sock =>
    cases tun with
    | none =>
      obtain ⟨heffects, htable⟩ := loopBody_sock sock s
      exact ⟨⟨[], _, rfl, .inl rfl, heffects⟩, htable⟩
    | some ev =>
      obtain ⟨hfirst, htun⟩ := tunBranch_cases ev s
      obtain ⟨hsecond, hsock⟩ := loopBody_sock sock (tunBranch ev s).2.1
      rw [htun] at hsecond hsock
      rw [loopBody_tun]
      split
      · exact ⟨⟨_, _, rfl, .inr ⟨ev, hfirst⟩, hsecond⟩, hsock⟩
      · exact ⟨⟨_, [], by simp, .inr ⟨ev, hfirst⟩, .inl rfl⟩, fun s' h => by cases h; exact htun⟩

theorem loopBody_sent {ev : TunReady} {p : List UInt8} (s : SvpnClient)
    (hpacket : ev.packet = some p) (hlen : p.length ≤ bufferLen) (hret : 0 < ev.sendRet) :
    (loopBody (.ready (some ev) none) s).1 =
      [.read p, .sendto (p.map s.table.encodeByte) ev.sendRet] := by
  have hload := load_transform_store s.table.encodeByte s.tmpBuffer s.buffer p
  have hdata : p.take bufferLen = p := received_eq hlen
  simp only [loopBody, tunBranch, hpacket, hdata, encrypt, hload, not_le.2 hret, if_true, if_false]

/-- Every datagram sent encrypts a packet read before it, and every packet written
decrypts a datagram received before it. -/
def Caused (table : CodeTable) (before : List ClientEffect) : ClientEffect → Prop
  | .sendto datagram _ => ∃ p, .read p ∈ before ∧ datagram = p.map table.encodeByte
  | .write packet _ => ∃ d, .recvfrom d ∈ before ∧ packet = (received d).map table.decodeByte ∧
      (d ≠ [] → VersionFour packet)
  | _ => True

theorem Caused.mono {table : CodeTable} {before : List ClientEffect} (earlier : List ClientEffect)
    {e : ClientEffect} (h : Caused table before e) : Caused table (earlier ++ before) e := by
  cases e with
  | sendto datagram ret =>
    obtain ⟨p, hread, hdata⟩ := h
    exact ⟨p, List.mem_append_right earlier hread, hdata⟩
  | write packet ret =>
    obtain ⟨d, hrecv, hrest⟩ := h
    exact ⟨d, List.mem_append_right earlier hrecv, hrest⟩
  | read packet => trivial
  | recvfrom d => trivial
  | dropped => trivial

theorem TunEffects.caused {ev : TunReady} {table : CodeTable} {es : List ClientEffect}
    (h : TunEffects ev table es) : Each (Caused table) es := by
  cases h with
  | failed => exact each_nil _
  | sent hpacket => simp [each_cons, each_nil, Caused]
  | dropped hpacket => simp [each_cons, each_nil, Caused]

theorem SockEffects.caused {ev : SockReady} {table : CodeTable} {es : List ClientEffect}
    (h : SockEffects ev table es) : Each (Caused table) es := by
  cases h with
  | failed => exact each_nil _
  | @written d hrecv hversion =>
    simp only [each_cons, each_nil, and_true]
    exact ⟨trivial, d, List.mem_singleton.2 rfl, rfl, hversion⟩
  | refused hrecv => simp [each_cons, each_nil, Caused]

theorem loopBody_caused (input : Select) (s : SvpnClient) :
    Each (Caused s.table) (loopBody input s).1 := by
  obtain ⟨⟨first, second, heq, hfirst, hsecond⟩, -⟩ := loopBody_cases input s
  rw [heq, each_append]
  constructor
  · rcases hfirst with rfl | ⟨ev, hfirst⟩
    · exact each_nil _
    · exact hfirst.caused
  · rcases hsecond with rfl | ⟨ev, hsecond⟩
    · exact each_nil _
    · exact hsecond.caused.mono fun before e he => he.mono first

def writeOf : ClientEffect → Option (List UInt8)
  | .write packet _ => some packet
  | _ => none

def writesOf (es : List ClientEffect) : List (List UInt8) := es.filterMap writeOf

/-- A pass that receives a datagram writes its decryption when the nibble is right,
and writes nothing otherwise. -/
theorem writesOf_loopBody {input : Select} {s : SvpnClient} {d : List UInt8}
    (hrecv : .recvfrom d ∈ (loopBody input s).1) (hd : d ≠ []) (hlen : d.length ≤ bufferLen) :
    writesOf (loopBody input s).1 =
      if VersionFour (d.map s.table.decodeByte) then [d.map s.table.decodeByte] else [] := by
  obtain ⟨⟨first, second, heq, hfirst, hsecond⟩, -⟩ := loopBody_cases input s
  have hquiet : .recvfrom d ∉ first ∧ writesOf first = [] := by
    rcases hfirst with rfl | ⟨ev, hfirst⟩
    · simp [writesOf]
    · cases hfirst <;> simp [writesOf, writeOf]
  rw [heq, List.mem_append, or_iff_right hquiet.1] at hrecv
  rw [heq, writesOf, List.filterMap_append, ← writesOf, hquiet.2, List.nil_append]
  rcases hsecond with rfl | ⟨ev, hsecond⟩
  · simp at hrecv
  · cases hsecond with
    | failed => simp at hrecv
    | written _ hversion =>
      simp only [List.mem_cons, ClientEffect.recvfrom.injEq, reduceCtorEq, List.not_mem_nil,
        or_false] at hrecv
      subst hrecv
      rw [received_eq hlen] at hversion ⊢
      rw [if_pos (hversion hd)]
      rfl
    | refused _ hversion =>
      simp only [List.mem_cons, ClientEffect.recvfrom.injEq, List.not_mem_nil, or_false] at hrecv
      subst hrecv
      rw [received_eq hlen] at hversion
      rw [if_neg (hversion hd)]
      rfl

end SVpn.ClientSteps
