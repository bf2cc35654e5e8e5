import SVpn.SetUp

set_option autoImplicit false

/-!
What `svpn_server_init` takes from an arbitrary text, and what its checks of the port and
of the local address are worth.
-/
namespace SVpn.StartUp
open SVpn.Region SVpn.Crypt SVpn.OutputInfo SVpn.ServerLoop SVpn.BoundedLoop SVpn.Stdio SVpn.InetAddr
open SVpn.ConfigReader SVpn.ConfigGrammar SVpn.ConfigAgreement SVpn.SetUp SVpn.SourceCheck

/-- A word that begins a turn of the loop, and what comes after it. -/
structure Place where
  word : List UInt8
  rest : Stream

def Place.isPort (p : Place) : Bool := strcaseEq (asString p.word) (chars "port")

def Place.isLocal (p : Place) : Bool := strcaseEq (asString p.word) (chars "local")

def Place.after (p : Place) : Stream :=
  if p.isPort then (scanInt p.rest).rest
  else if p.isLocal then (scanWord p.rest).rest
  else p.rest

def places : ℕ → Stream → List Place
  | 0, _ => []
  | turns + 1, fin =>
    match (scanWord fin).value with
    | none => []
    | some word =>
      let p : Place := ⟨word, (scanWord fin).rest⟩
      p :: places turns (fgets tmpLen p.after).rest

def Place.portNumber (p : Place) : Option (Stream × ℤ) :=
  if p.isPort then (scanInt p.rest).value.map fun n => (p.rest, n) else none

/-- The string of a `local` directive, with the text it is read from. Where the text ends
before it, the buffer still holds the keyword. -/
def Place.localString (p : Place) : Option (Stream × List UInt8) :=
  if p.isLocal then some (p.rest, asString ((scanWord p.rest).value.getD p.word)) else none

def portTaken (text : Stream) : Option (Stream × ℤ) :=
  ((places (text.length + 1) text).filterMap Place.portNumber).getLast?

def localTaken (text : Stream) : Option (Stream × List UInt8) :=
  ((places (text.length + 1) text).filterMap Place.localString).getLast?

def Place.portOf (p : Place) : Option UInt16 := p.portNumber.map fun taken => UInt16.ofInt taken.2

def Place.localOf (p : Place) : Option (Vector UInt8 4) :=
  p.localString.map fun taken => inetAddr taken.2

def Place.next (settings : Settings) (p : Place) : Settings :=
  ⟨p.portOf.getD settings.port, p.localOf.getD settings.laddr⟩

/-- The word stands in the text, and `rest` comes after it. -/
structure WordOf (text word rest : Stream) : Prop where
  isWord : Word word
  split : ∃ before, text = before ++ (word ++ rest) ∧ before.getLast?.all isSpace = true
  stops : Stops (fun c => !isSpace c) rest

def Follows (keyword : String) (text rest : Stream) : Prop :=
  ∃ word, WordOf text word rest ∧ IsKeyword keyword (asString word)

/-- A port number is written before what `rest` leaves of the text. -/
structure PortAt (text rest : Stream) (n : ℤ) : Prop where
  follows : Follows "port" text rest
  number : (scanInt rest).value = some n
  range : 1 ≤ n ∧ n ≤ 65535

/-- What counts as an address, with its value. -/
abbrev AddressForm := List UInt8 → Vector UInt8 4 → Prop

structure LocalAt (form : AddressForm) (text rest : Stream) (addr : Vector UInt8 4) : Prop where
  follows : Follows "local" text rest
  address : ∃ word, (scanWord rest).value = some word ∧ form (asString word) addr

def PortWritten (text : Stream) (port : UInt16) : Prop :=
  ∃ rest n, PortAt text rest n ∧ (port.toNat : ℤ) = n

def LocalWritten (form : AddressForm) (text : Stream) (addr : Vector UInt8 4) : Prop :=
  ∃ rest, LocalAt form text rest addr

/-- Numbers and dots, as `inet_addr` takes them. -/
def NumbersAndDots : AddressForm := fun s addr => (parts 4 s).bind address = some addr

def DottedDecimal : AddressForm := fun s addr =>
  ∃ a b c d w x y z, s = dotted a b c d ∧ Numeral a w.toNat ∧ Numeral b x.toNat ∧
    Numeral c y.toNat ∧ Numeral d z.toNat ∧ addr = #v[w, x, y, z]

/-- There is a result, and whatever the system calls return, the port that is bound and the
local address of the server are written in the text. -/
def StartsAsWritten (form : AddressForm) (stack : Cells UInt8) (text : Stream) : Prop :=
  ∀ fd sock tun, ∃ calls result,
    svpnServerInit (some (fd, text)) stack sock tun = some (calls, result) ∧
      (∀ sockFd port ret, SysCall.bind sockFd port ret ∈ calls → PortWritten text port) ∧
      ∀ h, result = some h → LocalWritten form text h.server.localAddr

structure Place.Short (p : Place) : Prop where
  word : p.word.length ≤ 127
  address : p.isLocal = true → ∀ s ∈ (scanWord p.rest).value, s.length ≤ 127

def ShortWords (text : Stream) : Prop := ∀ p ∈ places (text.length + 1) text, p.Short

/-- The checks stop the text: the port or the address it leaves is zero. -/
def Stopped (text : Stream) : Prop :=
  (∀ rest n, portTaken text = some (rest, n) → n % 65536 = 0) ∨
    ∀ rest s, localTaken text = some (rest, s) → inetAddr s = Vector.replicate 4 0

/-- The last number is in range and the last string an address, both behind whole keywords. -/
structure LastInOrder (form : AddressForm) (text : Stream) : Prop where
  port : ∀ rest n, portTaken text = some (rest, n) → Follows "port" text rest ∧ 1 ≤ n ∧ n ≤ 65535
  address : ∀ rest s, localTaken text = some (rest, s) → Follows "local" text rest ∧
    ∃ word addr, (scanWord rest).value = some word ∧ form (asString word) addr

structure InOrder (form : AddressForm) (text : Stream) : Prop where
  short : ShortWords text
  last : Stopped text ∨ LastInOrder form text

theorem Place.isLocal_eq_false {p : Place} (h : p.isPort = true) : p.isLocal = false :=
  (strcaseEq_congr h (chars "local")).trans (by decide)

theorem Place.after_port {p : Place} (h : p.isPort = true) : p.after = (scanInt p.rest).rest :=
  if_pos h

theorem Place.after_local {p : Place} (hport : p.isPort = false) (h : p.isLocal = true) :
    p.after = (scanWord p.rest).rest := by
  rw [Place.after, hport, h]
  rfl

theorem Place.after_other {p : Place} (hport : p.isPort = false) (hlocal : p.isLocal = false) :
    p.after = p.rest := by
  rw [Place.after, hport, hlocal]
  rfl

theorem Place.next_port {p : Place} (h : p.isPort = true) (settings : Settings) :
    p.next settings = { settings with port := match (scanInt p.rest).value with
      | none => settings.port
      | some n => UInt16.ofInt n } := by
  rw [Place.next, Place.portOf, Place.localOf, Place.portNumber, Place.localString, h,
    p.isLocal_eq_false h]
  cases (scanInt p.rest).value <;> rfl

theorem Place.next_local {p : Place} (hport : p.isPort = false) (h : p.isLocal = true)
    (settings : Settings) :
    p.next settings = { settings with
      laddr := inetAddr (asString ((scanWord p.rest).value.getD p.word)) } := by
  rw [Place.next, Place.portOf, Place.localOf, Place.portNumber, Place.localString, hport, h]
  rfl

theorem Place.next_other {p : Place} (hport : p.isPort = false) (hlocal : p.isLocal = false)
    (settings : Settings) : p.next settings = settings := by
  rw [Place.next, Place.portOf, Place.localOf, Place.portNumber, Place.localString, hport, hlocal]
  rfl

theorem settingsTurn_done {r r' : Reader Settings} (h : settingsTurn r = .done r') :
    (scanWord r.fin).value = none ∧ r'.found = r.found := by
  unfold settingsTurn at h
  rcases hword : readWord r.fin r.tmpstr with - | ⟨- | -, fin, tmpstr⟩
  · simp [hword] at h
  · simp only [hword, Turn.done.injEq] at h
    subst h
    exact ⟨(readWord_eq_false hword).1, rfl⟩
  · simp only [hword] at h
    split_ifs at h
    · cases h
    · rcases hsecond : readWord fin tmpstr with - | ⟨b, fin', tmpstr'⟩
      · simp [hsecond] at h
      · simp only [hsecond] at h
        cases h
    · cases h

theorem settingsTurn_again {r r' : Reader Settings} (h : settingsTurn r = .again r') :
    ∃ word, (scanWord r.fin).value = some word ∧
      r'.fin = (fgets tmpLen (Place.after ⟨word, (scanWord r.fin).rest⟩)).rest ∧
      r'.found = Place.next r.found ⟨word, (scanWord r.fin).rest⟩ := by
  unfold settingsTurn at h
  rcases hword : readWord r.fin r.tmpstr with - | ⟨- | -, fin, tmpstr⟩
  · simp [hword] at h
  · simp [hword] at h
  · obtain ⟨word, hvalue, hfit, rfl, rfl⟩ := readWord_eq_true hword
    have hstring := cString_putString_asString r.tmpstr hfit
    refine ⟨word, hvalue, ?_⟩
    simp only [hword, hstring] at h
    generalize hplace : (⟨word, (scanWord r.fin).rest⟩ : Place) = p
    obtain rfl : p.word = word := by rw [← hplace]
    obtain hrest : p.rest = (scanWord r.fin).rest := by rw [← hplace]
    rw [← hrest] at h
    split_ifs at h with hport hlocal
    · obtain ⟨hfin, hfound⟩ := Reader.skipLine_eq h
      rw [hfin, hfound, Place.after_port hport, Place.next_port hport]
      exact ⟨rfl, rfl⟩
    · have hport : p.isPort = false := Bool.eq_false_iff.2 hport
      rw [Place.after_local hport hlocal, Place.next_local hport hlocal]
      rcases hsecond : readWord p.rest (putString r.tmpstr p.word) with - | ⟨- | -, fin', tmpstr'⟩
      · simp [hsecond] at h
      · -- The text ends here, and `inet_addr` gets the keyword.
        obtain ⟨hnone, rfl, rfl⟩ := readWord_eq_false hsecond
        simp only [hsecond] at h
        obtain ⟨hfin, hfound⟩ := Reader.skipLine_eq h
        rw [hfin, hfound, hnone]
        exact ⟨rfl, by simp only [hstring, Option.getD_none]⟩
      · obtain ⟨address, hsome, hlong, rfl, rfl⟩ := readWord_eq_true hsecond
        simp only [hsecond] at h
        obtain ⟨hfin, hfound⟩ := Reader.skipLine_eq h
        rw [hfin, hfound, hsome]
        exact ⟨rfl, by simp only [cString_putString_asString _ hlong, Option.getD_some]⟩
    · have hport : p.isPort = false := Bool.eq_false_iff.2 hport
      have hlocal : p.isLocal = false := Bool.eq_false_iff.2 hlocal
      obtain ⟨hfin, hfound⟩ := Reader.skipLine_eq h
      rw [hfin, hfound, Place.after_other hport hlocal, Place.next_other hport hlocal]
      exact ⟨rfl, rfl⟩

/-- A turn ends the loop for want of a word, or goes on exactly if its words are short. -/
theorem settingsTurn_cases (r : Reader Settings) :
    ((scanWord r.fin).value = none ∧ ∃ r', settingsTurn r = .done r') ∨
      ∃ word, (scanWord r.fin).value = some word ∧
        ((¬ Place.Short ⟨word, (scanWord r.fin).rest⟩ ∧ settingsTurn r = .fault) ∨
          Place.Short ⟨word, (scanWord r.fin).rest⟩ ∧ ∃ r', settingsTurn r = .again r') := by
  cases hword : (scanWord r.fin).value with
  | none => exact .inl ⟨rfl, _, by simp only [settingsTurn, readWord_end hword]; rfl⟩
  | some word =>
    refine .inr ⟨word, rfl, ?_⟩
    by_cases hfit : word.length + 1 ≤ tmpLen
    swap
    · refine .inl ⟨fun h => hfit (Nat.add_le_add_right h.word 1), ?_⟩
      simp only [settingsTurn, readWord_long hword hfit]
    have hshort : word.length ≤ 127 := Nat.le_of_succ_le_succ hfit
    have hstring := cString_putString_asString r.tmpstr hfit
    simp only [settingsTurn, readWord_word hword hfit, hstring]
    split_ifs with hport hlocal
    · have hlocal := Place.isLocal_eq_false (p := ⟨word, (scanWord r.fin).rest⟩) hport
      exact .inr ⟨⟨hshort, fun h => absurd h (Bool.eq_false_iff.1 hlocal)⟩, _, rfl⟩
    · cases hsecond : (scanWord (scanWord r.fin).rest).value with
      | none =>
        simp only [readWord_end hsecond]
        exact .inr ⟨⟨hshort, by simp [hsecond]⟩, _, rfl⟩
      | some s =>
        by_cases hsfit : s.length + 1 ≤ tmpLen
        · simp only [readWord_word hsecond hsfit]
          exact .inr ⟨⟨hshort, by simpa [hsecond] using fun _ => Nat.le_of_succ_le_succ hsfit⟩, _, rfl⟩
        · simp only [readWord_long hsecond hsfit]
          refine .inl ⟨fun h => hsfit ?_, trivial⟩
          exact Nat.add_le_add_right (h.address hlocal s hsecond) 1
    · exact .inr ⟨⟨hshort, fun h => absurd h hlocal⟩, _, rfl⟩

theorem no_fault_iff {turns : ℕ} {r : Reader Settings} (h : r.fin.length < turns) :
    (∀ r', Visits settingsTurn r r' → settingsTurn r' ≠ .fault) ↔
      ∀ p ∈ places turns r.fin, p.Short := by
  induction turns generalizing r with
  | zero => exact absurd h (Nat.not_lt_zero _)
  | succ turns ih =>
    rcases settingsTurn_cases r with ⟨hnone, r', hdone⟩ | ⟨word, hvalue, ⟨hlong, hfault⟩ | ⟨hshort, r', hagain⟩⟩
    · have hstops : ∀ s, settingsTurn r ≠ .again s := fun s hs => by cases hdone.symm.trans hs
      rw [forall_visits_last hstops]
      simp [places, hnone, hdone]
    · simp only [places, hvalue, List.forall_mem_cons]
      exact iff_of_false (fun hall => hall r .here hfault) fun hall => hlong hall.1
    · have hlower : r'.fin.length < r.fin.length := settingsTurn_length hagain
      obtain ⟨word', hvalue', hfin, -⟩ := settingsTurn_again hagain
      obtain rfl := Option.some.inj (hvalue.symm.trans hvalue')
      rw [forall_visits_again hagain, ih (by omega), hagain, hfin]
      simp [places, hvalue, hshort]

/-- The reader has a result exactly on the texts whose words are short, so far as it takes
them. -/
theorem svpnServerInitRead_isSome (stack : Cells UInt8) (text : Stream) :
    (svpnServerInitRead stack text).isSome = true ↔ ShortWords text := by
  have hloop := loop_isSome_iff (fun r : Reader Settings => r.fin.length)
    (fun r r' (h : settingsTurn r = .again r') => settingsTurn_length h)
    (show (⟨text, stack, ⟨0, Vector.replicate 4 0⟩⟩ : Reader Settings).fin.length < text.length + 1
      from Nat.lt_succ_self _)
  rw [svpnServerInitRead, Option.isSome_map, hloop, no_fault_iff (Nat.lt_succ_self _)]
  rfl

theorem found_of_runs {r r' : Reader Settings} (run : Runs settingsTurn r r') {turns : ℕ}
    (h : r.fin.length < turns) : r'.found = (places turns r.fin).foldl Place.next r.found := by
  induction run generalizing turns with
  | done hdone =>
    obtain ⟨turns, rfl⟩ := Nat.exists_eq_add_one_of_ne_zero (Nat.ne_of_gt (Nat.zero_lt_of_lt h))
    obtain ⟨hnone, hfound⟩ := settingsTurn_done hdone
    simp only [places, hnone, List.foldl_nil, hfound]
  | again hagain rest ih =>
    obtain ⟨turns, rfl⟩ := Nat.exists_eq_add_one_of_ne_zero (Nat.ne_of_gt (Nat.zero_lt_of_lt h))
    have hlower := settingsTurn_length hagain
    obtain ⟨word, hvalue, hfin, hfound⟩ := settingsTurn_again hagain
    have hlater := ih (show _ < turns by omega)
    simp only [places, hvalue, List.foldl_cons, ← hfin, ← hfound, hlater]

theorem getLast?_filterMap_map {α β γ : Type} (f : α → Option β) (g : β → γ) (xs : List α) :
    (xs.filterMap fun a => (f a).map g).getLast? = ((xs.filterMap f).getLast?).map g := by
  rw [← List.map_filterMap, List.getLast?_map]

theorem svpnServerInitRead_taken {stack : Cells UInt8} {text : Stream} {settings : Settings}
    (h : svpnServerInitRead stack text = some settings) :
    settings.port = ((portTaken text).map fun taken => UInt16.ofInt taken.2).getD 0 ∧
      settings.laddr =
        ((localTaken text).map fun taken => inetAddr taken.2).getD (Vector.replicate 4 0) := by
  obtain ⟨r, hloop, rfl⟩ := Option.map_eq_some_iff.1 h
  rw [found_of_runs (runs_of_loop hloop) (Nat.lt_succ_self _)]
  have hport := foldl_overwrite Place.next Settings.port Place.portOf (fun _ _ => rfl)
    (places (text.length + 1) text) ⟨0, Vector.replicate 4 0⟩
  have hlocal := foldl_overwrite Place.next Settings.laddr Place.localOf (fun _ _ => rfl)
    (places (text.length + 1) text) ⟨0, Vector.replicate 4 0⟩
  rw [hport, hlocal, portTaken, localTaken, ← getLast?_filterMap_map, ← getLast?_filterMap_map]
  exact ⟨rfl, rfl⟩

theorem checkSettings_eq_some {read settings : Settings} (h : checkSettings read = some settings) :
    read = settings ∧ settings.port ≠ 0 ∧ settings.laddr ≠ Vector.replicate 4 0 := by
  unfold checkSettings at h
  split_ifs at h with hport hlocal
  obtain rfl := Option.some.inj h
  exact ⟨rfl, hport, hlocal⟩

theorem svpnServerInit_started {stack : Cells UInt8} {text : Stream} {settings : Settings}
    (h : (svpnServerInitRead stack text).bind checkSettings = some settings) (fd : ℤ)
    (sock : SockResults) (tun : TunResults) :
    svpnServerInit (some (fd, text)) stack sock tun =
      some ([.fopen (some fd), .fclose fd] ++ (svpnServerStart settings sock tun).1,
        (svpnServerStart settings sock tun).2) := by
  obtain ⟨read, hread, hcheck⟩ := Option.bind_eq_some_iff.1 h
  simp only [svpnServerInit, hread, Option.map_some, hcheck]

theorem bind_runCommands (commands : List (List UInt8 × ℤ × List UInt8)) (fd : ℤ) (port : UInt16) (ret : ℤ) :
    SysCall.bind fd port ret ∉ (runCommands commands).1 := by
  induction commands with
  | nil => simp [runCommands]
  | cons command rest ih =>
    unfold runCommands
    split <;> simp [ih]

theorem bind_svpnTunCreate (laddr : Vector UInt8 4) (tun : TunResults) (fd : ℤ) (port : UInt16)
    (ret : ℤ) : SysCall.bind fd port ret ∉ (svpnTunCreate laddr tun).1 := by
  have hqlen : SysCall.bind fd port ret ∉ svpnSetTuntxqlen tun.ifrName 1000 tun := by
    unfold svpnSetTuntxqlen
    split
    · split <;> simp
    · simp
  unfold svpnTunCreate
  simp only
  split
  · simp
  · split
    · simp
    · simp [hqlen, bind_runCommands]

theorem bind_svpnSockCreate {bound : UInt16} {sock : SockResults} {fd : ℤ} {port : UInt16} {ret : ℤ}
    (h : SysCall.bind fd port ret ∈ (svpnSockCreate bound sock).1) : port = bound := by
  have hbuffers : SysCall.bind fd port ret ∉ sockBuffers sock :=
    fun hmem => nomatch minor_sockBuffers sock _ hmem
  unfold svpnSockCreate at h
  simp only at h
  split_ifs at h
  · simp [hbuffers] at h
  · simp [hbuffers] at h
    exact h.2.1
  · simp [hbuffers] at h
    exact h.2.1

theorem bind_svpnServerStart {settings : Settings} {sock : SockResults} {tun : TunResults} {fd : ℤ}
    {port : UInt16} {ret : ℤ} (h : SysCall.bind fd port ret ∈ (svpnServerStart settings sock tun).1) :
    port = settings.port := by
  have htun := bind_svpnTunCreate settings.laddr tun fd port ret
  unfold svpnServerStart at h
  simp only at h
  split_ifs at h
  · simp at h
    exact bind_svpnSockCreate h
  · simp [htun] at h
    exact bind_svpnSockCreate h
  · simp [htun] at h
    exact bind_svpnSockCreate h

theorem localAddr_svpnServerStart {settings : Settings} {sock : SockResults} {tun : TunResults}
    {h : ServerHandle} (hresult : (svpnServerStart settings sock tun).2 = some h) :
    h.server.localAddr = settings.laddr := by
  unfold svpnServerStart at hresult
  simp only at hresult
  split_ifs at hresult
  obtain rfl := Option.some.inj hresult
  rfl

def sockSuccess : SockResults := ⟨3, 0, 0, 0, 0, 0⟩

def tunSuccess : TunResults := ⟨4, 0, [], 5, 0, 0, 0, 0⟩

theorem svpnServerStart_success (settings : Settings) :
    SysCall.bind 3 settings.port 0 ∈ (svpnServerStart settings sockSuccess tunSuccess).1 ∧
      ∃ h, (svpnServerStart settings sockSuccess tunSuccess).2 = some h ∧
        h.server.localAddr = settings.laddr := by
  refine ⟨?_, _, rfl, rfl⟩
  simp [svpnServerStart, svpnSockCreate, svpnTunCreate, runCommands, ifconfigs, sockSuccess, tunSuccess]

/-- What the calls bind and what the server holds are the settings that were read. -/
theorem startsAsWritten_iff_settings {form : AddressForm} {stack : Cells UInt8} {text : Stream}
    {settings : Settings}
    (h : (svpnServerInitRead stack text).bind checkSettings = some settings) :
    StartsAsWritten form stack text ↔
      PortWritten text settings.port ∧ LocalWritten form text settings.laddr := by
  constructor
  · intro hwritten
    obtain ⟨hport, server, hserver, hlocal⟩ := svpnServerStart_success settings
    obtain ⟨calls, result, hinit, hports, hlocals⟩ := hwritten 0 sockSuccess tunSuccess
    rw [svpnServerInit_started h, Option.some.injEq, Prod.mk.injEq] at hinit
    obtain ⟨rfl, rfl⟩ := hinit
    exact ⟨hports 3 _ 0 (List.mem_append_right _ hport), hlocal ▸ hlocals server hserver⟩
  · rintro ⟨hport, hlocal⟩ fd sock tun
    refine ⟨_, _, svpnServerInit_started h fd sock tun, ?_, fun server hserver => ?_⟩
    · intro sockFd port ret hbind
      rcases List.mem_append.1 hbind with hopen | hstart
      · simp at hopen
      · exact bind_svpnServerStart hstart ▸ hport
    · exact localAddr_svpnServerStart hserver ▸ hlocal

theorem startsAsWritten_of_stopped {form : AddressForm} {stack : Cells UInt8} {text : Stream}
    {settings : Settings} (hread : svpnServerInitRead stack text = some settings)
    (hcheck : checkSettings settings = none) : StartsAsWritten form stack text := by
  intro fd sock tun
  refine ⟨[.fopen (some fd), .fclose fd, .printf (missingSetting settings)], none, ?_, by simp, by simp⟩
  simp only [svpnServerInit, hread, Option.map_some, hcheck]

theorem isSome_of_startsAsWritten {form : AddressForm} {stack : Cells UInt8} {text : Stream}
    (h : StartsAsWritten form stack text) : (svpnServerInitRead stack text).isSome = true := by
  obtain ⟨calls, result, hinit, -⟩ := h 0 sockSuccess tunSuccess
  obtain ⟨settings, hread, -⟩ := Option.map_eq_some_iff.1 hinit
  rw [hread]
  rfl

theorem portTaken_number {text rest : Stream} {n : ℤ} (h : portTaken text = some (rest, n)) :
    (scanInt rest).value = some n := by
  obtain ⟨p, -, hp⟩ := List.mem_filterMap.1 (List.mem_of_getLast? h)
  unfold Place.portNumber at hp
  split_ifs at hp
  obtain ⟨m, hm, hpair⟩ := Option.map_eq_some_iff.1 hp
  obtain ⟨rfl, rfl⟩ := Prod.mk.inj hpair
  exact hm

theorem localTaken_string {text rest : Stream} {s word : List UInt8}
    (h : localTaken text = some (rest, s)) (hword : (scanWord rest).value = some word) :
    s = asString word := by
  obtain ⟨p, -, hp⟩ := List.mem_filterMap.1 (List.mem_of_getLast? h)
  unfold Place.localString at hp
  split_ifs at hp
  obtain ⟨rfl, rfl⟩ := Prod.mk.inj (Option.some.inj hp)
  rw [hword, Option.getD_some]

theorem toNat_ofInt {n : ℤ} (h : 1 ≤ n ∧ n ≤ 65535) : ((UInt16.ofInt n).toNat : ℤ) = n := by
  rw [UInt16.ofInt, UInt16.toNat_ofNat']
  omega

theorem ofInt_eq_zero (n : ℤ) : UInt16.ofInt n = 0 ↔ n % 65536 = 0 := by
  rw [UInt16.ofInt, ← UInt16.toNat_inj, UInt16.toNat_ofNat', UInt16.toNat_zero]
  omega

theorem stopped_iff {stack : Cells UInt8} {text : Stream} {settings : Settings}
    (h : svpnServerInitRead stack text = some settings) :
    Stopped text ↔ checkSettings settings = none := by
  obtain ⟨hport, hlocal⟩ := svpnServerInitRead_taken h
  have hzero : settings.port = 0 ↔ ∀ rest n, portTaken text = some (rest, n) → n % 65536 = 0 := by
    rw [hport]
    rcases portTaken text with - | ⟨rest, n⟩
    · simp
    · simp [ofInt_eq_zero]
  have hnone : settings.laddr = Vector.replicate 4 0 ↔
      ∀ rest s, localTaken text = some (rest, s) → inetAddr s = Vector.replicate 4 0 := by
    rw [hlocal]
    rcases localTaken text with - | ⟨rest, s⟩ <;> simp
  rw [Stopped, ← hzero, ← hnone, checkSettings]
  split_ifs with hportZero haddrZero
  · exact iff_of_true (.inl hportZero) rfl
  · exact iff_of_true (.inr haddrZero) rfl
  · exact iff_of_false (fun h => h.elim hportZero haddrZero) (by simp)

theorem taken_of_checked {stack : Cells UInt8} {text : Stream} {settings : Settings}
    (h : (svpnServerInitRead stack text).bind checkSettings = some settings) :
    (∃ rest n, portTaken text = some (rest, n) ∧ settings.port = UInt16.ofInt n) ∧
      ∃ rest s, localTaken text = some (rest, s) ∧ settings.laddr = inetAddr s := by
  obtain ⟨read, hread, hcheck⟩ := Option.bind_eq_some_iff.1 h
  obtain ⟨rfl, hport, hlocal⟩ := checkSettings_eq_some hcheck
  obtain ⟨hreadPort, hreadLocal⟩ := svpnServerInitRead_taken hread
  constructor
  · cases htaken : portTaken text with
    | none =>
      rw [htaken] at hreadPort
      exact absurd hreadPort hport
    | some taken => exact ⟨taken.1, taken.2, rfl, by rw [hreadPort, htaken]; rfl⟩
  · cases htaken : localTaken text with
    | none =>
      rw [htaken] at hreadLocal
      exact absurd hreadLocal hlocal
    | some taken => exact ⟨taken.1, taken.2, rfl, by rw [hreadLocal, htaken]; rfl⟩

def ShortLines (text : Stream) : Prop :=
  ∀ fin, fin <:+ text → (fin.takeWhile (· ≠ newline)).length + 1 < tmpLen

/-- The text goes on with `fin` where no word is under way. -/
def Between (text fin : Stream) : Prop :=
  ∃ before, text = before ++ fin ∧ before.getLast?.all isSpace = true

theorem suffix_after (p : Place) : p.after <:+ p.rest := by
  unfold Place.after
  split_ifs
  · exact suffix_scanInt p.rest
  · exact suffix_scanWord p.rest
  · exact List.suffix_rfl

theorem between_word {text fin word : Stream} (h : Between text fin)
    (hvalue : (scanWord fin).value = some word) : WordOf text word (scanWord fin).rest := by
  obtain ⟨before, htext, hbefore⟩ := h
  have hfield := Field.of_scanWord hvalue
  obtain ⟨blank, hblank, hfin⟩ := hfield.split
  refine ⟨hfield.isWord, ⟨before ++ blank, ?_, ?_⟩, hfield.stops⟩
  · rw [htext, List.append_assoc]
    exact congrArg (before ++ ·) hfin
  · rw [List.getLast?_append]
    cases hlast : blank.getLast? with
    | none => exact hbefore
    | some c => exact hblank c (List.mem_of_getLast? hlast)

theorem between_fgets {text fin : Stream} (hshort : ShortLines text) (hfin : fin <:+ text)
    (hne : (fgets tmpLen fin).rest ≠ []) : Between text (fgets tmpLen fin).rest := by
  obtain ⟨line, hline⟩ := (fgets_short (hshort fin hfin)).resolve_left hne
  obtain ⟨before, htext⟩ := hfin
  refine ⟨before ++ (line ++ [newline]), ?_, ?_⟩
  · rw [← htext, List.append_assoc, List.append_assoc, List.singleton_append]
    exact congrArg (before ++ ·) hline
  · rw [List.getLast?_append, List.getLast?_append]
    rfl

theorem places_whole {text : Stream} (hshort : ShortLines text) (turns : ℕ) {fin : Stream}
    (h : Between text fin) {p : Place} (hp : p ∈ places turns fin) :
    WordOf text p.word p.rest := by
  induction turns generalizing fin with
  | zero => cases hp
  | succ turns ih =>
    unfold places at hp
    cases hvalue : (scanWord fin).value with
    | none => simp [hvalue] at hp
    | some word =>
      have hword := between_word h hvalue
      simp only [hvalue, List.mem_cons] at hp
      rcases hp with rfl | hp
      · exact hword
      · obtain ⟨before, htext, -⟩ := hword.split
        have hsuffix : Place.after ⟨word, (scanWord fin).rest⟩ <:+ text := by
          refine (suffix_after _).trans ⟨before ++ word, ?_⟩
          rw [htext, List.append_assoc]
        refine ih (between_fgets hshort hsuffix fun hnil => ?_) hp
        rw [hnil] at hp
        cases turns <;> simp [places, scanWord] at hp

theorem portTaken_follows {text rest : Stream} {n : ℤ} (hshort : ShortLines text)
    (h : portTaken text = some (rest, n)) : Follows "port" text rest := by
  obtain ⟨p, hmem, hp⟩ := List.mem_filterMap.1 (List.mem_of_getLast? h)
  have hword := places_whole hshort _ ⟨[], rfl, rfl⟩ hmem
  unfold Place.portNumber at hp
  split_ifs at hp with hport
  obtain ⟨m, -, hpair⟩ := Option.map_eq_some_iff.1 hp
  obtain ⟨rfl, rfl⟩ := Prod.mk.inj hpair
  exact ⟨p.word, hword, hport⟩

theorem localTaken_follows {text rest : Stream} {s : List UInt8} (hshort : ShortLines text)
    (h : localTaken text = some (rest, s)) : Follows "local" text rest := by
  obtain ⟨p, hmem, hp⟩ := List.mem_filterMap.1 (List.mem_of_getLast? h)
  have hword := places_whole hshort _ ⟨[], rfl, rfl⟩ hmem
  unfold Place.localString at hp
  split_ifs at hp with hlocal
  obtain ⟨rfl, rfl⟩ := Prod.mk.inj (Option.some.inj hp)
  exact ⟨p.word, hword, hlocal⟩

theorem inetAddr_numbersAndDots {s : List UInt8} {addr : Vector UInt8 4}
    (h : NumbersAndDots s addr) : inetAddr s = addr := by
  rw [inetAddr, show (parts 4 s).bind address = some addr from h, Option.getD_some]

theorem inetAddr_dottedDecimal {s : List UInt8} {addr : Vector UInt8 4} (h : DottedDecimal s addr) :
    inetAddr s = addr := by
  obtain ⟨a, b, c, d, w, x, y, z, rfl, ha, hb, hc, hd, rfl⟩ := h
  exact inetAddr_dotted ha hb hc hd

theorem inetAddr_form {form : AddressForm} (hform : form = NumbersAndDots ∨ form = DottedDecimal)
    {s : List UInt8} {addr : Vector UInt8 4} (h : form s addr) : inetAddr s = addr := by
  rcases hform with rfl | rfl
  · exact inetAddr_numbersAndDots h
  · exact inetAddr_dottedDecimal h

/-- Any text of short words that the checks stop, or whose last directives are in order, starts
a server only on a port and an address that are written in it. -/
theorem startsAsWritten_of_inOrder {form : AddressForm}
    (hform : form = NumbersAndDots ∨ form = DottedDecimal) (stack : Cells UInt8) {text : Stream}
    (h : InOrder form text) : StartsAsWritten form stack text := by
  obtain ⟨settings, hread⟩ := Option.isSome_iff_exists.1 ((svpnServerInitRead_isSome stack text).2 h.short)
  cases hcheck : checkSettings settings with
  | none => exact startsAsWritten_of_stopped hread hcheck
  | some checked =>
    have hsettings : (svpnServerInitRead stack text).bind checkSettings = some checked := by
      rw [hread, Option.bind_some, hcheck]
    have hlast : LastInOrder form text := by
      refine h.last.resolve_left fun hstopped => ?_
      cases hcheck.symm.trans ((stopped_iff hread).1 hstopped)
    obtain ⟨⟨rest, n, hport, hn⟩, rest', s, hlocal, hs⟩ := taken_of_checked hsettings
    obtain ⟨hfollows, hrange⟩ := hlast.port rest n hport
    obtain ⟨hfollows', word, addr, hword, haddr⟩ := hlast.address rest' s hlocal
    have hvalue : checked.laddr = addr := by
      rw [hs, localTaken_string hlocal hword]
      exact inetAddr_form hform haddr
    rw [startsAsWritten_iff_settings hsettings]
    exact ⟨⟨rest, n, ⟨hfollows, portTaken_number hport, hrange⟩, hn ▸ toNat_ofInt hrange⟩,
      rest', hfollows', word, hword, hvalue ▸ haddr⟩

/-- The only places where the two keywords stand as whole words are those read last. -/
structure Once (text : Stream) : Prop where
  port : ∀ rest n rest', portTaken text = some (rest, n) → Follows "port" text rest' → rest' = rest
  address : ∀ rest s rest', localTaken text = some (rest, s) → Follows "local" text rest' →
    rest' = rest

/-- In a text that writes each keyword once nothing else is written that a wrong port or
address could agree with. -/
theorem inOrder_of_startsAsWritten {form : AddressForm} {stack : Cells UInt8} {text : Stream}
    (honce : Once text) (h : StartsAsWritten form stack text) : InOrder form text := by
  have hsome := isSome_of_startsAsWritten h
  refine ⟨(svpnServerInitRead_isSome stack text).1 hsome, ?_⟩
  obtain ⟨settings, hread⟩ := Option.isSome_iff_exists.1 hsome
  cases hcheck : checkSettings settings with
  | none => exact .inl ((stopped_iff hread).2 hcheck)
  | some checked =>
    have hsettings : (svpnServerInitRead stack text).bind checkSettings = some checked := by
      rw [hread, Option.bind_some, hcheck]
    obtain ⟨⟨rest', n', hat, -⟩, rest₂, hlocalAt⟩ := (startsAsWritten_iff_settings hsettings).1 h
    refine .inr ⟨fun rest n hport => ?_, fun rest s hlocal => ?_⟩
    · obtain rfl := honce.port rest n rest' hport hat.follows
      obtain rfl := Option.some.inj (hat.number.symm.trans (portTaken_number hport))
      exact ⟨hat.follows, hat.range⟩
    · obtain rfl := honce.address rest s rest₂ hlocal hlocalAt.follows
      obtain ⟨word, hword, haddr⟩ := hlocalAt.address
      exact ⟨hlocalAt.follows, word, checked.laddr, hword, haddr⟩

/-- With short lines the keywords that are read are whole. -/
theorem lastInOrder_of_shortLines {form : AddressForm} {text : Stream} (hshort : ShortLines text)
    (hport : ∀ rest n, portTaken text = some (rest, n) → 1 ≤ n ∧ n ≤ 65535)
    (hlocal : ∀ rest s, localTaken text = some (rest, s) →
      ∃ word addr, (scanWord rest).value = some word ∧ form (asString word) addr) :
    LastInOrder form text :=
  ⟨fun rest n h => ⟨portTaken_follows hshort h, hport rest n h⟩,
    fun rest s h => ⟨localTaken_follows hshort h, hlocal rest s h⟩⟩

instance (p : Place) : Decidable p.Short :=
  decidable_of_iff (p.word.length ≤ 127 ∧
      (p.isLocal = true → ∀ s ∈ (scanWord p.rest).value, s.length ≤ 127))
    ⟨fun h => ⟨h.1, h.2⟩, fun h => ⟨h.word, h.address⟩⟩

theorem shortLines_of_tails {text : Stream}
    (h : ∀ fin ∈ text.tails, (fin.takeWhile (· ≠ newline)).length + 1 < tmpLen) : ShortLines text :=
  fun fin hfin => h fin ((List.mem_tails _ _).2 hfin)

theorem startsAsWritten_sample : StartsAsWritten DottedDecimal (fun _ => 0) sampleText := by
  have hshort : ShortLines sampleText := shortLines_of_tails (by decide)
  have hport : portTaken sampleText = some (sampleText.drop 4, 123) := by decide
  have hlocal : localTaken sampleText = some (sampleText.drop 14, chars "192.168.3.1") := by decide
  have haddr : DottedDecimal (chars "192.168.3.1") #v[192, 168, 3, 1] :=
    ⟨chars "192", chars "168", chars "3", chars "1", 192, 168, 3, 1, by decide, by decide, by decide,
      by decide, by decide, rfl⟩
  refine startsAsWritten_of_inOrder (.inr rfl) _ ⟨by unfold ShortWords; decide, .inr ?_⟩
  refine lastInOrder_of_shortLines hshort (fun rest n h => ?_) fun rest s h => ?_
  · obtain ⟨-, rfl⟩ := Prod.mk.inj (Option.some.inj (hport.symm.trans h))
    decide
  · obtain ⟨rfl, -⟩ := Prod.mk.inj (Option.some.inj (hlocal.symm.trans h))
    exact ⟨chars "192.168.3.1", _, by decide, haddr⟩

theorem Follows.suffix {keyword : String} {text rest : Stream} (h : Follows keyword text rest) :
    rest <:+ text := by
  obtain ⟨word, hword, -⟩ := h
  obtain ⟨before, htext, -⟩ := hword.split
  rw [htext, ← List.append_assoc]
  exact List.suffix_append _ _

def wrongText : Stream := chars "port 65537" ++ [newline] ++ chars "local x"

/-- The port wraps to 1, and the address is `INADDR_NONE`. -/
theorem wrongText_starts :
    (svpnServerInitRead (fun _ => 0) wrongText).bind checkSettings = some ⟨1, inaddrNone⟩ ∧
      ¬ PortWritten wrongText 1 ∧ ¬ LocalWritten NumbersAndDots wrongText inaddrNone ∧
      ¬ StartsAsWritten NumbersAndDots (fun _ => 0) wrongText := by
  have hread : (svpnServerInitRead (fun _ => 0) wrongText).bind checkSettings =
      some ⟨1, inaddrNone⟩ := by decide +kernel
  have hport : ¬ PortWritten wrongText 1 := by
    rintro ⟨rest, n, hat, hvalue⟩
    have hmem := (List.mem_tails _ _).2 hat.follows.suffix
    have hnone : ∀ rest ∈ wrongText.tails, (scanInt rest).value ≠ some 1 := by decide
    exact hnone rest hmem (hat.number.trans (by rw [← hvalue]; rfl))
  have hlocal : ¬ LocalWritten NumbersAndDots wrongText inaddrNone := by
    rintro ⟨rest, hat⟩
    obtain ⟨word, hword, haddr⟩ := hat.address
    have hmem := (List.mem_tails _ _).2 hat.follows.suffix
    have hnone : ∀ rest ∈ wrongText.tails, ∀ word ∈ (scanWord rest).value,
        (parts 4 (asString word)).bind address ≠ some inaddrNone := by decide
    exact hnone rest hmem word hword haddr
  exact ⟨hread, hport, hlocal, fun h => hport ((startsAsWritten_iff_settings hread).1 h).1⟩

end SVpn.StartUp
