import SVpn.ConfigReader
import SVpn.KeyTable
import SVpn.Md5Digest
import Mathlib.Data.List.Forall2

set_option autoImplicit false

/-!
The lines of a configuration file, and what one line does to each of the readers:
both leave it at its end, whichever directive it carries.
-/
namespace SVpn.ConfigGrammar
open SVpn.ArrayPermutation SVpn.Region SVpn.Crypt SVpn.OutputInfo SVpn.Md5 SVpn.ServerLoop
open SVpn.BoundedLoop SVpn.Stdio SVpn.InetAddr SVpn.ConfigReader SVpn.Md5Digest SVpn.KeyTable

inductive Directive where
  | blank
  | port (n : UInt16)
  | localAddr (addr : Vector UInt8 4)
  | user (id : UInt8) (password : List UInt8)
  | other
  deriving DecidableEq

/-- The first word of the bytes, and what comes after it. -/
structure Field (bytes word rest : List UInt8) : Prop where
  isWord : Word word
  stops : Stops (fun c => !isSpace c) rest
  split : ∃ blank, Blank blank ∧ bytes = blank ++ (word ++ rest)

def IsKeyword (s : String) (word : List UInt8) : Prop := strcaseEq word (chars s) = true

instance (s : String) (word : List UInt8) : Decidable (IsKeyword s word) :=
  inferInstanceAs (Decidable (_ = true))

/-- The bytes of a line that carries the directive. What is left of the line after
the fields is arbitrary. -/
inductive Spells (bytes : List UInt8) : Directive → Prop where
  | blank (h : Blank bytes) : Spells bytes .blank
  | port {word fields digits rest : List UInt8} {n : UInt16} (hword : Field bytes word fields)
      (hkeyword : IsKeyword "port" word) (hfield : Field fields digits rest)
      (hdigits : Digits digits n.toNat) (hrange : 1 ≤ n.toNat ∧ n.toNat ≤ 32767) :
      Spells bytes (.port n)
  | localAddr {word fields a b c d rest : List UInt8} {w x y z : UInt8}
      (hword : Field bytes word fields) (hkeyword : IsKeyword "local" word)
      (hfield : Field fields (dotted a b c d) rest) (ha : Numeral a w.toNat)
      (hb : Numeral b x.toNat) (hc : Numeral c y.toNat) (hd : Numeral d z.toNat) :
      Spells bytes (.localAddr #v[w, x, y, z])
  | user {word fields digits rest password tail : List UInt8} {id : UInt8}
      (hword : Field bytes word fields) (hkeyword : IsKeyword "user" word)
      (hfield : Field fields digits rest) (hdigits : Digits digits id.toNat)
      (hpassword : Field rest password tail) : Spells bytes (.user id password)
  | other {word fields : List UInt8} (hword : Field bytes word fields)
      (hkeyword : ¬ IsKeyword "port" word ∧ ¬ IsKeyword "local" word ∧ ¬ IsKeyword "user" word) :
      Spells bytes .other

/-- Bytes that end where a line does. -/
structure Piece (bytes : List UInt8) : Prop where
  nul : (0 : UInt8) ∉ bytes
  newline : newline ∉ bytes
  short : bytes.length < 127

structure Line (bytes : List UInt8) (d : Directive) : Prop extends Piece bytes where
  spells : Spells bytes d

def Config (text : Stream) (ds : List Directive) : Prop :=
  ∃ lines, text = [newline].intercalate lines ∧ List.Forall₂ Line lines ds

theorem Piece.rest {bytes word rest : List UInt8} (h : Piece bytes) (hfield : Field bytes word rest) :
    Piece rest := by
  obtain ⟨blank, -, rfl⟩ := hfield.split
  have hmem : ∀ {c : UInt8}, c ∈ rest → c ∈ blank ++ (word ++ rest) := fun hc =>
    List.mem_append_right _ (List.mem_append_right _ hc)
  have hshort := h.short
  rw [List.length_append, List.length_append] at hshort
  exact ⟨fun hc => h.nul (hmem hc), fun hc => h.newline (hmem hc), by omega⟩

variable {bytes word rest fin after : List UInt8}

/-- A word that is read is the first of the text. -/
theorem Field.of_scanWord (h : (scanWord bytes).value = some word) :
    Field bytes word (scanWord bytes).rest := by
  have hblank : Blank (bytes.takeWhile isSpace) := List.all_eq_true.1 List.all_takeWhile
  have hsplit := List.takeWhile_append_dropWhile (p := isSpace) (l := bytes)
  have hhead := List.head?_dropWhile_not isSpace bytes
  unfold scanWord at h ⊢
  cases hskip : bytes.dropWhile isSpace with
  | nil => simp [hskip] at h
  | cons c text =>
    rw [hskip] at h hsplit hhead
    simp only [Option.some.injEq] at h ⊢
    subst h
    refine ⟨⟨?_, ?_⟩, ?_, _, hblank, ?_⟩
    · rw [List.takeWhile_cons_of_pos (by simpa using hhead)]
      exact List.cons_ne_nil _ _
    · intro d hd
      simpa using List.all_eq_true.1 List.all_takeWhile _ hd
    · intro d hd
      have hstop := List.head?_dropWhile_not (fun c => !isSpace c) (c :: text)
      rw [hd] at hstop
      exact hstop
    · rw [List.takeWhile_append_dropWhile, hsplit]

theorem Field.length_le (h : Field bytes word rest) : word.length + rest.length ≤ bytes.length := by
  obtain ⟨blank, -, rfl⟩ := h.split
  rw [List.length_append, List.length_append]
  omega

/-- The first word is the same whatever comes after the bytes it stands in. -/
theorem scanWord_append (h : (scanWord bytes).value = some word)
    (hstop : Stops (fun c => !isSpace c) fin) :
    scanWord (bytes ++ fin) = ⟨some word, (scanWord bytes).rest ++ fin⟩ := by
  have hfield := Field.of_scanWord h
  obtain ⟨blank, hblank, hbytes⟩ := hfield.split
  calc scanWord (bytes ++ fin) = scanWord (blank ++ (word ++ ((scanWord bytes).rest ++ fin))) := by
        rw [← List.append_assoc word, ← List.append_assoc blank, ← hbytes]
    _ = _ := scanWord_word hblank hfield.isWord (hfield.stops.append (fun _ => id) hstop)

theorem Field.length_lt (h : Field bytes word rest) (hpiece : Piece bytes) : word.length < 127 := by
  obtain ⟨blank, -, rfl⟩ := h.split
  have hshort := hpiece.short
  rw [List.length_append, List.length_append] at hshort
  omega

theorem Field.stops_append (h : Field bytes word rest) (hend : LineEnd fin after) :
    Stops (fun c => !isSpace c) (rest ++ fin) :=
  h.stops.append (fun _ => id) hend.stops

theorem stops_isDigit {s : Stream} (h : Stops (fun c => !isSpace c) s) : Stops isDigit s := by
  intro c hc
  have hspace : (!isSpace c) = false := h c hc
  by_contra hdigit
  rw [isDigit_not_space (by simpa using hdigit)] at hspace
  cases hspace

theorem readWord_field (h : Field bytes word rest) (hpiece : Piece bytes) (hend : LineEnd fin after)
    (tmpstr : Cells UInt8) :
    readWord (bytes ++ fin) tmpstr = some (true, rest ++ fin, putString tmpstr word) := by
  have hfit : word.length + 1 ≤ tmpLen := Nat.le_succ_of_le (h.length_lt hpiece)
  obtain ⟨blank, hblank, rfl⟩ := h.split
  rw [List.append_assoc, List.append_assoc, readWord]
  simp only [scanWord_word hblank h.isWord (h.stops_append hend), hfit, if_true]

theorem cString_field (h : Field bytes word rest) (hpiece : Piece bytes) (tmpstr : Cells UInt8) :
    cString tmpLen (putString tmpstr word) = word := by
  have hfit : word.length + 1 ≤ tmpLen := Nat.le_succ_of_le (h.length_lt hpiece)
  obtain ⟨blank, -, rfl⟩ := h.split
  apply cString_putString _ hfit
  exact fun hc => hpiece.nul (List.mem_append_right _ (List.mem_append_left _ hc))

theorem scanInt_field {n : ℕ} (h : Field bytes word rest) (hdigits : Digits word n)
    (hlong : n < 2 ^ 63) (hend : LineEnd fin after) :
    scanInt (bytes ++ fin) = ⟨some (n : ℤ), rest ++ fin⟩ := by
  obtain ⟨blank, hblank, rfl⟩ := h.split
  rw [List.append_assoc, List.append_assoc, scanInt_digits hblank hdigits.ne_nil hdigits.isDigit
    (stops_isDigit (h.stops_append hend)) (hdigits.value.trans_lt hlong), hdigits.value]

theorem skipLine_piece {σ : Type} (hpiece : Piece bytes) (hend : LineEnd fin after)
    (tmpstr : Cells UInt8) (found : σ) :
    ∃ tmpstr', Reader.skipLine ⟨bytes ++ fin, tmpstr, found⟩ = .again ⟨after, tmpstr', found⟩ := by
  have hshort := hpiece.short
  exact Reader.skipLine_line hpiece.newline (by rw [tmpLen]; omega) hend tmpstr found

theorem scanWord_blank_line (h : Blank bytes) (hend : LineEnd fin after) :
    scanWord (bytes ++ fin) = scanWord after := by
  obtain ⟨sep, hsep, rfl⟩ := hend.blank
  rw [scanWord_blank h, scanWord_blank hsep]

theorem readWord_blank_line (h : Blank bytes) (hend : LineEnd fin after) (tmpstr : Cells UInt8) :
    readWord (bytes ++ fin) tmpstr = readWord after tmpstr := by
  rw [readWord, readWord, scanWord_blank_line h hend]

theorem IsKeyword.strcaseEq {s : String} (h : IsKeyword s word) (t : String) :
    strcaseEq word (chars t) = Stdio.strcaseEq (chars s) (chars t) :=
  strcaseEq_congr h _

section
variable {σ : Type} {turn : Reader σ → Turn (Reader σ)}

/-- The loop entered in `r` leaves with `found`. -/
def Reads (turn : Reader σ → Turn (Reader σ)) (r : Reader σ) (found : σ) : Prop :=
  ∃ r', Runs turn r r' ∧ r'.found = found

theorem reads_again {r r' : Reader σ} {found : σ} (h : turn r = .again r')
    (hreads : Reads turn r' found) : Reads turn r found := by
  obtain ⟨t, hrun, hfound⟩ := hreads
  exact ⟨t, .again h hrun, hfound⟩

/-- From the start of a line the loop gets to the start of the next, whatever the
buffer holds, with what the directive adds. -/
def StepsByLine (turn : Reader σ → Turn (Reader σ)) (next : σ → Directive → σ) : Prop :=
  ∀ (bytes fin after : List UInt8) (d : Directive), Line bytes d → LineEnd fin after →
    ∀ found final : σ, (∀ tmpstr, Reads turn ⟨after, tmpstr, next found d⟩ final) →
      ∀ tmpstr, Reads turn ⟨bytes ++ fin, tmpstr, found⟩ final

theorem StepsByLine.reads {next : σ → Directive → σ} (hturn : StepsByLine turn next)
    (hnil : ∀ tmpstr found, turn ⟨[], tmpstr, found⟩ = .done ⟨[], tmpstr, found⟩)
    {lines : List (List UInt8)} {ds : List Directive} (h : List.Forall₂ Line lines ds)
    (tmpstr : Cells UInt8) (found : σ) :
    Reads turn ⟨[newline].intercalate lines, tmpstr, found⟩ (ds.foldl next found) := by
  induction h generalizing tmpstr found with
  | nil => exact ⟨_, .done (hnil tmpstr found), rfl⟩
  | cons hline hlines ih =>
    obtain ⟨fin, htext, hend⟩ := lineEnd_intercalate _ _
    rw [htext]
    exact hturn _ _ _ _ hline hend _ _ (fun tmpstr' => ih tmpstr' _) tmpstr

end

def nextSettings (settings : Settings) : Directive → Settings
  | .port n => { settings with port := n }
  | .localAddr addr => { settings with laddr := addr }
  | _ => settings

theorem settingsTurn_skip (h : Field bytes word rest) (hpiece : Piece bytes)
    (hend : LineEnd fin after) (hport : strcaseEq word (chars "port") = false)
    (hlocal : strcaseEq word (chars "local") = false) (tmpstr : Cells UInt8)
    (settings : Settings) :
    ∃ tmpstr', settingsTurn ⟨bytes ++ fin, tmpstr, settings⟩ =
      .again ⟨after, tmpstr', settings⟩ := by
  obtain ⟨tmpstr', hskip⟩ := skipLine_piece (hpiece.rest h) hend
    (putString tmpstr word) settings
  refine ⟨tmpstr', ?_⟩
  simp only [settingsTurn, readWord_field h hpiece hend, cString_field h hpiece, hport, hlocal,
    Bool.false_eq_true, if_false, hskip]

theorem settingsTurn_port {fields digits : List UInt8} {n : UInt16} (h : Field bytes word fields)
    (hkeyword : IsKeyword "port" word) (hfield : Field fields digits rest)
    (hdigits : Digits digits n.toNat) (hpiece : Piece bytes) (hend : LineEnd fin after)
    (tmpstr : Cells UInt8) (settings : Settings) :
    ∃ tmpstr', settingsTurn ⟨bytes ++ fin, tmpstr, settings⟩ =
      .again ⟨after, tmpstr', { settings with port := n }⟩ := by
  have hlt := n.toNat_lt
  have hvalue : UInt16.ofInt (n.toNat : ℤ) = n := by
    rw [UInt16.ofInt, ← UInt16.toNat_inj, UInt16.toNat_ofNat']
    omega
  have hscan := scanInt_field hfield hdigits (by omega) hend
  obtain ⟨tmpstr', hskip⟩ := skipLine_piece ((hpiece.rest h).rest hfield) hend
    (putString tmpstr word) { settings with port := n }
  refine ⟨tmpstr', ?_⟩
  have hport : strcaseEq word (chars "port") = true := hkeyword
  simp only [settingsTurn, readWord_field h hpiece hend, cString_field h hpiece, hport, if_true,
    hscan, hvalue, hskip]

theorem settingsTurn_local {fields a b c d : List UInt8} {w x y z : UInt8}
    (h : Field bytes word fields) (hkeyword : IsKeyword "local" word)
    (hfield : Field fields (dotted a b c d) rest) (ha : Numeral a w.toNat)
    (hb : Numeral b x.toNat) (hc : Numeral c y.toNat) (hd : Numeral d z.toNat)
    (hpiece : Piece bytes) (hend : LineEnd fin after) (tmpstr : Cells UInt8)
    (settings : Settings) :
    ∃ tmpstr', settingsTurn ⟨bytes ++ fin, tmpstr, settings⟩ =
      .again ⟨after, tmpstr', { settings with laddr := #v[w, x, y, z] }⟩ := by
  obtain ⟨tmpstr', hskip⟩ := skipLine_piece ((hpiece.rest h).rest hfield) hend
    (putString (putString tmpstr word) (dotted a b c d))
    { settings with laddr := #v[w, x, y, z] }
  refine ⟨tmpstr', ?_⟩
  have hlocal : strcaseEq word (chars "local") = true := hkeyword
  have hport : strcaseEq word (chars "port") = false :=
    (hkeyword.strcaseEq "port").trans (by decide)
  simp only [settingsTurn, readWord_field h hpiece hend, cString_field h hpiece, hport, hlocal,
    Bool.false_eq_true, if_false, if_true, readWord_field hfield (hpiece.rest h) hend,
    cString_field hfield (hpiece.rest h), inetAddr_dotted ha hb hc hd, hskip]

theorem settingsTurn_line : StepsByLine settingsTurn nextSettings := by
  intro bytes fin after d h hend settings final hrest tmpstr
  have hskip {word rest : List UInt8} (hword : Field bytes word rest)
      (hport : strcaseEq word (chars "port") = false)
      (hlocal : strcaseEq word (chars "local") = false) (hd : nextSettings settings d = settings) :
      Reads settingsTurn ⟨bytes ++ fin, tmpstr, settings⟩ final := by
    obtain ⟨tmpstr', hturn⟩ := settingsTurn_skip hword h.toPiece hend hport hlocal tmpstr settings
    exact reads_again hturn (hd ▸ hrest tmpstr')
  cases h.spells with
  | blank hblank =>
    obtain ⟨r, hrun, hsettings⟩ := hrest tmpstr
    refine ⟨r, hrun.of_turn_eq ?_, hsettings⟩
    simp only [settingsTurn, readWord_blank_line hblank hend, nextSettings]
  | port hword hkeyword hfield hdigits =>
    obtain ⟨tmpstr', hturn⟩ := settingsTurn_port hword hkeyword hfield hdigits h.toPiece hend tmpstr
      settings
    exact reads_again hturn (hrest tmpstr')
  | localAddr hword hkeyword hfield ha hb hc hd =>
    obtain ⟨tmpstr', hturn⟩ := settingsTurn_local hword hkeyword hfield ha hb hc hd h.toPiece hend
      tmpstr settings
    exact reads_again hturn (hrest tmpstr')
  | user hword hkeyword =>
    exact hskip hword ((hkeyword.strcaseEq "port").trans (by decide))
      ((hkeyword.strcaseEq "local").trans (by decide)) rfl
  | other hword hkeyword =>
    exact hskip hword (Bool.eq_false_iff.2 hkeyword.1) (Bool.eq_false_iff.2 hkeyword.2.1) rfl

def passwordDigest (password : List UInt8) : Digest :=
  (md5Fast (fun _ => 0) (putString (fun _ => 0) password) (UInt32.ofNat password.length)).getD
    (Vector.replicate 16 0)

def userNode (memory : Memory) (uid : UInt8) (password : List UInt8) : SvpnClientNode :=
  { memory.heap uid with table := keyTable (passwordDigest password) uid }

def addUser (memory : Memory) (psc : SvpnServer) : Directive → SvpnServer
  | .user id password =>
    if (psc.client id).isSome then psc else psc.setClient id (userNode memory id password)
  | _ => psc

theorem md5Fast_password {password : List UInt8} (hshort : password.length < tmpLen)
    (stack : Cells UInt8) {input : Cells UInt8} (hinput : load input password.length = password) :
    md5Fast stack input (UInt32.ofNat password.length) = some (passwordDigest password) := by
  have hlen : (UInt32.ofNat password.length).toNat = password.length := by
    rw [UInt32.toNat_ofNat']
    rw [tmpLen] at hshort
    omega
  have hcells : ∀ k < (UInt32.ofNat password.length).toNat,
      input k = putString (fun _ => 0) password k := by
    intro k hk
    rw [hlen] at hk
    have hcell : (load input password.length)[k]? = password[k]? := by rw [hinput]
    rw [List.getElem?_eq_getElem (by rwa [length_load]), List.getElem?_eq_getElem hk, getElem_load,
      Option.some.injEq] at hcell
    rw [hcell, putString, store_zero_lt _ _ _ (by rw [List.length_append]; omega),
      List.getElem_append_left hk]
  rw [tmpLen] at hshort
  obtain ⟨digest, hdigest, hdigest'⟩ := md5Fast_congr stack (fun _ => 0) (by omega) hcells
  rw [passwordDigest, hdigest', Option.getD_some, hdigest]

/-- The bytes of a stored string up to its end. -/
theorem load_putString_asString (m : Cells UInt8) (bytes : List UInt8) :
    load (putString m bytes) (asString bytes).length = asString bytes := by
  have hstart : asString bytes <+: bytes := List.takeWhile_prefix _
  have hle := length_asString bytes
  apply List.ext_getElem (length_load _ _)
  intro k hk hk'
  rw [getElem_load, putString, store_zero_lt _ _ _ (by rw [List.length_append]; omega),
    List.getElem_append_left (by omega)]
  exact (hstart.getElem hk').symm

theorem newClient_word (memory : Memory) (uid : UInt8) (tmpstr : Cells UInt8)
    (hfit : word.length + 1 ≤ tmpLen) :
    newClient memory uid (putString tmpstr word) = some (userNode memory uid (asString word)) := by
  have hshort : (asString word).length < tmpLen := Nat.lt_of_le_of_lt (length_asString word) hfit
  rw [newClient]
  simp only [cString_putString_asString tmpstr hfit,
    md5Fast_password hshort _ (load_putString_asString tmpstr word), Option.bind_some,
    buildTable_keyTable, Option.map_some, userNode]

theorem newClient_field (memory : Memory) (uid : UInt8) (h : Field bytes word rest)
    (hpiece : Piece bytes) (tmpstr : Cells UInt8) :
    newClient memory uid (putString tmpstr word) = some (userNode memory uid word) := by
  have hfit : word.length + 1 ≤ tmpLen := Nat.le_succ_of_le (h.length_lt hpiece)
  have hstring : asString word = word := by
    rw [← cString_putString_asString tmpstr hfit, cString_field h hpiece]
  rw [newClient_word memory uid tmpstr hfit, hstring]

theorem usersTurn_skip (memory : Memory) (h : Field bytes word rest) (hpiece : Piece bytes)
    (hend : LineEnd fin after) (huser : strcaseEq word (chars "user") = false)
    (tmpstr : Cells UInt8) (psc : SvpnServer) :
    ∃ tmpstr', usersTurn memory ⟨bytes ++ fin, tmpstr, psc⟩ = .again ⟨after, tmpstr', psc⟩ := by
  obtain ⟨tmpstr', hskip⟩ := skipLine_piece (hpiece.rest h) hend
    (putString tmpstr word) psc
  refine ⟨tmpstr', ?_⟩
  simp only [usersTurn, readWord_field h hpiece hend, cString_field h hpiece, huser, if_true, hskip]

theorem usersTurn_user (memory : Memory) {fields digits tail password : List UInt8} {id : UInt8}
    (h : Field bytes word fields) (hkeyword : IsKeyword "user" word)
    (hfield : Field fields digits rest) (hdigits : Digits digits id.toNat)
    (hpassword : Field rest password tail) (hpiece : Piece bytes) (hend : LineEnd fin after)
    (tmpstr : Cells UInt8) (psc : SvpnServer) :
    ∃ tmpstr', usersTurn memory ⟨bytes ++ fin, tmpstr, psc⟩ =
      .again ⟨after, tmpstr', addUser memory psc (.user id password)⟩ := by
  have huser : strcaseEq word (chars "user") = true := hkeyword
  have hlt := id.toNat_lt
  have hid : toInt (id.toNat : ℤ) = id.toNat := by
    rw [toInt, Int.bmod_def]
    omega
  have hrange : (0 : ℤ) ≤ id.toNat ∧ (id.toNat : ℤ) < 256 := by omega
  have hvalue : UInt8.ofInt (id.toNat : ℤ) = id := by
    rw [UInt8.ofInt, ← UInt8.toNat_inj, UInt8.toNat_ofNat']
    omega
  have hfields := hpiece.rest h
  have hrest := hfields.rest hfield
  have hscan := scanInt_field hfield hdigits (by omega) hend
  cases hclient : psc.client id with
  | some node =>
    obtain ⟨tmpstr', hskip⟩ := skipLine_piece hrest hend (putString tmpstr word) psc
    refine ⟨tmpstr', ?_⟩
    simp only [usersTurn, readWord_field h hpiece hend, cString_field h hpiece, huser,
      Bool.true_eq_false, if_false, hscan, hid, hrange, and_self, if_true, hvalue, hclient,
      Option.isSome_some, addUser, hskip]
  | none =>
    obtain ⟨tmpstr', hskip⟩ := skipLine_piece (hrest.rest hpassword) hend
      (putString (putString tmpstr word) password) (psc.setClient id (userNode memory id password))
    refine ⟨tmpstr', ?_⟩
    simp only [usersTurn, readWord_field h hpiece hend, cString_field h hpiece, huser,
      Bool.true_eq_false, if_false, hscan, hid, hrange, and_self, if_true, hvalue, hclient,
      Option.isSome_none, Bool.false_eq_true, addUser, readWord_field hpassword hrest hend, newClient_field memory id hpassword hrest, hskip]

theorem usersTurn_line (memory : Memory) : StepsByLine (usersTurn memory) (addUser memory) := by
  intro bytes fin after d h hend psc final hrest tmpstr
  have hskip {word rest : List UInt8} (hword : Field bytes word rest)
      (huser : strcaseEq word (chars "user") = false) (hd : addUser memory psc d = psc) :
      Reads (usersTurn memory) ⟨bytes ++ fin, tmpstr, psc⟩ final := by
    obtain ⟨tmpstr', hturn⟩ := usersTurn_skip memory hword h.toPiece hend huser tmpstr psc
    exact reads_again hturn (hd ▸ hrest tmpstr')
  cases h.spells with
  | blank hblank =>
    obtain ⟨r, hrun, hpsc⟩ := hrest tmpstr
    refine ⟨r, hrun.of_turn_eq ?_, hpsc⟩
    change usersTurn memory ⟨bytes ++ fin, tmpstr, psc⟩ = usersTurn memory ⟨after, tmpstr, psc⟩
    simp only [usersTurn, readWord_blank_line hblank hend]
  | port hword hkeyword =>
    exact hskip hword ((hkeyword.strcaseEq "user").trans (by decide)) rfl
  | localAddr hword hkeyword =>
    exact hskip hword ((hkeyword.strcaseEq "user").trans (by decide)) rfl
  | user hword hkeyword hfield hdigits hpassword =>
    obtain ⟨tmpstr', hturn⟩ := usersTurn_user memory hword hkeyword hfield hdigits hpassword h.toPiece
      hend tmpstr psc
    exact reads_again hturn (hrest tmpstr')
  | other hword hkeyword =>
    exact hskip hword (Bool.eq_false_iff.2 hkeyword.2.2) rfl

variable {text : Stream} {ds : List Directive}

theorem svpnServerInitRead_config (h : Config text ds) (stack : Cells UInt8) :
    svpnServerInitRead stack text =
      some (ds.foldl nextSettings ⟨0, Vector.replicate 4 0⟩) := by
  obtain ⟨lines, rfl, hlines⟩ := h
  obtain ⟨r, hrun, hsettings⟩ := settingsTurn_line.reads (fun _ _ => rfl) hlines stack
    ⟨0, Vector.replicate 4 0⟩
  rw [svpnServerInitRead_of_runs hrun, hsettings]

theorem svpnServerInitClient_config (h : Config text ds) (memory : Memory) (stack : Cells UInt8)
    (psc : SvpnServer) :
    svpnServerInitClient memory stack psc text =
      some (ds.foldl (addUser memory) (clearClients psc)) := by
  obtain ⟨lines, rfl, hlines⟩ := h
  obtain ⟨r, hrun, hpsc⟩ := (usersTurn_line memory).reads (fun _ _ => rfl) hlines stack
    (clearClients psc)
  rw [svpnServerInitClient_of_runs hrun, hpsc]

end SVpn.ConfigGrammar
