import SVpn.Inet6Text
import SVpn.Messages

set_option autoImplicit false

/-!
The log as text. Every line that `mprintf` prints can be told from the others and read
back; only an address whose text does not fit into `tmpstr` is lost.
-/
namespace SVpn.LogText
open SVpn.OutputInfo SVpn.Stdio SVpn.InetAddr SVpn.ServerLoop SVpn.AddressText SVpn.Inet6Text
open SVpn.Messages SVpn.Relay SVpn.RoutingTable SVpn.SetUp SVpn.SourceCheck

/-- `sizeof(tmpstr)`. -/
def tmpstrLen : ℕ := 32

/-- What `%s` shows of the result of `inet_ntop`. -/
def addrText (addr : SockaddrIn6) : List UInt8 :=
  (inetNtop tmpstrLen addr.sin6Addr).getD (chars "(null)")

def noticeText : Notice → List UInt8
  | .unknownUser uid => mprintf .warn (chars "Unknown user #" ++ octet uid)
  | .invalidPassword sender => mprintf .warn (chars "Invalid password : " ++ addrText sender)
  | .clientMoved uid addr =>
    mprintf .info (chars "Client #" ++ octet uid ++ chars " move to " ++ addrText addr)
  | .userNotExist uid => mprintf .warn (chars "User #" ++ octet uid ++ chars " not exist")
  | .clientDisconnected uid => mprintf .error (chars "Client #" ++ octet uid ++ chars " disconnected")

/-- What a call writes to the standard output; `pointer` is what `%08x` makes of `frec`. -/
def printedText (pointer : Bool → List UInt8) : Effect → List UInt8
  | .notice n => noticeText n
  | .printed (.recFile frec) => chars "Rec File " ++ pointer frec ++ chars " \n\n"
  | _ => []

def stdoutText (pointer : Bool → List UInt8) (es : List Effect) : List UInt8 :=
  es.flatMap (printedText pointer)

/-- A message as far as its line tells it. -/
inductive Entry where
  | unknownUser (uid : UInt8)
  | invalidPassword (addr : Option (Vector UInt8 16))
  | clientMoved (uid : UInt8) (addr : Option (Vector UInt8 16))
  | userNotExist (uid : UInt8)
  | clientDisconnected (uid : UInt8)

def after (mark line : List UInt8) : Option (List UInt8) :=
  if mark.isPrefixOf line then some (line.drop mark.length) else none

def readNumber (text : List UInt8) : UInt8 := UInt8.ofNat (digitsValue (text.takeWhile isDigit))

def readAddr (text : List UInt8) : Option (Vector UInt8 16) :=
  if text = chars "(null)" then none else some (readAddress text)

def readMove (rest : List UInt8) : Entry :=
  .clientMoved (readNumber rest) (readAddr ((rest.dropWhile isDigit).drop (chars " move to ").length))

def readEntry (line : List UInt8) : Option Entry :=
  ((after (chars "[Warn] Unknown user #") line).map fun rest => .unknownUser (readNumber rest)) <|>
  ((after (chars "[Warn] Invalid password : ") line).map fun rest => .invalidPassword (readAddr rest)) <|>
  ((after (chars "[Info] Client #") line).map readMove) <|>
  ((after (chars "[Warn] User #") line).map fun rest => .userNotExist (readNumber rest)) <|>
  ((after (chars "[Error] Client #") line).map fun rest => .clientDisconnected (readNumber rest))

def readLog (text : List UInt8) : List Entry := (text.splitOn newline).filterMap readEntry

/-- The part of an address that the log shows. -/
def shownAddr (addr : SockaddrIn6) : Option (Vector UInt8 16) :=
  if (ntopText addr.sin6Addr).length < tmpstrLen then some addr.sin6Addr else none

def entryOf : Notice → Entry
  | .unknownUser uid => .unknownUser uid
  | .invalidPassword sender => .invalidPassword (shownAddr sender)
  | .clientMoved uid addr => .clientMoved uid (shownAddr addr)
  | .userNotExist uid => .userNotExist uid
  | .clientDisconnected uid => .clientDisconnected uid

def noticeOf : Effect → Option Notice
  | .notice n => some n
  | _ => none

theorem after_mark (mark rest : List UInt8) : after mark (mark ++ rest) = some rest := by
  simp [after]

/-- A line that begins with another mark. -/
theorem after_other {mark mark' : List UInt8}
    (h : ((mark.zip mark').any fun x => x.1 ≠ x.2) = true) (rest : List UInt8) :
    after mark (mark' ++ rest) = none := by
  have hprefix : mark.isPrefixOf (mark' ++ rest) = false := by
    induction mark generalizing mark' with
    | nil => simp at h
    | cons c mark ih =>
      cases mark' with
      | nil => simp at h
      | cons c' mark' =>
        rw [List.zip_cons_cons, List.any_cons, Bool.or_eq_true] at h
        rw [List.cons_append, List.isPrefixOf_cons_cons, Bool.and_eq_false_iff]
        exact h.imp (fun hne => by simpa using hne) ih
  simp [after, hprefix]

theorem readNumber_octet (uid : UInt8) {rest : List UInt8}
    (hrest : ∀ c ∈ rest.head?, isDigit c = false) :
    readNumber (octet uid ++ rest) = uid ∧ (octet uid ++ rest).dropWhile isDigit = rest := by
  have hnumeral := numeral_octet uid
  have htake : (octet uid ++ rest).takeWhile isDigit = octet uid := by
    rw [List.takeWhile_append_of_pos hnumeral.isDigit]
    cases rest with
    | nil => simp
    | cons c rest => simp [hrest c rfl]
  have hdrop : (octet uid ++ rest).dropWhile isDigit = rest := by
    rw [List.dropWhile_append_of_pos hnumeral.isDigit]
    cases rest with
    | nil => rfl
    | cons c rest => simp [hrest c rfl]
  refine ⟨?_, hdrop⟩
  rw [readNumber, htake, hnumeral.value, UInt8.ofNat_toNat]

theorem addrText_of_short {addr : SockaddrIn6} (h : (ntopText addr.sin6Addr).length < tmpstrLen) :
    addrText addr = ntopText addr.sin6Addr := by
  rw [addrText, inetNtop, if_pos (Nat.succ_le_of_lt h), Option.getD_some]

theorem addrText_of_long {addr : SockaddrIn6} (h : ¬ (ntopText addr.sin6Addr).length < tmpstrLen) :
    addrText addr = chars "(null)" := by
  rw [addrText, inetNtop, if_neg (mt Nat.lt_of_succ_le h), Option.getD_none]

theorem readAddr_addrText (addr : SockaddrIn6) : readAddr (addrText addr) = shownAddr addr := by
  by_cases hshort : (ntopText addr.sin6Addr).length < tmpstrLen
  · have hnull : ntopText addr.sin6Addr ≠ chars "(null)" := by
      intro heq
      have hbracket : (40 : UInt8) ∈ ntopText addr.sin6Addr := by
        rw [heq]
        decide
      exact absurd (le_ntopText hbracket) (by decide)
    rw [addrText_of_short hshort, readAddr, if_neg hnull, readAddress_ntopText, shownAddr,
      if_pos hshort]
  · rw [addrText_of_long hshort, readAddr, if_pos rfl, shownAddr, if_neg hshort]

theorem newline_notMem_octet (uid : UInt8) : newline ∉ octet uid := by
  intro h
  exact absurd ((numeral_octet uid).isDigit _ h) (by decide)

theorem newline_notMem_addrText (addr : SockaddrIn6) : newline ∉ addrText addr := by
  by_cases hshort : (ntopText addr.sin6Addr).length < tmpstrLen
  · rw [addrText_of_short hshort]
    exact fun h => absurd (le_ntopText h) (by decide)
  · rw [addrText_of_long hshort]
    decide

/-- The lines of a message, without their ends. -/
def noticeLine : Notice → List UInt8
  | .unknownUser uid => chars "[Warn] Unknown user #" ++ octet uid
  | .invalidPassword sender => chars "[Warn] Invalid password : " ++ addrText sender
  | .clientMoved uid addr =>
    chars "[Info] Client #" ++ (octet uid ++ (chars " move to " ++ addrText addr))
  | .userNotExist uid => chars "[Warn] User #" ++ (octet uid ++ chars " not exist")
  | .clientDisconnected uid => chars "[Error] Client #" ++ (octet uid ++ chars " disconnected")

theorem mprintf_eq {level : Level} {mark text : List UInt8} (h : mark = level.mark ++ text)
    (rest : List UInt8) : mprintf level (text ++ rest) = mark ++ rest ++ [newline] := by
  rw [mprintf, h, ← List.append_assoc level.mark]

theorem noticeText_eq (n : Notice) : noticeText n = noticeLine n ++ [newline] := by
  cases n with
  | unknownUser uid => exact mprintf_eq (by decide) _
  | invalidPassword sender => exact mprintf_eq (by decide) _
  | clientMoved uid addr =>
    rw [noticeText, List.append_assoc, List.append_assoc]
    exact mprintf_eq (by decide) _
  | userNotExist uid =>
    rw [noticeText, List.append_assoc]
    exact mprintf_eq (by decide) _
  | clientDisconnected uid =>
    rw [noticeText, List.append_assoc]
    exact mprintf_eq (by decide) _

theorem newline_notMem_noticeLine (n : Notice) : newline ∉ noticeLine n := by
  have hoctet := newline_notMem_octet
  have haddr := newline_notMem_addrText
  cases n with
  | unknownUser uid => exact List.not_mem_append (by decide) (hoctet uid)
  | invalidPassword sender => exact List.not_mem_append (by decide) (haddr sender)
  | clientMoved uid addr =>
    exact List.not_mem_append (by decide)
      (List.not_mem_append (hoctet uid) (List.not_mem_append (by decide) (haddr addr)))
  | userNotExist uid =>
    exact List.not_mem_append (by decide) (List.not_mem_append (hoctet uid) (by decide))
  | clientDisconnected uid =>
    exact List.not_mem_append (by decide) (List.not_mem_append (hoctet uid) (by decide))

theorem isDigit_of_blank {rest : List UInt8} (h : rest.head? = some 32) :
    ∀ c ∈ rest.head?, isDigit c = false := by
  intro c hc
  obtain rfl : 32 = c := Option.some.inj (h.symm.trans hc)
  rfl

theorem readMove_spec (uid : UInt8) (addr : SockaddrIn6) :
    readMove (octet uid ++ (chars " move to " ++ addrText addr)) = .clientMoved uid (shownAddr addr) := by
  obtain ⟨hnumber, hdrop⟩ := readNumber_octet uid
    (@isDigit_of_blank (chars " move to " ++ addrText addr) rfl)
  rw [readMove, hnumber, hdrop, List.drop_left, readAddr_addrText]

/-- Each message is read as what it tells. -/
theorem readEntry_noticeLine (n : Notice) : readEntry (noticeLine n) = some (entryOf n) := by
  cases n with
  | unknownUser uid =>
    have hnumber := (@readNumber_octet uid [] nofun).1
    rw [List.append_nil] at hnumber
    rw [readEntry, noticeLine, after_mark, Option.map_some, hnumber]
    rfl
  | invalidPassword sender =>
    rw [readEntry, noticeLine, after_other (by decide), after_mark, Option.map_some, readAddr_addrText]
    rfl
  | clientMoved uid addr =>
    rw [readEntry, noticeLine, after_other (by decide), after_other (by decide), after_mark,
      Option.map_some, readMove_spec]
    rfl
  | userNotExist uid =>
    have hnumber := (readNumber_octet uid (@isDigit_of_blank (chars " not exist") rfl)).1
    rw [readEntry, noticeLine, after_other (by decide), after_other (by decide),
      after_other (by decide), after_mark, Option.map_some, hnumber]
    rfl
  | clientDisconnected uid =>
    have hnumber := (readNumber_octet uid (@isDigit_of_blank (chars " disconnected") rfl)).1
    rw [readEntry, noticeLine, after_other (by decide), after_other (by decide),
      after_other (by decide), after_other (by decide), after_mark, Option.map_some, hnumber]
    rfl

def entryMarks : List (List UInt8) :=
  [chars "[Warn] Unknown user #", chars "[Warn] Invalid password : ", chars "[Info] Client #",
    chars "[Warn] User #", chars "[Error] Client #"]

/-- A line that begins like no message. -/
theorem readEntry_other {mark' : List UInt8}
    (h : ∀ mark ∈ entryMarks, ((mark.zip mark').any fun x => x.1 ≠ x.2) = true) (rest : List UInt8) :
    readEntry (mark' ++ rest) = none := by
  have hafter : ∀ mark ∈ entryMarks, after mark (mark' ++ rest) = none :=
    fun mark hmark => after_other (h mark hmark) rest
  simp only [entryMarks, List.forall_mem_cons] at hafter
  obtain ⟨hunknown, hinvalid, hmoved, hnone, hlost, -⟩ := hafter
  rw [readEntry, hunknown, hinvalid, hmoved, hnone, hlost]
  rfl

theorem readEntry_recFile (text : List UInt8) : readEntry (chars "Rec File " ++ text) = none :=
  readEntry_other (by decide) text

variable {pointer : Bool → List UInt8}

def linesOf (pointer : Bool → List UInt8) : Effect → List (List UInt8)
  | .notice n => [noticeLine n]
  | .printed (.recFile frec) => [chars "Rec File " ++ (pointer frec ++ chars " "), []]
  | _ => []

theorem printedText_eq (e : Effect) :
    printedText pointer e = (linesOf pointer e).flatMap (· ++ [newline]) := by
  have hends : chars " \n\n" = chars " " ++ [newline, newline] := by decide
  cases e with
  | notice n => simp [printedText, linesOf, noticeText_eq]
  | printed p =>
    cases p with
    | recFile frec => simp [printedText, linesOf, hends]
    | _ => rfl
  | _ => rfl

theorem newline_notMem_linesOf (hpointer : ∀ frec, newline ∉ pointer frec) (e : Effect) :
    ∀ line ∈ linesOf pointer e, newline ∉ line := by
  intro line hline
  cases e with
  | notice n =>
    rw [List.mem_singleton.1 hline]
    exact newline_notMem_noticeLine n
  | printed p =>
    cases p with
    | recFile frec =>
      rcases List.mem_cons.1 hline with rfl | hline
      · exact List.not_mem_append (by decide) (List.not_mem_append (hpointer frec) (by decide))
      · rw [List.mem_singleton.1 hline]
        exact List.not_mem_nil
    | _ => cases hline
  | _ => cases hline

theorem flatMap_lines (lines : List (List UInt8)) :
    lines.flatMap (· ++ [newline]) = [newline].intercalate (lines ++ [[]]) := by
  induction lines with
  | nil => rfl
  | cons line lines ih =>
    rw [List.flatMap_cons, ih, List.cons_append, List.intercalate_cons_of_ne_nil (by simp)]

theorem splitOn_lines {lines : List (List UInt8)} (h : ∀ line ∈ lines, newline ∉ line) :
    (lines.flatMap (· ++ [newline])).splitOn newline = lines ++ [[]] := by
  rw [flatMap_lines]
  refine List.splitOn_intercalate newline (fun line hline => ?_) (by simp)
  rcases List.mem_append.1 hline with hline | hline
  · exact h line hline
  · rw [List.mem_singleton.1 hline]
    exact List.not_mem_nil

theorem read_linesOf (e : Effect) :
    (linesOf pointer e).filterMap readEntry = (noticeOf e).toList.map entryOf := by
  cases e with
  | notice n => simp [linesOf, noticeOf, readEntry_noticeLine]
  | printed p =>
    cases p with
    | recFile frec =>
      have hempty : readEntry [] = none := rfl
      simp [linesOf, noticeOf, readEntry_recFile, hempty]
    | _ => rfl
  | _ => rfl

theorem stdoutText_eq (es : List Effect) :
    stdoutText pointer es = (es.flatMap (linesOf pointer)).flatMap (· ++ [newline]) := by
  rw [stdoutText, List.flatMap_assoc]
  exact congrArg (es.flatMap ·) (funext printedText_eq)

theorem newline_notMem_lines (hpointer : ∀ frec, newline ∉ pointer frec) (es : List Effect) :
    ∀ line ∈ es.flatMap (linesOf pointer), newline ∉ line := by
  intro line hline
  obtain ⟨e, -, hline⟩ := List.mem_flatMap.1 hline
  exact newline_notMem_linesOf hpointer e line hline

theorem read_lines (es : List Effect) :
    (es.flatMap (linesOf pointer)).filterMap readEntry = (es.filterMap noticeOf).map entryOf := by
  rw [List.filterMap_flatMap, List.filterMap_eq_flatMap_toList, List.map_flatMap]
  exact congrArg (es.flatMap ·) (funext read_linesOf)

/-- The output of a run tells its messages, in order and no others. -/
theorem readLog_stdoutText (hpointer : ∀ frec, newline ∉ pointer frec) (es : List Effect) :
    readLog (stdoutText pointer es) = (es.filterMap noticeOf).map entryOf := by
  have hempty : [[]].filterMap readEntry = [] := rfl
  rw [readLog, stdoutText_eq, splitOn_lines (newline_notMem_lines hpointer es),
    List.filterMap_append, hempty, List.append_nil, read_lines]

/-- The addresses given for a user in the messages about moves. -/
def movedTo (uid : UInt8) : Entry → Option (Option (Vector UInt8 16))
  | .clientMoved v addr => if v = uid then some addr else none
  | _ => none

theorem movedTo_notices (uid : UInt8) (es : List Effect) :
    ((es.filterMap noticeOf).map entryOf).filterMap (movedTo uid) = (moved uid es).map shownAddr := by
  rw [List.filterMap_map, List.filterMap_filterMap, moved, List.map_filterMap]
  congr 1
  funext e
  cases e with
  | notice n =>
    cases n with
    | clientMoved v addr => by_cases hv : v = uid <;> simp [noticeOf, moveOf, entryOf, movedTo, hv]
    | _ => rfl
  | _ => rfl

/-- What an address shows. -/
theorem shownAddr_mapped {addr : SockaddrIn6} {v : Vector UInt8 4} (h : addr.sin6Addr = mapped v) :
    shownAddr addr = some addr.sin6Addr := by
  have hlength := length_ntopText_mapped v
  rw [shownAddr, h, if_pos (hlength.trans_lt (by decide))]

theorem shownAddr_plain {addr : SockaddrIn6} (h : bestRun (words addr.sin6Addr) = none) :
    shownAddr addr = none ↔
      25 ≤ ((words addr.sin6Addr).map fun word => (hex word).length).sum := by
  rw [shownAddr, length_ntopText_plain h, tmpstrLen]
  split_ifs with hshort
  · simp
    omega
  · simp
    omega

/-- From the standard output of a run, whatever is sent: every message can be read back
but for the addresses that are too long for `tmpstr`. For each user the moves read are
the changes of the sender, and the last of them is the address in the table. IPv4
addresses are never lost, and of those without two zero words in a row the ones with
at least 25 digits. -/
theorem log_reads_back (report : Reporter) (inputs : List Select) (s₀ : LoopState)
    (hpointer : ∀ frec, newline ∉ pointer frec) :
    readLog (stdoutText pointer (svpnServerHandleThread report inputs s₀).1) =
      ((svpnServerHandleThread report inputs s₀).1.filterMap noticeOf).map entryOf ∧
    (∀ uid, (readLog (stdoutText pointer (svpnServerHandleThread report inputs s₀).1)).filterMap
        (movedTo uid) =
      (expectedMoves s₀.psc uid (svpnServerHandleThread report inputs s₀).1).map shownAddr) ∧
    (∀ s, (svpnServerHandleThread report inputs s₀).2 = some s → ∀ uid,
      (s.psc.client uid).map (fun node => shownAddr node.addr) =
        (s₀.psc.client uid).map fun node =>
          ((readLog (stdoutText pointer (svpnServerHandleThread report inputs s₀).1)).filterMap
            (movedTo uid)).getLast?.getD (shownAddr node.addr)) ∧
    ∀ addr : SockaddrIn6, (∀ v, addr.sin6Addr = mapped v → shownAddr addr = some addr.sin6Addr) ∧
      (bestRun (words addr.sin6Addr) = none → (shownAddr addr = none ↔
        25 ≤ ((words addr.sin6Addr).map fun word => (hex word).length).sum)) := by
  have run := phases_of_handleThread report inputs s₀
  have hlog := readLog_stdoutText hpointer (svpnServerHandleThread report inputs s₀).1
  rw [hlog]
  refine ⟨rfl, fun uid => ?_, fun s hs uid => ?_, fun addr => ⟨fun _ => shownAddr_mapped,
    shownAddr_plain⟩⟩
  · rw [movedTo_notices, moves_of_phases run uid]
  · rw [hs] at run
    have hshown := congrArg (Option.map shownAddr) (addr_of_moves run uid)
    rw [Option.map_map, Option.map_map] at hshown
    rw [movedTo_notices]
    refine hshown.trans (congrArg (Option.map · _) (funext fun node => ?_))
    rw [Function.comp_apply, List.getLast?_map, Option.getD_map]

theorem log_reads_back_sample :
    ((readLog (stdoutText (fun _ => chars "0")
      (svpnServerHandleThread outputInfo [sampleFirst] sampleStart).1)).filterMap
        (movedTo 6)).getLast?.getD (shownAddr (sampleAddr 0)) = shownAddr (sampleAddr 1) := by
  have hzero : newline ∉ chars "0" := by decide
  have hpointer : ∀ frec, newline ∉ (fun _ : Bool => chars "0") frec := fun _ => hzero
  have hnow := (log_reads_back outputInfo [sampleFirst] sampleStart hpointer).2.2.1 sampleAccepted
    state_sampleRun 6
  have hstart : sampleStart.psc.client 6 = some ⟨sampleAddr 0, sampleKey.table⟩ := client_sampleServer
  rw [client_sampleAccepted, hstart, Option.map_some, Option.map_some, Option.some_inj] at hnow
  exact hnow.symm

example : noticeText (.clientMoved 6 ⟨10, 4000, 0, mapped #v[10, 0, 0, 2], 0⟩) =
    chars "[Info] Client #6 move to ::ffff:10.0.0.2\n" := by decide +kernel

/-- Eight words of four digits are 39 characters. -/
example : noticeText (.clientMoved 6 ⟨10, 4000, 0,
    #v[32, 1, 13, 184, 171, 205, 18, 52, 86, 120, 154, 188, 222, 240, 18, 52], 0⟩) =
    chars "[Info] Client #6 move to (null)\n" := by decide +kernel

end SVpn.LogText
