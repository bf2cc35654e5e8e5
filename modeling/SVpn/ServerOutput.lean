import SVpn.Programs

set_option autoImplicit false

/-!
All that the server prints, from its first line on: the lines of the set-up, those about
the users it reads and those of the loop. No line of the set-up passes for another.
-/
namespace SVpn.ServerOutput
open SVpn.Region SVpn.OutputInfo SVpn.Stdio SVpn.InetAddr SVpn.ServerLoop SVpn.ConfigReader SVpn.SetUp
open SVpn.Programs SVpn.AddressText SVpn.ConfigGrammar SVpn.ConfigAgreement SVpn.UserNotices SVpn.LogText

def sysText : SysCall → List UInt8
  | .printf text => text
  | _ => []

/-- What the calls of the set-up write to the standard output. -/
def setUpText (calls : List SysCall) : List UInt8 := calls.flatMap sysText

def callText : Call → List UInt8
  | .sys c => sysText c
  | .nice _ _ => []

/-- The standard output of `main`; `es` is the history of its loop. -/
def serverText (pointer : Bool → List UInt8) (calls : List Call) (es : List Effect) : List UInt8 :=
  calls.flatMap callText ++ stdoutText pointer es

/-- A line that is about no user. -/
structure Aside (line : List UInt8) : Prop where
  whole : newline ∉ line
  user : readUser line = none
  entry : readEntry line = none

/-- Lines that are about no user, with their ends. -/
def Asides (text : List UInt8) : Prop :=
  ∃ lines : List (List UInt8), text = lines.flatMap (· ++ [newline]) ∧ ∀ line ∈ lines, Aside line

theorem asides_nil : Asides [] := ⟨[], rfl, fun _ h => absurd h List.not_mem_nil⟩

theorem asides_line {line : List UInt8} (h : Aside line) : Asides (line ++ [newline]) :=
  ⟨[line], by simp, by simpa using h⟩

theorem Asides.append {text later : List UInt8} (h : Asides text) (hlater : Asides later) :
    Asides (text ++ later) := by
  obtain ⟨lines, rfl, hlines⟩ := h
  obtain ⟨lines', rfl, hlines'⟩ := hlater
  exact ⟨lines ++ lines', List.flatMap_append.symm, List.forall_mem_append.2 ⟨hlines, hlines'⟩⟩

theorem setUpText_append (calls later : List SysCall) :
    setUpText (calls ++ later) = setUpText calls ++ setUpText later := List.flatMap_append

/-- A line that begins otherwise than those about users. -/
theorem aside_marked {mark rest : List UInt8} (hmark : newline ∉ mark) (hrest : newline ∉ rest)
    (huser : (((chars "[Info] User #").zip mark).any fun x => x.1 ≠ x.2) = true)
    (hentry : ∀ m ∈ entryMarks, ((m.zip mark).any fun x => x.1 ≠ x.2) = true) :
    Aside (mark ++ rest) where
  whole := List.not_mem_append hmark hrest
  user := by
    rw [readUser, after_other huser]
    rfl
  entry := readEntry_other hentry rest

/-- A name without blanks is not the first word of a longer mark. -/
theorem after_word (word more : List UInt8) {name rest : List UInt8} (hword : (32 : UInt8) ∉ word)
    (hname : (32 : UInt8) ∉ name) {c d : UInt8} (hne : c ≠ d) :
    after (chars "[Info] " ++ (word ++ 32 :: c :: more)) (chars "[Info] " ++ (name ++ 32 :: d :: rest)) =
      none := by
  have hprefix : ¬ (word ++ 32 :: c :: more) <+: (name ++ 32 :: d :: rest) := by
    rintro ⟨tail, heq⟩
    rw [List.append_assoc, List.cons_append, List.cons_append] at heq
    have htake : ∀ {w : List UInt8}, (32 : UInt8) ∉ w → ∀ more : List UInt8,
        (w ++ 32 :: more).takeWhile (· ≠ 32) = w := by
      intro w hw more
      have hpos : ∀ b ∈ w, decide (b ≠ 32) = true := by
        rintro b hb
        exact decide_eq_true fun hblank => hw (hblank ▸ hb)
      rw [List.takeWhile_append_of_pos hpos]
      simp
    have hsame := congrArg (List.takeWhile (· ≠ 32)) heq
    rw [htake hword, htake hname] at hsame
    subst hsame
    rw [List.append_cancel_left_eq, List.cons.injEq, List.cons.injEq] at heq
    exact hne heq.2.1
  rw [after, if_neg]
  rw [List.isPrefixOf_iff_prefix, List.prefix_append_right_inj]
  exact hprefix

/-- What is said of the interface, by its name. -/
theorem aside_named {name rest : List UInt8} (hname : ∀ c ∈ name, isSpace c = false) {d : UInt8}
    (hd : d ≠ 35) (hline : newline ∉ d :: rest) : Aside (chars "[Info] " ++ (name ++ 32 :: d :: rest)) := by
  have hblank : (32 : UInt8) ∉ name := fun h => absurd (hname 32 h) (by decide)
  have hend : newline ∉ name := fun h => absurd (hname newline h) (by decide)
  have huser : after (chars "[Info] User #") (chars "[Info] " ++ (name ++ 32 :: d :: rest)) = none :=
    after_word (chars "User") [] (by decide) hblank hd.symm
  have hclient : after (chars "[Info] Client #") (chars "[Info] " ++ (name ++ 32 :: d :: rest)) = none :=
    after_word (chars "Client") [] (by decide) hblank hd.symm
  refine ⟨?_, ?_, ?_⟩
  · refine List.not_mem_append (by decide) (List.not_mem_append hend ?_)
    exact fun h => (List.mem_cons.1 h).elim (by decide) hline
  · rw [readUser, huser]
    rfl
  · rw [readEntry, after_other (by decide), after_other (by decide), hclient, after_other (by decide),
      after_other (by decide)]
    rfl

theorem newline_notMem_inetNtoa (a : Vector UInt8 4) : newline ∉ inetNtoa a := by
  obtain ⟨w, x, y, z, rfl⟩ := exists_octets a
  have hoctet := newline_notMem_octet
  have hdot : newline ≠ dot := by decide
  rw [inetNtoa_eq]
  simp [dotted, hoctet, hdot]

theorem newline_notMem_repr (n : ℕ) : newline ∉ chars n.repr := by
  intro h
  rw [chars, Nat.repr_eq_ofList_toDigits, String.toList_ofList, List.mem_map] at h
  obtain ⟨c, hc, heq⟩ := h
  have hdigit := Nat.isDigit_of_mem_toDigits (by decide) (by decide) hc
  have hcode : 48 ≤ c.toNat ∧ c.toNat ≤ 57 := by
    simpa [Char.isDigit, UInt32.le_iff_toNat_le] using hdigit
  have hvalue := congrArg UInt8.toNat heq
  rw [UInt8.toNat_ofNat'] at hvalue
  change c.toNat % 256 = 10 at hvalue
  omega

theorem newline_notMem_signedDecimal (n : ℤ) : newline ∉ signedDecimal n := by
  rw [signedDecimal, Int.toString_eq_repr, Int.repr_eq_if]
  split
  · exact newline_notMem_repr _
  · have hminus : ∀ s : String, chars ("-" ++ s) = chars "-" ++ chars s := by
      intro s
      simp [chars]
    rw [hminus]
    exact List.not_mem_append (by decide) (newline_notMem_repr _)

theorem setUpText_silent {calls : List SysCall} (h : ∀ c ∈ calls, sysText c = []) :
    setUpText calls = [] := List.flatMap_eq_nil_iff.2 h

theorem setUpText_ifFailed {ret : ℤ} {text : List UInt8} :
    setUpText (ifFailed ret (.eprintf text)) = [] := by
  apply setUpText_silent
  unfold ifFailed
  split <;> simp [sysText]

theorem asides_sockBuffers (r : SockResults) : Asides (setUpText (sockBuffers r)) := by
  generalize hn : (if r.getRcvbuf = -1 then 1024 * 8 else r.rcvbuf) = n
  have hline : Aside (chars "[Info] Sendbuffer = " ++
      (signedDecimal (1024 * 8) ++ (chars ", Recvbuffer = " ++ signedDecimal n))) := by
    refine aside_marked (by decide) ?_ (by decide) (by decide)
    exact List.not_mem_append (newline_notMem_signedDecimal _)
      (List.not_mem_append (by decide) (newline_notMem_signedDecimal _))
  have htext : setUpText (sockBuffers r) = chars "[Info] Sendbuffer = " ++
      (signedDecimal (1024 * 8) ++ (chars ", Recvbuffer = " ++ signedDecimal n)) ++ [newline] := by
    simp only [sockBuffers, setUpText_append, setUpText_ifFailed, hn]
    simp [setUpText, sysText]
  rw [htext]
  exact asides_line hline

theorem asides_svpnSockCreate (port : UInt16) (r : SockResults) :
    Asides (setUpText (svpnSockCreate port r).1) := by
  have hlast : ∀ last : List SysCall, setUpText last = [] →
      Asides (setUpText (.socket r.socket :: sockBuffers r ++ last)) := by
    intro last h
    rw [setUpText_append, h, List.append_nil]
    exact asides_sockBuffers r
  unfold svpnSockCreate
  simp only
  split_ifs
  · exact hlast _ rfl
  · exact hlast _ rfl
  · exact hlast _ rfl

theorem asides_runCommands {commands : List (List UInt8 × ℤ × List UInt8)}
    (h : ∀ c ∈ commands, Asides c.2.2) : Asides (setUpText (runCommands commands).1) := by
  induction commands with
  | nil => exact asides_nil
  | cons command rest ih =>
    obtain ⟨hfirst, hrest⟩ := List.forall_mem_cons.1 h
    unfold runCommands
    split
    · exact asides_nil
    · exact hfirst.append (ih hrest)

theorem asides_ifconfigs {name : List UInt8} (hname : ∀ c ∈ name, isSpace c = false)
    (laddr : Vector UInt8 4) (r : TunResults) :
    ∀ c ∈ ifconfigs name laddr r, Asides c.2.2 := by
  have hsetup : chars " setup.\n" = 32 :: 115 :: chars "etup." ++ [newline] := by decide
  have hmtu : chars " mtu = 1400\n" = 32 :: 109 :: chars "tu = 1400" ++ [newline] := by decide
  rw [ifconfigs, hsetup, hmtu, ← List.append_assoc, ← List.append_assoc]
  refine List.forall_mem_cons.2 ⟨?_, List.forall_mem_cons.2 ⟨?_, List.forall_mem_singleton.2 ?_⟩⟩
  · rw [List.append_assoc (chars "[Info] ")]
    exact asides_line (aside_named hname (by decide) (by decide))
  · rw [List.append_assoc (chars "[Info] ")]
    exact asides_line (aside_named hname (by decide) (by decide))
  · exact asides_line (aside_marked (by decide) (newline_notMem_inetNtoa laddr) (by decide) (by decide))

theorem asides_svpnTunCreate {r : TunResults} (hname : ∀ c ∈ r.ifrName, isSpace c = false)
    (laddr : Vector UInt8 4) : Asides (setUpText (svpnTunCreate laddr r).1) := by
  have hqlen : setUpText (svpnSetTuntxqlen r.ifrName 1000 r) = [] := by
    unfold svpnSetTuntxqlen
    split
    · split <;> rfl
    · rfl
  unfold svpnTunCreate
  simp only
  split_ifs
  · exact asides_nil
  · exact asides_nil
  all_goals
    rw [setUpText_append, setUpText_append, hqlen, List.append_nil]
    exact asides_runCommands (asides_ifconfigs hname laddr r)

theorem asides_mprintf {text : List UInt8} {level : Level} (h : Aside (level.mark ++ text)) :
    Asides (setUpText [.printf (mprintf level text)]) := by
  have htext : setUpText [.printf (mprintf level text)] = level.mark ++ text ++ [newline] :=
    List.append_nil _
  rw [htext]
  exact asides_line h

theorem aside_setting (level : Level) (text : List UInt8) {rest : List UInt8} (hrest : newline ∉ rest)
    (htext : newline ∉ level.mark ++ text)
    (huser : (((chars "[Info] User #").zip (level.mark ++ text)).any fun x => x.1 ≠ x.2) = true)
    (hentry : ∀ m ∈ entryMarks, ((m.zip (level.mark ++ text)).any fun x => x.1 ≠ x.2) = true) :
    Aside (level.mark ++ (text ++ rest)) := by
  rw [← List.append_assoc]
  exact aside_marked htext hrest huser hentry

theorem asides_svpnServerStart {tun : TunResults} (hname : ∀ c ∈ tun.ifrName, isSpace c = false)
    (settings : Settings) (sock : SockResults) :
    Asides (setUpText (svpnServerStart settings sock tun).1) := by
  have hassigned := asides_mprintf (aside_setting .info (chars "Assigned local address ")
    (newline_notMem_inetNtoa settings.laddr) (by decide) (by decide) (by decide))
  have hbound := asides_mprintf (aside_setting .info (chars "Bind Server Port ")
    (newline_notMem_signedDecimal settings.port.toNat) (by decide) (by decide) (by decide))
  have hcreated := hassigned.append (asides_svpnSockCreate settings.port sock)
  have htunnel := hbound.append (asides_svpnTunCreate hname settings.laddr)
  have hlast : ∀ last : SysCall, sysText last = [] → setUpText [last] = [] := by
    intro last h
    exact setUpText_silent (by simpa using h)
  unfold svpnServerStart
  simp only
  split_ifs
  · rw [setUpText_append]
    exact hcreated
  · rw [setUpText_append, hlast _ rfl, List.append_nil, setUpText_append, setUpText_append, setUpText_append]
    exact hcreated.append htunnel
  · rw [setUpText_append, hlast _ rfl, List.append_nil, setUpText_append, setUpText_append, setUpText_append]
    exact hcreated.append htunnel

theorem asides_missingSetting (settings : Settings) :
    Asides (setUpText [.printf (missingSetting settings)]) := by
  unfold missingSetting
  split
  · exact asides_mprintf (aside_setting .fatal (chars "No port specified") List.not_mem_nil (by decide)
      (by decide) (by decide))
  · exact asides_mprintf (aside_setting .fatal (chars "No local address specified") List.not_mem_nil
      (by decide) (by decide) (by decide))

theorem asides_svpnServerInit {file : Option (ℤ × Stream)} {stack : Cells UInt8} {sock : SockResults}
    {tun : TunResults} {calls : List SysCall} {result : Option ServerHandle}
    (hname : ∀ c ∈ tun.ifrName, isSpace c = false)
    (h : svpnServerInit file stack sock tun = some (calls, result)) : Asides (setUpText calls) := by
  unfold svpnServerInit at h
  cases file with
  | none =>
    cases h
    exact asides_nil
  | some file =>
    obtain ⟨read, -, heq⟩ := Option.map_eq_some_iff.1 h
    cases hcheck : checkSettings read with
    | none =>
      simp only [hcheck] at heq
      cases heq
      exact asides_missingSetting read
    | some settings =>
      simp only [hcheck] at heq
      cases heq
      exact asides_svpnServerStart hname settings sock

theorem mapText_sys (calls : List SysCall) : (calls.map Call.sys).flatMap callText = setUpText calls :=
  List.flatMap_map Call.sys callText calls

/-- Up to its loop the server prints lines about no user and then its announcements. -/
theorem serverBoot_text {argv : List (List UInt8)} {file : Option (ℤ × Stream)} {stack : Cells UInt8}
    {sock : SockResults} {tun : TunResults} {users : UserList} {niceRet : ℤ} {calls : List Call}
    {psc : SvpnServer} (hname : ∀ c ∈ tun.ifrName, isSpace c = false)
    (hboot : Server.boot argv file stack sock tun users niceRet = some (calls, .loop psc)) :
    ∃ text host fd fin, Asides text ∧ users.file = some (fd, fin) ∧
      svpnServerInitClient users.memory users.stack host fin = some psc ∧
      calls.flatMap callText = text ++
        (initClientNotices users.memory users.stack host fin).flatMap userNoticeText := by
  unfold Server.boot at hboot
  split_ifs at hboot
  · cases hboot
  obtain ⟨⟨initCalls, result⟩, hinit, hrest⟩ := Option.bind_eq_some_iff.1 hboot
  cases result with
  | none => cases hrest
  | some handle =>
    obtain ⟨⟨readCalls, left⟩, hread, heq⟩ := Option.map_eq_some_iff.1 hrest
    unfold svpnServerInitClientFile at hread
    cases hfile : users.file with
    | none =>
      rw [hfile] at hread
      cases hread
      cases heq
    | some file =>
      obtain ⟨fd, fin⟩ := file
      rw [hfile] at hread
      obtain ⟨psc', hclients, hcalls⟩ := Option.map_eq_some_iff.1 hread
      cases hcalls
      cases heq
      refine ⟨_, handle.server, fd, fin, asides_svpnServerInit hname hinit, rfl, hclients, ?_⟩
      have hnice : [Call.nice (-19) niceRet].flatMap callText = [] := rfl
      have hopen : setUpText [.fopen (some fd)] = [] := rfl
      have hclose : setUpText [.fclose fd] = [] := rfl
      have hshown : ∀ texts : List (List UInt8), setUpText (texts.map .printf) = texts.flatten := by
        intro texts
        rw [setUpText, List.flatMap_map]
        exact List.flatMap_id'
      rw [List.flatMap_append, List.flatMap_append, mapText_sys, mapText_sys, hnice, List.append_nil,
        setUpText_append, setUpText_append, hopen, hclose, hshown, List.nil_append, List.append_nil]
      rfl

/-- The whole output of a server whose loop is reached: the users announced are those of the
table, each once, and every message of the loop agrees with the announcements. The kernel
gives no interface a name with a blank in it. -/
theorem server_output_consistent {pointer : Bool → List UInt8} (hpointer : ∀ frec, newline ∉ pointer frec)
    {argv : List (List UInt8)} {file : Option (ℤ × Stream)} {stack : Cells UInt8} {sock : SockResults}
    {tun : TunResults} {users : UserList} {niceRet : ℤ} {calls : List Call} {psc : SvpnServer}
    (hname : ∀ c ∈ tun.ifrName, isSpace c = false)
    (hboot : Server.boot argv file stack sock tun users niceRet = some (calls, .loop psc))
    (buffer tmpBuffer : Cells UInt8) (clock : ℤ) (inputs : List Select) :
    let out := serverText pointer calls
      (svpnServerHandleThread outputInfo inputs (loopStart psc buffer tmpBuffer clock)).1
    (readUsers out).Nodup ∧ (∀ uid, uid ∈ readUsers out ↔ (psc.client uid).isSome = true) ∧
      ∀ e ∈ readLog out, Agrees (readUsers out) e := by
  obtain ⟨text, host, fd, fin, ⟨lines, rfl, hlines⟩, -, hread, hcalls⟩ := serverBoot_text hname hboot
  obtain ⟨honce, husers⟩ := announced_table hread
  generalize hes : (svpnServerHandleThread outputInfo inputs (loopStart psc buffer tmpBuffer clock)).1 = es
  have hagrees := agrees_of_run husers buffer tmpBuffer clock inputs
  rw [hes] at hagrees
  generalize initClientNotices users.memory users.stack host fin = notices at honce husers hcalls hagrees
  have hsplit : (serverText pointer calls es).splitOn newline =
      lines ++ (outputText pointer notices es).splitOn newline := by
    rw [serverText, hcalls, List.append_assoc]
    change (_ ++ outputText pointer notices es).splitOn newline = _
    rw [splitOn_outputText hpointer, outputText_eq, ← List.flatMap_append, splitOn_lines,
      List.append_assoc]
    exact List.forall_mem_append.2
      ⟨fun line hline => (hlines line hline).whole, newline_notMem_output hpointer notices es⟩
  have hskip : ∀ {α : Type} (read : List UInt8 → Option α), (∀ line ∈ lines, read line = none) →
      ((serverText pointer calls es).splitOn newline).filterMap read =
        ((outputText pointer notices es).splitOn newline).filterMap read := by
    intro α read hnone
    rw [hsplit, List.filterMap_append, List.filterMap_eq_nil_iff.2 hnone, List.nil_append]
  have hreadUsers : readUsers (serverText pointer calls es) = announced notices :=
    (hskip readUser fun line hline => (hlines line hline).user).trans
      (readUsers_outputText hpointer notices es)
  have hreadLog : readLog (serverText pointer calls es) = (es.filterMap noticeOf).map entryOf :=
    (hskip readEntry fun line hline => (hlines line hline).entry).trans
      (readLog_outputText hpointer notices es)
  intro out
  rw [show out = serverText pointer calls es from rfl, hreadUsers, hreadLog]
  exact ⟨honce, husers, hagrees⟩

end SVpn.ServerOutput
