import SVpn.LogText
import SVpn.Registration
import SVpn.UserTurns

set_option autoImplicit false

/-!
What the server prints from the reading of its users on. The users it announces are the users of its
table, and no later message contradicts an announcement.
-/
namespace SVpn.UserNotices
open SVpn.Region SVpn.OutputInfo SVpn.Stdio SVpn.InetAddr SVpn.BoundedLoop SVpn.ServerLoop SVpn.ServerSteps
open SVpn.ServerRuns SVpn.ConfigReader SVpn.ConfigAgreement SVpn.UserTurns SVpn.AddressText
open SVpn.Trace SVpn.RoutingTable SVpn.Relay SVpn.Messages SVpn.Registration

inductive UserNotice where
  | duplicated
  | added (uid : UInt8)

/-- The message of a turn, if it gives one. -/
def usersNotice (memory : Memory) (r : Reader SvpnServer) : Option UserNotice :=
  match readWord r.fin r.tmpstr with
  | some (true, fin, tmpstr) =>
    if strcaseEq (cString tmpLen tmpstr) (chars "user") = false then none
    else
      let scanned := scanInt fin
      match scanned.value with
      | none => none
      | some n =>
        let id := toInt n
        if 0 ≤ id ∧ id < 256 then
          let uid := UInt8.ofInt id
          if (r.found.client uid).isSome then some .duplicated
          else
            match readWord scanned.rest tmpstr with
            | some (true, _, tmpstr) => (newClient memory uid tmpstr).map fun _ => .added uid
            | _ => none
        else none
  | _ => none

/-- The messages of the reading loop, to its end or to where it breaks off. -/
def noticesLoop (memory : Memory) : ℕ → Reader SvpnServer → List UserNotice
  | 0, _ => []
  | fuel + 1, r =>
    (usersNotice memory r).toList ++
      match usersTurn memory r with
      | .again r' => noticesLoop memory fuel r'
      | _ => []

/-- What `svpn_server_init_client` says while it reads a file. -/
def initClientNotices (memory : Memory) (stack : Cells UInt8) (psc : SvpnServer) (fin : Stream) :
    List UserNotice :=
  noticesLoop memory (fin.length + 1) ⟨fin, stack, clearClients psc⟩

def userNoticeText : UserNotice → List UInt8
  | .duplicated => SetUp.mprintf .error (chars "User ID duplicated")
  | .added uid => SetUp.mprintf .info (chars "User #" ++ octet uid ++ chars " added")

/-- What a turn says of what it does to the users. -/
inductive TurnSays (found : SvpnServer) : Option UserNotice → Turn (Reader SvpnServer) → Prop where
  | fault : TurnSays found none .fault
  | done {r : Reader SvpnServer} (hfound : r.found = found) : TurnSays found none (.done r)
  | quiet {r : Reader SvpnServer} (hfound : r.found = found) : TurnSays found none (.again r)
  | duplicated {r : Reader SvpnServer} (hfound : r.found = found) :
      TurnSays found (some .duplicated) (.again r)
  | added {r : Reader SvpnServer} {uid : UInt8} {node : SvpnClientNode}
      (hfree : found.client uid = none) (hfound : r.found = found.setClient uid node) :
      TurnSays found (some (.added uid)) (.again r)

theorem says_usersTurn (memory : Memory) (r : Reader SvpnServer) :
    TurnSays r.found (usersNotice memory r) (usersTurn memory r) := by
  unfold usersNotice usersTurn
  rcases readWord r.fin r.tmpstr with - | ⟨- | -, fin, tmpstr⟩
  · exact .fault
  · exact .done rfl
  · cases huser : strcaseEq (cString tmpLen tmpstr) (chars "user") with
    | false =>
      simp only [huser, if_true]
      exact .quiet rfl
    | true =>
      simp only [huser, Bool.true_eq_false, if_false]
      cases (scanInt fin).value with
      | none => exact .quiet rfl
      | some n =>
        by_cases hrange : 0 ≤ toInt n ∧ toInt n < 256
        · simp only [hrange, and_self, if_true]
          cases hclient : r.found.client (UInt8.ofInt (toInt n)) with
          | some node => exact .duplicated rfl
          | none =>
            simp only [Option.isSome_none, Bool.false_eq_true, if_false]
            rcases readWord (scanInt fin).rest tmpstr with - | ⟨- | -, fin', tmpstr'⟩
            · exact .fault
            · exact .quiet rfl
            · simp only
              cases newClient memory (UInt8.ofInt (toInt n)) tmpstr' with
              | none => exact .fault
              | some node => exact .added hclient rfl
        · simp only [hrange, if_false]
          exact .fault

def addedOf : UserNotice → Option UInt8
  | .duplicated => none
  | .added uid => some uid

/-- The users that are announced, in order. -/
def announced (notices : List UserNotice) : List UInt8 := notices.filterMap addedOf

@[simp] theorem announced_nil : announced [] = [] := rfl

@[simp] theorem announced_duplicated (notices : List UserNotice) :
    announced (.duplicated :: notices) = announced notices := rfl

@[simp] theorem announced_added (uid : UInt8) (notices : List UserNotice) :
    announced (.added uid :: notices) = uid :: announced notices := rfl

/-- The users announced are free before, and are not announced twice. -/
theorem added_fresh (memory : Memory) (fuel : ℕ) (r : Reader SvpnServer) :
    (announced (noticesLoop memory fuel r)).Nodup ∧
      ∀ uid ∈ announced (noticesLoop memory fuel r), r.found.client uid = none := by
  induction fuel generalizing r with
  | zero => simp [noticesLoop]
  | succ fuel ih =>
    have hsays := says_usersTurn memory r
    rw [noticesLoop]
    generalize usersNotice memory r = notice at hsays
    generalize usersTurn memory r = turn at hsays
    cases hsays with
    | fault => simp
    | done => simp
    | @quiet r' hfound => simpa [hfound] using ih r'
    | @duplicated r' hfound => simpa [hfound] using ih r'
    | @added r' uid node hfree hfound =>
      obtain ⟨hnodup, hlater⟩ := ih r'
      have hother : ∀ v ∈ announced (noticesLoop memory fuel r'),
          v ≠ uid ∧ r.found.client v = none := by
        intro v hv
        have hnone := hlater v hv
        rw [hfound, client_setClient] at hnone
        by_cases hsame : v = uid
        · simp [hsame] at hnone
        · exact ⟨hsame, by simpa [hsame] using hnone⟩
      simp only [Option.toList_some, List.singleton_append, announced_added]
      refine ⟨List.nodup_cons.2 ⟨fun hmem => (hother uid hmem).1 rfl, hnodup⟩, fun v hv => ?_⟩
      rcases List.mem_cons.1 hv with rfl | hv
      · exact hfree
      · exact (hother v hv).2

/-- The users at the end are those there were and those announced. -/
theorem isSome_of_loop {memory : Memory} {fuel : ℕ} {r r' : Reader SvpnServer}
    (h : loop (usersTurn memory) fuel r = some r') (uid : UInt8) :
    (r'.found.client uid).isSome = true ↔ (r.found.client uid).isSome = true ∨
      uid ∈ announced (noticesLoop memory fuel r) := by
  induction fuel generalizing r with
  | zero => cases h
  | succ fuel ih =>
    have hsays := says_usersTurn memory r
    rw [loop] at h
    rw [noticesLoop]
    generalize usersNotice memory r = notice at hsays
    generalize usersTurn memory r = turn at hsays h
    cases hsays with
    | fault => cases h
    | done hfound =>
      cases h
      simp [hfound]
    | quiet hfound => simpa [hfound] using ih h
    | duplicated hfound => simpa [hfound] using ih h
    | @added r₁ v node hfree hfound =>
      rw [ih h, hfound, client_setClient]
      by_cases hsame : uid = v
      · simp [hsame]
      · simp [hsame]

def userNoticeLine : UserNotice → List UInt8
  | .duplicated => chars "[Error] User ID duplicated" ++ []
  | .added uid => chars "[Info] User #" ++ (octet uid ++ chars " added")

theorem userNoticeText_eq (n : UserNotice) : userNoticeText n = userNoticeLine n ++ [newline] := by
  cases n with
  | duplicated =>
    rw [userNoticeText, ← List.append_nil (chars "User ID duplicated")]
    exact LogText.mprintf_eq (by decide) _
  | added uid =>
    rw [userNoticeText, List.append_assoc]
    exact LogText.mprintf_eq (by decide) _

theorem newline_notMem_userNoticeLine (n : UserNotice) : newline ∉ userNoticeLine n := by
  cases n with
  | duplicated => exact List.not_mem_append (by decide) List.not_mem_nil
  | added uid =>
    exact List.not_mem_append (by decide)
      (List.not_mem_append (LogText.newline_notMem_octet uid) (by decide))

/-- The user that a line announces. -/
def readUser (line : List UInt8) : Option UInt8 :=
  (LogText.after (chars "[Info] User #") line).map LogText.readNumber

def readUsers (text : List UInt8) : List UInt8 := (text.splitOn newline).filterMap readUser

theorem readUser_userNoticeLine (n : UserNotice) : readUser (userNoticeLine n) = addedOf n := by
  cases n with
  | duplicated =>
    rw [readUser, userNoticeLine, LogText.after_other (by decide)]
    rfl
  | added uid =>
    have hnumber := (LogText.readNumber_octet uid
      (@LogText.isDigit_of_blank (chars " added") rfl)).1
    rw [readUser, userNoticeLine, LogText.after_mark, Option.map_some, hnumber]
    rfl

theorem readEntry_userNoticeLine (n : UserNotice) : LogText.readEntry (userNoticeLine n) = none := by
  cases n with
  | duplicated => exact LogText.readEntry_other (by decide) _
  | added uid => exact LogText.readEntry_other (by decide) _

theorem readUser_noticeLine (n : Notice) : readUser (LogText.noticeLine n) = none := by
  cases n <;> rw [readUser, LogText.noticeLine, LogText.after_other (by decide)] <;> rfl

variable {pointer : Bool → List UInt8}

theorem readUser_linesOf (e : Effect) : (LogText.linesOf pointer e).filterMap readUser = [] := by
  cases e with
  | notice n => simp [LogText.linesOf, readUser_noticeLine]
  | printed p =>
    cases p with
    | recFile frec =>
      have hempty : readUser [] = none := rfl
      have hfile : readUser (chars "Rec File " ++ (pointer frec ++ chars " ")) = none := by
        rw [readUser, LogText.after_other (by decide)]
        rfl
      simp [LogText.linesOf, hfile, hempty]
    | _ => rfl
  | _ => rfl

/-- The standard output from the reading of the users to the end of the loop. -/
def outputText (pointer : Bool → List UInt8) (notices : List UserNotice) (es : List Effect) :
    List UInt8 :=
  notices.flatMap userNoticeText ++ LogText.stdoutText pointer es

theorem outputText_eq (notices : List UserNotice) (es : List Effect) :
    outputText pointer notices es =
      (notices.map userNoticeLine ++ es.flatMap (LogText.linesOf pointer)).flatMap
        (· ++ [newline]) := by
  rw [outputText, LogText.stdoutText_eq, List.flatMap_append, List.flatMap_map]
  exact congrArg (· ++ _) (congrArg (notices.flatMap ·) (funext userNoticeText_eq))

theorem newline_notMem_output (hpointer : ∀ frec, newline ∉ pointer frec) (notices : List UserNotice)
    (es : List Effect) : ∀ line ∈ notices.map userNoticeLine ++ es.flatMap (LogText.linesOf pointer),
      newline ∉ line := by
  intro line hline
  rcases List.mem_append.1 hline with hline | hline
  · obtain ⟨n, -, rfl⟩ := List.mem_map.1 hline
    exact newline_notMem_userNoticeLine n
  · exact LogText.newline_notMem_lines hpointer es line hline

theorem splitOn_outputText (hpointer : ∀ frec, newline ∉ pointer frec) (notices : List UserNotice)
    (es : List Effect) :
    (outputText pointer notices es).splitOn newline =
      notices.map userNoticeLine ++ es.flatMap (LogText.linesOf pointer) ++ [[]] := by
  rw [outputText_eq]
  exact LogText.splitOn_lines (newline_notMem_output hpointer notices es)

theorem readUsers_outputText (hpointer : ∀ frec, newline ∉ pointer frec) (notices : List UserNotice)
    (es : List Effect) : readUsers (outputText pointer notices es) = announced notices := by
  have hempty : [[]].filterMap readUser = [] := rfl
  have hrun : (es.flatMap (LogText.linesOf pointer)).filterMap readUser = [] := by
    rw [List.filterMap_flatMap]
    exact List.flatMap_eq_nil_iff.2 fun e _ => readUser_linesOf e
  rw [readUsers, splitOn_outputText hpointer, List.filterMap_append, List.filterMap_append, hempty,
    hrun, List.append_nil, List.append_nil, List.filterMap_map]
  exact congrArg (notices.filterMap ·) (funext readUser_userNoticeLine)

theorem readLog_outputText (hpointer : ∀ frec, newline ∉ pointer frec) (notices : List UserNotice)
    (es : List Effect) :
    LogText.readLog (outputText pointer notices es) =
      (es.filterMap LogText.noticeOf).map LogText.entryOf := by
  have hempty : [[]].filterMap LogText.readEntry = [] := rfl
  have hstart : (notices.map userNoticeLine).filterMap LogText.readEntry = [] := by
    rw [List.filterMap_map]
    exact List.filterMap_eq_nil_iff.2 fun n _ => readEntry_userNoticeLine n
  rw [LogText.readLog, splitOn_outputText hpointer, List.filterMap_append, List.filterMap_append,
    hempty, hstart, List.append_nil, List.nil_append, LogText.read_lines]

/-- A message about a user fits the table. -/
def Fits (psc : SvpnServer) : Notice → Prop
  | .unknownUser uid => psc.client uid = none
  | .invalidPassword _ => True
  | .clientMoved uid _ => psc.client uid ≠ none
  | .userNotExist uid => psc.client uid = none
  | .clientDisconnected uid => psc.client uid ≠ none

theorem fits_of_tells {psc : SvpnServer} {es : List Effect} (h : Tells psc es) :
    ∀ n, .notice n ∈ es → Fits psc n := by
  intro n hn
  cases h with
  | unknownUser hhead hclient =>
    obtain rfl : n = .unknownUser _ := by simpa using hn
    exact hclient
  | invalidPassword =>
    obtain rfl : n = .invalidPassword _ := by simpa using hn
    trivial
  | accepted hhead hclient =>
    split at hn
    · obtain rfl : n = .clientMoved _ _ := by simpa using hn
      simp [Fits, hclient]
    · simp at hn
  | userNotExist hclient =>
    obtain rfl : n = .userNotExist _ := by simpa using hn
    exact hclient
  | sendto hclient =>
    split at hn
    · obtain rfl : n = .clientDisconnected _ := by simpa using hn
      simp [Fits, hclient]
    · simp at hn
  | _ => simp at hn

theorem Fits.congr {psc psc' : SvpnServer} (h : ∀ uid, psc.client uid = none ↔ psc'.client uid = none)
    {n : Notice} (hn : Fits psc n) : Fits psc' n := by
  cases n with
  | unknownUser uid => exact (h uid).1 hn
  | invalidPassword sender => trivial
  | clientMoved uid addr => exact mt (h uid).2 hn
  | userNotExist uid => exact (h uid).1 hn
  | clientDisconnected uid => exact mt (h uid).2 hn

theorem fits_of_phases {report : Reporter} {s₀ : LoopState} {h : List Effect} {r : Option LoopState}
    (run : Reaches (Phase report) s₀ h r) : ∀ n, .notice n ∈ h → Fits s₀.psc n := by
  induction run with
  | start => exact fun n hn => absurd hn List.not_mem_nil
  | @step h es s r before hphase ih =>
    intro n hn
    rcases List.mem_append.1 hn with hn | hn
    · exact ih n hn
    · have htold : .notice n ∈ told es := List.mem_filter.2 ⟨hn, rfl⟩
      refine (fits_of_tells (tells_phase hphase) n htold).congr fun uid => ?_
      rw [(routed_of_phases before).clients uid, Option.map_eq_none_iff]

/-- A message fits the announcements read before it. -/
def Agrees (users : List UInt8) : LogText.Entry → Prop
  | .unknownUser uid => uid ∉ users
  | .invalidPassword _ => True
  | .clientMoved uid _ => uid ∈ users
  | .userNotExist uid => uid ∉ users
  | .clientDisconnected uid => uid ∈ users

theorem agrees_of_fits {psc : SvpnServer} {users : List UInt8}
    (husers : ∀ uid, uid ∈ users ↔ (psc.client uid).isSome = true) {n : Notice} (h : Fits psc n) :
    Agrees users (LogText.entryOf n) := by
  have hnone : ∀ uid, uid ∉ users ↔ psc.client uid = none := by
    intro uid
    rw [husers, Option.not_isSome_iff_eq_none]
  cases n with
  | unknownUser uid => exact (hnone uid).2 h
  | invalidPassword sender => trivial
  | clientMoved uid addr => exact not_not.1 (mt (hnone uid).1 h)
  | userNotExist uid => exact (hnone uid).2 h
  | clientDisconnected uid => exact not_not.1 (mt (hnone uid).1 h)

/-- Each user of the table is announced once, and no other. -/
theorem announced_table {memory : Memory} {stack : Cells UInt8} {host psc : SvpnServer} {fin : Stream}
    (hread : svpnServerInitClient memory stack host fin = some psc) :
    (announced (initClientNotices memory stack host fin)).Nodup ∧
      ∀ uid, uid ∈ announced (initClientNotices memory stack host fin) ↔
        (psc.client uid).isSome = true := by
  obtain ⟨r, hend, rfl⟩ := Option.map_eq_some_iff.1 hread
  refine ⟨(added_fresh memory _ _).1, fun uid => ?_⟩
  have hsome := isSome_of_loop hend uid
  rw [client_clearClients] at hsome
  simpa [initClientNotices] using hsome.symm

theorem agrees_of_run {psc : SvpnServer} {users : List UInt8}
    (husers : ∀ uid, uid ∈ users ↔ (psc.client uid).isSome = true) (buffer tmpBuffer : Cells UInt8)
    (clock : ℤ) (inputs : List Select) :
    ∀ e ∈ ((svpnServerHandleThread outputInfo inputs (loopStart psc buffer tmpBuffer clock)).1.filterMap
      LogText.noticeOf).map LogText.entryOf, Agrees users e := by
  intro e he
  obtain ⟨n, hn, rfl⟩ := List.mem_map.1 he
  obtain ⟨x, hx, hnotice⟩ := List.mem_filterMap.1 hn
  cases x with
  | notice n' =>
    obtain rfl := Option.some.inj hnotice
    exact agrees_of_fits husers (fits_of_phases (phases_of_handleThread outputInfo inputs _) _ hx)
  | _ => cases hnotice

/-- The output of the server from the reading of its users on, for every file: each user
is announced once, the users announced are those of the table the loop starts with, and
every message of the loop about a user agrees with the announcements. -/
theorem output_consistent {memory : Memory} {stack : Cells UInt8} {host psc : SvpnServer}
    {fin : Stream} {buffer tmpBuffer : Cells UInt8} {clock : ℤ} {inputs : List Select}
    {h : List Effect} (hpointer : ∀ frec, newline ∉ pointer frec)
    (hmain : serverMain memory stack host fin buffer tmpBuffer clock inputs = some (psc, h)) :
    (readUsers (outputText pointer (initClientNotices memory stack host fin) h)).Nodup ∧
    (∀ uid, uid ∈ readUsers (outputText pointer (initClientNotices memory stack host fin) h) ↔
      (psc.client uid).isSome = true) ∧
    ∀ e ∈ LogText.readLog (outputText pointer (initClientNotices memory stack host fin) h),
      Agrees (readUsers (outputText pointer (initClientNotices memory stack host fin) h)) e := by
  obtain ⟨psc', hread, hloop⟩ := Option.map_eq_some_iff.1 hmain
  obtain ⟨rfl, rfl⟩ := Prod.mk.inj hloop
  obtain ⟨honce, husers⟩ := announced_table hread
  rw [readUsers_outputText hpointer, readLog_outputText hpointer]
  exact ⟨honce, husers, agrees_of_run husers buffer tmpBuffer clock inputs⟩

theorem output_consistent_sample :
    6 ∈ readUsers (outputText (fun _ => chars "0")
      (initClientNotices sampleMemory (fun _ => 0) sampleHost sampleText)
      (svpnServerHandleThread outputInfo [sampleFirst]
        (loopStart sampleClients (fun _ => 0) (fun _ => 0) 0)).1) := by
  have hzero : newline ∉ chars "0" := by decide
  have hpointer : ∀ frec, newline ∉ (fun _ : Bool => chars "0") frec := fun _ => hzero
  refine ((output_consistent hpointer (serverMain_sample [sampleFirst])).2.1 6).2 ?_
  rw [client_sampleClients]
  rfl

end SVpn.UserNotices
