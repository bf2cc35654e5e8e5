import SVpn.UserTurns

set_option autoImplicit false

/-!
The user list line by line: which lines are read as if each were a file of its own.
-/
namespace SVpn.UserLines
open SVpn.Region SVpn.Crypt SVpn.OutputInfo SVpn.ServerLoop SVpn.ServerSteps SVpn.BoundedLoop
open SVpn.Stdio SVpn.ConfigReader SVpn.ConfigGrammar SVpn.ConfigAgreement SVpn.UserTurns

/-- The reading loop on a file that is added to the users there are. -/
def addFile (memory : Memory) (stack : Cells UInt8) (psc : SvpnServer) (fin : Stream) :
    Option SvpnServer :=
  (loop (usersTurn memory) (fin.length + 1) ⟨fin, stack, psc⟩).map (·.found)

def textOf (lines : List (List UInt8)) : Stream := [newline].intercalate lines

theorem textOf_cons (bytes : List UInt8) (lines : List (List UInt8)) :
    ∃ fin, textOf (bytes :: lines) = bytes ++ fin ∧ LineEnd fin (textOf lines) :=
  lineEnd_intercalate bytes lines

/-- A line shorter than the buffer, whose id, if it gives one, is in range. -/
structure UserLine (bytes : List UInt8) : Prop where
  newline : newline ∉ bytes
  short : bytes.length < 127
  range : ∀ word n, (scanWord bytes).value = some word →
    strcaseEq (asString word) (chars "user") = true →
    (scanInt (scanWord bytes).rest).value = some n → 0 ≤ n ∧ n ≤ 255

/-- What a user line says that has a word, a number and another word. -/
def completeUser (bytes : List UInt8) : Option (UInt8 × List UInt8) :=
  (scanWord bytes).value.bind fun word =>
    if strcaseEq (asString word) (chars "user") then
      let scanned := scanInt (scanWord bytes).rest
      scanned.value.bind fun n =>
        (scanWord scanned.rest).value.map fun password =>
          (UInt8.ofInt (toInt n), asString password)
    else none

def takenBy (lines : List (List UInt8)) (uid : UInt8) : Bool :=
  lines.any fun bytes => (completeUser bytes).map Prod.fst = some uid

/-- A user line that ends before its id, or before the password for an id that is free. -/
def CutShort (taken : UInt8 → Bool) (bytes : List UInt8) : Prop :=
  ∃ word, (scanWord bytes).value = some word ∧
    strcaseEq (asString word) (chars "user") = true ∧
    (Blank (scanWord bytes).rest ∨
      ∃ n, (scanInt (scanWord bytes).rest).value = some n ∧ taken (UInt8.ofInt (toInt n)) = false ∧
        Blank (scanInt (scanWord bytes).rest).rest)

def CutShortLast (lines : List (List UInt8)) : Prop :=
  ∀ before bytes after, lines = before ++ bytes :: after → CutShort (takenBy before) bytes →
    ∀ later ∈ after, Blank later

/-- The turn begins with the line and the users of the lines before it. It reads no further
than the blank lines behind, and does to the users what the line does as a file. -/
structure OwnTurn (memory : Memory) (stack : Cells UInt8) (start : Reader SvpnServer)
    (psc : SvpnServer) (bytes : List UInt8) (after : List (List UInt8)) (r r' : Reader SvpnServer) :
    Prop where
  visits : Visits (usersTurn memory) start r
  turn : usersTurn memory r = .again r'
  begins : ∃ blank, Blank blank ∧ r.fin = blank ++ textOf (bytes :: after)
  ends : ∃ blank, Blank blank ∧ textOf after = blank ++ r'.fin
  before : r.found = psc
  adds : addFile memory stack psc bytes = some r'.found

/-- Reading the text is reading its lines one by one, each as a file of its own. -/
structure LineByLine (memory : Memory) (stack : Cells UInt8) (psc : SvpnServer)
    (lines : List (List UInt8)) : Prop where
  table : svpnServerInitClient memory stack psc (textOf lines) =
    lines.foldlM (addFile memory stack) (clearClients psc)
  turns : ∀ before bytes after, lines = before ++ bytes :: after → ¬ Blank bytes →
    ∃ psc' r r', before.foldlM (addFile memory stack) (clearClients psc) = some psc' ∧
      OwnTurn memory stack ⟨textOf lines, stack, clearClients psc⟩ psc' bytes after r r'
  malformed : ∀ bytes ∈ lines, completeUser bytes = none →
    ∀ psc', addFile memory stack psc' bytes = some psc'

def addLine (memory : Memory) (psc : SvpnServer) (bytes : List UInt8) : SvpnServer :=
  ((completeUser bytes).map fun user => addUser memory psc (.user user.1 user.2)).getD psc

variable {memory : Memory} {bytes fin after : List UInt8} {psc : SvpnServer}

theorem addLine_incomplete (h : completeUser bytes = none) : addLine memory psc bytes = psc := by
  rw [addLine, h]
  rfl

theorem completeUser_other {word : List UInt8} (hword : (scanWord bytes).value = some word)
    (huser : strcaseEq (asString word) (chars "user") = false) : completeUser bytes = none := by
  rw [completeUser, hword, Option.bind_some, huser]
  rfl

theorem completeUser_user {word : List UInt8} (hword : (scanWord bytes).value = some word)
    (huser : strcaseEq (asString word) (chars "user") = true) :
    completeUser bytes = (scanInt (scanWord bytes).rest).value.bind fun n =>
      (scanWord (scanInt (scanWord bytes).rest).rest).value.map fun password =>
        (UInt8.ofInt (toInt n), asString password) := by
  rw [completeUser, hword, Option.bind_some, huser]
  rfl

theorem scanWord_of_blank (h : Blank bytes) : scanWord bytes = ⟨none, []⟩ := by
  rw [scanWord, blank_iff_dropWhile.1 h]

theorem scanInt_of_blank (h : Blank bytes) : scanInt bytes = ⟨none, []⟩ := by
  rw [scanInt, blank_iff_dropWhile.1 h]
  rfl

theorem scanWord_of_not_blank (h : ¬ Blank bytes) : ∃ word, (scanWord bytes).value = some word := by
  rw [blank_iff_dropWhile] at h
  unfold scanWord
  cases hskip : bytes.dropWhile isSpace with
  | nil => exact absurd hskip h
  | cons c rest => exact ⟨_, rfl⟩

theorem not_blank_of_number {n : ℤ} (h : (scanInt bytes).value = some n) : ¬ Blank bytes := by
  intro hblank
  rw [scanInt_of_blank hblank] at h
  cases h

theorem scanId_append {word : List UInt8} (hword : (scanWord bytes).value = some word)
    (hvisible : ¬ Blank (scanWord bytes).rest) (hstop : Stops (fun c => !isSpace c) fin) :
    scanInt (scanWord (bytes ++ fin)).rest =
      ⟨(scanInt (scanWord bytes).rest).value, (scanInt (scanWord bytes).rest).rest ++ fin⟩ := by
  rw [scanWord_append hword hstop]
  exact scanInt_append hvisible (stops_isDigit hstop)

theorem UserLine.fits {word rest : List UInt8} (h : UserLine bytes) (hrest : rest <:+ bytes)
    (hword : (scanWord rest).value = some word) : word.length + 1 ≤ tmpLen := by
  have hshort := h.short
  have hlen := (Field.of_scanWord hword).length_le
  have hle := hrest.length_le
  rw [tmpLen]
  omega

theorem completeUser_cutShort {taken : UInt8 → Bool} (h : CutShort taken bytes) :
    completeUser bytes = none := by
  obtain ⟨word, hword, huser, hblank | ⟨n, hid, -, hblank⟩⟩ := h
  · rw [completeUser_user hword huser, scanInt_of_blank hblank]
    rfl
  · rw [completeUser_user hword huser, hid, Option.bind_some, scanWord_of_blank hblank]
    rfl

theorem completeUser_blank (h : Blank bytes) : completeUser bytes = none := by
  rw [completeUser, scanWord_of_blank h]
  rfl

theorem skipLine_rest {σ : Type} {rest : List UInt8} (h : UserLine bytes) (hrest : rest <:+ bytes)
    (hend : LineEnd fin after) (tmpstr : Cells UInt8) (found : σ) :
    ∃ tmpstr', Reader.skipLine ⟨rest ++ fin, tmpstr, found⟩ = .again ⟨after, tmpstr', found⟩ := by
  have hlen := hrest.length_le
  have hshort := h.short
  have hnewline : newline ∉ rest := fun hmem => h.newline (hrest.mem hmem)
  exact Reader.skipLine_line hnewline (by rw [tmpLen]; omega) hend tmpstr found

theorem toInt_of_range {n : ℤ} (h : 0 ≤ n ∧ n ≤ 255) : 0 ≤ toInt n ∧ toInt n < 256 := by
  rw [toInt, Int.bmod_def]
  omega

theorem usersTurn_line (h : UserLine bytes) (hblank : ¬ Blank bytes) (hend : LineEnd fin after)
    (hcut : ¬ CutShort (takenIn psc) bytes) (tmpstr : Cells UInt8) :
    ∃ tmpstr', usersTurn memory ⟨bytes ++ fin, tmpstr, psc⟩ =
      .again ⟨after, tmpstr', addLine memory psc bytes⟩ := by
  obtain ⟨word, hword⟩ := scanWord_of_not_blank hblank
  have hfit := h.fits List.suffix_rfl hword
  have hscan := scanWord_append hword hend.stops
  have hvalue : (scanWord (bytes ++ fin)).value = some word := by rw [hscan]
  have hrest : (scanWord bytes).rest <:+ bytes := suffix_scanWord bytes
  cases huser : strcaseEq (asString word) (chars "user") with
  | false =>
    rw [usersTurn_skips (recordedTurn_other hvalue hfit huser), hscan,
      addLine_incomplete (completeUser_other hword huser)]
    exact skipLine_rest h hrest hend _ _
  | true =>
    have hvisible : ¬ Blank (scanWord bytes).rest := fun hb => hcut ⟨word, hword, huser, .inl hb⟩
    have hnumber := scanId_append hword hvisible hend.stops
    have hcomplete := completeUser_user hword huser
    have hrest' : (scanInt (scanWord bytes).rest).rest <:+ bytes :=
      (suffix_scanInt _).trans hrest
    cases hid : (scanInt (scanWord bytes).rest).value with
    | none =>
      have hid' : (scanInt (scanWord (bytes ++ fin)).rest).value = none := by rw [hnumber, hid]
      rw [hid] at hcomplete
      rw [usersTurn_skips (recordedTurn_noNumber hvalue hfit huser hid'), hnumber,
        addLine_incomplete hcomplete]
      exact skipLine_rest h hrest' hend _ _
    | some n =>
      have hrange := toInt_of_range (h.range word n hword huser hid)
      have hid' : (scanInt (scanWord (bytes ++ fin)).rest).value = some n := by rw [hnumber, hid]
      rw [hid, Option.bind_some] at hcomplete
      cases htaken : takenIn psc (UInt8.ofInt (toInt n)) with
      | true =>
        have hsame : addLine memory psc bytes = psc := by
          rw [addLine, hcomplete]
          cases (scanWord (scanInt (scanWord bytes).rest).rest).value with
          | none => rfl
          | some password => exact if_pos htaken
        rw [usersTurn_skips (recordedTurn_taken hvalue hfit huser hid' hrange htaken), hnumber, hsame]
        exact skipLine_rest h hrest' hend _ _
      | false =>
        have hvisible' : ¬ Blank (scanInt (scanWord bytes).rest).rest := fun hb =>
          hcut ⟨word, hword, huser, .inr ⟨n, hid, htaken, hb⟩⟩
        obtain ⟨password, hpassword⟩ := scanWord_of_not_blank hvisible'
        have hscan' := scanWord_append hpassword hend.stops
        have hpassword' : (scanWord (scanInt (scanWord (bytes ++ fin)).rest).rest).value =
            some password := by
          rw [hnumber, hscan']
        have hadd : addLine memory psc bytes = psc.setClient (UInt8.ofInt (toInt n))
            (userNode memory (UInt8.ofInt (toInt n)) (asString password)) := by
          rw [addLine, hcomplete, hpassword]
          exact if_neg (Bool.eq_false_iff.1 htaken)
        rw [usersTurn_skips (recordedTurn_add hvalue hfit huser hid' hrange htaken hpassword'
          (h.fits hrest' hpassword)), hnumber, hscan', hadd]
        exact skipLine_rest h ((suffix_scanWord _).trans hrest') hend _ _

theorem usersTurn_cutShort (h : UserLine bytes) (hcut : CutShort (takenIn psc) bytes)
    (hblank : Blank fin) (tmpstr : Cells UInt8) :
    ∃ tmpstr', usersTurn memory ⟨bytes ++ fin, tmpstr, psc⟩ =
      .again ⟨[], tmpstr', addLine memory psc bytes⟩ := by
  rw [addLine_incomplete (completeUser_cutShort hcut)]
  have hskip : ∀ m : Cells UInt8, ∃ tmpstr', Reader.skipLine ⟨[], m, psc⟩ = .again ⟨[], tmpstr', psc⟩ :=
    fun m => Reader.skipLine_again _
  obtain ⟨word, hword, huser, hcut⟩ := hcut
  have hfit := h.fits List.suffix_rfl hword
  have hscan := scanWord_append hword hblank.stops
  have hvalue : (scanWord (bytes ++ fin)).value = some word := by rw [hscan]
  rcases hcut with hrest | ⟨n, hid, hfree, hrest⟩
  · have hnumber : scanInt (scanWord (bytes ++ fin)).rest = ⟨none, []⟩ := by
      rw [hscan, scanInt_of_blank (hrest.append hblank)]
    rw [usersTurn_skips (recordedTurn_noNumber hvalue hfit huser (by rw [hnumber])), hnumber]
    exact hskip _
  · have hnumber := scanId_append hword (not_blank_of_number hid) hblank.stops
    have hid' : (scanInt (scanWord (bytes ++ fin)).rest).value = some n := by rw [hnumber, hid]
    have hend : scanWord (scanInt (scanWord (bytes ++ fin)).rest).rest = ⟨none, []⟩ := by
      rw [hnumber, scanWord_of_blank (hrest.append hblank)]
    have hrange := toInt_of_range (h.range word n hword huser hid)
    rw [usersTurn_skips (recordedTurn_noPassword hvalue hfit huser hid' hrange hfree
      (by rw [hend])), hend]
    exact hskip _

theorem usersTurn_nil (tmpstr : Cells UInt8) (psc : SvpnServer) :
    usersTurn memory ⟨[], tmpstr, psc⟩ = .done ⟨[], tmpstr, psc⟩ := rfl

theorem reads_blank (hblank : Blank bytes) (tmpstr : Cells UInt8) (psc : SvpnServer) :
    Reads (usersTurn memory) ⟨bytes, tmpstr, psc⟩ psc := by
  have hdone : usersTurn memory ⟨bytes ++ [], tmpstr, psc⟩ = .done ⟨[], tmpstr, psc⟩ :=
    (usersTurn_blank hblank).trans (usersTurn_nil tmpstr psc)
  rw [List.append_nil] at hdone
  exact ⟨_, .done hdone, rfl⟩

theorem addFile_of_reads {stack : Cells UInt8} {found : SvpnServer}
    (h : Reads (usersTurn memory) ⟨bytes, stack, psc⟩ found) :
    addFile memory stack psc bytes = some found := by
  obtain ⟨r, hrun, rfl⟩ := h
  rw [addFile, loop_of_runs (fun r => r.fin.length) (fun _ _ => usersTurn_length) hrun
    (Nat.lt_succ_self _)]
  rfl

theorem addFile_line (h : UserLine bytes) (stack : Cells UInt8) (psc : SvpnServer) :
    addFile memory stack psc bytes = some (addLine memory psc bytes) := by
  by_cases hblank : Blank bytes
  · rw [addLine_incomplete (completeUser_blank hblank)]
    exact addFile_of_reads (reads_blank hblank stack psc)
  · have hturn : ∃ tmpstr', usersTurn memory ⟨bytes ++ [], stack, psc⟩ =
        .again ⟨[], tmpstr', addLine memory psc bytes⟩ := by
      by_cases hcut : CutShort (takenIn psc) bytes
      · exact usersTurn_cutShort h hcut blank_nil stack
      · exact usersTurn_line h hblank (.inl ⟨rfl, rfl⟩) hcut stack
    obtain ⟨tmpstr', hturn⟩ := hturn
    rw [List.append_nil] at hturn
    exact addFile_of_reads (reads_again hturn (reads_blank blank_nil tmpstr' _))

def tableOf (memory : Memory) (psc : SvpnServer) (lines : List (List UInt8)) : SvpnServer :=
  lines.foldl (addLine memory) (clearClients psc)

theorem tableOf_append (lines : List (List UInt8)) (bytes : List UInt8) :
    tableOf memory psc (lines ++ [bytes]) = addLine memory (tableOf memory psc lines) bytes := by
  rw [tableOf, List.foldl_append]
  rfl

theorem foldlM_addFile {lines : List (List UInt8)} (h : ∀ bytes ∈ lines, UserLine bytes)
    (stack : Cells UInt8) (psc : SvpnServer) :
    lines.foldlM (addFile memory stack) psc = some (lines.foldl (addLine memory) psc) := by
  induction lines generalizing psc with
  | nil => rfl
  | cons bytes lines ih =>
    rw [List.foldlM_cons, addFile_line (h bytes List.mem_cons_self)]
    exact ih (fun b hb => h b (List.mem_cons_of_mem _ hb)) _

theorem takenIn_addLine (psc : SvpnServer) (bytes : List UInt8) (uid : UInt8) :
    takenIn (addLine memory psc bytes) uid =
      (takenIn psc uid || decide ((completeUser bytes).map Prod.fst = some uid)) := by
  rw [addLine]
  cases completeUser bytes with
  | none => simp
  | some user =>
    rw [Option.map_some, Option.getD_some, takenIn, client_addUser]
    by_cases hid : user.1 = uid
    · simp [takenIn, passwordOf, hid]
    · simp [takenIn, passwordOf, hid]

theorem takenIn_foldl (lines : List (List UInt8)) (psc : SvpnServer) (uid : UInt8) :
    takenIn (lines.foldl (addLine memory) psc) uid = (takenIn psc uid || takenBy lines uid) := by
  induction lines generalizing psc with
  | nil => simp [takenBy]
  | cons bytes lines ih =>
    rw [List.foldl_cons, ih, takenIn_addLine, Bool.or_assoc]
    rfl

theorem takenIn_tableOf (lines : List (List UInt8)) :
    takenIn (tableOf memory psc lines) = takenBy lines := by
  funext uid
  rw [tableOf, takenIn_foldl, takenIn_clearClients]
  rfl

theorem blank_textOf {lines : List (List UInt8)} :
    Blank (textOf lines) ↔ ∀ bytes ∈ lines, Blank bytes := by
  induction lines with
  | nil => simp [textOf, Blank]
  | cons bytes lines ih =>
    obtain ⟨fin, htext, hend⟩ := textOf_cons bytes lines
    obtain ⟨sep, hsep, rfl⟩ := hend.blank
    rw [htext, List.forall_mem_cons, ← ih]
    constructor
    · intro h
      exact ⟨fun c hc => h c (List.mem_append_left _ hc), fun c hc =>
        h c (List.mem_append_right _ (List.mem_append_right _ hc))⟩
    · rintro ⟨hbytes, hlines⟩
      exact hbytes.append (hsep.append hlines)

theorem addFile_malformed (h : UserLine bytes) (hmalformed : completeUser bytes = none)
    (stack : Cells UInt8) (psc : SvpnServer) : addFile memory stack psc bytes = some psc := by
  rw [addFile_line h, addLine_incomplete hmalformed]

theorem OwnTurn.later {stack : Cells UInt8} {s s' r r' : Reader SvpnServer}
    {lines : List (List UInt8)} (h : usersTurn memory s = .again s')
    (hturn : OwnTurn memory stack s' psc bytes lines r r') :
    OwnTurn memory stack s psc bytes lines r r' :=
  { hturn with visits := .again h hturn.visits }

theorem usersTurn_step {lines : List (List UInt8)} (h : UserLine bytes) (hvisible : ¬ Blank bytes)
    (hcut : CutShort (takenIn psc) bytes → ∀ later ∈ lines, Blank later) {blank : List UInt8}
    (hblank : Blank blank) (tmpstr : Cells UInt8) :
    ∃ skipped left tmpstr', Blank skipped ∧ textOf lines = skipped ++ left ∧
      (left = textOf lines ∨ ∀ later ∈ lines, Blank later) ∧
      usersTurn memory ⟨blank ++ textOf (bytes :: lines), tmpstr, psc⟩ =
        .again ⟨left, tmpstr', addLine memory psc bytes⟩ := by
  obtain ⟨fin, htext, hend⟩ := textOf_cons bytes lines
  rw [usersTurn_blank hblank, htext]
  by_cases hshort : CutShort (takenIn psc) bytes
  · obtain ⟨sep, hsep, rfl⟩ := hend.blank
    have hlater := hcut hshort
    obtain ⟨tmpstr', hturn⟩ :=
      usersTurn_cutShort h hshort (hsep.append (blank_textOf.2 hlater)) tmpstr
    exact ⟨textOf lines, [], tmpstr', blank_textOf.2 hlater, (List.append_nil _).symm,
      .inr hlater, hturn⟩
  · obtain ⟨tmpstr', hturn⟩ := usersTurn_line h hvisible hend hshort tmpstr
    exact ⟨[], textOf lines, tmpstr', blank_nil, rfl, .inl rfl, hturn⟩

/-- From the start of what is left, blank bytes before it aside, the loop reads line by line. -/
def ReadsLeft (memory : Memory) (stack : Cells UInt8) (psc : SvpnServer)
    (lines before left : List (List UInt8)) : Prop :=
  ∀ blank tmpstr, Blank blank →
    let start : Reader SvpnServer := ⟨blank ++ textOf left, tmpstr, tableOf memory psc before⟩
    Reads (usersTurn memory) start (tableOf memory psc lines) ∧
      ∀ mid bytes after, left = mid ++ bytes :: after → ¬ Blank bytes →
        ∃ r r', OwnTurn memory stack start (tableOf memory psc (before ++ mid)) bytes after r r'

section
variable {stack : Cells UInt8} {lines before left : List (List UInt8)}

theorem readsLeft_nil : ReadsLeft memory stack psc lines lines [] := by
  intro blank tmpstr hblank start
  refine ⟨reads_blank (hblank.append (blank_textOf.2 (by simp))) tmpstr _, ?_⟩
  intro mid bytes after hnil
  simp at hnil

theorem readsLeft_blank (hbytes : Blank bytes)
    (h : ReadsLeft memory stack psc lines (before ++ [bytes]) left) :
    ReadsLeft memory stack psc lines before (bytes :: left) := by
  intro blank tmpstr hblank start
  obtain ⟨fin, htext, hend⟩ := textOf_cons bytes left
  obtain ⟨sep, hsep, rfl⟩ := hend.blank
  have hstart : start = ⟨(blank ++ (bytes ++ sep)) ++ textOf left, tmpstr,
      tableOf memory psc (before ++ [bytes])⟩ := by
    rw [tableOf_append, addLine_incomplete (completeUser_blank hbytes), List.append_assoc,
      List.append_assoc]
    exact congrArg (fun t => (⟨blank ++ t, tmpstr, tableOf memory psc before⟩ : Reader _)) htext
  obtain ⟨hreads, hturns⟩ := h _ tmpstr (hblank.append (hbytes.append hsep))
  rw [hstart]
  refine ⟨hreads, ?_⟩
  intro mid b after hmid hvisible
  cases mid with
  | nil =>
    obtain ⟨rfl, rfl⟩ := List.cons.inj hmid
    exact absurd hbytes hvisible
  | cons m mid =>
    obtain ⟨rfl, hleft⟩ := List.cons.inj hmid
    rw [List.append_cons before bytes mid]
    exact hturns mid b after hleft hvisible

theorem readsLeft_line (hline : UserLine bytes) (hvisible : ¬ Blank bytes)
    (hcut : CutShort (takenBy before) bytes → ∀ later ∈ left, Blank later)
    (h : ReadsLeft memory stack psc lines (before ++ [bytes]) left) :
    ReadsLeft memory stack psc lines before (bytes :: left) := by
  intro blank tmpstr hblank start
  have htable : tableOf memory psc (before ++ [bytes]) =
      addLine memory (tableOf memory psc before) bytes := tableOf_append before bytes
  have htaken : takenIn (tableOf memory psc before) = takenBy before := takenIn_tableOf before
  rw [← htaken] at hcut
  obtain ⟨skipped, rest, tmpstr', hskipped, htext, hcases, hturn⟩ :=
    usersTurn_step hline hvisible hcut hblank tmpstr
  rw [← htable] at hturn
  obtain ⟨⟨t, hrun, hfound⟩, hturns⟩ := h [] tmpstr' blank_nil
  constructor
  · rw [List.nil_append, htext] at hrun
    exact reads_again hturn ⟨t, hrun.of_turn_eq (usersTurn_blank hskipped).symm, hfound⟩
  · intro mid b after hmid hne
    cases mid with
    | nil =>
      obtain ⟨rfl, rfl⟩ := List.cons.inj hmid
      rw [List.append_nil]
      exact ⟨start, _, .here, hturn, ⟨blank, hblank, rfl⟩, ⟨skipped, hskipped, htext⟩, rfl,
        htable ▸ addFile_line hline stack _⟩
    | cons m mid =>
      obtain ⟨rfl, hleft⟩ := List.cons.inj hmid
      rcases hcases with rfl | hblanks
      · obtain ⟨r, r', hown⟩ := hturns mid b after hleft hne
        rw [List.append_cons before bytes mid]
        exact ⟨r, r', hown.later hturn⟩
      · -- Behind a line that is cut short no line needs a turn.
        exact absurd (hblanks b (by simp [hleft])) hne

theorem readsLeft_lines (hlines : ∀ bytes ∈ lines, UserLine bytes) (hcut : CutShortLast lines)
    (hsplit : lines = before ++ left) : ReadsLeft memory stack psc lines before left := by
  induction left generalizing before with
  | nil =>
    rw [List.append_nil] at hsplit
    subst hsplit
    exact readsLeft_nil
  | cons bytes left ih =>
    have hrest := ih (show lines = (before ++ [bytes]) ++ left by rw [hsplit, List.append_cons])
    by_cases hvisible : Blank bytes
    · exact readsLeft_blank hvisible hrest
    · exact readsLeft_line (hlines bytes (by simp [hsplit])) hvisible
        (hcut before bytes left hsplit) hrest

end

theorem fgets_shorter {q : Stream} {bound : ℕ} (h : q.length ≤ bound) (hpos : 0 < bound) :
    (fgets tmpLen q).rest.length < bound := by
  by_cases hq : q = []
  · subst hq
    exact hpos
  · have hlt := length_fgets_lt (show 2 ≤ tmpLen by decide) hq
    omega

/-- How far a turn on a user line gets: past the next byte that is not blank, behind the word
and, where a password is looked for, behind the id. -/
theorem usersTurn_reaches {tmpstr : Cells UInt8} {word : List UInt8} {r' : Reader SvpnServer}
    (hword : (scanWord fin).value = some word)
    (huser : strcaseEq (asString word) (chars "user") = true)
    (hturn : usersTurn memory ⟨fin, tmpstr, psc⟩ = .again r') :
    ∃ q, r'.fin = (fgets tmpLen q).rest ∧
      q.length ≤ ((scanWord fin).rest.dropWhile isSpace).length ∧
      ∀ n, (scanInt (scanWord fin).rest).value = some n →
        takenIn psc (UInt8.ofInt (toInt n)) = false →
        q.length ≤ ((scanInt (scanWord fin).rest).rest.dropWhile isSpace).length := by
  have hscan := length_scanInt_visible (scanWord fin).rest
  have hskip {q : Reader SvpnServer} {accesses : List Access}
      (hq : recordedTurn memory ⟨fin, tmpstr, psc⟩ = .after accesses (recordedSkip q)) :
      r'.fin = (fgets tmpLen q.fin).rest :=
    (Reader.skipLine_eq ((usersTurn_skips hq).symm.trans hturn)).1
  by_cases hfit : word.length + 1 ≤ tmpLen
  swap
  · rw [usersTurn_faults (recordedTurn_long hword hfit)] at hturn
    cases hturn
  cases hid : (scanInt (scanWord fin).rest).value with
  | none =>
    exact ⟨_, hskip (recordedTurn_noNumber hword hfit huser hid), hscan, fun n hn => by cases hn⟩
  | some n =>
    by_cases hrange : 0 ≤ toInt n ∧ toInt n < 256
    swap
    · rw [usersTurn_faults (recordedTurn_outside hword hfit huser hid hrange)] at hturn
      cases hturn
    cases htaken : takenIn psc (UInt8.ofInt (toInt n)) with
    | true =>
      refine ⟨_, hskip (recordedTurn_taken hword hfit huser hid hrange htaken), hscan, ?_⟩
      intro m hm hfree
      obtain rfl := Option.some.inj hm
      cases htaken.symm.trans hfree
    | false =>
      have hvisible : ((scanInt (scanWord fin).rest).rest.dropWhile isSpace).length ≤
          ((scanWord fin).rest.dropWhile isSpace).length :=
        Nat.le_trans (List.length_dropWhile_le isSpace _) hscan
      cases hpassword : (scanWord (scanInt (scanWord fin).rest).rest).value with
      | none =>
        have hend := rest_scanWord hpassword
        refine ⟨_, hskip (recordedTurn_noPassword hword hfit huser hid hrange htaken hpassword), ?_, ?_⟩
        · simp [hend]
        · simp [hend]
      | some password =>
        by_cases hshort : password.length + 1 ≤ tmpLen
        · have hlt := length_scanWord_visible hpassword
          refine ⟨_, hskip (recordedTurn_add hword hfit huser hid hrange htaken hpassword hshort),
            Nat.le_trans hlt.le hvisible, ?_⟩
          intro m hm _
          obtain rfl := Option.some.inj hm
          exact hlt.le
        · rw [usersTurn_faults
            (recordedTurn_longPassword hword hfit huser hid hrange htaken hpassword hshort)] at hturn
          cases hturn

theorem OwnTurn.blank_after {stack : Cells UInt8} {start r r' : Reader SvpnServer}
    {lines : List (List UInt8)} (h : OwnTurn memory stack start psc bytes lines r r')
    (hcut : CutShort (takenIn psc) bytes) : Blank (textOf lines) := by
  obtain ⟨blank, hblank, hbegins⟩ := h.begins
  obtain ⟨skipped, hskipped, hends⟩ := h.ends
  obtain ⟨fin, htext, hend⟩ := textOf_cons bytes lines
  obtain ⟨sep, hsep, hfin⟩ := hend.blank
  obtain ⟨word, hword, huser, hcut⟩ := hcut
  have hstart : r = ⟨blank ++ (bytes ++ fin), r.tmpstr, psc⟩ := by
    rw [← htext, ← hbegins, ← h.before]
  have hturn : usersTurn memory ⟨bytes ++ fin, r.tmpstr, psc⟩ = .again r' := by
    rw [← h.turn, ← usersTurn_blank hblank, ← hstart]
  have hscan := scanWord_append hword hend.stops
  obtain ⟨q, hq, hfirst, hsecond⟩ := usersTurn_reaches (by rw [hscan]) huser hturn
  rw [hscan] at hfirst hsecond
  -- The turn would have to end before the next byte that is not blank, but it goes past it.
  by_contra hvisible
  have hpos : 0 < ((textOf lines).dropWhile isSpace).length :=
    List.length_pos_of_ne_nil fun hnil => hvisible (blank_iff_dropWhile.2 hnil)
  have hleft : ((textOf lines).dropWhile isSpace).length ≤ r'.fin.length := by
    rw [hends, dropWhile_blank hskipped]
    exact List.length_dropWhile_le isSpace _
  have hfar : ∀ rest, Blank rest →
      ((rest ++ fin).dropWhile isSpace).length = ((textOf lines).dropWhile isSpace).length := by
    intro rest hrest
    rw [dropWhile_blank hrest, hfin, dropWhile_blank hsep]
  have hreach : q.length ≤ ((textOf lines).dropWhile isSpace).length := by
    rcases hcut with hrest | ⟨n, hid, hfree, hrest⟩
    · rw [← hfar _ hrest]
      exact hfirst
    · have hnumber := scanInt_append (not_blank_of_number hid) (stops_isDigit hend.stops)
      rw [hnumber] at hsecond
      rw [← hfar _ hrest]
      exact hsecond n hid hfree
  have hlt := fgets_shorter hreach hpos
  rw [← hq] at hlt
  omega

/-- The list is read line by line exactly if there are only blank lines behind a user line that
is cut short. -/
theorem lineByLine_iff {lines : List (List UInt8)} (hlines : ∀ bytes ∈ lines, UserLine bytes)
    (memory : Memory) (stack : Cells UInt8) (psc : SvpnServer) :
    LineByLine memory stack psc lines ↔ CutShortLast lines := by
  have hfold : ∀ before : List (List UInt8), (∀ bytes ∈ before, UserLine bytes) →
      before.foldlM (addFile memory stack) (clearClients psc) = some (tableOf memory psc before) :=
    fun before h => foldlM_addFile h stack _
  constructor
  · intro h before bytes after hsplit hcut
    have hbefore := hfold before fun b hb => hlines b (by simp [hsplit, hb])
    have hvisible : ¬ Blank bytes := by
      obtain ⟨word, hword, -⟩ := hcut
      intro hb
      rw [scanWord_of_blank hb] at hword
      cases hword
    obtain ⟨psc', r, r', hpsc', hown⟩ := h.turns before bytes after hsplit hvisible
    obtain rfl := Option.some.inj (hbefore.symm.trans hpsc')
    rw [← takenIn_tableOf] at hcut
    exact blank_textOf.1 (hown.blank_after hcut)
  · intro hcut
    have hleft : ReadsLeft memory stack psc lines [] lines :=
      readsLeft_lines hlines hcut (List.nil_append lines).symm
    obtain ⟨hreads, hturns⟩ := hleft [] stack blank_nil
    refine ⟨?_, ?_, fun bytes hbytes hmalformed psc' =>
      addFile_malformed (hlines bytes hbytes) hmalformed stack psc'⟩
    · rw [hfold lines hlines]
      exact addFile_of_reads hreads
    · intro before bytes after hsplit hvisible
      obtain ⟨r, r', hown⟩ := hturns before bytes after hsplit hvisible
      exact ⟨_, r, r', hfold before fun b hb => hlines b (by simp [hsplit, hb]), hown⟩

theorem userLine_of {bytes : List UInt8} (hnewline : newline ∉ bytes) (hshort : bytes.length < 127)
    (hrange : ∀ n ∈ (scanInt (scanWord bytes).rest).value, 0 ≤ n ∧ n ≤ 255) : UserLine bytes :=
  ⟨hnewline, hshort, fun _ n _ _ hn => hrange n hn⟩

theorem cutShortLast_of {lines : List (List UInt8)}
    (h : ∀ bytes ∈ lines.dropLast, ∀ taken, ¬ CutShort taken bytes) : CutShortLast lines := by
  intro before bytes after hsplit hcut
  cases after with
  | nil => simp
  | cons next after =>
    refine absurd hcut (h bytes ?_ _)
    rw [hsplit, List.dropLast_append_of_ne_nil (List.cons_ne_nil _ _), List.dropLast_cons_cons]
    exact List.mem_append_right _ List.mem_cons_self

/-- The second line has no number, the last one no password. -/
def mixedLines : List (List UInt8) := [chars "user 6 a", chars "user x b", chars "user 7"]

theorem lineByLine_mixed : LineByLine sampleMemory (fun _ => 0) sampleHost mixedLines := by
  have hlines : ∀ bytes ∈ mixedLines, UserLine bytes := by
    simp only [mixedLines, List.forall_mem_cons]
    exact ⟨userLine_of (by decide) (by decide) (by decide),
      userLine_of (by decide) (by decide) (by decide),
      userLine_of (by decide) (by decide) (by decide), by simp⟩
  have hcut : ∀ bytes ∈ mixedLines.dropLast, ∀ taken, ¬ CutShort taken bytes := by
    have hfirst : (completeUser (chars "user 6 a")).isSome = true := by decide
    have hsecond : ¬ Blank (scanWord (chars "user x b")).rest ∧
        (scanInt (scanWord (chars "user x b")).rest).value = none := by decide
    simp only [mixedLines, List.dropLast_cons_cons, List.forall_mem_cons]
    refine ⟨fun taken h => ?_, fun taken h => ?_, by simp⟩
    · rw [completeUser_cutShort h] at hfirst
      cases hfirst
    · obtain ⟨word, -, -, hblank | ⟨n, hid, -⟩⟩ := h
      · exact hsecond.1 hblank
      · cases hsecond.2.symm.trans hid
  exact (lineByLine_iff hlines sampleMemory (fun _ => 0) sampleHost).2 (cutShortLast_of hcut)

/-- User 6 has no password, and gets the first word of the next line. -/
def swallowingLines : List (List UInt8) := [chars "user 6", chars "user 3 p"]

theorem swallowingLines_read :
    (∀ bytes ∈ swallowingLines, UserLine bytes) ∧
      svpnServerInitClient sampleMemory (fun _ => 0) sampleHost (textOf swallowingLines) =
        some ((clearClients sampleHost).setClient 6 (userNode sampleMemory 6 (chars "user"))) ∧
      swallowingLines.foldlM (addFile sampleMemory (fun _ => 0)) (clearClients sampleHost) =
        some ((clearClients sampleHost).setClient 3 (userNode sampleMemory 3 (chars "p"))) ∧
      ¬ LineByLine sampleMemory (fun _ => 0) sampleHost swallowingLines := by
  have hlines : ∀ bytes ∈ swallowingLines, UserLine bytes := by
    simp only [swallowingLines, List.forall_mem_cons]
    exact ⟨userLine_of (by decide) (by decide) (by decide),
      userLine_of (by decide) (by decide) (by decide), by simp⟩
  have htext : svpnServerInitClient sampleMemory (fun _ => 0) sampleHost (textOf swallowingLines) =
      some ((clearClients sampleHost).setClient 6 (userNode sampleMemory 6 (chars "user"))) := by
    have hfree : ((clearClients sampleHost).client (UInt8.ofInt (toInt 6))).isSome = false := by
      rw [client_clearClients]
      rfl
    have hturn : usersTurn sampleMemory
        ⟨textOf swallowingLines, fun _ => 0, clearClients sampleHost⟩ = _ :=
      usersTurn_skips (recordedTurn_add
        (show (scanWord (textOf swallowingLines)).value = some (chars "user") by decide)
        (by decide) (by decide)
        (show (scanInt (scanWord (textOf swallowingLines)).rest).value = some 6 by decide)
        (by decide) hfree
        (show (scanWord (scanInt (scanWord (textOf swallowingLines)).rest).rest).value =
          some (chars "user") by decide) (by decide))
    have hid : UInt8.ofInt (toInt 6) = 6 := by decide
    have hstring : asString (chars "user") = chars "user" := by decide
    have hleft : (fgets tmpLen
        (scanWord (scanInt (scanWord (textOf swallowingLines)).rest).rest).rest).rest = [] := by
      decide
    rw [hid, hstring] at hturn
    obtain ⟨tmpstr', hskip⟩ : ∃ tmpstr', usersTurn sampleMemory
        ⟨textOf swallowingLines, fun _ => 0, clearClients sampleHost⟩ = .again ⟨[], tmpstr',
          (clearClients sampleHost).setClient 6 (userNode sampleMemory 6 (chars "user"))⟩ := by
      rw [hturn, ← hleft]
      exact Reader.skipLine_again _
    exact addFile_of_reads (reads_again hskip (reads_blank blank_nil tmpstr' _))
  have hfold : swallowingLines.foldlM (addFile sampleMemory (fun _ => 0)) (clearClients sampleHost) =
      some ((clearClients sampleHost).setClient 3 (userNode sampleMemory 3 (chars "p"))) := by
    have hfirst : completeUser (chars "user 6") = none := by decide
    have hsecond : completeUser (chars "user 3 p") = some (3, chars "p") := by decide
    rw [foldlM_addFile hlines, swallowingLines, List.foldl_cons, List.foldl_cons, List.foldl_nil,
      addLine_incomplete hfirst, addLine, hsecond, Option.map_some, Option.getD_some, addUser,
      client_clearClients]
    rfl
  refine ⟨hlines, htext, hfold, fun h => ?_⟩
  have hsame := h.table
  rw [htext, hfold] at hsame
  have hsix := congrArg (fun psc => psc.client 6) (Option.some.inj hsame)
  simp [client_setClient, client_clearClients] at hsix

end SVpn.UserLines
