import SVpn.BoundedLoop
import SVpn.InetAddr
import SVpn.Md5
import SVpn.ServerLoop

set_option autoImplicit false

/-!
The two readers of the configuration file. Both take the text word by word through
one buffer of 128 bytes, and skip what is left of a line with `fgets`.
-/
namespace SVpn.ConfigReader
open SVpn.ArrayPermutation SVpn.Region SVpn.Crypt SVpn.OutputInfo SVpn.Md5 SVpn.ServerLoop
open SVpn.BoundedLoop SVpn.Stdio SVpn.InetAddr

def tmpLen : ℕ := 128

/-- `fscanf(fin, "%s", tmpstr)` on stream and buffer. There is no result when the
word with its terminator runs over the end of the buffer. -/
def readWord (fin : Stream) (tmpstr : Cells UInt8) : Option (Bool × Stream × Cells UInt8) :=
  let scanned := scanWord fin
  match scanned.value with
  | none => some (false, scanned.rest, tmpstr)
  | some word =>
    if word.length + 1 ≤ tmpLen then some (true, scanned.rest, putString tmpstr word) else none

def readLine (fin : Stream) (tmpstr : Cells UInt8) : Stream × Cells UInt8 :=
  let scanned := fgets tmpLen fin
  match scanned.value with
  | none => (scanned.rest, tmpstr)
  | some line => (scanned.rest, putString tmpstr line)

/-- What a reading loop works on: the stream, the buffer, and what it has found. -/
structure Reader (σ : Type) where
  fin : Stream
  tmpstr : Cells UInt8
  found : σ

def Reader.skipLine {σ : Type} (r : Reader σ) : Turn (Reader σ) :=
  let skipped := readLine r.fin r.tmpstr
  .again { r with fin := skipped.1, tmpstr := skipped.2 }

structure Settings where
  port : UInt16
  laddr : Vector UInt8 4
  deriving DecidableEq

/-- Lines 274 to 285. `%hd` stores into an `unsigned short`. -/
def settingsTurn (r : Reader Settings) : Turn (Reader Settings) :=
  match readWord r.fin r.tmpstr with
  | none => .fault
  | some (false, fin, tmpstr) => .done { r with fin, tmpstr }
  | some (true, fin, tmpstr) =>
    let r := { r with fin, tmpstr }
    if strcaseEq (cString tmpLen tmpstr) (chars "port") then
      let scanned := scanInt fin
      let port := match scanned.value with
        | none => r.found.port
        | some n => UInt16.ofInt n
      { r with fin := scanned.rest, found := { r.found with port } }.skipLine
    else if strcaseEq (cString tmpLen tmpstr) (chars "local") then
      match readWord fin tmpstr with
      | none => .fault
      | some (_, fin, tmpstr) =>
        let laddr := inetAddr (cString tmpLen tmpstr)
        { r with fin, tmpstr, found := { r.found with laddr } }.skipLine
    else r.skipLine

/-- The reading loop of `svpn_server_init`; `stack` is what `tmpstr` held. -/
def svpnServerInitRead (stack : Cells UInt8) (fin : Stream) : Option Settings :=
  (loop settingsTurn (fin.length + 1) ⟨fin, stack, ⟨0, Vector.replicate 4 0⟩⟩).map (·.found)

/-- What memory holds that the function does not write: the node that `malloc`
returns for an id, and the stack of the call of `MD5Fast` for that id. -/
structure Memory where
  heap : UInt8 → SvpnClientNode
  stack : UInt8 → Cells UInt8

/-- Lines 365 to 369: a new node gets its table; its address is left as it is. -/
def newClient (memory : Memory) (uid : UInt8) (tmpstr : Cells UInt8) : Option SvpnClientNode :=
  let node := memory.heap uid
  let strlen := UInt32.ofNat (cString tmpLen tmpstr).length
  (md5Fast (memory.stack uid) tmpstr strlen).bind fun pmd5 =>
    (buildTable node.table pmd5 uid).map fun table => { node with table }

/-- Lines 345 to 374. An id outside the array of clients reads past its end. -/
def usersTurn (memory : Memory) (r : Reader SvpnServer) : Turn (Reader SvpnServer) :=
  match readWord r.fin r.tmpstr with
  | none => .fault
  | some (false, fin, tmpstr) => .done { r with fin, tmpstr }
  | some (true, fin, tmpstr) =>
    let r := { r with fin, tmpstr }
    if strcaseEq (cString tmpLen tmpstr) (chars "user") = false then r.skipLine
    else
      let scanned := scanInt fin
      let r := { r with fin := scanned.rest }
      match scanned.value with
      | none => r.skipLine
      | some n =>
        let id := toInt n
        if 0 ≤ id ∧ id < 256 then
          let uid := UInt8.ofInt id
          if (r.found.client uid).isSome then r.skipLine
          else
            match readWord r.fin tmpstr with
            | none => .fault
            | some (false, fin, tmpstr) => { r with fin, tmpstr }.skipLine
            | some (true, fin, tmpstr) =>
              match newClient memory uid tmpstr with
              | none => .fault
              | some node => { r with fin, tmpstr, found := r.found.setClient uid node }.skipLine
        else .fault

def clearClients (psc : SvpnServer) : SvpnServer :=
  { psc with clients := Vector.replicate 256 none }

/-- `svpn_server_init_client` on a file that can be opened. -/
def svpnServerInitClient (memory : Memory) (stack : Cells UInt8) (psc : SvpnServer)
    (fin : Stream) : Option SvpnServer :=
  (loop (usersTurn memory) (fin.length + 1) ⟨fin, stack, clearClients psc⟩).map (·.found)

theorem readWord_length {b : Bool} {fin fin' : Stream} {tmpstr tmpstr' : Cells UInt8}
    (h : readWord fin tmpstr = some (b, fin', tmpstr')) :
    fin'.length ≤ fin.length ∧ (b = true → fin'.length < fin.length) := by
  unfold readWord at h
  simp only at h
  cases hvalue : (scanWord fin).value with
  | none =>
    simp only [hvalue, Option.some.injEq, Prod.mk.injEq] at h
    obtain ⟨rfl, rfl, -⟩ := h
    rw [rest_scanWord hvalue]
    exact ⟨Nat.zero_le _, fun hb => by cases hb⟩
  | some word =>
    simp only [hvalue] at h
    split_ifs at h
    simp only [Option.some.injEq, Prod.mk.injEq] at h
    obtain ⟨rfl, rfl, -⟩ := h
    have hlt := length_scanWord hvalue
    exact ⟨hlt.le, fun _ => hlt⟩

theorem readWord_end {fin : Stream} (h : (scanWord fin).value = none) (tmpstr : Cells UInt8) :
    readWord fin tmpstr = some (false, (scanWord fin).rest, tmpstr) := by
  simp only [readWord, h]

theorem readWord_word {fin : Stream} {word : List UInt8} (h : (scanWord fin).value = some word)
    (hfit : word.length + 1 ≤ tmpLen) (tmpstr : Cells UInt8) :
    readWord fin tmpstr = some (true, (scanWord fin).rest, putString tmpstr word) := by
  simp only [readWord, h, if_pos hfit]

theorem readWord_long {fin : Stream} {word : List UInt8} (h : (scanWord fin).value = some word)
    (hlong : ¬ word.length + 1 ≤ tmpLen) (tmpstr : Cells UInt8) : readWord fin tmpstr = none := by
  simp only [readWord, h, if_neg hlong]

theorem readWord_eq_true {fin fin' : Stream} {tmpstr tmpstr' : Cells UInt8}
    (h : readWord fin tmpstr = some (true, fin', tmpstr')) :
    ∃ word, (scanWord fin).value = some word ∧ word.length + 1 ≤ tmpLen ∧
      fin' = (scanWord fin).rest ∧ tmpstr' = putString tmpstr word := by
  unfold readWord at h
  simp only at h
  cases hvalue : (scanWord fin).value with
  | none => simp [hvalue] at h
  | some word =>
    simp only [hvalue] at h
    split_ifs at h with hfit
    simp only [Option.some.injEq, Prod.mk.injEq, true_and] at h
    exact ⟨word, rfl, hfit, h.1.symm, h.2.symm⟩

theorem readWord_eq_false {fin fin' : Stream} {tmpstr tmpstr' : Cells UInt8}
    (h : readWord fin tmpstr = some (false, fin', tmpstr')) :
    (scanWord fin).value = none ∧ fin' = (scanWord fin).rest ∧ tmpstr' = tmpstr := by
  unfold readWord at h
  simp only at h
  cases hvalue : (scanWord fin).value with
  | none =>
    simp only [hvalue, Option.some.injEq, Prod.mk.injEq, true_and] at h
    exact ⟨rfl, h.1.symm, h.2.symm⟩
  | some word =>
    simp only [hvalue] at h
    split_ifs at h
    simp at h

theorem readLine_fst (fin : Stream) (tmpstr : Cells UInt8) :
    (readLine fin tmpstr).1 = (fgets tmpLen fin).rest := by
  unfold readLine
  simp only
  cases (fgets tmpLen fin).value <;> rfl

theorem Reader.skipLine_again {σ : Type} (r : Reader σ) :
    ∃ tmpstr, r.skipLine = .again ⟨(fgets tmpLen r.fin).rest, tmpstr, r.found⟩ :=
  ⟨(readLine r.fin r.tmpstr).2, by simp only [Reader.skipLine, readLine_fst]⟩

/-- What is left of a line is skipped up to the next. -/
theorem Reader.skipLine_line {σ : Type} {bytes fin after : Stream} (hnewline : newline ∉ bytes)
    (hshort : bytes.length + 1 < tmpLen) (hend : LineEnd fin after) (tmpstr : Cells UInt8)
    (found : σ) :
    ∃ tmpstr', Reader.skipLine ⟨bytes ++ fin, tmpstr, found⟩ = .again ⟨after, tmpstr', found⟩ := by
  obtain ⟨tmpstr', hskip⟩ := Reader.skipLine_again ⟨bytes ++ fin, tmpstr, found⟩
  exact ⟨tmpstr', fgets_line hnewline hend hshort ▸ hskip⟩

theorem Reader.skipLine_eq {σ : Type} {r r' : Reader σ} (h : r.skipLine = .again r') :
    r'.fin = (fgets tmpLen r.fin).rest ∧ r'.found = r.found := by
  cases h
  exact ⟨readLine_fst r.fin r.tmpstr, rfl⟩

theorem readLine_length (fin : Stream) (tmpstr : Cells UInt8) :
    (readLine fin tmpstr).1.length ≤ fin.length := by
  rw [readLine_fst]
  exact length_fgets tmpLen fin

theorem Reader.skipLine_length {σ : Type} {r r' : Reader σ} (h : r.skipLine = .again r') :
    r'.fin.length ≤ r.fin.length := by
  cases h
  exact readLine_length r.fin r.tmpstr

/-- Every turn that does not leave the loop consumes at least its first word. -/
theorem settingsTurn_length {r r' : Reader Settings} (h : settingsTurn r = .again r') :
    r'.fin.length < r.fin.length := by
  unfold settingsTurn at h
  rcases hword : readWord r.fin r.tmpstr with - | ⟨- | -, fin, tmpstr⟩
  · simp [hword] at h
  · simp [hword] at h
  · have hfirst := (readWord_length hword).2 rfl
    simp only [hword] at h
    split_ifs at h
    · have hskip := Reader.skipLine_length h
      have hscan := length_scanInt fin
      simp only at hskip
      omega
    · rcases hsecond : readWord fin tmpstr with - | ⟨b, fin', tmpstr'⟩
      · simp [hsecond] at h
      · have hle := (readWord_length hsecond).1
        simp only [hsecond] at h
        have hskip := Reader.skipLine_length h
        simp only at hskip
        omega
    · have hskip := Reader.skipLine_length h
      simp only at hskip
      omega

theorem usersTurn_length {memory : Memory} {r r' : Reader SvpnServer}
    (h : usersTurn memory r = .again r') : r'.fin.length < r.fin.length := by
  unfold usersTurn at h
  rcases hword : readWord r.fin r.tmpstr with - | ⟨- | -, fin, tmpstr⟩
  · simp [hword] at h
  · simp [hword] at h
  · have hfirst := (readWord_length hword).2 rfl
    have hscan := length_scanInt fin
    have hskip : ∀ {q : Reader SvpnServer}, q.skipLine = .again r' → q.fin.length < r.fin.length →
        r'.fin.length < r.fin.length := fun hq hlt =>
      Nat.lt_of_le_of_lt (Reader.skipLine_length hq) hlt
    simp only [hword] at h
    split_ifs at h
    · exact hskip h hfirst
    · cases hid : (scanInt fin).value with
      | none =>
        simp only [hid] at h
        exact hskip h (by simp only; omega)
      | some n =>
        simp only [hid] at h
        split_ifs at h
        · exact hskip h (by simp only; omega)
        · rcases hsecond : readWord (scanInt fin).rest tmpstr with - | ⟨- | -, fin', tmpstr'⟩
          · simp [hsecond] at h
          · have hle := (readWord_length hsecond).1
            simp only [hsecond] at h
            exact hskip h (by simp only; omega)
          · have hle := (readWord_length hsecond).1
            simp only [hsecond] at h
            cases hnew : newClient memory (UInt8.ofInt (toInt n)) tmpstr' with
            | none => simp [hnew] at h
            | some node =>
              simp only [hnew] at h
              exact hskip h (by simp only; omega)

theorem svpnServerInitRead_of_runs {stack : Cells UInt8} {fin : Stream} {r : Reader Settings}
    (run : Runs settingsTurn ⟨fin, stack, ⟨0, Vector.replicate 4 0⟩⟩ r) :
    svpnServerInitRead stack fin = some r.found := by
  rw [svpnServerInitRead, loop_of_runs (fun r => r.fin.length)
    (fun _ _ h => settingsTurn_length h) run (Nat.lt_succ_self _)]
  rfl

theorem svpnServerInitClient_of_runs {memory : Memory} {stack : Cells UInt8} {psc : SvpnServer}
    {fin : Stream} {r : Reader SvpnServer}
    (run : Runs (usersTurn memory) ⟨fin, stack, clearClients psc⟩ r) :
    svpnServerInitClient memory stack psc fin = some r.found := by
  rw [svpnServerInitClient, loop_of_runs (fun r => r.fin.length)
    (fun _ _ h => usersTurn_length h) run (Nat.lt_succ_self _)]
  rfl

end SVpn.ConfigReader
