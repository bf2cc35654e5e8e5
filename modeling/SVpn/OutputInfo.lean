import Mathlib.Algebra.Group.Nat.Defs
import Mathlib.Data.Int.Basic
import SVpn.Region

set_option autoImplicit false

/-!
The traffic report of the server. `outputInfo` divides by the elapsed time after
narrowing it to an `int`, and prints to the log without looking at what `fopen`
returned: either can end the process.
-/
namespace SVpn.OutputInfo
open SVpn.Region

structure Tstat where
  totalSend : ℤ
  totalRecv : ℤ
  lastSend : ℤ
  lastRecv : ℤ
  totalPkgsend : ℤ
  totalPkgrecv : ℤ
  lastPkgsend : ℤ
  lastPkgrecv : ℤ
  speedSend : ℤ
  speedRecv : ℤ
  tsLast : ℤ
  tsCurrent : ℤ

/-- The variables at file scope; `frec` is whether the log is open. -/
structure Globals where
  stat : Tstat
  tlLast : ℤ
  frec : Bool
  fmtstr : Cells UInt8

def optTh : ℤ := 1024 * 1024

def timTh : ℤ := 1000000 * 2

def toInt (x : ℤ) : ℤ := x.bmod (2 ^ 32)

/-- The loop of both fill functions, with `lenb` columns left to write. -/
def fillColumns (off len : ℕ) : ℕ → ℤ → Cells UInt8 → Cells UInt8
  | 0, _, s => s
  | lenb + 1, num, s =>
    if num = 0 then fillColumns off len lenb num (Function.update s (off + lenb) 32)
    else if (len - (lenb + 1)) % 4 = 3 then
      fillColumns off len lenb num (Function.update s (off + lenb) 44)
    else
      fillColumns off len lenb (num.tdiv 10)
        (Function.update s (off + lenb) (UInt8.ofInt (48 + num.tmod 10)))

def fillnum (s : Cells UInt8) (off len : ℕ) (num : ℤ) : Cells UInt8 := fillColumns off len len num s

def fillnum64 (s : Cells UInt8) (off len : ℕ) (num : ℤ) : Cells UInt8 := fillColumns off len len num s

def chars (s : String) : List UInt8 := s.toList.map fun c => UInt8.ofNat c.toNat

def template : List UInt8 :=
  chars "Send:99,000,000,000B [9,000,000B/s], Recv:99,000,000,000B [9,000,000B/s]\r"

/-- What a report prints: the status line, whether the log is open, and the log line
of a second with the bytes received since the last one. -/
inductive Printed where
  | status (line : List UInt8)
  | recFile (frec : Bool)
  | log (secc amount : ℤ)

def underThresholds (st : Tstat) : Bool :=
  st.totalSend - st.lastSend < optTh ∧ st.totalRecv - st.lastRecv < optTh ∧
    st.tsCurrent - st.tsLast < timTh

def withSpeeds (st : Tstat) (tval : ℤ) : Tstat :=
  { st with
    speedSend := toInt (((st.totalSend - st.lastSend) * 1000000).tdiv tval)
    speedRecv := toInt (((st.totalRecv - st.lastRecv) * 1000000).tdiv tval) }

def formatLine (s : Cells UInt8) (st : Tstat) : Cells UInt8 :=
  let s := fillnum64 s 5 14 st.totalSend
  let s := fillnum s 22 9 st.speedSend
  let s := fillnum64 s 42 14 st.totalRecv
  fillnum s 59 9 st.speedRecv

def startPeriod (st : Tstat) : Tstat :=
  { st with
    tsLast := st.tsCurrent
    lastSend := st.totalSend
    lastRecv := st.totalRecv
    lastPkgsend := st.totalPkgsend
    lastPkgrecv := st.totalPkgrecv }

/-- The log entry of an even second; `fopen` is whether the file can be opened. -/
def logTraffic (fopen : Bool) (g : Globals) : List Printed × Option Globals :=
  let secc := g.stat.tsCurrent.tdiv 1000000
  if secc.tmod 2 = 0 then
    if g.tlLast ≠ 0 then
      let frec := g.frec || fopen
      -- the log is written to whether or not it could be opened
      if frec then
        ([.recFile frec, .log secc (g.stat.lastRecv - g.tlLast)],
          some { g with tlLast := g.stat.lastRecv, frec })
      else ([.recFile frec], none)
    else ([], some { g with tlLast := g.stat.lastRecv })
  else ([], some g)

/-- No globals are returned when the process dies in the report. -/
def outputInfo (fopen : Bool) (g : Globals) : List Printed × Option Globals :=
  if underThresholds g.stat then ([], some g)
  else
    let tval := toInt (g.stat.tsCurrent - g.stat.tsLast)
    if tval = 0 then ([], none)
    else
      let stat := withSpeeds g.stat tval
      let fmtstr := formatLine g.fmtstr stat
      let line := (load fmtstr 128).takeWhile (· ≠ 0)
      let logged := logTraffic fopen { g with stat := startPeriod stat, fmtstr }
      (.status line :: logged.1, logged.2)

/-- The report is due, and either its divisor is zero or it has a log entry to
write and no file to write it to. -/
def ReportFaults (fopen : Bool) (g : Globals) : Prop :=
  underThresholds g.stat = false ∧
    (toInt (g.stat.tsCurrent - g.stat.tsLast) = 0 ∨
      ((g.stat.tsCurrent.tdiv 1000000).tmod 2 = 0 ∧ g.tlLast ≠ 0 ∧ g.frec = false ∧ fopen = false))

theorem logTraffic_eq_none (fopen : Bool) (g : Globals) :
    (logTraffic fopen g).2 = none ↔
      (g.stat.tsCurrent.tdiv 1000000).tmod 2 = 0 ∧ g.tlLast ≠ 0 ∧ g.frec = false ∧ fopen = false := by
  by_cases heven : (g.stat.tsCurrent.tdiv 1000000).tmod 2 = 0
  · by_cases hlast : g.tlLast = 0
    · simp [logTraffic, heven, hlast]
    · cases hopen : g.frec || fopen with
      | true =>
        have hfile : ¬ (g.frec = false ∧ fopen = false) := by
          rw [← Bool.or_eq_false_iff, hopen]
          exact Bool.noConfusion
        simp [logTraffic, heven, hlast, hopen, hfile]
      | false =>
        have hfile := Bool.or_eq_false_iff.1 hopen
        simp [logTraffic, heven, hlast, hfile]
  · simp [logTraffic, heven]

theorem outputInfo_eq_none (fopen : Bool) (g : Globals) :
    (outputInfo fopen g).2 = none ↔ ReportFaults fopen g := by
  unfold ReportFaults
  cases hunder : underThresholds g.stat with
  | true => simp [outputInfo, hunder]
  | false =>
    by_cases hzero : toInt (g.stat.tsCurrent - g.stat.tsLast) = 0
    · simp [outputInfo, hunder, hzero]
    · simp only [outputInfo, hunder, hzero, Bool.false_eq_true, if_false, logTraffic_eq_none,
        true_and, false_or]
      rfl

theorem logTraffic_stat {fopen : Bool} {g g' : Globals} (h : (logTraffic fopen g).2 = some g') :
    g'.stat = g.stat := by
  unfold logTraffic at h
  simp only at h
  split_ifs at h <;> cases h <;> rfl

theorem outputInfo_totals {fopen : Bool} {g g' : Globals} (h : (outputInfo fopen g).2 = some g') :
    g'.stat.totalSend = g.stat.totalSend ∧ g'.stat.totalRecv = g.stat.totalRecv := by
  unfold outputInfo at h
  simp only at h
  split_ifs at h with hunder hzero
  · cases h
    exact ⟨rfl, rfl⟩
  · rw [logTraffic_stat h]
    exact ⟨rfl, rfl⟩

end SVpn.OutputInfo
