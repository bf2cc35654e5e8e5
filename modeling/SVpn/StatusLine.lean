import SVpn.NumberColumns
import SVpn.Reports

set_option autoImplicit false

/-!
What the status line shows. Four windows of a fixed template are filled anew by each
report; a window has places for eleven or seven digits and drops what is above them.
-/
namespace SVpn.StatusLine
open SVpn.Region SVpn.OutputInfo SVpn.ServerLoop SVpn.ServerSteps SVpn.ServerRuns
open SVpn.NumberColumns SVpn.Reports SVpn.SourceCheck SVpn.RoutingTable

/-- The places of the commas, counted from the right. -/
def marked (place : ℕ) : Bool := place % 4 = 3

def glyph : Column → UInt8
  | .blank => 32
  | .mark => 44
  | .digit d => UInt8.ofNat (48 + d)

def windowText (len n : ℕ) : List UInt8 := (columns 10 marked 0 len n).map glyph

structure Field where
  off : ℕ
  len : ℕ
  number : Tstat → ℤ

def fields : List Field :=
  [⟨5, 14, Tstat.totalSend⟩, ⟨22, 9, Tstat.speedSend⟩, ⟨42, 14, Tstat.totalRecv⟩,
    ⟨59, 9, Tstat.speedRecv⟩]

def readDigit (v : ℕ) (b : UInt8) : ℕ := 10 * v + (b.toNat - 48)

/-- The number in a window, its blanks and commas dropped. -/
def readField (line : List UInt8) (f : Field) : ℕ :=
  (((line.drop f.off).take f.len).filter fun b => b ≠ 32 ∧ b ≠ 44).foldl readDigit 0

def Outside (fs : List Field) (i : ℕ) : Prop := ∀ f ∈ fs, i < f.off ∨ f.off + f.len ≤ i

instance (fs : List Field) (i : ℕ) : Decidable (Outside fs i) :=
  inferInstanceAs (Decidable (∀ f ∈ fs, _))

/-- Each window reads back as its number, and the rest of the line, its end
included, is the template. -/
def Truthful (text : List UInt8) (st : Tstat) : Prop :=
  (∀ f ∈ fields, (readField text f : ℤ) = f.number st) ∧
    ∀ i, Outside fields i → text[i]? = template[i]?

def NonNegative (st : Tstat) : Prop := ∀ f ∈ fields, 0 ≤ f.number st

/-- Totals of at most eleven digits and speeds of at most seven. -/
structure FitsWindows (st : Tstat) : Prop where
  totalSend : st.totalSend < 10 ^ 11
  totalRecv : st.totalRecv < 10 ^ 11
  sendSpeed : speedOf (st.totalSend - st.lastSend) (st.tsCurrent - st.tsLast) < 10 ^ 7
  recvSpeed : speedOf (st.totalRecv - st.lastRecv) (st.tsCurrent - st.tsLast) < 10 ^ 7

theorem ofInt_digit (n : ℕ) : UInt8.ofInt (48 + (n : ℤ).tmod 10) = UInt8.ofNat (48 + n % 10) := by
  rw [UInt8.ofInt, Int.tmod_eq_emod_of_nonneg (by omega)]
  congr 1
  omega

/-- The loop writes the columns of its number. -/
theorem fillColumns_eq (off len left : ℕ) (n : ℕ) (s : Cells UInt8) (h : left ≤ len) :
    fillColumns off len left n s =
      store s off ((columns 10 marked (len - left) left n).map glyph) := by
  induction left generalizing n s with
  | zero => exact (store_nil s off).symm
  | succ left ih =>
    have hplace : len - (left + 1) + 1 = len - left := by omega
    have hzero : (n : ℤ) = 0 ↔ n = 0 := by omega
    have hmark : marked (len - (left + 1)) = decide ((len - (left + 1)) % 4 = 3) := rfl
    have hdiv : (n : ℤ).tdiv 10 = ((n / 10 : ℕ) : ℤ) := rfl
    have hlast : ∀ (k : ℕ) (c : Column),
        store (Function.update s (off + left) (glyph c)) off
          ((columns 10 marked (len - left) left k).map glyph) =
        store s off ((columns 10 marked (len - left) left k ++ [c]).map glyph) := by
      intro k c
      rw [List.map_append]
      have hupdate := store_update s off ((columns 10 marked (len - left) left k).map glyph) (glyph c)
      rw [List.length_map, length_columns] at hupdate
      exact hupdate
    unfold fillColumns columns
    simp only [hzero, hplace, hmark, decide_eq_true_eq, ofInt_digit, hdiv]
    split_ifs with hn hm
    · rw [ih _ _ (by omega)]
      exact hlast n .blank
    · rw [ih _ _ (by omega)]
      exact hlast n .mark
    · rw [ih _ _ (by omega)]
      exact hlast (n / 10) (.digit (n % 10))

theorem fillColumns_other (off len left : ℕ) (num : ℤ) (s : Cells UInt8) (i : ℕ)
    (h : i < off ∨ off + left ≤ i) : fillColumns off len left num s i = s i := by
  induction left generalizing num s with
  | zero => rfl
  | succ left ih =>
    unfold fillColumns
    split_ifs <;> rw [ih _ _ (by omega), Function.update_of_ne (by omega)]

theorem fillnum64_store (s : Cells UInt8) (off len : ℕ) {num : ℤ} (h : 0 ≤ num) :
    fillnum64 s off len num = store s off (windowText len num.toNat) := by
  have hfill := fillColumns_eq off len len num.toNat s (Nat.le_refl len)
  rw [Int.toNat_of_nonneg h, Nat.sub_self] at hfill
  exact hfill

theorem load_window (s : Cells UInt8) (off len : ℕ) {num : ℤ} (h : 0 ≤ num) :
    load (fun i => fillnum64 s off len num (off + i)) len = windowText len num.toNat := by
  have hlength : (windowText len num.toNat).length = len := by
    rw [windowText, List.length_map, length_columns]
  have hwindow := load_store_window s off (windowText len num.toNat)
  rw [hlength] at hwindow
  rw [fillnum64_store s off len h]
  exact hwindow

theorem toNat_digit {d : ℕ} (h : d < 10) : (UInt8.ofNat (48 + d)).toNat = 48 + d := by
  rw [UInt8.toNat_ofNat']
  omega

theorem glyph_ne_zero {c : Column} (h : ∀ d, c = .digit d → d < 10) : glyph c ≠ 0 := by
  cases c with
  | blank => decide
  | mark => decide
  | digit d =>
    intro hzero
    have hnat := toNat_digit (h d rfl)
    rw [show UInt8.ofNat (48 + d) = 0 from hzero] at hnat
    change 0 = 48 + d at hnat
    omega

theorem digit_lt_ten {len n : ℕ} {c : Column} (hc : c ∈ columns 10 marked 0 len n) (d : ℕ)
    (hd : c = .digit d) : d < 10 := by
  rw [hd] at hc
  exact digit_lt 10 marked (by omega) hc

theorem windowText_ne_zero {len n : ℕ} {b : UInt8} (h : b ∈ windowText len n) : b ≠ 0 := by
  obtain ⟨c, hc, rfl⟩ := List.mem_map.1 h
  exact glyph_ne_zero (digit_lt_ten hc)

/-- Reading the characters of columns is reading the columns. -/
theorem foldl_glyph (cs : List Column) (h : ∀ d, .digit d ∈ cs → d < 10) (v : ℕ) :
    ((cs.map glyph).filter fun b => b ≠ 32 ∧ b ≠ 44).foldl readDigit v =
      cs.foldl (readColumn 10) v := by
  induction cs generalizing v with
  | nil => rfl
  | cons c cs ih =>
    have hrest := ih (fun d hd => h d (List.mem_cons_of_mem c hd))
    cases c with
    | blank => exact hrest v
    | mark => exact hrest v
    | digit d =>
      have hd := toNat_digit (h d List.mem_cons_self)
      have hblank : UInt8.ofNat (48 + d) ≠ 32 := by
        intro heq
        rw [heq] at hd
        change 32 = 48 + d at hd
        omega
      have hcomma : UInt8.ofNat (48 + d) ≠ 44 := by
        intro heq
        rw [heq] at hd
        change 44 = 48 + d at hd
        omega
      have hdigit : readDigit v (UInt8.ofNat (48 + d)) = readColumn 10 v (.digit d) := by
        rw [readDigit, readColumn, hd]
        omega
      have hkeep : decide (UInt8.ofNat (48 + d) ≠ 32 ∧ UInt8.ofNat (48 + d) ≠ 44) = true :=
        decide_eq_true ⟨hblank, hcomma⟩
      rw [List.map_cons, glyph, List.filter_cons, if_pos hkeep, List.foldl_cons, List.foldl_cons, hdigit]
      exact hrest _

theorem read_windowText (len n : ℕ) :
    ((windowText len n).filter fun b => b ≠ 32 ∧ b ≠ 44).foldl readDigit 0 =
      n % 10 ^ digitPlaces marked 0 len := by
  rw [windowText, foldl_glyph _ (fun d hd => digit_lt 10 marked (by omega) hd)]
  exact value_columns 10 marked 0 len n

def fill (st : Tstat) (m : Cells UInt8) (f : Field) : Cells UInt8 :=
  fillnum64 m f.off f.len (f.number st)

/-- The two functions differ only in the type of their number. -/
theorem fillnum_eq (s : Cells UInt8) (off len : ℕ) (num : ℤ) :
    fillnum s off len num = fillnum64 s off len num := rfl

theorem formatLine_eq (m : Cells UInt8) (st : Tstat) :
    formatLine m st = fields.foldl (fill st) m := by
  rw [fields, List.foldl_cons, List.foldl_cons, List.foldl_cons, List.foldl_cons, List.foldl_nil,
    fill, fill, fill, fill, formatLine, fillnum_eq, fillnum_eq]

/-- The windows stand in order and do not meet. -/
def Ordered (fs : List Field) : Prop := fs.Pairwise fun f f' => f.off + f.len ≤ f'.off

theorem ordered_fields : Ordered fields := by
  simp [Ordered, fields]

theorem fills_outside (st : Tstat) {fs : List Field} {i : ℕ} (h : Outside fs i) (m : Cells UInt8) :
    fs.foldl (fill st) m i = m i := by
  induction fs generalizing m with
  | nil => rfl
  | cons f fs ih =>
    rw [List.foldl_cons, ih fun f' hf' => h f' (List.mem_cons_of_mem f hf')]
    exact fillColumns_other _ _ _ _ _ _ (h f List.mem_cons_self)

theorem fills_inside (st : Tstat) {fs : List Field} (horder : Ordered fs) {f : Field} (hf : f ∈ fs)
    (hnum : 0 ≤ f.number st) (m : Cells UInt8) :
    load (fun i => fs.foldl (fill st) m (f.off + i)) f.len = windowText f.len (f.number st).toNat := by
  induction fs generalizing m with
  | nil => exact absurd hf List.not_mem_nil
  | cons first fs ih =>
    obtain ⟨hfirst, hrest⟩ := List.pairwise_cons.1 horder
    rcases List.mem_cons.1 hf with rfl | hf
    · rw [← load_window m f.off f.len hnum]
      refine load_congr fun i hi => ?_
      have hlater : Outside fs (f.off + i) := by
        intro f' hf'
        have hafter := hfirst f' hf'
        omega
      rw [List.foldl_cons, fills_outside st hlater]
      rfl
    · exact ih hrest hf _

/-- Outside the windows the line in memory is the template, ended by zeros. -/
def Framed (m : Cells UInt8) : Prop :=
  ∀ i, Outside fields i → m i = store (fun _ => 0) 0 template i

theorem framed_formatLine {m : Cells UInt8} (h : Framed m) (st : Tstat) : Framed (formatLine m st) := by
  intro i hi
  rw [formatLine_eq, fills_outside st hi]
  exact h i hi

theorem length_template : template.length = 73 := by decide

theorem outside_of_end {i : ℕ} (h : 73 ≤ i) : Outside fields i := by
  simp [Outside, fields]
  omega

theorem inside_of_not_outside {i : ℕ} (h : ¬ Outside fields i) :
    ∃ f ∈ fields, ∃ j < f.len, i = f.off + j := by
  simp only [Outside, not_forall] at h
  obtain ⟨f, hf, hi⟩ := h
  exact ⟨f, hf, i - f.off, by omega, by omega⟩

theorem formatLine_ne_zero {m : Cells UInt8} (h : Framed m) {st : Tstat} (hst : NonNegative st)
    {i : ℕ} (hi : i < 73) : formatLine m st i ≠ 0 := by
  by_cases hout : Outside fields i
  · have hlt : i < template.length := by rw [length_template]; exact hi
    rw [framed_formatLine h st i hout, store_zero_lt _ _ _ hlt]
    have htemplate : template.all (· ≠ 0) = true := by decide
    exact of_decide_eq_true (List.all_eq_true.1 htemplate _ (List.getElem_mem hlt))
  · obtain ⟨f, hf, j, hj, rfl⟩ := inside_of_not_outside hout
    have hmem : formatLine m st (f.off + j) ∈ windowText f.len (f.number st).toNat := by
      rw [← fills_inside st ordered_fields hf (hst f hf) m, ← formatLine_eq]
      exact List.mem_map.2 ⟨j, List.mem_range.2 hj, rfl⟩
    exact windowText_ne_zero hmem

/-- A string in memory goes up to its first zero. -/
theorem takeWhile_load {m : Cells UInt8} {k n : ℕ} (hk : k < n) (hne : ∀ i < k, m i ≠ 0)
    (hend : m k = 0) : (load m n).takeWhile (· ≠ 0) = load m k := by
  obtain ⟨rest, rfl⟩ := Nat.exists_eq_add_of_le (Nat.le_of_lt hk)
  obtain ⟨rest, rfl⟩ : ∃ r, rest = 1 + r := ⟨rest - 1, by omega⟩
  rw [load_add, load_add, List.takeWhile_append_of_pos]
  · have hfirst : load (fun i => m (k + i)) 1 = [0] := by
      rw [← hend]
      rfl
    rw [hfirst]
    exact List.append_nil _
  · intro b hb
    obtain ⟨i, hi, rfl⟩ := List.mem_map.1 hb
    exact decide_eq_true (hne i (List.mem_range.1 hi))

def lineOf (m : Cells UInt8) : List UInt8 := (load m 128).takeWhile (· ≠ 0)

theorem lineOf_formatLine {m : Cells UInt8} (h : Framed m) {st : Tstat} (hst : NonNegative st) :
    lineOf (formatLine m st) = load (formatLine m st) 73 := by
  apply takeWhile_load (by decide) fun i hi => formatLine_ne_zero h hst hi
  rw [framed_formatLine h st 73 (outside_of_end (Nat.le_refl 73)),
    store_zero_ge _ _ _ (Nat.le_of_eq length_template)]

theorem readField_line {m : Cells UInt8} {st : Tstat} {f : Field} (hf : f ∈ fields)
    (hnum : 0 ≤ f.number st) : readField (load (formatLine m st) 73) f =
      (f.number st).toNat % 10 ^ digitPlaces marked 0 f.len := by
  have hend : f.len ≤ 73 - f.off := by
    revert hf
    simp only [fields, List.mem_cons, List.not_mem_nil, or_false]
    rintro (rfl | rfl | rfl | rfl) <;> decide
  have htake : (load (fun i => formatLine m st (f.off + i)) (73 - f.off)).take f.len =
      load (fun i => formatLine m st (f.off + i)) f.len := by
    obtain ⟨k, hk⟩ := Nat.exists_eq_add_of_le hend
    rw [hk, load_add, List.take_left' (length_load _ _)]
  rw [readField, drop_load, htake, formatLine_eq, fills_inside st ordered_fields hf hnum]
  exact read_windowText _ _

theorem readField_eq_iff {m : Cells UInt8} {st : Tstat} {f : Field} (hf : f ∈ fields)
    (hnum : 0 ≤ f.number st) : (readField (load (formatLine m st) 73) f : ℤ) = f.number st ↔
      f.number st < (10 ^ digitPlaces marked 0 f.len : ℕ) := by
  have hpow : 0 < 10 ^ digitPlaces marked 0 f.len := Nat.pow_pos (by decide)
  rw [readField_line hf hnum]
  generalize 10 ^ digitPlaces marked 0 f.len = bound at hpow ⊢
  rw [show ((f.number st).toNat % bound : ℕ) = (f.number st) ↔ (f.number st).toNat % bound =
    (f.number st).toNat by omega, Nat.mod_eq_iff_lt hpow.ne']
  omega

theorem frame_line {m : Cells UInt8} (h : Framed m) (st : Tstat) {i : ℕ} (hi : Outside fields i) :
    (load (formatLine m st) 73)[i]? = template[i]? := by
  rcases Nat.lt_or_ge i 73 with hlt | hge
  · have htemplate : i < template.length := by rw [length_template]; exact hlt
    rw [List.getElem?_eq_getElem (by rw [length_load]; exact hlt), getElem_load,
      List.getElem?_eq_getElem htemplate, framed_formatLine h st i hi, store_zero_lt _ _ _ htemplate]
  · rw [List.getElem?_eq_none (by rw [length_load]; exact hge),
      List.getElem?_eq_none (by rw [length_template]; exact hge)]

theorem forall_fields {P : Field → Prop} : (∀ f ∈ fields, P f) ↔
    P ⟨5, 14, Tstat.totalSend⟩ ∧ P ⟨22, 9, Tstat.speedSend⟩ ∧ P ⟨42, 14, Tstat.totalRecv⟩ ∧
      P ⟨59, 9, Tstat.speedRecv⟩ := by
  simp [fields]

theorem truthful_iff {m : Cells UInt8} (h : Framed m) {st : Tstat} (hst : NonNegative st) :
    Truthful (lineOf (formatLine m st)) st ↔ st.totalSend < 10 ^ 11 ∧ st.speedSend < 10 ^ 7 ∧
      st.totalRecv < 10 ^ 11 ∧ st.speedRecv < 10 ^ 7 := by
  have hwide : (10 ^ digitPlaces marked 0 14 : ℕ) = 10 ^ 11 := by decide
  have hnarrow : (10 ^ digitPlaces marked 0 9 : ℕ) = 10 ^ 7 := by decide
  have hfields : (∀ f ∈ fields, (readField (load (formatLine m st) 73) f : ℤ) = f.number st) ↔
      ∀ f ∈ fields, f.number st < (10 ^ digitPlaces marked 0 f.len : ℕ) :=
    forall₂_congr fun f hf => readField_eq_iff hf (hst f hf)
  unfold Truthful
  rw [lineOf_formatLine h hst, hfields, forall_fields, hwide, hnarrow]
  exact ⟨fun hline => hline.1, fun hfit => ⟨hfit, fun i hi => frame_line h st hi⟩⟩

theorem kept_framed : Kept fun g => Framed g.fmtstr where
  clock _ _ h := h
  send _ _ h := h
  recv _ _ _ h := h
  report fopen g g' h hreport := by
    unfold outputInfo at hreport
    simp only at hreport
    split_ifs at hreport with hunder hzero
    · cases hreport
      exact h
    · have hlog : ∀ {g₁ g₂ : Globals}, (logTraffic fopen g₁).2 = some g₂ → g₂.fmtstr = g₁.fmtstr := by
        intro g₁ g₂ hsome
        unfold logTraffic at hsome
        simp only at hsome
        split_ifs at hsome <;> cases hsome <;> rfl
      rw [hlog hreport]
      exact framed_formatLine h _

theorem framed_start (psc : SvpnServer) (buffer tmpBuffer : Cells UInt8) (clock : ℤ) :
    Framed (loopStart psc buffer tmpBuffer clock).globals.fmtstr := fun _ _ => rfl

theorem status_mem_iff {fopen : Bool} {g : Globals} {line : List UInt8} :
    .status line ∈ (outputInfo fopen g).1 ↔ underThresholds g.stat = false ∧
      toInt (g.stat.tsCurrent - g.stat.tsLast) ≠ 0 ∧ line = lineOf (formatLine g.fmtstr (computed g)) := by
  have hlog : ∀ g₁, .status line ∉ (logTraffic fopen g₁).1 := by
    intro g₁
    unfold logTraffic
    simp only
    split_ifs <;> simp
  unfold outputInfo
  simp only
  split_ifs with hunder hzero
  · simp [hunder]
  · simp [hzero]
  · simp only [List.mem_cons, Printed.status.injEq, hlog, or_false, hunder, ne_eq, hzero,
      not_false_eq_true, true_and]
    rfl

/-- Each line a run prints is truthful exactly if the numbers of its report fit. -/
theorem status_line_iff (psc : SvpnServer) (buffer tmpBuffer : Cells UInt8) (clock : ℤ)
    (inputs : List Select) (input : Select) (s : LoopState)
    (hrun : (svpnServerHandleThread outputInfo inputs (loopStart psc buffer tmpBuffer clock)).2 = some s)
    (fopen : Bool) (g : Globals) (hcall : Calls s input fopen g) (line : List UInt8)
    (hline : .status line ∈ (outputInfo fopen g).1) (hnonneg : NonNegative (computed g)) :
    Truthful line (computed g) ↔ FitsWindows g.stat := by
  have hframed := kept_framed.call (kept_framed.run (framed_start psc buffer tmpBuffer clock) hrun) hcall
  rw [(status_mem_iff.1 hline).2.2, truthful_iff hframed hnonneg]
  exact ⟨fun ⟨hsend, hsendSpeed, hrecv, hrecvSpeed⟩ => ⟨hsend, hrecv, hsendSpeed, hrecvSpeed⟩,
    fun h => ⟨h.totalSend, h.sendSpeed, h.totalRecv, h.recvSpeed⟩⟩

theorem nonNegative_iff {st : Tstat} : NonNegative st ↔
    0 ≤ st.totalSend ∧ 0 ≤ st.speedSend ∧ 0 ≤ st.totalRecv ∧ 0 ≤ st.speedRecv := forall_fields

theorem status_sample {clock : ℤ} (hdue : underThresholds (sampleCall clock).stat = false)
    (hdivisor : toInt clock ≠ 0) :
    .status (lineOf (formatLine (sampleCall clock).fmtstr (computed (sampleCall clock)))) ∈
      (outputInfo true (sampleCall clock)).1 := by
  refine status_mem_iff.2 ⟨hdue, ?_, rfl⟩
  change toInt (clock - 0) ≠ 0
  rwa [Int.sub_zero]

/-- Two seconds after the start 20 bytes make ten bytes a second. -/
theorem status_line_iff_sample :
    ∃ line, .status line ∈ (outputInfo true (sampleCall 2000000)).1 ∧
      Truthful line (computed (sampleCall 2000000)) := by
  have hshown := status_sample (show underThresholds (sampleCall 2000000).stat = false by decide) (by decide)
  refine ⟨_, hshown, ?_⟩
  refine (status_line_iff sampleServer (fun _ => 0) (fun _ => 0) 0 [] (sampleAt 2000000) sampleStart rfl
    true _ (calls_sample 2000000) _ hshown (nonNegative_iff.2 (by decide))).2 ?_
  exact ⟨by decide, by decide, by decide, by decide⟩

/-- A microsecond more than 2 ^ 32 after the start the same 20 bytes make twenty
million, of which the window shows 0,000,000. -/
theorem leading_digit_lost :
    ∃ g line, Calls sampleStart (sampleAt 4294967297) true g ∧
      .status line ∈ (outputInfo true g).1 ∧ NonNegative (computed g) ∧
      (computed g).speedSend = 20000000 ∧ readField line ⟨22, 9, Tstat.speedSend⟩ = 0 ∧
      ¬ Truthful line (computed g) := by
  have hshown := status_sample (show underThresholds (sampleCall 4294967297).stat = false by decide) (by decide)
  have hnonneg : NonNegative (computed (sampleCall 4294967297)) := nonNegative_iff.2 (by decide)
  have hframed : Framed (sampleCall 4294967297).fmtstr := fun _ _ => rfl
  have hspeed : (computed (sampleCall 4294967297)).speedSend = 20000000 := by decide
  have hwindow := lineOf_formatLine hframed hnonneg
  refine ⟨_, _, calls_sample 4294967297, hshown, hnonneg, hspeed, ?_, ?_⟩
  · have hfield : (⟨22, 9, Tstat.speedSend⟩ : Field) ∈ fields := by simp [fields]
    rw [hwindow, readField_line hfield (hnonneg _ hfield)]
    change (computed (sampleCall 4294967297)).speedSend.toNat % 10 ^ digitPlaces marked 0 9 = 0
    rw [hspeed]
    decide
  · rw [truthful_iff hframed hnonneg, hspeed]
    omega

end SVpn.StatusLine
