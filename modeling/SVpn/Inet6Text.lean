import SVpn.AddressText

set_option autoImplicit false

/-!
IPv6 addresses as text. `inet_ntop` replaces the longest run of zero words by `::` and
writes the last four bytes of an IPv4 address in decimal; each address can be read
back from its text.
-/
namespace SVpn.Inet6Text
open SVpn.OutputInfo SVpn.InetAddr SVpn.SetUp SVpn.AddressText

def colon : UInt8 := 58

def pair (hi lo : UInt8) : ℕ := hi.toNat * 256 + lo.toNat

/-- The eight words of an address. -/
def words (a : Vector UInt8 16) : List ℕ :=
  List.ofFn fun i : Fin 8 => pair (a.get ⟨2 * i.val, by omega⟩) (a.get ⟨2 * i.val + 1, by omega⟩)

structure ZeroRun where
  base : ℕ
  len : ℕ
  deriving DecidableEq

/-- The run that is open at the current word, and the longest one before it. -/
structure Scan where
  cur : Option ZeroRun
  best : Option ZeroRun

def Scan.close (s : Scan) : Option ZeroRun :=
  match s.cur, s.best with
  | none, best => best
  | some cur, none => some cur
  | some cur, some best => if best.len < cur.len then some cur else some best

def scanTurn (s : Scan) (i word : ℕ) : Scan :=
  if word = 0 then
    match s.cur with
    | none => { s with cur := some ⟨i, 1⟩ }
    | some cur => { s with cur := some { cur with len := cur.len + 1 } }
  else ⟨none, s.close⟩

def scanLoop : Scan → ℕ → List ℕ → Scan
  | s, _, [] => s
  | s, i, word :: ws => scanLoop (scanTurn s i word) (i + 1) ws

/-- The run that `::` stands for. -/
def bestRun (ws : List ℕ) : Option ZeroRun :=
  (scanLoop ⟨none, none⟩ 0 ws).close.filter fun run => 2 ≤ run.len

def hexByte (d : ℕ) : UInt8 := UInt8.ofNat (if d < 10 then 48 + d else 87 + d)

/-- `%x`. -/
def hex (word : ℕ) : List UInt8 :=
  if word = 0 then [48] else (Nat.digits 16 word).reverse.map hexByte

/-- The address is an IPv4 address in the clothes of an IPv6 one. -/
def encapsulated (best : Option ZeroRun) (ws : List ℕ) : Bool :=
  best.any fun run => run.base = 0 && (run.len = 6 || run.len = 5 && ws.getD 5 0 = 0xffff)

def inside (best : Option ZeroRun) (i : ℕ) : Bool :=
  best.any fun run => run.base ≤ i && i < run.base + run.len

/-- The loop over the words; `quad` is the text of an encapsulated address. -/
def formatLoop (best : Option ZeroRun) (quad : Option (List UInt8)) : ℕ → List ℕ → List UInt8
  | _, [] => []
  | i, word :: ws =>
    if inside best i then
      if best.any fun run => i = run.base then colon :: formatLoop best quad (i + 1) ws
      else formatLoop best quad (i + 1) ws
    else
      (if i ≠ 0 then [colon] else []) ++
        match quad with
        | some text => if i = 6 then text else hex word ++ formatLoop best quad (i + 1) ws
        | none => hex word ++ formatLoop best quad (i + 1) ws

def lastFour (a : Vector UInt8 16) : Vector UInt8 4 := #v[a.get 12, a.get 13, a.get 14, a.get 15]

/-- The text that `inet_ntop(PF_INET6, ..)` makes. -/
def ntopText (a : Vector UInt8 16) : List UInt8 :=
  let best := bestRun (words a)
  let quad := if encapsulated best (words a) then some (inetNtoa (lastFour a)) else none
  formatLoop best quad 0 (words a) ++
    if best.any fun run => run.base + run.len = 8 then [colon] else []

/-- `inet_ntop(PF_INET6, .., size)`: the text must leave room for a NUL. -/
def inetNtop (size : ℕ) (a : Vector UInt8 16) : Option (List UInt8) :=
  if (ntopText a).length + 1 ≤ size then some (ntopText a) else none

/-- The value of a hexadecimal digit. -/
def unhex (c : UInt8) : ℕ := if c.toNat < 58 then c.toNat - 48 else c.toNat - 87

def hexValue (text : List UInt8) : ℕ := text.foldl (fun v c => 16 * v + unhex c) 0

theorem hexByte_spec {d : ℕ} (h : d < 16) :
    unhex (hexByte d) = d ∧ hexByte d ≠ colon ∧ hexByte d ≠ dot ∧ 46 ≤ hexByte d := by
  have hall : ∀ d : Fin 16, unhex (hexByte d.val) = d.val ∧ hexByte d.val ≠ colon ∧
      hexByte d.val ≠ dot ∧ 46 ≤ hexByte d.val := by decide
  exact hall ⟨d, h⟩

theorem hex_ne_nil (word : ℕ) : hex word ≠ [] := by
  unfold hex
  split_ifs with hzero
  · exact List.cons_ne_nil _ _
  · simpa [Nat.digits_eq_nil_iff_eq_zero] using hzero

theorem mem_hex {word : ℕ} {c : UInt8} (h : c ∈ hex word) : ∃ d < 16, c = hexByte d := by
  unfold hex at h
  split_ifs at h with hzero
  · exact ⟨0, by decide, List.mem_singleton.1 h⟩
  · obtain ⟨d, hd, rfl⟩ := List.mem_map.1 h
    exact ⟨d, Nat.digits_lt_base (by decide) (List.mem_reverse.1 hd), rfl⟩

theorem hexValue_digits {ds : List ℕ} (h : ∀ d ∈ ds, d < 16) :
    hexValue (ds.reverse.map hexByte) = Nat.ofDigits 16 ds := by
  induction ds with
  | nil => rfl
  | cons d ds ih =>
    have hlast := ih fun e he => h e (List.mem_cons_of_mem d he)
    rw [List.reverse_cons, List.map_append, hexValue, List.foldl_append, ← hexValue, hlast,
      Nat.ofDigits_cons, Nat.add_comm]
    change 16 * Nat.ofDigits 16 ds + unhex (hexByte d) = _
    rw [(hexByte_spec (h d List.mem_cons_self)).1]

theorem hexValue_hex (word : ℕ) : hexValue (hex word) = word := by
  by_cases hzero : word = 0
  · rw [hzero]
    rfl
  · rw [hex, if_neg hzero, hexValue_digits fun d hd => Nat.digits_lt_base (by decide) hd,
      Nat.ofDigits_digits]

theorem words_length (a : Vector UInt8 16) : (words a).length = 8 := List.length_ofFn

/-- The bytes of eight words. -/
def ofWords (ws : List ℕ) : Vector UInt8 16 :=
  Vector.ofFn fun i =>
    UInt8.ofNat (if i.val % 2 = 0 then ws.getD (i.val / 2) 0 / 256 else ws.getD (i.val / 2) 0 % 256)

theorem ofNat_pair (hi lo : UInt8) :
    UInt8.ofNat (pair hi lo / 256) = hi ∧ UInt8.ofNat (pair hi lo % 256) = lo := by
  have hlt := lo.toNat_lt
  have hdiv : pair hi lo / 256 = hi.toNat := by
    unfold pair
    omega
  have hmod : pair hi lo % 256 = lo.toNat := by
    unfold pair
    omega
  rw [hdiv, hmod, UInt8.ofNat_toNat, UInt8.ofNat_toNat]
  exact ⟨rfl, rfl⟩

theorem ofWords_words (a : Vector UInt8 16) : ofWords (words a) = a := by
  ext i hi
  have hlt : i / 2 < 8 := by omega
  have hword : (words a).getD (i / 2) 0 =
      pair (a.get ⟨2 * (i / 2), by omega⟩) (a.get ⟨2 * (i / 2) + 1, by omega⟩) := by
    simp only [words, List.getD_eq_getElem?_getD, List.getElem?_ofFn, dif_pos hlt, Option.getD_some]
  rw [ofWords, Vector.getElem_ofFn, hword]
  by_cases heven : i % 2 = 0
  · have hfirst : 2 * (i / 2) = i := by omega
    rw [if_pos heven, (ofNat_pair _ _).1]
    simp only [hfirst]
    rfl
  · have hsecond : 2 * (i / 2) + 1 = i := by omega
    rw [if_neg heven, (ofNat_pair _ _).2]
    simp only [hsecond]
    rfl

/-- The run lies in the words and all its words are zero. -/
def Zeros (ws : List ℕ) (run : ZeroRun) : Prop :=
  run.base + run.len ≤ ws.length ∧
    ∀ j, run.base ≤ j → j < run.base + run.len → ws.getD j 0 = 0

structure Scanned (done : List ℕ) (s : Scan) : Prop where
  best : ∀ run ∈ s.best, Zeros done run
  cur : ∀ run ∈ s.cur, Zeros done run ∧ run.base + run.len = done.length

theorem Scanned.close {done : List ℕ} {s : Scan} (h : Scanned done s) :
    ∀ run ∈ s.close, Zeros done run := by
  intro run hrun
  unfold Scan.close at hrun
  split at hrun
  · rename_i hbest
    exact h.best run (by simpa using hrun)
  · rename_i hcur hbest
    obtain rfl := Option.some.inj hrun
    exact (h.cur _ hcur).1
  · rename_i hcur hbest
    split_ifs at hrun
    · obtain rfl := Option.some.inj hrun
      exact (h.cur _ hcur).1
    · obtain rfl := Option.some.inj hrun
      exact h.best _ hbest

theorem Zeros.append {done : List ℕ} {run : ZeroRun} (h : Zeros done run) (rest : List ℕ) :
    Zeros (done ++ rest) run := by
  refine ⟨?_, fun j hlow hhigh => ?_⟩
  · rw [List.length_append]
    exact h.1.trans (Nat.le_add_right _ _)
  · rw [List.getD_append _ _ _ _ (hhigh.trans_le h.1)]
    exact h.2 j hlow hhigh

theorem getD_concat (done : List ℕ) (word : ℕ) : (done ++ [word]).getD done.length 0 = word := by
  simp [List.getD_eq_getElem?_getD]

theorem Scanned.turn {done : List ℕ} {s : Scan} (h : Scanned done s) (word : ℕ) :
    Scanned (done ++ [word]) (scanTurn s done.length word) := by
  have hlength : (done ++ [word]).length = done.length + 1 := by simp
  unfold scanTurn
  split_ifs with hzero
  · cases hcur : s.cur with
    | none =>
      refine ⟨fun run hrun => (h.best run hrun).append _, fun run hrun => ?_⟩
      obtain rfl := Option.some.inj hrun
      refine ⟨⟨hlength.ge, fun j hlow hhigh => ?_⟩, hlength.symm⟩
      obtain rfl : j = done.length := by
        simp only at hlow hhigh
        omega
      rw [getD_concat, hzero]
    | some cur =>
      obtain ⟨hzeros, hend⟩ := h.cur cur hcur
      refine ⟨fun run hrun => (h.best run hrun).append _, fun run hrun => ?_⟩
      obtain rfl := Option.some.inj hrun
      have hnext : cur.base + (cur.len + 1) = (done ++ [word]).length := by
        rw [hlength, ← hend]
        omega
      refine ⟨⟨hnext.le, fun j hlow hhigh => ?_⟩, hnext⟩
      by_cases hlast : j = done.length
      · rw [hlast, getD_concat, hzero]
      · refine (hzeros.append [word]).2 j hlow ?_
        simp only at hhigh
        omega
  · exact ⟨fun run hrun => (h.close run hrun).append _, fun run hrun => by cases hrun⟩

theorem Scanned.loop {done : List ℕ} {s : Scan} (h : Scanned done s) (ws : List ℕ) :
    Scanned (done ++ ws) (scanLoop s done.length ws) := by
  induction ws generalizing done s with
  | nil => rwa [List.append_nil]
  | cons word ws ih =>
    have hturn := ih (h.turn word)
    rw [List.append_assoc, List.length_append] at hturn
    exact hturn

/-- What `::` stands for is a run of at least two zero words. -/
theorem bestRun_zeros {ws : List ℕ} {run : ZeroRun} (h : bestRun ws = some run) :
    Zeros ws run ∧ 2 ≤ run.len := by
  obtain ⟨hclose, hlen⟩ := Option.filter_eq_some_iff.1 h
  have hstart : Scanned [] ⟨none, none⟩ := ⟨nofun, nofun⟩
  exact ⟨(hstart.loop ws).close run hclose, by simpa using hlen⟩

theorem Zeros.split {ws : List ℕ} {run : ZeroRun} (h : Zeros ws run) :
    ws = ws.take run.base ++ (List.replicate run.len 0 ++ ws.drop (run.base + run.len)) := by
  have hmiddle : (ws.drop run.base).take run.len = List.replicate run.len 0 := by
    rw [List.eq_replicate_iff]
    have hlength := h.1
    refine ⟨by rw [List.length_take, List.length_drop]; omega, fun word hword => ?_⟩
    obtain ⟨j, hj, rfl⟩ := List.getElem_of_mem hword
    rw [List.length_take] at hj
    have hzero := h.2 (run.base + j) (Nat.le_add_right _ _) (by omega)
    rw [List.getD_eq_getElem?_getD, List.getElem?_eq_getElem (by omega), Option.getD_some] at hzero
    rw [List.getElem_take, List.getElem_drop, hzero]
  rw [← hmiddle, ← List.drop_drop, List.take_append_drop, List.take_append_drop]

/-- The fields from word `i` on. -/
def fieldsFrom (quad : Option (List UInt8)) : ℕ → List ℕ → List (List UInt8)
  | _, [] => []
  | i, word :: ws =>
    match quad with
    | some text => if i = 6 then [text] else hex word :: fieldsFrom quad (i + 1) ws
    | none => hex word :: fieldsFrom quad (i + 1) ws

/-- No field at all is read as one empty field. -/
def padded (fields : List (List UInt8)) : List (List UInt8) := if fields = [] then [[]] else fields

theorem fieldsFrom_none (i : ℕ) (ws : List ℕ) : fieldsFrom none i ws = ws.map hex := by
  induction ws generalizing i with
  | nil => rfl
  | cons word ws ih => exact congrArg (hex word :: ·) (ih (i + 1))

theorem formatLoop_outside {best : Option ZeroRun} (quad : Option (List UInt8)) {i : ℕ} (hi : 0 < i)
    (hbest : ∀ j, i ≤ j → inside best j = false) (ws : List ℕ) :
    formatLoop best quad i ws = (fieldsFrom quad i ws).flatMap (colon :: ·) := by
  induction ws generalizing i with
  | nil => rfl
  | cons word ws ih =>
    have hrest := ih (Nat.succ_pos i) fun j hj => hbest j (Nat.le_of_succ_le hj)
    have hne : i ≠ 0 := by omega
    cases quad with
    | none => simp [formatLoop, fieldsFrom, hbest i le_rfl, hne, hrest]
    | some text =>
      by_cases hsix : i = 6
      · subst i
        simp [formatLoop, fieldsFrom, hbest 6 le_rfl]
      · simp [formatLoop, fieldsFrom, hbest i le_rfl, hne, hsix, hrest]

theorem formatLoop_before {best : Option ZeroRun} {i : ℕ} (hi : 0 < i) {ws : List ℕ}
    (hbest : ∀ j, j < i + ws.length → inside best j = false) (rest : List ℕ) :
    formatLoop best none i (ws ++ rest) =
      (ws.map hex).flatMap (colon :: ·) ++ formatLoop best none (i + ws.length) rest := by
  induction ws generalizing i with
  | nil => rfl
  | cons word ws ih =>
    have hlength : i + (word :: ws).length = i + 1 + ws.length := by
      rw [List.length_cons]
      omega
    rw [hlength] at hbest ⊢
    have hne : i ≠ 0 := by omega
    simp [formatLoop, hbest i (by omega), hne, ih (Nat.succ_pos i) hbest]

/-- A run is passed over but for its first word. -/
theorem formatLoop_run {run : ZeroRun} (quad : Option (List UInt8)) {i n : ℕ} (hlow : run.base < i)
    (hhigh : i + n ≤ run.base + run.len) (rest : List ℕ) :
    formatLoop (some run) quad i (List.replicate n 0 ++ rest) =
      formatLoop (some run) quad (i + n) rest := by
  induction n generalizing i with
  | zero => rfl
  | succ n ih =>
    have hinside : inside (some run) i = true := by
      simp only [inside, Option.any_some, Bool.and_eq_true, decide_eq_true_eq]
      omega
    have hbase : i ≠ run.base := by omega
    have hnext := ih (Nat.lt_succ_of_lt hlow) (by omega)
    have hsum : i + (n + 1) = i + 1 + n := by omega
    rw [hsum, ← hnext, List.replicate_succ, List.cons_append]
    simp [formatLoop, hinside, hbase]

theorem fieldsFrom_eq_nil {quad : Option (List UInt8)} {i : ℕ} {ws : List ℕ} :
    fieldsFrom quad i ws = [] ↔ ws = [] := by
  cases ws with
  | nil => exact ⟨fun _ => rfl, fun _ => rfl⟩
  | cons word ws =>
    cases quad with
    | none => simp [fieldsFrom]
    | some text => by_cases hsix : i = 6 <;> simp [fieldsFrom, hsix]

theorem intercalate_cons (field : List UInt8) (fields : List (List UInt8)) :
    [colon].intercalate (field :: fields) = field ++ fields.flatMap (colon :: ·) := by
  induction fields generalizing field with
  | nil => simp
  | cons next fields ih =>
    rw [List.intercalate_cons_cons, ih next, List.flatMap_cons]
    simp

theorem flatMap_colon {fields : List (List UInt8)} (h : fields ≠ []) :
    fields.flatMap (colon :: ·) = colon :: [colon].intercalate fields := by
  cases fields with
  | nil => exact absurd rfl h
  | cons field fields => rw [intercalate_cons, List.flatMap_cons, List.cons_append]

theorem intercalate_append {xs ys : List (List UInt8)} (hx : xs ≠ []) (hy : ys ≠ []) :
    [colon].intercalate (xs ++ ys) = [colon].intercalate xs ++ colon :: [colon].intercalate ys := by
  cases xs with
  | nil => exact absurd rfl hx
  | cons field xs =>
    rw [List.cons_append, intercalate_cons, intercalate_cons, List.flatMap_append, flatMap_colon hy,
      List.append_assoc]

theorem intercalate_padded (fields : List (List UInt8)) :
    [colon].intercalate (padded fields) = [colon].intercalate fields := by
  unfold padded
  split_ifs with h
  · rw [h]
    rfl
  · rfl

theorem padded_ne_nil (fields : List (List UInt8)) : padded fields ≠ [] := by
  unfold padded
  split_ifs with h
  · exact List.cons_ne_nil _ _
  · exact h

/-- The fields between the colons of the text of an address. -/
def fields (a : Vector UInt8 16) : List (List UInt8) :=
  match bestRun (words a) with
  | none => (words a).map hex
  | some run =>
    let quad := if encapsulated (some run) (words a) then some (inetNtoa (lastFour a)) else none
    let right := fieldsFrom quad (run.base + run.len) ((words a).drop (run.base + run.len))
    padded (((words a).take run.base).map hex) ++ [] :: padded right

theorem formatLoop_left {best : Option ZeroRun} {ws : List ℕ}
    (hbest : ∀ j, j < ws.length → inside best j = false) (rest : List ℕ) :
    formatLoop best none 0 (ws ++ rest) =
      [colon].intercalate (ws.map hex) ++ formatLoop best none ws.length rest := by
  cases ws with
  | nil => rfl
  | cons word ws =>
    have hlength : (word :: ws).length = 1 + ws.length := by
      rw [List.length_cons]
      omega
    rw [hlength] at hbest ⊢
    rw [List.map_cons, intercalate_cons, List.append_assoc,
      ← formatLoop_before Nat.one_pos hbest rest]
    simp [formatLoop, hbest 0 (by omega)]

theorem formatLoop_zeros {run : ZeroRun} (quad : Option (List UInt8)) (hlen : 2 ≤ run.len)
    (rest : List ℕ) :
    formatLoop (some run) quad run.base (List.replicate run.len 0 ++ rest) =
      colon :: formatLoop (some run) quad (run.base + run.len) rest := by
  obtain ⟨n, hn⟩ : ∃ n, run.len = n + 1 := ⟨run.len - 1, by omega⟩
  have hinside : inside (some run) run.base = true := by
    simp only [inside, Option.any_some, Bool.and_eq_true, decide_eq_true_eq]
    omega
  have hrun := formatLoop_run quad (n := n) (Nat.lt_succ_self run.base) (by omega) rest
  have hsum : run.base + run.len = run.base + 1 + n := by omega
  rw [hsum, ← hrun, hn, List.replicate_succ, List.cons_append]
  simp [formatLoop, hinside]

theorem ntopText_eq (a : Vector UInt8 16) : ntopText a = [colon].intercalate (fields a) := by
  unfold ntopText fields
  cases hbest : bestRun (words a) with
  | none =>
    have hall := @formatLoop_left none (words a) (fun _ _ => rfl) []
    simpa [encapsulated, formatLoop] using hall
  | some run =>
    obtain ⟨hzeros, hlen⟩ := bestRun_zeros hbest
    have hbounded := hzeros.1
    have hleft : ((words a).take run.base).length = run.base := by
      rw [List.length_take]
      omega
    simp only
    generalize hquad : (if encapsulated (some run) (words a) then
      some (inetNtoa (lastFour a)) else none) = quad
    have hstart : formatLoop (some run) quad 0 (words a) =
        [colon].intercalate (((words a).take run.base).map hex) ++ formatLoop (some run) quad run.base
          (List.replicate run.len 0 ++ (words a).drop (run.base + run.len)) := by
      conv_lhs => rw [hzeros.split]
      by_cases hbase : run.base = 0
      · simp [hbase]
      · have hplain : quad = none := by
          rw [← hquad]
          simp [encapsulated, hbase]
        have hbefore : ∀ j, j < ((words a).take run.base).length → inside (some run) j = false := by
          intro j hj
          rw [hleft] at hj
          simp only [inside, Option.any_some, Bool.and_eq_false_iff, decide_eq_false_iff_not]
          omega
        rw [hplain, formatLoop_left hbefore, hleft]
    have hbeyond : ∀ j, run.base + run.len ≤ j → inside (some run) j = false := by
      intro j hj
      simp only [inside, Option.any_some, Bool.and_eq_false_iff, decide_eq_false_iff_not]
      omega
    have hright := formatLoop_outside quad (by omega) hbeyond ((words a).drop (run.base + run.len))
    have hend : (fieldsFrom quad (run.base + run.len) ((words a).drop (run.base + run.len)) = []) ↔
        run.base + run.len = 8 := by
      rw [fieldsFrom_eq_nil, List.drop_eq_nil_iff, words_length]
      rw [words_length] at hbounded
      omega
    rw [hstart, formatLoop_zeros quad hlen, hright, intercalate_append (padded_ne_nil _)
      (List.cons_ne_nil _ _), intercalate_cons, flatMap_colon (padded_ne_nil _), intercalate_padded,
      intercalate_padded, Option.any_some, List.nil_append, List.append_assoc, List.cons_append]
    congr 2
    by_cases hlast : run.base + run.len = 8
    · rw [hend.2 hlast]
      simp [hlast]
    · rw [flatMap_colon (mt hend.1 hlast)]
      simp [hlast]

/-- The words of one field, two where it is an IPv4 address. -/
def wordsOf (field : List UInt8) : List ℕ :=
  match inetPton field with
  | some quad => [pair (quad.get 0) (quad.get 1), pair (quad.get 2) (quad.get 3)]
  | none => [hexValue field]

/-- The eight words of a text, with zeros in place of an empty field. -/
def readWords (text : List UInt8) : List ℕ :=
  let left := (text.splitOn colon).takeWhile (· ≠ [])
  let right := ((text.splitOn colon).drop left.length).filter (· ≠ [])
  let before := left.flatMap wordsOf
  let after := right.flatMap wordsOf
  before ++ (List.replicate (8 - (before.length + after.length)) 0 ++ after)

def readAddress (text : List UInt8) : Vector UInt8 16 := ofWords (readWords text)

/-- A character of an address. -/
def Legal (c : UInt8) : Prop := c = dot ∨ ∃ d < 16, c = hexByte d

theorem Legal.ne_colon {c : UInt8} (h : Legal c) : c ≠ colon := by
  rcases h with rfl | ⟨d, hd, rfl⟩
  · decide
  · exact (hexByte_spec hd).2.1

theorem legal_hex {word : ℕ} {c : UInt8} (h : c ∈ hex word) : Legal c := .inr (mem_hex h)

theorem dot_notMem_hex (word : ℕ) : dot ∉ hex word := by
  intro h
  obtain ⟨d, hd, heq⟩ := mem_hex h
  exact (hexByte_spec hd).2.2.1 heq.symm

theorem legal_octet {b c : UInt8} (h : c ∈ octet b) : Legal c := by
  have hdigit := (Stdio.isDigit_iff c).1 ((numeral_octet b).isDigit c h)
  refine .inr ⟨c.toNat - 48, by omega, ?_⟩
  have hsum : 48 + (c.toNat - 48) = c.toNat := by omega
  rw [hexByte, if_pos (by omega), hsum, UInt8.ofNat_toNat]

theorem legal_inetNtoa {v : Vector UInt8 4} {c : UInt8} (h : c ∈ inetNtoa v) : Legal c := by
  obtain ⟨w, x, y, z, rfl⟩ := exists_octets v
  rw [inetNtoa_eq, dotted_eq_written, written, List.mem_append, List.mem_flatMap] at h
  rcases h with ⟨b, -, hc⟩ | hc
  · rcases List.mem_append.1 hc with hc | hc
    · exact legal_octet hc
    · exact .inl (List.mem_singleton.1 hc)
  · exact legal_octet hc

theorem dot_mem_inetNtoa (v : Vector UInt8 4) : dot ∈ inetNtoa v := by
  obtain ⟨w, x, y, z, rfl⟩ := exists_octets v
  rw [inetNtoa_eq, dotted_eq_written]
  simp [written]

theorem wordsOf_hex (word : ℕ) : wordsOf (hex word) = [word] := by
  have hnone : inetPton (hex word) = none := by
    cases hquad : inetPton (hex word) with
    | none => rfl
    | some quad => exact absurd (inetPton_eq_some.1 hquad ▸ dot_mem_inetNtoa quad) (dot_notMem_hex word)
  rw [wordsOf, hnone, hexValue_hex]

theorem wordsOf_inetNtoa (v : Vector UInt8 4) :
    wordsOf (inetNtoa v) = [pair (v.get 0) (v.get 1), pair (v.get 2) (v.get 3)] := by
  rw [wordsOf, inetPton_inetNtoa]

theorem flatMap_wordsOf_hex (ws : List ℕ) : (ws.map hex).flatMap wordsOf = ws := by
  induction ws with
  | nil => rfl
  | cons word ws ih => rw [List.map_cons, List.flatMap_cons, wordsOf_hex, ih, List.singleton_append]

theorem flatMap_wordsOf_quad (a : Vector UInt8 16) {i n : ℕ} (h : i + n = 6) :
    (fieldsFrom (some (inetNtoa (lastFour a))) i ((words a).drop i)).flatMap wordsOf =
      (words a).drop i := by
  induction n generalizing i with
  | zero =>
    obtain rfl : i = 6 := h
    have hlast : (words a).drop 6 = [pair (a.get 12) (a.get 13), pair (a.get 14) (a.get 15)] := rfl
    have hquad : wordsOf (inetNtoa (lastFour a)) =
        [pair (a.get 12) (a.get 13), pair (a.get 14) (a.get 15)] := wordsOf_inetNtoa (lastFour a)
    rw [hlast]
    simp [fieldsFrom, hquad]
  | succ n ih =>
    have hlt : i < (words a).length := by
      rw [words_length]
      omega
    have hne : i ≠ 6 := by omega
    rw [List.drop_eq_getElem_cons hlt]
    simp [fieldsFrom, hne, wordsOf_hex, ih (i := i + 1) (by omega)]

theorem mem_fieldsFrom {quad : Option (List UInt8)} {i : ℕ} {ws : List ℕ} {field : List UInt8}
    (h : field ∈ fieldsFrom quad i ws) : quad = some field ∨ ∃ word, field = hex word := by
  induction ws generalizing i with
  | nil => cases h
  | cons word ws ih =>
    cases quad with
    | none =>
      rw [fieldsFrom_none, List.mem_map] at h
      obtain ⟨word, -, rfl⟩ := h
      exact .inr ⟨word, rfl⟩
    | some text =>
      by_cases hsix : i = 6
      · simp only [fieldsFrom, hsix, if_true, List.mem_singleton] at h
        exact .inl (congrArg some h.symm)
      · simp only [fieldsFrom, hsix, if_false, List.mem_cons] at h
        rcases h with rfl | h
        · exact .inr ⟨word, rfl⟩
        · exact ih h

/-- The fields of an address before and after its run. -/
structure Parts (a : Vector UInt8 16) (left right : List (List UInt8)) : Prop where
  legal : ∀ field ∈ left ++ right, field ≠ [] ∧ ∀ c ∈ field, Legal c
  words : ∃ n, words a = left.flatMap wordsOf ++ (List.replicate n 0 ++ right.flatMap wordsOf)

theorem legal_field {word : ℕ} : hex word ≠ [] ∧ ∀ c ∈ hex word, Legal c :=
  ⟨hex_ne_nil word, fun _ => legal_hex⟩

theorem legal_quad (v : Vector UInt8 4) : inetNtoa v ≠ [] ∧ ∀ c ∈ inetNtoa v, Legal c :=
  ⟨List.ne_nil_of_mem (dot_mem_inetNtoa v), fun _ => legal_inetNtoa⟩

theorem fields_parts (a : Vector UInt8 16) :
    (∃ left, left ≠ [] ∧ Parts a left [] ∧ fields a = left) ∨
      ∃ left right, Parts a left right ∧ fields a = padded left ++ [] :: padded right := by
  unfold fields
  cases hbest : bestRun (words a) with
  | none =>
    refine .inl ⟨_, ?_, ⟨?_, 0, ?_⟩, rfl⟩
    · exact List.ne_nil_of_length_eq_add_one (by rw [List.length_map, words_length])
    · intro field hfield
      rw [List.append_nil, List.mem_map] at hfield
      obtain ⟨word, -, rfl⟩ := hfield
      exact legal_field
    · simp [flatMap_wordsOf_hex]
  | some run =>
    obtain ⟨hzeros, -⟩ := bestRun_zeros hbest
    refine .inr ⟨_, _, ⟨?_, run.len, ?_⟩, rfl⟩
    · intro field hfield
      rcases List.mem_append.1 hfield with hfield | hfield
      · obtain ⟨word, -, rfl⟩ := List.mem_map.1 hfield
        exact legal_field
      · rcases mem_fieldsFrom hfield with hquad | ⟨word, rfl⟩
        · split_ifs at hquad
          obtain rfl := Option.some.inj hquad
          exact legal_quad _
        · exact legal_field
    · rw [flatMap_wordsOf_hex]
      by_cases hquad : encapsulated (some run) (words a) = true
      · have hsix : run.base + run.len ≤ 6 := by
          simp [encapsulated] at hquad
          omega
        obtain ⟨n, hn⟩ := Nat.exists_eq_add_of_le hsix
        rw [if_pos hquad, flatMap_wordsOf_quad a hn.symm]
        exact hzeros.split
      · rw [if_neg hquad, fieldsFrom_none, flatMap_wordsOf_hex]
        exact hzeros.split

theorem takeWhile_padded {left : List (List UInt8)} (h : ∀ field ∈ left, field ≠ [])
    (rest : List (List UInt8)) :
    (padded left ++ [] :: rest).takeWhile (· ≠ []) = left := by
  unfold padded
  split_ifs with hleft
  · rw [hleft]
    rfl
  · rw [List.takeWhile_append_of_pos (by simpa using h)]
    simp

theorem filter_padded {right : List (List UInt8)} (h : ∀ field ∈ right, field ≠ []) :
    (padded right).filter (· ≠ []) = right := by
  unfold padded
  split_ifs with hright
  · rw [hright]
    rfl
  · exact List.filter_eq_self.2 (by simpa using h)

theorem filter_drop_padded {left right : List (List UInt8)} (h : ∀ field ∈ right, field ≠ []) :
    ((padded left ++ [] :: padded right).drop left.length).filter (· ≠ []) = right := by
  by_cases hleft : left = []
  · rw [hleft]
    exact filter_padded h
  · rw [padded, if_neg hleft, List.drop_left]
    exact filter_padded h

theorem colon_notMem_padded {fields : List (List UInt8)} (h : ∀ field ∈ fields, colon ∉ field) :
    ∀ field ∈ padded fields, colon ∉ field := by
  unfold padded
  split_ifs with hnone
  · simp
  · exact h

theorem splitOn_ntopText (a : Vector UInt8 16) : (ntopText a).splitOn colon = fields a := by
  have hcolon : ∀ {left right : List (List UInt8)}, Parts a left right →
      ∀ field ∈ left ++ right, colon ∉ field :=
    fun hparts field hfield hmem => ((hparts.legal field hfield).2 colon hmem).ne_colon rfl
  rw [ntopText_eq]
  rcases fields_parts a with ⟨left, hleft, hparts, heq⟩ | ⟨left, right, hparts, heq⟩
  · rw [heq]
    exact List.splitOn_intercalate colon
      (fun field hfield => hcolon hparts field (List.mem_append_left _ hfield)) hleft
  · rw [heq]
    refine List.splitOn_intercalate colon ?_ (by simp [padded_ne_nil])
    intro field hfield
    rcases List.mem_append.1 hfield with hfield | hfield
    · exact colon_notMem_padded (fun f hf => hcolon hparts f (List.mem_append_left _ hf)) field hfield
    · rcases List.mem_cons.1 hfield with rfl | hfield
      · exact List.not_mem_nil
      · exact colon_notMem_padded (fun f hf => hcolon hparts f (List.mem_append_right _ hf)) field hfield

theorem readWords_ntopText (a : Vector UInt8 16) : readWords (ntopText a) = words a := by
  have hread : ∀ {left right : List (List UInt8)}, Parts a left right →
      (fields a).takeWhile (· ≠ []) = left →
      ((fields a).drop left.length).filter (· ≠ []) = right →
      readWords (ntopText a) = words a := by
    intro left right hparts hleft hright
    obtain ⟨n, hwords⟩ := hparts.words
    have hlength := congrArg List.length hwords
    rw [words_length, List.length_append, List.length_append, List.length_replicate] at hlength
    have hn : 8 - ((left.flatMap wordsOf).length + (right.flatMap wordsOf).length) = n := by omega
    unfold readWords
    simp only [splitOn_ntopText]
    rw [hleft, hright, hn, ← hwords]
  rcases fields_parts a with ⟨left, -, hparts, heq⟩ | ⟨left, right, hparts, heq⟩
  · have hall : ∀ field ∈ left, field ≠ [] :=
      fun field hfield => (hparts.legal field (List.mem_append_left _ hfield)).1
    refine hread hparts ?_ ?_
    · rw [heq]
      exact List.takeWhile_eq_self_iff.2 (by simpa using hall)
    · rw [heq, List.drop_length]
      rfl
  · refine hread hparts ?_ ?_
    · rw [heq]
      exact takeWhile_padded
        (fun field hfield => (hparts.legal field (List.mem_append_left _ hfield)).1) _
    · rw [heq]
      exact filter_drop_padded
        fun field hfield => (hparts.legal field (List.mem_append_right _ hfield)).1

/-- Every address can be read back from its text. -/
theorem readAddress_ntopText (a : Vector UInt8 16) : readAddress (ntopText a) = a := by
  rw [readAddress, readWords_ntopText, ofWords_words]

theorem mem_intercalate {c : UInt8} {fields : List (List UInt8)}
    (h : c ∈ [colon].intercalate fields) : c = colon ∨ ∃ field ∈ fields, c ∈ field := by
  cases fields with
  | nil => cases h
  | cons field fields =>
    rw [intercalate_cons, List.mem_append, List.mem_flatMap] at h
    rcases h with h | ⟨next, hnext, h⟩
    · exact .inr ⟨field, List.mem_cons_self, h⟩
    · rcases List.mem_cons.1 h with rfl | h
      · exact .inl rfl
      · exact .inr ⟨next, List.mem_cons_of_mem _ hnext, h⟩

theorem mem_padded {c : UInt8} {field : List UInt8} {fields : List (List UInt8)}
    (hfield : field ∈ padded fields) (hc : c ∈ field) : field ∈ fields := by
  unfold padded at hfield
  split_ifs at hfield with hnone
  · rw [List.mem_singleton.1 hfield] at hc
    cases hc
  · exact hfield

theorem Legal.le {c : UInt8} (h : Legal c) : 46 ≤ c := by
  rcases h with rfl | ⟨d, hd, rfl⟩
  · decide
  · exact (hexByte_spec hd).2.2.2

/-- The characters of a text come after the blanks, the digits' marks and the brackets. -/
theorem le_ntopText {a : Vector UInt8 16} {c : UInt8} (h : c ∈ ntopText a) : 46 ≤ c := by
  rw [ntopText_eq] at h
  rcases mem_intercalate h with rfl | ⟨field, hfield, hc⟩
  · decide
  apply Legal.le
  rcases fields_parts a with ⟨left, -, hparts, heq⟩ | ⟨left, right, hparts, heq⟩
  · rw [heq] at hfield
    exact (hparts.legal field (List.mem_append_left _ hfield)).2 c hc
  · rw [heq, List.mem_append, List.mem_cons] at hfield
    rcases hfield with hfield | rfl | hfield
    · exact (hparts.legal field (List.mem_append_left _ (mem_padded hfield hc))).2 c hc
    · cases hc
    · exact (hparts.legal field (List.mem_append_right _ (mem_padded hfield hc))).2 c hc

/-- The address under which an IPv6 socket sees an IPv4 host. -/
def mapped (v : Vector UInt8 4) : Vector UInt8 16 :=
  #v[0, 0, 0, 0, 0, 0, 0, 0, 0, 0, 255, 255, v.get 0, v.get 1, v.get 2, v.get 3]

theorem words_mapped (v : Vector UInt8 4) :
    words (mapped v) = [0, 0, 0, 0, 0, 0xffff, pair (v.get 0) (v.get 1), pair (v.get 2) (v.get 3)] := by
  have hzero : pair 0 0 = 0 := rfl
  have hones : pair 255 255 = 0xffff := by decide
  have hpairs : words (mapped v) = [pair 0 0, pair 0 0, pair 0 0, pair 0 0, pair 0 0, pair 255 255,
    pair (v.get 0) (v.get 1), pair (v.get 2) (v.get 3)] := rfl
  rw [hpairs, hzero, hones]

/-- Two words at the end cannot make a longer run than the first five. -/
theorem bestRun_mapped (v : Vector UInt8 4) : bestRun (words (mapped v)) = some ⟨0, 5⟩ := by
  rw [words_mapped]
  generalize pair (v.get 0) (v.get 1) = p
  generalize pair (v.get 2) (v.get 3) = q
  by_cases hp : p = 0
  · by_cases hq : q = 0
    · subst p q
      rfl
    · subst p
      simp [bestRun, scanLoop, scanTurn, Scan.close, hq]
  · by_cases hq : q = 0
    · subst q
      simp [bestRun, scanLoop, scanTurn, Scan.close, hp]
    · simp [bestRun, scanLoop, scanTurn, Scan.close, hp, hq]

theorem ntopText_mapped (v : Vector UInt8 4) :
    ntopText (mapped v) = chars "::ffff:" ++ inetNtoa v := by
  have hfour : lastFour (mapped v) = v := by
    ext i hi
    interval_cases i <;> rfl
  have hones : hex 0xffff = chars "ffff" := by decide +kernel
  have hquad : encapsulated (some ⟨0, 5⟩) (words (mapped v)) = true := by
    simp [encapsulated, words_mapped]
  unfold ntopText
  rw [bestRun_mapped]
  simp only [hquad, if_true, hfour]
  rw [words_mapped]
  have hmark : chars "::ffff:" = colon :: colon :: (chars "ffff" ++ [colon]) := by decide
  simp [formatLoop, inside, hones, hmark]

theorem length_octet_le (b : UInt8) : (octet b).length ≤ 3 := by
  have hall : ∀ i : Fin 256,
      ((Nat.toDigits 10 i.val).map fun c => UInt8.ofNat c.toNat).length ≤ 3 := by decide +kernel
  have hchars : octet b = (Nat.toDigits 10 b.toNat).map fun c => UInt8.ofNat c.toNat := by
    simp [octet, chars, toString, Nat.repr]
  rw [hchars]
  exact hall b.toFin

theorem length_inetNtoa_le (v : Vector UInt8 4) : (inetNtoa v).length ≤ 15 := by
  obtain ⟨w, x, y, z, rfl⟩ := exists_octets v
  have hw := length_octet_le w
  have hx := length_octet_le x
  have hy := length_octet_le y
  have hz := length_octet_le z
  rw [inetNtoa_eq, dotted_eq_written]
  simp [written]
  omega

theorem length_ntopText_mapped (v : Vector UInt8 4) : (ntopText (mapped v)).length ≤ 22 := by
  have hmark : (chars "::ffff:").length = 7 := by decide
  have hquad := length_inetNtoa_le v
  rw [ntopText_mapped, List.length_append, hmark]
  omega

theorem length_intercalate {fields : List (List UInt8)} (h : fields ≠ []) :
    ([colon].intercalate fields).length + 1 = (fields.map List.length).sum + fields.length := by
  cases fields with
  | nil => exact absurd rfl h
  | cons field fields =>
    rw [intercalate_cons, List.length_append, List.length_flatMap, List.map_cons, List.sum_cons,
      List.length_cons]
    have hcolons : (fields.map fun next => (colon :: next).length).sum =
        (fields.map List.length).sum + fields.length := by
      induction fields with
      | nil => rfl
      | cons next fields ih =>
        rw [List.map_cons, List.sum_cons, ih (List.cons_ne_nil _ _), List.map_cons, List.sum_cons,
          List.length_cons, List.length_cons]
        omega
    rw [hcolons]
    omega

/-- Without two zero words in a row every word is written out. -/
theorem length_ntopText_plain {a : Vector UInt8 16} (h : bestRun (words a) = none) :
    (ntopText a).length = ((words a).map fun word => (hex word).length).sum + 7 := by
  have hfields : fields a = (words a).map hex := by
    unfold fields
    rw [h]
  have hne : (words a).map hex ≠ [] :=
    List.ne_nil_of_length_eq_add_one (by rw [List.length_map, words_length])
  have hlength := length_intercalate hne
  rw [List.map_map, List.length_map, words_length] at hlength
  rw [ntopText_eq, hfields]
  exact Nat.succ.inj hlength

end SVpn.Inet6Text
