import SVpn.UserTurns

set_option autoImplicit false

/-!
The arrays that `svpn_server_init_client` uses while it reads an arbitrary text: the buffer
for the words and the clients of the server.
-/
namespace SVpn.ReaderBounds
open SVpn.Region SVpn.Crypt SVpn.OutputInfo SVpn.ServerLoop SVpn.ServerSteps SVpn.BoundedLoop
open SVpn.Stdio SVpn.ConfigReader SVpn.ConfigGrammar SVpn.ConfigAgreement SVpn.UserTurns

/-- The turn begins with a user line that gives this number as its id. -/
def GivesId (fin : Stream) (n : ℤ) : Prop :=
  ∃ word, (scanWord fin).value = some word ∧ strcaseEq (asString word) (chars "user") = true ∧
    (scanInt (scanWord fin).rest).value = some n

/-- The turn stays inside both arrays, and skips a line with an id outside the range without
a use of the clients. -/
structure TurnInside (memory : Memory) (r : Reader SvpnServer) : Prop where
  accesses : ∀ a ∈ (recordedTurn memory r).accesses, a.Inside
  skips : ∀ n, GivesId r.fin n → ¬ InRange n →
    (∀ id, Access.clients id ∉ (recordedTurn memory r).accesses) ∧
      ∃ r', usersTurn memory r = .again r' ∧ r'.found = r.found

def StaysInside (memory : Memory) (stack : Cells UInt8) (psc : SvpnServer) (text : Stream) : Prop :=
  ∀ r, Visits (usersTurn memory) ⟨text, stack, clearClients psc⟩ r → TurnInside memory r

/-- What one turn takes from a text: its first word, a number after the word `user`, and a
password where the id is free. -/
structure Entry where
  word : List UInt8
  number : Option ℤ
  password : Option (List UInt8)
  rest : Stream

def nextEntry (taken : List ℤ) (fin : Stream) : Option Entry :=
  (scanWord fin).value.map fun word =>
    let fin := (scanWord fin).rest
    if strcaseEq (asString word) (chars "user") then
      match (scanInt fin).value with
      | none => ⟨word, none, none, (scanInt fin).rest⟩
      | some n =>
        let second := scanWord (scanInt fin).rest
        if toInt n ∈ taken then ⟨word, some n, none, (scanInt fin).rest⟩
        else ⟨word, some n, second.value, second.rest⟩
    else ⟨word, none, none, fin⟩

def Entry.takes (e : Entry) (taken : List ℤ) : List ℤ :=
  match e.number, e.password with
  | some n, some _ => toInt n :: taken
  | _, _ => taken

def entriesFrom : ℕ → List ℤ → Stream → List Entry
  | 0, _, _ => []
  | turns + 1, taken, fin =>
    match nextEntry taken fin with
    | none => []
    | some e => e :: entriesFrom turns (e.takes taken) (fgets tmpLen e.rest).rest

def entries (text : Stream) : List Entry := entriesFrom (text.length + 1) [] text

structure Entry.Short (e : Entry) : Prop where
  word : e.word.length ≤ 127
  password : ∀ password ∈ e.password, password.length ≤ 127

structure Entry.Fits (e : Entry) : Prop where
  short : e.Short
  range : ∀ n ∈ e.number, InRange n

/-- The number may be out of range as it is written, but not as the `int` that holds it. -/
structure Entry.FitsInt (e : Entry) : Prop where
  short : e.Short
  range : ∀ n ∈ e.number, InRange (toInt n)

theorem toInt_of_inRange {n : ℤ} (h : InRange n) : toInt n = n := by
  obtain ⟨hlow, hhigh⟩ := h
  rw [toInt, Int.bmod_def]
  omega

theorem Entry.Fits.fitsInt {e : Entry} (h : e.Fits) : e.FitsInt :=
  ⟨h.short, fun n hn => (toInt_of_inRange (h.range n hn)).symm ▸ h.range n hn⟩

theorem fgets_inside (fin : Stream) : ∀ a ∈ stored (fgets tmpLen fin), a.Inside := by
  intro a ha
  unfold stored fgets at ha
  cases fin with
  | nil => cases ha
  | cons c fin =>
    obtain rfl := List.mem_singleton.1 ha
    have hlen := List.length_take_le (tmpLen - 1)
      ((c :: fin).takeWhile (· ≠ newline) ++ ((c :: fin).dropWhile (· ≠ newline)).take 1)
    simp only [Access.Inside, List.length_append, List.length_singleton]
    exact Nat.add_le_add_right hlen 1

def Taken (psc : SvpnServer) (taken : List ℤ) : Prop :=
  ∀ uid, takenIn psc uid = true ↔ (uid.toNat : ℤ) ∈ taken

theorem toNat_ofInt {id : ℤ} (h : 0 ≤ id ∧ id < 256) : ((UInt8.ofInt id).toNat : ℤ) = id := by
  rw [UInt8.ofInt, UInt8.toNat_ofNat']
  omega

theorem Taken.setClient {psc : SvpnServer} {taken : List ℤ} (h : Taken psc taken) {id : ℤ}
    (hrange : 0 ≤ id ∧ id < 256) (node : SvpnClientNode) :
    Taken (psc.setClient (UInt8.ofInt id) node) (id :: taken) := by
  intro uid
  rw [takenIn_setClient, Function.update_apply, List.mem_cons]
  by_cases huid : uid = UInt8.ofInt id
  · rw [if_pos huid, huid, toNat_ofInt hrange]
    exact iff_of_true rfl (.inl rfl)
  · rw [if_neg huid, h uid, or_iff_right]
    intro heq
    exact huid (UInt8.toNat_inj.1 (Int.ofNat.inj (heq.trans (toNat_ofInt hrange).symm)))

/-- The turn either makes an access outside, on an entry that does not fit, or uses the entry
of every number and goes on behind what it has taken. -/
inductive Explains (memory : Memory) (r : Reader SvpnServer) (taken : List ℤ) (e : Entry) : Prop
  | fault {a : Access} (hfits : ¬ e.FitsInt) (hmem : a ∈ (recordedTurn memory r).accesses)
      (hout : ¬ a.Inside) (hturn : usersTurn memory r = .fault)
  | again {r' : Reader SvpnServer} (hfits : e.FitsInt)
      (hinside : ∀ a ∈ (recordedTurn memory r).accesses, a.Inside)
      (huses : ∀ n ∈ e.number, .clients (toInt n) ∈ (recordedTurn memory r).accesses)
      (hturn : usersTurn memory r = .again r') (hrest : r'.fin = (fgets tmpLen e.rest).rest)
      (htaken : Taken r'.found (e.takes taken))

section
variable {memory : Memory} {r q : Reader SvpnServer} {taken : List ℤ} {e : Entry}
  {accesses : List Access}

theorem explains_skip (hrecord : recordedTurn memory r = .after accesses (recordedSkip q))
    (hfits : e.FitsInt) (hinside : ∀ a ∈ accesses, a.Inside)
    (huses : ∀ n ∈ e.number, .clients (toInt n) ∈ accesses) (hrest : q.fin = e.rest)
    (htaken : Taken q.found (e.takes taken)) : Explains memory r taken e := by
  obtain ⟨tmpstr, hagain⟩ := q.skipLine_again
  have hturn := usersTurn_skips hrecord
  have haccesses : (recordedTurn memory r).accesses = accesses ++ stored (fgets tmpLen q.fin) := by
    rw [hrecord, Recorded.after, recordedSkip]
  refine .again hfits ?_ ?_ (hturn.trans hagain) (by rw [hrest]) htaken
  · rw [haccesses, List.forall_mem_append]
    exact ⟨hinside, fgets_inside q.fin⟩
  · intro n hn
    rw [haccesses]
    exact List.mem_append_left _ (huses n hn)

theorem explains_fault {a : Access} (hrecord : recordedTurn memory r = .after accesses ⟨[], .fault⟩)
    (hfits : ¬ e.FitsInt) (hmem : a ∈ accesses) (hout : ¬ a.Inside) :
    Explains memory r taken e := by
  refine .fault hfits ?_ hout (usersTurn_faults hrecord)
  rw [hrecord]
  exact List.mem_append_left _ hmem

end

theorem tmpstr_inside (word : List UInt8) :
    (Access.tmpstr (word ++ [0])).Inside ↔ word.length + 1 ≤ tmpLen := by
  rw [Access.Inside, List.length_append, List.length_singleton, tmpLen]

theorem explains_user (memory : Memory) {fin : Stream} (tmpstr : Cells UInt8) {psc : SvpnServer}
    {taken : List ℤ} (htaken : Taken psc taken) {word : List UInt8} {n : ℤ}
    (hword : (scanWord fin).value = some word) (hfit : word.length + 1 ≤ tmpLen)
    (huser : strcaseEq (asString word) (chars "user") = true)
    (hnumber : (scanInt (scanWord fin).rest).value = some n) :
    ∃ e, nextEntry taken fin = some e ∧ Explains memory ⟨fin, tmpstr, psc⟩ taken e := by
  have hshort : word.length ≤ 127 := Nat.le_of_succ_le_succ hfit
  have hinside := (tmpstr_inside word).2 hfit
  by_cases hrange : 0 ≤ toInt n ∧ toInt n < 256
  swap
  · have hout : ¬ InRange (toInt n) := fun h => hrange ⟨h.1, Int.lt_add_one_of_le h.2⟩
    obtain ⟨e, he, hen⟩ : ∃ e, nextEntry taken fin = some e ∧ e.number = some n := by
      simp only [nextEntry, hword, Option.map_some, huser, if_true, hnumber]
      split_ifs <;> exact ⟨_, rfl, rfl⟩
    have hmem : Access.clients (toInt n) ∈ [.tmpstr (word ++ [0]), .clients (toInt n)] :=
      List.mem_cons_of_mem _ List.mem_cons_self
    exact ⟨e, he, explains_fault (recordedTurn_outside hword hfit huser hnumber hrange)
      (fun h => hout (h.range n hen)) hmem hout⟩
  have hin : InRange (toInt n) := ⟨hrange.1, Int.le_of_lt_add_one hrange.2⟩
  have hiff : takenIn psc (UInt8.ofInt (toInt n)) = true ↔ toInt n ∈ taken := by
    rw [htaken, toNat_ofInt hrange]
  cases hclient : (psc.client (UInt8.ofInt (toInt n))).isSome with
  | true =>
    refine ⟨⟨word, some n, none, (scanInt (scanWord fin).rest).rest⟩, ?_, ?_⟩
    · simp only [nextEntry, hword, Option.map_some, huser, if_true, hnumber, hiff.1 hclient]
    · refine explains_skip (recordedTurn_taken hword hfit huser hnumber hrange hclient)
        ⟨⟨hshort, by simp⟩, by simpa using hin⟩ ?_ (by simp) rfl htaken
      simpa using ⟨hinside, hin⟩
  | false =>
    have hfree : toInt n ∉ taken := fun h => Bool.false_ne_true (hclient.symm.trans (hiff.2 h))
    have hentry : nextEntry taken fin = some ⟨word, some n,
        (scanWord (scanInt (scanWord fin).rest).rest).value,
        (scanWord (scanInt (scanWord fin).rest).rest).rest⟩ := by
      simp only [nextEntry, hword, Option.map_some, huser, if_true, hnumber, hfree, if_false]
    refine ⟨_, hentry, ?_⟩
    cases hpassword : (scanWord (scanInt (scanWord fin).rest).rest).value with
    | none =>
      refine explains_skip
        (recordedTurn_noPassword hword hfit huser hnumber hrange hclient hpassword)
        ⟨⟨hshort, by simp⟩, by simpa using hin⟩ ?_ (by simp) rfl htaken
      simpa using ⟨hinside, hin⟩
    | some password =>
      by_cases hpfit : password.length + 1 ≤ tmpLen
      · have hpshort : password.length ≤ 127 := Nat.le_of_succ_le_succ hpfit
        refine explains_skip
          (recordedTurn_add hword hfit huser hnumber hrange hclient hpassword hpfit)
          ⟨⟨hshort, by simpa using hpshort⟩, by simpa using hin⟩ ?_ (by simp) rfl
          (htaken.setClient hrange _)
        simpa using ⟨hinside, hin, (tmpstr_inside password).2 hpfit, hin⟩
      · refine explains_fault
          (recordedTurn_longPassword hword hfit huser hnumber hrange hclient hpassword hpfit)
          (fun h => hpfit ?_) (show .tmpstr (password ++ [0]) ∈ _ by simp)
          (mt (tmpstr_inside password).1 hpfit)
        exact Nat.add_le_add_right (h.short.password password rfl) 1

theorem recordedTurn_entry (memory : Memory) (fin : Stream) (tmpstr : Cells UInt8)
    {psc : SvpnServer} {taken : List ℤ} (htaken : Taken psc taken) :
    (nextEntry taken fin = none ∧
        ∃ r', recordedTurn memory ⟨fin, tmpstr, psc⟩ = ⟨[], .done r'⟩) ∨
      ∃ e, nextEntry taken fin = some e ∧ Explains memory ⟨fin, tmpstr, psc⟩ taken e := by
  cases hword : (scanWord fin).value with
  | none => exact .inl ⟨by rw [nextEntry, hword]; rfl, _, recordedTurn_end hword⟩
  | some word =>
    right
    by_cases hfit : word.length + 1 ≤ tmpLen
    swap
    · obtain ⟨e, he, hew⟩ : ∃ e, nextEntry taken fin = some e ∧ e.word = word := by
        rw [nextEntry, hword]
        refine ⟨_, rfl, ?_⟩
        simp only
        split_ifs
        · cases (scanInt (scanWord fin).rest).value <;> simp only
          split_ifs <;> rfl
        · rfl
      refine ⟨e, he, explains_fault (recordedTurn_long hword hfit) (fun h => hfit ?_)
        List.mem_cons_self (mt (tmpstr_inside word).1 hfit)⟩
      exact Nat.add_le_add_right (hew ▸ h.short.word) 1
    have hshort : word.length ≤ 127 := Nat.le_of_succ_le_succ hfit
    have hinside : ∀ a ∈ [Access.tmpstr (word ++ [0])], a.Inside := by
      simpa using (tmpstr_inside word).2 hfit
    cases huser : strcaseEq (asString word) (chars "user") with
    | false =>
      refine ⟨⟨word, none, none, (scanWord fin).rest⟩, ?_, explains_skip
        (recordedTurn_other hword hfit huser) ⟨⟨hshort, by simp⟩, by simp⟩ hinside (by simp) rfl
        htaken⟩
      simp only [nextEntry, hword, Option.map_some, huser, Bool.false_eq_true, if_false]
    | true =>
      cases hnumber : (scanInt (scanWord fin).rest).value with
      | none =>
        refine ⟨⟨word, none, none, (scanInt (scanWord fin).rest).rest⟩, ?_, explains_skip
          (recordedTurn_noNumber hword hfit huser hnumber) ⟨⟨hshort, by simp⟩, by simp⟩ hinside
          (by simp) rfl htaken⟩
        simp only [nextEntry, hword, Option.map_some, huser, if_true, hnumber]
      | some n => exact explains_user memory tmpstr htaken hword hfit huser hnumber

theorem nextEntry_number {taken : List ℤ} {fin : Stream} {e : Entry} {n : ℤ}
    (h : nextEntry taken fin = some e) : e.number = some n ↔ GivesId fin n := by
  unfold nextEntry at h
  obtain ⟨word, hword, rfl⟩ := Option.map_eq_some_iff.1 h
  have hgives : GivesId fin n ↔ strcaseEq (asString word) (chars "user") = true ∧
      (scanInt (scanWord fin).rest).value = some n := by
    simp [GivesId, hword]
  rw [hgives]
  simp only
  split_ifs with huser
  · cases hnumber : (scanInt (scanWord fin).rest).value with
    | none => simp
    | some m => simp only; split_ifs <;> simp [huser]
  · simp [huser]

section
variable {taken : List ℤ} {fin : Stream} (turns : ℕ)

theorem entriesFrom_end (h : nextEntry taken fin = none) : entriesFrom (turns + 1) taken fin = [] := by
  rw [entriesFrom, h]

theorem entriesFrom_more {e : Entry} (h : nextEntry taken fin = some e) :
    entriesFrom (turns + 1) taken fin =
      e :: entriesFrom turns (e.takes taken) (fgets tmpLen e.rest).rest := by
  rw [entriesFrom, h]

end

/-- A property of the turns that says the same as one of the entries, turn by turn, holds of
all turns if and only if the other holds of all entries. The loop stops where an entry does
not fit, and what comes behind in the text does not matter. -/
theorem visits_iff_entries {memory : Memory} {P : Reader SvpnServer → Prop} {Q : Entry → Prop}
    (hend : ∀ r r' taken, nextEntry taken r.fin = none → recordedTurn memory r = ⟨[], .done r'⟩ → P r)
    (hturn : ∀ r taken e, nextEntry taken r.fin = some e → Explains memory r taken e → (P r ↔ Q e))
    (hfits : ∀ e, Q e → e.FitsInt) {turns : ℕ} {r : Reader SvpnServer} {taken : List ℤ}
    (htaken : Taken r.found taken) (hturns : r.fin.length < turns) :
    (∀ r', Visits (usersTurn memory) r r' → P r') ↔ ∀ e ∈ entriesFrom turns taken r.fin, Q e := by
  induction turns generalizing r taken with
  | zero => exact absurd hturns (Nat.not_lt_zero _)
  | succ turns ih =>
    rcases recordedTurn_entry memory r.fin r.tmpstr htaken with ⟨hnone, r', hdone⟩ | ⟨e, he, hexplains⟩
    · have hstops : ∀ s, usersTurn memory r ≠ .again s := by
        intro s hs
        rw [← recordedTurn_turn, hdone] at hs
        cases hs
      rw [forall_visits_last hstops, entriesFrom_end turns hnone]
      exact iff_of_true (hend r r' taken hnone hdone) (by simp)
    · have hPQ := hturn r taken e he hexplains
      rw [entriesFrom_more turns he, List.forall_mem_cons]
      cases hexplains with
      | fault hout _ _ hfault =>
        have hQ : ¬ Q e := fun h => hout (hfits e h)
        exact iff_of_false (fun hall => hQ (hPQ.1 (hall r .here))) fun hall => hQ hall.1
      | again _ _ _ hagain hrest htaken' =>
        have hlower : _ < r.fin.length := usersTurn_length hagain
        rw [forall_visits_again hagain, ih htaken' (by omega), hrest, hPQ]

theorem taken_clearClients (psc : SvpnServer) : Taken (clearClients psc) [] := by
  intro uid
  rw [takenIn_clearClients]
  simp

/-- No access is outside if and only if the words fit and the ids are in range as the `int`
that holds them. -/
theorem accesses_inside_iff (memory : Memory) (stack : Cells UInt8) (psc : SvpnServer)
    (text : Stream) :
    (∀ r, Visits (usersTurn memory) ⟨text, stack, clearClients psc⟩ r →
        ∀ a ∈ (recordedTurn memory r).accesses, a.Inside) ↔ ∀ e ∈ entries text, e.FitsInt := by
  apply visits_iff_entries _ _ (fun _ h => h) (taken_clearClients psc) (Nat.lt_succ_self _)
  · intro r r' taken _ hdone
    simp [hdone]
  · intro r taken e _ hexplains
    cases hexplains with
    | fault hfits hmem hout _ => exact iff_of_false (fun h => hout (h _ hmem)) hfits
    | again hfits hinside _ _ _ _ => exact iff_of_true hinside hfits

theorem turnInside_iff {memory : Memory} {r : Reader SvpnServer} {taken : List ℤ} {e : Entry}
    (he : nextEntry taken r.fin = some e) (hexplains : Explains memory r taken e) :
    TurnInside memory r ↔ e.Fits := by
  cases hexplains with
  | fault hfits hmem hout _ =>
    exact iff_of_false (fun h => hout (h.accesses _ hmem)) fun h => hfits h.fitsInt
  | again hfits hinside huses _ _ _ =>
    constructor
    · intro h
      refine ⟨hfits.short, fun n hn => ?_⟩
      by_contra hout
      exact (h.skips n ((nextEntry_number he).1 hn) hout).1 _ (huses n hn)
    · intro h
      exact ⟨hinside, fun n hn hout => absurd (h.range n ((nextEntry_number he).2 hn)) hout⟩

/-- The reader stays inside its arrays on exactly the texts whose words are short and whose
ids are in range, so far as it takes them. -/
theorem staysInside_iff (memory : Memory) (stack : Cells UInt8) (psc : SvpnServer)
    (text : Stream) :
    StaysInside memory stack psc text ↔ ∀ e ∈ entries text, e.Fits := by
  apply visits_iff_entries _ (fun _ _ _ => turnInside_iff) (fun _ => Entry.Fits.fitsInt)
    (taken_clearClients psc) (Nat.lt_succ_self _)
  intro r r' taken hnone hdone
  refine ⟨by simp [hdone], fun n hn => ?_⟩
  obtain ⟨word, hword, -⟩ := hn
  rw [nextEntry, hword] at hnone
  cases hnone

theorem staysInside_fails :
    ¬ StaysInside sampleMemory (fun _ => 0) sampleHost (chars "user 256 p") := by
  intro h
  have hrecord : recordedTurn sampleMemory ⟨chars "user 256 p", fun _ => 0, clearClients sampleHost⟩ =
      .after [.tmpstr (chars "user" ++ [0]), .clients 256] ⟨[], .fault⟩ :=
    recordedTurn_outside (by decide) (by decide) (by decide)
      (show (scanInt (scanWord (chars "user 256 p")).rest).value = some 256 by decide) (by decide)
  have hinside := (h _ .here).accesses (.clients 256)
  rw [hrecord] at hinside
  exact absurd (hinside (by decide)) (by decide)

/-- There is a result exactly where no access is outside. -/
theorem svpnServerInitClient_isSome (memory : Memory) (stack : Cells UInt8) (psc : SvpnServer)
    (text : Stream) :
    (svpnServerInitClient memory stack psc text).isSome = true ↔ ∀ e ∈ entries text, e.FitsInt := by
  have hloop := loop_isSome_iff (fun r : Reader SvpnServer => r.fin.length)
    (fun r r' (h : usersTurn memory r = .again r') => usersTurn_length h)
    (show (⟨text, stack, clearClients psc⟩ : Reader SvpnServer).fin.length < text.length + 1 from
      Nat.lt_succ_self _)
  rw [svpnServerInitClient, Option.isSome_map, hloop]
  apply visits_iff_entries _ _ (fun _ h => h) (taken_clearClients psc) (Nat.lt_succ_self _)
  · intro r r' taken _ hdone
    have hturn : usersTurn memory r = .done r' := by rw [← recordedTurn_turn, hdone]
    simp [hturn]
  · intro r taken e _ hexplains
    cases hexplains with
    | fault hfits _ _ hfault => exact iff_of_false (fun h => h hfault) hfits
    | again hfits _ _ hagain _ _ => exact iff_of_true (by simp [hagain]) hfits

end SVpn.ReaderBounds
