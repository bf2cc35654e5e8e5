import SVpn.ConfigAgreement

set_option autoImplicit false

/-!
A turn of `svpn_server_init_client` on an arbitrary text, case by case, with the accesses it
makes to the buffer and to the clients.
-/
namespace SVpn.UserTurns
open SVpn.Region SVpn.Crypt SVpn.OutputInfo SVpn.ServerLoop SVpn.ServerSteps SVpn.BoundedLoop
open SVpn.Stdio SVpn.ConfigReader SVpn.ConfigGrammar SVpn.ConfigAgreement

/-- Bytes stored from the start of `tmpstr` on, or an entry of `psc->clients` used. -/
inductive Access where
  | tmpstr (bytes : List UInt8)
  | clients (id : ℤ)
  deriving DecidableEq

def InRange (id : ℤ) : Prop := 0 ≤ id ∧ id ≤ 255

instance : DecidablePred InRange := fun _ => inferInstanceAs (Decidable (_ ∧ _))

def Access.Inside : Access → Prop
  | .tmpstr bytes => bytes.length ≤ 128
  | .clients id => InRange id

instance : DecidablePred Access.Inside
  | .tmpstr _ => inferInstanceAs (Decidable (_ ≤ _))
  | .clients id => inferInstanceAs (Decidable (InRange id))

/-- A turn with the accesses it makes, in their order. -/
structure Recorded where
  accesses : List Access
  turn : Turn (Reader SvpnServer)

def Recorded.after (before : List Access) (rest : Recorded) : Recorded :=
  ⟨before ++ rest.accesses, rest.turn⟩

/-- What `fscanf` and `fgets` store in `tmpstr`, with its terminator. -/
def stored (scanned : Scanned (List UInt8)) : List Access :=
  (scanned.value.map fun bytes => .tmpstr (bytes ++ [0])).toList

def recordedSkip (r : Reader SvpnServer) : Recorded := ⟨stored (fgets tmpLen r.fin), r.skipLine⟩

/-- Lines 345 to 374 with each access where it is made. What is stored past the end of the
buffer, and the entry used past the array, are recorded before there is no result. -/
def recordedTurn (memory : Memory) (r : Reader SvpnServer) : Recorded :=
  .after (stored (scanWord r.fin)) <|
  match readWord r.fin r.tmpstr with
  | none => ⟨[], .fault⟩
  | some (false, fin, tmpstr) => ⟨[], .done { r with fin, tmpstr }⟩
  | some (true, fin, tmpstr) =>
    let r := { r with fin, tmpstr }
    if strcaseEq (cString tmpLen tmpstr) (chars "user") = false then recordedSkip r
    else
      let scanned := scanInt fin
      let r := { r with fin := scanned.rest }
      match scanned.value with
      | none => recordedSkip r
      | some n =>
        let id := toInt n
        -- the test for a duplicate
        .after [.clients id] <|
        if 0 ≤ id ∧ id < 256 then
          let uid := UInt8.ofInt id
          if (r.found.client uid).isSome then recordedSkip r
          else
            .after (stored (scanWord r.fin)) <|
            match readWord r.fin tmpstr with
            | none => ⟨[], .fault⟩
            | some (false, fin, tmpstr) => recordedSkip { r with fin, tmpstr }
            | some (true, fin, tmpstr) =>
              -- the new node is put in, and given to `BuildTable`
              .after [.clients id, .clients id] <|
              match newClient memory uid tmpstr with
              | none => ⟨[], .fault⟩
              | some node =>
                recordedSkip { r with fin, tmpstr, found := r.found.setClient uid node }
        else ⟨[], .fault⟩

theorem recordedTurn_turn (memory : Memory) (r : Reader SvpnServer) :
    (recordedTurn memory r).turn = usersTurn memory r := by
  unfold recordedTurn usersTurn Recorded.after recordedSkip
  rcases readWord r.fin r.tmpstr with - | ⟨- | -, fin, tmpstr⟩
  · rfl
  · rfl
  · simp only
    split_ifs
    · rfl
    · cases (scanInt fin).value with
      | none => rfl
      | some n =>
        simp only
        split_ifs
        · rfl
        · rcases readWord (scanInt fin).rest tmpstr with - | ⟨- | -, fin', tmpstr'⟩
          · rfl
          · rfl
          · simp only
            cases newClient memory (UInt8.ofInt (toInt n)) tmpstr' <;> rfl
        · rfl

theorem usersTurn_skips {memory : Memory} {r q : Reader SvpnServer} {accesses : List Access}
    (h : recordedTurn memory r = .after accesses (recordedSkip q)) :
    usersTurn memory r = q.skipLine := by
  rw [← recordedTurn_turn, h, Recorded.after, recordedSkip]

theorem usersTurn_faults {memory : Memory} {r : Reader SvpnServer} {accesses : List Access}
    (h : recordedTurn memory r = .after accesses ⟨[], .fault⟩) : usersTurn memory r = .fault := by
  rw [← recordedTurn_turn, h, Recorded.after]

theorem usersTurn_blank {memory : Memory} {fin : Stream} {tmpstr : Cells UInt8} {psc : SvpnServer}
    {blank : List UInt8} (h : Blank blank) :
    usersTurn memory ⟨blank ++ fin, tmpstr, psc⟩ = usersTurn memory ⟨fin, tmpstr, psc⟩ := by
  simp only [usersTurn, readWord, scanWord_blank h]

theorem after_after (a b : List Access) (rest : Recorded) :
    Recorded.after a (.after b rest) = .after (a ++ b) rest := by
  rw [Recorded.after, Recorded.after, Recorded.after, List.append_assoc]

theorem stored_word {fin : Stream} {word : List UInt8} (h : (scanWord fin).value = some word) :
    stored (scanWord fin) = [.tmpstr (word ++ [0])] := by
  rw [stored, h]
  rfl

theorem stored_end {fin : Stream} (h : (scanWord fin).value = none) : stored (scanWord fin) = [] := by
  rw [stored, h]
  rfl

section
variable {memory : Memory} {fin : Stream} {tmpstr : Cells UInt8} {psc : SvpnServer}

theorem recordedTurn_end (h : (scanWord fin).value = none) :
    recordedTurn memory ⟨fin, tmpstr, psc⟩ = ⟨[], .done ⟨(scanWord fin).rest, tmpstr, psc⟩⟩ := by
  simp only [recordedTurn, readWord_end h, stored_end h, Recorded.after, List.nil_append]

variable {word : List UInt8} (hword : (scanWord fin).value = some word)
include hword

theorem recordedTurn_long (hlong : ¬ word.length + 1 ≤ tmpLen) :
    recordedTurn memory ⟨fin, tmpstr, psc⟩ = .after [.tmpstr (word ++ [0])] ⟨[], .fault⟩ := by
  simp only [recordedTurn, readWord_long hword hlong, stored_word hword]

variable (hfit : word.length + 1 ≤ tmpLen)
include hfit

theorem recordedTurn_other (huser : strcaseEq (asString word) (chars "user") = false) :
    recordedTurn memory ⟨fin, tmpstr, psc⟩ =
      .after [.tmpstr (word ++ [0])]
        (recordedSkip ⟨(scanWord fin).rest, putString tmpstr word, psc⟩) := by
  simp only [recordedTurn, readWord_word hword hfit, cString_putString_asString tmpstr hfit, huser,
    if_true, stored_word hword]

variable (huser : strcaseEq (asString word) (chars "user") = true)
include huser

theorem recordedTurn_noNumber (hnumber : (scanInt (scanWord fin).rest).value = none) :
    recordedTurn memory ⟨fin, tmpstr, psc⟩ =
      .after [.tmpstr (word ++ [0])]
        (recordedSkip ⟨(scanInt (scanWord fin).rest).rest, putString tmpstr word, psc⟩) := by
  simp only [recordedTurn, readWord_word hword hfit, cString_putString_asString tmpstr hfit, huser,
    Bool.true_eq_false, if_false, hnumber, stored_word hword]

variable {n : ℤ} (hnumber : (scanInt (scanWord fin).rest).value = some n)
include hnumber

theorem recordedTurn_outside (hrange : ¬ (0 ≤ toInt n ∧ toInt n < 256)) :
    recordedTurn memory ⟨fin, tmpstr, psc⟩ =
      .after [.tmpstr (word ++ [0]), .clients (toInt n)] ⟨[], .fault⟩ := by
  simp only [recordedTurn, readWord_word hword hfit, cString_putString_asString tmpstr hfit, huser,
    Bool.true_eq_false, if_false, hnumber, hrange, stored_word hword, after_after]
  rfl

variable (hrange : 0 ≤ toInt n ∧ toInt n < 256)
include hrange

theorem recordedTurn_taken (htaken : (psc.client (UInt8.ofInt (toInt n))).isSome = true) :
    recordedTurn memory ⟨fin, tmpstr, psc⟩ =
      .after [.tmpstr (word ++ [0]), .clients (toInt n)]
        (recordedSkip ⟨(scanInt (scanWord fin).rest).rest, putString tmpstr word, psc⟩) := by
  simp only [recordedTurn, readWord_word hword hfit, cString_putString_asString tmpstr hfit, huser,
    Bool.true_eq_false, if_false, hnumber, hrange, and_self, if_true, htaken, stored_word hword,
    after_after]
  rfl

variable (hfree : (psc.client (UInt8.ofInt (toInt n))).isSome = false)
include hfree

theorem recordedTurn_noPassword
    (hend : (scanWord (scanInt (scanWord fin).rest).rest).value = none) :
    recordedTurn memory ⟨fin, tmpstr, psc⟩ =
      .after [.tmpstr (word ++ [0]), .clients (toInt n)]
        (recordedSkip ⟨(scanWord (scanInt (scanWord fin).rest).rest).rest,
          putString tmpstr word, psc⟩) := by
  simp only [recordedTurn, readWord_word hword hfit, cString_putString_asString tmpstr hfit, huser,
    Bool.true_eq_false, if_false, hnumber, hrange, and_self, if_true, hfree, Bool.false_eq_true,
    readWord_end hend, stored_word hword, stored_end hend, after_after]
  rfl

variable {password : List UInt8}
  (hpassword : (scanWord (scanInt (scanWord fin).rest).rest).value = some password)
include hpassword

theorem recordedTurn_longPassword (hlong : ¬ password.length + 1 ≤ tmpLen) :
    recordedTurn memory ⟨fin, tmpstr, psc⟩ =
      .after [.tmpstr (word ++ [0]), .clients (toInt n), .tmpstr (password ++ [0])]
        ⟨[], .fault⟩ := by
  simp only [recordedTurn, readWord_word hword hfit, cString_putString_asString tmpstr hfit, huser,
    Bool.true_eq_false, if_false, hnumber, hrange, and_self, if_true, hfree, Bool.false_eq_true,
    readWord_long hpassword hlong, stored_word hword, stored_word hpassword, after_after]
  rfl

theorem recordedTurn_add (hshort : password.length + 1 ≤ tmpLen) :
    recordedTurn memory ⟨fin, tmpstr, psc⟩ =
      .after [.tmpstr (word ++ [0]), .clients (toInt n), .tmpstr (password ++ [0]),
          .clients (toInt n), .clients (toInt n)]
        (recordedSkip ⟨(scanWord (scanInt (scanWord fin).rest).rest).rest,
          putString (putString tmpstr word) password,
          psc.setClient (UInt8.ofInt (toInt n))
            (userNode memory (UInt8.ofInt (toInt n)) (asString password))⟩) := by
  simp only [recordedTurn, readWord_word hword hfit, cString_putString_asString tmpstr hfit, huser,
    Bool.true_eq_false, if_false, hnumber, hrange, and_self, if_true, hfree, Bool.false_eq_true,
    readWord_word hpassword hshort, newClient_word memory _ _ hshort, stored_word hword,
    stored_word hpassword, after_after]
  rfl

end

def takenIn (psc : SvpnServer) : UInt8 → Bool := fun uid => (psc.client uid).isSome

theorem takenIn_setClient (psc : SvpnServer) (uid : UInt8) (node : SvpnClientNode) :
    takenIn (psc.setClient uid node) = Function.update (takenIn psc) uid true := by
  funext v
  rw [takenIn, client_setClient, Function.update_apply]
  split <;> rfl

theorem takenIn_clearClients (psc : SvpnServer) : takenIn (clearClients psc) = fun _ => false := by
  funext uid
  rw [takenIn, client_clearClients]
  rfl

end SVpn.UserTurns
