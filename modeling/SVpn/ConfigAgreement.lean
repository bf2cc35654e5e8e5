import SVpn.ConfigGrammar
import SVpn.SourceCheck

set_option autoImplicit false

/-!
What the readers take from a text in the grammar: the last port, the last local
address and the first password of every id.
-/
namespace SVpn.ConfigAgreement
open SVpn.Region SVpn.Crypt SVpn.OutputInfo SVpn.Md5 SVpn.KeyTable SVpn.ServerLoop SVpn.ServerSteps
open SVpn.SourceCheck SVpn.Stdio SVpn.InetAddr SVpn.ConfigReader SVpn.ConfigGrammar

def portOf : Directive → Option UInt16
  | .port n => some n
  | _ => none

def localOf : Directive → Option (Vector UInt8 4)
  | .localAddr addr => some addr
  | _ => none

def passwordOf (uid : UInt8) : Directive → Option (List UInt8)
  | .user id password => if id = uid then some password else none
  | _ => none

def lastPort (ds : List Directive) : UInt16 := (ds.filterMap portOf).getLast?.getD 0

def lastLocal (ds : List Directive) : Vector UInt8 4 :=
  (ds.filterMap localOf).getLast?.getD (Vector.replicate 4 0)

def firstPassword (ds : List Directive) (uid : UInt8) : Option (List UInt8) :=
  ds.findSome? (passwordOf uid)

/-- A part of the state that some items overwrite holds the last value written. -/
theorem foldl_overwrite {α β σ : Type} (step : σ → α → σ) (part : σ → β) (write : α → Option β)
    (h : ∀ s a, part (step s a) = (write a).getD (part s)) (xs : List α) (s : σ) :
    part (xs.foldl step s) = (xs.filterMap write).getLast?.getD (part s) := by
  induction xs generalizing s with
  | nil => rfl
  | cons a xs ih =>
    rw [List.foldl_cons, ih, h, List.filterMap_cons]
    cases write a with
    | none => rfl
    | some b => rw [List.getLast?_cons, Option.getD_some, Option.getD_some]

theorem foldl_nextSettings (ds : List Directive) :
    ds.foldl nextSettings ⟨0, Vector.replicate 4 0⟩ = ⟨lastPort ds, lastLocal ds⟩ := by
  have hport := foldl_overwrite nextSettings Settings.port portOf
    (fun s d => by cases d <;> rfl) ds ⟨0, Vector.replicate 4 0⟩
  have hlocal := foldl_overwrite nextSettings Settings.laddr localOf
    (fun s d => by cases d <;> rfl) ds ⟨0, Vector.replicate 4 0⟩
  rw [lastPort, lastLocal, ← hport, ← hlocal]

theorem client_addUser (memory : Memory) (psc : SvpnServer) (d : Directive) (uid : UInt8) :
    (addUser memory psc d).client uid =
      (psc.client uid).or ((passwordOf uid d).map (userNode memory uid)) := by
  cases d with
  | user id password =>
    rw [addUser, passwordOf]
    by_cases hid : id = uid
    · subst hid
      cases hclient : psc.client id with
      | some node =>
        rw [Option.isSome_some, if_pos rfl, hclient]
        rfl
      | none =>
        rw [Option.isSome_none, if_neg Bool.false_ne_true, client_setClient, if_pos rfl, if_pos rfl]
        rfl
    · rw [if_neg hid, Option.map_none, Option.or_none]
      cases hclient : psc.client id with
      | some node => rw [Option.isSome_some, if_pos rfl]
      | none =>
        rw [Option.isSome_none, if_neg Bool.false_ne_true, client_setClient, if_neg (Ne.symm hid)]
  | _ => exact (Option.or_none).symm

theorem firstPassword_cons (d : Directive) (ds : List Directive) (uid : UInt8) :
    firstPassword (d :: ds) uid = (passwordOf uid d).or (firstPassword ds uid) := by
  rw [firstPassword, List.findSome?_cons]
  cases passwordOf uid d <;> rfl

theorem client_foldl_addUser (memory : Memory) (ds : List Directive) (psc : SvpnServer)
    (uid : UInt8) :
    (ds.foldl (addUser memory) psc).client uid =
      (psc.client uid).or ((firstPassword ds uid).map (userNode memory uid)) := by
  induction ds generalizing psc with
  | nil => exact (Option.or_none).symm
  | cons d ds ih =>
    rw [List.foldl_cons, ih, client_addUser, firstPassword_cons, Option.or_assoc]
    cases passwordOf uid d <;> rfl

theorem client_clearClients (psc : SvpnServer) (uid : UInt8) : (clearClients psc).client uid = none := by
  simp [SvpnServer.client, clearClients, ArrayPermutation.entry]

theorem passwordOf_eq_some {uid : UInt8} {d : Directive} {password : List UInt8} :
    passwordOf uid d = some password ↔ d = .user uid password := by
  cases d with
  | user id password' =>
    rw [passwordOf]
    constructor
    · intro h
      split_ifs at h with hid
      rw [hid, Option.some.inj h]
    · intro h
      cases h
      rw [if_pos rfl]
  | _ => exact ⟨fun h => (nomatch h), fun h => (nomatch h)⟩

theorem localAddr_foldl_addUser (memory : Memory) (ds : List Directive) (psc : SvpnServer) :
    (ds.foldl (addUser memory) psc).localAddr = psc.localAddr := by
  induction ds generalizing psc with
  | nil => rfl
  | cons d ds ih =>
    rw [List.foldl_cons, ih]
    cases d with
    | user id password =>
      rw [addUser]
      split_ifs
      · rfl
      · exact localAddr_setClient psc id _
    | _ => rfl

theorem firstPassword_isSome (ds : List Directive) (uid : UInt8) :
    (firstPassword ds uid).isSome = true ↔ ∃ password, Directive.user uid password ∈ ds := by
  rw [firstPassword, List.findSome?_isSome_iff]
  constructor
  · rintro ⟨d, hd, hsome⟩
    obtain ⟨password, hpassword⟩ := Option.isSome_iff_exists.1 hsome
    exact ⟨password, passwordOf_eq_some.1 hpassword ▸ hd⟩
  · rintro ⟨password, hmem⟩
    exact ⟨_, hmem, by rw [passwordOf_eq_some.2 rfl]; rfl⟩

theorem client_config (memory : Memory) (ds : List Directive) (psc : SvpnServer) (uid : UInt8) :
    (ds.foldl (addUser memory) (clearClients psc)).client uid =
      (firstPassword ds uid).map (userNode memory uid) := by
  rw [client_foldl_addUser, client_clearClients, Option.none_or]

theorem length_password {bytes : List UInt8} {uid : UInt8} {password : List UInt8}
    (h : Line bytes (.user uid password)) : password.length < 127 := by
  cases h.spells with
  | user hword _ hfield _ hpassword =>
    exact hpassword.length_lt ((h.toPiece.rest hword).rest hfield)

theorem password_lines {lines : List (List UInt8)} {ds : List Directive}
    (h : List.Forall₂ Line lines ds) {uid : UInt8} {password : List UInt8}
    (hmem : Directive.user uid password ∈ ds) : password.length < 127 := by
  induction h with
  | nil => cases hmem
  | cons hline _ ih =>
    rcases List.mem_cons.1 hmem with rfl | hmem
    · exact length_password hline
    · exact ih hmem

/-- Both readers see the same configuration in a text, the one its lines spell. -/
theorem readers_agree {text : Stream} {ds : List Directive} (h : Config text ds)
    (memory : Memory) (stack stack' : Cells UInt8) (psc : SvpnServer) :
    svpnServerInitRead stack text = some ⟨lastPort ds, lastLocal ds⟩ ∧
      ∃ psc', svpnServerInitClient memory stack' psc text = some psc' ∧
        ∀ uid, ((psc'.client uid).isSome = true ↔
            ∃ password, Directive.user uid password ∈ ds) ∧
          ∀ node, psc'.client uid = some node →
            ∃ password pmd5, firstPassword ds uid = some password ∧
              (∀ (stack input : Cells UInt8), load input password.length = password →
                md5Fast stack input (UInt32.ofNat password.length) = some pmd5) ∧
              ∀ ct, buildTable ct pmd5 uid = some node.table := by
  refine ⟨by rw [svpnServerInitRead_config h, foldl_nextSettings],
    _, svpnServerInitClient_config h memory stack' psc, fun uid => ?_⟩
  rw [client_config]
  constructor
  · rw [Option.isSome_map, firstPassword_isSome]
  · intro node hnode
    obtain ⟨password, hpassword, rfl⟩ := Option.map_eq_some_iff.1 hnode
    obtain ⟨d, hd, hsome⟩ := List.exists_of_findSome?_eq_some hpassword
    obtain ⟨lines, -, hlines⟩ := h
    have hshort := password_lines hlines (passwordOf_eq_some.1 hsome ▸ hd)
    exact ⟨password, passwordDigest password, hpassword,
      fun stack input hinput => md5Fast_password (Nat.lt_succ_of_lt hshort) stack hinput,
      fun ct => buildTable_keyTable ct _ _⟩

def sampleLines : List (List UInt8) :=
  [chars "Port 123", chars "local 192.168.3.1", chars "user 6 a", chars "user 6 b"]

def sampleText : Stream := [newline].intercalate sampleLines

def sampleDirectives : List Directive :=
  [.port 123, .localAddr sampleLocal, .user 6 (chars "a"), .user 6 (chars "b")]

theorem sample_port : Line (chars "Port 123") (.port 123) where
  spells := .port
    (show Field _ (chars "Port") (chars " 123") from
      ⟨by decide, by decide, [], by decide, by decide⟩) (by decide)
    (show Field _ (chars "123") [] from ⟨by decide, by decide, [32], by decide, by decide⟩)
    (by decide) (by decide)
  nul := by decide
  newline := by decide
  short := by decide

theorem sample_local : Line (chars "local 192.168.3.1") (.localAddr sampleLocal) where
  spells := .localAddr
    (show Field _ (chars "local") (chars " 192.168.3.1") from
      ⟨by decide, by decide, [], by decide, by decide⟩) (by decide)
    (show Field _ (dotted (chars "192") (chars "168") (chars "3") (chars "1")) [] from
      ⟨by decide, by decide, [32], by decide, by decide⟩)
    (by decide) (by decide) (by decide) (by decide)
  nul := by decide
  newline := by decide
  short := by decide

theorem sample_user (password : String) (hword : Word (chars password))
    (hpiece : Piece (chars "user 6 " ++ chars password)) :
    Line (chars "user 6 " ++ chars password) (.user 6 (chars password)) where
  spells := .user
    (show Field _ (chars "user") (chars " 6 " ++ chars password) from
      ⟨by decide, stops_cons rfl _, [], by decide, rfl⟩) (by decide)
    (show Field _ (chars "6") ([32] ++ chars password) from
      ⟨by decide, stops_cons rfl _, [32], by decide, rfl⟩) (by decide)
    (show Field _ (chars password) [] from
      ⟨hword, stops_nil _, [32], by decide, by rw [List.append_nil]⟩)
  toPiece := hpiece

theorem sample_config : Config sampleText sampleDirectives :=
  ⟨sampleLines, rfl, .cons sample_port (.cons sample_local
    (.cons (sample_user "a" (by decide) ⟨by decide, by decide, by decide⟩)
      (.cons (sample_user "b" (by decide) ⟨by decide, by decide, by decide⟩) .nil)))⟩

/-- Memory in which the nodes still hold an address of an earlier use. -/
def sampleMemory : Memory :=
  ⟨fun _ => ⟨⟨10, 0, 0, Vector.replicate 16 171, 0⟩, blank⟩, fun _ _ => 0⟩

def sampleHost : SvpnServer := ⟨sampleLocal, Vector.replicate 256 none⟩

/-- The second line of user 6 changes nothing. -/
theorem readers_agree_sample :
    svpnServerInitRead (fun _ => 0) sampleText = some ⟨123, sampleLocal⟩ ∧
      ∃ psc', svpnServerInitClient sampleMemory (fun _ => 0) sampleHost sampleText = some psc' ∧
        (psc'.client 3).isSome = false ∧
        ∃ node pmd5, psc'.client 6 = some node ∧
          md5Fast (fun _ => 0) (putString (fun _ => 0) (chars "a")) 1 = some pmd5 ∧
          buildTable blank pmd5 6 = some node.table := by
  obtain ⟨hsettings, psc', hpsc', hclients⟩ :=
    readers_agree sample_config sampleMemory (fun _ => 0) (fun _ => 0) sampleHost
  refine ⟨hsettings, psc', hpsc', ?_, ?_⟩
  · rw [Bool.eq_false_iff, Ne, (hclients 3).1]
    rintro ⟨password, hmem⟩
    simp [sampleDirectives] at hmem
  · obtain ⟨node, hnode⟩ := Option.isSome_iff_exists.1 ((hclients 6).1.2 ⟨chars "a", by decide⟩)
    obtain ⟨password, pmd5, hpassword, hdigest, htable⟩ := (hclients 6).2 node hnode
    obtain rfl : chars "a" = password := Option.some.inj hpassword
    exact ⟨node, pmd5, hnode, hdigest _ _ (by decide), htable blank⟩

end SVpn.ConfigAgreement
