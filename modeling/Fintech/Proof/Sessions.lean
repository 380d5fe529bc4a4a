import Fintech.Proof.Users
import Mathlib.Logic.Encodable.Basic

/-!
# Sessions

Every session that is answered is that of a user who registered, with the password of the registration; and its token is
accepted, until it expires, as that user and nobody else.
-/

namespace Fintech
open Relational Transactional

/-! ## Bearer tokens -/

/-- A service whose tokens have no spaces and are read back until they expire. -/
structure JwtService.Faithful (jwt : JwtService) : Prop where
  token : ∀ secret payload now expiresIn, jwt.sign secret payload now expiresIn ≠ "" ∧
    ∀ c ∈ (jwt.sign secret payload now expiresIn).toList, isJsSpace c = false
  verifies : ∀ secret payload now expiresIn later, now ≤ later → later < now + expiresIn →
    jwt.verify secret (jwt.sign secret payload now expiresIn) later = some payload

theorem trimBy_of_ends {space : Char → Bool} {c d : Char} {cs ds : List Char} {s : String} (first : s.toList = c :: cs)
    (last : s.toList = ds ++ [d]) (start : space c = false) (finish : space d = false) : trimBy space s = s := by
  rw [trimBy, first, List.dropWhile_cons, start, if_neg (by decide), ← first, last, List.reverse_append, List.reverse_singleton,
    List.singleton_append, List.dropWhile_cons, finish, if_neg (by decide), List.reverse_cons, List.reverse_reverse, ← last,
    String.ofList_toList]

theorem JwtAuthGuard.extractBearerToken_bearer {token : String} (nonempty : token ≠ "")
    (solid : ∀ c ∈ token.toList, isJsSpace c = false) : extractBearerToken (some ("Bearer " ++ token)) = .ok token := by
  obtain ⟨init, last, list⟩ : ∃ init last, token.toList = init ++ [last] := by
    rcases List.eq_nil_or_concat token.toList with empty | ⟨init, last, list⟩
    · exact absurd (String.toList_injective empty) nonempty
    · exact ⟨init, last, by rw [list, List.concat_eq_append]⟩
  have text : ("Bearer " ++ token).toList = "Bearer".toList ++ ' ' :: token.toList := by
    rw [String.toList_append]
    rfl
  have trimmed : jsTrim ("Bearer " ++ token) = "Bearer " ++ token := by
    apply trimBy_of_ends (c := 'B') (d := last)
    · rw [text]
      rfl
    · rw [text, list, ← List.cons_append, ← List.append_assoc]
    · decide
    · exact solid last (list ▸ by simp)
  have scheme : ("Bearer".toList.all fun c => isJsSpace c = false) = true := by decide
  have split : words ("Bearer " ++ token) = ["Bearer", token] := by
    rw [words, text, List.splitOnP_append_cons_of_forall_mem (by simpa using scheme) _ (by decide),
      List.splitOnP_eq_singleton solid]
    have some_ : token.toList.isEmpty = false := by
      rw [list]
      simp
    simp [List.filter, some_]
  simp only [extractBearerToken, Option.map_some, trimmed, split]
  rw [if_pos (by decide)]

theorem JwtAuthGuard.authenticate_issued {jwt : JwtService} (faithful : jwt.Faithful) {env env' : Environment} {now later : Int}
    {user : SafeUser} (secret : env'.jwtAccessSecret = env.jwtAccessSecret) (since : now ≤ later)
    (fresh : later < now + env.jwtAccessTtlSeconds) :
    authenticate jwt env' later (some ("Bearer " ++ (AuthService.issueAccessToken jwt env now user).accessToken)) =
      .ok user.id.text := by
  obtain ⟨nonempty, solid⟩ := faithful.token env.jwtAccessSecret (AuthService.accessPayload user) now env.jwtAccessTtlSeconds
  have verified := faithful.verifies env.jwtAccessSecret (AuthService.accessPayload user) now env.jwtAccessTtlSeconds later since fresh
  have text : user.id.text ≠ "" := by
    intro empty
    have canonical := user.id.canonical.1
    rw [empty] at canonical
    revert canonical
    decide
  rw [authenticate, AuthService.issueAccessToken, extractBearerToken_bearer nonempty solid]
  simp only [bind, Except.bind, secret, verified]
  simp [AuthService.accessPayload, Option.filter, text, pure, Except.pure]

/-- The guard finds the user that the token names. -/
theorem JwtAuthGuard.findUser_of_mem {db : Db} {u : User} (hu : u ∈ db.users) :
    findUser (UsersService.toSafeUser u).id.text db = .ok (UsersService.toSafeUser u) := by
  have cast : castUuid (UsersService.toSafeUser u).id.text = .ok u.id := castUuid_eq_ok.mpr (Uuid.parse?_text u.id)
  have found : db.users.find? u.id = some u := Table.find?_eq_some.mpr ⟨hu, rfl⟩
  simp only [findUser, UsersService.findSafeById, cast, bind, Except.bind, found]
  rfl

/-! ## A service of tokens -/

/-- The codes of the characters. -/
def sampleField : Option String → String
  | none => "-"
  | some s => String.ofList (s.toList.flatMap fun c => Nat.toDigits 10 c.toNat ++ [','])

def sampleFieldOf (s : String) : Option String :=
  if s = "-" then none
  else some (String.ofList (((s.toList.splitOn ',').dropLast.filterMap (digitsValue? 10)).map Char.ofNat))

def sampleParts (secret : String) (payload : AccessTokenPayload) (expiry : Int) : List String :=
  [toString (Encodable.encode expiry + 1 : Int), sampleField (some secret), sampleField payload.sub, sampleField payload.email,
    sampleField payload.type]

/-- Tokens that spell out their expiry, their secret and their payload. -/
def sampleTokens : JwtService where
  sign secret payload now expiresIn := ".".intercalate (sampleParts secret payload (now + expiresIn))
  verify secret token now :=
    match (token.toList.splitOn '.').map String.ofList with
    | [expiry, signer, sub, email, type] => do
        let expiry : Int ← Encodable.decode ((← bigInt? expiry) - 1).toNat
        if now < expiry ∧ signer = sampleField (some secret) then
          some ⟨sampleFieldOf sub, sampleFieldOf email, sampleFieldOf type⟩
        else none
    | _ => none

theorem not_isDigit_of_mem {n : Nat} {c d : Char} (other : c.isDigit = false) (hd : d ∈ Nat.toDigits 10 n) : d ≠ c := by
  rintro rfl
  cases other.symm.trans (Nat.isDigit_of_mem_toDigits (by decide) (by decide) hd)

theorem splitOn_field (cs : List Char) :
    (cs.flatMap fun c => Nat.toDigits 10 c.toNat ++ [',']).splitOn ',' = (cs.map fun c => Nat.toDigits 10 c.toNat) ++ [[]] := by
  induction cs with
  | nil => rfl
  | cons c cs ih =>
      have free : ∀ d ∈ Nat.toDigits 10 c.toNat, (d == ',') = false := by
        intro d hd
        simpa using not_isDigit_of_mem (by decide) hd
      rw [List.flatMap_cons, List.append_assoc, List.singleton_append, List.splitOn,
        List.splitOnP_append_cons_of_forall_mem free _ (by decide), List.map_cons, List.cons_append, ← ih, List.splitOn]

theorem sampleField_chars {v : Option String} {c : Char} (h : c ∈ (sampleField v).toList) : c.isDigit = true ∨ c = ',' ∨ c = '-' := by
  cases v with
  | none => exact .inr (.inr (by simpa [sampleField] using h))
  | some s =>
      rw [sampleField, String.toList_ofList] at h
      obtain ⟨d, _, mem⟩ := List.mem_flatMap.mp h
      rcases List.mem_append.mp mem with digit | comma
      · exact .inl (Nat.isDigit_of_mem_toDigits (by decide) (by decide) digit)
      · exact .inr (.inl (List.mem_singleton.mp comma))

theorem sampleFieldOf_sampleField (v : Option String) : sampleFieldOf (sampleField v) = v := by
  cases v with
  | none => rfl
  | some s =>
      have other : sampleField (some s) ≠ "-" := by
        intro same
        have dash : '-' ∈ (sampleField (some s)).toList := by
          rw [same]
          decide
        rw [sampleField, String.toList_ofList] at dash
        obtain ⟨d, _, mem⟩ := List.mem_flatMap.mp dash
        rcases List.mem_append.mp mem with digit | comma
        · exact not_isDigit_of_mem (by decide) digit rfl
        · exact absurd (List.mem_singleton.mp comma) (by decide)
      have back : ∀ cs : List Char, ((cs.map fun c => Nat.toDigits 10 c.toNat).filterMap (digitsValue? 10)).map Char.ofNat = cs := by
        intro cs
        induction cs with
        | nil => rfl
        | cons c cs ih =>
            rw [List.map_cons, List.filterMap_cons, digitsValue?_toDigits, List.map_cons, ih, Char.ofNat_toNat]
      rw [sampleFieldOf, if_neg other, sampleField, String.toList_ofList, splitOn_field, List.dropLast_concat, back,
        String.ofList_toList]

theorem sampleParts_chars {secret part : String} {payload : AccessTokenPayload} {expiry : Int}
    (h : part ∈ sampleParts secret payload expiry) {c : Char} (hc : c ∈ part.toList) : c.isDigit = true ∨ c = ',' ∨ c = '-' := by
  simp only [sampleParts, List.mem_cons, List.not_mem_nil, or_false] at h
  rcases h with rfl | rfl | rfl | rfl | rfl
  · have numeral : (toString (Encodable.encode expiry + 1 : Int)).toList = Nat.toDigits 10 (Encodable.encode expiry + 1) :=
      toList_toString (Encodable.encode expiry + 1)
    rw [numeral] at hc
    exact .inl (Nat.isDigit_of_mem_toDigits (by decide) (by decide) hc)
  all_goals exact sampleField_chars hc

theorem split_token (secret : String) (payload : AccessTokenPayload) (expiry : Int) :
    ((".".intercalate (sampleParts secret payload expiry)).toList.splitOn '.').map String.ofList = sampleParts secret payload expiry := by
  rw [String.toList_intercalate, show ".".toList = ['.'] from rfl, List.splitOn_intercalate]
  · simp only [List.map_map, Function.comp_def, String.ofList_toList, List.map_id']
  · intro cs hcs dot
    obtain ⟨part, mem, rfl⟩ := List.mem_map.mp hcs
    have chars := sampleParts_chars mem dot
    revert chars
    decide
  · simp [sampleParts]

theorem of_mem_intercalate {α : Type} {sep : List α} {parts : List (List α)} {a : α} (h : a ∈ sep.intercalate parts) :
    a ∈ sep ∨ ∃ part ∈ parts, a ∈ part := by
  induction parts with
  | nil => simp at h
  | cons part parts ih =>
      cases parts with
      | nil => exact .inr ⟨part, by simp, by simpa using h⟩
      | cons next parts =>
          rw [List.intercalate_cons_cons, List.mem_append, List.mem_append] at h
          rcases h with (here | between) | later
          · exact .inr ⟨part, by simp, here⟩
          · exact .inl between
          · rcases ih later with between | ⟨part', mem, there⟩
            · exact .inl between
            · exact .inr ⟨part', List.mem_cons_of_mem _ mem, there⟩

theorem sampleTokens_faithful : sampleTokens.Faithful := by
  constructor
  · intro secret payload now expiresIn
    constructor
    · intro empty
      have split := split_token secret payload (now + expiresIn)
      have token : ".".intercalate (sampleParts secret payload (now + expiresIn)) = "" := empty
      rw [token] at split
      simp [sampleParts] at split
    · intro c hc
      have mem : c ∈ (".".intercalate (sampleParts secret payload (now + expiresIn))).toList := hc
      rw [String.toList_intercalate] at mem
      rcases of_mem_intercalate mem with dot | ⟨cs, hcs, there⟩
      · obtain rfl : c = '.' := by simpa using dot
        decide
      · obtain ⟨part, own, rfl⟩ := List.mem_map.mp hcs
        rcases sampleParts_chars own there with digit | rfl | rfl
        · exact isJsSpace_of_isLowerHex (isLowerHex_of_isDigit digit)
        · decide
        · decide
  · intro secret payload now expiresIn later _ fresh
    have expiry : bigInt? (toString (Encodable.encode (now + expiresIn) + 1 : Int)) = some (Encodable.encode (now + expiresIn) + 1 : Int) :=
      bigInt?_toString (by omega)
    simp only [sampleTokens]
    rw [split_token]
    simp only [sampleParts, expiry, Option.bind_eq_bind, Option.bind_some, add_sub_cancel_right, Int.toNat_natCast, Encodable.encodek,
      sampleFieldOf_sampleField, fresh, true_and, if_true]

/-! ## Visits -/

def sampleToken : String :=
  sampleTokens.sign sampleEnvironment.jwtAccessSecret ⟨some (sampleUuid 0 0).text, some "ada@example.com", some "access"⟩ 1700000000
    sampleEnvironment.jwtAccessTtlSeconds

/-- A user registers, and sends the token along when they mistype their email in a login. -/
def sampleVisits : List Incoming := [
  sampleIncoming 0 none
    (.register { email := "ada@example.com", password := "correct horse", firstName := "Ada", lastName := "Obi" }),
  { sampleIncoming 1 none (.login { email := "adah@example.com", password := "correct horse" }) with
    authorization := some ("Bearer " ++ sampleToken) }]

def sampleVisited : List (Nat × ApiEvent) := ((api sampleNode sampleTokens migrated).serveAll (fun _ => none) sampleVisits 0 {}).history

/-- Whom the session is for, when the next event is a read of the second process. -/
def visitor : List (Nat × ApiEvent) → Option (Uuid × String)
  | _ :: _ :: (0, .responded (.ok (.session _ user _))) :: (1, .read _ _) :: _ => some (user.id, user.email)
  | _ => none

theorem sampleVisited_eq : visitor sampleVisited = some (sampleUuid 0 0, "ada@example.com") := by
  decide +kernel

theorem sample_visited : ∃ w, (api sampleNode sampleTokens migrated).Reachable w ∧ w.requests = sampleVisits ∧
    w.history = sampleVisited := by
  obtain ⟨w, reach, requests, trail⟩ := Gateway.reachable_serveAll (api sampleNode sampleTokens migrated) (fun _ => none) sampleVisits
  exact ⟨w, reach, requests, congrArg Trail.history trail⟩

theorem sampleVisited_events : ∃ token user wallet commits db,
    sampleVisited[2]? = some (0, .responded (.ok (.session token user wallet))) ∧ sampleVisited[3]? = some (1, .read commits db) ∧
      user.id = sampleUuid 0 0 ∧ user.email = "ada@example.com" := by
  have visits := sampleVisited_eq
  unfold visitor at visits
  split at visits
  · rename_i token user wallet commits db rest events
    obtain ⟨id, email⟩ := Prod.mk.inj (Option.some.inj visits)
    exact ⟨token, user, wallet, commits, db, by rw [events]; rfl, by rw [events]; rfl, id, email⟩
  · cases visits

/-! ## Where sessions come from -/

theorem ensures_createWithInitialWallet_leaves {base : Nat → Db} {v : View Settings Row Key} {draws : Draws}
    {input : UsersService.CreateUserInput} (h : Tracks base v []) :
    (UsersService.createWithInitialWallet draws input).Ensures base (Tx.leaves base fun outcome rows =>
      (∃ wallet, outcome = .ok (.registered (UsersService.toSafeUser (UsersService.newUser draws input)) wallet)) ∧
        .user (UsersService.newUser draws input) ∈ rows) v := by
  refine ensures_bind (ensures_create h fun v₁ h₁ => ?_)
  refine ensures_bind (ensures_create h₁ fun v₂ h₂ => ?_)
  refine ensures_bind (ensures_create h₂ fun v₃ h₃ => ?_)
  refine ensures_pure ⟨⟨_, h₃⟩, ⟨_, rfl⟩, ?_⟩
  rw [h₃.writes]
  simp

/-- A registration that succeeds has written the user that it returns. -/
theorem register_answers {sha256Hex : String → String} {initial : Db} {P : Db → Prop} (draws : Draws)
    (input : UsersService.CreateUserInput) : (program sha256Hex (.register draws input)).Answers ((system sha256Hex initial).Ends P) P
      (fun made result => ∀ user wallet, result = .ok (.registered user wallet) →
        user = UsersService.toSafeUser (UsersService.newUser draws input) ∧ ∃ ws ∈ made, .user (UsersService.newUser draws input) ∈ ws) [] := by
  intro db _
  change Client.Answers _ _ _ (if _ then _ else _) _
  split
  · exact fun user wallet same => absurd same (by simp)
  · intro e ws ends
    cases ends with
    | @committed base outcome view seen _ ran =>
        rintro user wallet same
        have leaves := ensures_committing_leaves
          (@ensures_createWithInitialWallet_leaves base { locals := {} } draws input (.start {}))
        obtain ⟨_, ⟨_, rfl⟩, wrote⟩ := leaves.holds ran
        cases same
        exact ⟨rfl, _, List.mem_append_right _ (List.mem_singleton_self _), wrote⟩
    | thrown => exact fun user wallet same => absurd same (by simp [failed])
    | aborted d => cases d <;> exact fun user wallet same => absurd same (by simp)

section
variable {node : Node} {jwt : JwtService} {w : ApiWorld}

/-- The request that is answered registered the user, or gave a password with the key of the one registered. -/
inductive Earned (node : Node) (w : ApiWorld) (n : Nat) (r : Incoming) (user : SafeUser) : Prop
  | registered (k : Nat) (u : User) (input : AuthController.RegisterDto) (le : k ≤ w.base.log.length)
      (own : Registered node w k u n r input) (same : user = UsersService.toSafeUser u) : Earned node w n r user
  | loggedIn (k : Nat) (u : User) (m : Nat) (q : Incoming) (input : AuthController.RegisterDto) (login : AuthController.LoginDto)
      (le : k ≤ w.base.log.length) (registered : Registered node w k u m q input) (same : user = UsersService.toSafeUser u)
      (endpoint : r.endpoint = .login login)
      (email : UsersService.normalizeEmail input.email = UsersService.normalizeEmail login.email)
      (password : node.scrypt login.password q.salt.1 = node.scrypt input.password q.salt.1) : Earned node w n r user

theorem Earned.user {n : Nat} {r : Incoming} {user : SafeUser} (h : Earned node w n r user) :
    ∃ k ≤ w.base.log.length, ∃ u ∈ (stateAt migrated w.base.log k).users, user = UsersService.toSafeUser u := by
  cases h with
  | registered k u input le own same => exact ⟨k, le, u, own.there, same⟩
  | loggedIn k u m q input login le registered same => exact ⟨k, le, u, registered.there, same⟩

theorem Admits.earned (h : (api node jwt migrated).Reachable w) (reads : PasswordService.ReadsCosts node) {n j : Nat} {r : Incoming}
    {user : SafeUser} (served : w.requests[n]? = some r) (admits : Admits node r (w.eventsBefore n j) user) : Earned node w n r user := by
  cases admits with
  | registered input call wallet endpoint called returned =>
      obtain ⟨i, _, at_⟩ := World.mem_eventsBefore.mp returned
      obtain ⟨born, result⟩ := h.invariant.bears _ (List.mem_of_getElem? at_)
      obtain ⟨rfl, ws, made, wrote⟩ := h.invariant.base.answered result (register_answers (P := fun _ => True) _ _)
        (fun _ _ _ => trivial) user wallet rfl
      obtain ⟨e, he, own, rfl⟩ := mem_commitsOf.mp made
      obtain ⟨k, lt, rfl⟩ := List.getElem_of_mem he
      obtain ⟨i', _, calls⟩ := World.mem_eventsBefore.mp called
      obtain ⟨rest, events⟩ := World.eventsOf_split calls
      have request : w.base.log[k].request = .register r.draws (AuthService.userInput node r.salt input.transform) := by
        have logged := h.invariant.named.log _ he
        rw [own] at logged
        refine h.request_eq logged ?_
        exact List.mem_filterMap.mpr ⟨_, List.mem_of_getElem? calls, rfl⟩
      refine .registered (k + 1) _ input lt ⟨?_, served, endpoint, ⟨k, lt, k.lt_succ_self, _, served, _, rest, events, ?_⟩, rfl⟩ rfl
      · obtain ⟨_, _, _, ws, _, rows, accepts, change⟩ := done_of_certified (h.invariant.base.certified lt)
        rw [request] at change
        rw [state_after lt rows]
        rcases change.users with none | ⟨draws, input', same, inserted, only⟩
        · have member : .user (UsersService.newUser r.draws (AuthService.userInput node r.salt input.transform)) ∈
              w.base.log[k].writes := wrote
          rw [rows] at member
          obtain ⟨x, hx, row⟩ := List.mem_map.mp member
          have written : UsersService.newUser r.draws (AuthService.userInput node r.salt input.transform) ∈
              Slice.users.written ws := List.mem_filterMap.mpr ⟨x, hx, by rw [row, Slice.users_of]⟩
          rw [none] at written
          exact absurd written List.not_mem_nil
        · cases same
          rw [Table.mem_def]
          exact Slice.users.rows_insert accepts inserted only ▸ List.mem_append_right _ (List.mem_singleton_self _)
      · rw [request, own]
        rfl
  | loggedIn input commits db u endpoint read found verified =>
      obtain ⟨i, _, at_⟩ := World.mem_eventsBefore.mp read
      obtain ⟨le, rfl⟩ := h.invariant.bears _ (List.mem_of_getElem? at_)
      obtain ⟨m, q, registration, registered⟩ := users_registered h le (List.mem_of_find?_eq_some found)
      refine .loggedIn commits u m q registration input le registered rfl endpoint ?_ ((registered.verify reads _).mp verified)
      have email : u.email = UsersService.normalizeEmail input.transform.email := by simpa using List.find?_some found
      rw [← registered.email, email, AuthController.LoginDto.transform, normalizeEmail_normalizeEmail]

/-- The run lemma: a session that is answered is earned. -/
theorem session_earned (h : (api node jwt migrated).Reachable w) (reads : PasswordService.ReadsCosts node) {j n : Nat} {r : Incoming}
    {token : AuthService.AccessToken} {user : SafeUser} {wallet : Option WalletResponse} (served : w.requests[n]? = some r)
    (answered : w.history[j]? = some (n, .responded (.ok (.session token user wallet)))) :
    token = AuthService.issueAccessToken jwt r.env (r.now / 1000) user ∧ Earned node w n r user := by
  obtain ⟨r', served', conforms⟩ := conforming h answered
  cases served.symm.trans served'
  obtain ⟨issued, admits⟩ := conforms.session token user wallet rfl
  exact ⟨issued, admits.earned h reads served⟩

/-- The token of a session is accepted, until it expires, as the user of the session. -/
theorem session_holds (h : (api node jwt migrated).Reachable w) (reads : PasswordService.ReadsCosts node) (faithful : jwt.Faithful)
    {j n : Nat} {r : Incoming} {token : AuthService.AccessToken} {user : SafeUser} {wallet : Option WalletResponse}
    (served : w.requests[n]? = some r)
    (answered : w.history[j]? = some (n, .responded (.ok (.session token user wallet)))) {j' n' commits : Nat} {r' : Incoming} {db : Db}
    (after : j < j') (read : w.history[j']? = some (n', .read commits db)) (bears : r'.authorization = some ("Bearer " ++ token.accessToken))
    (secret : r'.env.jwtAccessSecret = r.env.jwtAccessSecret) (since : r.now / 1000 ≤ r'.now / 1000)
    (fresh : r'.now / 1000 < r.now / 1000 + r.env.jwtAccessTtlSeconds) :
    JwtAuthGuard.authenticate jwt r'.env (r'.now / 1000) r'.authorization = .ok user.id.text ∧
      JwtAuthGuard.findUser user.id.text db = .ok user := by
  obtain ⟨issued, _⟩ := session_earned h reads served answered
  constructor
  · rw [bears, issued]
    exact JwtAuthGuard.authenticate_issued faithful secret since fresh
  -- the user is sought in the world of the read, in which the session has been answered already
  · obtain ⟨before, base, earlier, history, occurs, continues⟩ := h.at_event read
    cases occurs
    have answered' : before.history[j]? = some (n, .responded (.ok (.session token user wallet))) := by
      rw [history, List.getElem?_take_of_lt after, answered]
    obtain ⟨q, served', _⟩ := conforming earlier answered'
    obtain ⟨_, earned⟩ := session_earned earlier reads served' answered'
    obtain ⟨k, le, u, there, rfl⟩ := earned.user
    exact JwtAuthGuard.findUser_of_mem (user_stays earlier le le_rfl there)

/-- Every session is that of a user who registered, with the password of the registration; and until it expires its token
is accepted as that user. -/
theorem sessions_hold (h : (api node jwt migrated).Reachable w) (reads : PasswordService.ReadsCosts node) (faithful : jwt.Faithful)
    {j n : Nat} {token : AuthService.AccessToken} {user : SafeUser} {wallet : Option WalletResponse}
    (answered : w.history[j]? = some (n, .responded (.ok (.session token user wallet)))) :
    ∃ r, w.requests[n]? = some r ∧ Earned node w n r user ∧
      ∀ (j' n' commits : Nat) (r' : Incoming) (db : Db), j < j' → w.history[j']? = some (n', .read commits db) →
        w.requests[n']? = some r' → r'.authorization = some ("Bearer " ++ token.accessToken) →
        r'.env.jwtAccessSecret = r.env.jwtAccessSecret → r.now / 1000 ≤ r'.now / 1000 →
        r'.now / 1000 < r.now / 1000 + r.env.jwtAccessTtlSeconds →
        JwtAuthGuard.authenticate jwt r'.env (r'.now / 1000) r'.authorization = .ok user.id.text ∧
          JwtAuthGuard.findUser user.id.text db = .ok user := by
  obtain ⟨r, served, _⟩ := conforming h answered
  refine ⟨r, served, (session_earned h reads served answered).2, ?_⟩
  intro j' n' commits r' db after read _ bears secret since fresh
  exact session_holds h reads faithful served answered after read bears secret since fresh

theorem sessions_hold_sample : ∃ (w : ApiWorld) (user : SafeUser) (db : Db), (api sampleNode sampleTokens migrated).Reachable w ∧
    Earned sampleNode w 0 (sampleVisits.get ⟨0, by decide⟩) user ∧
    JwtAuthGuard.authenticate sampleTokens sampleEnvironment 1700000000 (some ("Bearer " ++ sampleToken)) = .ok user.id.text ∧
    JwtAuthGuard.findUser user.id.text db = .ok user := by
  obtain ⟨w, reach, requests, history⟩ := sample_visited
  obtain ⟨token, user, wallet, commits, db, answered, read, id, email⟩ := sampleVisited_events
  rw [← history] at answered read
  obtain ⟨r, served, earned, holds⟩ := sessions_hold reach sampleNode_readsCosts sampleTokens_faithful answered
  obtain ⟨issued, _⟩ := session_earned reach sampleNode_readsCosts served answered
  rw [requests] at served
  obtain rfl : sampleVisits.get ⟨0, by decide⟩ = r := Option.some.inj served
  have next : w.requests[1]? = some (sampleVisits.get ⟨1, by decide⟩) := by
    rw [requests]
    rfl
  have own : token.accessToken = sampleToken := by
    rw [issued, AuthService.issueAccessToken, AuthService.accessPayload, id, email]
    rfl
  obtain ⟨accepted, found⟩ := holds 3 1 commits _ db (by decide) read next (by rw [own]; rfl) rfl (by decide) (by decide)
  exact ⟨w, user, db, reach, earned, accepted, found⟩

end

end Fintech
