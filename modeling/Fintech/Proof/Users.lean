import Fintech.Proof.Authority

/-!
# Users and their passwords

A user is there from the registration on, as the registration wrote it; a login is accepted exactly with its email and
with a password of the same key.
-/

namespace Fintech
open Relational Transactional

/-! ## Emails -/

open LowerCase

def jsSpaceCodes : List Nat := [9, 10, 11, 12, 13, 32, 160, 5760, 8192, 8193, 8194, 8195, 8196, 8197, 8198, 8199, 8200, 8201, 8202,
  8232, 8233, 8239, 8287, 12288, 65279]

theorem code_of_isJsSpace {c : Char} (h : isJsSpace c = true) : c.toNat ∈ jsSpaceCodes := by
  simp only [isJsSpace, Bool.or_eq_true, Bool.and_eq_true, decide_eq_true_eq, List.contains_eq_mem, List.mem_cons,
    List.not_mem_nil, or_false, Char.le_def, UInt32.le_iff_toNat_le] at h
  rcases h with named | ⟨low, high⟩
  · rcases named with rfl | rfl | rfl | rfl | rfl | rfl | rfl | rfl | rfl | rfl | rfl | rfl | rfl | rfl <;> decide
  · have first : '\u2000'.val.toNat = 8192 := rfl
    have last : '\u200a'.val.toNat = 8202 := rfl
    change c.val.toNat ∈ jsSpaceCodes
    simp only [jsSpaceCodes, List.mem_cons, List.not_mem_nil, or_false]
    omega

/-- No letter has a space for its lower case. -/
theorem isJsSpace_lowerLetter {c : Char} (h : isJsSpace (lowerLetter c) = true) : lowerLetter c = c := by
  refine lowerLetter_of_targets (P := (· ∈ jsSpaceCodes)) ?_ (code_of_isJsSpace h)
  have apart : letters.all fun l => jsSpaceCodes.all fun n => decide (n < l.target ∨ l.lower l.last < n) := by decide
  intro l hl n low high mem
  have apart := List.all_eq_true.mp (List.all_eq_true.mp apart l hl) n mem
  rw [decide_eq_true_eq] at apart
  omega

theorem isJsSpace_of_mem_lowerAt {before after : List Char} {c d : Char} (h : d ∈ lowerAt before c after)
    (space : isJsSpace c = false) : isJsSpace d = false := by
  unfold lowerAt at h
  split at h
  · obtain rfl := List.mem_singleton.mp h
    split <;> decide
  split at h
  · rcases List.mem_pair.mp h with rfl | rfl <;> decide
  · obtain rfl := List.mem_singleton.mp h
    rw [Bool.eq_false_iff]
    intro also
    rw [isJsSpace_lowerLetter also, space] at also
    cases also

theorem dropWhile_lower {cs : List Char} (h : cs.dropWhile isJsSpace = cs) :
    (LowerCase.lower [] cs).dropWhile isJsSpace = LowerCase.lower [] cs := by
  cases cs with
  | nil => rfl
  | cons c cs =>
      have first : isJsSpace c = false := by simpa using List.dropWhile_eq_self_iff.mp h
      rw [LowerCase.lower]
      cases text : lowerAt [] c cs with
      | nil => exact absurd text (lowerAt_ne_nil [] c cs)
      | cons d ds =>
          have kept := isJsSpace_of_mem_lowerAt (text ▸ List.mem_cons_self) first
          rw [List.cons_append, List.dropWhile_cons, kept]
          rfl

theorem rdropWhile_lower {cs : List Char} (h : cs.rdropWhile isJsSpace = cs) :
    (LowerCase.lower [] cs).rdropWhile isJsSpace = LowerCase.lower [] cs := by
  rcases List.eq_nil_or_concat cs with rfl | ⟨before, c, rfl⟩
  · rfl
  · rw [List.concat_eq_append] at h ⊢
    have last : isJsSpace c = false := by simpa using List.rdropWhile_eq_self_iff.mp h
    obtain ⟨front, text⟩ := lower_concat [] before c
    rw [List.rdropWhile_eq_self_iff, text]
    intro nonempty
    rw [List.getLast_append_of_ne_nil _ (lowerAt_ne_nil _ c []), isJsSpace_of_mem_lowerAt (List.getLast_mem _) last]
    exact Bool.false_ne_true

theorem normalizeEmail_normalizeEmail (email : String) :
    UsersService.normalizeEmail (UsersService.normalizeEmail email) = UsersService.normalizeEmail email := by
  have trimmed : jsTrim (toLowerCase (jsTrim email)) = toLowerCase (jsTrim email) := by
    apply trimBy_eq_self
    · rw [toLowerCase, String.toList_ofList]
      exact dropWhile_lower (dropWhile_trimBy (fun _ h => h) email)
    · rw [toLowerCase, String.toList_ofList]
      exact rdropWhile_lower (rdropWhile_trimBy (fun _ h => h) email)
  rw [UsersService.normalizeEmail, UsersService.normalizeEmail, trimmed, toLowerCase, toLowerCase, String.toList_ofList,
    lower_lower]

/-! ## Passwords -/

namespace PasswordService
variable {node : Node}

/-- `Number` reads the costs back. -/
structure ReadsCosts (node : Node) : Prop where
  n : node.number (toString scryptN) = some scryptN
  r : node.number (toString scryptR) = some scryptR
  p : node.number (toString scryptP) = some scryptP

theorem split_hash (salt : Digest 16) (password : String) :
    ((hash node salt password).toList.splitOn '$').map String.ofList = ["scrypt", toString scryptN, toString scryptR,
      toString scryptP, Encoding.base64Url.encode salt.1, Encoding.base64Url.encode (node.scrypt password salt.1).1] := by
  have letters (bytes : Bytes) : '$' ∉ (Encoding.base64Url.encode bytes).toList := by
    intro mem
    obtain ⟨d, lt, same⟩ := Encoding.base64Url.mem_encode mem
    have other : ∀ d < 2 ^ 6, Encoding.base64Url.char d ≠ '$' := by decide +kernel
    exact other d lt same
  rw [hash, String.toList_intercalate, show "$".toList = ['$'] from rfl, List.splitOn_intercalate]
  · simp only [List.map_map, Function.comp_def, String.ofList_toList, List.map_id']
  · simp only [List.map_cons, List.map_nil, List.forall_mem_cons, letters, not_false_eq_true, true_and]
    decide
  · simp

theorem verify_hash (reads : ReadsCosts node) (salt : Digest 16) (password given : String) :
    verify node given (hash node salt password) = true ↔ node.scrypt given salt.1 = node.scrypt password salt.1 := by
  have nonempty {bytes : Bytes} {n : Nat} (length : bytes.length = n + 1) : Encoding.base64Url.encode bytes ≠ "" := by
    intro empty
    have back := Encoding.base64Url.decode_encode bytes
    have nothing : Encoding.base64Url.decode "" = [] := by decide +kernel
    rw [empty, nothing] at back
    rw [← back] at length
    cases length
  unfold verify
  rw [split_hash]
  simp only [reads.n, reads.r, reads.p, Encoding.base64Url.decode_encode, salt.2, (node.scrypt password salt.1).2, beq_self_eq_true,
    Bool.true_and, bne_iff_ne, Bool.and_eq_true, ne_eq, nonempty salt.2, nonempty (node.scrypt password salt.1).2, not_false_eq_true,
    true_and, beq_iff_eq, Subtype.ext_iff]

theorem verifyOrBurn_some (password encodedHash : String) : verifyOrBurn node password (some encodedHash) = verify node password encodedHash := by
  by_cases empty : encodedHash = ""
  · subst empty
    rfl
  · simp [verifyOrBurn, Option.filter, empty]

end PasswordService

/-! ## Registrations -/

/-- Only a registration writes a user. -/
theorem Change.users {sha256Hex : String → String} {base : Nat → Db} {now : Db} {i : Request} {outcome : AttemptOutcome}
    {ws : List Write} (h : Change sha256Hex base now i outcome ws) : Slice.users.written ws = [] ∨
      ∃ draws input, i = .register draws input ∧ .insert (.user (UsersService.newUser draws input)) ∈ ws ∧
        Slice.users.written ws = [UsersService.newUser draws input] := by
  cases h with
  | registered draws input => exact .inr ⟨draws, input, rfl, by simp, by simp [openingWrites]⟩
  | opened draws userId currency => exact .inl (by simp [openingWrites])
  | closed closes =>
      cases closes with
      | already => exact .inl rfl
      | closed => exact .inl (by simp)
  | posted postings records => exact .inl (by simp)
  | transfer _ _ attempted =>
      cases attempted with
      | replayed => exact .inl rfl
      | completed t ws _ transferred =>
          obtain ⟨_, _, _, m, events, _, _, _, _, _, _, _, _, _, announces⟩ := transferred
          exact .inl (by simp [announces.written])
      | refused => exact .inl (by simp)
  | reversal _ attempted =>
      cases attempted with
      | replayed => exact .inl rfl
      | completed v ws _ reversed =>
          obtain ⟨_, _, _, m, events, _, _, _, _, _, _, _, _, _, _, _, _, announces⟩ := reversed
          exact .inl (by simp [announces.written])
      | refused => exact .inl (by simp)
  | payment _ intends =>
      cases intends with
      | existing => exact .inl rfl
      | created => exact .inl (by simp)
  | settled attempt settles =>
      cases settles with
      | duplicate => exact .inl rfl
      | repeated => exact .inl (by simp)
      | failed p events _ _ _ _ _ announces => exact .inl (by simp [announces.written])
      | succeeded p wallet clearing m events _ _ _ _ _ _ _ _ _ _ announces => exact .inl (by simp [announces.written])
  | other side =>
      refine .inl (List.filterMap_eq_nil_iff.mpr fun w hw => ?_)
      have side := side w hw
      cases w with
      | insert r => cases r <;> simp_all [Write.IsSide, isSideRow]
      | update old new => cases new <;> simp_all [Write.IsSide, isSideRow]

section
variable {node : Node} {jwt : JwtService} {w : ApiWorld}

/-- The user was registered by the process before commit `k`, and is there as it was written. -/
structure Registered (node : Node) (w : ApiWorld) (k : Nat) (u : User) (n : Nat) (r : Incoming) (input : AuthController.RegisterDto) :
    Prop where
  there : u ∈ (stateAt migrated w.base.log k).users
  request : w.requests[n]? = some r
  endpoint : r.endpoint = .register input
  committed : ∃ j, ∃ lt : j < w.base.log.length, j < k ∧ ∃ done, CommittedBy w w.base.log[j] n r done
  written : u = UsersService.newUser r.draws (AuthService.userInput node r.salt input.transform)

/-- The step lemma: a commit leaves the users as they are, or adds the one that its process registers. -/
theorem users_after (h : (api node jwt migrated).Reachable w) {j : Nat} (lt : j < w.base.log.length) :
    (stateAt migrated w.base.log (j + 1)).users = (stateAt migrated w.base.log j).users ∨
      ∃ u n r input, (stateAt migrated w.base.log (j + 1)).users.rows = (stateAt migrated w.base.log j).users.rows ++ [u] ∧
        Registered node w (j + 1) u n r input := by
  obtain ⟨_, _, _, ws, _, rows, accepts, change⟩ := done_of_certified (h.invariant.base.certified lt)
  rw [state_after lt rows]
  rcases change.users with none | ⟨draws, user, request, inserted, only⟩
  · exact .inl (Slice.users.table_same none)
  · obtain ⟨n, r, done, rest, made, served, events, own, permits⟩ := permitted h (List.getElem_mem lt)
    rw [request] at permits
    cases permits with
    | register input endpoint =>
        have added := Slice.users.rows_insert accepts inserted only
        refine .inr ⟨_, n, r, input, added, ?_, served, endpoint, ⟨j, lt, j.lt_succ_self, done, served, made, rest, events, own⟩,
          rfl⟩
        rw [state_after lt rows, Table.mem_def]
        exact added ▸ List.mem_append_right _ (List.mem_singleton_self _)

theorem user_stays (h : (api node jwt migrated).Reachable w) {i k : Nat} (le : i ≤ k) (hk : k ≤ w.base.log.length) {u : User}
    (hu : u ∈ (stateAt migrated w.base.log i).users) : u ∈ (stateAt migrated w.base.log k).users := by
  induction k, le using Nat.le_induction with
  | base => exact hu
  | succ j _ ih =>
      have there := ih (Nat.le_of_succ_le hk)
      rcases users_after h hk with same | ⟨_, _, _, _, added, _⟩
      · exact same ▸ there
      · rw [Table.mem_def, added]
        exact List.mem_append_left _ there

/-- The run lemma: every user has registered. -/
theorem users_registered (h : (api node jwt migrated).Reachable w) {k : Nat} (hk : k ≤ w.base.log.length) {u : User}
    (hu : u ∈ (stateAt migrated w.base.log k).users) : ∃ n r input, Registered node w k u n r input := by
  induction k with
  | zero => exact absurd hu (Table.not_mem_empty u)
  | succ j ih =>
      have old (there : u ∈ (stateAt migrated w.base.log j).users) : ∃ n r input, Registered node w (j + 1) u n r input := by
        obtain ⟨n, r, input, registered⟩ := ih (Nat.le_of_succ_le hk) there
        obtain ⟨i, lt, before, committed⟩ := registered.committed
        exact ⟨n, r, input, { registered with there := hu, committed := ⟨i, lt, by omega, committed⟩ }⟩
      rcases users_after h hk with same | ⟨u', n, r, input, added, registered⟩
      · exact old (same ▸ hu)
      · have split : u ∈ (stateAt migrated w.base.log j).users.rows ++ [u'] := added ▸ hu
        rcases List.mem_append.mp split with there | new
        · exact old there
        · exact ⟨n, r, input, List.mem_singleton.mp new ▸ registered⟩

theorem Registered.email {k n : Nat} {u : User} {r : Incoming} {input : AuthController.RegisterDto}
    (h : Registered node w k u n r input) : u.email = UsersService.normalizeEmail input.email := by
  rw [h.written]
  simp only [UsersService.newUser, AuthService.userInput, AuthController.RegisterDto.transform, normalizeEmail_normalizeEmail]

theorem Registered.verify (reads : PasswordService.ReadsCosts node) {k n : Nat} {u : User} {r : Incoming}
    {input : AuthController.RegisterDto} (h : Registered node w k u n r input) (given : String) :
    PasswordService.verifyOrBurn node given (some u.passwordHash) = true ↔
      node.scrypt given r.salt.1 = node.scrypt input.password r.salt.1 := by
  rw [PasswordService.verifyOrBurn_some, h.written]
  simp only [UsersService.newUser, AuthService.userInput, AuthController.RegisterDto.transform]
  exact PasswordService.verify_hash reads r.salt input.password given

/-- A login is accepted as a user exactly if the user has registered with the email, and the password has the key of the
one that was registered. -/
theorem logins_exact (h : (api node jwt migrated).Reachable w) (reads : PasswordService.ReadsCosts node) {k : Nat}
    (hk : k ≤ w.base.log.length) (login : AuthController.LoginDto) (user : SafeUser) :
    AuthService.login node (UsersService.findByEmailWithPassword login.transform.email (stateAt migrated w.base.log k)) login.password =
        .ok user ↔
      ∃ u n r input, Registered node w k u n r input ∧ user = UsersService.toSafeUser u ∧
        UsersService.normalizeEmail input.email = UsersService.normalizeEmail login.email ∧
        node.scrypt login.password r.salt.1 = node.scrypt input.password r.salt.1 := by
  constructor
  · intro ok
    obtain ⟨u, found, verified, rfl⟩ := AuthService.login_eq_ok ok
    obtain ⟨n, r, input, registered⟩ := users_registered h hk (List.mem_of_find?_eq_some found)
    have email : u.email = UsersService.normalizeEmail login.transform.email := by simpa using List.find?_some found
    refine ⟨u, n, r, input, registered, rfl, ?_, (registered.verify reads _).mp verified⟩
    rw [← registered.email, email, AuthController.LoginDto.transform, normalizeEmail_normalizeEmail]
  · rintro ⟨u, n, r, input, registered, rfl, email, same⟩
    have own : u.email = UsersService.normalizeEmail login.transform.email := by
      rw [registered.email, email, AuthController.LoginDto.transform, normalizeEmail_normalizeEmail]
    have found : UsersService.findByEmailWithPassword login.transform.email (stateAt migrated w.base.log k) = some u := by
      cases found : UsersService.findByEmailWithPassword login.transform.email (stateAt migrated w.base.log k) with
      | none => exact absurd own (by simpa using List.find?_eq_none.mp found u registered.there)
      | some u' =>
          have email' : u'.email = UsersService.normalizeEmail login.transform.email := by simpa using List.find?_some found
          have sound := (reachable_sound migrated_sound h.invariant.base).1 k hk
          have unique : Row.user u' = .user u := by
            refine sound.unique _ (List.mem_of_find?_eq_some found : u' ∈ _) _ registered.there (.userEmail u.email) ?_ ?_
            · simp [Row.keys, Row.slots, email', own]
            · simp [Row.keys, Row.slots]
          rw [Row.user.inj unique]
    rw [found, AuthService.login, if_pos ((registered.verify reads _).mpr same)]

theorem sampleNode_readsCosts : PasswordService.ReadsCosts sampleNode := by
  constructor <;> decide

theorem logins_exact_sample : ∃ (w : ApiWorld) (login : AuthController.LoginDto) (user : SafeUser),
    (api sampleNode sampleJwt migrated).Reachable w ∧ w.base.log.length = 3 ∧
    AuthService.login sampleNode (UsersService.findByEmailWithPassword login.transform.email (stateAt migrated w.base.log 3))
      login.password = .ok user := by
  obtain ⟨w, reach, log⟩ := sample_served
  obtain ⟨length, balances, _, _⟩ := sampleServed_eq
  rw [← log] at length balances
  -- the user is the owner of the wallet that was paid
  have paid : 5000 ∈ (stateAt migrated w.base.log 3).wallets.rows.map Wallet.currentBalanceMinor := balances ▸ List.mem_singleton_self _
  obtain ⟨wallet, hw, _⟩ := List.mem_map.mp paid
  have sound := (reachable_sound migrated_sound reach.invariant.base).1 3 length.ge
  have owner : Key.row .user wallet.userId ∈ (Row.wallet wallet).references := by simp [Row.references]
  obtain ⟨u, hu, _⟩ := Slice.users.exists_of_reference sound hw owner
  obtain ⟨n, r, input, registered⟩ := users_registered reach length.ge hu
  refine ⟨w, ⟨input.email, input.password⟩, UsersService.toSafeUser u, reach, length, ?_⟩
  exact (logins_exact reach sampleNode_readsCosts length.ge _ _).mpr ⟨u, n, r, input, registered, rfl, rfl, rfl⟩

end

end Fintech
