import Fintech.Model.System
import Fintech.Proof.Keys

/-!
# What opening and closing a wallet write

These transactions see the latest commit at each statement, so what they saw of a row counts only
from the statement on that locked it.
-/

namespace Fintech
open Relational Transactional

variable {base : Nat → Db} {v : View Settings Row Key}

/-- The writes of opening a wallet. -/
def openingWrites (draws : Draws) (userId : Uuid) (currency : Currency) : List Write :=
  [.insert (.ledgerAccount (newAccount draws currency)), .insert (.wallet (newWallet draws userId currency))]

theorem ensures_createWallet {draws : Draws} {userId : Uuid} {currency : Currency} (h : Tracks base v []) :
    (WalletsService.createWallet draws userId currency).Ensures base (Tx.yields base fun _ outcome ws =>
      outcome = .ok (.wallet (toWalletResponse (newWallet draws userId currency))) ∧
        ws = openingWrites draws userId currency) v := by
  refine ensures_bind (ensures_create h fun v₁ h₁ => ?_)
  refine ensures_bind (ensures_create h₁ fun v₂ h₂ => ?_)
  exact ensures_pure ⟨_, h₂, fun _ _ => ⟨rfl, rfl⟩⟩

theorem ensures_createWithInitialWallet {draws : Draws} {input : UsersService.CreateUserInput} (h : Tracks base v []) :
    (UsersService.createWithInitialWallet draws input).Ensures base (Tx.yields base fun _ outcome ws =>
      outcome = .ok (.registered (UsersService.toSafeUser (UsersService.newUser draws input))
        (toWalletResponse (newWallet draws (draws.id .user) (input.currency.getD .usd)))) ∧
        ws = .insert (.user (UsersService.newUser draws input)) ::
          openingWrites draws (draws.id .user) (input.currency.getD .usd)) v := by
  refine ensures_bind (ensures_create h fun v₁ h₁ => ?_)
  refine ensures_bind (ensures_create h₁ fun v₂ h₂ => ?_)
  refine ensures_bind (ensures_create h₂ fun v₃ h₃ => ?_)
  exact ensures_pure ⟨_, h₃, fun _ _ => ⟨rfl, rfl⟩⟩

/-! ## Closing -/

/-- The wallet as a close leaves it. -/
def closedWallet (draws : Draws) (w : Wallet) : Wallet :=
  { w with status := .closed, updatedAt := draws.date .wallet }

/-- What a committed close did: the wallet it returned and its writes. -/
inductive Closes (now : Db) (draws : Draws) (userId : Uuid) (walletId : String) : Wallet → List Write → Prop
  | already (w : Wallet) (mem : w ∈ now.wallets) (named : Uuid.parse? walletId = some w.id)
      (closed : w.status = .closed) : Closes now draws userId walletId w []
  | closed (w : Wallet) (mem : w ∈ now.wallets) (named : Uuid.parse? walletId = some w.id) (active : w.status = .active)
      (empty : w.currentBalanceMinor = 0) : Closes now draws userId walletId (closedWallet draws w)
        [.update (.wallet w) (.wallet (closedWallet draws w))]

/-- A lock, with the keys that it holds from then on. -/
theorem ensures_lock_held {ws : List Write} {α : Type} {f : Db → Except DbError α} {found : α → List Row}
    {Q : Except HttpException α → View Settings Row Key → Prop} (h : Tracks base v ws)
    (post : ∀ v' a, f ((base v.executed).write ws) = .ok a → Tracks base v' ws → v.executed ≤ v'.executed →
      (∀ r ∈ found a, (v.executed, r.pk) ∈ v'.touched) → Q (.ok a) v') :
    (Tx.lock f found).Ensures base Q v := by
  refine ⟨Prog.wp_exec.mpr ⟨fun _ _ => trivial, ?_⟩⟩
  intro a e ok
  simp only [bind_eq_ok, pure, Except.pure, Except.ok.injEq, Prod.mk.injEq, h.seen] at ok
  obtain ⟨a, result, rfl, rfl⟩ := ok
  refine post _ a result (h.quiet rfl) (Nat.le_succ _) fun r hr => List.mem_append_right _ ?_
  exact List.mem_map.mpr ⟨r.pk, List.mem_append_left _ (List.mem_map.mpr ⟨r, hr, rfl⟩), rfl⟩

theorem ensures_query_later {ws : List Write} {α : Type} {f : Db → Except DbError α}
    {Q : Except HttpException α → View Settings Row Key → Prop} (h : Tracks base v ws)
    (post : ∀ v' a, f ((base v.executed).write ws) = .ok a → Tracks base v' ws → v.executed ≤ v'.executed → Q (.ok a) v') :
    (Tx.query f).Ensures base Q v :=
  @ensures_lock_held base v ws α f (fun _ => []) Q h fun v' a ok h' later _ => post v' a ok h' later

theorem findTarget_eq_ok {walletId : String} {userId : Uuid} {db : Db} {w : Wallet}
    (h : WalletsService.findTarget walletId userId db = .ok (some w)) :
    w ∈ db.wallets ∧ Uuid.parse? walletId = some w.id := by
  obtain ⟨id, cast, found⟩ := bind_eq_ok.mp h
  simp only [pure, Except.pure, Except.ok.injEq, Option.filter_eq_some_iff] at found
  obtain ⟨mem, rfl⟩ := Table.find?_eq_some.mp found.1
  exact ⟨mem, castUuid_eq_ok.mp cast⟩

theorem ensures_closeWallet {draws : Draws} {userId : Uuid} {walletId : String}
    (le : ∀ m n, m ≤ n → Store.Le (base m) (base n)) (h : Tracks base v []) :
    (WalletsService.closeWallet draws userId walletId).Ensures base
      (Tx.yields base fun now => Closes now draws userId walletId) v := by
  refine ensures_bind (ensures_query_later h fun v₁ found ok h₁ later₁ => ?_)
  refine ensures_bind (ensures_orThrow (fun _ => trivial) fun target some => ?_)
  subst some
  obtain ⟨target_mem, named⟩ := findTarget_eq_ok ok
  refine ensures_bind (ensures_lock_held h₁ fun v₂ _ _ h₂ later₂ _ => ?_)
  refine ensures_bind (ensures_lock_held h₂ fun v₃ locked ok h₃ later₃ held => ?_)
  obtain ⟨x, x_mem, same⟩ := le _ _ (later₁.trans later₂) (.wallet target) target_mem
  have locked : (v₂.executed, .row .wallet target.id) ∈ v₃.touched := by
    cases x with
    | wallet w =>
        have id : w.id = target.id := by simpa [Row.pk] using same
        cases ok
        refine id ▸ held (.wallet w) ?_
        simp [Table.find?_eq_some.mpr ⟨x_mem, id⟩]
    | _ => cases same
  -- from here on the wallet is locked: what is seen of it is what is committed to
  refine Tx.Ensures.touched (Q := Tx.yields base fun now w ws =>
    Store.Same (.row .wallet target.id) (base v₃.executed) now → Closes now draws userId walletId w ws) ?_ ?_
  · refine ensures_bind (ensures_query h₃ fun v₄ current found h₄ => ?_)
    obtain ⟨mem, same⟩ := Table.find?_eq_some.mp (findOrThrow_eq_ok.mp found)
    have named : Uuid.parse? walletId = some current.id := named.trans (congrArg _ same.symm)
    have kept {now : Db} (h : Store.Same (.row .wallet target.id) (base v₃.executed) now) : current ∈ now.wallets := by
      refine h.2 (.wallet current) ?_ mem
      rw [← same]
      rfl
    simp only [Tx.andThen]
    split
    · rename_i closed
      exact ensures_pure ⟨[], h₄, fun now settled h => .already current (kept h) named closed⟩
    · rename_i open_
      refine ensures_bind (ensures_throwIf (fun _ => trivial) fun frozen => ?_)
      refine ensures_bind (ensures_throwIf (fun _ => trivial) fun empty => ?_)
      have active : current.status = .active := by
        cases status : current.status <;> simp_all
      refine ensures_update h₄ (fun db old found => (Table.find?_eq_some.mp found).1) (fun _ => rfl)
        fun v₅ old found h₅ => ⟨_, h₅, fun now settled h => ?_⟩
      have old_mem : old ∈ now.wallets := (h₅.accepted now settled).1.mem
      obtain rfl : old = current :=
        Table.eq_of_key_eq old_mem (kept h) (Table.find?_eq_some.mp found).2
      exact .closed old old_mem named active (not_not.mp empty)
  · intro r v' hr touched
    cases r with
    | error e => trivial
    | ok w =>
        obtain ⟨ws, tracks, holds⟩ := hr
        exact ⟨ws, tracks, fun now settled => holds now settled (settled.same _ _ (touched locked) _ later₃)⟩

end Fintech
