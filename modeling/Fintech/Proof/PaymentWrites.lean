import Fintech.Model.Payments
import Fintech.Proof.TransferWrites

/-!
# What a payment intent and a settlement write

A settlement keeps the provider's evidence; the first one for a pending payment makes it terminal,
and credits the wallet if the payment succeeded.
-/

namespace Fintech
open Relational Transactional

theorem ensures_map {base : Nat → Db} {v : View Settings Row Key} {α β : Type} {p : Tx α} {f : α → β}
    {Q : Except HttpException β → View Settings Row Key → Prop}
    (h : p.Ensures base (Tx.andThen base (fun a => pure (f a)) Q) v) : Tx.Ensures base (f <$> p) Q v :=
  ensures_bind h

namespace PaymentsService

/-- The payment that an event is about. -/
structure Matches (event : VerifiedPaymentEvent) (provider : PaymentProvider) (payment : Payment) : Prop where
  provider : payment.provider = provider
  reference : payment.reference = event.reference
  amount : toString payment.amountMinor = event.amountMinor
  currency : payment.currency = event.currency

/-- The payment as a settlement leaves it. -/
def terminated (draws : Draws) (event : VerifiedPaymentEvent) (ledgerTransactionId : Option Uuid) (p : Payment) : Payment :=
  { p with status := event.status, completedAt := some (draws.date .payment), ledgerTransactionId }

/-- No evidence of the event has been seen. -/
def Unseen (seen : Db) (event : VerifiedPaymentEvent) (provider : PaymentProvider) : Prop :=
  ∀ e ∈ seen.providerEvents, ¬ (e.provider = provider ∧ e.eventId = event.eventId)

inductive Settles (seen : Db) (draws : Draws) (event : VerifiedPaymentEvent) (provider : PaymentProvider) :
    AttemptOutcome → List Write → Prop
  | duplicate (payment : Payment) (existing : ProviderEvent) (mem : payment ∈ seen.payments)
      (matched : Matches event provider payment) (known : existing ∈ seen.providerEvents)
      (same : existing.provider = provider ∧ existing.eventId = event.eventId)
      (payload : existing.payloadHash = event.payloadHash) (own : existing.paymentId = payment.id) :
      Settles seen draws event provider (.ok (.received payment.id payment.status)) []
  | repeated (payment : Payment) (mem : payment ∈ seen.payments) (matched : Matches event provider payment)
      (unseen : Unseen seen event provider) (status : payment.status = event.status) :
      Settles seen draws event provider (.ok (.received payment.id payment.status))
        [.insert (.providerEvent (evidence draws payment event provider))]
  | failed (payment : Payment) (events : List Write) (mem : payment ∈ seen.payments)
      (matched : Matches event provider payment) (unseen : Unseen seen event provider)
      (pending : payment.status = .pending) (status : event.status = .failed)
      (announces : Announces seen draws (settledEvent draws payment event.status) events) :
      Settles seen draws event provider (.ok (.received payment.id event.status))
        ([.insert (.providerEvent (evidence draws payment event provider)),
          .update (.payment payment) (.payment (terminated draws event none payment))] ++ events)
  | succeeded (payment : Payment) (wallet : Wallet) (clearing : LedgerAccount) (m : Movement) (events : List Write)
      (mem : payment ∈ seen.payments) (matched : Matches event provider payment) (unseen : Unseen seen event provider)
      (pending : payment.status = .pending) (status : event.status = .succeeded)
      (wallet_mem : wallet ∈ seen.wallets) (wallet_id : wallet.id = payment.walletId)
      (clearing_mem : clearing ∈ seen.ledgerAccounts)
      (clearing_key : clearing.systemKey = some (clearingKey payment.currency))
      (records : Records draws (ledgerInput payment clearing wallet) m)
      (announces : Announces seen draws (settledEvent draws payment event.status) events) :
      Settles seen draws event provider (.ok (.received payment.id event.status))
        (.insert (.providerEvent (evidence draws payment event provider)) :: (m.writes ++
          [.update (.payment payment) (.payment (terminated draws event (some m.opened.id) payment))] ++ events))

/-- The refusal of evidence that is not about the payment's amount or currency. -/
def mismatch : HttpException := conflict "Provider amount or currency does not match payment intent"

/-- The other refusals of a settlement that do not come from the ledger. -/
def refusals : List HttpException := [
  notFound "Unknown provider reference", conflict "Provider event identity was reused",
  conflict "Conflicting terminal provider outcome"]

/-- Why a settlement fails. -/
inductive SettleFailure (seen : Db) (event : VerifiedPaymentEvent) (provider : PaymentProvider) : HttpException → Prop
  | refused {e} : e ∈ refusals → SettleFailure seen event provider e
  | mismatched (payment : Payment) (mem : payment ∈ seen.payments) (reference : payment.reference = event.reference)
      (differs : toString payment.amountMinor ≠ event.amountMinor ∨ payment.currency ≠ event.currency) :
      SettleFailure seen event provider mismatch
  | unposted {e} (payment : Payment) (wallet : Wallet) (clearing : LedgerAccount) (payment_mem : payment ∈ seen.payments)
      (wallet_mem : wallet ∈ seen.wallets) (wallet_id : wallet.id = payment.walletId)
      (clearing_mem : clearing ∈ seen.ledgerAccounts)
      (clearing_key : clearing.systemKey = some (clearingKey payment.currency)) :
      PostFailure seen (ledgerInput payment clearing wallet) e → SettleFailure seen event provider e

theorem ensures_credit {s : Db} {v : View Settings Row Key} {ws : List Write} {draws : Draws} {payment : Payment}
    {event : VerifiedPaymentEvent} {provider : PaymentProvider}
    {Q : Except HttpException Uuid → View Settings Row Key → Prop} (h : Tracks (fun _ => s) v ws)
    (wallets : (s.write ws).wallets = s.wallets) (accounts : (s.write ws).ledgerAccounts = s.ledgerAccounts)
    (mem : payment ∈ s.payments) (failed : ∀ v' e, SettleFailure s event provider e → Q (.error e) v')
    (done : ∀ v' wallet clearing m, wallet ∈ s.wallets → wallet.id = payment.walletId → clearing ∈ s.ledgerAccounts →
      clearing.systemKey = some (clearingKey payment.currency) → Records draws (ledgerInput payment clearing wallet) m →
      Tracks (fun _ => s) v' (ws ++ m.writes) → Q (.ok m.opened.id) v') :
    (credit draws payment).Ensures (fun _ => s) Q v := by
  refine ensures_bind (ensures_query h fun v₁ wallet found h₁ => ?_)
  rw [wallets] at found
  obtain ⟨wallet_mem, wallet_id⟩ := Table.find?_eq_some.mp (findOrThrow_eq_ok.mp found)
  refine ensures_bind (ensures_query h₁ fun v₂ clearing found h₂ => ?_)
  rw [accounts] at found
  have found := findOrThrow_eq_ok.mp found
  have clearing_mem : clearing ∈ s.ledgerAccounts := List.mem_of_find?_eq_some found
  have clearing_key : clearing.systemKey = some (clearingKey payment.currency) := by simpa using List.find?_some found
  refine ensures_bind (ensures_postWithinTransaction h₂ (fun v' e unposted _ => ?_) fun v₃ m _ records h₃ => ?_)
  · exact failed v' e (.unposted payment wallet clearing mem wallet_mem wallet_id clearing_mem clearing_key
      (unposted.congr accounts.symm wallets.symm))
  · exact ensures_pure (done v₃ wallet clearing m wallet_mem wallet_id clearing_mem clearing_key records h₃)

theorem ensures_settle {s : Db} {v : View Settings Row Key} {draws : Draws} {event : VerifiedPaymentEvent}
    {provider : PaymentProvider} {Q : Except HttpException AttemptOutcome → View Settings Row Key → Prop}
    (h : Tracks (fun _ => s) v []) (failed : ∀ v' e, SettleFailure s event provider e → Q (.error e) v')
    (done : ∀ v' outcome ws, Settles s draws event provider outcome ws → Tracks (fun _ => s) v' ws → Q (.ok outcome) v') :
    (settle draws event provider).Ensures (fun _ => s) Q v := by
  refine ensures_bind (ensures_lock h fun v₁ found ok h₁ => ?_)
  cases ok
  refine ensures_bind (ensures_orThrow (fun _ => failed _ _ (.refused (by simp [refusals]))) fun payment found => ?_)
  have mem : payment ∈ s.payments := List.mem_of_find?_eq_some found
  have named : payment.provider = provider ∧ payment.reference = event.reference := by
    simpa using List.find?_some found
  refine ensures_bind (ensures_throwIf (fun differs => failed _ _ (.mismatched payment mem named.2 differs)) fun agrees => ?_)
  rw [not_or, not_not, not_not] at agrees
  have matched : Matches event provider payment := ⟨named.1, named.2, agrees.1, agrees.2⟩
  refine ensures_bind (ensures_read h₁ fun v₂ h₂ => ?_)
  rw [Db.write_nil]
  cases known : s.providerEvents.rows.find? fun e => e.provider = provider ∧ e.eventId = event.eventId with
  | some existing =>
      refine ensures_bind (ensures_throwIf (fun _ => failed _ _ (.refused (by simp [refusals]))) fun reused => ?_)
      rw [not_or, not_not, not_not] at reused
      exact ensures_pure (done v₂ _ [] (.duplicate payment existing mem matched
        (List.mem_of_find?_eq_some known) (by simpa using List.find?_some known) reused.1 reused.2) h₂)
  | none =>
      have unseen : Unseen s event provider := by
        intro e he
        simpa using List.find?_eq_none.mp known e he
      refine ensures_bind (ensures_throwIf (fun _ => failed _ _ (.refused (by simp [refusals]))) fun conflicting => ?_)
      refine ensures_bind (ensures_setConfig h₂ fun v₃ h₃ => ?_)
      refine ensures_bind (ensures_create h₃ fun v₄ h₄ => ?_)
      simp only [Tx.andThen]
      by_cases pending : payment.status = .pending
      · rw [if_neg (not_not.mpr pending)]
        have there (ws) (clear : Slice.payments.written ws = []) :
            (s.write (.insert (.providerEvent (evidence draws payment event provider)) :: ws)).payments.find? payment.id =
              some payment := by
          have table := Slice.payments.table_write s (.insert (.providerEvent (evidence draws payment event provider)) :: ws)
          rw [Slice.written_cons, clear] at table
          exact (congrArg (·.find? payment.id) table).trans (Table.find?_key mem)
        -- the update of the payment and its event, after the ledger has been written
        have rest (v₅) (ledgerTransactionId : Option Uuid) (ws : List Write)
            (clear : ∀ {ρ : Type} [Keyed ρ Uuid] {slice : Slice ρ},
              slice.name ∉ [.ledgerAccount, .wallet, .ledgerTransaction, .ledgerPosting] → slice.written ws = [])
            (h₅ : Tracks (fun _ => s) v₅ (.insert (.providerEvent (evidence draws payment event provider)) :: ws))
            (settles : ∀ events, Announces s draws (settledEvent draws payment event.status) events →
              Settles s draws event provider (.ok (.received payment.id event.status))
                (.insert (.providerEvent (evidence draws payment event provider)) :: (ws ++
                  [.update (.payment payment) (.payment (terminated draws event ledgerTransactionId payment))] ++ events))) :
            Tx.Ensures (fun _ => s) (do
              let _ ← Tx.update (·.payments.find? payment.id) .payment fun p =>
                { p with status := event.status, completedAt := some (draws.date .payment), ledgerTransactionId }
              Tx.createMany fun db => .ok (db.eventRows (settledEvent draws payment event.status) draws.delivery
                (draws.createdAt .webhookDelivery))
              return (.ok (.received payment.id event.status) : AttemptOutcome)) Q v₅ := by
          refine ensures_bind (ensures_update h₅ (fun db old found => (Table.find?_eq_some.mp found).1) (fun _ => rfl)
            fun v₆ old found h₆ => ?_)
          obtain rfl : old = payment := Option.some.inj (found.symm.trans (there ws (clear (by simp))))
          refine ensures_bind (ensures_announce s h₆ ?_ ?_ fun v₇ events announces h₇ => ?_)
          · exact (Slice.webhookSubscriptions.table_write s _).trans (by simp [clear])
          · exact (Slice.webhookDeliveries.table_write s _).trans (by simp [clear])
          · refine ensures_pure (done v₇ _ _ (settles events announces) ?_)
            simpa [terminated] using h₇
        by_cases success : event.status = .succeeded
        · rw [if_pos success]
          refine ensures_bind (ensures_map (ensures_credit h₄ rfl rfl mem failed ?_))
          intro v₅ wallet clearing m wallet_mem wallet_id clearing_mem clearing_key records h₅
          refine ensures_pure (rest v₅ _ m.writes (fun other => Movement.written_other other) h₅ ?_)
          exact fun events announces => .succeeded payment wallet clearing m events mem matched unseen pending success
            wallet_mem wallet_id clearing_mem clearing_key records announces
        · rw [if_neg success]
          have failure : event.status = .failed := by
            have := event.terminal
            cases status : event.status <;> simp_all
          refine ensures_bind (ensures_pure (rest v₄ none [] (fun _ => rfl) h₄ ?_))
          exact fun events announces => .failed payment events mem matched unseen pending failure announces
      · rw [if_pos pending]
        refine ensures_pure (done v₄ _ _ (.repeated payment mem matched unseen ?_) h₄)
        by_contra other
        exact conflicting ⟨pending, other⟩

/-- What a committed settlement did, wherever it commits. -/
theorem settle_yields {s : Db} {v : View Settings Row Key} {draws : Draws} {event : VerifiedPaymentEvent}
    {provider : PaymentProvider} (h : Tracks (fun _ => s) v []) :
    (settle draws event provider).Ensures (fun _ => s)
      (Tx.yields (fun _ => s) fun _ => Settles s draws event provider) v :=
  ensures_settle h (fun _ _ _ => trivial) fun _ _ ws settles tracks => ⟨ws, tracks, fun _ _ => settles⟩

/-! ## The intent -/

/-- What a committed transaction of `create` did: the payment it returned and its writes. -/
inductive Intends (base : Nat → Db) (draws : Draws) (usePaystack : Bool) (userId : Uuid) (key hash amountMinor : String) :
    Payment → List Write → Prop
  | existing (n : Nat) (p : Payment) (mem : p ∈ (base n).payments) (user : p.userId = userId)
      (named : p.idempotencyKey = key) (same : p.requestHash = hash) :
      Intends base draws usePaystack userId key hash amountMinor p []
  | created (n : Nat) (wallet : Wallet) (mem : wallet ∈ (base n).wallets) (owned : wallet.userId = userId)
      (active : wallet.status = .active)
      (valid : usePaystack → validateIntent amountMinor wallet.currency = .ok ()) :
      Intends base draws usePaystack userId key hash amountMinor
        (intent draws usePaystack wallet userId key hash ((bigInt? amountMinor).getD 0))
        [.insert (.payment (intent draws usePaystack wallet userId key hash ((bigInt? amountMinor).getD 0)))]

theorem ensures_createIntent {base : Nat → Db} {v : View Settings Row Key} {draws : Draws} {usePaystack : Bool}
    {userId : Uuid} {key hash walletId amountMinor : String} (h : Tracks base v []) :
    (createIntent draws usePaystack userId key hash walletId amountMinor).Ensures base
      (Tx.yields base fun _ => Intends base draws usePaystack userId key hash amountMinor) v := by
  refine ensures_bind (ensures_read h fun v₁ h₁ => ?_)
  rw [Db.write_nil]
  cases found : findByKey userId key (base v.executed) with
  | some existing =>
      refine ensures_lift (fun _ _ => trivial) fun p ok => ?_
      simp only [replay, bind_unit_eq_ok, failIf_eq_ok, not_not, pure, Except.pure, Except.ok.injEq] at ok
      obtain ⟨same, rfl⟩ := ok
      have named : existing.userId = userId ∧ existing.idempotencyKey = key := by simpa using List.find?_some found
      exact ⟨[], h₁, fun _ _ => .existing v.executed existing (List.mem_of_find?_eq_some found) named.1 named.2 same⟩
  | none =>
      refine ensures_bind (ensures_query h₁ fun v₂ found ok h₂ => ?_)
      refine ensures_bind (ensures_orThrow (fun _ => trivial) fun wallet some => ?_)
      subst some
      rw [Db.write_nil] at ok
      obtain ⟨mem, _, owned⟩ := @TransfersService.findSourceWallet_eq_ok walletId userId _ _ ok
      refine ensures_bind (ensures_throwIf (fun _ => trivial) fun active => ?_)
      refine ensures_bind (ensures_lift (fun _ _ => trivial) fun _ valid => ?_)
      refine ensures_bind (ensures_setConfig h₂ fun v₃ h₃ => ?_)
      refine ensures_bind (ensures_create h₃ fun v₄ h₄ => ?_)
      refine ensures_pure ⟨_, h₄, fun _ _ => .created _ wallet mem owned (not_not.mp active) fun paystack => ?_⟩
      rwa [if_pos paystack] at valid

end PaymentsService

end Fintech
