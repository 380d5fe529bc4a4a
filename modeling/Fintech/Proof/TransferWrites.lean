import Fintech.Model.Transfers
import Fintech.Proof.Keys
import Fintech.Proof.Posting

/-!
# What a transfer and a reversal write

Each is one movement together with its record, its audit row and its outbox event.
-/

namespace Fintech
open Relational Transactional

/-- The inserts of an outbox event and of the deliveries that the trigger fans out from it. -/
inductive Announces (seen : Db) (draws : Draws) (event : OutboxEvent) : List Write → Prop
  | intro (db : Db) : db.webhookSubscriptions = seen.webhookSubscriptions →
      db.webhookDeliveries = seen.webhookDeliveries →
      Announces seen draws event ((db.eventRows event draws.delivery (draws.createdAt .webhookDelivery)).map .insert)

theorem ensures_announce {base : Nat → Db} {v : View Settings Row Key} {ws : List Write} {draws : Draws}
    {event : OutboxEvent} (seen : Db) {Q : Except HttpException Unit → View Settings Row Key → Prop}
    (h : Tracks base v ws) (subscriptions : ((base v.executed).write ws).webhookSubscriptions = seen.webhookSubscriptions)
    (deliveries : ((base v.executed).write ws).webhookDeliveries = seen.webhookDeliveries)
    (post : ∀ v' events, Announces seen draws event events → Tracks base v' (ws ++ events) → Q (.ok ()) v') :
    (Tx.createMany fun db => .ok (db.eventRows event draws.delivery (draws.createdAt .webhookDelivery))).Ensures base Q v := by
  refine ensures_createMany h fun v' rs found h' => ?_
  cases found
  exact post v' _ (.intro _ subscriptions deliveries) h'

theorem Announces.written {seen : Db} {draws : Draws} {event : OutboxEvent} {ws : List Write}
    (h : Announces seen draws event ws) {ρ : Type} [Keyed ρ Uuid] {slice : Slice ρ}
    (other : slice.name ∉ [.outboxEvent, .webhookDelivery]) : slice.written ws = [] := by
  simp only [List.mem_cons, List.not_mem_nil, or_false, not_or] at other
  have events (r) : slice.of (.outboxEvent r) = none := slice.of_eq_none (Ne.symm other.1)
  have deliveries (r) : slice.of (.webhookDelivery r) = none := slice.of_eq_none (Ne.symm other.2)
  obtain ⟨db, _, _⟩ := h
  rw [Slice.written_map]
  simp [Db.eventRows, events, deliveries, List.filterMap_map]

namespace TransfersService

inductive Transferred (seen : Db) (draws : Draws) (senderUserId : Uuid) (request : NormalizedTransferRequest) :
    Transfer → List Write → Prop
  | intro (source destination : Wallet) (beneficiaryId : Option Uuid) (m : Movement) (events : List Write)
      (source_mem : source ∈ seen.wallets) (owned : source.userId = senderUserId) (active : source.status = .active)
      (destination_mem : destination ∈ seen.wallets) (active' : destination.status = .active)
      (different : source.id ≠ destination.id) (currency : source.currency = destination.currency)
      (beneficiary : ∀ id, beneficiaryId = some id → ∃ b ∈ seen.beneficiaries, b.id = id ∧
        b.ownerUserId = senderUserId ∧ b.walletId = destination.id ∧ b.deletedAt = none)
      (records : Records draws (ledgerInput draws source destination request.amountMinor) m)
      (announces : Announces seen draws (completedEvent draws
        (completedTransfer draws senderUserId source destination beneficiaryId m.opened.id request.amountMinor)) events) :
      Transferred seen draws senderUserId request
        (completedTransfer draws senderUserId source destination beneficiaryId m.opened.id request.amountMinor)
        (m.writes ++ [.insert (.transfer
            (completedTransfer draws senderUserId source destination beneficiaryId m.opened.id request.amountMinor)),
          .insert (.auditLog (createdAudit draws
            (completedTransfer draws senderUserId source destination beneficiaryId m.opened.id request.amountMinor)))] ++
          events)

/-- The refusals of a transfer that do not come from the ledger. -/
def refusals : List HttpException := [
  notFound "Source wallet not found", conflict "Source wallet must be active", notFound "Beneficiary not found",
  notFound "Destination wallet is unavailable", conflict "Destination wallet must be active",
  badRequest "Source and destination wallets must be different",
  badRequest "Internal transfers must use the same currency"]

/-- Why the work of a transfer fails. -/
inductive WorkFailure (seen : Db) (draws : Draws) (senderUserId : Uuid) (request : NormalizedTransferRequest) :
    HttpException → Prop
  | refused {e} : e ∈ refusals → WorkFailure seen draws senderUserId request e
  | unresolved : request.beneficiaryId = none → request.destinationWalletId = none →
      WorkFailure seen draws senderUserId request (internalServerError "Transfer destination was not resolved")
  | unposted {e} (source destination : Wallet) (source_mem : source ∈ seen.wallets)
      (named : Uuid.parse? request.sourceWalletId = some source.id) (owned : source.userId = senderUserId)
      (destination_mem : destination ∈ seen.wallets) (different : source.id ≠ destination.id)
      (currency : source.currency = destination.currency) :
      PostFailure seen (ledgerInput draws source destination request.amountMinor) e →
      WorkFailure seen draws senderUserId request e

theorem findSourceWallet_eq_ok {id : String} {senderUserId : Uuid} {db : Db} {w : Wallet}
    (h : findSourceWallet id senderUserId db = .ok (some w)) :
    w ∈ db.wallets ∧ Uuid.parse? id = some w.id ∧ w.userId = senderUserId := by
  obtain ⟨walletId, cast, found⟩ := bind_eq_ok.mp h
  simp only [pure, Except.pure, Except.ok.injEq, Option.filter_eq_some_iff, decide_eq_true_eq] at found
  obtain ⟨mem, rfl⟩ := Table.find?_eq_some.mp found.1
  exact ⟨mem, castUuid_eq_ok.mp cast, found.2⟩

theorem ensures_resolveDestination {v : View Settings Row Key} {ws : List Write} {s : Db}
    {draws : Draws} {senderUserId : Uuid} {request : NormalizedTransferRequest}
    {Q : Except HttpException (Wallet × Option Uuid) → View Settings Row Key → Prop}
    (h : Tracks (fun _ => s) v ws) (wallets : (s.write ws).wallets = s.wallets)
    (beneficiaries : (s.write ws).beneficiaries = s.beneficiaries)
    (failed : ∀ v' e, WorkFailure s draws senderUserId request e → Tracks (fun _ => s) v' ws → Q (.error e) v')
    (done : ∀ v' destination beneficiaryId, destination ∈ s.wallets →
      (∀ id, beneficiaryId = some id → ∃ b ∈ s.beneficiaries, b.id = id ∧ b.ownerUserId = senderUserId ∧
        b.walletId = destination.id ∧ b.deletedAt = none) → Tracks (fun _ => s) v' ws →
      Q (.ok (destination, beneficiaryId)) v') :
    (resolveDestination senderUserId request).Ensures (fun _ => s) Q v := by
  unfold resolveDestination
  split
  · rename_i beneficiaryId _
    refine ensures_bind (ensures_query h fun v₁ found ok h₁ => ?_)
    refine ensures_bind (ensures_orThrow (fun _ => failed _ _ (.refused (by simp [refusals])) h₁) fun pair some => ?_)
    subst some
    obtain ⟨id, _, ok⟩ := bind_eq_ok.mp ok
    split at ok
    · cases ok
    · rename_i b known
      obtain ⟨w, there, same⟩ := bind_eq_ok.mp ok
      cases same
      simp only [Option.filter_eq_some_iff, decide_eq_true_eq, beneficiaries] at known
      obtain ⟨foundB, owner, alive⟩ := known
      have foundW : s.wallets.find? b.walletId = Option.some w := by
        rw [wallets] at there
        cases h : s.wallets.find? b.walletId with
        | none => simp [h, findOrThrow] at there
        | some x => simpa [h, findOrThrow] using there
      obtain ⟨mem, key⟩ := Table.find?_eq_some.mp foundW
      refine ensures_pure (done v₁ w _ mem (fun id e => ?_) h₁)
      cases e
      exact ⟨b, (Table.find?_eq_some.mp foundB).1, rfl, owner, key.symm, alive⟩
  · rename_i direct
    refine ensures_bind (ensures_orThrow (fun none => failed _ _ (.unresolved direct none) h) fun walletId _ => ?_)
    refine ensures_bind (ensures_query h fun v₁ found ok h₁ => ?_)
    refine ensures_bind (ensures_orThrow (fun _ => failed _ _ (.refused (by simp [refusals])) h₁) fun w some => ?_)
    subst some
    obtain ⟨id, _, same⟩ := bind_eq_ok.mp ok
    rw [wallets] at same
    have found := Except.ok.inj same
    exact ensures_pure (done v₁ w none (Table.find?_eq_some.mp found).1 (fun id e => by cases e) h₁)

theorem works (s : Db) (draws : Draws) (senderUserId : Uuid) (request : NormalizedTransferRequest)
    (claim : IdempotencyRecord) :
    Scope.Works s claim (work draws senderUserId request) (Transferred s draws senderUserId request)
      (WorkFailure s draws senderUserId request) where
  ensures := by
    intro v Q h failed done
    refine ensures_bind (ensures_query h fun v₁ found ok h₁ => ?_)
    refine ensures_bind (ensures_orThrow (fun _ => failed _ _ (.refused (by simp [refusals])) h₁) fun source some => ?_)
    subst some
    obtain ⟨source_mem, named, owned⟩ := findSourceWallet_eq_ok ok
    refine ensures_bind (ensures_throwIf (fun _ => failed _ _ (.refused (by simp [refusals])) h₁) fun active => ?_)
    refine ensures_bind (ensures_resolveDestination h₁ rfl rfl failed ?_)
    intro v₂ destination beneficiaryId destination_mem beneficiary h₂
    refine ensures_bind (ensures_throwIf (fun _ => failed _ _ (.refused (by simp [refusals])) h₂) fun active' => ?_)
    refine ensures_bind (ensures_throwIf (fun _ => failed _ _ (.refused (by simp [refusals])) h₂) fun different => ?_)
    refine ensures_bind (ensures_throwIf (fun _ => failed _ _ (.refused (by simp [refusals])) h₂) fun currency => ?_)
    refine ensures_bind (ensures_postWithinTransaction h₂ (fun v' e unposted h' => ?_) fun v₃ m _ records h₃ => ?_)
    · exact failed v' e (.unposted source destination source_mem named owned destination_mem different (not_not.mp currency)
        (unposted.congr rfl rfl)) h'
    refine ensures_bind (ensures_setConfig h₃ fun v₄ h₄ => ?_)
    refine ensures_bind (ensures_create h₄ fun v₅ h₅ => ?_)
    refine ensures_bind (ensures_setConfig h₅ fun v₆ h₆ => ?_)
    refine ensures_bind (ensures_create h₆ fun v₇ h₇ => ?_)
    refine ensures_bind (ensures_announce s h₇ ?_ ?_ fun v₈ events announces h₈ => ?_)
    · exact (Slice.webhookSubscriptions.table_write s _).trans (by simp)
    · exact (Slice.webhookDeliveries.table_write s _).trans (by simp)
    · refine ensures_pure (done v₈ _ _ (.intro source destination beneficiaryId m events source_mem owned
        (not_not.mp active) destination_mem (not_not.mp active') different (not_not.mp currency) beneficiary records
        announces) ?_)
      simpa using h₈
  clear := by
    rintro r ws ⟨source, destination, beneficiaryId, m, events, _, _, _, _, _, _, _, _, _, announces⟩
    simp [announces.written]

end TransfersService

namespace ReversalsService

inductive Reversed (seen : Db) (draws : Draws) (actorUserId : Uuid) (request : NormalizedReversalRequest) :
    TransferReversal → List Write → Prop
  | intro (t : Transfer) (source destination : Wallet) (m : Movement) (events : List Write)
      (transfer_mem : t ∈ seen.transfers) (named : Uuid.parse? request.transferId = some t.id)
      (owned : t.senderUserId = actorUserId) (completed : t.status = .completed)
      (unreversed : ∀ r ∈ seen.transferReversals, r.transferId ≠ t.id)
      (source_mem : source ∈ seen.wallets) (source_id : source.id = t.sourceWalletId) (active : source.status = .active)
      (destination_mem : destination ∈ seen.wallets) (destination_id : destination.id = t.destinationWalletId)
      (active' : destination.status = .active)
      (records : Records draws (ledgerInput draws ⟨t, source, destination, none⟩) m)
      (announces : Announces seen draws (reversedEvent draws
        (newReversal draws actorUserId t m.opened.id request.reason)) events) :
      Reversed seen draws actorUserId request (newReversal draws actorUserId t m.opened.id request.reason)
        (m.writes ++ [.insert (.transferReversal (newReversal draws actorUserId t m.opened.id request.reason)),
          .insert (.auditLog (reversedAudit draws (newReversal draws actorUserId t m.opened.id request.reason)))] ++
          events)

/-- The refusals of a reversal that do not come from the ledger. -/
def refusals : List HttpException := [
  notFound "Transfer not found", conflict "Only completed transfers can be reversed",
  conflict "Transfer has already been reversed", conflict "Both transfer wallets must be active before reversal"]

/-- Why the work of a reversal fails. -/
inductive WorkFailure (seen : Db) (draws : Draws) (actorUserId : Uuid) (request : NormalizedReversalRequest) :
    HttpException → Prop
  | refused {e} : e ∈ refusals → WorkFailure seen draws actorUserId request e
  | unposted {e} (t : Transfer) (source destination : Wallet) (transfer_mem : t ∈ seen.transfers)
      (named : Uuid.parse? request.transferId = some t.id) (owned : t.senderUserId = actorUserId)
      (completed : t.status = .completed) (source_mem : source ∈ seen.wallets) (source_id : source.id = t.sourceWalletId)
      (destination_mem : destination ∈ seen.wallets) (destination_id : destination.id = t.destinationWalletId) :
      PostFailure seen (ledgerInput draws ⟨t, source, destination, none⟩) e →
      WorkFailure seen draws actorUserId request e

theorem findTransfer_eq_ok {transferId : String} {actorUserId : Uuid} {db : Db} {found : FoundTransfer}
    (h : findTransfer transferId actorUserId db = .ok (some found)) :
    found.transfer ∈ db.transfers ∧ Uuid.parse? transferId = some found.transfer.id ∧
      found.transfer.senderUserId = actorUserId ∧
      found.sourceWallet ∈ db.wallets ∧ found.sourceWallet.id = found.transfer.sourceWalletId ∧
      found.destinationWallet ∈ db.wallets ∧ found.destinationWallet.id = found.transfer.destinationWalletId ∧
      found.reversal = db.transferReversals.rows.find? fun r => r.transferId = found.transfer.id := by
  obtain ⟨id, cast, ok⟩ := bind_eq_ok.mp h
  split at ok
  · cases ok
  · rename_i t known
    obtain ⟨source, source_found, ok⟩ := bind_eq_ok.mp ok
    obtain ⟨destination, destination_found, ok⟩ := bind_eq_ok.mp ok
    cases ok
    simp only [Option.filter_eq_some_iff, decide_eq_true_eq] at known
    obtain ⟨mem, rfl⟩ := Table.find?_eq_some.mp known.1
    obtain ⟨source_mem, source_id⟩ := Table.find?_eq_some.mp (findOrThrow_eq_ok.mp source_found)
    obtain ⟨destination_mem, destination_id⟩ := Table.find?_eq_some.mp (findOrThrow_eq_ok.mp destination_found)
    exact ⟨mem, castUuid_eq_ok.mp cast, known.2, source_mem, source_id, destination_mem, destination_id, rfl⟩

theorem works (s : Db) (draws : Draws) (actorUserId : Uuid) (request : NormalizedReversalRequest)
    (claim : IdempotencyRecord) :
    Scope.Works s claim (work draws actorUserId request) (Reversed s draws actorUserId request)
      (WorkFailure s draws actorUserId request) where
  ensures := by
    intro v Q h failed done
    refine ensures_bind (ensures_lock h fun v₀ _ _ h₀ => ?_)
    refine ensures_bind (ensures_query h₀ fun v₁ found ok h₁ => ?_)
    refine ensures_bind (ensures_orThrow (fun _ => failed _ _ (.refused (by simp [refusals])) h₁) fun found some => ?_)
    subst some
    obtain ⟨transfer_mem, named, owned, source_mem, source_id, destination_mem, destination_id, reversal⟩ :=
      findTransfer_eq_ok ok
    obtain ⟨t, source, destination, previous⟩ := found
    refine ensures_bind (ensures_throwIf (fun _ => failed _ _ (.refused (by simp [refusals])) h₁) fun completed => ?_)
    refine ensures_bind (ensures_throwIf (fun _ => failed _ _ (.refused (by simp [refusals])) h₁) fun unreversed => ?_)
    rw [Bool.not_eq_true, Option.isSome_eq_false_iff, Option.isNone_iff_eq_none] at unreversed
    refine ensures_bind (ensures_throwIf (fun _ => failed _ _ (.refused (by simp [refusals])) h₁) fun active => ?_)
    rw [not_or, not_not, not_not] at active
    refine ensures_bind (ensures_postWithinTransaction h₁ (fun v' e unposted h' => ?_) fun v₃ m _ records h₃ => ?_)
    · exact failed v' e (.unposted t source destination transfer_mem named owned (not_not.mp completed) source_mem
        source_id destination_mem destination_id (unposted.congr rfl rfl)) h'
    refine ensures_bind (ensures_setConfig h₃ fun v₄ h₄ => ?_)
    refine ensures_bind (ensures_create h₄ fun v₅ h₅ => ?_)
    refine ensures_bind (ensures_setConfig h₅ fun v₆ h₆ => ?_)
    refine ensures_bind (ensures_create h₆ fun v₇ h₇ => ?_)
    refine ensures_bind (ensures_announce s h₇ ?_ ?_ fun v₈ events announces h₈ => ?_)
    · exact (Slice.webhookSubscriptions.table_write s _).trans (by simp)
    · exact (Slice.webhookDeliveries.table_write s _).trans (by simp)
    · have none_before : ∀ r ∈ s.transferReversals, r.transferId ≠ t.id := by
        intro r hr
        have := List.find?_eq_none.mp (reversal.symm.trans unreversed) r hr
        simpa using this
      refine ensures_pure (done v₈ _ _ (.intro t source destination m events transfer_mem named owned
        (not_not.mp completed) none_before source_mem source_id active.1 destination_mem destination_id active.2
        ⟨records.id, records.reference, records.currency, records.description, records.postings⟩ announces) ?_)
      simpa using h₈
  clear := by
    rintro r ws ⟨t, source, destination, m, events, _, _, _, _, _, _, _, _, _, _, _, _, announces⟩
    simp [announces.written]

end ReversalsService

end Fintech
