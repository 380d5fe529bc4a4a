import Fintech.Library.TwoRuns
import Fintech.Proof.Keys
import Fintech.Proof.Paging

/-!
# One user's view

Two states with the same rows of a user, whatever the rows of others: every list and every find answers that
user alike, and so does the reversal of a transfer that somebody else has sent.
-/

namespace Fintech
open Relational Transactional Paging

/-! ## What a user owns -/

namespace Db

/-- The user is the row's owner, by its own columns or through the row that it belongs to. -/
def Owns (db : Db) (userId : Uuid) : Row → Prop
  | .wallet w => w.userId = userId
  | .transfer t => t.senderUserId = userId
  | .transferReversal r => r.actorUserId = userId
  | .auditLog a => a.actorUserId = userId
  | .beneficiary b => b.ownerUserId = userId
  | .payment p => p.userId = userId
  | .providerEvent e => ∃ p ∈ db.payments, p.id = e.paymentId ∧ p.userId = userId
  | .webhookSubscription s => s.userId = userId
  | .webhookDelivery d => ∃ s ∈ db.webhookSubscriptions, s.id = d.subscriptionId ∧ s.userId = userId
  | .webhookAttempt a => ∃ d ∈ db.webhookDeliveries, d.id = a.deliveryId ∧
      ∃ s ∈ db.webhookSubscriptions, s.id = d.subscriptionId ∧ s.userId = userId
  | _ => False

def walletCurrency (db : Db) (walletId : Uuid) : Option Currency := (db.wallets.find? walletId).map Wallet.currency

/-- No two rows share a primary key or an entry of a unique index. -/
def Indexed (db : Db) : Prop := ∀ r ∈ db, ∀ r' ∈ db, ∀ k ∈ r.keys, k ∈ r'.keys → r = r'

theorem Indexed.eq {db : Db} (indexed : db.Indexed) {r r' : Row} (mem : r ∈ db) (mem' : r' ∈ db) (k : Key)
    (slot : k ∈ r.slots) (slot' : k ∈ r'.slots) : r = r' :=
  indexed r mem r' mem' k (Row.mem_keys.mpr (.inr slot)) (Row.mem_keys.mpr (.inr slot'))

end Db

/-- The user owns the same rows in both states, and the beneficiaries' wallets have the same currencies. -/
structure Agrees (userId : Uuid) (db db' : Db) : Prop where
  owned : ∀ r : Row, (r ∈ db ∧ db.Owns userId r) ↔ (r ∈ db' ∧ db'.Owns userId r)
  currency : ∀ b ∈ db.beneficiaries, b.ownerUserId = userId → db.walletCurrency b.walletId = db'.walletCurrency b.walletId

/-- They agree on the user's requests as well: on the user itself, and on its idempotency records with the
reversals that these refer to. -/
structure AgreesOnRequests (userId : Uuid) (db db' : Db) : Prop extends Agrees userId db db' where
  user : (∃ u ∈ db.users, u.id = userId) ↔ ∃ u ∈ db'.users, u.id = userId
  records : ∀ r : IdempotencyRecord, r.userId = userId → (r ∈ db.idempotencyRecords ↔ r ∈ db'.idempotencyRecords)
  reversals : ∀ r ∈ db.idempotencyRecords, r.userId = userId →
    ReversalsService.scope.resource db r = ReversalsService.scope.resource db' r

/-! ## Lists and finds -/

section
variable {ρ : Type} [Keyed ρ Uuid] {createdAt : ρ → Time} {owned : ρ → Bool} {t t' : Table ρ}

theorem findMany_congr (same : ∀ r, (r ∈ t ∧ owned r) ↔ (r ∈ t' ∧ owned r)) :
    findMany createdAt owned t = findMany createdAt owned t' := by
  apply latestFirst_eq_of_mem_iff
  · exact (List.Nodup.of_map _ t.unique).filter _
  · exact (List.Nodup.of_map _ t'.unique).filter _
  · intro a ha b hb equal
    exact Table.eq_of_key_eq (List.mem_filter.mp ha).1 (List.mem_filter.mp hb).1 (stamp_inj equal)
  · intro a
    rw [List.mem_filter, List.mem_filter]
    exact same a

theorem findFirst_congr (same : ∀ r, (r ∈ t ∧ owned r) ↔ (r ∈ t' ∧ owned r)) (id : Uuid) :
    findFirst owned t id = findFirst owned t' id := by
  apply Option.ext
  intro r
  have h := same r
  rw [findFirst_eq_some, findFirst_eq_some]
  constructor
  · rintro ⟨mem, found, own⟩
    exact ⟨(h.mp ⟨mem, own⟩).1, found, own⟩
  · rintro ⟨mem, found, own⟩
    exact ⟨(h.mpr ⟨mem, own⟩).1, found, own⟩

theorem listPage_congr (same : ∀ r, (r ∈ t ∧ owned r) ↔ (r ∈ t' ∧ owned r)) (invalidCursor : String)
    (query : ListQuery) : listPage invalidCursor createdAt owned t query = listPage invalidCursor createdAt owned t' query := by
  simp only [listPage, findMany_congr same, findFirst_congr same]

/-- The response to a page depends only on the rows listed. -/
theorem map_listPage_congr {ι : Type} {f g : ρ → ι} {invalidCursor : String} {query : ListQuery}
    (same : ∀ r ∈ t, owned r → f r = g r) :
    (listPage invalidCursor createdAt owned t query).map (Page.map f) =
      (listPage invalidCursor createdAt owned t query).map (Page.map g) := by
  have items : ∀ r ∈ (page key (findMany createdAt owned t) query.limit query.cursor).items, f r = g r := by
    intro r hr
    rw [page_items] at hr
    obtain ⟨mem, own⟩ := mem_findMany.mp ((behind_suffix _ _ _).subset (List.mem_of_mem_take hr))
    exact same r mem own
  unfold listPage failIf
  split
  · rfl
  · apply congrArg Except.ok
    simp only [Page.map, List.map_congr_left items]

end

theorem mapM_congr {α β ε : Type} {f g : α → Except ε β} {l : List α} (h : ∀ a ∈ l, f a = g a) : l.mapM f = l.mapM g := by
  induction l with
  | nil => rfl
  | cons a l ih =>
      rw [List.mapM_cons, List.mapM_cons, h a List.mem_cons_self, ih fun b hb => h b (List.mem_cons_of_mem a hb)]

/-- A search that only one row can satisfy does not depend on how the rows are stored. -/
theorem find?_congr {ρ : Type} {rows rows' : List ρ} {p : ρ → Bool} (same : ∀ r, p r → (r ∈ rows ↔ r ∈ rows'))
    (single : ∀ r ∈ rows, ∀ s ∈ rows, p r → p s → r = s) : rows.find? p = rows'.find? p := by
  cases found : rows.find? p with
  | none =>
      symm
      rw [List.find?_eq_none] at found ⊢
      exact fun r hr own => found r ((same r own).mpr hr) own
  | some r =>
      have own := List.find?_some found
      have mem := List.mem_of_find?_eq_some found
      cases found' : rows'.find? p with
      | none => exact absurd own (List.find?_eq_none.mp found' r ((same r own).mp mem))
      | some s =>
          have own' := List.find?_some found'
          have mem' := (same s own').mpr (List.mem_of_find?_eq_some found')
          rw [single r mem s mem' own own']

section
variable {userId : Uuid} {db db' : Db}

/-- Rows of a table that the user owns are in both states. -/
theorem Agrees.table (h : Agrees userId db db') {ρ : Type} [Keyed ρ Uuid] {t t' : Table ρ} (row : ρ → Row)
    (mem : ∀ r, row r ∈ db ↔ r ∈ t) (mem' : ∀ r, row r ∈ db' ↔ r ∈ t') (p : ρ → Prop)
    [DecidablePred p] (own : ∀ r, p r → db.Owns userId (row r)) (own' : ∀ r, p r → db'.Owns userId (row r)) (r : ρ) :
    (r ∈ t ∧ decide (p r)) ↔ (r ∈ t' ∧ decide (p r)) := by
  rw [decide_eq_true_iff]
  constructor
  · rintro ⟨there, is⟩
    exact ⟨(mem' r).mp ((h.owned _).mp ⟨(mem r).mpr there, own r is⟩).1, is⟩
  · rintro ⟨there, is⟩
    exact ⟨(mem r).mp ((h.owned _).mpr ⟨(mem' r).mpr there, own' r is⟩).1, is⟩

theorem WalletsService.findAllForUser_congr (indexed : db.Indexed) (h : Agrees userId db db') :
    findAllForUser db userId = findAllForUser db' userId := by
  have same := h.table .wallet (fun _ => Iff.rfl) (fun _ => Iff.rfl) (fun w => w.userId = userId)
    (fun _ own => own) (fun _ own => own)
  simp only [findAllForUser]
  congr 1
  apply earliestFirst_eq_of_mem_iff
  · exact (List.Nodup.of_map _ db.wallets.unique).filter _
  · exact (List.Nodup.of_map _ db'.wallets.unique).filter _
  · intro a ha b hb equal
    obtain ⟨mem, own⟩ := List.mem_filter.mp ha
    obtain ⟨mem', own'⟩ := List.mem_filter.mp hb
    have rank := congrArg Prod.snd (toLex_inj.mp equal)
    have currency : a.currency = b.currency := by
      cases usd : a.currency <;> cases usd' : b.currency <;> simp_all
    have user : a.userId = b.userId := (of_decide_eq_true own).trans (of_decide_eq_true own').symm
    apply Row.wallet.inj
    apply indexed.eq mem mem' (.walletCurrency a.userId a.currency)
    · simp [Row.slots]
    · simp [Row.slots, user, currency]
  · intro w
    rw [List.mem_filter, List.mem_filter]
    exact same w

theorem WalletsService.findOneForUser_congr (h : Agrees userId db db') (walletId : Uuid) :
    findOneForUser db userId walletId = findOneForUser db' userId walletId := by
  have same := h.table .wallet (fun _ => Iff.rfl) (fun _ => Iff.rfl) (fun w => w.userId = userId)
    (fun _ own => own) (fun _ own => own)
  rw [findOneForUser, findFirst_congr same]
  rfl

theorem BeneficiariesService.findAll_congr (h : Agrees userId db db') : findAll db userId = findAll db' userId := by
  have same := h.table .beneficiary (fun _ => Iff.rfl) (fun _ => Iff.rfl)
    (fun b => b.ownerUserId = userId ∧ b.deletedAt = none)
    (fun _ own => own.1) (fun _ own => own.1)
  simp only [findAll, findMany_congr same]
  apply mapM_congr
  intro b hb
  obtain ⟨mem, own⟩ := mem_findMany.mp hb
  obtain ⟨mem, own⟩ := (same b).mpr ⟨mem, own⟩
  have currency := h.currency b mem (of_decide_eq_true own).1
  unfold Db.walletCurrency at currency
  cases found : db.wallets.find? b.walletId with
  | none =>
      rw [found, Option.map_none, eq_comm, Option.map_eq_none_iff] at currency
      rw [currency]
  | some w =>
      rw [found, Option.map_some, eq_comm, Option.map_eq_some_iff] at currency
      obtain ⟨w', found', same'⟩ := currency
      rw [found']
      change Except.ok (toBeneficiaryResponse b w) = .ok (toBeneficiaryResponse b w')
      rw [toBeneficiaryResponse, toBeneficiaryResponse, same']

theorem TransfersService.findAllForUser_congr (h : Agrees userId db db') :
    findAllForUser db userId = findAllForUser db' userId := by
  have same := h.table .transfer (fun _ => Iff.rfl) (fun _ => Iff.rfl) (fun t => t.senderUserId = userId)
    (fun _ own => own) (fun _ own => own)
  simp only [findAllForUser, findMany_congr same]

theorem TransfersService.findOneForUser_congr (h : Agrees userId db db') (transferId : Uuid) :
    findOneForUser db userId transferId = findOneForUser db' userId transferId := by
  have same := h.table .transfer (fun _ => Iff.rfl) (fun _ => Iff.rfl) (fun t => t.senderUserId = userId)
    (fun _ own => own) (fun _ own => own)
  simp only [findOneForUser, findFirst_congr same]

theorem ReversalsService.findOneForUser_congr (indexed : db.Indexed) (h : Agrees userId db db') (transferId : Uuid) :
    findOneForUser db userId transferId = findOneForUser db' userId transferId := by
  have same := h.table .transferReversal (fun _ => Iff.rfl) (fun _ => Iff.rfl)
    (fun r => r.transferId = transferId ∧ r.actorUserId = userId)
    (fun _ own => own.2) (fun _ own => own.2)
  have found : (db.transferReversals.rows.find? fun r => r.transferId = transferId ∧ r.actorUserId = userId) =
      db'.transferReversals.rows.find? fun r => r.transferId = transferId ∧ r.actorUserId = userId := by
    apply find?_congr
    · intro r own
      have both := same r
      simp only [own, and_true] at both
      exact both
    · intro r hr s hs own own'
      have transfer : r.transferId = s.transferId := (of_decide_eq_true own).1.trans (of_decide_eq_true own').1.symm
      apply Row.transferReversal.inj
      apply indexed.eq hr hs (.reversalTransfer r.transferId)
      · simp [Row.slots]
      · simp [Row.slots, transfer]
  simp only [findOneForUser, found]

theorem AuditService.findAllForUser_congr (h : Agrees userId db db') (query : ListQuery) :
    findAllForUser db userId query = findAllForUser db' userId query := by
  have same := h.table .auditLog (fun _ => Iff.rfl) (fun _ => Iff.rfl) (fun a => a.actorUserId = userId)
    (fun _ own => own) (fun _ own => own)
  rw [findAllForUser_eq, findAllForUser_eq, listPage_congr same]

theorem PaymentsService.list_congr (h : Agrees userId db db') (query : ListQuery) :
    list db userId query = list db' userId query := by
  have same := h.table .payment (fun _ => Iff.rfl) (fun _ => Iff.rfl) (fun p => p.userId = userId)
    (fun _ own => own) (fun _ own => own)
  simp only [list, listPage_congr same]

theorem PaymentsService.findOne_congr (h : Agrees userId db db') (id : Uuid) :
    findOne db userId id = findOne db' userId id := by
  have same := h.table .payment (fun _ => Iff.rfl) (fun _ => Iff.rfl) (fun p => p.userId = userId)
    (fun _ own => own) (fun _ own => own)
  simp only [findOne, findFirst_congr same]

/-- The events of a payment are read only once the payment is found to be the user's. -/
theorem PaymentsService.events_congr (h : Agrees userId db db') (id : Uuid) (query : ListQuery) :
    events db userId id query = events db' userId id query := by
  have payments := h.table .payment (fun _ => Iff.rfl) (fun _ => Iff.rfl) (fun p => p.userId = userId)
    (fun _ own => own) (fun _ own => own)
  cases found : findFirst (fun p => p.userId = userId) db.payments id with
  | none =>
      have found' := (findFirst_congr payments id).symm.trans found
      simp only [events, findOne, found, found']
      rfl
  | some p =>
      have found' := (findFirst_congr payments id).symm.trans found
      obtain ⟨mem, (rfl : p.id = id), own⟩ := findFirst_eq_some.mp found
      obtain ⟨mem', _, own'⟩ := findFirst_eq_some.mp found'
      have same := h.table .providerEvent (fun _ => Iff.rfl) (fun _ => Iff.rfl) (fun e => e.paymentId = p.id)
        (fun _ of => ⟨p, mem, of.symm, of_decide_eq_true own⟩) (fun _ of => ⟨p, mem', of.symm, of_decide_eq_true own⟩)
      rw [events_eq ⟨p, mem, rfl, of_decide_eq_true own⟩, events_eq ⟨p, mem', rfl, of_decide_eq_true own⟩,
        listPage_congr same]

theorem WebhooksService.list_congr (h : Agrees userId db db') : list db userId = list db' userId := by
  have same := h.table .webhookSubscription (fun _ => Iff.rfl) (fun _ => Iff.rfl) (fun s => s.userId = userId)
    (fun _ own => own) (fun _ own => own)
  simp only [list, findMany_congr same]

theorem WebhooksService.toDeliveryResponse_congr (indexed : db.Indexed) (h : Agrees userId db db') {d : WebhookDelivery}
    (mem : d ∈ db.webhookDeliveries) (mem' : d ∈ db'.webhookDeliveries) {s : WebhookSubscription}
    (there : s ∈ db.webhookSubscriptions) (there' : s ∈ db'.webhookSubscriptions) (of : s.id = d.subscriptionId)
    (own : s.userId = userId) : toDeliveryResponse db d = toDeliveryResponse db' d := by
  have same := h.table .webhookAttempt (fun _ => Iff.rfl) (fun _ => Iff.rfl) (fun a => a.deliveryId = d.id)
    (fun _ is => ⟨d, mem, is.symm, s, there, of, own⟩) (fun _ is => ⟨d, mem', is.symm, s, there', of, own⟩)
  have attempts : includedAttempts db d.id = includedAttempts db' d.id := by
    apply earliestFirst_eq_of_mem_iff
    · exact (List.Nodup.of_map _ db.webhookAttempts.unique).filter _
    · exact (List.Nodup.of_map _ db'.webhookAttempts.unique).filter _
    · intro a ha b hb number
      obtain ⟨ha, is⟩ := List.mem_filter.mp ha
      obtain ⟨hb, is'⟩ := List.mem_filter.mp hb
      have delivery : a.deliveryId = b.deliveryId := (of_decide_eq_true is).trans (of_decide_eq_true is').symm
      apply Row.webhookAttempt.inj
      apply indexed.eq ha hb (.attemptNumber a.deliveryId a.number)
      · simp [Row.slots]
      · simp [Row.slots, delivery, number]
    · intro a
      rw [List.mem_filter, List.mem_filter]
      exact same a
  simp only [toDeliveryResponse, attempts]

/-- The deliveries of a subscription are read only once it is found to be the user's. -/
theorem WebhooksService.deliveries_congr (indexed : db.Indexed) (h : Agrees userId db db') (id : Uuid)
    (query : ListQuery) : deliveries db userId id query = deliveries db' userId id query := by
  have subscriptions := h.table .webhookSubscription (fun _ => Iff.rfl) (fun _ => Iff.rfl) (fun s => s.userId = userId)
    (fun _ own => own) (fun _ own => own)
  cases found : findFirst (fun s => s.userId = userId) db.webhookSubscriptions id with
  | none =>
      have found' := (findFirst_congr subscriptions id).symm.trans found
      simp only [deliveries, found, found']
      rfl
  | some s =>
      have found' := (findFirst_congr subscriptions id).symm.trans found
      obtain ⟨there, (rfl : s.id = id), own⟩ := findFirst_eq_some.mp found
      obtain ⟨there', _, _⟩ := findFirst_eq_some.mp found'
      have own := of_decide_eq_true own
      have same := h.table .webhookDelivery (fun _ => Iff.rfl) (fun _ => Iff.rfl) (fun d => d.subscriptionId = s.id)
        (fun _ of => ⟨s, there, of.symm, own⟩) (fun _ of => ⟨s, there', of.symm, own⟩)
      rw [deliveries_eq ⟨s, there, rfl, own⟩, deliveries_eq ⟨s, there', rfl, own⟩, ← listPage_congr same]
      apply map_listPage_congr
      intro d mem of
      exact toDeliveryResponse_congr indexed h mem ((same d).mp ⟨mem, of⟩).1 there there' (of_decide_eq_true of).symm own

/-! ## A reversal of somebody else's transfer -/

namespace Scope
variable {ρ : Type} {scope : Scope ρ}

theorem findRecord_congr (indexed : db.Indexed)
    (records : ∀ r : IdempotencyRecord, r.userId = userId → (r ∈ db.idempotencyRecords ↔ r ∈ db'.idempotencyRecords))
    (resources : ∀ r ∈ db.idempotencyRecords, r.userId = userId → scope.resource db r = scope.resource db' r)
    (key : String) : scope.findRecord userId key db = scope.findRecord userId key db' := by
  have found : (db.idempotencyRecords.rows.find? fun r => r.userId = userId ∧ r.scope = scope.name ∧ r.key = key) =
      db'.idempotencyRecords.rows.find? fun r => r.userId = userId ∧ r.scope = scope.name ∧ r.key = key := by
    apply find?_congr
    · exact fun r own => records r (of_decide_eq_true own).1
    · intro r hr s hs own own'
      obtain ⟨user, name, same⟩ := of_decide_eq_true own
      obtain ⟨user', name', same'⟩ := of_decide_eq_true own'
      apply Row.idempotencyRecord.inj
      apply indexed.eq hr hs (.idempotencyKey userId scope.name key)
      · simp [Row.slots, user, name, same]
      · simp [Row.slots, user', name', same']
  unfold findRecord
  rw [← found]
  cases some : db.idempotencyRecords.rows.find? fun r => r.userId = userId ∧ r.scope = scope.name ∧ r.key = key with
  | none => rfl
  | some r =>
      have own := List.find?_some some
      simp only [decide_eq_true_eq] at own
      rw [Option.map_some, Option.map_some, resources r (List.mem_of_find?_eq_some some) own.1]

end Scope

/-- A record of the user that is not completed: no constraint trigger compares it with other rows. -/
def IsUncompleted (userId : Uuid) (row : Row) : Prop :=
  ∃ r : IdempotencyRecord, row = .idempotencyRecord r ∧ r.userId = userId ∧ r.status ≠ .completed ∧ r.reversalId = none

/-- Two runs that have written the same rows and have the same settings. -/
structure Level (rows : List Row) (s : Settings) (v v' : View Settings Row Key) : Prop where
  writes : v.writes = rows
  writes' : v'.writes = rows
  locals : v.locals = s
  locals' : v'.locals = s

/-- They return or throw the same, and have written nothing but uncompleted records of the user. -/
def LevelEnd {α : Type} (userId : Uuid) :
    Except HttpException α × View Settings Row Key → Except HttpException α × View Settings Row Key → Prop
  | (r, v), (r', v') => r = r' ∧ ∃ rows s, Level rows s v v' ∧ ∀ row ∈ rows ++ s.deferred, IsUncompleted userId row

namespace AgreesOnRequests

theorem taken_user (h : AgreesOnRequests userId db db') : db.taken (.row .user userId) = db'.taken (.row .user userId) := by
  rw [Bool.eq_iff_iff, Db.taken_row, Db.taken_row]
  have user (d : Db) : (∃ r ∈ d, r.pk = .row .user userId) ↔ ∃ u ∈ d.users, u.id = userId := by
    constructor
    · rintro ⟨r, mem, pk⟩
      cases r with
      | user u => exact ⟨u, mem, (Key.row.inj pk).2⟩
      | _ => cases pk
    · rintro ⟨u, mem, rfl⟩
      exact ⟨.user u, mem, rfl⟩
  rw [user, user, h.user]

theorem put (h : AgreesOnRequests userId db db') {row : Row} (uncompleted : IsUncompleted userId row) :
    AgreesOnRequests userId (db.put row) (db'.put row) := by
  obtain ⟨r, rfl, user, _, unreversed⟩ := uncompleted
  constructor
  · constructor
    · intro s
      have owns (d : Db) : (d.put (.idempotencyRecord r)).Owns userId s ↔ d.Owns userId s := by
        cases s <;> exact Iff.rfl
      rw [owns, owns, Db.mem_put, Db.mem_put]
      constructor
      · rintro ⟨rfl | ⟨mem, ne⟩, own⟩
        · exact own.elim
        · obtain ⟨mem, own⟩ := (h.owned s).mp ⟨mem, own⟩
          exact ⟨.inr ⟨mem, ne⟩, own⟩
      · rintro ⟨rfl | ⟨mem, ne⟩, own⟩
        · exact own.elim
        · obtain ⟨mem, own⟩ := (h.owned s).mpr ⟨mem, own⟩
          exact ⟨.inr ⟨mem, ne⟩, own⟩
    · exact h.currency
  · exact h.user
  · intro s own
    have both := h.records s own
    simp only [Db.put, Table.mem_put, both]
  · intro s hs own
    rcases Table.mem_put.mp hs with rfl | ⟨hs, _⟩
    · simp only [ReversalsService.scope, unreversed, Option.bind_none]
    · exact h.reversals s hs own

theorem applyAll (h : AgreesOnRequests userId db db') {rows : List Row} (uncompleted : ∀ row ∈ rows, IsUncompleted userId row) :
    AgreesOnRequests userId (applyAll db rows) (applyAll db' rows) := by
  induction rows generalizing db db' with
  | nil => exact h
  | cons row rows ih =>
      apply ih (h.put (uncompleted row List.mem_cons_self))
      exact fun r hr => uncompleted r (List.mem_cons_of_mem row hr)

end AgreesOnRequests

section
variable {α : Type} {rows : List Row} {s : Settings} {v v' : View Settings Row Key}
  {Q : Except HttpException α × View Settings Row Key → Except HttpException α × View Settings Row Key → Prop}

/-- A statement that writes nothing and leaves the settings as they are. -/
theorem pair_quiet {q q' : Statement α} (level : Level rows s v v') (P : α → α → Prop)
    (h : Alike (fun out out' => P out.1 out'.1 ∧ out.2.writes = [] ∧ out'.2.writes = [] ∧ out.2.locals = s ∧ out'.2.locals = s)
      (q (applyAll db rows) s) (q' (applyAll db' rows) s))
    (post : ∀ a a' w w', P a a' → Level rows s w w' → Q (.ok a, w) (.ok a', w')) :
    (Prog.exec q : Tx α).Pair (fun _ => db) (fun _ => db') (Prog.exec q') Q v v' := by
  apply pair_exec
  rw [level.writes, level.writes', level.locals, level.locals']
  apply alike_mono h
  rintro ⟨a, e⟩ ⟨a', e'⟩ ⟨replies, none, none', same, same'⟩
  apply post a a' _ _ replies
  constructor
  · rw [View.after_writes, level.writes, none, List.append_nil]
  · rw [View.after_writes, level.writes', none', List.append_nil]
  · exact same
  · exact same'

theorem pair_read {f : Db → α} (level : Level rows s v v') (same : f (applyAll db rows) = f (applyAll db' rows))
    (post : ∀ w w', Level rows s w w' → Q (.ok (f (applyAll db rows)), w) (.ok (f (applyAll db rows)), w')) :
    (Prog.read f : Tx α).Pair (fun _ => db) (fun _ => db') (Prog.read f) Q v v' := by
  apply pair_quiet level (fun a a' => a = f (applyAll db rows) ∧ a' = f (applyAll db rows))
  · exact ⟨⟨rfl, same.symm⟩, rfl, rfl, rfl, rfl⟩
  · rintro a a' w w' ⟨rfl, rfl⟩ after
    exact post w w' after

theorem pair_update {ρ : Type} {find : Db → Option ρ} {row : ρ → Row} {f : ρ → ρ} {old : ρ}
    {Q : Except HttpException ρ × View Settings Row Key → Except HttpException ρ × View Settings Row Key → Prop}
    (level : Level rows s v v') (found : find (applyAll db rows) = some old) (found' : find (applyAll db' rows) = some old)
    (same : (applyAll db rows).update s (row old) (row (f old)) = (applyAll db' rows).update s (row old) (row (f old)))
    (post : ∀ w w', Level (rows ++ [row (f old)]) { s with deferred := s.deferred ++ deferredOnUpdate (row (f old)) } w w' →
      Q (.ok (f old), w) (.ok (f old), w')) :
    (Tx.update find row f).Pair (fun _ => db) (fun _ => db') (Tx.update find row f) Q v v' := by
  apply pair_exec
  rw [level.writes, level.writes', level.locals, level.locals', found, found']
  simp only [← same]
  cases updated : (applyAll db rows).update s (row old) (row (f old)) with
  | error d => rfl
  | ok s' =>
      apply post
      have settings := (Db.update_eq_ok.mp updated).2.2.2.2
      constructor
      · simp only [View.after_writes, level.writes]
      · simp only [View.after_writes, level.writes']
      · exact settings.symm
      · exact settings.symm

theorem pair_create {row : Row}
    {Q : Except HttpException Unit × View Settings Row Key → Except HttpException Unit × View Settings Row Key → Prop}
    (level : Level rows s v v') (same : (applyAll db rows).insert s row = (applyAll db' rows).insert s row)
    (post : ∀ w w', Level (rows ++ [row]) { s with deferred := s.deferred ++ [row] } w w' → Q (.ok (), w) (.ok (), w')) :
    (Tx.create row).Pair (fun _ => db) (fun _ => db') (Tx.create row) Q v v' := by
  apply pair_exec
  rw [level.writes, level.writes', level.locals, level.locals', ← same]
  cases inserted : (applyAll db rows).insert s row with
  | error d => rfl
  | ok s' =>
      apply post
      have settings := (Db.insert_eq_ok.mp inserted).2.2.2.2
      constructor
      · simp only [View.after_writes, level.writes]
      · simp only [View.after_writes, level.writes']
      · exact settings.symm
      · exact settings.symm

end

theorem insert_congr {s : Settings} {r : Row} (began : beforeInsert db s r = beforeInsert db' s r)
    (keys : ∀ k ∈ r.keys, db.taken k = db'.taken k) (references : ∀ k ∈ r.references, db.taken k = db'.taken k) :
    db.insert s r = db'.insert s r := by
  have occupied : (∃ k ∈ r.keys, db.taken k) ↔ ∃ k ∈ r.keys, db'.taken k :=
    exists_congr fun k => and_congr_right fun hk => by rw [keys k hk]
  have missing : (∃ k ∈ r.references, ¬ db.taken k) ↔ ∃ k ∈ r.references, ¬ db'.taken k :=
    exists_congr fun k => and_congr_right fun hk => by rw [references k hk]
  simp only [Db.insert, began, occupied, missing]

theorem update_congr {s : Settings} {old new : Row} (slots : new.slots ⊆ old.slots)
    (references : ∀ k ∈ new.references, db.taken k = db'.taken k) : db.update s old new = db'.update s old new := by
  have unoccupied (d : Db) : ¬ ∃ k ∈ new.slots, k ∉ old.slots ∧ d.taken k := by
    rintro ⟨k, hk, other, _⟩
    exact other (slots hk)
  have missing : (∃ k ∈ new.references, ¬ db.taken k) ↔ ∃ k ∈ new.references, ¬ db'.taken k :=
    exists_congr fun k => and_congr_right fun hk => by rw [references k hk]
  simp only [Db.update, unoccupied, missing]

theorem AgreesOnRequests.taken_key (h : AgreesOnRequests userId db db') (name key : String) :
    db.taken (.idempotencyKey userId name key) = db'.taken (.idempotencyKey userId name key) := by
  have occupied (d : Db) : d.taken (.idempotencyKey userId name key) ↔
      ∃ r ∈ d.idempotencyRecords, r.userId = userId ∧ r.scope = name ∧ r.key = key := by
    rw [Db.taken_iff]
    constructor
    · rintro ⟨r, mem, hk⟩
      cases r with
      | idempotencyRecord r => exact ⟨r, mem, by simpa [Row.keys, Row.pk, Row.slots, eq_comm] using hk⟩
      | _ => simp [Row.keys, Row.pk, Row.slots] at hk
    · rintro ⟨r, mem, rfl, rfl, rfl⟩
      exact ⟨.idempotencyRecord r, mem, by simp [Row.keys, Row.slots]⟩
  rw [Bool.eq_iff_iff, occupied, occupied]
  refine exists_congr fun r => ?_
  constructor
  · rintro ⟨mem, own, same⟩
    exact ⟨(h.records r own).mp mem, own, same⟩
  · rintro ⟨mem, own, same⟩
    exact ⟨(h.records r own).mpr mem, own, same⟩

theorem taken_fresh {id : Uuid} (fresh : ∀ r ∈ db.idempotencyRecords, r.id ≠ id) :
    db.taken (.row .idempotencyRecord id) = false := by
  rw [← Bool.not_eq_true, Db.taken_row]
  rintro ⟨r, mem, pk⟩
  cases r with
  | idempotencyRecord r => exact fresh r mem (Key.row.inj pk).2
  | _ => cases pk

namespace ReversalsService

/-- No transfer with this id was sent by the user. -/
def NotSent (db : Db) (userId : Uuid) (transferId : String) : Prop :=
  ∀ t ∈ db.transfers, Uuid.parse? transferId = some t.id → t.senderUserId ≠ userId

theorem NotSent.congr {transferId : String} (h : Agrees userId db db') (notSent : NotSent db userId transferId) :
    NotSent db' userId transferId := by
  intro t mem named own
  exact notSent t ((h.owned (.transfer t)).mpr ⟨mem, own⟩).1 named own

theorem findTransfer_notSent {transferId : String} (notSent : NotSent db userId transferId) :
    findTransfer transferId userId db = castUuid transferId >>= fun _ => .ok none := by
  unfold findTransfer
  cases cast : castUuid transferId with
  | error d => rfl
  | ok id =>
      have unfound : (db.transfers.find? id).filter (fun t => t.senderUserId = userId) = none := by
        rw [Option.filter_eq_none_iff]
        intro t found
        obtain ⟨mem, rfl⟩ := Table.find?_eq_some.mp found
        simpa using notSent t mem (castUuid_eq_ok.mp cast)
      simp only [bind, Except.bind, unfound]
      rfl

end ReversalsService

/-! ## The two runs of `create` -/

section
variable {transferId : String}
  {Q : Except HttpException TransferReversal × View Settings Row Key →
    Except HttpException TransferReversal × View Settings Row Key → Prop} {rows : List Row} {s : Settings}
  {v v' : View Settings Row Key}

namespace ReversalsService

/-- The transfer row is locked, if there is one; the user gets to know no more than that it is not found. -/
theorem pair_work {draws : Draws} {request : NormalizedReversalRequest} (level : Level rows s v v')
    (notSent : NotSent (applyAll db rows) userId request.transferId)
    (notSent' : NotSent (applyAll db' rows) userId request.transferId)
    (post : ∀ w w', Level rows s w w' →
      Q (.error (notFound "Transfer not found"), w) (.error (notFound "Transfer not found"), w')) :
    (work draws userId request).Pair (fun _ => db) (fun _ => db') (work draws userId request) Q v v' := by
  apply pair_bind
  apply pair_quiet level (fun _ _ => True)
  · cases cast : castUuid request.transferId with
    | error d => exact rfl
    | ok id => exact ⟨trivial, rfl, rfl, rfl, rfl⟩
  · intro _ _ w w' _ locked
    apply pair_bind
    apply pair_quiet locked (fun found found' => found = none ∧ found' = none)
    · rw [findTransfer_notSent notSent, findTransfer_notSent notSent']
      cases cast : castUuid request.transferId with
      | error d => rfl
      | ok id => exact ⟨⟨rfl, rfl⟩, rfl, rfl, rfl, rfl⟩
    · rintro _ _ w w' ⟨rfl, rfl⟩ searched
      apply pair_bind
      apply pair_throw
      exact post w w' searched

theorem pair_claimed {claim : IdempotencyRecord} {draws : Draws} {request : NormalizedReversalRequest}
    (h : AgreesOnRequests userId db db') (own : claim.userId = userId) (begun : claim.status = .inProgress)
    (untransferred : claim.transferId = none) (unreversed : claim.reversalId = none)
    (fresh : ∀ r ∈ db.idempotencyRecords, r.id ≠ claim.id) (fresh' : ∀ r ∈ db'.idempotencyRecords, r.id ≠ claim.id)
    (notSent : NotSent db userId request.transferId) (level : Level [] {} v v') :
    (scope.claimed claim (work draws userId request)).Pair (fun _ => db) (fun _ => db')
      (scope.claimed claim (work draws userId request)) (LevelEnd userId) v v' := by
  subst own
  have claimed : IsUncompleted claim.userId (.idempotencyRecord claim) :=
    ⟨claim, rfl, rfl, by simp [begun], unreversed⟩
  have after := h.put claimed
  have notSent' : NotSent db' claim.userId request.transferId := notSent.congr h.toAgrees
  have references : Row.references (.idempotencyRecord claim) = [.row .user claim.userId] := by
    simp [Row.references, untransferred, unreversed]
  have keys : Row.keys (.idempotencyRecord claim) =
      [.row .idempotencyRecord claim.id, .idempotencyKey claim.userId claim.scope claim.key] := by
    simp [Row.keys, Row.pk, Row.slots, untransferred, unreversed]
  have inserted : db.insert {} (.idempotencyRecord claim) = db'.insert {} (.idempotencyRecord claim) := by
    apply insert_congr
    · simp only [beforeInsert]
    · rw [keys]
      rintro k (_ | ⟨_, _ | ⟨_, ⟨⟩⟩⟩)
      · rw [taken_fresh fresh, taken_fresh fresh']
      · exact h.taken_key _ _
    · rw [references]
      rintro k (_ | ⟨_, ⟨⟩⟩)
      exact h.taken_user
  apply pair_bind
  apply pair_create level inserted
  intro v v' created
  apply pair_tryCatch
  apply pair_bind
  apply pair_work created notSent notSent'
  intro v v' worked
  have client : 400 ≤ (notFound "Transfer not found").status ∧ (notFound "Transfer not found").status < 500 := by decide
  simp only [Prog.thenPair, Prog.catchPair, if_pos client]
  apply pair_bind
  apply pair_update worked (Table.find?_put_self _ claim) (Table.find?_put_self _ claim)
  · apply update_congr
    · exact List.Subset.refl _
    · intro k hk
      have user : k = .row .user claim.userId := by simpa [Row.references, untransferred, unreversed] using hk
      rw [user]
      exact after.taken_user
  · intro v v' refused
    apply pair_pure
    refine ⟨rfl, _, _, refused, ?_⟩
    simp only [deferredOnUpdate, List.nil_append, List.mem_append, List.mem_singleton]
    rintro row ((rfl | rfl) | rfl | rfl)
    · exact claimed
    · exact ⟨_, rfl, rfl, by simp, unreversed⟩
    · exact claimed
    · exact ⟨_, rfl, rfl, by simp, unreversed⟩

theorem pair_attempt {draws : Draws} {key hash : String} {request : NormalizedReversalRequest} (indexed : db.Indexed)
    (h : AgreesOnRequests userId db db') (fresh : ∀ r ∈ db.idempotencyRecords, r.id ≠ draws.id .idempotencyRecord)
    (fresh' : ∀ r ∈ db'.idempotencyRecords, r.id ≠ draws.id .idempotencyRecord)
    (notSent : NotSent db userId request.transferId) :
    (scope.attempt draws userId key hash (work draws userId request)).Pair (fun _ => db) (fun _ => db')
      (scope.attempt draws userId key hash (work draws userId request)) (LevelEnd userId) { locals := {} } { locals := {} } := by
  have start : Level [] {} { locals := {} } { locals := {} } := ⟨rfl, rfl, rfl, rfl⟩
  apply pair_bind
  apply pair_read start (Scope.findRecord_congr indexed h.records h.reversals key)
  intro v v' read
  rw [applyAll_nil]
  cases found : scope.findRecord userId key db with
  | some existing =>
      apply pair_lift
      exact ⟨rfl, [], {}, read, by simp⟩
  | none =>
      exact pair_claimed h rfl rfl rfl rfl fresh fresh' notSent read

theorem atCommit_uncompleted {row : Row} (uncompleted : IsUncompleted userId row) (db : Db) : atCommit db row = .ok () := by
  obtain ⟨r, rfl, _, status, _⟩ := uncompleted
  simp only [atCommit, validateIdempotencyIntegrity, if_pos status]
  rfl

theorem pair_committing {α : Type} {body : Tx α}
    (h : body.Pair (fun _ => db) (fun _ => db') body (LevelEnd userId) v v') :
    (Tx.committing body).Pair (fun _ => db) (fun _ => db') (Tx.committing body) (LevelEnd userId) v v' := by
  apply pair_bind
  apply pair_imp h
  rintro ⟨r, w⟩ ⟨r', w'⟩ ⟨rfl, rows, s, level, uncompleted⟩
  cases r with
  | error e => exact ⟨rfl, rows, s, level, uncompleted⟩
  | ok a =>
      have passes (db : Db) : s.deferred.forM (atCommit db) = .ok () := by
        apply forM_eq_ok_of_forall
        exact fun row due => atCommit_uncompleted (uncompleted row (List.mem_append_right _ due)) db
      apply pair_bind
      apply pair_quiet level (fun _ _ => True)
      · simp only [passes]
        exact ⟨trivial, rfl, rfl, rfl, rfl⟩
      · intro _ _ w w' _ level
        apply pair_pure
        exact ⟨rfl, rows, s, level, uncompleted⟩

theorem alone_replay (indexed : db.Indexed) (h : AgreesOnRequests userId db db') (key hash : String) (tries : Nat) :
    (scope.replayAfterIdempotencyRace userId key hash tries).alone {} db =
      (scope.replayAfterIdempotencyRace userId key hash tries).alone {} db' ∧
    ((scope.replayAfterIdempotencyRace userId key hash tries).alone {} db).1 = [] := by
  induction tries with
  | zero => exact ⟨rfl, rfl⟩
  | succ tries ih =>
      have found := Scope.findRecord_congr indexed h.records h.reversals key
      simp only [Scope.replayAfterIdempotencyRace, Client.alone, ← found]
      cases scope.findRecord userId key db with
      | none => exact ih
      | some existing =>
          cases resolved : scope.resolveExistingIdempotency existing hash with
          | error e => simp only [resolved, Client.alone, and_self]
          | ok outcome => simp only [resolved, Client.alone, and_self]

/-- Whether somebody else's transfer exists makes no difference to what `create` answers and writes. -/
theorem alone_create (sha256Hex : String → String) {draws : Draws} (header : Option String)
    (input : CreateReversalDto) (indexed : db.Indexed) (h : AgreesOnRequests userId db db')
    (fresh : ∀ r ∈ db.idempotencyRecords, r.id ≠ draws.id .idempotencyRecord)
    (fresh' : ∀ r ∈ db'.idempotencyRecords, r.id ≠ draws.id .idempotencyRecord)
    (notSent : NotSent db userId (toLowerCase transferId)) :
    let ran := (create sha256Hex draws userId transferId header input).alone {} db
    ran = (create sha256Hex draws userId transferId header input).alone {} db' ∧
      ∀ row ∈ ran.1.flatten, IsUncompleted userId row := by
  unfold create
  cases normalized : normalizeIdempotencyKey header with
  | error e => exact ⟨rfl, by simp [Client.alone]⟩
  | ok key =>
      let P (ran ran' : List (List Row) × Result) := ran = ran' ∧ ∀ row ∈ ran.1.flatten, IsUncompleted userId row
      let request := normalizeRequest transferId input
      have ends : (Tx.committing (scope.attempt draws userId key (hashRequest sha256Hex request) (work draws userId request))).Pair
          (fun _ => db) (fun _ => db') (Tx.committing (scope.attempt draws userId key (hashRequest sha256Hex request)
            (work draws userId request))) (LevelEnd userId) { locals := {} } { locals := {} } :=
        pair_committing (pair_attempt indexed h fresh fresh' notSent)
      change P (Client.alone {} db (Scope.create _ _ _ _ _ _)) (Client.alone {} db' (Scope.create _ _ _ _ _ _))
      unfold Scope.create
      apply Client.alone_pair (P := P) ends
      · exact fun r r' w w' ended => ended.1
      · intro d
        simp only
        split
        · obtain ⟨same, none⟩ := alone_replay indexed h key _ 5
          exact ⟨same, by simp [none]⟩
        · exact ⟨rfl, by simp [Client.alone]⟩
      · exact fun e => ⟨rfl, by simp [Client.alone]⟩
      · rintro a w w' ⟨_, rows, s, level, uncompleted⟩
        constructor
        · simp only [Client.alone, level.writes, level.writes']
        · intro row mem
          apply uncompleted
          apply List.mem_append_left
          simpa [Client.alone, level.writes] using mem

end ReversalsService

end

/-- Reads and refused reversals are isolated: what others own makes no difference to the user. -/
theorem reads_isolated {userId : Uuid} {db db' : Db} (indexed : db.Indexed) :
    (Agrees userId db db' →
      WalletsService.findAllForUser db userId = WalletsService.findAllForUser db' userId ∧
      (∀ id, WalletsService.findOneForUser db userId id = WalletsService.findOneForUser db' userId id) ∧
      BeneficiariesService.findAll db userId = BeneficiariesService.findAll db' userId ∧
      TransfersService.findAllForUser db userId = TransfersService.findAllForUser db' userId ∧
      (∀ id, TransfersService.findOneForUser db userId id = TransfersService.findOneForUser db' userId id) ∧
      (∀ id, ReversalsService.findOneForUser db userId id = ReversalsService.findOneForUser db' userId id) ∧
      (∀ query, AuditService.findAllForUser db userId query = AuditService.findAllForUser db' userId query) ∧
      (∀ query, PaymentsService.list db userId query = PaymentsService.list db' userId query) ∧
      (∀ id, PaymentsService.findOne db userId id = PaymentsService.findOne db' userId id) ∧
      (∀ id query, PaymentsService.events db userId id query = PaymentsService.events db' userId id query) ∧
      WebhooksService.list db userId = WebhooksService.list db' userId ∧
      ∀ id query, WebhooksService.deliveries db userId id query = WebhooksService.deliveries db' userId id query) ∧
    ∀ (sha256Hex : String → String) (draws : Draws) (transferId : String) (header : Option String)
      (input : ReversalsService.CreateReversalDto), AgreesOnRequests userId db db' →
      (∀ r ∈ db.idempotencyRecords, r.id ≠ draws.id .idempotencyRecord) →
      (∀ r ∈ db'.idempotencyRecords, r.id ≠ draws.id .idempotencyRecord) →
      ReversalsService.NotSent db userId (toLowerCase transferId) →
      let ran := (ReversalsService.create sha256Hex draws userId transferId header input).alone {} db
      let ran' := (ReversalsService.create sha256Hex draws userId transferId header input).alone {} db'
      ran.2 = ran'.2 ∧ AgreesOnRequests userId (applyAll db ran.1.flatten) (applyAll db' ran'.1.flatten) := by
  constructor
  · intro h
    refine ⟨?wallets, ?wallet, ?beneficiaries, ?transfers, ?transfer, ?reversal, ?audit, ?payments, ?payment, ?events,
      ?subscriptions, ?deliveries⟩
    case wallets => exact WalletsService.findAllForUser_congr indexed h
    case wallet => exact WalletsService.findOneForUser_congr h
    case beneficiaries => exact BeneficiariesService.findAll_congr h
    case transfers => exact TransfersService.findAllForUser_congr h
    case transfer => exact TransfersService.findOneForUser_congr h
    case reversal => exact ReversalsService.findOneForUser_congr indexed h
    case audit => exact AuditService.findAllForUser_congr h
    case payments => exact PaymentsService.list_congr h
    case payment => exact PaymentsService.findOne_congr h
    case events => exact PaymentsService.events_congr h
    case subscriptions => exact WebhooksService.list_congr h
    case deliveries => exact WebhooksService.deliveries_congr indexed h
  · intro sha256Hex draws transferId header input h fresh fresh' notSent
    obtain ⟨same, uncompleted⟩ := ReversalsService.alone_create sha256Hex header input indexed h fresh fresh' notSent
    simp only [← same]
    exact ⟨trivial, h.applyAll uncompleted⟩

end

/-! ## A transfer that is there, and one that is not -/

def sampleReader : User where
  id := sampleOwnerId
  email := "reader@example.com"
  passwordHash := ""
  firstName := "Ada"
  lastName := "Obi"
  createdAt := 0
  updatedAt := 0

def sampleOthersTransfer : Transfer where
  id := ⟨"00000000-0000-4000-8000-00000000000f", by decide +kernel⟩
  reference := "transfer:1"
  senderUserId := ⟨"00000000-0000-4000-8000-000000000010", by decide +kernel⟩
  sourceWalletId := ⟨"00000000-0000-4000-8000-000000000011", by decide +kernel⟩
  destinationWalletId := ⟨"00000000-0000-4000-8000-000000000012", by decide +kernel⟩
  ledgerTransactionId := ⟨"00000000-0000-4000-8000-000000000013", by decide +kernel⟩
  currency := .usd
  amountMinor := 100
  createdAt := 0

def sampleWithout : Db := { users := ⟨[sampleReader], by decide⟩ }

def sampleWith : Db := { sampleWithout with transfers := ⟨[sampleOthersTransfer], by decide⟩ }

def sampleReaderDraws : Draws where
  id _ := sampleOwnerId
  reference := sampleOwnerId
  posting _ := sampleOwnerId
  delivery _ := sampleOwnerId
  createdAt _ := 0
  date _ := 0

def sampleReversal : Call :=
  ReversalsService.create (fun _ => "0000000000000000000000000000000000000000000000000000000000000000") sampleReaderDraws
    sampleOwnerId sampleOthersTransfer.id.text (some "key-1") {}

theorem sampleWith_indexed : sampleWith.Indexed := by
  have indexed : ∀ r ∈ sampleWith.rows, ∀ r' ∈ sampleWith.rows, ∀ k ∈ r.keys, k ∈ r'.keys → r = r' := by decide
  intro r mem r' mem'
  exact indexed r (Db.mem_rows.mpr mem) r' (Db.mem_rows.mpr mem')

theorem sampleWith_agrees : AgreesOnRequests sampleOwnerId sampleWith sampleWithout := by
  have others : sampleOthersTransfer.senderUserId ≠ sampleOwnerId := by decide
  constructor
  · constructor
    · intro r
      cases r with
      | transfer t =>
          constructor
          · rintro ⟨mem, own⟩
            cases List.mem_singleton.mp mem
            exact absurd own others
          · rintro ⟨⟨⟩, _⟩
      | _ => exact Iff.rfl
    · rintro _ ⟨⟩
  · exact Iff.rfl
  · exact fun _ _ => Iff.rfl
  · rintro _ ⟨⟩

theorem reads_isolated_sample :
    TransfersService.findOneForUser sampleWith sampleOwnerId sampleOthersTransfer.id =
      TransfersService.findOneForUser sampleWithout sampleOwnerId sampleOthersTransfer.id ∧
    (sampleReversal.alone {} sampleWith).2 = (sampleReversal.alone {} sampleWithout).2 := by
  have notSent : ReversalsService.NotSent sampleWith sampleOwnerId (toLowerCase sampleOthersTransfer.id.text) := by
    intro t mem _
    cases List.mem_singleton.mp mem
    decide
  have isolated := @reads_isolated sampleOwnerId sampleWith sampleWithout sampleWith_indexed
  constructor
  · exact (isolated.1 sampleWith_agrees.toAgrees).2.2.2.2.1 _
  · exact (isolated.2 _ sampleReaderDraws _ _ _ sampleWith_agrees (by rintro _ ⟨⟩) (by rintro _ ⟨⟩) notSent).1

end Fintech
