import Fintech.Library.ProcessRuns
import Fintech.Proof.Api
import Fintech.Proof.Callbacks
import Fintech.Proof.Environment
import Fintech.Proof.Numerals
import Fintech.Proof.Settlements

/-!
# On whose authority money moves

Whatever requests arrive, whatever the provider answers, and wherever a process crashes: a payment is concluded only on
the evidence of its provider, and a balance changes only by what an authenticated user may move or by such a payment.
-/

namespace Fintech
open Relational Transactional Handler DoubleEntry

/-! ## Evidence about a payment -/

/-- What the process knows from the provider of the payment about its outcome. -/
inductive Proven (node : Node) (r : Incoming) (done : List ApiEvent) (p : Payment) : PaymentStatus → Prop
  | mock (rawBody : Bytes) (timestamp signature : Option String) (input : Json) (event : VerifiedPaymentEvent)
      (provider : p.provider = .mock) (endpoint : r.endpoint = .receive rawBody timestamp signature)
      (authentic : MockPaymentProvider.Authentic node r.env r.now rawBody timestamp signature)
      (parsed : node.parseJson rawBody = some input)
      (read : MockPaymentProvider.eventSchema (node.sha256Hex rawBody) input = some event)
      (about : PaymentsService.Matches event .mock p) : Proven node r done p event.status
  | paystack (response : Option Json) (data : PaystackProvider.Transaction) (provider : p.provider = .paystack)
      (enabled : PaystackProvider.isEnabled r.env)
      (answered : Event.answered (.verifyTransaction p.reference) response ∈ done)
      (confirms : PaystackProvider.Confirms (PaystackProvider.secretKey r.env) p.reference response data)
      (succeeded : data.status = "success") (amount : data.amount = p.amountMinor) (currency : p.currency = .ngn) :
      Proven node r done p .succeeded

section
variable {node : Node} {jwt : JwtService} {r : Incoming} {done : List ApiEvent}

theorem Evidence.proven {event : VerifiedPaymentEvent} {provider : PaymentProvider}
    (h : Evidence node r done event provider) {p : Payment} (about : PaymentsService.Matches event provider p) :
    Proven node r done p event.status := by
  cases h with
  | mock rawBody timestamp signature endpoint verified =>
      obtain ⟨authentic, input, parsed, read⟩ := MockPaymentProvider.verify_eq_ok.mp verified
      exact .mock rawBody timestamp signature input event about.provider endpoint authentic parsed read about
  | paystack reference response answered enabled verified =>
      obtain ⟨data, confirms, succeeded, rfl⟩ := PaystackProvider.reconcile_eq_ok.mp verified
      obtain rfl : reference = p.reference := confirms.about.symm.trans about.reference.symm
      refine .paystack response data about.provider enabled answered confirms succeeded ?_ about.currency
      exact (toString_injective about.amount).symm

end

/-! ## Authority over money -/

/-- What entitles the process to add the amount to the wallet, or to take it away. -/
inductive Entitled (node : Node) (jwt : JwtService) (r : Incoming) (done : List ApiEvent) (before after : Db) (w : Wallet) :
    Int → Prop
  | sent (t : Transfer) (sender : Authenticated jwt r done t.senderUserId)
      (transfers : after.transfers.rows = before.transfers.rows ++ [t]) (completed : t.status = .completed)
      (source : w.id = t.sourceWalletId) (owned : w.userId = t.senderUserId) :
      Entitled node jwt r done before after w (-t.amountMinor)
  | received (t : Transfer) (sender : Authenticated jwt r done t.senderUserId)
      (transfers : after.transfers.rows = before.transfers.rows ++ [t]) (completed : t.status = .completed)
      (destination : w.id = t.destinationWalletId) : Entitled node jwt r done before after w t.amountMinor
  /-- The amount of a transfer goes back, once, when its sender reverses it. -/
  | reversed (v : TransferReversal) (t : Transfer) (amount : Int) (sender : Authenticated jwt r done t.senderUserId)
      (reversals : after.transferReversals.rows = before.transferReversals.rows ++ [v]) (mem : t ∈ before.transfers)
      (of : v.transferId = t.id) (actor : v.actorUserId = t.senderUserId)
      (once : ∀ x ∈ before.transferReversals, x.transferId ≠ t.id)
      (moves : w.id = t.destinationWalletId ∧ amount = -t.amountMinor ∨ w.id = t.sourceWalletId ∧ amount = t.amountMinor) :
      Entitled node jwt r done before after w amount
  | credited (p : Payment) (mem : p ∈ before.payments) (pending : p.status = .pending)
      (proven : Proven node r done p .succeeded) (wallet : w.id = p.walletId) :
      Entitled node jwt r done before after w p.amountMinor

/-- A wallet after a movement between two accounts. -/
theorem Posts.wallet_of_pair {m : Movement} {before after : Db} (posts : Posts m before after) (sound : before.Sound)
    (books : Books before) {a b : Uuid} {x y : Int}
    (pair : m.postings.map (fun p => (p.accountId, p.amountMinor)) = [(a, x), (b, y)]) {w' : Wallet}
    (hw' : w' ∈ after.wallets) : ∃ w ∈ before.wallets, w'.identity = w.identity ∧ w'.currentBalanceMinor =
      w.currentBalanceMinor + ((if a = w.ledgerAccountId then x else 0) + if b = w.ledgerAccountId then y else 0) := by
  rw [posts.wallets_modify sound fun w hw a ha same => books.kind_of_owned hw ha same] at hw'
  obtain ⟨w, hw, rfl⟩ := Table.mem_modify.mp hw'
  refine ⟨w, hw, Wallet.identity_eq.mpr (by simp), ?_⟩
  rw [Movement.onWallet_balance, Movement.amount_of_pair pair]

/-- How the balance of a wallet comes to be what it is. -/
inductive Rightful (node : Node) (jwt : JwtService) (r : Incoming) (done : List ApiEvent) (before after : Db) (w' : Wallet) :
    Prop
  | opened (new : ∀ w ∈ before.wallets, w.id ≠ w'.id) (empty : w'.currentBalanceMinor = 0) :
      Rightful node jwt r done before after w'
  | kept (w : Wallet) (mem : w ∈ before.wallets) (same : w'.identity = w.identity)
      (balance : w'.currentBalanceMinor = w.currentBalanceMinor) : Rightful node jwt r done before after w'
  | moved (w : Wallet) (amount : Int) (mem : w ∈ before.wallets) (same : w'.identity = w.identity)
      (balance : w'.currentBalanceMinor = w.currentBalanceMinor + amount)
      (entitled : Entitled node jwt r done before after w amount) : Rightful node jwt r done before after w'

section
variable {node : Node} {jwt : JwtService} {r : Incoming} {done : List ApiEvent} {before after : Db} {i : Request}

theorem Quiet.rightful (quiet : Quiet before after) {w' : Wallet} (hw' : w' ∈ after.wallets) :
    Rightful node jwt r done before after w' := by
  cases quiet.ledgers with
  | same _ wallets _ _ => exact .kept w' (wallets ▸ hw') rfl rfl
  | opened draws userId currency _ new _ wallets _ _ =>
      rw [wallets] at hw'
      rcases Table.mem_put.mp hw' with rfl | ⟨mem, _⟩
      · exact .opened new rfl
      · exact .kept w' mem rfl rfl
  | closed draws w mem _ _ _ wallets _ _ =>
      rw [wallets] at hw'
      rcases Table.mem_put.mp hw' with rfl | ⟨mem', _⟩
      · exact .kept w mem rfl rfl
      · exact .kept w' mem' rfl rfl
  | moved m posts =>
      have longer := congrArg List.length posts.ledgerTransactions
      rw [quiet.transactions, List.length_append] at longer
      exact absurd longer (by simp)

/-- The step lemma: what a permitted call commits leaves every balance rightful. -/
theorem Committing.rightful (h : Committing before after i) (proceeds : Proceeds before after i)
    (permits : Permits node jwt r done i) {w' : Wallet} (hw' : w' ∈ after.wallets) :
    Rightful node jwt r done before after w' := by
  have sound := h.sound
  cases h.booked with
  | quiet quiet => exact quiet.rightful hw'
  | posted m posts => cases permits
  | transferred m t source destination posts transfers _ _ completed sender source_mem source_id owned destination_mem
      destination_id _ _ _ pair =>
      cases permits with
      | createTransfer input valid authenticated =>
          obtain ⟨w, hw, same, balance⟩ := posts.wallet_of_pair sound h.books pair hw'
          simp only [sound.wallet_eq source_mem hw, sound.wallet_eq destination_mem hw] at balance
          obtain rfl := sender
          by_cases out : source.id = w.id
          · obtain rfl : source = w := Table.eq_of_key_eq source_mem hw out
            by_cases into : destination.id = source.id
            · exact .kept source hw same (by rw [balance, if_pos rfl, if_pos into]; omega)
            · refine .moved source _ hw same ?_ (.sent t authenticated transfers completed source_id owned)
              rw [balance, if_pos rfl, if_neg into, add_zero]
          · by_cases into : destination.id = w.id
            · refine .moved w _ hw same ?_ (.received t authenticated transfers completed (into ▸ destination_id))
              rw [balance, if_neg out, if_pos into, zero_add]
            · exact .kept w hw same (by rw [balance, if_neg out, if_neg into, add_zero, add_zero])
  | reversed m v t source destination posts _ reversals _ actor _ mem id _ owned unreversed amount source_mem source_id
      destination_mem destination_id _ _ _ _ pair =>
      cases permits with
      | createReversal transferId input valid authenticated =>
          obtain ⟨w, hw, same, balance⟩ := posts.wallet_of_pair sound h.books pair hw'
          simp only [sound.wallet_eq source_mem hw, sound.wallet_eq destination_mem hw, ← amount] at balance
          obtain rfl := owned
          have back (amount : Int) (moves : w.id = t.destinationWalletId ∧ amount = -t.amountMinor ∨
              w.id = t.sourceWalletId ∧ amount = t.amountMinor) : Entitled node jwt r done before after w amount :=
            .reversed v t amount authenticated reversals mem id.symm actor unreversed moves
          by_cases out : destination.id = w.id
          · by_cases into : source.id = w.id
            · exact .kept w hw same (by rw [balance, if_pos into, if_pos out]; omega)
            · refine .moved w _ hw same ?_ (back _ (.inl ⟨out ▸ destination_id, rfl⟩))
              rw [balance, if_neg into, if_pos out, zero_add]
          · by_cases into : source.id = w.id
            · refine .moved w _ hw same ?_ (back _ (.inr ⟨into ▸ source_id, rfl⟩))
              rw [balance, if_pos into, if_neg out, add_zero]
            · exact .kept w hw same (by rw [balance, if_neg into, if_neg out, add_zero, add_zero])
  | credited m p p' clearing wallet posts _ _ payments mem pending kept succeeded _ _ clearing_mem clearing_key wallet_mem
      wallet_id _ _ pair =>
      cases permits with
      | settle evidence =>
          have after_mem : p' ∈ after.payments := payments ▸ Table.mem_put_self _ _
          have sameId : p'.id = p.id := (Payment.identity_eq.mp kept).1
          obtain ⟨_, event, _, request, about, status, _⟩ := proceeds.concluded mem after_mem sameId pending
            (by rw [succeeded]; decide)
          cases request
          obtain ⟨w, hw, same, balance⟩ := posts.wallet_of_pair sound h.books pair hw'
          have notClearing : clearing.id ≠ w.ledgerAccountId := by
            intro on
            cases (h.books.kind_of_owned hw clearing_mem on).symm.trans (sound.kind_of_systemKey clearing_mem clearing_key)
          simp only [sound.wallet_eq wallet_mem hw, if_neg notClearing, zero_add] at balance
          by_cases own : wallet.id = w.id
          · refine .moved w _ hw same ?_ (.credited p mem pending ?_ (own ▸ wallet_id))
            · rw [balance, if_pos own]
            · have proven := evidence.proven about
              rwa [← status, succeeded] at proven
          · exact .kept w hw same (by rw [balance, if_neg own, add_zero])

end

/-! ## A run -/

def sampleBytes (n : Nat) : Digest n := ⟨.replicate n 0, List.length_replicate⟩

/-- Of the functions of the node, `scrypt` cuts the password off, and `parseJson` knows one text. -/
def sampleNode : Node where
  sha256 _ := sampleBytes 32
  hmacSha256 _ _ := sampleBytes 32
  hmacSha512 _ _ := sampleBytes 64
  scrypt password _ := ⟨(utf8 password ++ List.replicate 64 0).take 64, by simp⟩
  parseJson _ := some (.object [("eventId", .string (sampleUuid 0 2).text), ("reference", .string sampleFunding.reference),
    ("amountMinor", .string "5000"), ("currency", .string "USD"), ("status", .string "SUCCEEDED")])
  number s := (bigInt? s).map fun n => n

/-- Tokens that are their subjects. -/
def sampleJwt : JwtService where
  sign _ payload _ _ := payload.sub.getD ""
  verify _ token _ := some ⟨some token, none, some "access"⟩

def sampleIncoming (n : Nat) (key : Option String) (endpoint : Endpoint) : Incoming where
  env := sampleEnvironment
  now := 1700000000000
  draws := sampleDraws n
  settlements _ := sampleDraws n
  salt := sampleBytes 16
  authorization := some ("Bearer " ++ (sampleUuid 0 0).text)
  idempotencyKey := key
  endpoint

/-- A user registers, and is paid 5000. -/
def sampleRequests : List Incoming := [
  sampleIncoming 0 none
    (.register { email := "ada@example.com", password := "correct horse", firstName := "Ada", lastName := "Obi" }),
  sampleIncoming 2 (some "pay-1") (.createPayment { walletId := (sampleUuid 0 1).text, amountMinor := "5000" }),
  sampleIncoming 3 none
    (.receive [0] (some "1700000000") (some ("v1=" ++ Encoding.hex.encode (sampleBytes 32).1)))]

def sampleServed : List (Entry Request Row) := ((api sampleNode sampleJwt migrated).serveAll (fun _ => none) sampleRequests 0 {}).log

def samplePayments (k : Nat) : List (Uuid × PaymentStatus) :=
  (stateAt migrated sampleServed k).payments.rows.map fun p => (p.id, p.status)

theorem sampleServed_eq : sampleServed.length = 3 ∧
    (stateAt migrated sampleServed 3).wallets.rows.map Wallet.currentBalanceMinor = [5000] ∧
    samplePayments 2 = [(sampleUuid 2 15, .pending)] ∧ samplePayments 3 = [(sampleUuid 2 15, .succeeded)] := by
  decide +kernel

theorem sample_served : ∃ w, (api sampleNode sampleJwt migrated).Reachable w ∧ w.base.log = sampleServed := by
  obtain ⟨w, reach, _, trail⟩ := Gateway.reachable_serveAll (api sampleNode sampleJwt migrated) (fun _ => none) sampleRequests
  exact ⟨w, reach, congrArg Trail.log trail⟩

/-- The payment of the run after its first `k` commits. -/
theorem samplePayments_mem {k : Nat} {status : PaymentStatus} (h : samplePayments k = [(sampleUuid 2 15, status)]) :
    ∃ p ∈ (stateAt migrated sampleServed k).payments, p.id = sampleUuid 2 15 ∧ p.status = status := by
  have mem : (sampleUuid 2 15, status) ∈ samplePayments k := h ▸ List.mem_singleton_self _
  obtain ⟨p, hp, same⟩ := List.mem_map.mp mem
  exact ⟨p, hp, (Prod.mk.inj same).1, (Prod.mk.inj same).2⟩

/-! ## Runs -/

section
variable {node : Node} {jwt : JwtService} {w : ApiWorld}

theorem later_state (h : (api node jwt migrated).Reachable w) {i j : Nat} (le : i ≤ j) (hj : j ≤ w.base.log.length) :
    (stateAt migrated w.base.log j).Extends (stateAt migrated w.base.log i) :=
  (reachable_sound migrated_sound h.invariant.base).2 i j le hj

/-- The process that served request `n` made the call of the commit after it had done `done`. -/
structure CommittedBy (w : ApiWorld) (e : Entry Request Row) (n : Nat) (r : Incoming) (done : List ApiEvent) : Prop where
  request : w.requests[n]? = some r
  made : ∃ event rest, w.eventsOf n = done ++ event :: rest ∧ event.made = some (e.call, e.request)

/-- The process that concludes a payment has proof of its outcome. -/
theorem concluded_by (h : (api node jwt migrated).Reachable w) {j : Nat} (lt : j < w.base.log.length) {p p' : Payment}
    (hp : p ∈ (stateAt migrated w.base.log j).payments) (hp' : p' ∈ (stateAt migrated w.base.log (j + 1)).payments)
    (id : p'.id = p.id) (pending : p.status = .pending) (terminal : p'.status ≠ .pending) :
    ∃ n r done, CommittedBy w w.base.log[j] n r done ∧ Proven node r done p p'.status := by
  have proceeds := proceeding migrated_opening h.invariant.base lt
  obtain ⟨draws, event, provider, request, about, status, _, _⟩ := proceeds.concluded hp hp' id pending terminal
  obtain ⟨n, r, done, rest, made, served, events, own, permits⟩ := permitted h (List.getElem_mem lt)
  refine ⟨n, r, done, ⟨served, made, rest, events, own⟩, ?_⟩
  rw [request] at permits
  cases permits with
  | settle evidence => exact status ▸ evidence.proven about

/-- A payment is concluded only by a process that has proof of its outcome from the payment's provider: a fresh callback
that is signed with the secret of the mock provider, outside production, or an answer of Paystack itself about the
reference, the amount and the mode. With the success, and only with it, the wallet is credited from the clearing account. -/
theorem payments_proven (h : (api node jwt migrated).Reachable w) {j : Nat} (lt : j < w.base.log.length) {p p' : Payment}
    (hp : p ∈ (stateAt migrated w.base.log j).payments) (hp' : p' ∈ (stateAt migrated w.base.log (j + 1)).payments)
    (id : p'.id = p.id) (pending : p.status = .pending) (terminal : p'.status ≠ .pending) :
    p'.identity = p.identity ∧
    (if p'.status = .succeeded then Credits (stateAt migrated w.base.log j) (stateAt migrated w.base.log (j + 1)) p p'
      else SameMoney (stateAt migrated w.base.log j) (stateAt migrated w.base.log (j + 1))) ∧
    ∃ n r done, CommittedBy w w.base.log[j] n r done ∧ Proven node r done p p'.status := by
  have proceeds := proceeding migrated_opening h.invariant.base lt
  obtain ⟨_, _, _, _, _, _, same, money⟩ := proceeds.concluded hp hp' id pending terminal
  exact ⟨same, money, concluded_by h lt hp hp' id pending terminal⟩

theorem payments_proven_sample : ∃ (w : ApiWorld) (p : Payment) (n : Nat) (r : Incoming) (done : List ApiEvent),
    w.base.log.length = 3 ∧ p.status = .pending ∧ Proven sampleNode r done p .succeeded ∧ w.requests[n]? = some r := by
  obtain ⟨w, reach, log⟩ := sample_served
  obtain ⟨length, _, before, after⟩ := sampleServed_eq
  obtain ⟨p, hp, id, pending⟩ := samplePayments_mem before
  obtain ⟨p', hp', id', succeeded⟩ := samplePayments_mem after
  rw [← log] at length hp hp'
  have proven := payments_proven reach (j := 2) (by omega) hp hp' (id'.trans id.symm) pending (by rw [succeeded]; decide)
  obtain ⟨_, _, n, r, done, committed, proven⟩ := proven
  exact ⟨w, p, n, r, done, length, pending, succeeded ▸ proven, committed.request⟩

/-- No process posts to the ledger past the services. -/
theorem api_ordinary (h : (api node jwt migrated).Reachable w) {e : Entry Request Row} (he : e ∈ w.base.log) (draws : Draws)
    (input : LedgerTransactionInput) : e.request ≠ .post draws input := by
  obtain ⟨_, _, _, _, _, _, _, _, permits⟩ := permitted h he
  intro posted
  rw [posted] at permits
  cases permits

/-- Every commit was made by one process, and leaves every balance as it was but for what that process may move: a wallet
opens empty; money leaves it only by a transfer of its authenticated owner, or back to the sender who reverses a transfer
into it; and it comes only by these, or by a pending payment whose success the provider has proved. Every ledger
transaction that is there then is borne out by a transfer, a reversal or a payment of its own. -/
theorem balances_rightful (h : (api node jwt migrated).Reachable w) {j : Nat} (lt : j < w.base.log.length) :
    (∃ n r done, CommittedBy w w.base.log[j] n r done ∧ ∀ x ∈ (stateAt migrated w.base.log (j + 1)).wallets,
      Rightful node jwt r done (stateAt migrated w.base.log j) (stateAt migrated w.base.log (j + 1)) x) ∧
    ∀ t ∈ (stateAt migrated w.base.log (j + 1)).ledgerTransactions, ∃ x ∈ stateAt migrated w.base.log (j + 1),
      x.movement = some t.id ∧ Backed (stateAt migrated w.base.log (j + 1)) x ∧
      ∀ x' ∈ stateAt migrated w.base.log (j + 1), x'.movement = some t.id → x' = x := by
  have commits := committing migrated_opening h.invariant.base lt
  refine ⟨?_, fun t ht => ?_⟩
  · obtain ⟨n, r, done, rest, made, served, events, own, permits⟩ := permitted h (List.getElem_mem lt)
    have proceeds := proceeding migrated_opening h.invariant.base lt
    exact ⟨n, r, done, ⟨served, made, rest, events, own⟩, fun x hx => commits.rightful proceeds permits hx⟩
  · have accounted := reachable_accounted migrated_opening h.invariant.base (fun e he => api_ordinary h he) lt
    obtain old | ⟨x, hx, moved, only⟩ := accounted.explained t ht
    · exact absurd old (Table.not_mem_empty t)
    · have borne := commits.borne.booked commits.sound commits.preserves commits.later commits.booked
      exact ⟨x, hx, moved, borne.backed x hx (by simp [moved]), only⟩

theorem balances_rightful_sample : ∃ (before after : Db) (r : Incoming) (done : List ApiEvent),
    after.wallets.rows.map Wallet.currentBalanceMinor = [5000] ∧
      (∀ x ∈ after.wallets, Rightful sampleNode sampleJwt r done before after x) ∧
      ∀ t ∈ after.ledgerTransactions, ∃ x ∈ after, x.movement = some t.id ∧ Backed after x := by
  obtain ⟨w, reach, log⟩ := sample_served
  obtain ⟨length, balances, _, _⟩ := sampleServed_eq
  rw [← log] at length balances
  obtain ⟨⟨n, r, done, _, rightful⟩, explained⟩ := balances_rightful reach (j := 2) (by omega)
  refine ⟨_, _, r, done, balances, rightful, fun t ht => ?_⟩
  obtain ⟨x, hx, moved, backed, _⟩ := explained t ht
  exact ⟨x, hx, moved, backed⟩

end

end Fintech
