import Fintech.Proof.Books

/-!
# What a commit did to the business records

Most commits leave the transfers, reversals, payments and their evidence alone. The others write one
record each, with what belongs to it.
-/

namespace Fintech
open Relational Transactional

/-- A row of the ledger's history, or of the business records and what is written with them. -/
def Row.isRecord : Row → Bool
  | .ledgerTransaction _ | .ledgerPosting _ | .transfer _ | .transferReversal _ | .auditLog _ | .outboxEvent _
  | .webhookDelivery _ | .payment _ | .providerEvent _ => true
  | _ => false

/-- A write that leaves the records alone, but for the progress of events and deliveries. -/
def Write.IsAside (w : Write) : Prop := w.IsSide ∨ ¬ w.row.isRecord

theorem aside_nil : ∀ w ∈ ([] : List Write), w.IsAside := by simp

theorem Write.IsSide.table {w : Write} (h : w.IsSide) (record : w.row.isRecord) :
    w.row.table ∈ [.outboxEvent, .webhookDelivery] := by
  cases w with
  | insert r => cases r <;> simp_all [Write.IsSide, isSideRow, Row.isRecord]
  | update old new => cases new <;> simp_all [Write.IsSide, isSideRow, Row.isRecord, Row.table]

theorem aside_written {ws : List Write} (h : ∀ w ∈ ws, w.IsAside) {ρ : Type} [Keyed ρ Uuid] {slice : Slice ρ}
    (record : ∀ x, (slice.row x).isRecord) (other : slice.name ∉ [.outboxEvent, .webhookDelivery]) :
    slice.written ws = [] := by
  rw [Slice.written, List.filterMap_eq_nil_iff]
  intro w hw
  refine slice.of_eq_none fun same => ?_
  obtain ⟨x, row⟩ := slice.exists_row same
  have isRecord : w.row.isRecord := row ▸ record x
  rcases h w hw with side | notRecord
  · exact other (same ▸ side.table isRecord)
  · exact notRecord isRecord

/-- What a commit did, with the request that it served and what its statements saw. -/
inductive Deed (base : Nat → Db) : Request → List Write → Prop
  | aside {i ws} : (∀ w ∈ ws, w.IsAside) → Deed base i ws
  | posted {draws input} (m : Movement) : Records draws input m → Deed base (.post draws input) m.writes
  | transferred {draws senderUserId header input} (claim done : IdempotencyRecord)
      (request : TransfersService.NormalizedTransferRequest) (t : Transfer) (ws : List Write) :
      TransfersService.Transferred (base 0) draws senderUserId request t ws →
      Deed base (.createTransfer draws senderUserId header input) (.insert (.idempotencyRecord claim) ::
        (ws ++ [.update (.idempotencyRecord claim) (.idempotencyRecord done)]))
  | reversed {draws actorUserId transferId header input} (claim done : IdempotencyRecord) (v : TransferReversal)
      (ws : List Write) :
      ReversalsService.Reversed (base 0) draws actorUserId (ReversalsService.normalizeRequest transferId input) v ws →
      Deed base (.createReversal draws actorUserId transferId header input) (.insert (.idempotencyRecord claim) ::
        (ws ++ [.update (.idempotencyRecord claim) (.idempotencyRecord done)]))
  | intended {draws usePaystack userId header input} (n : Nat) (wallet : Wallet) (key hash : String) (amount : Int) :
      wallet ∈ (base n).wallets → wallet.userId = userId →
      Deed base (.createPayment draws usePaystack userId header input)
        [.insert (.payment (PaymentsService.intent draws usePaystack wallet userId key hash amount))]
  | settled {draws event provider outcome ws} (attempt : Nat) :
      PaymentsService.Settles (base 0) (draws attempt) event provider outcome ws →
      Deed base (.settle draws event provider) ws

theorem Change.deed {sha256Hex : String → String} {base : Nat → Db} {now : Db} {i : Request} {outcome : AttemptOutcome}
    {ws : List Write} (h : Change sha256Hex base now i outcome ws) : Deed base i ws := by
  have plain {ws : List Write} (h : ∀ w ∈ ws, w.row.isRecord = false) : Deed base i ws :=
    .aside fun w hw => .inr (by simp [h w hw])
  cases h with
  | registered draws input => exact plain (by simp [openingWrites, Row.isRecord])
  | opened draws userId currency => exact plain (by simp [openingWrites, Row.isRecord])
  | closed closes =>
      cases closes with
      | already _ _ _ _ => exact .aside aside_nil
      | closed w _ _ _ _ => exact plain (by simp [Row.isRecord])
  | posted postings records => exact .posted _ records
  | transfer _ _ attempted =>
      cases attempted with
      | replayed _ _ _ _ => exact .aside aside_nil
      | completed t ws _ transferred => exact .transferred _ _ _ t ws transferred
      | refused e _ _ _ _ => exact plain (by simp [Row.isRecord])
  | reversal _ attempted =>
      cases attempted with
      | replayed _ _ _ _ => exact .aside aside_nil
      | completed v ws _ reversed => exact .reversed _ _ v ws reversed
      | refused e _ _ _ _ => exact plain (by simp [Row.isRecord])
  | payment _ intends =>
      cases intends with
      | existing _ _ _ _ _ _ => exact .aside aside_nil
      | created n wallet mem owned _ _ => exact .intended n wallet _ _ _ mem owned
  | settled attempt settles => exact .settled attempt settles
  | other side => exact .aside fun w hw => .inl (side w hw)

/-! ## What a commit keeps -/

section
variable {before after : Db}

theorem Db.Extends.account (h : after.Extends before) {a : LedgerAccount} (ha : a ∈ before.ledgerAccounts) :
    ∃ a' ∈ after.ledgerAccounts, a'.identity = a.identity := by
  obtain ⟨r, hr, evolves⟩ := h (.ledgerAccount a) ha
  have kept := evolves.kept (P := fun r => ∃ a', r = .ledgerAccount a' ∧ a'.identity = a.identity) ?_ ⟨a, rfl, rfl⟩
  · obtain ⟨a', rfl, same⟩ := kept
    exact ⟨a', hr, same⟩
  · rintro s _ new allowed pk ⟨a', rfl, same⟩
    cases new <;> simp only [Row.pk, Key.row.injEq, reduceCtorEq, false_and] at pk
    rename_i b
    obtain ⟨fixed, _⟩ := bind_unit_eq_ok.mp allowed
    rw [failIf_eq_ok, not_not] at fixed
    refine ⟨b, rfl, ?_⟩
    rw [← same, fixed]
    rfl

theorem Db.Extends.wallet (h : after.Extends before) {w : Wallet} (hw : w ∈ before.wallets) :
    ∃ w' ∈ after.wallets, w'.identity = w.identity := by
  obtain ⟨r, hr, evolves⟩ := h (.wallet w) hw
  have kept := evolves.kept (P := fun r => ∃ w', r = .wallet w' ∧ w'.identity = w.identity) ?_ ⟨w, rfl, rfl⟩
  · obtain ⟨w', rfl, same⟩ := kept
    exact ⟨w', hr, same⟩
  · rintro s _ new allowed pk ⟨w', rfl, same⟩
    cases new <;> simp only [Row.pk, Key.row.injEq, reduceCtorEq, false_and] at pk
    rename_i x
    obtain ⟨_, fixed⟩ := bind_unit_eq_ok.mp allowed
    rw [failIf_eq_ok] at fixed
    push Not at fixed
    refine ⟨x, rfl, ?_⟩
    rw [← same, Wallet.identity_eq]
    exact ⟨pk.2, fixed.1, fixed.2.1, fixed.2.2⟩

/-- What a commit does to the ledger keeps everything that is there. -/
theorem Ledgers.preserves (h : Ledgers before after) (extends_ : after.Extends before) (books : Books before) :
    Preserves before after where
  transactions t ht := extends_.frozen (r := .ledgerTransaction t) ht (Row.fixed_of_sealed (books.isSealed t ht)).frozen
  postings := by
    intro t ht p own
    cases h with
    | same _ _ _ postings => rw [postings]
    | opened _ _ _ _ _ _ _ _ postings => rw [postings]
    | closed _ _ _ _ _ _ _ _ postings => rw [postings]
    | moved m posts =>
        rw [Table.mem_def, posts.ledgerPostings, List.mem_append]
        refine or_iff_left fun hp => ?_
        exact (posts.fresh t ht).1 (own.symm.trans (m.own p hp))
  accounts _ _ _ _ a ha _ := extends_.account ha
  wallets _ hw := extends_.wallet hw
  transfers t ht completed := extends_.frozen (r := .transfer t) ht (Row.fixed_of_completed completed).frozen

end

end Fintech
