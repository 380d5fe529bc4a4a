import Fintech.Library.Queries
import Fintech.Model.Beneficiaries
import Fintech.Proof.Deeds

/-!
# Saved beneficiaries

A call reads the wallet and the row in queries of their own before it writes, and may act on what is no longer so. What
it relies on never changes: a wallet keeps its owner, and a beneficiary its owner and wallet.
-/

namespace Fintech
open Relational Transactional Paging

def Beneficiary.identity (b : Beneficiary) : Uuid × Uuid × Uuid := (b.id, b.ownerUserId, b.walletId)

theorem Beneficiary.identity_eq {b b' : Beneficiary} : b.identity = b'.identity ↔
    b.id = b'.id ∧ b.ownerUserId = b'.ownerUserId ∧ b.walletId = b'.walletId := by
  simp [identity]

/-- The beneficiary's wallet is there and belongs to another user. -/
def Db.Foreign (db : Db) (b : Beneficiary) : Prop := ∃ w ∈ db.wallets, w.id = b.walletId ∧ w.userId ≠ b.ownerUserId

/-- The transfer's beneficiary is there, and was saved by the sender for the destination. -/
def Db.Links (db : Db) (t : Transfer) : Prop :=
  ∀ id ∈ t.beneficiaryId, ∃ b ∈ db.beneficiaries, b.identity = (id, t.senderUserId, t.destinationWalletId)

/-- What a transaction writes of beneficiaries and of transfers; its statements see `base`, and its call has queried
states of `read`. -/
inductive Saves (read : Db → Prop) (base : Nat → Db) : List Write → Prop
  | aside {ws} : Slice.beneficiaries.written ws = [] → Slice.transfers.written ws = [] → Saves read base ws
  | transferred {ws} (t : Transfer) : Slice.beneficiaries.written ws = [] → Slice.transfers.written ws = [t] →
      (base 0).Links t → Saves read base ws
  | inserted {db} (b : Beneficiary) : read db → db.Foreign b → Saves read base [.insert (.beneficiary b)]
  | updated (old new : Beneficiary) : new.identity = old.identity →
      Saves read base [.update (.beneficiary old) (.beneficiary new)]

def Saving (read : Db → Prop) (isolation : Isolation) (body : Tx AttemptOutcome) : Prop :=
  ∀ base, Views isolation base → body.Ensures base (Tx.yields base fun _ _ ws => Saves read base ws) { locals := {} }

/-! ## Bodies -/

section
variable {read : Db → Prop} {isolation : Isolation} {sha256Hex : String → String}

namespace BeneficiariesService

theorem find_mem (id : Uuid) (db : Db) (old : Beneficiary) (h : db.beneficiaries.find? id = some old) :
    Row.beneficiary old ∈ db := (Table.find?_eq_some.mp h).1

theorem restore_saves (id : Uuid) (label : String) : Saving read isolation (Tx.committing (restore id label)) := by
  intro base _
  apply ensures_committing
  refine ensures_bind (ensures_update (.start {}) (find_mem id) (fun _ => rfl) fun v old _ h => ?_)
  refine ensures_bind (ensures_query h fun v' _ _ h' => ?_)
  exact ensures_pure ⟨_, h', fun _ _ => .updated old _ rfl⟩

theorem softDelete_saves (id : Uuid) (now : Time) : Saving read isolation (Tx.committing (softDelete id now)) := by
  intro base _
  apply ensures_committing
  refine ensures_bind (ensures_update (.start {}) (find_mem id) (fun _ => rfl) fun v old _ h => ?_)
  exact ensures_pure ⟨_, h, fun _ _ => .updated old _ rfl⟩

theorem insert_saves {db : Db} {b : Beneficiary} (seen : read db) (foreign : db.Foreign b) :
    Saving read isolation (Tx.committing (insertBeneficiary b)) := by
  intro base _
  apply ensures_committing
  unfold insertBeneficiary includeWallet
  refine ensures_bind (ensures_bind (ensures_create (.start {}) fun v h => ensures_pure ?_))
  refine ensures_bind (ensures_query h fun v' _ _ h' => ?_)
  exact ensures_pure ⟨_, h', fun _ _ => .inserted b seen foreign⟩

theorem create_saves (draws : Draws) (ownerUserId : Uuid) (walletId label : String) :
    (create draws ownerUserId walletId label).EveryOn read (Saving read) := by
  intro db seen
  dsimp only
  split
  · trivial
  · trivial
  rename_i wallet found
  split_ifs with own inactive
  · trivial
  · trivial
  intro db' _
  dsimp only
  split
  · split_ifs
    · refine ⟨restore_saves _ _, fun e => by cases e <;> trivial⟩
    · trivial
  · obtain ⟨id, _, same⟩ := bind_eq_ok.mp found
    have mem := (Table.find?_eq_some.mp (Except.ok.inj same)).1
    refine ⟨insert_saves seen ⟨wallet, mem, rfl, own⟩, fun e => ?_⟩
    cases e with
    | aborted d => cases d <;> trivial
    | _ => trivial

theorem remove_saves (draws : Draws) (ownerUserId : Uuid) (beneficiaryId : String) :
    (remove draws ownerUserId beneficiaryId).EveryOn read (Saving read) := by
  intro db _
  dsimp only
  split
  · trivial
  · trivial
  · exact ⟨softDelete_saves _ _, fun e => by cases e <;> trivial⟩

end BeneficiariesService

theorem Change.saves {base : Nat → Db} {now : Db} {i : Request} {outcome : AttemptOutcome} {ws : List Write}
    (h : Change sha256Hex base now i outcome ws) (service : ∀ isolation rows, i ≠ .other isolation rows) :
    Saves read base ws := by
  cases h with
  | registered draws input => exact .aside rfl rfl
  | opened draws userId currency => exact .aside rfl rfl
  | closed closes => cases closes <;> exact .aside rfl rfl
  | posted postings records =>
      exact .aside (Movement.written_other (by decide)) (Movement.written_other (by decide))
  | transfer _ _ attempted =>
      cases attempted with
      | replayed _ _ _ _ => exact .aside rfl rfl
      | completed t ws _ transferred =>
          cases transferred with
          | intro source destination beneficiaryId m events _ _ _ _ _ _ _ beneficiary _ announces =>
              refine .transferred _ (by simp [announces.written]) (by simp [announces.written]; rfl) fun id named => ?_
              obtain ⟨b, mem, rfl, owner, wallet, _⟩ := beneficiary id named
              exact ⟨b, mem, by rw [Beneficiary.identity, owner, wallet]; rfl⟩
      | refused e _ _ _ _ => exact .aside rfl rfl
  | reversal _ attempted =>
      cases attempted with
      | replayed _ _ _ _ => exact .aside rfl rfl
      | completed v ws _ reversed =>
          cases reversed with
          | intro t source destination m events _ _ _ _ _ _ _ _ _ _ _ _ announces =>
              exact .aside (by simp [announces.written]) (by simp [announces.written])
      | refused e _ _ _ _ => exact .aside rfl rfl
  | payment _ intends => cases intends <;> exact .aside rfl rfl
  | settled attempt settles =>
      cases settles with
      | duplicate _ _ _ _ _ _ _ _ => exact .aside rfl rfl
      | repeated _ _ _ _ _ => exact .aside rfl rfl
      | failed _ _ _ _ _ _ _ announces => exact .aside (by simp [announces.written]) (by simp [announces.written])
      | succeeded _ _ _ m _ _ _ _ _ _ _ _ _ _ _ announces =>
          exact .aside (by simp [announces.written]) (by simp [announces.written])
  | other _ => exact absurd rfl (service _ _)

theorem Request.withoutBeneficiaries_eq {i : Request} (service : ∀ isolation rows, i ≠ .other isolation rows) :
    i.withoutBeneficiaries = i := by
  cases i with
  | other isolation rows => exact absurd rfl (service isolation rows)
  | _ => rfl

theorem ensures_other_saves {base : Nat → Db} (rows : List Row) :
    Tx.Ensures base (do
      Prog.each writeSideRow (rows.filter fun r => r.table ≠ .beneficiary)
      return (.ok .done : AttemptOutcome)) (Tx.yields base fun _ _ ws => Saves read base ws) { locals := {} } := by
  refine (ensures_other (.start {})).imp fun now outcome ws ⟨_, side⟩ => ?_
  have plain : ∀ w ∈ ws, w.row.table ≠ .beneficiary := fun w hw => by
    simpa using (List.mem_filter.mp (side w hw).1).2
  apply Saves.aside
  · exact List.filterMap_eq_nil_iff.mpr fun w hw => Slice.beneficiaries.of_eq_none (plain w hw)
  · exact aside_written (fun w hw => .inl (side w hw).2) (fun _ => rfl) (by decide)

theorem Body.saves {i : Request} {body : Tx AttemptOutcome} (h : Body sha256Hex i.withoutBeneficiaries isolation body) :
    Saving read isolation body := by
  intro base views
  by_cases service : ∀ isolation rows, i ≠ .other isolation rows
  · rw [Request.withoutBeneficiaries_eq service] at h
    exact (h.faithful base views).imp fun _ _ _ change => change.saves service
  · push Not at service
    obtain ⟨isolation, rows, rfl⟩ := service
    cases h with
    | other => exact ensures_committing (ensures_other_saves rows)

/-- Whatever transaction a request comes to, by queries of `read`, it saves no more than `Saves` allows. -/
theorem program_saves (i : BeneficiaryRequest) : (i.program sha256Hex).EveryOn read (Saving read) := by
  cases i with
  | createBeneficiary draws ownerUserId walletId label =>
      exact @BeneficiariesService.create_saves read draws ownerUserId walletId label
  | removeBeneficiary draws ownerUserId beneficiaryId =>
      exact @BeneficiariesService.remove_saves read draws ownerUserId beneficiaryId
  | service i => exact (program_bodies i.withoutBeneficiaries).on fun isolation body h => h.saves

end

/-! ## States -/

/-- No one saves a wallet of their own, and the transfers made to saved beneficiaries name them. -/
structure Saved (db : Db) : Prop where
  sound : db.Sound
  foreign : ∀ b ∈ db.beneficiaries, db.Foreign b
  linked : ∀ t ∈ db.transfers, db.Links t

structure KeepsLinks (before after : Db) : Prop where
  later : after.Extends before
  beneficiaries : ∀ b ∈ before.beneficiaries, ∃ b' ∈ after.beneficiaries, b'.identity = b.identity

section
variable {before after : Db}

theorem KeepsLinks.refl (db : Db) : KeepsLinks db db := ⟨db.extends_refl, fun b hb => ⟨b, hb, rfl⟩⟩

theorem KeepsLinks.trans {middle : Db} (h : KeepsLinks before middle) (h' : KeepsLinks middle after) : KeepsLinks before after where
  later := h'.later.trans h.later
  beneficiaries := by
    intro b hb
    obtain ⟨b', hb', same⟩ := h.beneficiaries b hb
    obtain ⟨b'', hb'', same'⟩ := h'.beneficiaries b' hb'
    exact ⟨b'', hb'', same'.trans same⟩

theorem KeepsLinks.foreign (h : KeepsLinks before after) {b : Beneficiary} (foreign : before.Foreign b) : after.Foreign b := by
  obtain ⟨w, hw, id, user⟩ := foreign
  obtain ⟨w', hw', same⟩ := h.later.wallet hw
  obtain ⟨id', user', _⟩ := Wallet.identity_eq.mp same
  exact ⟨w', hw', id'.trans id, user' ▸ user⟩

theorem KeepsLinks.links (h : KeepsLinks before after) {t : Transfer} (links : before.Links t) : after.Links t := by
  intro id named
  obtain ⟨b, hb, identity⟩ := links id named
  obtain ⟨b', hb', same⟩ := h.beneficiaries b hb
  exact ⟨b', hb', same.trans identity⟩

theorem Db.Foreign.congr {b b' : Beneficiary} (h : before.Foreign b) (same : b'.identity = b.identity) :
    before.Foreign b' := by
  obtain ⟨_, owner, wallet⟩ := Beneficiary.identity_eq.mp same
  obtain ⟨w, hw, id, user⟩ := h
  exact ⟨w, hw, id.trans wallet.symm, owner ▸ user⟩

theorem Saved.of_same (h : Saved before) (sound : after.Sound) (later : after.Extends before)
    (beneficiaries : after.beneficiaries = before.beneficiaries)
    (transfers : ∀ t ∈ after.transfers, t ∈ before.transfers ∨ before.Links t) : Saved after ∧ KeepsLinks before after := by
  have keeps : KeepsLinks before after := ⟨later, fun b hb => ⟨b, beneficiaries ▸ hb, rfl⟩⟩
  refine ⟨⟨sound, fun b hb => keeps.foreign (h.foreign b (beneficiaries ▸ hb)), fun t ht => ?_⟩, keeps⟩
  rcases transfers t ht with old | links
  · exact keeps.links (h.linked t old)
  · exact keeps.links links

theorem Saved.of_put (h : Saved before) (sound : after.Sound) (later : after.Extends before) (b : Beneficiary)
    (beneficiaries : after.beneficiaries = before.beneficiaries.put b) (transfers : after.transfers = before.transfers)
    (foreign : before.Foreign b) (same : ∀ x ∈ before.beneficiaries, x.id = b.id → b.identity = x.identity) :
    Saved after ∧ KeepsLinks before after := by
  have keeps : KeepsLinks before after := by
    refine ⟨later, fun x hx => ?_⟩
    rw [beneficiaries]
    by_cases own : x.id = b.id
    · exact ⟨b, Table.mem_put_self _ _, same x hx own⟩
    · exact ⟨x, Table.mem_put.mpr (.inr ⟨hx, own⟩), rfl⟩
  refine ⟨⟨sound, fun x hx => ?_, fun t ht => keeps.links (h.linked t (transfers ▸ ht))⟩, keeps⟩
  rw [beneficiaries] at hx
  rcases Table.mem_put.mp hx with rfl | ⟨hx, _⟩
  · exact keeps.foreign foreign
  · exact keeps.foreign (h.foreign x hx)

/-- One commit: what its statements saw and its call had queried is kept up to where it commits. -/
theorem Saves.step {read : Db → Prop} {base : Nat → Db} {ws : List Write} (h : Saves read base ws) (saved : Saved before)
    (accepts : Accepts before ws) (seen : ∀ n, KeepsLinks (base n) before) (queried : ∀ db, read db → KeepsLinks db before) :
    Saved (before.write ws) ∧ KeepsLinks before (before.write ws) := by
  have sound := accepts.sound saved.sound
  have beneficiaries : (before.write ws).beneficiaries = before.beneficiaries.putAll (Slice.beneficiaries.written ws) :=
    Slice.beneficiaries.table_write before ws
  have transfers : (before.write ws).transfers = before.transfers.putAll (Slice.transfers.written ws) :=
    Slice.transfers.table_write before ws
  cases h with
  | aside none none' =>
      rw [none] at beneficiaries
      rw [none'] at transfers
      refine saved.of_same sound accepts.extends beneficiaries fun t ht => .inl ?_
      rw [transfers] at ht
      exact ht
  | transferred t none one links =>
      rw [none] at beneficiaries
      rw [one] at transfers
      refine saved.of_same sound accepts.extends beneficiaries fun x hx => ?_
      rw [transfers] at hx
      rcases Table.mem_put.mp hx with rfl | ⟨old, _⟩
      · exact .inr ((seen 0).links links)
      · exact .inl old
  | inserted b queriedThen foreign =>
      refine saved.of_put sound accepts.extends b beneficiaries transfers ((queried _ queriedThen).foreign foreign) ?_
      intro x hx same
      have free := Db.not_taken_iff.mp (accepts.1.fresh _ (Row.pk_mem_keys _)) (.beneficiary x) hx
      exact absurd (show Row.pk (.beneficiary b) ∈ Row.keys (.beneficiary x) by simp [Row.keys, Row.pk, same]) free
  | updated old new identity =>
      have mem : old ∈ before.beneficiaries := accepts.1.mem
      refine saved.of_put sound accepts.extends new beneficiaries transfers ((saved.foreign old mem).congr identity) ?_
      intro x hx same
      obtain rfl : x = old := Table.eq_of_key_eq hx mem (same.trans (Beneficiary.identity_eq.mp identity).1)
      exact identity

end

/-! ## Runs -/

section
variable {sha256Hex : String → String} {initial : Db}
  {c : Config Db Settings Row Key DbError HttpException AttemptOutcome Result BeneficiaryRequest}

theorem reachable_saved (start : Saved initial) (h : (beneficiarySystem sha256Hex initial).Reachable c) :
    (∀ i ≤ c.log.length, Saved (stateAt initial c.log i)) ∧
      ∀ i i', i ≤ i' → i' ≤ c.log.length → KeepsLinks (stateAt initial c.log i) (stateAt initial c.log i') := by
  refine (beneficiarySystem sha256Hex initial).states_of_commits Saved KeepsLinks KeepsLinks.refl KeepsLinks.trans start
    fun j lt saved keeps => ?_
  obtain ⟨_, born, isolation, body, next, outcome, view, bases, leads, writes, committed⟩ := h.witnessed j lt
  have saving := ((program_saves c.log[j].request).leads leads).1
  obtain ⟨ws, rows, accepts, saves⟩ := writes_of_committed rfl committed (saving _ (views_of_seen committed.seen))
  rw [writes, rows]
  refine saves.step (saved j le_rfl) accepts (fun n => keeps _ _ (committed.seen.le n) le_rfl) ?_
  rintro db ⟨k, le, rfl⟩
  exact keeps k j le le_rfl

end

/-! ## Lists -/

namespace BeneficiariesService
variable {db : Db} {ownerUserId : Uuid}

/-- The rows that `findAll` answers with. -/
def selected (db : Db) (ownerUserId : Uuid) : List Beneficiary :=
  findMany Beneficiary.createdAt (fun b => b.ownerUserId = ownerUserId ∧ b.deletedAt = none) db.beneficiaries

theorem mem_selected {b : Beneficiary} : b ∈ selected db ownerUserId ↔
    b ∈ db.beneficiaries ∧ b.ownerUserId = ownerUserId ∧ b.deletedAt = none := by
  rw [selected, findMany, mem_latestFirst, List.mem_filter, decide_eq_true_eq]
  rfl

theorem nodup_selected : ((selected db ownerUserId).map Beneficiary.id).Nodup := by
  have sorted := List.perm_insertionSort (fun b b' => stamp Beneficiary.createdAt b' ≤ stamp Beneficiary.createdAt b)
    (db.beneficiaries.rows.filter fun b => b.ownerUserId = ownerUserId ∧ b.deletedAt = none)
  exact (sorted.map _).nodup_iff.mpr (db.beneficiaries.unique.sublist (List.filter_sublist.map key))

theorem findAll_eq_ok (there : ∀ b ∈ db.beneficiaries, ∃ w ∈ db.wallets, w.id = b.walletId) (ownerUserId : Uuid) :
    ∃ responses, findAll db ownerUserId = .ok responses ∧
      List.Forall₂ (fun b response => b ∈ selected db ownerUserId ∧
        ∃ w ∈ db.wallets, w.id = b.walletId ∧ response = toBeneficiaryResponse b w) (selected db ownerUserId) responses := by
  have answers (b) (hb : b ∈ selected db ownerUserId) : ∃ w ∈ db.wallets, w.id = b.walletId ∧
      (do return toBeneficiaryResponse b (← findOrThrow (db.wallets.find? b.walletId))) =
        (.ok (toBeneficiaryResponse b w) : Except DbError _) := by
    obtain ⟨w, hw, id⟩ := there b (mem_selected.mp hb).1
    rw [Table.find?_eq_some.mpr ⟨hw, id⟩]
    exact ⟨w, hw, id, rfl⟩
  obtain ⟨responses, run⟩ := exists_mapM_eq_ok fun b hb => by
    obtain ⟨w, _, _, made⟩ := answers b hb
    exact ⟨_, made⟩
  refine ⟨responses, run, (forall₂_mem (mapM_eq_ok.mp run)).imp fun b response ⟨hb, made⟩ => ⟨hb, ?_⟩⟩
  obtain ⟨w, hw, id, same⟩ := answers b hb
  exact ⟨w, hw, id, Except.ok.inj (made.symm.trans same)⟩

end BeneficiariesService

/-- What holds of the beneficiaries of a committed state, and of those of an earlier one. -/
structure BeneficiariesKept (before after : Db) : Prop where
  unique : ∀ b ∈ after.beneficiaries, ∀ b' ∈ after.beneficiaries,
    b'.ownerUserId = b.ownerUserId → b'.walletId = b.walletId → b' = b
  persists : ∀ b ∈ before.beneficiaries, ∃ b' ∈ after.beneficiaries,
    b'.id = b.id ∧ b'.ownerUserId = b.ownerUserId ∧ b'.walletId = b.walletId
  identified : ∀ b ∈ before.beneficiaries, ∀ b' ∈ after.beneficiaries,
    b'.id = b.id ↔ b'.ownerUserId = b.ownerUserId ∧ b'.walletId = b.walletId
  foreign : ∀ b ∈ after.beneficiaries, (∃ w ∈ after.wallets, w.id = b.walletId) ∧
    ∀ w ∈ after.wallets, w.id = b.walletId → w.userId ≠ b.ownerUserId
  listed : ∀ ownerUserId, ∃ responses, BeneficiariesService.findAll after ownerUserId = .ok responses ∧
    (responses.map BeneficiariesService.BeneficiaryResponse.id).Nodup ∧
    ∀ response, response ∈ responses ↔ ∃ b ∈ after.beneficiaries, ∃ w ∈ after.wallets, w.id = b.walletId ∧
      b.ownerUserId = ownerUserId ∧ b.deletedAt = none ∧ response = BeneficiariesService.toBeneficiaryResponse b w
  linked : ∀ t ∈ after.transfers, ∀ id, t.beneficiaryId = some id → ∃ b ∈ after.beneficiaries,
    b.id = id ∧ b.ownerUserId = t.senderUserId ∧ b.walletId = t.destinationWalletId

section
variable {db : Db}

theorem Saved.unique (h : Saved db) {b b' : Beneficiary} (hb : b ∈ db.beneficiaries) (hb' : b' ∈ db.beneficiaries)
    (owner : b'.ownerUserId = b.ownerUserId) (wallet : b'.walletId = b.walletId) : b' = b := by
  have same : Row.beneficiary b' = Row.beneficiary b :=
    h.sound.unique _ hb' _ hb (.beneficiaryWallet b.ownerUserId b.walletId)
      (by simp [Row.keys, Row.slots, owner, wallet]) (by simp [Row.keys, Row.slots])
  simpa using same

/-- Two rows for one owner and wallet would have to be one row. -/
theorem Saved.identified {before : Db} (h : Saved db) (keeps : KeepsLinks before db) {b b' : Beneficiary}
    (hb : b ∈ before.beneficiaries) (hb' : b' ∈ db.beneficiaries) :
    b'.id = b.id ↔ b'.ownerUserId = b.ownerUserId ∧ b'.walletId = b.walletId := by
  obtain ⟨x, hx, same⟩ := keeps.beneficiaries b hb
  obtain ⟨id, owner, wallet⟩ := Beneficiary.identity_eq.mp same
  constructor
  · intro named
    obtain rfl : b' = x := Table.eq_of_key_eq hb' hx (named.trans id.symm)
    exact ⟨owner, wallet⟩
  · rintro ⟨owner', wallet'⟩
    rw [h.unique hx hb' (owner'.trans owner.symm) (wallet'.trans wallet.symm), id]

/-- The wallet of a saved beneficiary is found, so that `findAll` answers with the owner's rows. -/
theorem Saved.listed (h : Saved db) (ownerUserId : Uuid) : ∃ responses,
    BeneficiariesService.findAll db ownerUserId = .ok responses ∧
    (responses.map BeneficiariesService.BeneficiaryResponse.id).Nodup ∧
    ∀ response, response ∈ responses ↔ ∃ b ∈ db.beneficiaries, ∃ w ∈ db.wallets, w.id = b.walletId ∧
      b.ownerUserId = ownerUserId ∧ b.deletedAt = none ∧ response = BeneficiariesService.toBeneficiaryResponse b w := by
  have there (b) (hb : b ∈ db.beneficiaries) : ∃ w ∈ db.wallets, w.id = b.walletId := by
    obtain ⟨w, hw, id, _⟩ := h.foreign b hb
    exact ⟨w, hw, id⟩
  obtain ⟨responses, run, each⟩ := BeneficiariesService.findAll_eq_ok there ownerUserId
  refine ⟨responses, run, ?nodup, fun response => ⟨fun hr => ?_, ?_⟩⟩
  case nodup =>
    rw [← map_eq_map_of_forall₂ (f := Beneficiary.id) each]
    · exact BeneficiariesService.nodup_selected
    · rintro b _ ⟨_, w, _, _, rfl⟩
      rfl
  · obtain ⟨b, _, hb, w, hw, id, made⟩ := exists_of_forall₂ each hr
    obtain ⟨mem, owner, alive⟩ := BeneficiariesService.mem_selected.mp hb
    exact ⟨b, mem, w, hw, id, owner, alive, made⟩
  · rintro ⟨b, hb, w, hw, id, owner, alive, rfl⟩
    obtain ⟨response, hr, _, x, hx, same, rfl⟩ :=
      exists_of_forall₂ each.flip (BeneficiariesService.mem_selected.mpr ⟨hb, owner, alive⟩)
    rwa [Table.eq_of_key_eq hx hw (same.trans id.symm)] at hr

theorem Saved.kept {before : Db} (h : Saved db) (keeps : KeepsLinks before db) : BeneficiariesKept before db where
  unique b hb b' hb' := h.unique hb hb'
  persists b hb := by
    obtain ⟨b', hb', same⟩ := keeps.beneficiaries b hb
    exact ⟨b', hb', Beneficiary.identity_eq.mp same⟩
  identified b hb b' hb' := h.identified keeps hb hb'
  foreign := by
    intro b hb
    obtain ⟨w, hw, id, user⟩ := h.foreign b hb
    refine ⟨⟨w, hw, id⟩, fun x hx same => ?_⟩
    obtain rfl : x = w := Table.eq_of_key_eq hx hw (same.trans id.symm)
    exact user
  listed := h.listed
  linked := by
    intro t ht id named
    obtain ⟨b, hb, identity⟩ := h.linked t ht id named
    simp only [Beneficiary.identity, Prod.mk.injEq] at identity
    exact ⟨b, hb, identity⟩

end

theorem migrated_saved : Saved migrated :=
  ⟨migrated_sound, fun b hb => absurd hb (Table.not_mem_empty b), fun t ht => absurd ht (Table.not_mem_empty t)⟩

/-- However calls interleave, and whatever their queries read before they write, beneficiaries keep their identity. -/
theorem beneficiaries_keep_identity {sha256Hex : String → String}
    {c : Config Db Settings Row Key DbError HttpException AttemptOutcome Result BeneficiaryRequest}
    (h : (beneficiarySystem sha256Hex migrated).Reachable c) {i j : Nat} (le : i ≤ j) (lt : j ≤ c.log.length) :
    BeneficiariesKept (stateAt migrated c.log i) (stateAt migrated c.log j) := by
  obtain ⟨saved, keeps⟩ := reachable_saved migrated_saved h
  exact (saved j lt).kept (keeps i j le lt)

/-! ## A run -/

/-- The first of two users, who has been paid, saves the wallet of the second, transfers to it, removes it and saves it
again. -/
def sampleSaving : List BeneficiaryRequest :=
  (sampleCalls.take 4).map .service ++ [
    .createBeneficiary (sampleDraws 6) (sampleUuid 0 0) (sampleUuid 1 1).text "Obi",
    .service (.createTransfer (sampleDraws 4) (sampleUuid 0 0) (some "transfer-1")
      { sourceWalletId := (sampleUuid 0 1).text, beneficiaryId := some (sampleUuid 6 5).text, amountMinor := "2500" }),
    .removeBeneficiary (sampleDraws 7) (sampleUuid 0 0) (sampleUuid 6 5).text,
    .createBeneficiary (sampleDraws 8) (sampleUuid 0 0) (sampleUuid 1 1).text "Obi's wallet"]

def sampleSavingLog : List (Entry BeneficiaryRequest Row) :=
  (beneficiarySystem sampleHash migrated).performAll sampleSaving [] 0

theorem sampleSavingLog_restores : sampleSavingLog.length = 8 ∧
    [5, 7, 8].map (fun n => (stateAt migrated sampleSavingLog n).beneficiaries.rows.map fun b =>
      (b.id, b.label, b.deletedAt)) =
        [[(sampleUuid 6 5, "Obi", none)], [(sampleUuid 6 5, "Obi", some 7)], [(sampleUuid 6 5, "Obi's wallet", none)]] ∧
    (stateAt migrated sampleSavingLog 8).transfers.rows.map Transfer.beneficiaryId = [some (sampleUuid 6 5)] := by
  decide +kernel

theorem beneficiaries_keep_identity_sample : ∃ saved restored : Db,
    saved.beneficiaries.rows.map (fun b => (b.id, b.label, b.deletedAt)) = [(sampleUuid 6 5, "Obi", none)] ∧
    restored.beneficiaries.rows.map (fun b => (b.id, b.label, b.deletedAt)) = [(sampleUuid 6 5, "Obi's wallet", none)] ∧
    restored.transfers.rows.map Transfer.beneficiaryId = [some (sampleUuid 6 5)] ∧ BeneficiariesKept saved restored := by
  obtain ⟨c, reach, log⟩ := System.reachable_performAll (beneficiarySystem sampleHash migrated) sampleSaving
  change c.log = sampleSavingLog at log
  obtain ⟨length, states, transfers⟩ := sampleSavingLog_restores
  have kept := beneficiaries_keep_identity reach (i := 5) (j := 8) (by decide) (by rw [log, length])
  rw [log] at kept
  simp only [List.map_cons, List.cons.injEq] at states
  exact ⟨_, _, states.1, states.2.2.1, transfers, kept⟩

end Fintech
