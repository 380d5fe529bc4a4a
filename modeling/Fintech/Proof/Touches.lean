import Fintech.Model.Boundary
import Fintech.Proof.Slices

/-!
# What a transaction does to the rows

A transaction of arbitrary statements, cascades and triggers included, is a chain of touches: one row
inserted, updated or deleted, each past its triggers, keys and references. Where a row comes from and
what becomes of it is said once here, whatever its table.
-/

namespace Fintech
open Relational Transactional

structure Insertion (db : Db) (s : Settings) (r : Row) : Prop where
  before : beforeInsert db s r = .ok ()
  check : r.accept = .ok ()
  fresh : ∀ k ∈ r.keys, db.taken k = false
  referenced : ∀ k ∈ r.references, db.taken k

/-- An update of one row; if its primary key changes, the rows that refer to it let it. -/
structure Revision (db : Db) (s : Settings) (old new : Row) : Prop where
  mem : old ∈ db
  table : new.table = old.table
  before : beforeUpdate s old new = .ok ()
  check : new.accept = .ok ()
  fresh : ∀ k ∈ new.keys, k ∉ old.keys → db.taken k = false
  followed : new.pk ≠ old.pk → ∀ c ∈ db, old.pk ∈ c.references → beforeUpdate s c (c.follow old.pk new.pk) = .ok ()

/-- One row changes, or a setting; `allowed` says how settings may be switched. -/
inductive Touch (allowed : WriteSetting → Bool → Prop) : Db × Settings → Db × Settings → Prop
  | set {db s setting on} : allowed setting on → Touch allowed (db, s) (db, s.set on setting)
  | insert {db s r} : Insertion db s r → Touch allowed (db, s) (db.put r, { s with deferred := s.deferred ++ [r] })
  | update {db s old new} : Revision db s old new →
      Touch allowed (db, s) (db.replace old new, { s with deferred := s.deferred ++ deferredOnUpdate new })
  | delete {db s r} : r ∈ db → beforeDelete r = .ok () → Touch allowed (db, s) (db.erase r, s)

abbrev Touches (allowed : WriteSetting → Bool → Prop) : Db × Settings → Db × Settings → Prop :=
  Relation.ReflTransGen (Touch allowed)

section
variable {allowed : WriteSetting → Bool → Prop} {db db' : Db} {s s' : Settings}

/-! ## Settings -/

/-- The triggers look at the write settings only. -/
theorem beforeUpdate_deferred (s : Settings) (rows : List Row) (old new : Row) :
    beforeUpdate { s with deferred := rows } old new = beforeUpdate s old new := by
  cases old <;> cases new <;> rfl

/-- The same write settings. -/
def Settings.Like (s s' : Settings) : Prop := ∃ rows, s' = { s with deferred := rows }

theorem Settings.Like.beforeUpdate (h : s.Like s') (old new : Row) :
    Fintech.beforeUpdate s' old new = Fintech.beforeUpdate s old new := by
  obtain ⟨rows, rfl⟩ := h
  exact beforeUpdate_deferred s rows old new

theorem Settings.Like.trans {s'' : Settings} (h : s.Like s') (h' : s'.Like s'') : s.Like s'' := by
  obtain ⟨_, rfl⟩ := h
  obtain ⟨rows, rfl⟩ := h'
  exact ⟨rows, rfl⟩

/-! ## Statements -/

theorem forM_eq_ok {α ε : Type} {f : α → Except ε Unit} {as : List α} (h : as.forM f = .ok ()) :
    ∀ a ∈ as, f a = .ok () := by
  induction as with
  | nil => simp
  | cons a as ih =>
      rw [List.forM_eq_forM, List.forM_cons] at h
      obtain ⟨first, rest⟩ := bind_unit_eq_ok.mp h
      simpa [first] using ih rest

theorem Touches.insertAll {rows : List Row} (h : db.insertAll s rows = .ok s') :
    Touches allowed (db, s) (applyAll db rows, s') ∧ s.Like s' := by
  induction rows generalizing db s with
  | nil =>
      cases h
      exact ⟨.refl, _, rfl⟩
  | cons r rows ih =>
      simp only [Db.insertAll, bind_eq_ok] at h
      obtain ⟨s₁, first, rest⟩ := h
      obtain ⟨began, check, fresh, references, rfl⟩ := Db.insert_eq_ok.mp first
      obtain ⟨touches, like⟩ := ih rest
      exact ⟨.head (.insert ⟨began, check, fresh, references⟩) touches, .trans ⟨_, rfl⟩ like⟩

theorem Db.reviseRow_eq_ok {old new : Row} (h : db.reviseRow s old new = .ok (db', s')) :
    old ∈ db ∧ new.table = old.table ∧ beforeUpdate s old new = .ok () ∧ new.accept = .ok () ∧
      (∀ k ∈ new.keys, k ∉ old.keys → db.taken k = false) ∧ db' = db.replace old new ∧
      s' = { s with deferred := s.deferred ++ deferredOnUpdate new } := by
  obtain ⟨there, h⟩ := bind_unit_eq_ok.mp h
  obtain ⟨pk, h⟩ := bind_unit_eq_ok.mp h
  simp only [bind_eq_ok, pure, Except.pure, Except.ok.injEq, Prod.mk.injEq] at h
  obtain ⟨s₁, updated, rfl, rfl⟩ := h
  rw [failIf_eq_ok] at there pk
  push Not at there pk
  obtain ⟨before, check, slots, _, rfl⟩ := Db.update_eq_ok.mp updated
  refine ⟨Db.mem_rows.mp there.1, there.2, before, check, fun k hk out => ?_, rfl, rfl⟩
  rcases Row.mem_keys.mp hk with rfl | hk
  · by_cases same : new.pk = old.pk
    · exact absurd (same ▸ old.pk_mem_keys) out
    · simpa using pk same
  · exact slots k hk fun own => out (Row.mem_keys.mpr (.inr own))

/-- No row refers to a row of its own table. -/
theorem Row.pk_not_mem_references (r : Row) : r.pk ∉ r.references := by
  cases r <;> simp [Row.pk, Row.references]

theorem Row.table_follow (k k' : Key) (r : Row) : (r.follow k k').table = r.table := by
  cases r <;> rfl

/-- Following a key changes the primary key of checkouts only, to which nothing refers. -/
theorem Row.not_referenced_of_follow {k k' : Key} {r : Row} (h : (r.follow k k').pk ≠ r.pk) (c : Row) :
    r.pk ∉ c.references := by
  cases r with
  | paymentCheckout r => cases c <;> simp [Row.pk, Row.references]
  | _ => exact absurd rfl h

variable (allowed) in
theorem cascade_touches {k k' : Key} {rows : List Row} (h : Db.cascade k k' rows db s = .ok (db', s')) :
    Touches allowed (db, s) (db', s') ∧ s.Like s' ∧ ∀ r ∈ rows, beforeUpdate s r (r.follow k k') = .ok () := by
  induction rows generalizing db s with
  | nil =>
      cases h
      exact ⟨.refl, ⟨_, rfl⟩, by simp⟩
  | cons r rows ih =>
      simp only [Db.cascade, bind_eq_ok, Prod.exists] at h
      obtain ⟨db₁, s₁, first, rest⟩ := h
      obtain ⟨mem, table, before, check, fresh, rfl, rfl⟩ := Db.reviseRow_eq_ok first
      obtain ⟨touches, like, others⟩ := ih rest
      have like₁ : s.Like { s with deferred := s.deferred ++ deferredOnUpdate (r.follow k k') } := ⟨_, rfl⟩
      refine ⟨.head (.update ⟨mem, table, before, check, fresh, fun moved c _ refers => ?_⟩) touches, like₁.trans like, ?_⟩
      · exact absurd refers (Row.not_referenced_of_follow moved c)
      · intro r' hr'
        rcases List.mem_cons.mp hr' with rfl | hr'
        · exact before
        · rw [← like₁.beforeUpdate]
          exact others r' hr'

variable (allowed) in
theorem Touch.of_update {old new : Row} (mem : old ∈ db) (h : db.update s old new = .ok s') (pk : new.pk = old.pk)
    (table : new.table = old.table) : Touch allowed (db, s) (db.put new, s') ∧ s.Like s' := by
  obtain ⟨before, check, slots, _, rfl⟩ := Db.update_eq_ok.mp h
  have touch : Touch allowed (db, s) (db.replace old new, _) :=
    .update ⟨mem, table, before, check, fun k hk out => ?_, fun moved => absurd pk moved⟩
  · rw [Db.replace, if_pos pk] at touch
    exact ⟨touch, ⟨_, rfl⟩⟩
  · rcases Row.mem_keys.mp hk with rfl | hk
    · exact absurd (pk ▸ old.pk_mem_keys) out
    · exact slots k hk fun own => out (Row.mem_keys.mpr (.inr own))

variable (allowed) in
/-- The wallet of an account follows the account's balance; nothing else is touched. -/
theorem syncWallet_touches {old new : Row} {now : Time} (h : db.syncWallet s old new now = .ok (db', s')) :
    Touches allowed (db, s) (db', s') ∧ s.Like s' ∧ (old.table ≠ .ledgerAccount → db' = db) := by
  unfold Db.syncWallet at h
  split at h
  · rename_i old new
    simp only [bind_eq_ok, Prod.exists, pure, Except.pure, Except.ok.injEq, Prod.mk.injEq] at h
    obtain ⟨s₁, synced, sync, rfl, rfl⟩ := h
    unfold syncWalletBalanceFromLedgerAccount at sync
    split at sync
    · split at sync
      · cases sync
      · rename_i w found
        simp only [bind_eq_ok, pure, Except.pure, Except.ok.injEq, Prod.mk.injEq] at sync
        obtain ⟨s₂, updated, rfl, rfl⟩ := sync
        have mem : Row.wallet w ∈ db := List.mem_of_find?_eq_some found
        obtain ⟨touch, like⟩ := Touch.of_update allowed mem updated rfl rfl
        exact ⟨.single touch, like, fun other => absurd rfl other⟩
    · cases sync
      exact ⟨.refl, ⟨_, rfl⟩, fun _ => rfl⟩
  · cases h
    exact ⟨.refl, ⟨_, rfl⟩, fun _ => rfl⟩

/-- The identity of an account is protected, its id included. -/
theorem Row.table_of_moved {old new : Row} (table : new.table = old.table) (h : beforeUpdate s old new = .ok ())
    (moved : new.pk ≠ old.pk) : old.table ≠ .ledgerAccount := by
  intro account
  cases old with
  | ledgerAccount old =>
      cases new with
      | ledgerAccount new =>
          have same := (bind_unit_eq_ok.mp h).1
          rw [failIf_eq_ok, not_not] at same
          rw [same] at moved
          exact moved rfl
      | _ => cases table
  | _ => cases account

theorem updateRow_touches {old new : Row} {now : Time} (h : db.updateRow s old new now = .ok (db', s')) :
    Touches allowed (db, s) (db', s') := by
  simp only [Db.updateRow, bind_eq_ok, Prod.exists] at h
  obtain ⟨revised, s₁, first, synced, s₂, second, rest⟩ := h
  obtain ⟨mem, table, before, check, fresh, rfl, rfl⟩ := Db.reviseRow_eq_ok first
  obtain ⟨touches, like, still⟩ := syncWallet_touches allowed second
  by_cases same : new.pk = old.pk
  · rw [if_pos same] at rest
    cases rest
    exact .head (.update ⟨mem, table, before, check, fresh, fun moved => absurd same moved⟩) touches
  · rw [if_neg same] at rest
    obtain ⟨cascaded, _, allowed_⟩ := cascade_touches allowed rest
    refine .head (.update ⟨mem, table, before, check, fresh, fun moved c hc refers => ?_⟩) (touches.trans cascaded)
    obtain rfl := still (Row.table_of_moved table before moved)
    have like₀ : s.Like s₂ := .trans ⟨_, rfl⟩ like
    rw [← like₀.beforeUpdate]
    apply allowed_
    rw [List.mem_filter, Db.mem_rows, Db.mem_replace]
    have apart : c.pk ≠ old.pk := by
      intro e
      rw [Db.eq_of_pk_eq hc mem e] at refers
      exact old.pk_not_mem_references refers
    have free : db.taken new.pk = false := by
      apply fresh _ new.pk_mem_keys
      intro own
      rcases Row.mem_keys.mp own with e | slot
      · exact same e
      · exact new.pk_not_mem_slots old slot
    refine ⟨.inr ⟨hc, apart, fun e => ?_⟩, by simpa using refers⟩
    exact Db.not_taken_iff.mp free c hc (e ▸ c.pk_mem_keys)

theorem removeRow_touch {r : Row} (h : db.removeRow r = .ok db') : Touch allowed (db, s) (db', s) := by
  obtain ⟨there, h⟩ := bind_unit_eq_ok.mp h
  obtain ⟨before, h⟩ := bind_unit_eq_ok.mp h
  obtain ⟨_, h⟩ := bind_unit_eq_ok.mp h
  cases h
  rw [failIf_eq_ok, not_not, Db.mem_rows] at there
  exact .delete there before

theorem deleteRow_touches {r : Row} (h : db.deleteRow r = .ok db') : Touches allowed (db, s) (db', s) := by
  simp only [Db.deleteRow, bind_eq_ok] at h
  obtain ⟨db₁, owned, own⟩ := h
  refine .tail ?_ (removeRow_touch own)
  generalize (db.rows.filter fun c => r.pk ∈ c.owners) = rows at owned
  induction rows generalizing db with
  | nil =>
      cases owned
      exact .refl
  | cons c rows ih =>
      simp only [List.foldlM_cons, bind_eq_ok] at owned
      obtain ⟨db₂, first, rest⟩ := owned
      exact .head (removeRow_touch first) (ih rest)

/-- A transaction that switches settings as allowed is a chain of touches, and at its end every
constraint trigger that is due accepts. -/
theorem executeAll_touches {sts : List RowStatement} (settings : ∀ setting on, .setConfig setting on ∈ sts → allowed setting on)
    (h : Db.executeAll sts db s = .ok (db', s')) : Touches allowed (db, s) (db', s') := by
  induction sts generalizing db s with
  | nil =>
      cases h
      exact .refl
  | cons st sts ih =>
      simp only [Db.executeAll, bind_eq_ok, Prod.exists] at h
      obtain ⟨db₁, s₁, first, rest⟩ := h
      refine .trans ?_ (ih (fun setting on mem => settings setting on (.tail _ mem)) rest)
      cases st with
      | setConfig setting on =>
          cases first
          exact .single (.set (settings setting on (.head _)))
      | insert r delivery now =>
          simp only [Db.execute, Db.insertRow, bind_eq_ok, pure, Except.pure, Except.ok.injEq, Prod.mk.injEq] at first
          obtain ⟨_, inserted, rfl, rfl⟩ := first
          exact (Touches.insertAll inserted).1
      | update old new now => exact updateRow_touches first
      | delete r =>
          simp only [Db.execute, bind_eq_ok, pure, Except.pure, Except.ok.injEq, Prod.mk.injEq] at first
          obtain ⟨_, deleted, rfl, rfl⟩ := first
          exact deleteRow_touches deleted

variable (allowed) in
theorem transact_touches {sts : List RowStatement} (settings : ∀ setting on, .setConfig setting on ∈ sts → allowed setting on)
    (h : db.transact sts = .ok db') :
    ∃ s, Touches allowed (db, {}) (db', s) ∧ ∀ r ∈ s.deferred, atCommit db' r = .ok () := by
  simp only [Db.transact, bind_eq_ok, Prod.exists] at h
  obtain ⟨after, s, executed, _, due, h⟩ := h
  cases h
  exact ⟨s, executeAll_touches settings executed, fun r hr => forM_eq_ok due r hr⟩

end

/-! ## The rows after a touch -/

section
variable {db : Db} {s : Settings}

theorem Insertion.apart {r x : Row} (h : Insertion db s r) (hx : x ∈ db) : x.pk ≠ r.pk := by
  intro e
  exact Db.not_taken_iff.mp (h.fresh _ r.pk_mem_keys) x hx (e ▸ x.pk_mem_keys)

theorem Insertion.mem_put {r x : Row} (h : Insertion db s r) : x ∈ db.put r ↔ x = r ∨ x ∈ db := by
  rw [Db.mem_put]
  exact or_congr_right ⟨And.left, fun hx => ⟨hx, h.apart hx⟩⟩

theorem Revision.mem_replace {old new x : Row} (h : Revision db s old new) :
    x ∈ db.replace old new ↔ x = new ∨ (x ∈ db ∧ x ≠ old) := by
  rw [Db.mem_replace]
  refine or_congr_right ⟨fun ⟨hx, ne, _⟩ => ⟨hx, fun e => ne (e ▸ rfl)⟩, fun ⟨hx, ne⟩ => ?_⟩
  have apart : x.pk ≠ old.pk := fun e => ne (Db.eq_of_pk_eq hx h.mem e)
  refine ⟨hx, apart, fun e => ?_⟩
  by_cases own : new.pk ∈ old.keys
  · rcases Row.mem_keys.mp own with same | slot
    · exact apart (e.trans same)
    · exact new.pk_not_mem_slots old slot
  · exact Db.not_taken_iff.mp (h.fresh _ new.pk_mem_keys own) x hx (e ▸ x.pk_mem_keys)

end

variable {allowed : WriteSetting → Bool → Prop} {start now : Db × Settings}

theorem Touch.deferred {c c' : Db × Settings} (h : Touch allowed c c') {r : Row} (due : r ∈ c.2.deferred) :
    r ∈ c'.2.deferred := by
  cases h with
  | @set _ _ setting on _ => cases setting <;> exact due
  | insert _ => exact List.mem_append_left _ due
  | update _ => exact List.mem_append_left _ due
  | delete _ _ => exact due

/-- What no update takes from a row, and what keeps a row from being deleted, stays with some row. -/
theorem Touches.kept {P : Row → Prop} (h : Touches allowed start now) (undeleted : ∀ r, P r → beforeDelete r ≠ .ok ())
    (updated : ∀ db s old new, Touches allowed start (db, s) → Revision db s old new → P old → P new)
    (there : ∃ r ∈ start.1, P r) : ∃ r ∈ now.1, P r := by
  induction h with
  | refl => exact there
  | tail before touch ih =>
      obtain ⟨r, hr, holds⟩ := ih
      cases touch with
      | set _ => exact ⟨r, hr, holds⟩
      | insert insertion => exact ⟨r, insertion.mem_put.mpr (.inr hr), holds⟩
      | @update _ _ old new revision =>
          by_cases same : r = old
          · subst same
            exact ⟨new, revision.mem_replace.mpr (.inl rfl), updated _ _ _ _ before revision holds⟩
          · exact ⟨r, revision.mem_replace.mpr (.inr ⟨hr, same⟩), holds⟩
      | @delete _ _ gone mem deleted =>
          refine ⟨r, Db.mem_erase.mpr ⟨hr, fun e => ?_⟩, holds⟩
          obtain rfl := Db.eq_of_pk_eq hr mem e
          exact undeleted r holds deleted

/-- A row that may be neither updated nor deleted stays. -/
theorem Touches.fixed (h : Touches allowed start now) {r : Row} (hr : r ∈ start.1) (fixed : r.Fixed)
    (undeleted : beforeDelete r ≠ .ok ()) : r ∈ now.1 := by
  obtain ⟨_, mem, rfl⟩ := h.kept (P := (· = r)) (fun _ e => e ▸ undeleted)
    (fun _ s _ new _ revision e => absurd revision.before (e ▸ fixed s new (e ▸ revision.table))) ⟨r, hr, rfl⟩
  exact mem

/-- What holds of every row at the start, of inserted rows and through updates, holds of every row. -/
theorem Touches.every {R : Db × Settings → Row → Prop} (h : Touches allowed start now)
    (lasts : ∀ c c' r, Touch allowed c c' → R c r → R c' r)
    (inserted : ∀ db s r, Touches allowed start (db, s) → Insertion db s r →
      R (db.put r, { s with deferred := s.deferred ++ [r] }) r)
    (updated : ∀ db s old new, Touches allowed start (db, s) → Revision db s old new → R (db, s) old →
      R (db.replace old new, { s with deferred := s.deferred ++ deferredOnUpdate new }) new)
    (initially : ∀ r ∈ start.1, R start r) : ∀ r ∈ now.1, R now r := by
  induction h with
  | refl => exact initially
  | tail before touch ih =>
      intro r hr
      have still := fun mem => lasts _ _ r touch (ih r mem)
      cases touch with
      | set _ => exact still hr
      | insert insertion =>
          rcases insertion.mem_put.mp hr with rfl | mem
          · exact inserted _ _ _ before insertion
          · exact still mem
      | update revision =>
          rcases revision.mem_replace.mp hr with rfl | ⟨mem, _⟩
          · exact updated _ _ _ _ before revision (ih _ revision.mem)
          · exact still mem
      | delete _ _ => exact still (Db.mem_erase.mp hr).1

/-! ## The rows of one table -/

section
variable {ρ : Type} [Keyed ρ Uuid] (slice : Slice ρ)

theorem Touches.keptRow {P : ρ → Prop} (h : Touches allowed start now)
    (undeleted : ∀ x, P x → beforeDelete (slice.row x) ≠ .ok ())
    (updated : ∀ db s old new, Touches allowed start (db, s) → Revision db s (slice.row old) (slice.row new) → P old → P new)
    (there : ∃ x ∈ slice.table start.1, P x) : ∃ x ∈ slice.table now.1, P x := by
  obtain ⟨x, hx, holds⟩ := there
  have kept : ∃ r ∈ now.1, ∃ y, r = slice.row y ∧ P y := by
    refine h.kept ?_ ?_ ⟨_, slice.mem.mpr hx, x, rfl, holds⟩
    · rintro _ ⟨y, rfl, holds⟩
      exact undeleted y holds
    · rintro db s _ new before revision ⟨y, rfl, holds⟩
      obtain ⟨z, rfl⟩ := slice.exists_row (revision.table.trans (slice.row_table y))
      exact ⟨z, rfl, updated db s y z before revision holds⟩
  obtain ⟨_, mem, y, rfl, still⟩ := kept
  exact ⟨y, slice.mem.mp mem, still⟩

theorem Touches.everyRow {R : Db × Settings → ρ → Prop} (h : Touches allowed start now)
    (lasts : ∀ c c' x, Touch allowed c c' → R c x → R c' x)
    (inserted : ∀ db s x, Touches allowed start (db, s) → Insertion db s (slice.row x) →
      R (db.put (slice.row x), { s with deferred := s.deferred ++ [slice.row x] }) x)
    (updated : ∀ db s old new, Touches allowed start (db, s) → Revision db s (slice.row old) (slice.row new) → R (db, s) old →
      R (db.replace (slice.row old) (slice.row new),
        { s with deferred := s.deferred ++ deferredOnUpdate (slice.row new) }) new)
    (initially : ∀ x ∈ slice.table start.1, R start x) : ∀ x ∈ slice.table now.1, R now x := by
  intro x hx
  refine h.every (R := fun c r => ∀ x, r = slice.row x → R c x) ?_ ?_ ?_ ?_ _ (slice.mem.mpr hx) x rfl
  · intro c c' r touch holds x e
    exact lasts c c' x touch (holds x e)
  · rintro db s _ before insertion x rfl
    exact inserted db s x before insertion
  · rintro db s old _ before revision holds x rfl
    obtain ⟨y, rfl⟩ := slice.exists_row (revision.table.symm.trans (slice.row_table x))
    exact updated db s y x before revision (holds y rfl)
  · rintro _ hr x rfl
    exact initially x (slice.mem.mp hr)

end

/-- A row that is not there at the start is due at commit; an account is due if it is new. -/
theorem Touches.due (h : Touches allowed start now) {r : Row} (hr : r ∈ now.1) (other : r.table ≠ .ledgerAccount) :
    r ∈ start.1 ∨ r ∈ now.2.deferred := by
  refine h.every (R := fun c r => r.table ≠ .ledgerAccount → r ∈ start.1 ∨ r ∈ c.2.deferred)
    (fun c c' r touch holds other => (holds other).imp_right touch.deferred) (fun _ _ _ _ _ _ => by simp)
    (fun _ _ old new _ _ _ other => .inr ?_) (fun r hr _ => .inl hr) r hr other
  cases new <;> simp_all [deferredOnUpdate, Row.table]

theorem Touches.checked (h : Touches allowed start now) (initially : ∀ r ∈ start.1, r.accept = .ok ()) :
    ∀ r ∈ now.1, r.accept = .ok () :=
  h.every (R := fun _ r => r.accept = .ok ()) (fun _ _ _ _ h => h) (fun _ _ _ _ insertion => insertion.check)
    (fun _ _ _ _ _ revision _ => revision.check) initially

/-! ## Unique keys -/

def Db.Distinct (db : Db) : Prop := ∀ r ∈ db, ∀ r' ∈ db, ∀ k ∈ r.keys, k ∈ r'.keys → r = r'

theorem Touch.distinct {c c' : Db × Settings} (h : Touch allowed c c') (distinct : c.1.Distinct) : c'.1.Distinct := by
  intro r hr r' hr' k hk hk'
  cases h with
  | set _ => exact distinct r hr r' hr' k hk hk'
  | insert insertion =>
      rcases insertion.mem_put.mp hr with rfl | mem
      · rcases insertion.mem_put.mp hr' with rfl | mem'
        · rfl
        · exact absurd hk' (Db.not_taken_iff.mp (insertion.fresh k hk) r' mem')
      · rcases insertion.mem_put.mp hr' with rfl | mem'
        · exact absurd hk (Db.not_taken_iff.mp (insertion.fresh k hk') r mem)
        · exact distinct r mem r' mem' k hk hk'
  | @update db _ old new revision =>
      have alone (x : Row) (hx : x ∈ db) (ne : x ≠ old) (k : Key) (hk : k ∈ new.keys) : k ∉ x.keys := by
        intro taken
        by_cases own : k ∈ old.keys
        · exact ne (distinct x hx old revision.mem k taken own)
        · exact Db.not_taken_iff.mp (revision.fresh k hk own) x hx taken
      rcases revision.mem_replace.mp hr with rfl | ⟨mem, ne⟩
      · rcases revision.mem_replace.mp hr' with rfl | ⟨mem', ne'⟩
        · rfl
        · exact absurd hk' (alone r' mem' ne' k hk)
      · rcases revision.mem_replace.mp hr' with rfl | ⟨mem', ne'⟩
        · exact absurd hk (alone r mem ne k hk')
        · exact distinct r mem r' mem' k hk hk'
  | delete _ _ => exact distinct r (Db.mem_erase.mp hr).1 r' (Db.mem_erase.mp hr').1 k hk hk'

theorem Touches.distinct (h : Touches allowed start now) (distinct : start.1.Distinct) : now.1.Distinct := by
  induction h with
  | refl => exact distinct
  | tail _ touch ih => exact touch.distinct ih

/-! ## Settings that stay off -/

def WriteSetting.of (s : Settings) : WriteSetting → Bool
  | .ledger => s.ledgerWrite
  | .transfer => s.transferWrite
  | .reversal => s.reversalWrite
  | .audit => s.auditWrite
  | .payment => s.paymentWrite

theorem WriteSetting.of_set (s : Settings) (on : Bool) (setting other : WriteSetting) :
    other.of (s.set on setting) = if other = setting then on else other.of s := by
  cases setting <;> cases other <;> rfl

/-- A setting that may not be switched on stays off. -/
theorem Touches.off {setting : WriteSetting} (h : Touches allowed start now) (never : ¬ allowed setting true)
    (off : setting.of start.2 = false) : setting.of now.2 = false := by
  induction h with
  | refl => exact off
  | tail _ touch ih =>
      cases touch with
      | @set _ s other on may =>
          rw [WriteSetting.of_set]
          split
          · rename_i same
            subst same
            cases on with
            | true => exact absurd may never
            | false => rfl
          · exact ih
      | insert _ => cases setting <;> exact ih
      | update _ => cases setting <;> exact ih
      | delete _ _ => exact ih

end Fintech
