import Fintech.Library.Snapshot
import Fintech.Model.Statements
import Mathlib.Logic.Relation

/-!
# Accepted writes

The writes of a transaction as inserts and updates, with what the database checked before it
accepted each. A database that is reached by accepted writes is sound, and extends the one before.
-/

namespace Fintech
open Relational Transactional

inductive Write
  | insert (r : Row)
  | update (old new : Row)

structure Insertable (db : Db) (r : Row) : Prop where
  began : ∃ db₀ s, beforeInsert db₀ s r = .ok ()
  check : r.accept = .ok ()
  fresh : ∀ k ∈ r.keys, db.taken k = false
  referenced : ∀ k ∈ r.references, db.taken k

structure Updatable (db : Db) (old new : Row) : Prop where
  mem : old ∈ db
  pk : new.pk = old.pk
  allowed : ∃ s, beforeUpdate s old new = .ok ()
  check : new.accept = .ok ()
  fresh : ∀ k ∈ new.slots, k ∉ old.slots → db.taken k = false
  referenced : ∀ k ∈ new.references, db.taken k

namespace Write

def row : Write → Row
  | insert r => r
  | update _ new => new

@[simp] theorem row_insert (r : Row) : (insert r).row = r := rfl
@[simp] theorem row_update (old new : Row) : (update old new).row = new := rfl

def Accepted (db : Db) : Write → Prop
  | insert r => Insertable db r
  | update old new => Updatable db old new

end Write

def Accepts : Db → List Write → Prop
  | _, [] => True
  | db, w :: ws => w.Accepted db ∧ Accepts (db.put w.row) ws

/-- The database after the writes. -/
def Db.write (db : Db) (ws : List Write) : Db := applyAll db (ws.map Write.row)

namespace Db
variable {db : Db}

@[simp] theorem write_nil (db : Db) : db.write [] = db := rfl

@[simp] theorem write_cons (db : Db) (w : Write) (ws : List Write) :
    db.write (w :: ws) = (db.put w.row).write ws := rfl

@[simp] theorem write_append (db : Db) (ws vs : List Write) :
    db.write (ws ++ vs) = (db.write ws).write vs := by
  simp [write]

end Db

@[simp] theorem accepts_nil (db : Db) : Accepts db [] := trivial

@[simp] theorem accepts_cons {db : Db} {w : Write} {ws : List Write} :
    Accepts db (w :: ws) ↔ w.Accepted db ∧ Accepts (db.put w.row) ws := Iff.rfl

@[simp] theorem accepts_append {db : Db} {ws vs : List Write} :
    Accepts db (ws ++ vs) ↔ Accepts db ws ∧ Accepts (db.write ws) vs := by
  induction ws generalizing db with
  | nil => simp
  | cons w ws ih => simp [ih, and_assoc]

@[simp] theorem accepted_insert {db : Db} {r : Row} : (Write.insert r).Accepted db ↔ Insertable db r := Iff.rfl

@[simp] theorem accepted_update {db : Db} {old new : Row} :
    (Write.update old new).Accepted db ↔ Updatable db old new := Iff.rfl

/-! ## From one state to another -/

theorem Row.row_not_mem_slots (r : Row) (n : TableName) (id : Uuid) : Key.row n id ∉ r.slots := by
  cases r <;> simp [Row.slots]

theorem Row.references_row {r : Row} {k : Key} (h : k ∈ r.references) : ∃ n id, k = .row n id := by
  cases r <;> simp only [Row.references, List.mem_cons, List.mem_append, List.not_mem_nil, or_false,
    Option.mem_toList, Option.map_eq_some_iff] at h <;> grind

theorem Row.pk_eq_row (r : Row) : ∃ id, r.pk = .row r.table id := by cases r <;> exact ⟨_, rfl⟩

theorem Row.pk_not_mem_slots (r r' : Row) : r.pk ∉ r'.slots := by
  obtain ⟨id, e⟩ := r.pk_eq_row
  rw [e]
  exact r'.row_not_mem_slots r.table id

theorem Row.table_eq_of_pk_eq {r r' : Row} (h : r.pk = r'.pk) : r.table = r'.table := by
  obtain ⟨id, e⟩ := r.pk_eq_row
  obtain ⟨id', e'⟩ := r'.pk_eq_row
  rw [e, e', Key.row.injEq] at h
  exact h.1

theorem Db.taken_row {db : Db} {n : TableName} {id : Uuid} :
    db.taken (.row n id) ↔ ∃ r ∈ db, r.pk = .row n id := by
  rw [taken_iff]
  refine exists_congr fun r => and_congr_right fun _ => ?_
  rw [Row.mem_keys, or_iff_left (r.row_not_mem_slots n id), eq_comm]

section
variable {s t : Db}

theorem not_taken_of_same {k : Key} (h : Store.Same k s t) (free : s.taken k = false) : t.taken k = false := by
  rw [Db.not_taken_iff] at free ⊢
  exact fun r hr hk => free r (h.1 r hk hr) hk

theorem taken_of_le {k : Key} {r : Row} (h : Store.Le s t) (ref : k ∈ r.references) (there : s.taken k) :
    t.taken k := by
  obtain ⟨n, id, rfl⟩ := Row.references_row ref
  rw [Db.taken_row] at there ⊢
  obtain ⟨r, hr, e⟩ := there
  obtain ⟨r', hr', e'⟩ := h r hr
  exact ⟨r', hr', e'.trans e⟩

theorem mem_of_same {r : Row} (h : Store.Same r.pk s t) (mem : r ∈ s) : r ∈ t := h.2 r rfl mem

theorem Write.Accepted.transport {w : Write} (h : w.Accepted s) (same : ∀ k ∈ w.row.keys, Store.Same k s t)
    (le : Store.Le s t) : w.Accepted t := by
  cases w with
  | insert r =>
      exact ⟨h.began, h.check, fun k hk => not_taken_of_same (same k hk) (h.fresh k hk),
        fun k hk => taken_of_le le hk (h.referenced k hk)⟩
  | update old new =>
      refine ⟨mem_of_same ?_ h.mem, h.pk, h.allowed, h.check, fun k hk out => ?_,
        fun k hk => taken_of_le le hk (h.referenced k hk)⟩
      · rw [← h.pk]
        exact same _ new.pk_mem_keys
      · exact not_taken_of_same (same k (Row.mem_keys.mpr (.inr hk))) (h.fresh k hk out)

/-- Writes that were accepted where their keys are the same are accepted here. -/
theorem Accepts.transport {ws : List Write} (h : Accepts s ws)
    (same : ∀ w ∈ ws, ∀ k ∈ w.row.keys, Store.Same k s t) (le : Store.Le s t) : Accepts t ws := by
  induction ws generalizing s t with
  | nil => trivial
  | cons w ws ih =>
      refine ⟨h.1.transport (same w (by simp)) le, ih h.2 (fun v hv k hk => ?_) (Store.le_congr _ le)⟩
      exact Store.same_congr _ (same v (by simp [hv]) k hk)

end

/-! ## Soundness -/

/-- Unique keys are unique, references are there, and every row passes its checks. -/
structure Db.Sound (db : Db) : Prop where
  unique : ∀ r ∈ db, ∀ r' ∈ db, ∀ k ∈ r.keys, k ∈ r'.keys → r = r'
  referenced : ∀ r ∈ db, ∀ k ∈ r.references, db.taken k
  checked : ∀ r ∈ db, r.accept = .ok ()

theorem Write.Accepted.sound {db : Db} {w : Write} (h : w.Accepted db) (sound : db.Sound) :
    (db.put w.row).Sound := by
  have le : Store.Le db (db.put w.row) := Store.le_apply db w.row
  have check : w.row.accept = .ok () := by
    cases w with
    | insert r => exact h.check
    | update old new => exact h.check
  have referenced : ∀ k ∈ w.row.references, db.taken k := by
    cases w with
    | insert r => exact h.referenced
    | update old new => exact h.referenced
  have alone : ∀ r ∈ db, r.pk ≠ w.row.pk → ∀ k ∈ r.keys, k ∉ w.row.keys := by
    intro r hr ne k hk hw
    cases w with
    | insert new => exact Db.not_taken_iff.mp (h.fresh k hw) r hr hk
    | update old new =>
        rcases Row.mem_keys.mp hw with rfl | slot
        · simp only [row_update] at hk ne
          rcases Row.mem_keys.mp hk with e | slot
          · exact ne e.symm
          · exact new.pk_not_mem_slots r slot
        · by_cases own : k ∈ old.slots
          · have same := sound.unique r hr old h.mem k hk (Row.mem_keys.mpr (.inr own))
            exact ne (same ▸ h.pk.symm)
          · exact Db.not_taken_iff.mp (h.fresh k slot own) r hr hk
  refine ⟨fun r hr r' hr' k hk hk' => ?_, fun r hr k hk => ?_, fun r hr => ?_⟩
  · rcases Db.mem_put.mp hr with rfl | ⟨hr, ne⟩
    · rcases Db.mem_put.mp hr' with rfl | ⟨hr', ne'⟩
      · rfl
      · exact absurd hk (alone r' hr' ne' k hk')
    · rcases Db.mem_put.mp hr' with rfl | ⟨hr', ne'⟩
      · exact absurd hk' (alone r hr ne k hk)
      · exact sound.unique r hr r' hr' k hk hk'
  · rcases Db.mem_put.mp hr with rfl | ⟨hr, _⟩
    · exact taken_of_le le hk (referenced k hk)
    · exact taken_of_le le hk (sound.referenced r hr k hk)
  · rcases Db.mem_put.mp hr with rfl | ⟨hr, _⟩
    · exact check
    · exact sound.checked r hr

theorem Accepts.sound {db : Db} {ws : List Write} (h : Accepts db ws) (sound : db.Sound) : (db.write ws).Sound := by
  induction ws generalizing db with
  | nil => exact sound
  | cons w ws ih => exact ih h.2 (h.1.sound sound)

/-! ## What becomes of a row -/

def Revises (old new : Row) : Prop := new.pk = old.pk ∧ ∃ s, beforeUpdate s old new = .ok ()

/-- By a number of updates, each allowed by the triggers. -/
def Evolves : Row → Row → Prop := Relation.ReflTransGen Revises

/-- Every row is still there, or what it has become. -/
def Db.Extends (later earlier : Db) : Prop := ∀ r ∈ earlier, ∃ r' ∈ later, Evolves r r'

theorem Db.extends_refl (db : Db) : db.Extends db := fun r hr => ⟨r, hr, .refl⟩

theorem Db.Extends.trans {a b c : Db} (h : c.Extends b) (h' : b.Extends a) : c.Extends a := by
  intro r hr
  obtain ⟨r', hr', evolves⟩ := h' r hr
  obtain ⟨r'', hr'', evolves'⟩ := h r' hr'
  exact ⟨r'', hr'', evolves.trans evolves'⟩

theorem Write.Accepted.extends {db : Db} {w : Write} (h : w.Accepted db) : (db.put w.row).Extends db := by
  intro r hr
  by_cases same : r.pk = w.row.pk
  · refine ⟨w.row, Db.mem_put_self _ _, ?_⟩
    cases w with
    | insert new =>
        refine absurd (h.fresh _ new.pk_mem_keys) ?_
        rw [Bool.not_eq_false, Db.taken_iff]
        exact ⟨r, hr, same ▸ r.pk_mem_keys⟩
    | update old new =>
        obtain rfl : r = old := Db.eq_of_pk_eq hr h.mem (same.trans h.pk)
        exact .single ⟨h.pk, h.allowed⟩
  · exact ⟨r, Db.mem_put.mpr (.inr ⟨hr, same⟩), .refl⟩

theorem Accepts.extends {db : Db} {ws : List Write} (h : Accepts db ws) : (db.write ws).Extends db := by
  induction ws generalizing db with
  | nil => exact db.extends_refl
  | cons w ws ih => exact (ih h.2).trans h.1.extends

/-- No update of the row is ever allowed. -/
def Row.Frozen (r : Row) : Prop := ∀ s new, new.pk = r.pk → beforeUpdate s r new ≠ .ok ()

theorem Evolves.eq_of_frozen {r r' : Row} (h : Evolves r r') (frozen : r.Frozen) : r' = r := by
  rcases Relation.ReflTransGen.cases_head h with e | ⟨next, ⟨pk, s, allowed⟩, _⟩
  · exact e.symm
  · exact absurd allowed (frozen s next pk)

theorem Db.Extends.frozen {later earlier : Db} {r : Row} (h : later.Extends earlier) (mem : r ∈ earlier)
    (frozen : r.Frozen) : r ∈ later := by
  obtain ⟨r', hr', evolves⟩ := h r mem
  rwa [evolves.eq_of_frozen frozen] at hr'

/-- What no allowed update changes never changes. -/
theorem Evolves.kept {P : Row → Prop} (keep : ∀ s old new, beforeUpdate s old new = .ok () → new.pk = old.pk → P old → P new)
    {r r' : Row} (h : Evolves r r') (now : P r) : P r' := by
  induction h with
  | refl => exact now
  | tail _ revises ih =>
      obtain ⟨pk, s, allowed⟩ := revises
      exact keep s _ _ allowed pk ih

/-- The tables whose rows no update may touch. -/
def Row.isHistory : Row → Bool
  | .ledgerPosting _ | .transferReversal _ | .auditLog _ | .providerEvent _ => true
  | _ => false

/-- No update of the row is ever allowed, not even one of its primary key. -/
def Row.Fixed (r : Row) : Prop := ∀ s new, new.table = r.table → beforeUpdate s r new ≠ .ok ()

theorem Row.Fixed.frozen {r : Row} (h : r.Fixed) : r.Frozen := fun s new pk => h s new (Row.table_eq_of_pk_eq pk)

theorem Row.fixed_of_isHistory {r : Row} (h : r.isHistory) : r.Fixed := by
  intro s new _
  cases r <;> simp_all [isHistory, beforeUpdate]

theorem Row.fixed_of_sealed {t : LedgerTransaction} (h : t.sealedAt.isSome) : (Row.ledgerTransaction t).Fixed := by
  intro s new table allowed
  cases new <;> cases table
  obtain ⟨_, rest⟩ := bind_unit_eq_ok.mp allowed
  rw [failIf_eq_ok, not_not] at rest
  simp [Option.isNone_iff_eq_none.mp rest.1] at h

theorem Row.fixed_of_completed {t : Transfer} (h : t.status = .completed) : (Row.transfer t).Fixed := by
  intro s new table allowed
  cases new <;> cases table
  obtain ⟨_, rest⟩ := bind_unit_eq_ok.mp allowed
  rw [failIf_eq_ok] at rest
  exact rest h

theorem Row.fixed_of_terminal {p : Payment} (h : p.status ≠ .pending) : (Row.payment p).Fixed := by
  intro s new table allowed
  cases new <;> cases table
  obtain ⟨_, rest⟩ := bind_unit_eq_ok.mp allowed
  obtain ⟨pending, _⟩ := bind_unit_eq_ok.mp rest
  rw [failIf_eq_ok] at pending
  exact pending (.inl h)

end Fintech
