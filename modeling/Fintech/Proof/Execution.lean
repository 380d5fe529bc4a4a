import Fintech.Proof.Slices
import Fintech.Proof.Tracking

/-!
# Executing a body

`Executes l db ws`: under the settings `l` the database `db` executes the writes `ws` one after another. A body whose
writes are executed does not fail: one rule for each kind of statement, on a single snapshot.
-/

namespace Fintech
open Relational Transactional

namespace Write

/-- The rows whose constraint triggers are due after the write. -/
def due : Write → List Row
  | insert r => [r]
  | update _ new => deferredOnUpdate new

/-- The triggers before the write let it pass. -/
def Triggered (l : Settings) (db : Db) : Write → Prop
  | insert r => beforeInsert db l r = .ok ()
  | update old new => beforeUpdate l old new = .ok ()

structure Executed (l : Settings) (db : Db) (w : Write) : Prop where
  accepted : w.Accepted db
  triggered : w.Triggered l db

end Write

/-- The settings after the writes. -/
def Settings.after (l : Settings) (ws : List Write) : Settings :=
  { l with deferred := l.deferred ++ ws.flatMap Write.due }

@[simp] theorem Settings.after_nil (l : Settings) : l.after [] = l := by simp [after]

@[simp] theorem Settings.after_append (l : Settings) (ws vs : List Write) : l.after (ws ++ vs) = (l.after ws).after vs := by
  simp [after]

def Executes (l : Settings) : Db → List Write → Prop
  | _, [] => True
  | db, w :: ws => w.Executed l db ∧ Executes l (db.put w.row) ws

section
variable {l : Settings} {db : Db} {w : Write} {ws vs : List Write} {r old new : Row}

@[simp] theorem executes_nil (l : Settings) (db : Db) : Executes l db [] := trivial

@[simp] theorem executes_cons : Executes l db (w :: ws) ↔ w.Executed l db ∧ Executes l (db.put w.row) ws := Iff.rfl

@[simp] theorem executes_append : Executes l db (ws ++ vs) ↔ Executes l db ws ∧ Executes l (db.write ws) vs := by
  induction ws generalizing db with
  | nil => simp
  | cons w ws ih => simp [ih, and_assoc]

theorem Executes.accepts (h : Executes l db ws) : Accepts db ws := by
  induction ws generalizing db with
  | nil => trivial
  | cons w ws ih => exact ⟨h.1.accepted, ih h.2⟩

/-- The writes of a list of items are executed, when each item's are in the state that the items before it leave. -/
theorem executes_flatMap {α : Type} {P : List α → Db → Prop} {f : α → List Write} {as : List α} (start : P [] db)
    (step : ∀ done a rest db, as = done ++ a :: rest → P done db → Executes l db (f a) ∧ P (done ++ [a]) (db.write (f a))) :
    Executes l db (as.flatMap f) := by
  suffices h : ∀ rest done db, as = done ++ rest → P done db → Executes l db (rest.flatMap f) from h as [] db rfl start
  intro rest
  induction rest with
  | nil =>
      intro done db split holds
      trivial
  | cons a rest ih =>
      intro done db split holds
      obtain ⟨executes, next⟩ := step done a rest db split holds
      rw [List.flatMap_cons, executes_append]
      exact ⟨executes, ih (done ++ [a]) _ (by simp [split]) next⟩

theorem beforeInsert_after : beforeInsert db (l.after ws) r = beforeInsert db l r := by
  cases r <;> rfl

theorem beforeUpdate_after : beforeUpdate (l.after ws) old new = beforeUpdate l old new := by
  unfold beforeUpdate
  rfl

theorem Write.Executed.insert_eq (h : (Write.insert r).Executed l db) :
    db.insert (l.after ws) r = .ok (l.after (ws ++ [.insert r])) := by
  refine Db.insert_eq_ok.mpr ⟨?_, h.accepted.check, h.accepted.fresh, h.accepted.referenced, ?_⟩
  · rw [beforeInsert_after]
    exact h.triggered
  · simp [Settings.after, Write.due]

theorem Write.Executed.update_eq (h : (Write.update old new).Executed l db) :
    db.update (l.after ws) old new = .ok (l.after (ws ++ [.update old new])) := by
  refine Db.update_eq_ok.mpr ⟨?_, h.accepted.check, h.accepted.fresh, h.accepted.referenced, ?_⟩
  · rw [beforeUpdate_after]
    exact h.triggered
  · simp [Settings.after, Write.due]

theorem Executes.insertAll_eq {rs : List Row} (h : Executes l db (rs.map .insert)) :
    db.insertAll (l.after ws) rs = .ok (l.after (ws ++ rs.map .insert)) := by
  induction rs generalizing db ws with
  | nil => simp [Db.insertAll]
  | cons r rs ih =>
      rw [Db.insertAll, h.1.insert_eq]
      have rest := @ih (db.put r) (ws ++ [.insert r]) h.2
      simpa [bind, Except.bind] using rest

end

/-! ## Free keys -/

/-- The table in whose rows a key can be. -/
def Key.table : Key → TableName
  | .row table _ => table
  | .userEmail _ => .user
  | .walletCurrency _ _ | .walletAccount _ => .wallet
  | .accountSystemKey _ => .ledgerAccount
  | .ledgerReference _ => .ledgerTransaction
  | .postingAccount _ _ => .ledgerPosting
  | .beneficiaryWallet _ _ => .beneficiary
  | .transferReference _ | .transferLedger _ => .transfer
  | .reversalReference _ | .reversalTransfer _ | .reversalLedger _ => .transferReversal
  | .idempotencyKey _ _ _ | .idempotencyTransfer _ | .idempotencyReversal _ => .idempotencyRecord
  | .auditReversal _ | .auditTransfer _ _ => .auditLog
  | .outboxAggregate _ _ => .outboxEvent
  | .notificationEvent _ => .notification
  | .deliveryEvent _ _ => .webhookDelivery
  | .attemptNumber _ _ => .webhookAttempt
  | .paymentReference _ | .paymentLedger _ | .paymentKey _ _ => .payment
  | .providerEventId _ _ => .providerEvent

theorem Row.table_of_mem_keys {r : Row} {k : Key} (h : k ∈ r.keys) : k.table = r.table := by
  cases r <;> simp [Row.keys, Row.slots, Row.pk] at h <;> grind [Key.table, Row.table]

theorem Slice.free {ρ : Type} [Keyed ρ Uuid] (slice : Slice ρ) {db : Db} {k : Key} (table : k.table = slice.name)
    (h : ∀ x ∈ slice.table db, k ∉ (slice.row x).keys) : db.taken k = false := by
  rw [Db.not_taken_iff]
  intro r hr hk
  obtain ⟨x, rfl⟩ := slice.exists_row ((Row.table_of_mem_keys hk).symm.trans table)
  exact h x (slice.mem.mp hr) hk

theorem Slice.taken {ρ : Type} [Keyed ρ Uuid] (slice : Slice ρ) {db : Db} {x : ρ} (h : x ∈ slice.table db) :
    db.taken (.row slice.name (key x)) := by
  rw [Db.taken_row]
  exact ⟨slice.row x, slice.mem.mpr h, slice.pk_row x⟩

/-! ## Programs -/

/-- The view holds the writes `ws`, made under the settings `l`. -/
structure Stands (l : Settings) (v : View Settings Row Key) (ws : List Write) : Prop where
  writes : v.writes = ws.map Write.row
  locals : v.locals = l.after ws

/-- Total correctness on the snapshot `s`: no statement fails. -/
structure Tx.Runs {α : Type} (s : Db) (body : Tx α) (Q : Except HttpException α → View Settings Row Key → Prop)
    (v : View Settings Row Key) : Prop where
  wp : body.wp (fun _ => s) (fun _ => False) Q v

/-! ## Rules -/

section
variable {α : Type} {s : Db} {l : Settings} {v : View Settings Row Key} {ws : List Write}
  {Q : Except HttpException α → View Settings Row Key → Prop}

theorem Stands.start (l : Settings) : Stands l { locals := l } [] := ⟨rfl, (Settings.after_nil l).symm⟩

theorem Stands.seen (h : Stands l v ws) : applyAll s v.writes = s.write ws := by
  rw [h.writes]
  rfl

theorem Stands.quiet (h : Stands l v ws) {e : Effect Settings Row Key} (locals : e.locals = v.locals) (none : e.writes = []) :
    Stands l (v.after Db e) ws where
  writes := by simp [h.writes, none]
  locals := by simp [h.locals, locals]

theorem Stands.wrote (h : Stands l v ws) {e : Effect Settings Row Key} (vs : List Write) (rows : e.writes = vs.map Write.row)
    (locals : e.locals = l.after (ws ++ vs)) : Stands l (v.after Db e) (ws ++ vs) where
  writes := by simp [h.writes, rows]
  locals := by simp [locals]

theorem Tx.Runs.run {body : Tx α} (h : body.Runs s Q v) : ∃ r v', body.run (fun _ => s) v = .ok (r, v') ∧ Q r v' :=
  Prog.run_of_wp h.wp

theorem runs_bind {β : Type} {p : Tx β} {f : β → Tx α} {a : Except HttpException β → View Settings Row Key → Prop}
    (h : p.Runs s a v) (ok : ∀ b v', a (.ok b) v' → (f b).Runs s Q v') (failed : ∀ e v', a (.error e) v' → Q (.error e) v') :
    Tx.Runs s (p >>= f) Q v := by
  refine ⟨Prog.wp_bind.mpr (Prog.wp_mono h.wp fun r v' hr => ?_)⟩
  cases r with
  | error e => exact failed e v' hr
  | ok b => exact (ok b v' hr).wp

theorem runs_pure {a : α} (h : Q (.ok a) v) : Tx.Runs s (pure a) Q v := ⟨h⟩

/-- A statement that succeeds, and the rest of the body after it. -/
theorem runs_exec {β : Type} {q : Statement β} {f : β → Tx α} {b : β} {e : Effect Settings Row Key}
    (ok : q (applyAll s v.writes) v.locals = .ok (b, e)) (rest : (f b).Runs s Q (v.after Db e)) :
    Tx.Runs s (Prog.exec q >>= f) Q v := by
  refine ⟨Prog.wp_bind.mpr (Prog.wp_exec.mpr ⟨fun d failed => ?_, fun b' e' same => ?_⟩)⟩
  · rw [ok] at failed
    cases failed
  · rw [ok] at same
    cases same
    exact rest.wp

theorem runs_last {q : Statement α} {a : α} {e : Effect Settings Row Key} (ok : q (applyAll s v.writes) v.locals = .ok (a, e))
    (post : Q (.ok a) (v.after Db e)) : Tx.Runs s (Prog.exec q) Q v := by
  refine ⟨Prog.wp_exec.mpr ⟨fun d failed => ?_, fun a' e' same => ?_⟩⟩
  · rw [ok] at failed
    cases failed
  · rw [ok] at same
    cases same
    exact post

theorem runs_lift {β : Type} {x : Except HttpException β} {f : β → Tx α} {b : β} (ok : x = .ok b) (rest : (f b).Runs s Q v) :
    Tx.Runs s (Prog.lift x >>= f) Q v := by
  rw [ok]
  exact rest

theorem runs_throwIf {c : Prop} [Decidable c] {e : HttpException} {f : Unit → Tx α} (passed : ¬ c)
    (rest : (f ()).Runs s Q v) : Tx.Runs s (Prog.throwIf c e >>= f) Q v := by
  rw [Prog.throwIf, if_neg passed]
  exact rest

theorem runs_orThrow {β : Type} {o : Option β} {e : HttpException} {f : β → Tx α} {b : β} (found : o = some b)
    (rest : (f b).Runs s Q v) : Tx.Runs s (Prog.orThrow e o >>= f) Q v := by
  rw [found]
  exact rest

theorem runs_read {β : Type} {g : Db → β} {f : β → Tx α} (h : Stands l v ws)
    (rest : ∀ v', Stands l v' ws → (f (g (s.write ws))).Runs s Q v') : Tx.Runs s (Prog.read g >>= f) Q v := by
  refine runs_exec rfl ?_
  rw [h.seen]
  exact rest _ (h.quiet rfl rfl)

theorem runs_query {β : Type} {g : Db → Except DbError β} {f : β → Tx α} {b : β} (h : Stands l v ws)
    (ok : g (s.write ws) = .ok b) (rest : ∀ v', Stands l v' ws → (f b).Runs s Q v') :
    Tx.Runs s (Tx.query g >>= f) Q v := by
  refine runs_exec (e := { locals := v.locals }) ?_ (rest _ (h.quiet rfl rfl))
  rw [h.seen, ok]
  rfl

theorem runs_lock {β : Type} {g : Db → Except DbError β} {found : β → List Row} {f : β → Tx α} {b : β} (h : Stands l v ws)
    (ok : g (s.write ws) = .ok b) (rest : ∀ v', Stands l v' ws → (f b).Runs s Q v') :
    Tx.Runs s (Tx.lock g found >>= f) Q v := by
  refine runs_exec (e := { locals := v.locals, locks := (found b).map Row.pk }) ?_ (rest _ (h.quiet rfl rfl))
  rw [h.seen, ok]
  rfl

/-- Switching on a flag of the settings. -/
theorem runs_setConfig {g : Settings → Settings} {f : Unit → Tx α} (h : Stands l v ws)
    (flag : g (l.after ws) = (g l).after ws) (rest : ∀ v', Stands (g l) v' ws → (f ()).Runs s Q v') :
    Tx.Runs s (Tx.setConfig g >>= f) Q v := by
  refine runs_exec rfl (rest _ ⟨?_, ?_⟩)
  · simp [h.writes]
  · simp [h.locals, flag]

theorem runs_create {r : Row} {f : Unit → Tx α} (h : Stands l v ws) (executed : (Write.insert r).Executed l (s.write ws))
    (rest : ∀ v', Stands l v' (ws ++ [.insert r]) → (f ()).Runs s Q v') : Tx.Runs s (Tx.create r >>= f) Q v := by
  refine runs_exec (e := { locals := l.after (ws ++ [.insert r]), writes := [r] }) ?_ (rest _ (h.wrote [.insert r] rfl rfl))
  rw [h.seen, h.locals, executed.insert_eq]
  rfl

theorem runs_createMany {rows : Db → Except DbError (List Row)} (rs : List Row) {f : Unit → Tx α} (h : Stands l v ws)
    (ok : rows (s.write ws) = .ok rs) (executes : Executes l (s.write ws) (rs.map .insert))
    (rest : ∀ v', Stands l v' (ws ++ rs.map .insert) → (f ()).Runs s Q v') : Tx.Runs s (Tx.createMany rows >>= f) Q v := by
  refine runs_exec (e := { locals := l.after (ws ++ rs.map .insert), writes := rs }) ?_
    (rest _ (h.wrote (rs.map .insert) ?_ rfl))
  · rw [h.seen, h.locals, ok]
    simp only [bind, Except.bind, executes.insertAll_eq]
    rfl
  · simp [Function.comp_def]

theorem runs_update {ρ : Type} {find : Db → Option ρ} {row : ρ → Row} {g : ρ → ρ} {f : ρ → Tx α} {old : ρ} (h : Stands l v ws)
    (found : find (s.write ws) = some old) (executed : (Write.update (row old) (row (g old))).Executed l (s.write ws))
    (rest : ∀ v', Stands l v' (ws ++ [.update (row old) (row (g old))]) → (f (g old)).Runs s Q v') :
    Tx.Runs s (Tx.update find row g >>= f) Q v := by
  refine runs_exec (e := { locals := l.after (ws ++ [.update (row old) (row (g old))]), writes := [row (g old)] }) ?_
    (rest _ (h.wrote [.update (row old) (row (g old))] rfl rfl))
  rw [h.seen, h.locals, found]
  simp only [executed.update_eq]
  rfl

/-- Loop rule: after each turn the loop stands at the writes of the items done. -/
theorem runs_each {β γ : Type} {f : β → Tx Unit} {k : Unit → Tx α} {item : γ → β} {g : γ → List Write} {as : List γ}
    (h : Stands l v ws)
    (turn : ∀ done a rest v, as = done ++ a :: rest → Stands l v (ws ++ done.flatMap g) →
      (f (item a)).Runs s (fun r v' => r = .ok () ∧ Stands l v' (ws ++ done.flatMap g ++ g a)) v)
    (rest : ∀ v', Stands l v' (ws ++ as.flatMap g) → (k ()).Runs s Q v') :
    Tx.Runs s (Prog.each f (as.map item) >>= k) Q v := by
  have loop : ∀ rest done v, as = done ++ rest → Stands l v (ws ++ done.flatMap g) →
      Tx.Runs s (Prog.each f (rest.map item)) (fun r v' => r = .ok () ∧ Stands l v' (ws ++ as.flatMap g)) v := by
    intro rest
    induction rest with
    | nil =>
        intro done v split h
        rw [List.append_nil] at split
        exact ⟨rfl, split ▸ h⟩
    | cons a rest ih =>
        intro done v split h
        refine runs_bind (turn done a rest v split h) (fun _ v' next => ?_) fun e v' failed => nomatch failed.1
        refine ih (done ++ [a]) v' (by simp [split]) ?_
        simpa using next.2
  exact runs_bind (loop as [] v rfl (by simpa using h)) (fun _ v' next => rest v' next.2) fun e v' failed => nomatch failed.1

end

end Fintech
