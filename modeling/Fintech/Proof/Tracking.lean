import Fintech.Proof.Writes

/-!
# Tracking the writes of a body

`Tracks base v ws`: the view holds the writes `ws`, and every state to which the transaction may
still commit accepts them. One rule for each kind of statement says how `ws` grows.
-/

namespace Fintech
open Relational Transactional

/-- What the statements so far rely on is still so in `now`: each key they touched is the same
there as in every state seen since, and no row is gone. -/
structure Settled (base : Nat → Db) (v : View Settings Row Key) (now : Db) : Prop where
  same : ∀ n k, (n, k) ∈ v.touched → ∀ m, n ≤ m → Store.Same k (base m) now
  le : ∀ n, Store.Le (base n) now

structure Tracks (base : Nat → Db) (v : View Settings Row Key) (ws : List Write) : Prop where
  writes : v.writes = ws.map Write.row
  accepted : ∀ now, Settled base v now → Accepts now ws

variable {base : Nat → Db} {v : View Settings Row Key} {ws : List Write}

theorem Settled.of_after {now : Db} {e : Effect Settings Row Key} (h : Settled base (v.after Db e) now) :
    Settled base v now :=
  ⟨fun n k mem => h.same n k (List.mem_append_left _ mem), h.le⟩

theorem Settled.needs {now : Db} {e : Effect Settings Row Key} (h : Settled base (v.after Db e) now) {k : Key}
    (mem : k ∈ View.needs Db e) : Store.Same k (base v.executed) now :=
  h.same v.executed k (List.mem_append_right _ (List.mem_map.mpr ⟨k, mem, rfl⟩)) v.executed le_rfl

/-- On one snapshot everything is settled. -/
theorem Settled.snapshot (s : Db) : Settled (fun _ => s) v s :=
  ⟨fun _ _ _ _ _ => Store.same_refl _ _, fun _ => Store.le_refl s⟩

namespace Tracks

theorem start (locals : Settings) : Tracks base { locals } [] := ⟨rfl, fun _ _ => trivial⟩

/-- What a statement sees. -/
theorem seen (h : Tracks base v ws) : applyAll (base v.executed) v.writes = (base v.executed).write ws := by
  rw [h.writes]
  rfl

theorem quiet (h : Tracks base v ws) {e : Effect Settings Row Key} (none : e.writes = []) :
    Tracks base (v.after Db e) ws where
  writes := by simp [h.writes, none]
  accepted := fun now settled => h.accepted now settled.of_after

theorem wrote (h : Tracks base v ws) {e : Effect Settings Row Key} (vs : List Write)
    (rows : e.writes = vs.map Write.row) (ok : Accepts ((base v.executed).write ws) vs) :
    Tracks base (v.after Db e) (ws ++ vs) where
  writes := by simp [h.writes, rows]
  accepted := by
    intro now settled
    refine accepts_append.mpr ⟨h.accepted now settled.of_after, ?_⟩
    refine ok.transport (fun w hw k hk => ?_) (le_applyAll_congr _ (settled.le _))
    refine same_applyAll_congr _ (settled.needs (List.mem_append_right _ ?_))
    rw [rows, List.mem_flatMap]
    exact ⟨w.row, List.mem_map.mpr ⟨w, hw, rfl⟩, hk⟩

end Tracks

/-- A check that every element passes is passed by the list. -/
theorem forM_eq_ok_of_forall {α ε : Type} {f : α → Except ε Unit} {as : List α} (h : ∀ a ∈ as, f a = .ok ()) :
    as.forM f = .ok () := by
  induction as with
  | nil => rfl
  | cons a as ih =>
      rw [List.forM_eq_forM, List.forM_cons, h a List.mem_cons_self]
      exact ih fun b hb => h b (List.mem_cons_of_mem a hb)

/-! ## Rules -/

section
variable {α : Type} {Q : Except HttpException α → View Settings Row Key → Prop}

/-- Partial correctness: what is asked of a run holds if no statement fails. -/
structure Tx.Ensures (base : Nat → Db) (body : Tx α) (Q : Except HttpException α → View Settings Row Key → Prop)
    (v : View Settings Row Key) : Prop where
  wp : body.wp base (fun _ => True) Q v

/-- What is asked of a run holds of a run that ends. -/
theorem Tx.Ensures.holds {body : Tx α} (h : body.Ensures base Q v) {r : Except HttpException α} {v' : View Settings Row Key}
    (ran : body.run base v = .ok (r, v')) : Q r v' := Prog.wp_of_run h.wp ran

/-- What a body touched before it still counts after it. -/
theorem Tx.Ensures.touched {body : Tx α} (h : body.Ensures base Q v)
    {Q' : Except HttpException α → View Settings Row Key → Prop}
    (imp : ∀ r v', Q r v' → v.touched ⊆ v'.touched → Q' r v') : body.Ensures base Q' v := by
  refine ⟨?_⟩
  have wp := h.wp
  unfold Prog.wp at wp ⊢
  split
  · trivial
  · rename_i r v' ran
    rw [ran] at wp
    exact imp r v' wp (Prog.run_touched ran)

/-- What is asked of the first part of a body when `Q` is asked of the whole. -/
def Tx.andThen {β : Type} (base : Nat → Db) (f : β → Tx α)
    (Q : Except HttpException α → View Settings Row Key → Prop) :
    Except HttpException β → View Settings Row Key → Prop
  | .ok b, v => (f b).Ensures base Q v
  | .error e, v => Q (.error e) v

theorem ensures_bind {β : Type} {p : Tx β} {f : β → Tx α} (h : p.Ensures base (Tx.andThen base f Q) v) :
    Tx.Ensures base (p >>= f) Q v := by
  refine ⟨Prog.wp_bind.mpr (Prog.wp_mono h.wp fun r v' hr => ?_)⟩
  cases r with
  | error e => exact hr
  | ok b => exact hr.wp

theorem ensures_pure {a : α} (h : Q (.ok a) v) : Tx.Ensures base (pure a) Q v := ⟨h⟩

theorem ensures_throw {e : HttpException} (h : Q (.error e) v) : Tx.Ensures base (throw e) Q v := ⟨h⟩

theorem ensures_throwIf {c : Prop} [Decidable c] {e : HttpException}
    {Q : Except HttpException Unit → View Settings Row Key → Prop} (failed : c → Q (.error e) v)
    (passed : ¬ c → Q (.ok ()) v) : Tx.Ensures base (Prog.throwIf c e) Q v :=
  ⟨Prog.wp_throwIf.mpr ⟨failed, passed⟩⟩

theorem ensures_orThrow {e : HttpException} {o : Option α} (failed : o = none → Q (.error e) v)
    (found : ∀ a, o = some a → Q (.ok a) v) : Tx.Ensures base (Prog.orThrow e o) Q v :=
  ⟨Prog.wp_orThrow.mpr ⟨failed, found⟩⟩

theorem ensures_lift {x : Except HttpException α} (failed : ∀ e, x = .error e → Q (.error e) v)
    (ok : ∀ a, x = .ok a → Q (.ok a) v) : Tx.Ensures base (Prog.lift x) Q v := by
  refine ⟨Prog.wp_lift.mpr ?_⟩
  cases h : x with
  | error e => exact failed e h
  | ok a => exact ok a h

theorem Insertable.of_insert {db : Db} {s s' : Settings} {r : Row} (h : db.insert s r = .ok s') : Insertable db r := by
  obtain ⟨began, check, fresh, referenced, _⟩ := Db.insert_eq_ok.mp h
  exact ⟨⟨db, s, began⟩, check, fresh, referenced⟩

theorem Updatable.of_update {db : Db} {s s' : Settings} {old new : Row} (mem : old ∈ db) (pk : new.pk = old.pk)
    (h : db.update s old new = .ok s') : Updatable db old new := by
  obtain ⟨allowed, check, fresh, referenced, _⟩ := Db.update_eq_ok.mp h
  exact ⟨mem, pk, ⟨s, allowed⟩, check, fresh, referenced⟩

theorem accepts_insertAll {db : Db} {s s' : Settings} {rs : List Row} (h : db.insertAll s rs = .ok s') :
    Accepts db (rs.map Write.insert) := by
  induction rs generalizing db s with
  | nil => trivial
  | cons r rs ih =>
      simp only [Db.insertAll, bind_eq_ok] at h
      obtain ⟨s₁, first, rest⟩ := h
      exact ⟨.of_insert first, ih rest⟩

theorem ensures_create {r : Row} {Q : Except HttpException Unit → View Settings Row Key → Prop}
    (h : Tracks base v ws) (post : ∀ v', Tracks base v' (ws ++ [.insert r]) → Q (.ok ()) v') :
    (Tx.create r).Ensures base Q v := by
  refine ⟨Prog.wp_exec.mpr ⟨fun _ _ => trivial, ?_⟩⟩
  rintro ⟨⟩ e ok
  simp only [bind_eq_ok, pure, Except.pure, Except.ok.injEq, Prod.mk.injEq, true_and, h.seen] at ok
  obtain ⟨s', inserted, rfl⟩ := ok
  exact post _ (h.wrote [.insert r] rfl ⟨.of_insert inserted, trivial⟩)

theorem ensures_createMany {rows : Db → Except DbError (List Row)}
    {Q : Except HttpException Unit → View Settings Row Key → Prop} (h : Tracks base v ws)
    (post : ∀ v' rs, rows ((base v.executed).write ws) = .ok rs → Tracks base v' (ws ++ rs.map .insert) → Q (.ok ()) v') :
    (Tx.createMany rows).Ensures base Q v := by
  refine ⟨Prog.wp_exec.mpr ⟨fun _ _ => trivial, ?_⟩⟩
  rintro ⟨⟩ e ok
  simp only [bind_eq_ok, pure, Except.pure, Except.ok.injEq, Prod.mk.injEq, true_and, h.seen] at ok
  obtain ⟨rs, found, s', inserted, rfl⟩ := ok
  refine post _ rs found (h.wrote _ ?_ (accepts_insertAll inserted))
  simp [Function.comp_def]

theorem ensures_update {ρ : Type} {find : Db → Option ρ} {row : ρ → Row} {f : ρ → ρ}
    {Q : Except HttpException ρ → View Settings Row Key → Prop} (h : Tracks base v ws)
    (finds : ∀ db old, find db = some old → row old ∈ db) (keeps : ∀ old, (row (f old)).pk = (row old).pk)
    (post : ∀ v' old, find ((base v.executed).write ws) = some old →
      Tracks base v' (ws ++ [.update (row old) (row (f old))]) → Q (.ok (f old)) v') :
    (Tx.update find row f).Ensures base Q v := by
  refine ⟨Prog.wp_exec.mpr ⟨fun _ _ => trivial, ?_⟩⟩
  intro a e ok
  rw [h.seen] at ok
  cases found : find ((base v.executed).write ws) with
  | none => simp [found] at ok
  | some old =>
      simp only [found, bind_eq_ok, pure, Except.pure, Except.ok.injEq, Prod.mk.injEq] at ok
      obtain ⟨s', updated, rfl, rfl⟩ := ok
      exact post _ old found
        (h.wrote [.update _ _] rfl ⟨.of_update (finds _ _ found) (keeps old) updated, trivial⟩)

theorem ensures_query {f : Db → Except DbError α} (h : Tracks base v ws)
    (post : ∀ v' a, f ((base v.executed).write ws) = .ok a → Tracks base v' ws → Q (.ok a) v') :
    (Tx.query f).Ensures base Q v := by
  refine ⟨Prog.wp_exec.mpr ⟨fun _ _ => trivial, ?_⟩⟩
  intro a e ok
  simp only [bind_eq_ok, pure, Except.pure, Except.ok.injEq, Prod.mk.injEq, h.seen] at ok
  obtain ⟨a, found, rfl, rfl⟩ := ok
  exact post _ a found (h.quiet rfl)

theorem ensures_lock {f : Db → Except DbError α} {found : α → List Row} (h : Tracks base v ws)
    (post : ∀ v' a, f ((base v.executed).write ws) = .ok a → Tracks base v' ws → Q (.ok a) v') :
    (Tx.lock f found).Ensures base Q v := by
  refine ⟨Prog.wp_exec.mpr ⟨fun _ _ => trivial, ?_⟩⟩
  intro a e ok
  simp only [bind_eq_ok, pure, Except.pure, Except.ok.injEq, Prod.mk.injEq, h.seen] at ok
  obtain ⟨a, found, rfl, rfl⟩ := ok
  exact post _ a found (h.quiet rfl)

theorem ensures_read {f : Db → α} (h : Tracks base v ws)
    (post : ∀ v', Tracks base v' ws → Q (.ok (f ((base v.executed).write ws))) v') :
    Tx.Ensures base (Prog.read f) Q v := by
  refine ⟨Prog.wp_read.mpr ?_⟩
  rw [h.seen]
  exact post _ (h.quiet rfl)

theorem ensures_setConfig {f : Settings → Settings} {Q : Except HttpException Unit → View Settings Row Key → Prop}
    (h : Tracks base v ws) (post : ∀ v', Tracks base v' ws → Q (.ok ()) v') :
    (Tx.setConfig f).Ensures base Q v := by
  refine ⟨Prog.wp_exec.mpr ⟨fun _ _ => trivial, ?_⟩⟩
  rintro ⟨⟩ e ⟨⟩
  exact post _ (h.quiet rfl)

theorem ensures_commit {Q : Except HttpException Unit → View Settings Row Key → Prop}
    (h : Tracks base v ws) (post : ∀ v', Tracks base v' ws → Q (.ok ()) v') : Tx.commit.Ensures base Q v := by
  refine ⟨Prog.wp_exec.mpr ⟨fun _ _ => trivial, ?_⟩⟩
  rintro ⟨⟩ e ok
  simp only [bind_eq_ok, pure, Except.pure, Except.ok.injEq, Prod.mk.injEq, true_and] at ok
  obtain ⟨_, _, rfl⟩ := ok
  exact post _ (h.quiet rfl)

/-- One turn of a loop: `P` after it, or the failure of the whole. -/
def Tx.turn (P : View Settings Row Key → Prop) (Q : Except HttpException Unit → View Settings Row Key → Prop) :
    Except HttpException Unit → View Settings Row Key → Prop
  | .ok _, v => P v
  | .error e, v => Q (.error e) v

theorem ensures_each {β : Type} {f : β → Tx Unit} {Q : Except HttpException Unit → View Settings Row Key → Prop}
    (I : List β → View Settings Row Key → Prop) (items : List β) (start : I [] v)
    (step : ∀ done b rest v, items = done ++ b :: rest → I done v → (f b).Ensures base (Tx.turn (I (done ++ [b])) Q) v)
    (finish : ∀ v, I items v → Q (.ok ()) v) : Tx.Ensures base (Prog.each f items) Q v := by
  refine ⟨Prog.wp_each I items start (fun done b rest v split hI => ?_) finish⟩
  refine Prog.wp_mono (step done b rest v split hI).wp fun r v' hr => ?_
  cases r <;> exact hr

end

end Fintech
