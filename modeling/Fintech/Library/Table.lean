import Mathlib.Algebra.BigOperators.Group.List.Basic
import Mathlib.Data.List.Nodup
import Mathlib.Tactic.Abel

/-!
# Keyed tables

A table holds its rows in insertion order and carries the proof that no two of them share a
primary key. `put` is the one write: it replaces the row with the same key, or appends. `modify`
rewrites every row in place and keeps the keys.
-/

namespace Relational

/-- The primary key of a row type. -/
class Keyed (ρ : Type) (κ : outParam Type) where
  key : ρ → κ

export Keyed (key)

structure Table (ρ : Type) {κ : Type} [Keyed ρ κ] where
  rows : List ρ
  unique : (rows.map key).Nodup

variable {ρ κ : Type} [Keyed ρ κ]

namespace Table

@[ext] theorem ext {t u : Table ρ} (h : t.rows = u.rows) : t = u := by
  cases t
  cases u
  cases h
  rfl

instance : Membership ρ (Table ρ) := ⟨fun t r => r ∈ t.rows⟩

theorem mem_def {t : Table ρ} {r : ρ} : r ∈ t ↔ r ∈ t.rows := Iff.rfl

instance : Inhabited (Table ρ) := ⟨⟨[], by simp⟩⟩

def empty : Table ρ := ⟨[], by simp⟩

@[simp] theorem not_mem_empty (r : ρ) : r ∉ (empty : Table ρ) := by simp [mem_def, empty]

theorem eq_of_key_eq {t : Table ρ} {r s : ρ} (hr : r ∈ t) (hs : s ∈ t) (h : key r = key s) : r = s :=
  List.inj_on_of_nodup_map t.unique hr hs h

/-! ## Sums over a table -/

section
variable {M : Type} [AddCommGroup M]

def sum (t : Table ρ) (f : ρ → M) : M := (t.rows.map f).sum

@[simp] theorem sum_empty (f : ρ → M) : (empty : Table ρ).sum f = 0 := rfl

theorem sum_congr {t : Table ρ} {f g : ρ → M} (h : ∀ r ∈ t, f r = g r) : t.sum f = t.sum g := by
  unfold sum
  rw [List.map_congr_left h]

end

/-! ## Rewriting rows in place -/

def modify (t : Table ρ) (f : ρ → ρ) (h : ∀ r, key (f r) = key r) : Table ρ where
  rows := t.rows.map f
  unique := by
    rw [List.map_map, show key ∘ f = (key : ρ → κ) from funext h]
    exact t.unique

theorem mem_modify {t : Table ρ} {f : ρ → ρ} {h : ∀ r, key (f r) = key r} {s : ρ} :
    s ∈ t.modify f h ↔ ∃ r ∈ t, f r = s := by
  simp [mem_def, modify]

/-! ## Looking a key up -/

variable [DecidableEq κ]

def find? (t : Table ρ) (k : κ) : Option ρ := t.rows.find? (fun r => key r = k)

theorem find?_eq_some {t : Table ρ} {k : κ} {r : ρ} : t.find? k = some r ↔ r ∈ t ∧ key r = k := by
  constructor
  · intro h
    exact ⟨List.mem_of_find?_eq_some h, by simpa using List.find?_some h⟩
  · rintro ⟨hr, rfl⟩
    unfold find?
    cases h : t.rows.find? (fun s => key s = key r) with
    | none => simpa using List.find?_eq_none.mp h r hr
    | some s =>
        have hs : key s = key r := by simpa using List.find?_some h
        rw [eq_of_key_eq (List.mem_of_find?_eq_some h) hr hs]

theorem find?_eq_none {t : Table ρ} {k : κ} : t.find? k = none ↔ ∀ r ∈ t, key r ≠ k := by
  simp [find?, mem_def]

theorem find?_isSome {t : Table ρ} {k : κ} : (t.find? k).isSome ↔ ∃ r ∈ t, key r = k := by
  simp [find?, mem_def]

theorem find?_key {t : Table ρ} {r : ρ} (h : r ∈ t) : t.find? (key r) = some r :=
  find?_eq_some.mpr ⟨h, rfl⟩

/-! ## Writing a row -/

def put (t : Table ρ) (r : ρ) : Table ρ where
  rows :=
    if (t.find? (key r)).isSome then t.rows.map (fun s => if key s = key r then r else s)
    else t.rows ++ [r]
  unique := by
    split
    · have same : (t.rows.map fun s => if key s = key r then r else s).map key = t.rows.map key := by
        rw [List.map_map]
        apply List.map_congr_left
        intro s _
        by_cases h : key s = key r <;> simp [h]
      rw [same]
      exact t.unique
    · rename_i h
      rw [find?_isSome] at h
      push Not at h
      simp only [List.map_append, List.map_cons, List.map_nil]
      refine List.nodup_append.mpr ⟨t.unique, by simp, ?_⟩
      intro a ha b hb
      obtain ⟨s, hs, rfl⟩ := List.mem_map.mp ha
      simp only [List.mem_singleton] at hb
      subst hb
      exact h s hs

theorem rows_put_of_fresh {t : Table ρ} {r : ρ} (h : ∀ s ∈ t, key s ≠ key r) :
    (t.put r).rows = t.rows ++ [r] := by
  simp [put, find?_eq_none.mpr h]

theorem rows_put_of_mem {t : Table ρ} {r s : ρ} (hs : s ∈ t) (h : key s = key r) :
    (t.put r).rows = t.rows.map (fun x => if key x = key r then r else x) := by
  simp [put, ← h, find?_key hs]

theorem mem_put {t : Table ρ} {r s : ρ} : s ∈ t.put r ↔ s = r ∨ (s ∈ t ∧ key s ≠ key r) := by
  by_cases fresh : ∀ s ∈ t, key s ≠ key r
  · rw [mem_def, rows_put_of_fresh fresh, List.mem_append, List.mem_singleton, or_comm]
    exact or_congr_right ⟨fun h => ⟨h, fresh s h⟩, And.left⟩
  · push Not at fresh
    obtain ⟨old, hold, hkey⟩ := fresh
    rw [mem_def, rows_put_of_mem hold hkey, List.mem_map]
    constructor
    · rintro ⟨x, hx, rfl⟩
      by_cases h : key x = key r
      · simp [h]
      · rw [if_neg h]
        exact .inr ⟨hx, h⟩
    · rintro (rfl | ⟨hs, hne⟩)
      · exact ⟨old, hold, by simp [hkey]⟩
      · exact ⟨s, hs, by simp [hne]⟩

theorem mem_put_self (t : Table ρ) (r : ρ) : r ∈ t.put r := mem_put.mpr (.inl rfl)

theorem mem_put_of_ne {t : Table ρ} {r s : ρ} (h : s ∈ t) (hne : key s ≠ key r) : s ∈ t.put r :=
  mem_put.mpr (.inr ⟨h, hne⟩)

theorem mem_put_of_fresh {t : Table ρ} {r s : ρ} (h : ∀ s ∈ t, key s ≠ key r) :
    s ∈ t.put r ↔ s = r ∨ s ∈ t := by
  rw [mem_put]
  exact or_congr_right ⟨And.left, fun hs => ⟨hs, h s hs⟩⟩

/-- Writing back a row that is there changes nothing. -/
theorem put_eq_self {t : Table ρ} {r : ρ} (h : r ∈ t) : t.put r = t := by
  apply ext
  rw [rows_put_of_mem h rfl]
  conv_rhs => rw [← List.map_id t.rows]
  apply List.map_congr_left
  intro s hs
  by_cases e : key s = key r
  · rw [if_pos e, eq_of_key_eq hs h e]
    rfl
  · rw [if_neg e]
    rfl

/-- A row written twice is written once. -/
theorem put_put {t : Table ρ} {r s : ρ} (h : key r = key s) : (t.put r).put s = t.put s := by
  apply ext
  rw [rows_put_of_mem (mem_put_self t r) h]
  by_cases fresh : ∀ x ∈ t, key x ≠ key r
  · have fresh' : ∀ x ∈ t, key x ≠ key s := fun x hx => h ▸ fresh x hx
    rw [rows_put_of_fresh fresh, rows_put_of_fresh fresh', List.map_append, List.map_singleton, if_pos h]
    congr 1
    conv_rhs => rw [← List.map_id t.rows]
    exact List.map_congr_left fun x hx => if_neg (fresh' x hx)
  · push Not at fresh
    obtain ⟨old, hold, same⟩ := fresh
    rw [rows_put_of_mem hold same, rows_put_of_mem hold (same.trans h), List.map_map]
    apply List.map_congr_left
    intro x _
    by_cases e : key x = key s <;> simp [e, h]

@[simp] theorem find?_put_self (t : Table ρ) (r : ρ) : (t.put r).find? (key r) = some r :=
  find?_key (mem_put_self t r)

theorem find?_put_of_ne {t : Table ρ} {r : ρ} {k : κ} (h : k ≠ key r) :
    (t.put r).find? k = t.find? k := by
  cases hf : t.find? k with
  | none =>
      rw [find?_eq_none] at hf ⊢
      intro s hs
      rcases mem_put.mp hs with rfl | ⟨hs, _⟩
      · exact h.symm
      · exact hf s hs
  | some s =>
      rw [find?_eq_some] at hf ⊢
      exact ⟨mem_put_of_ne hf.1 (hf.2 ▸ h), hf.2⟩

/-! ## Removing a row -/

def erase (t : Table ρ) (k : κ) : Table ρ where
  rows := t.rows.filter fun r => key r ≠ k
  unique := t.unique.sublist (List.filter_sublist.map key)

theorem mem_erase {t : Table ρ} {k : κ} {r : ρ} : r ∈ t.erase k ↔ r ∈ t ∧ key r ≠ k := by
  simp [mem_def, erase]

/-! ## Sums under a write -/

section Sum
variable {M : Type} [AddCommGroup M]

theorem sum_put_of_fresh {t : Table ρ} {r : ρ} (h : ∀ s ∈ t, key s ≠ key r) (f : ρ → M) :
    (t.put r).sum f = t.sum f + f r := by
  simp [sum, rows_put_of_fresh h]

private theorem sum_replace (rows : List ρ) (nodup : (rows.map key).Nodup) (r s : ρ) (hs : s ∈ rows)
    (h : key s = key r) (f : ρ → M) :
    ((rows.map fun x => if key x = key r then r else x).map f).sum = (rows.map f).sum - f s + f r := by
  induction rows with
  | nil => simp at hs
  | cons x xs ih =>
      simp only [List.map_cons, List.nodup_cons, List.sum_cons] at nodup ⊢
      rcases List.mem_cons.mp hs with rfl | hs
      · have others : xs.map (fun x => if key x = key r then r else x) = xs := by
          conv_rhs => rw [← List.map_id xs]
          apply List.map_congr_left
          intro y hy
          have : key y ≠ key r := fun e => nodup.1 (List.mem_map.mpr ⟨y, hy, e.trans h.symm⟩)
          simp [this]
        rw [others, if_pos h]
        abel
      · have hx : key x ≠ key r := fun e => nodup.1 (List.mem_map.mpr ⟨s, hs, h.trans e.symm⟩)
        rw [if_neg hx, ih nodup.2 hs]
        abel

/-- Overwriting the row `s` changes a sum by the new row minus the old one. -/
theorem sum_put_of_mem {t : Table ρ} {r s : ρ} (hs : s ∈ t) (h : key s = key r) (f : ρ → M) :
    (t.put r).sum f = t.sum f - f s + f r := by
  unfold sum
  rw [rows_put_of_mem hs h]
  exact sum_replace t.rows t.unique r s hs h f

end Sum

/-! ## Writing several rows -/

def putAll (t : Table ρ) (rs : List ρ) : Table ρ := rs.foldl put t

@[simp] theorem putAll_nil (t : Table ρ) : t.putAll [] = t := rfl

@[simp] theorem putAll_cons (t : Table ρ) (r : ρ) (rs : List ρ) :
    t.putAll (r :: rs) = (t.put r).putAll rs := rfl

theorem mem_of_mem_putAll {t : Table ρ} {rs : List ρ} {r : ρ} (h : r ∈ t.putAll rs) : r ∈ t ∨ r ∈ rs := by
  induction rs generalizing t with
  | nil => exact .inl h
  | cons s rs ih =>
      rcases ih h with h | h
      · rcases mem_put.mp h with rfl | ⟨h, _⟩
        · exact .inr List.mem_cons_self
        · exact .inl h
      · exact .inr (List.mem_cons_of_mem s h)

theorem find?_putAll_of_not_mem {t : Table ρ} {rs : List ρ} {k : κ} (h : k ∉ rs.map key) :
    (t.putAll rs).find? k = t.find? k := by
  induction rs generalizing t with
  | nil => rfl
  | cons r rs ih =>
      simp only [List.map_cons, List.mem_cons, not_or] at h
      rw [putAll_cons, ih h.2, find?_put_of_ne h.1]

theorem rows_putAll_map (t : Table ρ) (f : ρ → ρ) (h : ∀ r, key (f r) = key r) (rs : List ρ)
    (mem : ∀ r ∈ rs, r ∈ t) (nodup : (rs.map key).Nodup) :
    (t.putAll (rs.map f)).rows = t.rows.map (fun s => if key s ∈ rs.map key then f s else s) := by
  induction rs generalizing t with
  | nil => simp
  | cons r rs ih =>
      simp only [List.map_cons, List.nodup_cons] at nodup
      have hr : r ∈ t := mem r (by simp)
      have first : (t.put (f r)).rows = t.rows.map (fun s => if key s = key r then f s else s) := by
        rw [rows_put_of_mem hr (h r).symm, h]
        apply List.map_congr_left
        intro s hs
        by_cases e : key s = key r
        · rw [if_pos e, if_pos e, eq_of_key_eq hs hr e]
        · rw [if_neg e, if_neg e]
      have rest : ∀ s ∈ rs, s ∈ t.put (f r) := by
        intro s hs
        refine mem_put_of_ne (mem s (by simp [hs])) ?_
        rw [h]
        exact fun e => nodup.1 (List.mem_map.mpr ⟨s, hs, e⟩)
      rw [List.map_cons, putAll_cons, ih _ rest nodup.2, first, List.map_map]
      apply List.map_congr_left
      intro s _
      by_cases e : key s = key r
      · simp only [Function.comp_apply, h, e, if_neg nodup.1, List.map_cons, List.mem_cons_self,
          if_true]
      · simp [e]

/-- Putting back each of the listed rows as `f` rewrites it is rewriting the listed keys in place. -/
theorem putAll_eq_modify (t : Table ρ) (f : ρ → ρ) (h : ∀ r, key (f r) = key r) (rs : List ρ)
    (mem : ∀ r ∈ rs, r ∈ t) (nodup : (rs.map key).Nodup)
    (others : ∀ r ∈ t, key r ∉ rs.map key → f r = r) :
    t.putAll (rs.map f) = t.modify f h := by
  apply ext
  rw [rows_putAll_map t f h rs mem nodup]
  apply List.map_congr_left
  intro r hr
  by_cases listed : key r ∈ rs.map key
  · rw [if_pos listed]
  · rw [if_neg listed, others r hr listed]

theorem rows_putAll_of_fresh (t : Table ρ) (rs : List ρ) (fresh : ∀ r ∈ rs, ∀ s ∈ t, key s ≠ key r)
    (nodup : (rs.map key).Nodup) : (t.putAll rs).rows = t.rows ++ rs := by
  induction rs generalizing t with
  | nil => simp
  | cons r rs ih =>
      simp only [List.map_cons, List.nodup_cons] at nodup
      have first := rows_put_of_fresh (fresh r (by simp))
      have rest : ∀ x ∈ rs, ∀ s ∈ t.put r, key s ≠ key x := by
        intro x hx s hs
        rcases mem_put.mp hs with rfl | ⟨hs, _⟩
        · exact fun e => nodup.1 (List.mem_map.mpr ⟨x, hx, e.symm⟩)
        · exact fresh x (by simp [hx]) s hs
      rw [putAll_cons, ih _ rest nodup.2, first]
      simp

end Table

end Relational
