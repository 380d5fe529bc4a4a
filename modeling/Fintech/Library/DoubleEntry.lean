import Mathlib.Algebra.BigOperators.Group.List.Basic
import Mathlib.Algebra.BigOperators.Group.List.Lemmas
import Mathlib.Algebra.Order.BigOperators.Group.List
import Mathlib.Algebra.Order.Group.Defs
import Mathlib.Data.List.Nodup

/-!
# Double-entry bookkeeping

Entries move amounts on accounts and belong to transactions. `total` is what a list of entries adds
up to under one key: the balance of an account, or the total of a transaction. When every
transaction is balanced and no entry leaves a group of accounts, the balances of the group sum to
zero (`conserved`).
-/

namespace DoubleEntry

variable {ε κ α τ M : Type} [DecidableEq κ] [DecidableEq α] [DecidableEq τ] [AddCommMonoid M]

def total (key : ε → κ) (amount : ε → M) (entries : List ε) (k : κ) : M :=
  (entries.map fun e => if key e = k then amount e else 0).sum

variable {key : ε → κ} {amount : ε → M} {entries : List ε} {k : κ}

@[simp] theorem total_nil : total key amount [] k = 0 := rfl

@[simp] theorem total_cons (e : ε) :
    total key amount (e :: entries) k = (if key e = k then amount e else 0) + total key amount entries k := by
  simp [total]

@[simp] theorem total_append (more : List ε) :
    total key amount (entries ++ more) k = total key amount entries k + total key amount more k := by
  simp [total]

theorem total_eq_sum_filter : total key amount entries k = ((entries.filter fun e => key e = k).map amount).sum := by
  induction entries with
  | nil => rfl
  | cons e entries ih =>
      rw [total_cons, ih, List.filter_cons]
      by_cases h : key e = k <;> simp [h]

/-- A total depends on the keys and amounts only. -/
theorem total_map : total Prod.fst Prod.snd (entries.map fun e => (key e, amount e)) k = total key amount entries k := by
  simp [total, Function.comp_def]

theorem total_of_not_mem (h : k ∉ entries.map key) : total key amount entries k = 0 := by
  induction entries with
  | nil => rfl
  | cons e entries ih =>
      simp only [List.map_cons, List.mem_cons, not_or] at h
      rw [total_cons, if_neg (Ne.symm h.1), ih h.2, add_zero]

/-- An entry that is alone under its key makes up the whole total. -/
theorem total_of_mem (nodup : (entries.map key).Nodup) {e : ε} (h : e ∈ entries) :
    total key amount entries (key e) = amount e := by
  induction entries with
  | nil => simp at h
  | cons x entries ih =>
      simp only [List.map_cons, List.nodup_cons] at nodup
      rw [total_cons]
      rcases List.mem_cons.mp h with rfl | h
      · rw [if_pos rfl, total_of_not_mem nodup.1, add_zero]
      · have other : key x ≠ key e := fun same => nodup.1 (List.mem_map.mpr ⟨e, h, same.symm⟩)
        rw [if_neg other, ih nodup.2 h, zero_add]

/-- Entries that move nothing do not count. -/
theorem total_filter [DecidableEq M] : total key amount (entries.filter fun e => amount e ≠ 0) k = total key amount entries k := by
  induction entries with
  | nil => rfl
  | cons e entries ih =>
      rw [List.filter_cons, total_cons, ← ih]
      by_cases h : amount e = 0 <;> simp [h]

theorem sum_ite_mem {keys : List κ} (nodup : keys.Nodup) (k : κ) (x : M) :
    (keys.map fun k' => if k = k' then x else 0).sum = if k ∈ keys then x else 0 := by
  induction keys with
  | nil => simp
  | cons k' keys ih =>
      simp only [List.nodup_cons] at nodup
      rw [List.map_cons, List.sum_cons, ih nodup.2]
      by_cases same : k = k'
      · subst same
        simp [nodup.1]
      · simp [same]

/-- The totals under distinct keys add up to the entries that have one of them. -/
theorem sum_total {keys : List κ} (nodup : keys.Nodup) :
    (keys.map (total key amount entries)).sum = (entries.map fun e => if key e ∈ keys then amount e else 0).sum := by
  induction entries with
  | nil =>
      apply List.sum_eq_zero
      simp
  | cons e entries ih =>
      have split : keys.map (total key amount (e :: entries)) =
          keys.map (fun k => (if key e = k then amount e else 0) + total key amount entries k) :=
        List.map_congr_left fun k _ => total_cons e
      rw [split, List.sum_map_add, ih, sum_ite_mem nodup, List.map_cons, List.sum_cons]

theorem conserved {accounts : List α} {transactions : List τ} (distinct : accounts.Nodup)
    (distinct' : transactions.Nodup) {account : ε → α} {transaction : ε → τ}
    (closed : ∀ e ∈ entries, account e ∈ accounts ↔ transaction e ∈ transactions)
    (balanced : ∀ t ∈ transactions, total transaction amount entries t = 0) :
    (accounts.map (total account amount entries)).sum = 0 := by
  have regroup : (accounts.map (total account amount entries)).sum =
      (transactions.map (total transaction amount entries)).sum := by
    rw [sum_total distinct, sum_total distinct']
    congr 1
    apply List.map_congr_left
    intro e he
    simp only [closed e he]
  rw [regroup]
  apply List.sum_eq_zero
  intro x hx
  obtain ⟨t, ht, rfl⟩ := List.mem_map.mp hx
  exact balanced t ht

/-- Where the balances cancel out and only one account is overdrawn, two others hold no more than it owes. -/
theorem add_le_neg_of_sum_eq_zero {M : Type} [AddCommGroup M] [PartialOrder M] [IsOrderedAddMonoid M] {accounts : List α}
    (distinct : accounts.Nodup) {balance : α → M} (cancel : (accounts.map balance).sum = 0) {debtor a b : α}
    (solvent : ∀ c ∈ accounts, c ≠ debtor → 0 ≤ balance c) (hd : debtor ∈ accounts) (ha : a ∈ accounts) (hb : b ∈ accounts)
    (ad : a ≠ debtor) (bd : b ≠ debtor) (ab : a ≠ b) : balance a + balance b ≤ -balance debtor := by
  have ha' : a ∈ accounts.erase debtor := (List.mem_erase_of_ne ad).mpr ha
  have hb' : b ∈ (accounts.erase debtor).erase a := (List.mem_erase_of_ne ab.symm).mpr ((List.mem_erase_of_ne bd).mpr hb)
  have split : accounts.Perm (debtor :: a :: b :: ((accounts.erase debtor).erase a).erase b) :=
    (List.perm_cons_erase hd).trans (((List.perm_cons_erase ha').trans ((List.perm_cons_erase hb').cons a)).cons debtor)
  have others : 0 ≤ ((((accounts.erase debtor).erase a).erase b).map balance).sum := by
    apply List.sum_nonneg
    intro x hx
    obtain ⟨c, hc, rfl⟩ := List.mem_map.mp hx
    have left := (distinct.mem_erase_iff).mp (List.mem_of_mem_erase (List.mem_of_mem_erase hc))
    exact solvent c left.2 left.1
  rw [(split.map balance).sum_eq, List.map_cons, List.map_cons, List.map_cons, List.sum_cons, List.sum_cons,
    List.sum_cons] at cancel
  calc balance a + balance b
      ≤ balance a + balance b + ((((accounts.erase debtor).erase a).erase b).map balance).sum := le_add_of_nonneg_right others
    _ = -balance debtor := by rw [add_assoc, eq_neg_of_add_eq_zero_right cancel]

end DoubleEntry
