import Mathlib.Data.List.Sort
import Mathlib.Order.Basic

/-!
# Reading a list page by page

A request starts behind the cursor, takes one row more than its limit to see whether there are more, and
answers with the key of its last row as the next cursor. Rows may be inserted between two requests, as long
as they sort before the cursor: the reader still gets the rows of the start, each once and in order
(`read_complete`).
-/

namespace Paging

variable {α κ σ ι ε : Type} [DecidableEq κ]

/-! ## Rows in order -/

section
variable [LinearOrder σ] (stamp : α → σ)

def latestFirst (rows : List α) : List α := rows.insertionSort fun a b => stamp b ≤ stamp a

def earliestFirst (rows : List α) : List α := rows.insertionSort fun a b => stamp a ≤ stamp b

theorem mem_latestFirst {rows : List α} {a : α} : a ∈ latestFirst stamp rows ↔ a ∈ rows := List.mem_insertionSort _

/-- Rows with distinct stamps are in strict order. -/
theorem pairwise_latestFirst {rows : List α} (nodup : rows.Nodup)
    (inj : ∀ a ∈ rows, ∀ b ∈ rows, stamp a = stamp b → a = b) :
    (latestFirst stamp rows).Pairwise fun a b => stamp b < stamp a := by
  have total : Std.Total fun a b : α => stamp b ≤ stamp a := ⟨fun a b => le_total _ _⟩
  have trans : IsTrans α fun a b : α => stamp b ≤ stamp a := ⟨fun a b c h h' => h'.trans h⟩
  have sorted := List.pairwise_insertionSort (fun a b => stamp b ≤ stamp a) rows
  have distinct : (latestFirst stamp rows).Nodup := (List.perm_insertionSort _ rows).nodup_iff.mpr nodup
  refine (List.Pairwise.and sorted distinct).imp_of_mem fun {a b} ha hb h => ?_
  refine lt_of_le_of_ne h.1 fun same => h.2 ?_
  exact (inj _ ((mem_latestFirst stamp).mp hb) _ ((mem_latestFirst stamp).mp ha) same).symm

/-- The order of rows with distinct stamps does not depend on how they are stored. -/
theorem latestFirst_eq_of_mem_iff {rows rows' : List α} (nodup : rows.Nodup) (nodup' : rows'.Nodup)
    (inj : ∀ a ∈ rows, ∀ b ∈ rows, stamp a = stamp b → a = b) (same : ∀ a, a ∈ rows ↔ a ∈ rows') :
    latestFirst stamp rows = latestFirst stamp rows' := by
  have irrefl : Std.Irrefl fun a b : α => stamp b < stamp a := ⟨fun a => lt_irrefl _⟩
  have antisymm : Std.Antisymm fun a b : α => stamp b < stamp a := ⟨fun a b lt lt' => absurd lt lt'.asymm⟩
  have inj' : ∀ a ∈ rows', ∀ b ∈ rows', stamp a = stamp b → a = b := fun a ha b hb =>
    inj a ((same a).mpr ha) b ((same b).mpr hb)
  apply List.Pairwise.eq_of_mem_iff (pairwise_latestFirst stamp nodup inj) (pairwise_latestFirst stamp nodup' inj')
  intro a
  rw [mem_latestFirst, mem_latestFirst, same]

theorem earliestFirst_eq_of_mem_iff {rows rows' : List α} (nodup : rows.Nodup) (nodup' : rows'.Nodup)
    (inj : ∀ a ∈ rows, ∀ b ∈ rows, stamp a = stamp b → a = b) (same : ∀ a, a ∈ rows ↔ a ∈ rows') :
    earliestFirst stamp rows = earliestFirst stamp rows' :=
  latestFirst_eq_of_mem_iff (fun a => OrderDual.toDual (stamp a)) nodup nodup' inj same

end

/-! ## Requests -/

structure Page (ι κ : Type) where
  items : List ι
  nextCursor : Option κ
  deriving DecidableEq

def Page.map (respond : α → ι) (p : Page α κ) : Page ι κ := ⟨p.items.map respond, p.nextCursor⟩

section
variable (key : α → κ)

/-- The rows behind the cursor row; with no such row there are none. -/
def behind (rows : List α) : Option κ → List α
  | none => rows
  | some k => (rows.dropWhile fun r => key r ≠ k).drop 1

/-- The page of a request that looks one row ahead. -/
def page (rows : List α) (limit : Nat) (cursor : Option κ) : Page α κ :=
  let found := (behind key rows cursor).take (limit + 1)
  let items := found.take limit
  { items, nextCursor := if limit < found.length then items.getLast?.map key else none }

theorem page_items (rows : List α) (limit : Nat) (cursor : Option κ) :
    (page key rows limit cursor).items = (behind key rows cursor).take limit := by
  simp [page, List.take_take]

/-- Without a next cursor the page has all that was left. -/
theorem page_last {rows : List α} {limit : Nat} {cursor : Option κ} (positive : 1 ≤ limit)
    (h : (page key rows limit cursor).nextCursor = none) : (page key rows limit cursor).items = behind key rows cursor := by
  rw [page_items]
  apply List.take_of_length_le
  by_contra more
  rw [not_le] at more
  have ahead : limit < ((behind key rows cursor).take (limit + 1)).length := by
    rw [List.length_take]
    omega
  simp only [page, if_pos ahead, Option.map_eq_none_iff, List.getLast?_eq_none_iff, List.take_take] at h
  have none_left := congrArg List.length h
  rw [List.length_take, List.length_nil] at none_left
  omega

/-- The next cursor is the key of the page's last row, and something is left behind it. -/
theorem page_next {rows : List α} {limit : Nat} {cursor : Option κ} {k : κ}
    (h : (page key rows limit cursor).nextCursor = some k) : ∃ front last rest,
      (page key rows limit cursor).items = front ++ [last] ∧ key last = k ∧
        behind key rows cursor = front ++ last :: rest := by
  have items := page_items key rows limit cursor
  simp only [page] at h
  split at h
  · rw [Option.map_eq_some_iff] at h
    obtain ⟨last, found, rfl⟩ := h
    obtain ⟨front, shown⟩ := List.getLast?_eq_some_iff.mp found
    rw [List.take_take, Nat.min_eq_left (Nat.le_succ limit)] at shown
    refine ⟨front, last, (behind key rows cursor).drop limit, items.trans shown, rfl, ?_⟩
    conv_lhs => rw [← List.take_append_drop limit (behind key rows cursor), shown]
    simp
  · cases h

end

/-! ## What is behind a row -/

theorem behind_suffix (key : α → κ) (rows : List α) (cursor : Option κ) : behind key rows cursor <:+ rows := by
  cases cursor with
  | none => exact List.suffix_refl rows
  | some k => exact (List.drop_suffix _ _).trans (List.dropWhile_suffix _)

section
variable [LinearOrder σ] {stamp : α → σ} {key : α → κ} {rows rows' : List α}

/-- Rows by descending stamp, known by their keys. -/
structure Listing (stamp : α → σ) (key : α → κ) (rows : List α) : Prop where
  sorted : rows.Pairwise fun a b => stamp b < stamp a
  distinct : ∀ a ∈ rows, ∀ b ∈ rows, key a = key b → a = b

theorem Listing.behind_eq {front rest : List α} {c : α} (h : Listing stamp key (front ++ c :: rest)) :
    behind key (front ++ c :: rest) (some (key c)) = rest := by
  have others : ∀ r ∈ front, key r ≠ key c := by
    intro r hr same
    have equal := h.distinct r (by simp [hr]) c (by simp) same
    have before := (List.pairwise_append.mp h.sorted).2.2 r hr c (by simp)
    rw [equal] at before
    exact lt_irrefl _ before
  rw [behind, List.dropWhile_append_of_pos (by simpa using others)]
  simp

/-- Behind a row are the rows with a lesser stamp. -/
theorem Listing.mem_behind (h : Listing stamp key rows) {c : α} (mem : c ∈ rows) {r : α} :
    r ∈ behind key rows (some (key c)) ↔ r ∈ rows ∧ stamp r < stamp c := by
  obtain ⟨front, rest, rfl⟩ := List.append_of_mem mem
  obtain ⟨_, sorted, before⟩ := List.pairwise_append.mp h.sorted
  have after := (List.pairwise_cons.mp sorted).1
  rw [h.behind_eq]
  constructor
  · intro hr
    exact ⟨by simp [hr], after r hr⟩
  · rintro ⟨hr, lt⟩
    rcases List.mem_append.mp hr with hr | hr
    · exact absurd (before r hr c (by simp)) lt.asymm
    · rcases List.mem_cons.mp hr with rfl | hr
      · exact absurd lt (lt_irrefl _)
      · exact hr

variable (stamp) in
/-- The later rows are the earlier ones with rows inserted that sort before the row `c`. -/
structure Inserted (c : α) (rows rows' : List α) : Prop where
  kept : ∀ r ∈ rows, r ∈ rows'
  new : ∀ r ∈ rows', r ∈ rows ∨ stamp c < stamp r

/-- What is behind the row stays what it was. -/
theorem Inserted.behind_eq {c : α} (h : Inserted stamp c rows rows') (listing : Listing stamp key rows)
    (listing' : Listing stamp key rows') (mem : c ∈ rows) :
    behind key rows' (some (key c)) = behind key rows (some (key c)) := by
  have irrefl : Std.Irrefl fun a b : α => stamp b < stamp a := ⟨fun a => lt_irrefl _⟩
  have antisymm : Std.Antisymm fun a b : α => stamp b < stamp a := ⟨fun a b lt lt' => absurd lt lt'.asymm⟩
  apply List.Pairwise.eq_of_mem_iff (listing'.sorted.sublist (behind_suffix _ _ _).sublist)
    (listing.sorted.sublist (behind_suffix _ _ _).sublist)
  intro r
  rw [listing.mem_behind mem, listing'.mem_behind (h.kept c mem)]
  refine and_congr_left fun lt => ⟨fun hr => ?_, h.kept r⟩
  rcases h.new r hr with old | before
  · exact old
  · exact absurd before lt.asymm

end

/-! ## Reading to the end -/

inductive Reader (ι κ ε : Type)
  | reading (cursor : Option κ) (items : List ι)
  | finished (items : List ι)
  | failed (e : ε)

/-- The reader after `n` requests; request `n` is answered by `serve n`. -/
def read (serve : Nat → Option κ → Except ε (Page ι κ)) : Nat → Reader ι κ ε
  | 0 => .reading none []
  | n + 1 =>
      match read serve n with
      | .reading cursor items =>
          match serve n cursor with
          | .error e => .failed e
          | .ok page =>
              match page.nextCursor with
              | none => .finished (items ++ page.items)
              | some k => .reading (some k) (items ++ page.items)
      | stopped => stopped

/-- What the requests are answered from: the rows of each moment in order, looked at one row ahead. -/
structure Serves [LinearOrder σ] (stamp : α → σ) (key : α → κ) (rows : Nat → List α) (limits : Nat → Nat)
    (respond : Nat → α → ι) (serve : Nat → Option κ → Except ε (Page ι κ)) : Prop where
  listing : ∀ n, Listing stamp key (rows n)
  positive : ∀ n, 1 ≤ limits n
  answer : ∀ n cursor, (∀ k, cursor = some k → ∃ c ∈ rows n, key c = k) →
    serve n cursor = .ok ((page key (rows n) (limits n) cursor).map (respond n))
  inserted : ∀ n k items, read serve (n + 1) = .reading (some k) items → ∀ c ∈ rows n, key c = k →
    Inserted stamp c (rows n) (rows (n + 1))

/-- Each row has been answered with, at one of the requests. -/
abbrev Answered (respond : Nat → α → ι) : List α → List ι → Prop :=
  List.Forall₂ fun row item => ∃ n, item = respond n row

omit [DecidableEq κ] in
theorem answered_map (respond : Nat → α → ι) (n : Nat) (rows : List α) : Answered respond rows (rows.map (respond n)) := by
  rw [Answered, List.forall₂_map_right_iff, List.forall₂_same]
  exact fun row _ => ⟨n, rfl⟩

section
variable [LinearOrder σ] {stamp : α → σ} {key : α → κ} {rows : Nat → List α} {limits : Nat → Nat}
  {respond : Nat → α → ι} {serve : Nat → Option κ → Except ε (Page ι κ)}

variable (key rows respond) in
/-- The rows of the start are those answered with and those behind the cursor. -/
structure Covered (n : Nat) (cursor : Option κ) (items : List ι) (done : List α) : Prop where
  split : rows 0 = done ++ behind key (rows n) cursor
  answered : Answered respond done items
  known : ∀ k, cursor = some k → ∃ c ∈ rows n, key c = k
  progress : n ≤ done.length

/-- One request: the reader is finished with all rows, or has come further. -/
theorem Serves.step (h : Serves stamp key rows limits respond serve) {n : Nat} {cursor : Option κ} {items : List ι}
    {done : List α} (now : read serve n = .reading cursor items) (covered : Covered key rows respond n cursor items done) :
    (∃ all, read serve (n + 1) = .finished all ∧ Answered respond (rows 0) all) ∨
      ∃ k items' done', read serve (n + 1) = .reading (some k) items' ∧
        Covered key rows respond (n + 1) (some k) items' done' := by
  have answer := h.answer n cursor covered.known
  cases next : (page key (rows n) (limits n) cursor).nextCursor with
  | none =>
      refine .inl ⟨_, by simp only [read, now, answer, Page.map, next]; rfl, ?_⟩
      rw [page_last key (h.positive n) next, covered.split]
      exact List.rel_append covered.answered (answered_map respond n _)
  | some k =>
      have later : read serve (n + 1) =
          .reading (some k) (items ++ (page key (rows n) (limits n) cursor).items.map (respond n)) := by
        simp only [read, now, answer, Page.map, next]
      obtain ⟨front, last, rest, shown, rfl, left⟩ := page_next key next
      obtain ⟨before, all⟩ := behind_suffix key (rows n) cursor
      rw [left, ← List.append_assoc] at all
      have mem : last ∈ rows n := by simp [← all]
      have inserted := h.inserted n _ _ later last mem rfl
      refine .inr ⟨key last, _, done ++ (front ++ [last]), later, ?_⟩
      refine ⟨?_, ?_, fun k e => ⟨last, inserted.kept last mem, by simpa using e⟩, ?_⟩
      · have listing : Listing stamp key (before ++ front ++ last :: rest) := all ▸ h.listing n
        rw [inserted.behind_eq (h.listing n) (h.listing (n + 1)) mem, covered.split, left, ← all, listing.behind_eq]
        simp
      · rw [shown]
        exact List.rel_append covered.answered (answered_map respond n _)
      · have progress := covered.progress
        simp only [List.length_append, List.length_singleton]
        omega

/-- Following the cursors ends, and the answers are the rows of the start, each once and in order. -/
theorem Serves.read_complete (h : Serves stamp key rows limits respond serve) :
    ∃ n ≤ (rows 0).length + 1, ∃ items, read serve n = .finished items ∧ Answered respond (rows 0) items := by
  have run (n : Nat) : (∃ m ≤ n, ∃ items, read serve m = .finished items ∧ Answered respond (rows 0) items) ∨
      ∃ cursor items done, read serve n = .reading cursor items ∧ Covered key rows respond n cursor items done := by
    induction n with
    | zero => exact .inr ⟨none, [], [], rfl, rfl, .nil, by simp, le_rfl⟩
    | succ n ih =>
        rcases ih with ⟨m, le, finished⟩ | ⟨cursor, items, done, now, covered⟩
        · exact .inl ⟨m, le.trans (Nat.le_succ n), finished⟩
        · rcases h.step now covered with finished | ⟨k, items', done', later⟩
          · exact .inl ⟨n + 1, le_rfl, finished⟩
          · exact .inr ⟨some k, items', done', later⟩
  rcases run ((rows 0).length + 1) with finished | ⟨cursor, items, done, _, covered⟩
  · exact finished
  · have progress := covered.progress
    have length := congrArg List.length covered.split
    rw [List.length_append] at length
    omega

end

end Paging
