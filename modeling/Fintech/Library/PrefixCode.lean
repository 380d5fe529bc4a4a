import Mathlib.Data.List.Basic

/-!
# Prefix codes

An encoding by lists of symbols from which what is encoded and what follows it can be told apart. Pairs,
optional values, terminated lists and separated lists of such codes are such codes again.
-/

namespace Encoding

variable {α β γ : Type}

def PrefixCode (enc : α → List β) : Prop := ∀ a b s t, enc a ++ s = enc b ++ t → a = b ∧ s = t

/-- No code word begins with the symbol. -/
def Avoids (enc : α → List β) (x : β) : Prop := ∀ a s t, enc a ++ s ≠ x :: t

theorem prefixCode_of_decode {enc : α → List β} (decode : List β → Option (α × List β))
    (h : ∀ a s, decode (enc a ++ s) = some (a, s)) : PrefixCode enc := by
  intro a b s t same
  have read : some (a, s) = some (b, t) := by rw [← h, ← h, same]
  exact Prod.mk.inj (Option.some.inj read)

namespace PrefixCode
variable {enc : α → List β} {enc' : γ → List β} {stop sep : β}

theorem injective (h : PrefixCode enc) : Function.Injective enc := fun a b same =>
  (h a b [] [] (by rw [same])).1

theorem comp (h : PrefixCode enc) {f : γ → α} (inj : Function.Injective f) : PrefixCode fun c => enc (f c) := by
  intro a b s t same
  obtain ⟨equal, rest⟩ := h _ _ _ _ same
  exact ⟨inj equal, rest⟩

theorem cons (h : PrefixCode enc) (x : β) : PrefixCode fun a => x :: enc a := by
  intro a b s t same
  exact h a b s t (List.cons_inj_right x |>.mp same)

/-- Two codes with fixed symbols between them. -/
theorem pair (h : PrefixCode enc) (h' : PrefixCode enc') (between : List β) :
    PrefixCode fun p : α × γ => enc p.1 ++ between ++ enc' p.2 := by
  rintro ⟨a, c⟩ ⟨b, d⟩ s t same
  simp only [List.append_assoc] at same
  obtain ⟨rfl, rest⟩ := h _ _ _ _ same
  obtain ⟨rfl, after⟩ := h' _ _ _ _ (List.append_cancel_left rest)
  exact ⟨rfl, after⟩

/-- A word for `none` that begins as no code word does. -/
theorem option (h : PrefixCode enc) {x : β} (avoids : Avoids enc x) (xs : List β) :
    PrefixCode fun o : Option α => o.elim (x :: xs) enc := by
  rintro (_ | a) (_ | b) s t same
  · exact ⟨rfl, List.append_cancel_left same⟩
  · exact absurd same.symm (avoids b t _)
  · exact absurd same (avoids a s _)
  · obtain ⟨rfl, rest⟩ := h a b s t same
    exact ⟨rfl, rest⟩

theorem terminated (h : PrefixCode enc) (avoids : Avoids enc stop) :
    PrefixCode fun as : List α => as.flatMap enc ++ [stop] := by
  intro as
  induction as with
  | nil =>
      rintro (_ | ⟨b, bs⟩) s t same
      · exact ⟨rfl, List.append_cancel_left same⟩
      · simp only [List.flatMap_cons, List.append_assoc, List.flatMap_nil, List.nil_append, List.singleton_append] at same
        exact absurd same.symm (avoids b _ _)
  | cons a as ih =>
      rintro (_ | ⟨b, bs⟩) s t same
      · simp only [List.flatMap_cons, List.append_assoc, List.flatMap_nil, List.nil_append, List.singleton_append] at same
        exact absurd same (avoids a _ _)
      · simp only [List.flatMap_cons, List.append_assoc] at same
        obtain ⟨rfl, rest⟩ := h _ _ _ _ same
        obtain ⟨rfl, after⟩ := ih bs s t (by simpa using rest)
        exact ⟨rfl, after⟩

private theorem intercalate_step (enc : α → List β) (sep stop : β) (a : α) (as : List α) (s : List β) :
    [sep].intercalate ((a :: as).map enc) ++ [stop] ++ s = enc a ++
      (if as = [] then stop :: s else sep :: ([sep].intercalate (as.map enc) ++ [stop] ++ s)) := by
  cases as with
  | nil => simp [List.intercalate]
  | cons a' as => simp [List.intercalate]

theorem separated (h : PrefixCode enc) (avoids : Avoids enc stop) (ne : sep ≠ stop) :
    PrefixCode fun as : List α => [sep].intercalate (as.map enc) ++ [stop] := by
  intro as
  induction as with
  | nil =>
      rintro (_ | ⟨b, bs⟩) s t same
      · exact ⟨rfl, List.append_cancel_left same⟩
      · rw [intercalate_step] at same
        exact absurd same.symm (avoids b _ s)
  | cons a as ih =>
      rintro (_ | ⟨b, bs⟩) s t same
      · rw [intercalate_step] at same
        exact absurd same (avoids a _ t)
      · rw [intercalate_step, intercalate_step] at same
        obtain ⟨rfl, rest⟩ := h _ _ _ _ same
        by_cases last : as = [] <;> by_cases last' : bs = []
        · rw [if_pos last, if_pos last'] at rest
          exact ⟨by rw [last, last'], (List.cons.inj rest).2⟩
        · rw [if_pos last, if_neg last'] at rest
          exact absurd (List.cons.inj rest).1.symm ne
        · rw [if_neg last, if_pos last'] at rest
          exact absurd (List.cons.inj rest).1 ne
        · rw [if_neg last, if_neg last'] at rest
          obtain ⟨rfl, after⟩ := ih bs s t (List.cons.inj rest).2
          exact ⟨rfl, after⟩

end PrefixCode

end Encoding
