import Mathlib.Data.List.TakeWhile

/-!
# Spans

The longest part at the start of a list whose members all have a property, and what is behind it. A
list that is put together from such a part and from a rest that does not go on with the property is
divided there again.
-/

namespace SoapTypes

variable {α : Type} {p : α → Bool} {xs rest : List α} {a : α}

/-- Taking members stops at the first that is not wanted. -/
theorem takeWhile_append_cons (hxs : ∀ x ∈ xs, p x = true) (ha : p a = false) :
    (xs ++ a :: rest).takeWhile p = xs := by
  rw [List.takeWhile_append_of_pos hxs, List.takeWhile_cons_of_neg (by simp [ha]), List.append_nil]

/-- Dropping members stops at the first that is not wanted. -/
theorem dropWhile_append_cons (hxs : ∀ x ∈ xs, p x = true) (ha : p a = false) :
    (xs ++ a :: rest).dropWhile p = a :: rest := by
  rw [List.dropWhile_append_of_pos hxs, List.dropWhile_cons_of_neg (by simp [ha])]

/-- Dropping members divides a list where it stops. -/
theorem eq_append_of_dropWhile (h : xs.dropWhile p = a :: rest) :
    xs = xs.takeWhile p ++ a :: rest ∧ (∀ x ∈ xs.takeWhile p, p x = true) ∧ p a = false := by
  have hsplit := List.takeWhile_append_dropWhile (p := p) (l := xs)
  have hstop := List.head?_dropWhile_not p xs
  rw [h] at hsplit hstop
  exact ⟨hsplit.symm, fun x hx => List.mem_takeWhile_imp hx, by simpa using hstop⟩

/-- Dropping members leaves what is behind some of them and does not start with one. -/
theorem dropWhile_eq_iff :
    xs.dropWhile p = rest ↔ (∀ y ∈ rest.head?, p y = false) ∧
      ∃ before, (∀ x ∈ before, p x = true) ∧ xs = before ++ rest := by
  constructor
  · rintro rfl
    refine ⟨fun y hy => ?_, xs.takeWhile p, fun x hx => List.mem_takeWhile_imp hx,
      List.takeWhile_append_dropWhile.symm⟩
    have hstop := List.head?_dropWhile_not p xs
    rw [Option.mem_def.1 hy] at hstop
    simpa using hstop
  · rintro ⟨hrest, before, hbefore, rfl⟩
    cases rest with
    | nil => simpa using hbefore
    | cons y ys => exact dropWhile_append_cons hbefore (hrest y rfl)

end SoapTypes
