/-!
# First members

The first member of a list with a property, said by what stands before it. Searches that give an
answer for each member with the property end in the answer of the first one.
-/

namespace SoapTypes

/-- A member of the list has the property and no member before it has. -/
def FirstOf {α : Type} (p : α → Prop) (xs : List α) (a : α) : Prop :=
  ∃ before after, xs = before ++ a :: after ∧ p a ∧ ∀ b ∈ before, ¬ p b

namespace FirstOf

variable {α β : Type} {p : α → Prop} {xs : List α} {a : α}

theorem mem (h : FirstOf p xs a) : a ∈ xs := by
  obtain ⟨before, after, rfl, -, -⟩ := h
  simp

theorem holds (h : FirstOf p xs a) : p a := by
  obtain ⟨_, _, -, ha, -⟩ := h
  exact ha

end FirstOf

/-- A list that has a member with the property has a first one. -/
theorem exists_firstOf_iff {α : Type} {p : α → Prop} {xs : List α} :
    (∃ a, FirstOf p xs a) ↔ ∃ a ∈ xs, p a := by
  constructor
  · rintro ⟨a, hfirst⟩
    exact ⟨a, hfirst.mem, hfirst.holds⟩
  · rintro ⟨a, ha, hpa⟩
    induction xs with
    | nil => cases ha
    | cons x xs ih =>
      by_cases hpx : p x
      · exact ⟨x, [], xs, rfl, hpx, by simp⟩
      · rcases List.mem_cons.1 ha with rfl | ha
        · exact absurd hpa hpx
        · obtain ⟨b, before, after, rfl, hpb, hbefore⟩ := ih ha
          refine ⟨b, x :: before, after, rfl, hpb, fun y hy => ?_⟩
          rcases List.mem_cons.1 hy with rfl | hy
          · exact hpx
          · exact hbefore y hy

/-- A search for a property ends in the first member that has it. -/
theorem find?_eq_some_iff_firstOf {α : Type} {p : α → Prop} {q : α → Bool} {xs : List α}
    (hp : ∀ a ∈ xs, p a ↔ q a = true) {a : α} : xs.find? q = some a ↔ FirstOf p xs a := by
  rw [List.find?_eq_some_iff_append]
  constructor
  · rintro ⟨ha, before, after, rfl, hbefore⟩
    refine ⟨before, after, rfl, (hp a (by simp)).2 ha, fun b hb hpb => ?_⟩
    have hno := hbefore b hb
    rw [(hp b (by simp [hb])).1 hpb] at hno
    cases hno
  · rintro ⟨before, after, rfl, ha, hbefore⟩
    refine ⟨(hp a (by simp)).1 ha, before, after, rfl, fun b hb => ?_⟩
    rw [Bool.not_eq_true', ← Bool.not_eq_true, ← hp b (by simp [hb])]
    exact hbefore b hb

/-- A search among the values that members give ends in the value of the first member that gives one
with the property. -/
theorem find?_filterMap_eq_some_iff_firstOf {α β : Type} {p : α → Prop} {f : α → Option β}
    {q : β → Bool} {xs : List α} (hp : ∀ a ∈ xs, p a ↔ ∃ b, f a = some b ∧ q b = true) {b : β} :
    (xs.filterMap f).find? q = some b ↔ ∃ a, FirstOf p xs a ∧ f a = some b := by
  have hany : ∀ a ∈ xs, p a ↔ (f a).any q = true := fun a ha => by
    rw [hp a ha, Option.any_eq_true]
  simp only [List.find?_filterMap, Option.bind_eq_some_iff, find?_eq_some_iff_firstOf hany]

/-- A search ends in the answer of the first member that has one. -/
theorem findSome?_eq_some_iff_firstOf {α β : Type} {p : α → Prop} {f : α → Option β} {xs : List α}
    (hp : ∀ a ∈ xs, p a ↔ ∃ b, f a = some b) {b : β} :
    xs.findSome? f = some b ↔ ∃ a, FirstOf p xs a ∧ f a = some b := by
  rw [List.findSome?_eq_some_iff]
  constructor
  · rintro ⟨before, a, after, rfl, ha, hbefore⟩
    refine ⟨a, ⟨before, after, rfl, (hp a (by simp)).2 ⟨b, ha⟩, fun x hx hpx => ?_⟩, ha⟩
    obtain ⟨c, hc⟩ := (hp x (by simp [hx])).1 hpx
    rw [hbefore x hx] at hc
    cases hc
  · rintro ⟨a, ⟨before, after, rfl, -, hbefore⟩, ha⟩
    refine ⟨before, a, after, rfl, ha, fun x hx => ?_⟩
    cases hx' : f x with
    | none => rfl
    | some c => exact absurd ((hp x (by simp [hx])).2 ⟨c, hx'⟩) (hbefore x hx)

/-- A search finds nothing exactly if no member has an answer. -/
theorem findSome?_eq_none_iff_forall {α β : Type} {p : α → Prop} {f : α → Option β} {xs : List α}
    (hp : ∀ a ∈ xs, p a ↔ ∃ b, f a = some b) :
    xs.findSome? f = none ↔ ∀ a ∈ xs, ¬ p a := by
  rw [List.findSome?_eq_none_iff]
  constructor
  · intro hnone a ha hpa
    obtain ⟨b, hb⟩ := (hp a ha).1 hpa
    rw [hnone a ha] at hb
    cases hb
  · intro hno a ha
    cases hfa : f a with
    | none => rfl
    | some b => exact absurd ((hp a ha).2 ⟨b, hfa⟩) (hno a ha)

end SoapTypes
