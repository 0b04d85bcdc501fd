import SoapTypes.Proofs.FirstMember
import SoapTypes.Schema.Index

/-!
# The index of a schema

A name can be looked up in two ways: in the list of the complex types, from left to right, and in
the index that is made of them. Both find the first declaration of the name, so it does not matter
which of them a step goes by when a name is declared more than once.
-/

namespace SoapTypes.Schema

/-- The index finds the first declaration of a name among the types inserted so far. -/
private theorem getElem?_foldl_insertIfNew (types : List ComplexType)
    (m : Std.TreeMap String ComplexType) (name : String) :
    (types.foldl (fun m t => m.insertIfNew t.name t) m)[name]? =
      m[name]?.or (types.find? (·.name == name)) := by
  induction types generalizing m with
  | nil => simp
  | cons t ts ih =>
    rw [List.foldl_cons, ih, Std.TreeMap.getElem?_insertIfNew, List.find?_cons]
    by_cases hname : t.name = name
    · subst hname
      by_cases hmem : t.name ∈ m
      · simp [hmem]
      · simp [hmem]
    · have hne : (t.name == name) = false := beq_eq_false_iff_ne.2 hname
      simp [hname, hne]

/-- A look-up in the index gives the first declaration of the name. -/
theorem get?_index (s : Schema) (name : String) : s.index.get? name = s.complexType? name := by
  simp only [TypeIndex.get?, index, complexType?, getElem?_foldl_insertIfNew]
  simp

/-- The declaration that is found for a name is one of the declarations of that name. -/
theorem mem_of_complexType?_eq_some {s : Schema} {name : String} {t : ComplexType}
    (h : s.complexType? name = some t) : t ∈ s.complexTypes ∧ t.name = name :=
  ⟨List.mem_of_find?_eq_some h, by simpa using List.find?_some h⟩

/-- A name that is declared has a first declaration. -/
theorem exists_complexType?_of_mem {s : Schema} {t : ComplexType} (ht : t ∈ s.complexTypes) :
    ∃ u ∈ s.complexTypes, u.name = t.name ∧ s.complexType? t.name = some u := by
  have hsome : (s.complexType? t.name).isSome = true := by
    rw [complexType?, List.find?_isSome]
    exact ⟨t, ht, beq_self_eq_true _⟩
  obtain ⟨u, hu⟩ := Option.isSome_iff_exists.1 hsome
  obtain ⟨hmem, hname⟩ := mem_of_complexType?_eq_some hu
  exact ⟨u, hmem, hname, hu⟩

/-- The index holds the names that are declared. -/
theorem contains_index (s : Schema) (name : String) :
    s.index.contains name = (s.complexType? name).isSome := by
  rw [← get?_index, TypeIndex.get?, TypeIndex.contains]
  exact Std.TreeMap.contains_eq_isSome_getElem?

/-- The index holds exactly the names of the complex types. -/
theorem contains_index_iff (s : Schema) (name : String) :
    s.index.contains name = true ↔ ∃ t ∈ s.complexTypes, t.name = name := by
  rw [contains_index, complexType?, List.find?_isSome]
  simp only [beq_iff_eq]

/-- A look-up finds the declaration that no other one of the same name stands before. -/
theorem complexType?_eq_some_iff_firstOf {s : Schema} {name : String} {t : ComplexType} :
    s.complexType? name = some t ↔ FirstOf (·.name = name) s.complexTypes t :=
  find?_eq_some_iff_firstOf fun _ _ => beq_iff_eq.symm

/-- **Two look-ups.** Whatever the declarations are, the index gives for a name what the list gives,
which is the first declaration of the name with all that belongs to it, and the index holds the name
exactly if there is one. -/
theorem index_agrees (s : Schema) (name : String) :
    s.index.get? name = s.complexType? name ∧
      (∀ t, s.index.get? name = some t ↔ FirstOf (·.name = name) s.complexTypes t) ∧
      (s.index.contains name = true ↔ ∃ t, s.complexType? name = some t) := by
  refine ⟨s.get?_index name, fun t => ?_, ?_⟩
  · rw [get?_index, complexType?_eq_some_iff_firstOf]
  · rw [contains_index, Option.isSome_iff_exists]

end SoapTypes.Schema
