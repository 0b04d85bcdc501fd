import SoapTypes.Proofs.Inheritance.Ancestors

/-!
# Families

The family of a declared root is what leads to it: the complex types from whose names the root is
reached by steps from a name to the base of its first declaration. It holds the root and is closed
under extension. A root that is not declared has no family, even if types extend it.
-/

namespace SoapTypes.Schema

/-- A complex type belongs to the family of a root if the root is declared and reached from its
name. -/
def InFamily (s : Schema) (root : String) (t : ComplexType) : Prop :=
  (∃ d ∈ s.complexTypes, d.name = root) ∧ Relation.ReflTransGen s.Extends t.name root

open Classical in
/-- The family is what remains of the complex types when the others are left out. -/
theorem family_eq_filter (s : Schema) (root : String) :
    s.family root = s.complexTypes.filter (fun t => s.InFamily root t) := by
  unfold family
  by_cases hroot : ∃ d ∈ s.complexTypes, d.name = root
  · rw [if_pos ((s.contains_index_iff root).2 hroot)]
    refine List.filter_congr fun t _ => ?_
    rw [Bool.eq_iff_iff, descendsFrom_iff_reflTransGen, decide_eq_true_iff]
    exact ⟨fun hreach => ⟨hroot, hreach⟩, fun hin => hin.2⟩
  · rw [if_neg (mt (s.contains_index_iff root).1 hroot)]
    symm
    rw [List.filter_eq_nil_iff]
    intro t _
    rw [decide_eq_true_iff]
    exact fun hin => hroot hin.1

theorem mem_family_iff {s : Schema} {root : String} {t : ComplexType} :
    t ∈ s.family root ↔ t ∈ s.complexTypes ∧ s.InFamily root t := by
  classical
  rw [family_eq_filter, List.mem_filter, decide_eq_true_iff]

/-- A name belongs to a family exactly if it is declared and leads to the declared root. -/
theorem mem_map_name_family_iff {s : Schema} {root name : String} :
    name ∈ (s.family root).map (·.name) ↔
      (∃ d ∈ s.complexTypes, d.name = root) ∧ (∃ t ∈ s.complexTypes, t.name = name) ∧
        Relation.ReflTransGen s.Extends name root := by
  rw [List.mem_map]
  constructor
  · rintro ⟨t, ht, rfl⟩
    obtain ⟨hmem, hroot, hreach⟩ := mem_family_iff.1 ht
    exact ⟨hroot, ⟨t, hmem, rfl⟩, hreach⟩
  · rintro ⟨hroot, ⟨t, hmem, rfl⟩, hreach⟩
    exact ⟨t, mem_family_iff.2 ⟨hmem, hroot, hreach⟩, rfl⟩

/-- A declared root belongs to its own family. -/
theorem root_mem_family {s : Schema} {root : String} (hroot : ∃ d ∈ s.complexTypes, d.name = root) :
    root ∈ (s.family root).map (·.name) :=
  mem_map_name_family_iff.2 ⟨hroot, hroot, .refl⟩

/-- What extends a member of a family belongs to the family. -/
theorem mem_family_of_extends {s : Schema} {root name base : String}
    (hextends : s.Extends name base) (hbase : base ∈ (s.family root).map (·.name)) :
    name ∈ (s.family root).map (·.name) := by
  obtain ⟨hroot, -, hreach⟩ := mem_map_name_family_iff.1 hbase
  obtain ⟨t, hmem, hname, -⟩ := hextends.exists_declaration
  exact mem_map_name_family_iff.2 ⟨hroot, ⟨t, hmem, hname⟩, hreach.head hextends⟩

/-- The names of a family are what remains of the names of the complex types. -/
theorem map_name_family {s : Schema} {root : String} (hroot : ∃ d ∈ s.complexTypes, d.name = root) :
    (s.family root).map (·.name) =
      (s.complexTypes.map (·.name)).filter (s.index.descendsFrom · root) := by
  unfold family
  rw [if_pos ((s.contains_index_iff root).2 hroot), List.filter_map]
  rfl

/-- A family holds all declarations of its names. -/
theorem count_map_name_family {s : Schema} {root name : String}
    (h : name ∈ (s.family root).map (·.name)) :
    ((s.family root).map (·.name)).count name = (s.complexTypes.map (·.name)).count name := by
  obtain ⟨hroot, -, hreach⟩ := mem_map_name_family_iff.1 h
  rw [map_name_family hroot]
  exact List.count_filter (descendsFrom_iff_reflTransGen.2 hreach)

/-- The family of a declared root grows from the root by extension. -/
theorem mem_map_name_family_iff_extends {s : Schema} {root : String}
    (hroot : ∃ d ∈ s.complexTypes, d.name = root) {name : String} :
    name ∈ (s.family root).map (·.name) ↔
      name = root ∨ ∃ base, s.Extends name base ∧ base ∈ (s.family root).map (·.name) := by
  constructor
  · intro h
    obtain ⟨-, -, hreach⟩ := mem_map_name_family_iff.1 h
    rcases hreach.cases_head with rfl | ⟨base, hextends, hrest⟩
    · exact Or.inl rfl
    · refine Or.inr ⟨base, hextends, ?_⟩
      rcases hrest.cases_head with rfl | ⟨above, habove, -⟩
      · exact root_mem_family hroot
      · obtain ⟨t, ht, hname, -⟩ := habove.exists_declaration
        exact mem_map_name_family_iff.2 ⟨hroot, ⟨t, ht, hname⟩, hrest⟩
  · rintro (rfl | ⟨base, hextends, hbase⟩)
    · exact root_mem_family hroot
    · exact mem_family_of_extends hextends hbase

end SoapTypes.Schema
