import SoapTypes.Proofs.Inheritance.Family
import SoapTypes.Proofs.Inheritance.Soundness

/-!
# Declarations in another order

The order of declarations decides only which declaration of a name is the first one. Where each
name is declared once, the base of a name does not depend on the order, and all that is said about
inheritance is said through bases and through which types are declared. So validation comes to the
same kind of result, and ancestors and families stay the same.
-/

namespace SoapTypes.Schema

/-- Among distinct names a look-up finds a type exactly if the type is declared under the name. -/
theorem complexType?_eq_some_iff {s : Schema} (hdistinct : (s.complexTypes.map (·.name)).Nodup)
    {name : String} {t : ComplexType} :
    s.complexType? name = some t ↔ t ∈ s.complexTypes ∧ t.name = name := by
  constructor
  · exact mem_of_complexType?_eq_some
  · rintro ⟨ht, rfl⟩
    exact complexType?_name_of_nodup hdistinct ht

section Reordered

variable {s s' : Schema} (hdistinct : (s.complexTypes.map (·.name)).Nodup)
  (hperm : s'.complexTypes.Perm s.complexTypes)

include hperm

/-- Which types lack a base does not depend on the order, whatever their names are. -/
theorem lacksBase_of_perm : s'.LacksBase = s.LacksBase := by
  funext t
  simp only [LacksBase, hperm.mem_iff]

include hdistinct

theorem complexType?_of_perm (name : String) : s'.complexType? name = s.complexType? name := by
  have hdistinct' : (s'.complexTypes.map (·.name)).Nodup :=
    (hperm.map (·.name)).nodup_iff.2 hdistinct
  ext t
  rw [complexType?_eq_some_iff hdistinct, complexType?_eq_some_iff hdistinct', hperm.mem_iff]

theorem baseOf_of_perm : s'.baseOf = s.baseOf := by
  funext name
  rw [baseOf, baseOf, complexType?_of_perm hdistinct hperm]

/-- The lineage of a type is made of bases, so it does not depend on the order either. -/
theorem lineage_of_perm (name : String) (base : Option String) (k : ℕ) :
    s'.lineage name base k = s.lineage name base k := by
  induction k using Nat.strong_induction_on with
  | _ k ih =>
    match k with
    | 0 => rfl
    | 1 => rfl
    | k + 2 => rw [lineage, lineage, ih (k + 1) (by omega), baseOf_of_perm hdistinct hperm]

theorem repeatsName_of_perm : s'.RepeatsName = s.RepeatsName := by
  funext t
  simp only [RepeatsName, lineage_of_perm hdistinct hperm]

/-- The ancestors of a name trace its lineage, in which the order has no part. -/
theorem ancestors_of_perm (name : String) :
    s'.index.ancestors name = s.index.ancestors name := by
  obtain ⟨hfollows, hnodup, hstops⟩ := s'.traces_ancestors name
  have htrace : s.Traces name (s.baseOf name) (name :: s'.index.ancestors name) := by
    simp only [baseOf_of_perm hdistinct hperm, lineage_of_perm hdistinct hperm] at hfollows hstops
    exact ⟨hfollows, hnodup, hstops⟩
  exact (List.cons.inj (htrace.unique (s.traces_ancestors name))).2

theorem descendsFrom_of_perm (name root : String) :
    s'.index.descendsFrom name root = s.index.descendsFrom name root := by
  rw [TypeIndex.descendsFrom, TypeIndex.descendsFrom, ancestors_of_perm hdistinct hperm]

theorem mem_family_of_perm {root : String} {t : ComplexType} :
    t ∈ s'.family root ↔ t ∈ s.family root := by
  have hextends : s'.Extends = s.Extends := by
    funext name base
    rw [Extends, Extends, baseOf_of_perm hdistinct hperm]
  simp only [mem_family_iff, InFamily, hextends, hperm.mem_iff]

/-- A family is listed in the order of the schema. -/
theorem family_of_perm (root : String) :
    s'.family root = s'.complexTypes.filter (· ∈ s.family root) := by
  classical
  rw [family_eq_filter s' root]
  refine List.filter_congr fun t ht => ?_
  rw [decide_eq_decide, ← mem_family_of_perm hdistinct hperm, mem_family_iff]
  exact (and_iff_right ht).symm

/-- Validation comes to the same kind of result: what it looks for exists in any order, and only
the type that it names in an error is the first one of an order. -/
theorem validate_of_perm :
    (s.validate.result = .ok () ∧ s'.validate.result = .ok ()) ∨
      ((∃ name base, s.validate.result = .error (.undeclaredBase name base)) ∧
        ∃ name base, s'.validate.result = .error (.undeclaredBase name base)) ∨
      ((∃ path, s.validate.result = .error (.circularBase path)) ∧
        ∃ path, s'.validate.result = .error (.circularBase path)) := by
  simp only [validate_ok_iff, exists_undeclaredBase_iff, exists_circularBase_iff, hperm.mem_iff,
    lacksBase_of_perm hperm, repeatsName_of_perm hdistinct hperm, and_self]
  by_cases hlacks : ∃ t ∈ s.complexTypes, s.LacksBase t
  · exact Or.inr (Or.inl hlacks)
  · have hbases : ∀ t ∈ s.complexTypes, ¬ s.LacksBase t := fun t ht hlack => hlacks ⟨t, ht, hlack⟩
    by_cases hrepeats : ∃ t ∈ s.complexTypes, s.RepeatsName t
    · exact Or.inr (Or.inr ⟨hbases, hrepeats⟩)
    · exact Or.inl ⟨hbases, fun t ht hrepeat => hrepeats ⟨t, ht, hrepeat⟩⟩

/-- **The order of declarations does not matter to inheritance.** If names are declared once, two
schemas with the same complex types in different orders are both valid, or both have an undeclared
base, or both a circle. Every name has the same ancestors in both and descends from the same names,
and every root has the same family, which each schema lists in its own order. -/
theorem inheritance_of_perm :
    ((s.validate.result = .ok () ∧ s'.validate.result = .ok ()) ∨
      ((∃ name base, s.validate.result = .error (.undeclaredBase name base)) ∧
        ∃ name base, s'.validate.result = .error (.undeclaredBase name base)) ∨
      ((∃ path, s.validate.result = .error (.circularBase path)) ∧
        ∃ path, s'.validate.result = .error (.circularBase path))) ∧
    (∀ name, s'.index.ancestors name = s.index.ancestors name) ∧
    (∀ name root, s'.index.descendsFrom name root = s.index.descendsFrom name root) ∧
    ∀ root, (∀ t, t ∈ s'.family root ↔ t ∈ s.family root) ∧
      s'.family root = s'.complexTypes.filter (· ∈ s.family root) :=
  ⟨validate_of_perm hdistinct hperm, ancestors_of_perm hdistinct hperm,
    descendsFrom_of_perm hdistinct hperm, fun root =>
      ⟨fun _ => mem_family_of_perm hdistinct hperm, family_of_perm hdistinct hperm root⟩⟩

end Reordered

/-- Three generations beside a circle of two, the youngest first. -/
def childFirst : Schema :=
  ⟨[], [⟨"Tool", some "Gadget", []⟩, ⟨"Gadget", some "Widget", []⟩, ⟨"Widget", none, []⟩,
    ⟨"Left", some "Right", []⟩, ⟨"Right", some "Left", []⟩]⟩

/-- The same types, the oldest first. -/
def parentFirst : Schema :=
  ⟨[], [⟨"Widget", none, []⟩, ⟨"Right", some "Left", []⟩, ⟨"Gadget", some "Widget", []⟩,
    ⟨"Left", some "Right", []⟩, ⟨"Tool", some "Gadget", []⟩]⟩

/-- The conclusions of `inheritance_of_perm` for both orders: the same kind of error with different
paths, the same ancestors, and one family in two orders. -/
theorem parentFirst_inheritance :
    (childFirst.complexTypes.map (·.name)).Nodup ∧
      parentFirst.complexTypes.Perm childFirst.complexTypes ∧
      childFirst.validate.result = .error (.circularBase ["Left", "Right", "Left"]) ∧
      (∃ path, parentFirst.validate.result = .error (.circularBase path)) ∧
      parentFirst.index.ancestors "Tool" = childFirst.index.ancestors "Tool" ∧
      parentFirst.family "Gadget" =
        [⟨"Gadget", some "Widget", []⟩, ⟨"Tool", some "Gadget", []⟩] := by
  have hdistinct : (childFirst.complexTypes.map (·.name)).Nodup := by decide
  have hperm : parentFirst.complexTypes.Perm childFirst.complexTypes := by decide
  have hcircle : childFirst.validate.result = .error (.circularBase ["Left", "Right", "Left"]) := by
    decide +kernel
  have hfamily : childFirst.family "Gadget" =
      [⟨"Tool", some "Gadget", []⟩, ⟨"Gadget", some "Widget", []⟩] := by decide +kernel
  obtain ⟨hvalidate, hancestors, -, hfamilies⟩ := inheritance_of_perm hdistinct hperm
  refine ⟨hdistinct, hperm, hcircle, ?_, hancestors "Tool", ?_⟩
  · rw [hcircle] at hvalidate
    simpa using hvalidate
  · rw [(hfamilies "Gadget").2, hfamily]
    decide

end SoapTypes.Schema
