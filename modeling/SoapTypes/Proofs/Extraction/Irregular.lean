import SoapTypes.Proofs.Extraction.Recorded

/-!
# Irregular declarations

A declaration with a sequence of its own is irregular if it has no name or if its sequence holds
wildcards only. The two passes treat these differently: named complex types and unnamed elements are
passed over, but an element with a name gives a type without fields even if its sequence holds
wildcards only.
-/

namespace SoapTypes.Schema

open Xml

theorem isWildcardOnly_iff {sequence : Element} :
    isWildcardOnly sequence = true ↔
      sequence.childrenNamed "any" ≠ [] ∧ sequence.childrenNamed "element" = [] := by
  simp [isWildcardOnly, and_comm]

namespace Declaration

/-- The name that a declaration gives itself. -/
def name? : Declaration → Option String
  | element e => e.attribute? "name"
  | simpleType e => e.attribute? "name"
  | complexType e => e.attribute? "name"

/-- The sequence that declares the fields of a type that extends nothing. -/
def ownSequence? : Declaration → Option Element
  | element e => e.descend? ["complexType", "sequence"]
  | simpleType _ => none
  | complexType e => e.child? "sequence"

/-- A declaration with a sequence of its own that has no name or holds wildcards and no elements. -/
def Irregular (d : Declaration) : Prop :=
  ∃ sequence, d.ownSequence? = some sequence ∧
    (d.name? = none ∨
      sequence.childrenNamed "any" ≠ [] ∧ sequence.childrenNamed "element" = [])

/-- A complex type is checked for a name and for wildcards before its fields are read. -/
theorem outcome_complexType_of_irregular {e : Element} (h : (complexType e).Irregular) :
    (complexType e).outcome = .ok none := by
  obtain ⟨sequence, hsequence, hname | hwildcard⟩ := h
  · exact outcome_eq_none_iff.2 (.unnamedComplexType hname)
  · exact outcome_eq_none_iff.2 (.wildcards hsequence (isWildcardOnly_iff.2 hwildcard))

/-- An element is checked for a name only. -/
theorem outcome_element_of_irregular {e : Element} (h : (element e).Irregular) {t : ComplexType} :
    (element e).outcome = .ok (some (.inr t)) ↔
      ∃ name, e.attribute? "name" = some name ∧ t = ⟨name, none, []⟩ := by
  obtain ⟨sequence, hsequence, hname | ⟨-, hlisted⟩⟩ := h
  · have hnone : e.attribute? "name" = none := hname
    rw [outcome_eq_none_iff.2 (.unnamedElement hname)]
    simp [hnone]
  · rw [outcome_element_iff, elementTypeOf_eq_some_iff]
    constructor
    · rintro ⟨name, found, fields, hname, hfound, hfields, rfl⟩
      obtain rfl : sequence = found := Option.some.inj (hsequence.symm.trans hfound)
      rw [hlisted] at hfields
      obtain rfl : [] = fields := Except.ok.inj hfields
      exact ⟨name, hname, rfl⟩
    · rintro ⟨name, hname, rfl⟩
      exact ⟨name, sequence, [], hname, hsequence, by rw [hlisted]; rfl, rfl⟩

/-- Of the irregular declarations exactly the elements with a name give a type, and one without
fields. -/
theorem Irregular.outcome_iff {d : Declaration} (h : d.Irregular) {t : ComplexType} :
    d.outcome = .ok (some (.inr t)) ↔
      ∃ e name, d = element e ∧ e.attribute? "name" = some name ∧ t = ⟨name, none, []⟩ := by
  cases d with
  | element e =>
    rw [outcome_element_of_irregular h]
    simp
  | simpleType e =>
    -- a simple type has no sequence, so it is never irregular
    obtain ⟨_, hsequence, -⟩ := h
    cases hsequence
  | complexType e =>
    rw [outcome_complexType_of_irregular h]
    simp

end Declaration

/-- **Irregular declarations.** The complex types of a schema that is extracted are those that the
declarations give. An irregular declaration gives none, unless it is an element with a name: then it
gives a type of this name that has neither a base nor fields. -/
theorem irregular_of_ofRoot {root : Element} {s : Schema} (h : (ofRoot root).result = .ok s) :
    ∃ schema, root.descend? ["types", "schema"] = some schema ∧
      (∀ t, t ∈ s.complexTypes ↔ ∃ d ∈ declarations schema, d.outcome = .ok (some (.inr t))) ∧
      ∀ d ∈ declarations schema, d.Irregular → ∀ t, d.outcome = .ok (some (.inr t)) ↔
        ∃ e name, d = .element e ∧ e.attribute? "name" = some name ∧ t = ⟨name, none, []⟩ := by
  obtain ⟨-, schema, hschema, hs⟩ := ofRoot_eq_ok_iff.1 h
  exact ⟨schema, hschema, fun _ => mem_complexTypes_iff hs, fun _ _ hirregular _ =>
    hirregular.outcome_iff⟩

/-- A sequence of a wildcard alone. -/
def wildcards : Element := ⟨"sequence", [], [⟨"any", [], []⟩]⟩

/-- A named complex type that holds wildcards only. -/
def closedType : Element := ⟨"complexType", [("name", "Closed")], [wildcards]⟩

/-- An element without a name that holds wildcards only. -/
def unnamedElement : Element := ⟨"element", [], [⟨"complexType", [], [wildcards]⟩]⟩

/-- An element with a name that holds wildcards only. -/
def openElement : Element := ⟨"element", [("name", "open")], [⟨"complexType", [], [wildcards]⟩]⟩

/-- A schema of these irregular declarations. -/
def irregularSchema : Element := ⟨"schema", [], [closedType, unnamedElement, openElement]⟩

theorem irregular_of_mem_declarations_irregularSchema :
    ∀ d ∈ declarations irregularSchema, d.Irregular := by
  have hdeclarations : declarations irregularSchema =
      [.element unnamedElement, .element openElement, .complexType closedType] := rfl
  rw [hdeclarations]
  simp only [List.forall_mem_cons]
  exact ⟨⟨wildcards, rfl, Or.inl rfl⟩, ⟨wildcards, rfl, Or.inr ⟨by decide, rfl⟩⟩,
    ⟨wildcards, rfl, Or.inr ⟨by decide, rfl⟩⟩, by simp⟩

theorem result_ofRoot_irregularSchema :
    (ofRoot (describing irregularSchema)).result = .ok ⟨[], [⟨"open", none, []⟩]⟩ := by
  decide +kernel

/-- Of three irregular declarations only the element with a name gives a type, as
`irregular_of_ofRoot` says. -/
theorem irregularSchema_recorded :
    (ofRoot (describing irregularSchema)).result = .ok ⟨[], [⟨"open", none, []⟩]⟩ ∧
      ∀ d ∈ declarations irregularSchema, d.Irregular ∧
        ∀ t, d.outcome = .ok (some (.inr t)) → ∃ e name, d = .element e ∧
          e.attribute? "name" = some name ∧ t = ⟨name, none, []⟩ := by
  refine ⟨result_ofRoot_irregularSchema, fun d hd => ?_⟩
  obtain ⟨schema, hschema, -, hirregular⟩ := irregular_of_ofRoot result_ofRoot_irregularSchema
  obtain rfl : irregularSchema = schema := Option.some.inj hschema
  have hd' := irregular_of_mem_declarations_irregularSchema d hd
  exact ⟨hd', fun t => (hirregular d hd hd' t).1⟩

/-- So a schema that is extracted may have a complex type of an irregular declaration. -/
theorem not_forall_not_irregular :
    ¬ ∀ (root schema : Element) (s : Schema), (ofRoot root).result = .ok s →
      root.descend? ["types", "schema"] = some schema → ∀ t ∈ s.complexTypes,
        ∀ d ∈ declarations schema, d.outcome = .ok (some (.inr t)) → ¬ d.Irregular := by
  intro h
  have hopen : .element openElement ∈ declarations irregularSchema := .tail _ (.head _)
  exact h _ irregularSchema _ result_ofRoot_irregularSchema rfl ⟨"open", none, []⟩ (.head _) _ hopen
    rfl (irregular_of_mem_declarations_irregularSchema _ hopen)

end SoapTypes.Schema
