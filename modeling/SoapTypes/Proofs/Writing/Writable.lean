import SoapTypes.Proofs.Extraction.Extracted
import SoapTypes.TypeScript.OfText

/-!
# Schemas that can be written

A document is made of every schema whose simple types have content and whose fields have a type,
whatever the time and the root of the roster. Extraction establishes both conditions, so that no
text of a description leads to an error of writing.
-/

namespace SoapTypes

open TypeScript

/-- The conditions on a schema under which all of its types can be written. -/
structure Schema.Writable (s : Schema) : Prop where
  simpleContent : ∀ t ∈ s.simpleTypes, t.literals ≠ none ∨ t.base ≠ none
  fieldType : ∀ t ∈ s.complexTypes, ∀ f ∈ t.fields, f.type ≠ ""

/-- Extraction meets the conditions. -/
theorem Schema.Extracted.writable {s : Schema} (h : s.Extracted) : s.Writable :=
  ⟨h.simpleContent, h.fieldType⟩

/-- No name stands for the empty type but the empty name: primitives have counterparts. -/
theorem typeName_eq_empty_iff {name : String} : typeName name = "" ↔ name = "" := by
  unfold typeName
  cases hname : Primitive.ofName? name with
  | none => rfl
  | some p =>
    obtain rfl := Primitive.ofName?_eq_some_iff.1 hname
    cases p <;> decide

/-- An alias is made of a simple type exactly if it has literals or a base. -/
theorem exists_alias_iff {t : SimpleType} :
    (∃ a, t.alias = .ok a) ↔ t.literals ≠ none ∨ t.base ≠ none := by
  rcases t with ⟨name, _ | base, _ | literals⟩ <;> simp [SimpleType.alias]

/-- A property is made of a field exactly if its type is not empty. -/
theorem exists_property_iff {owner : String} {f : Field} :
    (∃ p, f.property owner = .ok p) ↔ f.type ≠ "" := by
  rw [← not_iff_not, not_not, ← typeName_eq_empty_iff, ← String.isEmpty_iff]
  unfold Field.property Field.propertyType
  by_cases hempty : (typeName f.type).isEmpty = true
  · simp [hempty, Except.map]
  · simp [hempty, Except.map]

/-- An interface is made of a complex type exactly if each field has a type. -/
theorem exists_interface_iff {t : ComplexType} :
    (∃ i, t.interface = .ok i) ↔ ∀ f ∈ t.fields, f.type ≠ "" := by
  rw [ComplexType.interface, exists_except_map_eq_ok_iff, exists_mapM_eq_ok_iff]
  simp only [exists_property_iff]

/-- A document holds what its types give, and the roster of the family of the root, if any. -/
theorem Schema.document_eq_ok_iff {s : Schema} {generated : Option Timestamp}
    {root : Option String} {d : Document} :
    (s.document generated root).result = .ok d ↔
      ∃ as is, s.aliases = .ok as ∧ s.interfaces = .ok is ∧
        d = ⟨generated, as, is, root.map fun root => .ofFamily root (s.family root)⟩ := by
  simp only [Schema.document, Report.bind_eq_bind, Report.result_bind, Report.result_ofExcept,
    except_bind_eq_ok_iff]
  constructor
  · rintro ⟨as, has, is, his, h⟩
    cases root <;> exact ⟨as, is, has, his, (Except.ok.inj h).symm⟩
  · rintro ⟨as, is, has, his, rfl⟩
    cases root <;> exact ⟨as, has, is, his, rfl⟩

/-- The root of the roster has no part in whether a document is made. -/
theorem Schema.exists_document_iff {s : Schema} {generated : Option Timestamp}
    {root : Option String} :
    (∃ d, (s.document generated root).result = .ok d) ↔
      (∃ as, s.aliases = .ok as) ∧ ∃ is, s.interfaces = .ok is := by
  simp only [Schema.document_eq_ok_iff]
  constructor
  · rintro ⟨_, as, is, has, his, -⟩
    exact ⟨⟨as, has⟩, is, his⟩
  · rintro ⟨⟨as, has⟩, is, his⟩
    exact ⟨_, as, is, has, his, rfl⟩

/-- Aliases are made exactly if all simple types have content. -/
theorem Schema.exists_aliases_iff {s : Schema} :
    (∃ as, s.aliases = .ok as) ↔ ∀ t ∈ s.simpleTypes, t.literals ≠ none ∨ t.base ≠ none := by
  simp only [Schema.aliases, exists_mapM_eq_ok_iff, exists_alias_iff]

/-- A document is made exactly if all types can be written. -/
theorem Schema.exists_document_iff_writable (s : Schema) (generated : Option Timestamp)
    (root : Option String) :
    (∃ d, (s.document generated root).result = .ok d) ↔ s.Writable := by
  have hinterfaces : (∃ is, s.interfaces = .ok is) ↔
      ∀ t ∈ s.complexTypes, ∀ f ∈ t.fields, f.type ≠ "" := by
    simp only [Schema.interfaces, exists_mapM_eq_ok_iff, exists_interface_iff]
  rw [Schema.exists_document_iff, Schema.exists_aliases_iff, hinterfaces]
  exact ⟨fun h => ⟨h.1, h.2⟩, fun h => ⟨h.simpleContent, h.fieldType⟩⟩

/-- The schema of a text is extracted from the root element of the text. -/
theorem Schema.exists_ofRoot_of_ofText {description : String} {s : Schema}
    (h : (Schema.ofText description).result = .ok s) :
    ∃ root, (Schema.ofRoot root).result = .ok s := by
  rw [Schema.ofText, Report.result_bind, except_bind_eq_ok_iff] at h
  obtain ⟨root, -, hroot⟩ := h
  exact ⟨root, hroot⟩

/-- A text has a document if its schema can be extracted, is sound and can be written. -/
theorem TypeScript.ofText_eq_ok_iff {description text : String} {generated : Option Timestamp}
    {root : Option String} :
    (TypeScript.ofText description generated root).result = .ok text ↔
      ∃ s d, (Schema.ofText description).result = .ok s ∧ s.validate.result = .ok () ∧
        (s.document generated root).result = .ok d ∧ d.text = text := by
  simp only [TypeScript.ofText, Report.bind_eq_bind, Report.pure_eq_ok, Report.result_bind,
    Report.result_ok, Report.mapError, except_bind_eq_ok_iff, except_mapError_eq_ok_iff,
    Except.ok.injEq]
  constructor
  · rintro ⟨s, hs, u, hvalid, d, hd, rfl⟩
    exact ⟨s, d, hs, hvalid, hd, rfl⟩
  · rintro ⟨s, d, hs, hvalid, hd, rfl⟩
    exact ⟨s, hs, (), hvalid, d, hd, rfl⟩

/-- Of the steps from a text to its document only reading, extracting and validating may fail. -/
theorem TypeScript.ofText_error {description : String} {generated : Option Timestamp}
    {root : Option String} {e : TypeScript.Error}
    (h : (TypeScript.ofText description generated root).result = .error e) :
    ∃ e', e = .schema e' := by
  simp only [TypeScript.ofText, Report.bind_eq_bind, Report.pure_eq_ok, Report.result_bind,
    Report.result_ok, Report.mapError] at h
  cases hschema : (Schema.ofText description).result with
  | error e' =>
    rw [hschema] at h
    exact ⟨e', (Except.error.inj h).symm⟩
  | ok s =>
    obtain ⟨root', hroot'⟩ := Schema.exists_ofRoot_of_ofText hschema
    obtain ⟨d, hd⟩ := (s.exists_document_iff_writable generated root).2
      (Schema.extracted_of_ofRoot hroot').writable
    rw [hschema] at h
    cases hvalidate : s.validate.result with
    | error e' =>
      simp only [hvalidate, Except.mapError, Except.bind] at h
      exact ⟨e', (Except.error.inj h).symm⟩
    | ok u =>
      simp only [hvalidate, hd, Except.mapError, Except.bind, reduceCtorEq] at h

/-- **Extracted schemas can be written.** Every schema that is extracted from a document has a
document of its own, whatever the time and the root, and every error on the way from a text to its
document is one of the schema. -/
theorem document_of_extraction :
    (∀ root s, (Schema.ofRoot root).result = .ok s → ∀ generated family,
      ∃ d, (s.document generated family).result = .ok d) ∧
    (∀ description generated family e,
      (TypeScript.ofText description generated family).result = .error e → ∃ e', e = .schema e') :=
  ⟨fun _ s hroot generated family =>
    (s.exists_document_iff_writable generated family).2
      (Schema.extracted_of_ofRoot hroot).writable,
    fun _ _ _ _ herror => TypeScript.ofText_error herror⟩

/-- A document with an enumeration without values and a type whose field has a declared type. -/
def sampleRoot : Xml.Element :=
  ⟨"w:definitions", [], [⟨"types", [], [⟨"schema", [], [
    ⟨"xsd:simpleType", [("name", "Empty")],
      [⟨"restriction", [], [⟨"enumeration", [], []⟩]⟩]⟩,
    ⟨"xsd:complexType", [("name", "pair")],
      [⟨"sequence", [], [⟨"element", [("name", "left"), ("type", "tns:Empty")], []⟩]⟩]⟩]⟩]⟩]⟩

/-- A description of a type whose base is not declared. -/
def sampleText : String :=
  "<definitions><types><schema><complexType name=\"A\"><complexContent>" ++
    "<extension base=\"tns:B\"/></complexContent></complexType></schema></types></definitions>"

/-- Both halves of `document_of_extraction`, at a tree that is extracted and at a text that is read
and extracted but not valid. -/
theorem sampleRoot_document :
    (∃ s, (Schema.ofRoot sampleRoot).result = .ok s ∧
      ∃ d, (s.document (some ⟨0, 0⟩) (some "pair")).result = .ok d) ∧
    ∃ e, (TypeScript.ofText sampleText none none).result = .error e ∧ ∃ e', e = .schema e' := by
  obtain ⟨hwritten, herrors⟩ := document_of_extraction
  have hroot : (Schema.ofRoot sampleRoot).result =
      .ok ⟨[⟨"Empty", none, some []⟩], [⟨"pair", none, [⟨"left", "Empty", false, false⟩]⟩]⟩ := by
    decide +kernel
  have htext : (TypeScript.ofText sampleText none none).result =
      .error (.schema (.undeclaredBase "A" "B")) := by
    decide +kernel
  exact ⟨⟨_, hroot, hwritten _ _ hroot _ _⟩, _, htext, herrors _ _ _ _ htext⟩

end SoapTypes
