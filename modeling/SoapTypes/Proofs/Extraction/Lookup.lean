import SoapTypes.Proofs.Extraction.Accounted
import SoapTypes.Proofs.Inheritance.Lineage

/-!
# What look-ups find

A schema element may declare a name more than once. A look-up in the extracted schema finds what
the first declaration of the name gives, elements before named complex types: sorting by name keeps
declarations of one name in their order, and those that give no type hide none behind them.
-/

namespace SoapTypes.Schema

open Xml Text

/-- An element has the name and, read as a declaration of the kind, gives a complex type. -/
def Records (kind : Element → Declaration) (name : String) (e : Element) : Prop :=
  e.attribute? "name" = some name ∧ ∃ t, (kind e).outcome = .ok (some (.inr t))

theorem records_iff {kind : Element → Declaration} {name : String} {e : Element} :
    Records kind name e ↔ e.attribute? "name" = some name ∧ (kind e).complexType?.isSome = true := by
  simp only [Records, Option.isSome_iff_exists, Declaration.complexType?_eq_some_iff]

instance (kind : Element → Declaration) (name : String) (e : Element) :
    Decidable (Records kind name e) :=
  decidable_of_iff' _ records_iff

/-- The complex type that is given by the first element that records one of the name. -/
def FirstRecorded (kind : Element → Declaration) (es : List Element) (name : String)
    (t : ComplexType) : Prop :=
  ∃ e, FirstOf (Records kind name) es e ∧ (kind e).outcome = .ok (some (.inr t))

section Kind

variable {kind : Element → Declaration} {es : List Element} {name : String}

theorem exists_firstRecorded_iff :
    (∃ t, FirstRecorded kind es name t) ↔ ∃ e ∈ es, Records kind name e := by
  rw [← exists_firstOf_iff]
  constructor
  · rintro ⟨_, e, hfirst, -⟩
    exact ⟨e, hfirst⟩
  · rintro ⟨e, hfirst⟩
    obtain ⟨-, t, ht⟩ := hfirst.holds
    exact ⟨t, e, hfirst, ht⟩

variable (hname : ∀ e t, (kind e).outcome = .ok (some (.inr t)) →
  e.attribute? "name" = some t.name)

include hname

/-- Among the types that declarations of a kind give, the first of a name is the one that is
recorded first. -/
theorem find?_typesOf_eq_some_iff {t : ComplexType} :
    (typesOf (es.map kind)).find? (·.name == name) = some t ↔ FirstRecorded kind es name t := by
  -- an element that gives no type is not found, so it hides none of the same name behind it
  have hrecords : ∀ e ∈ es, Records kind name e ↔
      ∃ t, (kind e).complexType? = some t ∧ (t.name == name) = true := by
    intro e _
    simp only [Declaration.complexType?_eq_some_iff, beq_iff_eq]
    constructor
    · rintro ⟨hn, t, ht⟩
      exact ⟨t, ht, Option.some.inj ((hname e t ht).symm.trans hn)⟩
    · rintro ⟨t, ht, rfl⟩
      exact ⟨hname e t ht, t, ht⟩
  rw [typesOf, List.filterMap_map]
  refine (find?_filterMap_eq_some_iff_firstOf hrecords).trans (exists_congr fun e => ?_)
  rw [Declaration.complexType?_eq_some_iff]

theorem find?_typesOf_eq_none_iff :
    (typesOf (es.map kind)).find? (·.name == name) = none ↔ ∀ e ∈ es, ¬ Records kind name e := by
  rw [Option.eq_none_iff_forall_ne_some]
  simp only [ne_eq, find?_typesOf_eq_some_iff hname, ← not_exists, exists_firstRecorded_iff]
  simp only [not_exists, not_and]

end Kind

theorem name_of_outcome_element (e : Element) (t : ComplexType)
    (h : (Declaration.element e).outcome = .ok (some (.inr t))) :
    e.attribute? "name" = some t.name :=
  name_elementTypeOf (Declaration.outcome_element_iff.1 h)

theorem name_of_outcome_complexType (e : Element) (t : ComplexType)
    (h : (Declaration.complexType e).outcome = .ok (some (.inr t))) :
    e.attribute? "name" = some t.name :=
  name_complexTypeOf (Declaration.outcome_complexType_iff.1 h)

section Extracted

variable {schema : Element} {s : Schema} (h : (ofSchemaElement schema).result = .ok s)

include h

/-- The complex types of elements are searched before the named ones, which may be searched as if
they were not sorted. -/
theorem complexType?_of_ofSchemaElement (name : String) :
    s.complexType? name =
      ((typesOf ((schema.childrenNamed "element").map .element)).find? (·.name == name)).or
        ((typesOf ((schema.childrenNamed "complexType").map .complexType)).find?
          (·.name == name)) := by
  rw [complexType?, complexTypes_eq_of_ofSchemaElement h, List.find?_append, find?_name_mergeSort]

/-- Each `simpleType` element gives a type, so the first of a name gives the type that is found. -/
theorem simpleType?_eq_some_iff {name : String} {t : SimpleType} :
    s.simpleType? name = some t ↔
      ∃ e, FirstOf (·.attribute? "name" = some name) (schema.childrenNamed "simpleType") e ∧
        simpleTypeOf e = .ok t := by
  have hnamed : ∀ e ∈ schema.childrenNamed "simpleType", e.attribute? "name" = some name ↔
      ∃ t, (simpleTypeOf e).toOption = some t ∧ (t.name == name) = true := by
    intro e he
    simp only [except_toOption_eq_some_iff, beq_iff_eq]
    constructor
    · intro hname
      obtain ⟨t, -, ht⟩ := exists_simpleTypeOf_of_declared h he
      exact ⟨t, ht, Option.some.inj ((name_simpleTypeOf ht).symm.trans hname)⟩
    · rintro ⟨t, ht, rfl⟩
      exact name_simpleTypeOf ht
  obtain ⟨_, simple, _, -, hsimple, -, rfl⟩ := ofSchemaElement_eq_ok_iff.1 h
  obtain ⟨unsorted, hunsorted, rfl⟩ := simpleTypesOf_eq_ok_iff.1 hsimple
  rw [simpleType?, find?_name_mergeSort, eq_filterMap_of_mapM hunsorted,
    find?_filterMap_eq_some_iff_firstOf hnamed]
  simp only [except_toOption_eq_some_iff]

theorem simpleType?_eq_none_iff_declared {name : String} :
    s.simpleType? name = none ↔
      ∀ e ∈ schema.childrenNamed "simpleType", e.attribute? "name" ≠ some name := by
  rw [Option.eq_none_iff_forall_ne_some]
  simp only [ne_eq, simpleType?_eq_some_iff h, not_exists, not_and]
  constructor
  · intro hnone e he hname
    obtain ⟨e, hfirst⟩ :=
      (exists_firstOf_iff (p := (·.attribute? "name" = some name))).2 ⟨e, he, hname⟩
    obtain ⟨t, -, ht⟩ := exists_simpleTypeOf_of_declared h hfirst.mem
    exact hnone t e hfirst ht
  · intro hno t e hfirst
    exact absurd hfirst.holds (hno e hfirst.mem)

end Extracted

/-- **The first declaration wins.** In a schema that is extracted a look-up of a name, in the list of
the complex types or in their index, finds the type of the first top-level element of the name that
gives one, or else that of the first named complex type of the name that gives one, or else nothing.
A look-up among the simple types finds the type of the first `simpleType` element of the name. -/
theorem lookup_of_ofRoot {root : Element} {s : Schema} (h : (ofRoot root).result = .ok s) :
    ∃ schema, root.descend? ["types", "schema"] = some schema ∧ ∀ name,
      s.index.get? name = s.complexType? name ∧
      (∀ t, s.complexType? name = some t ↔
        FirstRecorded .element (schema.childrenNamed "element") name t ∨
          (∀ e ∈ schema.childrenNamed "element", ¬ Records .element name e) ∧
            FirstRecorded .complexType (schema.childrenNamed "complexType") name t) ∧
      (s.complexType? name = none ↔
        (∀ e ∈ schema.childrenNamed "element", ¬ Records .element name e) ∧
          ∀ e ∈ schema.childrenNamed "complexType", ¬ Records .complexType name e) ∧
      (∀ t, s.simpleType? name = some t ↔
        ∃ e, FirstOf (·.attribute? "name" = some name) (schema.childrenNamed "simpleType") e ∧
          simpleTypeOf e = .ok t) ∧
      (s.simpleType? name = none ↔
        ∀ e ∈ schema.childrenNamed "simpleType", e.attribute? "name" ≠ some name) := by
  obtain ⟨-, schema, hschema, hs⟩ := ofRoot_eq_ok_iff.1 h
  refine ⟨schema, hschema, fun name => ⟨get?_index s name, fun t => ?_, ?_,
    fun t => simpleType?_eq_some_iff hs, simpleType?_eq_none_iff_declared hs⟩⟩
  · rw [complexType?_of_ofSchemaElement hs, Option.or_eq_some_iff,
      find?_typesOf_eq_some_iff name_of_outcome_element,
      find?_typesOf_eq_none_iff name_of_outcome_element,
      find?_typesOf_eq_some_iff name_of_outcome_complexType]
  · rw [complexType?_of_ofSchemaElement hs, Option.or_eq_none_iff,
      find?_typesOf_eq_none_iff name_of_outcome_element,
      find?_typesOf_eq_none_iff name_of_outcome_complexType]

/-- A sequence of one field of the given name. -/
def oneField (name : String) : Element :=
  ⟨"sequence", [], [⟨"element", [("name", name), ("type", "xsd:int")], []⟩]⟩

/-- A schema element that declares `A` three times as a complex type, first without content, and as
an element without a type of its own; `B` as a complex type before an element; and `S` twice. -/
def repeatedSchema : Element :=
  ⟨"schema", [], [
    ⟨"complexType", [("name", "B")], [oneField "late"]⟩,
    ⟨"complexType", [("name", "A")], []⟩,
    ⟨"complexType", [("name", "A")], [oneField "first"]⟩,
    ⟨"complexType", [("name", "A")], [oneField "second"]⟩,
    ⟨"element", [("name", "A"), ("type", "tns:B")], []⟩,
    ⟨"element", [("name", "B")], [⟨"complexType", [], [oneField "own"]⟩]⟩,
    ⟨"simpleType", [("name", "S")], [⟨"restriction", [("base", "xsd:string")], []⟩]⟩,
    ⟨"simpleType", [("name", "S")], [⟨"restriction", [("base", "xsd:int")], []⟩]⟩]⟩

/-- `A` is the complex type with the field `first`, `B` the type of the element and `S` the first of
two, as `lookup_of_ofRoot` says. -/
theorem repeatedSchema_lookup :
    ∃ s, (ofRoot (describing repeatedSchema)).result = .ok s ∧
      s.complexType? "A" = some ⟨"A", none, [⟨"first", "int", false, false⟩]⟩ ∧
      s.index.get? "B" = some ⟨"B", none, [⟨"own", "int", false, false⟩]⟩ ∧
      s.simpleType? "S" = some ⟨"S", some "string", none⟩ ∧ s.complexType? "S" = none := by
  have hsome : ∃ s, (ofRoot (describing repeatedSchema)).result = .ok s :=
    ⟨_, ofRoot_eq_ok_iff.2 ⟨by decide, _, rfl, ofSchemaElement_eq_ok_iff.2
      ⟨_, _, _, rfl, simpleTypesOf_eq_ok_iff.2 ⟨_, rfl, rfl⟩,
        complexTypesOf_eq_ok_iff.2 ⟨_, rfl, rfl⟩, rfl⟩⟩⟩
  obtain ⟨s, hs⟩ := hsome
  obtain ⟨schema, hschema, hlookup⟩ := lookup_of_ofRoot hs
  obtain rfl : repeatedSchema = schema := Option.some.inj hschema
  refine ⟨s, hs, ?_, ?_, ?_, ?_⟩
  · have hplain : ∀ e ∈ repeatedSchema.childrenNamed "element", ¬ Records .element "A" e := by
      decide +kernel
    exact ((hlookup "A").2.1 _).2 <| .inr
      ⟨hplain, _, ⟨[_, _], [_], rfl, ⟨rfl, _, rfl⟩, by decide +kernel⟩, rfl⟩
  · rw [(hlookup "B").1]
    exact ((hlookup "B").2.1 _).2 <| .inl
      ⟨_, ⟨[_], [], rfl, ⟨rfl, _, rfl⟩, by decide +kernel⟩, rfl⟩
  · exact ((hlookup "S").2.2.2.1 _).2 ⟨_, ⟨[], [_], rfl, rfl, by simp⟩, rfl⟩
  · exact (hlookup "S").2.2.1.2 ⟨by decide +kernel, by decide +kernel⟩

end SoapTypes.Schema
