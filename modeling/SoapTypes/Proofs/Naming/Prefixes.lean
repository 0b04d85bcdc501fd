import SoapTypes.Proofs.Extraction.Recorded
import SoapTypes.Proofs.Naming.Distinct

/-!
# References with prefixes

A reference to a type carries the prefix of a namespace, which extraction takes away. When the type
is written, its bare name is looked up among the primitives. So a declared type is referred to by
its name unless a primitive has that name and a counterpart with another one.
-/

namespace SoapTypes

open TypeScript Text Xml

/-! ## The names of primitives -/

/-- The names of the primitives whose counterparts have other names. -/
def renamedPrimitives : List String :=
  ["int", "double", "long", "date", "dateTime", "time", "base64Binary", "anyType"]

/-- A name stands for itself unless it is that of a primitive with another counterpart. -/
theorem typeName_eq_self_iff {name : String} : typeName name = name ↔ name ∉ renamedPrimitives := by
  unfold typeName
  cases hname : Primitive.ofName? name with
  | none =>
    have hprimitive : ∀ n ∈ renamedPrimitives, Primitive.ofName? n ≠ none := by decide
    exact iff_of_true rfl fun hmem => hprimitive name hmem hname
  | some p =>
    obtain rfl := Primitive.ofName?_eq_some_iff.1 hname
    cases p <;> decide

/-! ## Properties and the elements that they are written for -/

/-- What follows the type of a property if its element may repeat without bound. -/
def brackets (e : Element) : String :=
  if e.attribute? "maxOccurs" = some "unbounded" then "[]" else ""

/-- A `simpleType` element of the schema declares the name. -/
def DeclaresSimpleType (schema : Element) (name : String) : Prop :=
  ∃ e ∈ schema.childrenNamed "simpleType", e.attribute? "name" = some name

/-- How a property of a document stands for an element of a sequence. Its type is what the name
behind the prefix stands for, whichever prefix it is. A declared simple type has an alias, and the
property is written with the name of the alias unless that is the name of a renamed primitive. -/
structure StandsFor (schema : Element) (d : Document) (e : Element) (p : Property) : Prop where
  name : e.attribute? "name" = some p.name
  written : p.line ∈ d.lines
  type : ∀ given ∈ Schema.referencePrefixes, ∀ name,
    e.attribute? "type" = some (given ++ ":" ++ name) → p.type.text = typeName name ++ brackets e
  declared : ∀ name, e.attribute? "type" = some ("tns:" ++ name) →
    DeclaresSimpleType schema name → (∃ a ∈ d.aliases, a.name = name ∧ a.line ∈ d.lines) ∧
      (p.type.text = name ++ brackets e ↔ name ∉ renamedPrimitives)

/-- A reference with a known prefix resolves to nothing but the name behind the prefix. -/
theorem Schema.eq_of_resolve {given name type : String} (hgiven : given ∈ referencePrefixes)
    (h : resolve (given ++ ":" ++ name) = .ok type) : type = name := by
  obtain ⟨-, hreference⟩ := resolve_eq_ok_iff.1 h
  simp only [referencePrefixes, List.mem_cons, List.not_mem_nil, or_false] at hgiven
  rcases hgiven with rfl | rfl
  · rcases hreference with heq | heq
    · simpa [eq_comm] using heq
    · exact absurd heq (by simp [← String.toList_inj])
  · rcases hreference with heq | heq
    · exact absurd heq (by simp [← String.toList_inj])
    · simpa [eq_comm] using heq

/-- The text of the type of a field is that of its type's counterpart, with brackets if the field
repeats. -/
theorem Field.text_expr {e : Element} {f : Field}
    (hrepeats : f.isArray = (e.attribute? "maxOccurs" == some "unbounded")) :
    f.expr.text = typeName f.type ++ brackets e := by
  rw [Field.expr, brackets, hrepeats]
  by_cases hunbounded : e.attribute? "maxOccurs" = some "unbounded"
  · simp [hunbounded, TypeExpr.text]
  · simp [hunbounded, TypeExpr.text]

/-- The lines of its properties are among the lines of a document. -/
theorem line_mem_lines {d : Document} {i : Interface} (hi : i ∈ d.interfaces) {p : Property}
    (hp : p ∈ i.properties) : p.line ∈ d.lines := by
  have hline : p.line ∈ i.lines := by
    simpa [Interface.lines] using Or.inr (Or.inl ⟨p, hp, rfl⟩)
  rw [document_lines_eq]
  simp [mem_interfaceLines_of_mem hi hline]

/-- The property of a field stands for the element that the field is recorded from. -/
theorem standsFor_of_fieldOf {schema e : Element} {s : Schema} {d : Document} {i : Interface}
    {f : Field} (hs : (Schema.ofSchemaElement schema).result = .ok s)
    (has : s.aliases = .ok d.aliases) (hi : i ∈ d.interfaces)
    (hp : ⟨f.name, f.expr⟩ ∈ i.properties) (hf : (Schema.fieldOf e).result = .ok (some f)) :
    StandsFor schema d e ⟨f.name, f.expr⟩ := by
  obtain ⟨name, reference, type, hname, hreference, hresolve, rfl⟩ :=
    Schema.fieldOf_eq_some_iff.1 hf
  have htype (given : String) (hgiven : given ∈ Schema.referencePrefixes) (n : String)
      (hn : e.attribute? "type" = some (given ++ ":" ++ n)) : type = n := by
    obtain rfl := Option.some.inj (hreference.symm.trans hn)
    exact Schema.eq_of_resolve hgiven hresolve
  refine ⟨hname, line_mem_lines hi hp, fun given hgiven n hn => ?_, fun n hn hdeclared => ⟨?_, ?_⟩⟩
  · obtain rfl := htype given hgiven n hn
    exact Field.text_expr rfl
  · obtain ⟨declaration, hmem, hnamed⟩ := hdeclared
    obtain ⟨t, ht, rfl⟩ := Schema.exists_simpleType_of_declared hs hmem hnamed
    obtain ⟨a, ha, halias⟩ := exists_mem_of_mapM has ht
    refine ⟨a, ha, SimpleType.name_alias halias, ?_⟩
    rw [document_lines_eq]
    simp only [List.mem_append, List.mem_map]
    exact Or.inr (Or.inl ⟨a, ha, rfl⟩)
  · obtain rfl := htype "tns" (by decide) n hn
    rw [← typeName_eq_self_iff, Field.text_expr rfl, ← String.toList_inj, String.toList_append,
      String.toList_append, List.append_left_inj, String.toList_inj]

/-- **Prefixes are forgotten.** A description that is accepted has a document in which each type
that is declared with fields has an interface. Its properties stand for the elements that the fields
are recorded from, in order. So a reference to a declared simple type becomes a reference to its
alias exactly if no primitive with another counterpart has its name. -/
theorem standsFor_of_ofText {description text : String} {generated : Option Timestamp}
    {family : Option String} {root schema : Element} (hparse : parse description = .ok root)
    (hschema : root.descend? ["types", "schema"] = some schema)
    (h : (TypeScript.ofText description generated family).result = .ok text) :
    ∃ d : Document, d.text = text ∧
      ∀ declaration ∈ Schema.declarations schema, ∀ t,
        declaration.outcome = .ok (some (.inr t)) →
        ∃ i ∈ d.interfaces, i.name = capitalize t.name ∧
          List.Forall₂ (StandsFor schema d) (declaration.listed.filter Schema.recordsField)
            i.properties := by
  obtain ⟨s, d, hs, -, hd, rfl⟩ := TypeScript.ofText_eq_ok_iff.1 h
  rw [Schema.ofText, Report.result_bind, Report.result_ofExcept, hparse] at hs
  obtain ⟨-, found, hfound, hs⟩ := Schema.ofRoot_eq_ok_iff.1 hs
  obtain rfl : schema = found := Option.some.inj (hschema.symm.trans hfound)
  obtain ⟨as, is, has, his, rfl⟩ := Schema.document_eq_ok_iff.1 hd
  refine ⟨_, rfl, fun declaration hmem t ht => ?_⟩
  have hcomplex := (Schema.mem_complexTypes_iff hs).2 ⟨declaration, hmem, ht⟩
  obtain ⟨i, hi, hinterface⟩ := exists_mem_of_mapM his hcomplex
  refine ⟨i, hi, ComplexType.name_interface hinterface, ?_⟩
  have hproperties : i.properties = t.fields.map fun f => ⟨f.name, f.expr⟩ := by
    obtain ⟨ps, hps, rfl⟩ := ComplexType.interface_eq_ok_iff.1 hinterface
    have hmap : ps.map id = t.fields.map fun f => ⟨f.name, f.expr⟩ :=
      map_eq_of_mapM hps fun _ _ _ hp => Field.property_eq_ok hp
    simpa using hmap
  rw [hproperties, List.forall₂_map_right_iff]
  obtain ⟨hlength, hbeside⟩ := List.forall₂_iff_zip.1 (Schema.Declaration.forall₂_fields ht)
  refine List.forall₂_iff_zip.2 ⟨hlength, fun {e f} hef => ?_⟩
  have hf : f ∈ t.fields := (List.of_mem_zip hef).2
  exact standsFor_of_fieldOf hs has hi (ComplexType.exists_property_of_mem hinterface hf).2
    (hbeside hef)

/-- A description of a simple type with the name of a primitive, and of a field of that type. -/
def intAlias : String :=
  "<definitions><types><schema><simpleType name=\"int\"><restriction base=\"xsd:string\"/>" ++
    "</simpleType><complexType name=\"A\"><sequence><element name=\"a\" type=\"tns:int\"/>" ++
    "</sequence></complexType></schema></types></definitions>"

/-- The element of the field. -/
def intAliasField : Element := ⟨"element", [("name", "a"), ("type", "tns:int")], []⟩

/-- The complex type with the field. -/
def intAliasType : Element :=
  ⟨"complexType", [("name", "A")], [⟨"sequence", [], [intAliasField]⟩]⟩

/-- The schema element of the description. -/
def intAliasSchema : Element :=
  ⟨"schema", [], [⟨"simpleType", [("name", "int")],
    [⟨"restriction", [("base", "xsd:string")], []⟩]⟩, intAliasType]⟩

/-- The document of the description. -/
def intAliasDocument : Document :=
  ⟨none, [⟨"int", .name "string"⟩], [⟨"A", none, [⟨"a", .name "number"⟩]⟩], none⟩

theorem parse_intAlias :
    parse intAlias = .ok ⟨"definitions", [], [⟨"types", [], [intAliasSchema]⟩]⟩ := by
  decide +kernel

theorem ofText_intAlias :
    (TypeScript.ofText intAlias none none).result = .ok intAliasDocument.text := by
  have hschema : (Schema.ofText intAlias).result =
      .ok ⟨[⟨"int", some "string", none⟩], [⟨"A", none, [⟨"a", "int", false, false⟩]⟩]⟩ := by
    rw [Schema.ofText, parse_intAlias]
    decide +kernel
  exact TypeScript.ofText_eq_ok_iff.2
    ⟨_, intAliasDocument, hschema, by decide +kernel, by decide +kernel, rfl⟩

theorem declared_intAlias : DeclaresSimpleType intAliasSchema "int" :=
  ⟨_, List.mem_cons_self, rfl⟩

theorem mem_declarations_intAlias :
    .complexType intAliasType ∈ Schema.declarations intAliasSchema := by
  have htype : intAliasType ∈ intAliasSchema.childrenNamed "complexType" := by decide
  simp [Schema.declarations, htype]

theorem listed_intAlias :
    (Schema.Declaration.complexType intAliasType).listed.filter Schema.recordsField =
      [intAliasField] := by
  decide

/-- The property is written with the primitive's counterpart, as `standsFor_of_ofText` says. -/
theorem intAlias_property :
    parse intAlias = .ok ⟨"definitions", [], [⟨"types", [], [intAliasSchema]⟩]⟩ ∧
      (TypeScript.ofText intAlias none none).result = .ok intAliasDocument.text ∧
      DeclaresSimpleType intAliasSchema "int" ∧
      ∃ d : Document, d.text = intAliasDocument.text ∧ (∃ a ∈ d.aliases, a.name = "int") ∧
        ∃ i ∈ d.interfaces, ∃ p ∈ i.properties, p.name = "a" ∧ p.type.text = "number" := by
  refine ⟨parse_intAlias, ofText_intAlias, declared_intAlias, ?_⟩
  obtain ⟨d, htext, hall⟩ := standsFor_of_ofText parse_intAlias rfl ofText_intAlias
  obtain ⟨i, hi, -, hbeside⟩ := hall _ mem_declarations_intAlias
    ⟨"A", none, [⟨"a", "int", false, false⟩]⟩ rfl
  rw [listed_intAlias, List.forall₂_cons_left_iff] at hbeside
  obtain ⟨p, ps, hp, -, hproperties⟩ := hbeside
  obtain ⟨⟨a, ha, hname, -⟩, -⟩ := hp.declared "int" rfl declared_intAlias
  refine ⟨d, htext, ⟨a, ha, hname⟩, i, hi, p, hproperties ▸ List.mem_cons_self, ?_, ?_⟩
  · exact (Option.some.inj hp.name).symm
  · rw [hp.type "tns" (by decide) "int" rfl]
    decide

/-- Not every reference to a declared simple type is written with the name of the alias. -/
theorem not_forall_text_eq_declared :
    ¬ ∀ (description text : String) (generated : Option Timestamp) (family : Option String)
      (root schema : Element), parse description = .ok root →
      root.descend? ["types", "schema"] = some schema →
      (TypeScript.ofText description generated family).result = .ok text →
      ∀ declaration ∈ Schema.declarations schema, ∀ t i,
        declaration.outcome = .ok (some (.inr t)) → t.interface = .ok i →
        List.Forall₂ (fun e p => ∀ name, e.attribute? "type" = some ("tns:" ++ name) →
            DeclaresSimpleType schema name → p.type.text = name ++ brackets e)
          (declaration.listed.filter Schema.recordsField) i.properties := by
  intro h
  have hbeside := h intAlias _ none none _ _ parse_intAlias rfl ofText_intAlias _
    mem_declarations_intAlias ⟨"A", none, [⟨"a", "int", false, false⟩]⟩
    ⟨"A", none, [⟨"a", .name "number"⟩]⟩ rfl (by decide +kernel)
  rw [listed_intAlias, List.forall₂_cons] at hbeside
  exact absurd (hbeside.1 "int" rfl declared_intAlias) (by decide)

end SoapTypes
