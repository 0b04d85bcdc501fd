import SoapTypes.Proofs.Extraction.Extracted

/-!
# Schema elements in another order

Simple types and named complex types are sorted by name, so the order in which they are declared
does not show in the schema if their names are distinct. Types of top-level elements are not sorted,
and stay in the order of these. Each group is read on its own: that some declaration fails does not
depend on the order either, only which failure is met first.
-/

namespace SoapTypes

open Xml Text

/-- Two trees that differ only in what is found along a path of local names, where they are
related. -/
inductive Xml.Element.AlikeBut (related : Element → Element → Prop) :
    List String → Element → Element → Prop
  | here {e e' : Element} (h : related e e') : AlikeBut related [] e e'
  | inside {segment name : String} {path : List String} {attributes : List Attribute}
      {before after : List Element} {child child' : Element}
      (hfirst : ∀ e ∈ before, e.localName ≠ segment) (hname : child.localName = segment)
      (hname' : child'.localName = segment) (h : AlikeBut related path child child') :
      AlikeBut related (segment :: path) ⟨name, attributes, before ++ child :: after⟩
        ⟨name, attributes, before ++ child' :: after⟩

namespace Xml.Element

/-- The first child of a name stands behind others. -/
theorem child?_append_cons {name segment : String} {attributes : List Attribute}
    {before after : List Element} {child : Element} (hfirst : ∀ e ∈ before, e.localName ≠ segment)
    (hname : child.localName = segment) :
    child? ⟨name, attributes, before ++ child :: after⟩ segment = some child := by
  have hnone : before.find? (·.localName == segment) = none := by
    rw [List.find?_eq_none]
    intro e he
    rw [beq_iff_eq]
    exact hfirst e he
  rw [child?, List.find?_append, hnone, Option.none_or, List.find?_cons, hname, beq_self_eq_true]

/-- Along the path both trees lead to elements that are related. -/
theorem AlikeBut.exists_descend? {related : Element → Element → Prop} {path : List String}
    {root root' : Element} (h : AlikeBut related path root root') :
    ∃ e e', root.descend? path = some e ∧ root'.descend? path = some e' ∧ related e e' := by
  induction h with
  | here h => exact ⟨_, _, rfl, rfl, h⟩
  | inside hfirst hname hname' _ ih =>
    obtain ⟨e, e', he, he', h⟩ := ih
    refine ⟨e, e', ?_, ?_, h⟩
    · rw [descend?, child?_append_cons hfirst hname, Option.bind_some, he]
    · rw [descend?, child?_append_cons hfirst hname', Option.bind_some, he']

/-- Below the root the name of the root stays the same. -/
theorem AlikeBut.localName_eq {related : Element → Element → Prop} {segment : String}
    {path : List String} {root root' : Element}
    (h : AlikeBut related (segment :: path) root root') :
    root'.localName = root.localName := by
  cases h
  rfl

/-- The names of those children of a local name that have one. -/
def declaredNames (e : Element) (kind : String) : List String :=
  (e.childrenNamed kind).filterMap (·.attribute? "name")

end Xml.Element

namespace Schema

/-- Two elements with the same children in different orders that agree on top-level elements. -/
structure Reordered (schema schema' : Element) : Prop where
  name : schema'.name = schema.name
  attributes : schema'.attributes = schema.attributes
  children : schema'.children.Perm schema.children
  elements : schema'.childrenNamed "element" = schema.childrenNamed "element"

namespace Reordered

variable {schema schema' : Element} (h : Reordered schema schema')

include h

theorem symm : Reordered schema' schema :=
  ⟨h.name.symm, h.attributes.symm, h.children.symm, h.elements.symm⟩

theorem childrenNamed (kind : String) :
    (schema'.childrenNamed kind).Perm (schema.childrenNamed kind) :=
  h.children.filter _

theorem declaredNames (kind : String) :
    (schema'.declaredNames kind).Perm (schema.declaredNames kind) :=
  (h.childrenNamed kind).filterMap _

end Reordered

/-- A simple type has the name of its element. -/
theorem name_simpleTypeOf {e : Element} {t : SimpleType} (h : simpleTypeOf e = .ok t) :
    e.attribute? "name" = some t.name := by
  obtain ⟨name, _, _, hname, -, -, ⟨-, rfl⟩ | ⟨-, -, rfl⟩⟩ := simpleTypeOf_eq_ok_iff.1 h
  · exact hname
  · exact hname

/-- A complex type has the name of its element. -/
theorem name_complexTypeOf {e : Element} {t : ComplexType}
    (h : (complexTypeOf e).result = .ok (some t)) : e.attribute? "name" = some t.name := by
  obtain ⟨name, hname, ⟨_, _, -, -, -, rfl⟩ | ⟨-, _, -, hextension⟩⟩ :=
    complexTypeOf_eq_some_iff.1 h
  · exact hname
  · obtain ⟨_, _, _, -, -, -, rfl⟩ := extensionOf_eq_some_iff.1 hextension
    exact hname

/-- So has the complex type of a top-level element. -/
theorem name_elementTypeOf {e : Element} {t : ComplexType}
    (h : (elementTypeOf e).result = .ok (some t)) : e.attribute? "name" = some t.name := by
  obtain ⟨name, _, _, hname, -, -, rfl⟩ := elementTypeOf_eq_some_iff.1 h
  exact hname

/-- Simple types with distinct names come to the same list from any order of their elements. -/
theorem simpleTypesOf_of_perm {es es' : List Element} {ts : List SimpleType} (hperm : es'.Perm es)
    (hdistinct : (es.filterMap (·.attribute? "name")).Nodup) (h : simpleTypesOf es = .ok ts) :
    simpleTypesOf es' = .ok ts := by
  obtain ⟨us, hus, rfl⟩ := simpleTypesOf_eq_ok_iff.1 h
  obtain ⟨us', hus', hsame⟩ := exists_mapM_of_perm hperm hus
  have hnames : es.filterMap (·.attribute? "name") = us.map (·.name) :=
    filterMap_eq_map_of_forall₂ ((mapM_eq_ok_iff.1 hus).imp fun {_ _} ht => name_simpleTypeOf ht)
  refine simpleTypesOf_eq_ok_iff.2 ⟨us', hus', (mergeSort_eq_of_perm hsame.symm ?_).symm⟩
  rwa [← hnames]

/-- Named complex types with distinct names come to the same list from any order of their
elements. Those that are passed over have no part in it. -/
theorem complexTypesOf_of_perm {es es' : List Element} {ts : List ComplexType}
    (hperm : es'.Perm es) (hdistinct : (es.filterMap (·.attribute? "name")).Nodup)
    (h : (complexTypesOf es).result = .ok ts) : (complexTypesOf es').result = .ok ts := by
  obtain ⟨us, hus, rfl⟩ := complexTypesOf_eq_ok_iff.1 h
  obtain ⟨us', hus', hsame⟩ := Report.exists_collect_of_perm hperm hus
  have hnames : (us.map (·.name)).Sublist (es.filterMap (·.attribute? "name")) :=
    Report.map_sublist_filterMap_of_collect hus fun _ _ => name_complexTypeOf
  exact complexTypesOf_eq_ok_iff.2
    ⟨us', hus', (mergeSort_eq_of_perm hsame.symm (hdistinct.sublist hnames)).symm⟩

/-- A schema element gives the same schema after its children have been reordered. -/
theorem ofSchemaElement_of_reordered {schema schema' : Element} {s : Schema}
    (h : Reordered schema schema') (hsimple : (schema.declaredNames "simpleType").Nodup)
    (hcomplex : (schema.declaredNames "complexType").Nodup)
    (hs : (ofSchemaElement schema).result = .ok s) : (ofSchemaElement schema').result = .ok s := by
  obtain ⟨ofElements, simple, named, helements, hsimpleTypes, hnamed, rfl⟩ :=
    ofSchemaElement_eq_ok_iff.1 hs
  refine ofSchemaElement_eq_ok_iff.2 ⟨ofElements, simple, named, ?_, ?_, ?_, rfl⟩
  · rwa [h.elements]
  · exact simpleTypesOf_of_perm (h.childrenNamed "simpleType") hsimple hsimpleTypes
  · exact complexTypesOf_of_perm (h.childrenNamed "complexType") hcomplex hnamed

/-- A root element gives the same schema after its schema element has been reordered. -/
theorem ofRoot_of_reordered {root root' schema schema' : Element} {s : Schema}
    (hname : root'.localName = root.localName)
    (hschema : root.descend? ["types", "schema"] = some schema)
    (hschema' : root'.descend? ["types", "schema"] = some schema') (h : Reordered schema schema')
    (hsimple : (schema.declaredNames "simpleType").Nodup)
    (hcomplex : (schema.declaredNames "complexType").Nodup) (hs : (ofRoot root).result = .ok s) :
    (ofRoot root').result = .ok s := by
  obtain ⟨hdefinitions, found, hfound, hs⟩ := ofRoot_eq_ok_iff.1 hs
  obtain rfl : schema = found := Option.some.inj (hschema.symm.trans hfound)
  exact ofRoot_eq_ok_iff.2 ⟨hname.trans hdefinitions, schema', hschema',
    ofSchemaElement_of_reordered h hsimple hcomplex hs⟩

/-- **The order of declarations does not matter to extraction.** If two trees differ only in the
order of the children of the schema element, in which the top-level elements keep their own order,
and neither two named simple types nor two named complex types have one name, then extraction fails
on both trees or gives the same schema for both. -/
theorem ofRoot_of_alikeBut {root root' schema : Element}
    (h : root.AlikeBut Reordered ["types", "schema"] root')
    (hschema : root.descend? ["types", "schema"] = some schema)
    (hsimple : (schema.declaredNames "simpleType").Nodup)
    (hcomplex : (schema.declaredNames "complexType").Nodup) :
    ((∃ e, (ofRoot root).result = .error e) ∧ ∃ e, (ofRoot root').result = .error e) ∨
      ∃ s, (ofRoot root).result = .ok s ∧ (ofRoot root').result = .ok s := by
  have hname := h.localName_eq
  obtain ⟨found, schema', hfound, hschema', hreordered⟩ := h.exists_descend?
  obtain rfl : schema = found := Option.some.inj (hschema.symm.trans hfound)
  have hsimple' := (hreordered.declaredNames "simpleType").nodup_iff.2 hsimple
  have hcomplex' := (hreordered.declaredNames "complexType").nodup_iff.2 hcomplex
  cases hresult : (ofRoot root).result with
  | ok s =>
    exact Or.inr ⟨s, rfl,
      ofRoot_of_reordered hname hschema hschema' hreordered hsimple hcomplex hresult⟩
  | error e =>
    cases hresult' : (ofRoot root').result with
    | error e' => exact Or.inl ⟨⟨e, rfl⟩, e', rfl⟩
    | ok s =>
      have hback := ofRoot_of_reordered hname.symm hschema' hschema hreordered.symm hsimple'
        hcomplex' hresult'
      cases hresult.symm.trans hback

/-- Named types and a type without a name, which is passed over. -/
def namedDeclarations : List Element :=
  [⟨"complexType", [("name", "Widget")], [⟨"sequence", [], []⟩]⟩,
    ⟨"complexType", [], []⟩,
    ⟨"simpleType", [("name", "Widget")], [⟨"restriction", [("base", "xsd:string")], []⟩]⟩,
    ⟨"complexType", [("name", "Gadget")], [⟨"complexContent", [],
      [⟨"extension", [("base", "tns:Widget")], []⟩]⟩]⟩]

/-- Two top-level elements with types of their own, under one name. -/
def elementDeclarations : List Element :=
  [⟨"element", [("name", "Header")], [⟨"complexType", [], [⟨"sequence", [], []⟩]⟩]⟩,
    ⟨"element", [("name", "Header")], [⟨"complexType", [], [⟨"sequence", [],
      [⟨"element", [("name", "id"), ("type", "xsd:int")], []⟩]⟩]⟩]⟩]

/-- The schema element with the named declarations in front. -/
def namedFirst : Element :=
  ⟨"schema", [], namedDeclarations ++ elementDeclarations⟩

/-- The schema element with the named declarations at the end, in reverse order. -/
def namedLast : Element :=
  ⟨"schema", [], elementDeclarations ++ namedDeclarations.reverse⟩

/-- The description with the given schema element. -/
def describing (schema : Element) : Element :=
  ⟨"definitions", [], [⟨"types", [], [schema]⟩]⟩

/-- Both orders lead to one schema, as `ofRoot_of_alikeBut` says. -/
theorem namedLast_schema :
    (describing namedFirst).AlikeBut Reordered ["types", "schema"] (describing namedLast) ∧
      (namedFirst.declaredNames "simpleType").Nodup ∧
      (namedFirst.declaredNames "complexType").Nodup ∧
      ∃ s, (ofRoot (describing namedFirst)).result = .ok s ∧
        (ofRoot (describing namedLast)).result = .ok s := by
  have hperm : namedLast.children.Perm namedFirst.children :=
    ((List.reverse_perm _).append_left _).trans List.perm_append_comm
  have hschema : Element.AlikeBut Reordered ["schema"] ⟨"types", [], [namedFirst]⟩
      ⟨"types", [], [namedLast]⟩ :=
    @Element.AlikeBut.inside _ _ _ _ _ [] [] _ _ nofun rfl rfl (.here ⟨rfl, rfl, hperm, rfl⟩)
  have halike : (describing namedFirst).AlikeBut Reordered ["types", "schema"]
      (describing namedLast) :=
    @Element.AlikeBut.inside _ _ _ _ _ [] [] _ _ nofun rfl rfl hschema
  have hsimple : (namedFirst.declaredNames "simpleType").Nodup := by decide
  have hcomplex : (namedFirst.declaredNames "complexType").Nodup := by decide
  refine ⟨halike, hsimple, hcomplex, ?_⟩
  rcases ofRoot_of_alikeBut halike rfl hsimple hcomplex with ⟨⟨e, he⟩, -⟩ | hboth
  · have hsome : ∃ s, (ofRoot (describing namedFirst)).result = .ok s :=
      ⟨_, ofRoot_eq_ok_iff.2 ⟨by decide, _, rfl, ofSchemaElement_eq_ok_iff.2
        ⟨_, _, _, rfl, rfl, complexTypesOf_eq_ok_iff.2 ⟨_, rfl, rfl⟩, rfl⟩⟩⟩
    obtain ⟨s, hs⟩ := hsome
    cases he.symm.trans hs
  · exact hboth

end Schema

end SoapTypes
