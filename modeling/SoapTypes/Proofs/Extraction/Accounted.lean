import SoapTypes.Proofs.Extraction.Settlement

/-!
# Nothing is lost in silence

Each declaration of a schema element is either recorded as a type or passed over, and a notice tells
of each one that is passed over. The same holds of the elements of a sequence: each is recorded as a
field, or a notice tells of it. So the counts of types and of notices add up to those of the
declarations.
-/

namespace SoapTypes.Schema

open Xml

/-! ## What is told of several declarations -/

/-- The complex types that declarations give. -/
def typesOf (ds : List Declaration) : List ComplexType :=
  ds.filterMap Declaration.complexType?

/-- The declarations that give complex types. -/
def recorded (ds : List Declaration) : List Declaration :=
  ds.filter (·.complexType?.isSome)

/-- The declarations that give none. -/
def skipped (ds : List Declaration) : List Declaration :=
  ds.filter (·.complexType?.isNone)

theorem typesOf_cons (d : Declaration) (ds : List Declaration) :
    typesOf (d :: ds) = typesOf [d] ++ typesOf ds :=
  List.filterMap_append (l := [d])

theorem recorded_cons (d : Declaration) (ds : List Declaration) :
    recorded (d :: ds) = recorded [d] ++ recorded ds :=
  List.filter_append [d] ds

theorem skipped_cons (d : Declaration) (ds : List Declaration) :
    skipped (d :: ds) = skipped [d] ++ skipped ds :=
  List.filter_append [d] ds

/-- Whether a top-level element has a type of its own with a sequence. -/
def ownsSequence (e : Element) : Bool :=
  (e.descend? ["complexType", "sequence"]).isSome

theorem length_eq_typesOf_add_skipped (ds : List Declaration) :
    ds.length = (typesOf ds).length + (skipped ds).length := by
  induction ds with
  | nil => rfl
  | cons d ds ih =>
    rw [typesOf, skipped] at *
    cases hd : d.complexType? with
    | none => simp [hd, ih, Nat.add_assoc]
    | some t => simp [hd, ih, Nat.add_right_comm]

/-- Notices of elements without a type tell nothing else. -/
theorem filter_map_untypedNotice {p : Notice → Bool}
    (hp : ∀ label, p (.fieldWithoutType label) = false) (es : List Element) :
    (es.map untypedNotice).filter p = [] := by
  rw [List.filter_eq_nil_iff, List.forall_mem_map]
  intro e _
  rw [untypedNotice, hp]
  decide

namespace Declaration

/-- A complex type that is skipped stands beside its notice. -/
theorem Settled.forall₂_skipped {e : Element} (h : (complexType e).Settled) :
    List.Forall₂ SkippedWith (skipped [complexType e])
      ((complexType e).notices.filter Notice.skipsComplexType) := by
  unfold Settled at h
  generalize hd : complexType e = d at h ⊢
  generalize ho : d.complexType? = o at h
  generalize d.notices = notices at h ⊢
  cases h with
  | recorded =>
    rw [filter_map_untypedNotice fun _ => rfl, skipped, List.filter_cons, ho]
    exact .nil
  | skipped h =>
    subst hd
    rw [skipped, List.filter_cons, ho, List.filter_cons, h.skipsComplexType]
    exact .cons h .nil
  | noSequence => cases hd
  | simpleType => cases hd

/-- An element with a sequence of its own gives a type or has a notice. -/
theorem Settled.length_element {e : Element} (h : (element e).Settled) :
    ([e].filter ownsSequence).length =
      (typesOf [element e]).length + (element e).notices.count .unnamedElement := by
  unfold Settled at h
  generalize hd : element e = d at h ⊢
  generalize ho : d.complexType? = o at h
  generalize d.notices = notices at h ⊢
  cases h with
  | recorded h =>
    subst hd
    obtain ⟨_, sequence, _, -, hsequence, -⟩ :=
      elementTypeOf_eq_some_iff.1 (outcome_element_iff.1 h)
    have hnone : ((untyped (element e).listed).map untypedNotice).count .unnamedElement = 0 := by
      rw [List.count_eq_zero]
      simp [untypedNotice]
    rw [hnone]
    simp [ownsSequence, typesOf, hsequence, ho]
  | skipped h =>
    subst hd
    cases h with
    | unnamedElement _ hsequence => simp [ownsSequence, typesOf, hsequence, ho]
  | noSequence hsequence =>
    cases hd
    simp [ownsSequence, typesOf, hsequence, ho]
  | simpleType => cases hd

/-- Of an element nothing else is told but that it has no name, and what is told of its fields. -/
theorem Settled.notices_element {e : Element} (h : (element e).Settled) :
    ∀ notice ∈ (element e).notices, notice = .unnamedElement ∨ notice.skipsField = true := by
  unfold Settled at h
  generalize hd : element e = d at h ⊢
  generalize d.complexType? = o at h
  generalize d.notices = notices at h ⊢
  cases h with
  | recorded => exact List.forall_mem_map.2 fun _ _ => Or.inr rfl
  | skipped h =>
    subst hd
    rw [List.forall_mem_singleton]
    cases h
    exact Or.inl rfl
  | noSequence => nofun
  | simpleType => cases hd

/-- Of a complex type nothing else is told but why it is skipped, and what is told of its fields. -/
theorem Settled.notices_complexType {e : Element} (h : (complexType e).Settled) :
    ∀ notice ∈ (complexType e).notices,
      notice.skipsComplexType = true ∨ notice.skipsField = true := by
  unfold Settled at h
  generalize hd : complexType e = d at h ⊢
  generalize d.complexType? = o at h
  generalize d.notices = notices at h ⊢
  cases h with
  | recorded => exact List.forall_mem_map.2 fun _ _ => Or.inr rfl
  | skipped h =>
    subst hd
    rw [List.forall_mem_singleton]
    exact Or.inl h.skipsComplexType
  | noSequence => cases hd
  | simpleType => cases hd

/-- The notices about fields stand for the elements without a type of declarations that give
one. -/
theorem Settled.filter_skipsField {d : Declaration} (h : d.Settled) :
    d.notices.filter Notice.skipsField =
      (untyped ((recorded [d]).flatMap (·.listed))).map untypedNotice := by
  unfold Settled at h
  generalize ho : d.complexType? = o at h
  generalize d.notices = notices at h ⊢
  cases h with
  | recorded =>
    have hall : ((untyped d.listed).map untypedNotice).filter Notice.skipsField =
        (untyped d.listed).map untypedNotice := by
      rw [List.filter_eq_self, List.forall_mem_map]
      exact fun _ _ => rfl
    rw [hall]
    simp [recorded, ho]
  | skipped h => simp [recorded, ho, h.skipsField, untyped]
  | noSequence => simp [recorded, ho, untyped]
  | simpleType => simp [recorded, ho, untyped]

end Declaration

section Several

variable {es : List Element} {ds : List Declaration}

/-- Complex types that are skipped stand beside their notices, in order. -/
theorem forall₂_skipped (h : ∀ e ∈ es, (Declaration.complexType e).Settled) :
    List.Forall₂ Declaration.SkippedWith (skipped (es.map .complexType))
      (((es.map Declaration.complexType).flatMap (·.notices)).filter
        Notice.skipsComplexType) := by
  induction es with
  | nil => exact .nil
  | cons e es ih =>
    rw [List.forall_mem_cons] at h
    rw [List.map_cons, List.flatMap_cons, List.filter_append, skipped_cons]
    exact List.rel_append h.1.forall₂_skipped (ih h.2)

/-- Elements with sequences of their own give types or have notices. -/
theorem length_elements (h : ∀ e ∈ es, (Declaration.element e).Settled) :
    (es.filter ownsSequence).length = (typesOf (es.map .element)).length +
      ((es.map Declaration.element).flatMap (·.notices)).count .unnamedElement := by
  induction es with
  | nil => rfl
  | cons e es ih =>
    rw [List.forall_mem_cons] at h
    have hsplit : (e :: es).filter ownsSequence =
        [e].filter ownsSequence ++ es.filter ownsSequence := List.filter_append [e] es
    rw [hsplit, List.map_cons, List.flatMap_cons, typesOf_cons, List.length_append,
      List.length_append, List.count_append, h.1.length_element, ih h.2]
    omega

/-- The notices about fields stand for the elements without a type, in order. -/
theorem filter_skipsField (h : ∀ d ∈ ds, d.Settled) :
    (ds.flatMap (·.notices)).filter Notice.skipsField =
      (untyped ((recorded ds).flatMap (·.listed))).map untypedNotice := by
  induction ds with
  | nil => rfl
  | cons d ds ih =>
    rw [List.forall_mem_cons] at h
    rw [List.flatMap_cons, List.filter_append, h.1.filter_skipsField, ih h.2, recorded_cons d ds,
      List.flatMap_append, untyped, untyped, untyped, List.filter_append, List.map_append]

/-- Of the elements that declarations list, each gives a field or has no type. -/
theorem length_listed (ds : List Declaration) :
    ((recorded ds).flatMap (·.listed)).length = ((typesOf ds).flatMap (·.fields)).length +
      (untyped ((recorded ds).flatMap (·.listed))).length := by
  induction ds with
  | nil => rfl
  | cons d ds ih =>
    have hhead : ((recorded [d]).flatMap (·.listed)).length =
        ((typesOf [d]).flatMap (·.fields)).length +
          (untyped ((recorded [d]).flatMap (·.listed))).length := by
      cases hd : d.complexType? with
      | none => simp [recorded, typesOf, untyped, hd]
      | some t =>
        have hfields := (Declaration.forall₂_fields
          (Declaration.complexType?_eq_some_iff.1 hd)).length_eq
        have hparts := List.length_eq_length_filter_add (l := d.listed) recordsField
        simp [recorded, typesOf, untyped, hd, ← hfields, hparts]
    rw [recorded_cons d ds, typesOf_cons d ds, List.flatMap_append, List.flatMap_append,
      List.length_append, List.length_append, untyped, List.filter_append, List.length_append,
      ← untyped, ← untyped, hhead, ih]
    omega

end Several

/-! ## What is told of a schema -/

/-- How a schema and the notices account for what a schema element holds. -/
structure Accounted (schema : Element) (s : Schema) (notices : List Notice) : Prop where
  /-- Complex types are recorded from elements and, sorted by name, from named complex types. -/
  recorded : s.complexTypes = typesOf ((schema.childrenNamed "element").map .element) ++
    (typesOf ((schema.childrenNamed "complexType").map .complexType)).mergeSort (·.name ≤ ·.name)
  simpleTypes : (schema.childrenNamed "simpleType").length = s.simpleTypes.length
  complexTypes : (schema.childrenNamed "complexType").length =
    (typesOf ((schema.childrenNamed "complexType").map .complexType)).length +
      (notices.filter Notice.skipsComplexType).length
  /-- Each complex type that is skipped has one notice, which tells why. -/
  skipped : List.Forall₂ Declaration.SkippedWith
    (skipped ((schema.childrenNamed "complexType").map .complexType))
    (notices.filter Notice.skipsComplexType)
  elements : ((schema.childrenNamed "element").filter ownsSequence).length =
    (typesOf ((schema.childrenNamed "element").map .element)).length +
      notices.count .unnamedElement
  fields : ((Schema.recorded (declarations schema)).flatMap (·.listed)).length =
    (s.complexTypes.flatMap (·.fields)).length + (notices.filter Notice.skipsField).length
  /-- Each element of a sequence that gives no field has one notice, which tells its name or
  reference. -/
  untyped : notices.filter Notice.skipsField =
    (untyped ((Schema.recorded (declarations schema)).flatMap (·.listed))).map untypedNotice

/-- What is told of declarations that are collected is told of each in turn. -/
theorem notices_complexTypesOf {es : List Element} {ts : List ComplexType}
    (h : (complexTypesOf es).result = .ok ts) :
    (complexTypesOf es).notices = (es.map Declaration.complexType).flatMap (·.notices) := by
  obtain ⟨us, hus, -⟩ := complexTypesOf_eq_ok_iff.1 h
  simp only [complexTypesOf, Report.bind_eq_bind, Report.pure_eq_ok]
  rw [Report.notices_bind_ok, Report.notices_collect hus, List.flatMap_map]
  rfl

theorem notices_elementTypesOf {es : List Element} {ts : List ComplexType}
    (h : (elementTypesOf es).result = .ok ts) :
    (elementTypesOf es).notices = (es.map Declaration.element).flatMap (·.notices) := by
  rw [elementTypesOf, Report.notices_collect h, List.flatMap_map]
  rfl

/-- Nothing is told of simple types. -/
theorem notices_declarations (schema : Element) :
    (declarations schema).flatMap (·.notices) =
      ((schema.childrenNamed "element").map Declaration.element).flatMap (·.notices) ++
        ((schema.childrenNamed "complexType").map Declaration.complexType).flatMap (·.notices) := by
  have hsimple : ((schema.childrenNamed "simpleType").map Declaration.simpleType).flatMap
      (·.notices) = [] := by
    simp [Declaration.notices]
  rw [declarations, List.flatMap_append, List.flatMap_append, hsimple, List.nil_append]

/-- Before and behind what is told of the declarations only counts are told. -/
theorem notices_ofSchemaElement {schema : Element} {s : Schema}
    (h : (ofSchemaElement schema).result = .ok s) :
    (ofSchemaElement schema).notices =
      [.foundComplexTypes (schema.childrenNamed "complexType").length,
        .foundSimpleTypes (schema.childrenNamed "simpleType").length,
        .foundElements (schema.childrenNamed "element").length] ++
      (declarations schema).flatMap (·.notices) ++
      [.keptComplexTypes s.complexTypes.length, .keptSimpleTypes s.simpleTypes.length] := by
  obtain ⟨ofElements, simple, named, helements, hsimple, hnamed, rfl⟩ :=
    ofSchemaElement_eq_ok_iff.1 h
  simp only [ofSchemaElement, Report.bind_eq_bind, Report.pure_eq_ok]
  rw [Report.notices_bind_of_result_eq_ok (Report.result_tell _),
    Report.notices_bind_of_result_eq_ok helements, Report.notices_bind_of_result_eq_ok hsimple,
    Report.notices_bind_of_result_eq_ok hnamed, Report.notices_bind_ok,
    notices_elementTypesOf helements, notices_complexTypesOf hnamed, notices_declarations]
  simp [Report.tell, Report.ofExcept]

/-- If extraction succeeds, every declaration settles. -/
theorem settled_of_ofSchemaElement {schema : Element} {s : Schema}
    (h : (ofSchemaElement schema).result = .ok s) : ∀ d ∈ declarations schema, d.Settled := by
  have hnone : failure? (ofSchemaElement schema).result = none := failure?_eq_none_iff.2 ⟨s, h⟩
  rw [failure?_ofSchemaElement, List.findSome?_eq_none_iff] at hnone
  intro d hd
  obtain ⟨o, ho⟩ := failure?_eq_none_iff.1 (hnone d hd)
  exact Declaration.settled_of_outcome ho

/-- The complex types of a schema are recorded from elements and, sorted by name, from named complex
types. -/
theorem complexTypes_eq_of_ofSchemaElement {schema : Element} {s : Schema}
    (h : (ofSchemaElement schema).result = .ok s) :
    s.complexTypes = typesOf ((schema.childrenNamed "element").map .element) ++
      (typesOf ((schema.childrenNamed "complexType").map .complexType)).mergeSort
        (·.name ≤ ·.name) := by
  obtain ⟨ofElements, simple, named, helements, -, hnamed, rfl⟩ := ofSchemaElement_eq_ok_iff.1 h
  obtain ⟨unsorted, hunsorted, rfl⟩ := complexTypesOf_eq_ok_iff.1 hnamed
  have hofElements := Report.eq_filterMap_of_collect helements
    fun _ _ _ ho => (Declaration.settles_element ho).complexType?_eq
  have hofNamed := Report.eq_filterMap_of_collect hunsorted
    fun _ _ _ ho => (Declaration.settles_complexType ho).complexType?_eq
  rw [typesOf, typesOf, List.filterMap_map, List.filterMap_map]
  exact congrArg₂ _ hofElements (congrArg (List.mergeSort · _) hofNamed)

/-- The types that declarations give are the complex types of the schema in another order. -/
theorem perm_typesOf_declarations {schema : Element} {s : Schema}
    (h : (ofSchemaElement schema).result = .ok s) :
    (typesOf (declarations schema)).Perm s.complexTypes := by
  have hsimple : typesOf ((schema.childrenNamed "simpleType").map .simpleType) = [] := by
    rw [typesOf, List.filterMap_map, List.filterMap_eq_nil_iff]
    intro e _
    rw [Function.comp, Option.eq_none_iff_forall_ne_some]
    exact fun t ht => Declaration.outcome_simpleType_ne (Declaration.complexType?_eq_some_iff.1 ht)
  rw [complexTypes_eq_of_ofSchemaElement h, declarations, typesOf, List.filterMap_append,
    List.filterMap_append, ← typesOf, ← typesOf, ← typesOf, hsimple, List.nil_append]
  exact (List.mergeSort_perm _ _).symm.append_left _

/-- Each simple type is recorded. -/
theorem length_simpleTypes {schema : Element} {s : Schema}
    (h : (ofSchemaElement schema).result = .ok s) :
    (schema.childrenNamed "simpleType").length = s.simpleTypes.length := by
  obtain ⟨_, simple, _, -, hsimple, -, rfl⟩ := ofSchemaElement_eq_ok_iff.1 h
  obtain ⟨unsorted, hunsorted, rfl⟩ := simpleTypesOf_eq_ok_iff.1 hsimple
  rw [List.length_mergeSort, (mapM_eq_ok_iff.1 hunsorted).length_eq]

section Told

variable {schema : Element} {s : Schema}

theorem settled_elements (h : (ofSchemaElement schema).result = .ok s) :
    ∀ e ∈ schema.childrenNamed "element", (Declaration.element e).Settled :=
  fun e he => settled_of_ofSchemaElement h _ (by simp [declarations, he])

theorem settled_complexTypes (h : (ofSchemaElement schema).result = .ok s) :
    ∀ e ∈ schema.childrenNamed "complexType", (Declaration.complexType e).Settled :=
  fun e he => settled_of_ofSchemaElement h _ (by simp [declarations, he])

/-- That complex types are skipped is told of the named complex types only. -/
theorem filter_skipsComplexType (h : (ofSchemaElement schema).result = .ok s) :
    (ofSchemaElement schema).notices.filter Notice.skipsComplexType =
      (((schema.childrenNamed "complexType").map Declaration.complexType).flatMap
        (·.notices)).filter Notice.skipsComplexType := by
  have helements : (((schema.childrenNamed "element").map Declaration.element).flatMap
      (·.notices)).filter Notice.skipsComplexType = [] := by
    rw [List.filter_eq_nil_iff, List.forall_mem_flatMap, List.forall_mem_map]
    intro e he notice hnotice
    rcases (settled_elements h e he).notices_element notice hnotice with rfl | hfield
    · decide
    · rw [Notice.skipsComplexType_of_skipsField hfield]
      decide
  rw [notices_ofSchemaElement h, notices_declarations, List.filter_append, List.filter_append,
    List.filter_append, helements]
  simp [Notice.skipsComplexType]

/-- That an element has no name is told of the top-level elements only. -/
theorem count_unnamedElement (h : (ofSchemaElement schema).result = .ok s) :
    (ofSchemaElement schema).notices.count .unnamedElement =
      (((schema.childrenNamed "element").map Declaration.element).flatMap
        (·.notices)).count .unnamedElement := by
  have hcomplex : (((schema.childrenNamed "complexType").map Declaration.complexType).flatMap
      (·.notices)).count .unnamedElement = 0 := by
    rw [List.count_eq_zero, List.mem_flatMap]
    rintro ⟨d, hd, hmem⟩
    obtain ⟨e, he, rfl⟩ := List.mem_map.1 hd
    rcases (settled_complexTypes h e he).notices_complexType _ hmem with hskips | hfield
    · cases hskips
    · cases hfield
  rw [notices_ofSchemaElement h, notices_declarations, List.count_append, List.count_append,
    List.count_append, hcomplex]
  simp

/-- What is told of fields is told of the declarations. -/
theorem filter_skipsField_notices (h : (ofSchemaElement schema).result = .ok s) :
    (ofSchemaElement schema).notices.filter Notice.skipsField =
      ((declarations schema).flatMap (·.notices)).filter Notice.skipsField := by
  rw [notices_ofSchemaElement h, List.filter_append, List.filter_append]
  simp [Notice.skipsField]

end Told

/-- A schema and what is told while it is extracted account for all that the schema element
holds. -/
theorem accounted_of_ofSchemaElement {schema : Element} {s : Schema}
    (h : (ofSchemaElement schema).result = .ok s) :
    Accounted schema s (ofSchemaElement schema).notices := by
  have hskipped := forall₂_skipped (settled_complexTypes h)
  rw [← filter_skipsComplexType h] at hskipped
  have huntyped := filter_skipsField (settled_of_ofSchemaElement h)
  rw [← filter_skipsField_notices h] at huntyped
  refine ⟨complexTypes_eq_of_ofSchemaElement h, length_simpleTypes h, ?_, hskipped, ?_, ?_,
    huntyped⟩
  · have hlength := length_eq_typesOf_add_skipped
      ((schema.childrenNamed "complexType").map .complexType)
    rwa [List.length_map, hskipped.length_eq] at hlength
  · rw [count_unnamedElement h]
    exact length_elements (settled_elements h)
  · have hfields := ((perm_typesOf_declarations h).flatMap_right (·.fields)).length_eq
    rw [huntyped, List.length_map, ← hfields]
    exact length_listed (declarations schema)

/-- **Nothing is lost in silence.** A schema that is extracted and the notices of its extraction
account for the declarations: each simple type is recorded, each named complex type and each element
with a sequence of its own is recorded or has a notice, and so is each element that the recorded
declarations list. -/
theorem accounted_of_ofRoot {root : Element} {s : Schema} (h : (ofRoot root).result = .ok s) :
    ∃ schema, root.descend? ["types", "schema"] = some schema ∧
      Accounted schema s (ofRoot root).notices := by
  obtain ⟨hroot, schema, hschema, hs⟩ := ofRoot_eq_ok_iff.1 h
  have hreport : ofRoot root = ofSchemaElement schema := by
    rw [ofRoot, hroot, beq_self_eq_true, if_pos rfl, hschema]
  exact ⟨schema, hschema, hreport ▸ accounted_of_ofSchemaElement hs⟩

/-- A sequence of a field, of a reference to an element and of an element without a name. -/
def thriftySequence : Element :=
  ⟨"sequence", [], [⟨"element", [("name", "a"), ("type", "xsd:int")], []⟩,
    ⟨"element", [("ref", "tns:b")], []⟩, ⟨"element", [], []⟩]⟩

/-- A schema with a declaration of each kind that is skipped. -/
def thriftySchema : Element :=
  ⟨"schema", [], [
    ⟨"complexType", [], []⟩,
    ⟨"complexType", [("name", "Open")], [⟨"sequence", [], [⟨"any", [], []⟩]⟩]⟩,
    ⟨"element", [], [⟨"complexType", [], [thriftySequence]⟩]⟩,
    ⟨"complexType", [("name", "Rootless")],
      [⟨"complexContent", [], [⟨"extension", [], [thriftySequence]⟩]⟩]⟩,
    ⟨"simpleType", [("name", "S")], [⟨"restriction", [("base", "xsd:string")], []⟩]⟩,
    ⟨"complexType", [("name", "Empty")], []⟩,
    ⟨"complexType", [("name", "Kept")], [thriftySequence]⟩,
    ⟨"element", [("name", "plain"), ("type", "tns:Kept")], []⟩,
    ⟨"element", [("name", "own")], [⟨"complexType", [], [thriftySequence]⟩]⟩]⟩

/-- The description that holds this schema. -/
def thriftyDescription : Element :=
  ⟨"definitions", [], [⟨"types", [], [thriftySchema]⟩]⟩

/-- Five complex types are accounted for by one type and four notices, and six elements by two
fields and four notices, as `accounted_of_ofRoot` says. -/
theorem thriftyDescription_accounted :
    (ofRoot thriftyDescription).result =
        .ok ⟨[⟨"S", some "string", none⟩],
          [⟨"own", none, [⟨"a", "int", false, false⟩]⟩,
            ⟨"Kept", none, [⟨"a", "int", false, false⟩]⟩]⟩ ∧
      (ofRoot thriftyDescription).notices.filter Notice.skipsComplexType =
        [.unnamedComplexType, .wildcardContent "Open", .extensionWithoutBase "Rootless",
          .noContent "Empty"] ∧
      (ofRoot thriftyDescription).notices.filter Notice.skipsField =
        [.fieldWithoutType "tns:b", .fieldWithoutType "<unnamed>", .fieldWithoutType "tns:b",
          .fieldWithoutType "<unnamed>"] ∧
      ∃ schema, thriftyDescription.descend? ["types", "schema"] = some schema ∧
        (schema.childrenNamed "complexType").length = 1 + 4 ∧
        ((recorded (declarations schema)).flatMap (·.listed)).length = 2 + 4 := by
  have hresult : (ofRoot thriftyDescription).result =
      .ok ⟨[⟨"S", some "string", none⟩],
        [⟨"own", none, [⟨"a", "int", false, false⟩]⟩,
          ⟨"Kept", none, [⟨"a", "int", false, false⟩]⟩]⟩ := by
    decide +kernel
  have hskips : (ofRoot thriftyDescription).notices.filter Notice.skipsComplexType =
      [.unnamedComplexType, .wildcardContent "Open", .extensionWithoutBase "Rootless",
        .noContent "Empty"] := by
    decide +kernel
  have hfields : (ofRoot thriftyDescription).notices.filter Notice.skipsField =
      [.fieldWithoutType "tns:b", .fieldWithoutType "<unnamed>", .fieldWithoutType "tns:b",
        .fieldWithoutType "<unnamed>"] := by
    decide +kernel
  obtain ⟨schema, hschema, haccounted⟩ := accounted_of_ofRoot hresult
  obtain rfl := Option.some.inj hschema
  refine ⟨hresult, hskips, hfields, _, rfl, ?_, ?_⟩
  · rw [haccounted.complexTypes, hskips]
    decide +kernel
  · rw [haccounted.fields, hfields]
    rfl

end SoapTypes.Schema
