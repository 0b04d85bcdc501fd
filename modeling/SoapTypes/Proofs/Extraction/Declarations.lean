import SoapTypes.Proofs.Traversal
import SoapTypes.Schema.Extraction

/-!
# What declarations give

For each kind of declaration this file says exactly when it gives a type, and which one. The
statements are about the outcome alone; what is told on the way does not matter here.
-/

namespace SoapTypes.Schema

open Xml

/-- The name in a reference is what stands behind a known prefix and a colon. -/
theorem referredName?_eq_some_iff {reference name : String} :
    referredName? reference = some name ↔
      name ≠ "" ∧ (reference = "xsd:" ++ name ∨ reference = "tns:" ++ name) := by
  constructor
  · intro h
    have hsplit := List.takeWhile_append_dropWhile (p := (· != ':')) (l := reference.toList)
    unfold referredName? at h
    cases hrest : reference.toList.dropWhile (· != ':') with
    | nil => simp [hrest] at h
    | cons colon cs =>
      have hcolon : colon = ':' := by
        have := List.head?_dropWhile_not (· != ':') reference.toList
        simpa [hrest] using this
      cases cs with
      | nil => simp [hrest] at h
      | cons c cs =>
        simp only [hrest, referencePrefixes, List.mem_cons, List.not_mem_nil, or_false,
          Option.ite_none_right_eq_some, Option.some.injEq] at h
        obtain ⟨hknown, rfl⟩ := h
        refine ⟨by simp, ?_⟩
        rw [hrest, hcolon] at hsplit
        rcases hknown with hknown | hknown
        · left
          rw [← String.toList_inj, String.toList_ofList] at hknown
          rw [← String.toList_inj, ← hsplit, hknown]
          simp
        · right
          rw [← String.toList_inj, String.toList_ofList] at hknown
          rw [← String.toList_inj, ← hsplit, hknown]
          simp
  · rintro ⟨hname, hreference⟩
    obtain ⟨c, cs, hcs⟩ := List.exists_cons_of_ne_nil (mt String.toList_eq_nil_iff.1 hname)
    have hback : String.ofList (c :: cs) = name := by rw [← hcs, String.ofList_toList]
    rcases hreference with rfl | rfl
    · simp [referredName?, referencePrefixes, hcs, hback]
    · simp [referredName?, referencePrefixes, hcs, hback]

/-- A reference resolves to what stands behind a known prefix and a colon, unless that is empty. -/
theorem resolve_eq_ok_iff {reference name : String} :
    resolve reference = .ok name ↔
      name ≠ "" ∧ (reference = "xsd:" ++ name ∨ reference = "tns:" ++ name) := by
  rw [← referredName?_eq_some_iff, resolve]
  cases referredName? reference with
  | none => simp
  | some name' => simp

/-- An optional reference resolves exactly if it is missing or resolves. -/
theorem resolve?_eq_ok_iff {reference? name? : Option String} :
    resolve? reference? = .ok name? ↔
      (reference? = none ∧ name? = none) ∨
        ∃ reference name, reference? = some reference ∧ resolve reference = .ok name ∧
          name? = some name := by
  cases reference? with
  | none => simp [resolve?, eq_comm]
  | some reference =>
    simp only [resolve?, except_map_eq_ok_iff, reduceCtorEq, false_and, false_or]
    constructor
    · rintro ⟨name, hresolve, rfl⟩
      exact ⟨reference, name, rfl, hresolve, rfl⟩
    · rintro ⟨_, name, hreference, hresolve, rfl⟩
      obtain rfl := Option.some.inj hreference
      exact ⟨name, hresolve, rfl⟩

/-- A field is given by an element with a name and a type of its own. -/
theorem fieldOf_eq_some_iff {e : Element} {f : Field} :
    (fieldOf e).result = .ok (some f) ↔
      ∃ name reference type, e.attribute? "name" = some name ∧
        e.attribute? "type" = some reference ∧ resolve reference = .ok type ∧
        f = ⟨name, type, e.attribute? "maxOccurs" == some "unbounded",
          e.attribute? "minOccurs" == some "0"⟩ := by
  unfold fieldOf
  cases hname : e.attribute? "name" with
  | none => simp
  | some name =>
    cases htype : e.attribute? "type" with
    | none => simp
    | some reference =>
      simp only [Report.ofExcept, except_map_eq_ok_iff, Option.some.injEq]
      constructor
      · rintro ⟨type, hresolve, rfl⟩
        exact ⟨name, reference, type, rfl, rfl, hresolve, rfl⟩
      · rintro ⟨_, _, type, rfl, rfl, hresolve, rfl⟩
        exact ⟨type, hresolve, rfl⟩

/-- An extension with a base gives a type with the fields of its sequence. -/
theorem extensionOf_eq_some_iff {name : String} {extension : Element} {t : ComplexType} :
    (extensionOf name extension).result = .ok (some t) ↔
      ∃ reference fields base, extension.attribute? "base" = some reference ∧
        (sequenceFieldsOf extension).result = .ok fields ∧ resolve reference = .ok base ∧
        t = ⟨name, some base, fields⟩ := by
  cases hbase : extension.attribute? "base" with
  | none => simp [extensionOf, hbase, passOver]
  | some reference =>
    simp only [extensionOf, hbase, Report.bind_eq_bind, Report.pure_eq_ok, Report.result_bind,
      Report.result_ok, Report.result_ofExcept, except_bind_eq_ok_iff, Except.ok.injEq,
      Option.some.injEq]
    constructor
    · rintro ⟨fields, hfields, base, hresolve, rfl⟩
      exact ⟨reference, fields, base, rfl, hfields, hresolve, rfl⟩
    · rintro ⟨_, fields, base, rfl, hfields, hresolve, rfl⟩
      exact ⟨fields, hfields, base, hresolve, rfl⟩

/-- A complex type is given by its sequence, unless that holds wildcards only, or else by an
extension in its complex content. -/
theorem complexTypeOf_eq_some_iff {e : Element} {t : ComplexType} :
    (complexTypeOf e).result = .ok (some t) ↔
      ∃ name, e.attribute? "name" = some name ∧
        ((∃ sequence fields, e.child? "sequence" = some sequence ∧
            isWildcardOnly sequence = false ∧
            (fieldsOf (sequence.childrenNamed "element")).result = .ok fields ∧
            t = ⟨name, none, fields⟩) ∨
          e.child? "sequence" = none ∧ ∃ extension,
            e.descend? ["complexContent", "extension"] = some extension ∧
            (extensionOf name extension).result = .ok (some t)) := by
  unfold complexTypeOf
  cases hname : e.attribute? "name" with
  | none => simp [passOver]
  | some name =>
    cases hsequence : e.child? "sequence" with
    | some sequence =>
      cases hwildcard : isWildcardOnly sequence with
      | true => simp [hwildcard, passOver]
      | false =>
        simp only [hwildcard, Report.bind_eq_bind, Report.pure_eq_ok, Report.result_bind,
          Report.result_ok, except_bind_eq_ok_iff, Bool.false_eq_true, if_false, Except.ok.injEq,
          Option.some.injEq, reduceCtorEq, false_and, or_false, exists_eq_left']
        constructor
        · rintro ⟨fields, hfields, rfl⟩
          exact ⟨sequence, fields, rfl, hwildcard, hfields, rfl⟩
        · rintro ⟨_, fields, rfl, -, hfields, rfl⟩
          exact ⟨fields, hfields, rfl⟩
    | none =>
      cases hextension : e.descend? ["complexContent", "extension"] with
      | none => simp [passOver]
      | some extension => simp

/-- A top-level element gives a type if it has a name and a complex type with a sequence. -/
theorem elementTypeOf_eq_some_iff {e : Element} {t : ComplexType} :
    (elementTypeOf e).result = .ok (some t) ↔
      ∃ name sequence fields, e.attribute? "name" = some name ∧
        e.descend? ["complexType", "sequence"] = some sequence ∧
        (fieldsOf (sequence.childrenNamed "element")).result = .ok fields ∧
        t = ⟨name, none, fields⟩ := by
  unfold elementTypeOf
  cases hsequence : e.descend? ["complexType", "sequence"] with
  | none => simp
  | some sequence =>
    cases hname : e.attribute? "name" with
    | none => simp [passOver]
    | some name =>
      simp only [Report.bind_eq_bind, Report.pure_eq_ok, Report.result_bind, Report.result_ok,
        except_bind_eq_ok_iff, Except.ok.injEq, Option.some.injEq]
      constructor
      · rintro ⟨fields, hfields, rfl⟩
        exact ⟨name, sequence, fields, rfl, rfl, hfields, rfl⟩
      · rintro ⟨_, _, fields, rfl, rfl, hfields, rfl⟩
        exact ⟨fields, hfields, rfl⟩

/-- A simple type is given by a restriction with an enumeration or, failing that, a base. -/
theorem simpleTypeOf_eq_ok_iff {e : Element} {t : SimpleType} :
    simpleTypeOf e = .ok t ↔
      ∃ name restriction base, e.attribute? "name" = some name ∧
        e.child? "restriction" = some restriction ∧
        resolve? (restriction.attribute? "base") = .ok base ∧
        ((restriction.childrenNamed "enumeration" ≠ [] ∧
            t = ⟨name, base, some ((restriction.childrenNamed "enumeration").filterMap
              (·.attribute? "value"))⟩) ∨
          (restriction.childrenNamed "enumeration" = [] ∧ base ≠ none ∧
            t = ⟨name, base, none⟩)) := by
  unfold simpleTypeOf
  cases hname : e.attribute? "name" with
  | none => simp
  | some name =>
    cases hrestriction : e.child? "restriction" with
    | none => simp
    | some restriction =>
      simp only [except_bind_eq_ok_iff, Option.some.injEq]
      constructor
      · rintro ⟨base, hbase, hmatch⟩
        refine ⟨name, restriction, base, rfl, rfl, hbase, ?_⟩
        cases hvalues : restriction.childrenNamed "enumeration" with
        | nil =>
          rw [hvalues] at hmatch
          cases base with
          | none => cases hmatch
          | some base => exact Or.inr ⟨rfl, by simp, (Except.ok.inj hmatch).symm⟩
        | cons value values =>
          rw [hvalues] at hmatch
          exact Or.inl ⟨by simp, (Except.ok.inj hmatch).symm⟩
      · rintro ⟨_, _, base, rfl, rfl, hbase, hcontent⟩
        refine ⟨base, hbase, ?_⟩
        rcases hcontent with ⟨hvalues, rfl⟩ | ⟨hvalues, hsome, rfl⟩
        · obtain ⟨value, values, heq⟩ := List.exists_cons_of_ne_nil hvalues
          rw [heq]
        · obtain ⟨base', rfl⟩ := Option.ne_none_iff_exists'.1 hsome
          rw [hvalues]

theorem simpleTypesOf_eq_ok_iff {es : List Element} {ts : List SimpleType} :
    simpleTypesOf es = .ok ts ↔
      ∃ us, es.mapM simpleTypeOf = .ok us ∧ us.mergeSort (·.name ≤ ·.name) = ts :=
  except_map_eq_ok_iff

theorem complexTypesOf_eq_ok_iff {es : List Element} {ts : List ComplexType} :
    (complexTypesOf es).result = .ok ts ↔
      ∃ us, (Report.collect complexTypeOf es).result = .ok us ∧
        us.mergeSort (·.name ≤ ·.name) = ts := by
  simp only [complexTypesOf, Report.bind_eq_bind, Report.pure_eq_ok, Report.result_bind,
    Report.result_ok, except_bind_eq_ok_iff, Except.ok.injEq]

/-- A schema element gives a schema if each group of its children gives types. -/
theorem ofSchemaElement_eq_ok_iff {schema : Element} {s : Schema} :
    (ofSchemaElement schema).result = .ok s ↔
      ∃ ofElements simple named,
        (elementTypesOf (schema.childrenNamed "element")).result = .ok ofElements ∧
        simpleTypesOf (schema.childrenNamed "simpleType") = .ok simple ∧
        (complexTypesOf (schema.childrenNamed "complexType")).result = .ok named ∧
        s = ⟨simple, ofElements ++ named⟩ := by
  simp only [ofSchemaElement, Report.bind_eq_bind, Report.pure_eq_ok, Report.result_bind,
    Report.result_ok, Report.result_ofExcept, Report.result_tell, except_bind_eq_ok_iff,
    Except.ok.injEq, true_and, exists_const]
  constructor
  · rintro ⟨ofElements, helements, simple, hsimple, named, hnamed, rfl⟩
    exact ⟨ofElements, simple, named, helements, hsimple, hnamed, rfl⟩
  · rintro ⟨ofElements, simple, named, helements, hsimple, hnamed, rfl⟩
    exact ⟨ofElements, helements, simple, hsimple, named, hnamed, rfl⟩

/-- A root element gives the schema of its first schema element. -/
theorem ofRoot_eq_ok_iff {root : Element} {s : Schema} :
    (ofRoot root).result = .ok s ↔
      root.localName = "definitions" ∧ ∃ schema, root.descend? ["types", "schema"] = some schema ∧
        (ofSchemaElement schema).result = .ok s := by
  unfold ofRoot
  by_cases hname : root.localName = "definitions"
  · cases hschema : root.descend? ["types", "schema"] with
    | none => simp [hname, Report.fail]
    | some schema => simp [hname]
  · simp [hname, Report.fail]

end SoapTypes.Schema
