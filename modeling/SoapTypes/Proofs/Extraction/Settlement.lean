import SoapTypes.Proofs.Extraction.Recorded

/-!
# How declarations settle

A declaration that does not fail gives a complex type or none. What is told while it is read says
which elements of its sequence give no field, in the first case, and why it is skipped in the
second. Of simple types, and of elements that have no type of their own, nothing is told.
-/

namespace SoapTypes

/-- Whether a notice tells that a complex type is passed over. -/
def Notice.skipsComplexType : Notice → Bool
  | unnamedComplexType | wildcardContent _ | extensionWithoutBase _ | noContent _ => true
  | _ => false

/-- Whether a notice tells that an element of a sequence is passed over. -/
def Notice.skipsField : Notice → Bool
  | fieldWithoutType _ => true
  | _ => false

theorem Notice.skipsComplexType_of_skipsField {notice : Notice} (h : notice.skipsField = true) :
    notice.skipsComplexType = false := by
  cases notice with
  | fieldWithoutType label => rfl
  | _ => cases h

namespace Schema

open Xml

/-- The elements that give no field. -/
def untyped (es : List Element) : List Element :=
  es.filter (!recordsField ·)

/-- The notice of an element that gives no field. It tells the name of the element or, failing that,
the reference to another one. -/
def untypedNotice (e : Element) : Notice :=
  .fieldWithoutType (((e.attribute? "name").or (e.attribute? "ref")).getD "<unnamed>")

/-- Of an element of a sequence something is told exactly if it gives no field. -/
theorem notices_fieldOf (e : Element) :
    (fieldOf e).notices = if recordsField e then [] else [untypedNotice e] := by
  unfold fieldOf recordsField untypedNotice
  cases hname : e.attribute? "name" with
  | none => rfl
  | some name => cases e.attribute? "type" <;> rfl

/-- The notices of a sequence stand for its elements that give no field, in order. -/
theorem notices_fieldsOf {es : List Element} {fields : List Field}
    (h : (fieldsOf es).result = .ok fields) :
    (fieldsOf es).notices = (untyped es).map untypedNotice := by
  rw [fieldsOf, Report.notices_collect h]
  clear h
  induction es with
  | nil => rfl
  | cons e es ih =>
    rw [List.flatMap_cons, ih, notices_fieldOf, untyped, untyped, List.filter_cons]
    cases recordsField e <;> rfl

namespace Declaration

/-- What is told while a declaration is read. -/
def notices : Declaration → List Notice
  | element e => (elementTypeOf e).notices
  | simpleType _ => []
  | complexType e => (complexTypeOf e).notices

/-- The complex type that a declaration gives, if it gives one. -/
def complexType? (d : Declaration) : Option ComplexType :=
  match d.outcome with
  | .ok (some (.inr t)) => some t
  | _ => none

/-- The declarations that are passed over with a notice, and this notice. -/
inductive SkippedWith : Declaration → Notice → Prop
  | unnamedElement {e sequence : Element} (hname : e.attribute? "name" = none)
      (hsequence : e.descend? ["complexType", "sequence"] = some sequence) :
      SkippedWith (.element e) .unnamedElement
  | unnamedComplexType {e : Element} (hname : e.attribute? "name" = none) :
      SkippedWith (.complexType e) .unnamedComplexType
  | wildcards {e sequence : Element} {name : String} (hname : e.attribute? "name" = some name)
      (hsequence : e.child? "sequence" = some sequence)
      (hwildcard : isWildcardOnly sequence = true) :
      SkippedWith (.complexType e) (.wildcardContent name)
  | noBase {e extension : Element} {name : String} (hname : e.attribute? "name" = some name)
      (hsequence : e.child? "sequence" = none)
      (hextension : e.descend? ["complexContent", "extension"] = some extension)
      (hbase : extension.attribute? "base" = none) :
      SkippedWith (.complexType e) (.extensionWithoutBase name)
  | noContent {e : Element} {name : String} (hname : e.attribute? "name" = some name)
      (hsequence : e.child? "sequence" = none)
      (hextension : e.descend? ["complexContent", "extension"] = none) :
      SkippedWith (.complexType e) (.noContent name)

/-- What becomes of a declaration: the complex type that it gives, if any, and what is told. Of
simple types and of elements that have no type of their own nothing is told. -/
inductive Settles : Declaration → Option ComplexType → List Notice → Prop
  | recorded {d : Declaration} {t : ComplexType} (h : d.outcome = .ok (some (.inr t))) :
      Settles d (some t) ((untyped d.listed).map untypedNotice)
  | skipped {d : Declaration} {notice : Notice} (h : d.SkippedWith notice) :
      Settles d none [notice]
  | noSequence {e : Element} (hsequence : e.descend? ["complexType", "sequence"] = none) :
      Settles (.element e) none []
  | simpleType (e : Element) : Settles (.simpleType e) none []

/-- An element with a sequence of its own is recorded, or skipped with a notice. -/
theorem settles_element {e : Element} {o : Option ComplexType}
    (h : (elementTypeOf e).result = .ok o) :
    (element e).Settles o (elementTypeOf e).notices := by
  cases o with
  | none =>
    cases hsequence : e.descend? ["complexType", "sequence"] with
    | none =>
      rw [elementTypeOf, hsequence]
      exact .noSequence hsequence
    | some sequence =>
      cases elementTypeOf_eq_none_iff.1 h with
      | noInlineSequence hnone => cases hsequence.symm.trans hnone
      | unnamedElement hname =>
        simp only [elementTypeOf, hsequence, hname]
        exact .skipped (.unnamedElement hname hsequence)
  | some t =>
    obtain ⟨name, sequence, fields, hname, hsequence, hfields, -⟩ := elementTypeOf_eq_some_iff.1 h
    have hnotices : (elementTypeOf e).notices = (untyped (element e).listed).map untypedNotice := by
      rw [listed, hsequence]
      simp only [elementTypeOf, hsequence, hname, Report.bind_eq_bind, Report.pure_eq_ok]
      rw [Report.notices_bind_ok]
      exact notices_fieldsOf hfields
    rw [hnotices]
    exact .recorded (outcome_element_iff.2 h)

/-- Of an extension that gives a type the elements of its sequence are told that give no field. -/
theorem notices_extensionOf {name : String} {extension : Element} {t : ComplexType}
    (h : (extensionOf name extension).result = .ok (some t)) :
    (extensionOf name extension).notices =
      (untyped (elementsOf (extension.child? "sequence"))).map untypedNotice := by
  obtain ⟨reference, fields, base, hbase, hfields, hresolve, -⟩ := extensionOf_eq_some_iff.1 h
  have hsequence : (sequenceFieldsOf extension).notices =
      (untyped (elementsOf (extension.child? "sequence"))).map untypedNotice := by
    unfold sequenceFieldsOf at hfields ⊢
    cases hinner : extension.child? "sequence" with
    | none => rfl
    | some sequence =>
      rw [hinner] at hfields
      exact notices_fieldsOf hfields
  simp only [extensionOf, hbase, Report.bind_eq_bind, Report.pure_eq_ok]
  rw [Report.notices_bind_of_result_eq_ok hfields, Report.notices_bind_ok, hsequence]
  exact List.append_nil _

/-- A complex type is recorded, or skipped with a notice. -/
theorem settles_complexType {e : Element} {o : Option ComplexType}
    (h : (complexTypeOf e).result = .ok o) :
    (complexType e).Settles o (complexTypeOf e).notices := by
  cases o with
  | none =>
    cases hname : e.attribute? "name" with
    | none =>
      rw [complexTypeOf, hname]
      exact .skipped (.unnamedComplexType hname)
    | some name =>
      cases complexTypeOf_eq_none_iff.1 h with
      | unnamedComplexType hnone => cases hname.symm.trans hnone
      | wildcards hsequence hwildcard =>
        simp only [complexTypeOf, hname, hsequence, hwildcard, if_true]
        exact .skipped (.wildcards hname hsequence hwildcard)
      | noBase hsequence hextension hbase =>
        simp only [complexTypeOf, hname, hsequence, hextension, extensionOf, hbase]
        exact .skipped (.noBase hname hsequence hextension hbase)
      | noContent hsequence hextension =>
        simp only [complexTypeOf, hname, hsequence, hextension]
        exact .skipped (.noContent hname hsequence hextension)
  | some t =>
    have hnotices : (complexTypeOf e).notices =
        (untyped (complexType e).listed).map untypedNotice := by
      obtain ⟨name, hname, ⟨sequence, fields, hsequence, hwildcard, hfields, -⟩ |
        ⟨hsequence, extension, hextension, htype⟩⟩ := complexTypeOf_eq_some_iff.1 h
      · rw [listed, hsequence, Option.some_or]
        simp only [complexTypeOf, hname, hsequence, hwildcard, Bool.false_eq_true, if_false,
          Report.bind_eq_bind, Report.pure_eq_ok]
        rw [Report.notices_bind_ok]
        exact notices_fieldsOf hfields
      · rw [listed, hsequence, hextension, Option.none_or, Option.bind_some]
        simp only [complexTypeOf, hname, hsequence, hextension]
        exact notices_extensionOf htype
    rw [hnotices]
    exact .recorded (outcome_complexType_iff.2 h)

/-- What is skipped is passed over. -/
theorem SkippedWith.outcome_eq {d : Declaration} {notice : Notice} (h : d.SkippedWith notice) :
    d.outcome = .ok none := by
  rw [outcome_eq_none_iff]
  cases h with
  | unnamedElement hname => exact .unnamedElement hname
  | unnamedComplexType hname => exact .unnamedComplexType hname
  | wildcards _ hsequence hwildcard => exact .wildcards hsequence hwildcard
  | noBase _ hsequence hextension hbase => exact .noBase hsequence hextension hbase
  | noContent _ hsequence hextension => exact .noContent hsequence hextension

/-- The notice of a complex type that is skipped says so. -/
theorem SkippedWith.skipsComplexType {e : Element} {notice : Notice}
    (h : (complexType e).SkippedWith notice) : notice.skipsComplexType = true := by
  cases h <;> rfl

/-- No notice of a declaration that is skipped is about a field. -/
theorem SkippedWith.skipsField {d : Declaration} {notice : Notice} (h : d.SkippedWith notice) :
    notice.skipsField = false := by
  cases h <;> rfl

/-- A declaration gives a type if its outcome is that type. -/
theorem complexType?_eq_some_iff {d : Declaration} {t : ComplexType} :
    d.complexType? = some t ↔ d.outcome = .ok (some (.inr t)) := by
  unfold complexType?
  split
  · next u h => simp [h]
  · next h => exact iff_of_false nofun (h t)

theorem Settles.complexType?_eq {d : Declaration} {o : Option ComplexType} {notices : List Notice}
    (h : d.Settles o notices) : d.complexType? = o := by
  have hnone (hd : d.outcome = .ok none) : d.complexType? = none := by
    rw [complexType?, hd]
  cases h with
  | recorded h => rw [complexType?, h]
  | skipped h => exact hnone h.outcome_eq
  | noSequence hsequence => exact hnone (outcome_eq_none_iff.2 (.noInlineSequence hsequence))
  | simpleType e =>
    rw [Option.eq_none_iff_forall_ne_some]
    exact fun t ht => outcome_simpleType_ne (complexType?_eq_some_iff.1 ht)

/-- A declaration settles as it is read. -/
def Settled (d : Declaration) : Prop :=
  d.Settles d.complexType? d.notices

/-- Every declaration that does not fail settles. -/
theorem settled_of_outcome {d : Declaration} {o : Option (SimpleType ⊕ ComplexType)}
    (h : d.outcome = .ok o) : d.Settled := by
  have hsettles : ∃ o, d.Settles o d.notices := by
    cases d with
    | element e =>
      obtain ⟨t?, ht, -⟩ := except_map_eq_ok_iff.1 h
      exact ⟨t?, settles_element ht⟩
    | simpleType e => exact ⟨none, .simpleType e⟩
    | complexType e =>
      obtain ⟨t?, ht, -⟩ := except_map_eq_ok_iff.1 h
      exact ⟨t?, settles_complexType ht⟩
  obtain ⟨o, hsettles⟩ := hsettles
  rwa [Settled, hsettles.complexType?_eq]

end Declaration

end Schema

end SoapTypes
