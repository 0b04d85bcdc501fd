import SoapTypes.Proofs.Extraction.Declarations
import SoapTypes.TypeScript.OfSchema

/-!
# Unions of literals

A union is read as literals with a bar between two of them, a literal as what stands between two
quotes with its escapes resolved. A written union has exactly one reading, its own literals,
whatever these are: inside of a literal no quote stands alone, so that each literal ends where it
was ended. So the values of an enumeration are found again in the alias that is made of it.
-/

namespace SoapTypes.TypeScript

/-- What a character means behind a backslash. -/
inductive Escaped : Char → Char → Prop
  | quote : Escaped '"' '"'
  | backslash : Escaped '\\' '\\'
  | lineFeed : Escaped 'n' '\n'
  | carriageReturn : Escaped 'r' '\r'
  | tab : Escaped 't' '\t'

/-- The inside of a literal and the value that it stands for. A quote, a backslash and the ends of
lines do not stand for themselves. -/
inductive BodyReads : List Char → List Char → Prop
  | nil : BodyReads [] []
  | plain {c : Char} {body value : List Char} (hquote : c ≠ '"') (hbackslash : c ≠ '\\')
      (hlineFeed : c ≠ '\n') (hreturn : c ≠ '\r') (hrest : BodyReads body value) :
      BodyReads (c :: body) (c :: value)
  | escaped {m c : Char} {body value : List Char} (hmark : Escaped m c)
      (hrest : BodyReads body value) : BodyReads ('\\' :: m :: body) (c :: value)

/-- A union and the values of its literals, of which there is at least one. -/
inductive UnionReads : List Char → List String → Prop
  | single {body value : List Char} (hbody : BodyReads body value) :
      UnionReads ('"' :: (body ++ ['"'])) [String.ofList value]
  | cons {body value union : List Char} {values : List String} (hbody : BodyReads body value)
      (hrest : UnionReads union values) :
      UnionReads ('"' :: (body ++ '"' :: (" | ".toList ++ union))) (String.ofList value :: values)

theorem Escaped.unique {m c d : Char} (hc : Escaped m c) (hd : Escaped m d) : c = d := by
  cases hc <;> cases hd <;> rfl

/-- Of a text that goes on behind a literal both the value and the rest are determined: the first
quote without a backslash ends the literal. -/
theorem BodyReads.unique {body body' value value' rest rest' : List Char}
    (h : BodyReads body value) (h' : BodyReads body' value')
    (heq : body ++ '"' :: rest = body' ++ '"' :: rest') : value = value' ∧ rest = rest' := by
  induction h generalizing body' value' with
  | nil =>
    cases h' with
    | nil => exact ⟨rfl, (List.cons.inj heq).2⟩
    | plain hquote => exact absurd (List.cons.inj heq).1.symm hquote
    | escaped => exact absurd (List.cons.inj heq).1 (by decide)
  | plain hquote hbackslash _ _ _ ih =>
    cases h' with
    | nil => exact absurd (List.cons.inj heq).1 hquote
    | plain _ _ _ _ hrest' =>
      obtain ⟨rfl, htail⟩ := List.cons.inj heq
      obtain ⟨rfl, hrest⟩ := ih hrest' htail
      exact ⟨rfl, hrest⟩
    | escaped => exact absurd (List.cons.inj heq).1 hbackslash
  | escaped hmark _ ih =>
    cases h' with
    | nil => exact absurd (List.cons.inj heq).1 (by decide)
    | plain _ hbackslash => exact absurd (List.cons.inj heq).1.symm hbackslash
    | escaped hmark' hrest' =>
      obtain ⟨hm, htail⟩ := List.cons.inj (List.cons.inj heq).2
      obtain rfl := (hm ▸ hmark).unique hmark'
      obtain ⟨rfl, hrest⟩ := ih hrest' htail
      exact ⟨rfl, hrest⟩

/-- A union has at most one reading. -/
theorem UnionReads.unique {union : List Char} {values values' : List String}
    (h : UnionReads union values) (h' : UnionReads union values') : values = values' := by
  induction h generalizing values' with
  | single hbody =>
    generalize hunion : '"' :: _ = union at h'
    cases h' with
    | single hbody' =>
      rw [(hbody.unique hbody' (List.cons.inj hunion).2).1]
    | cons hbody' => cases (hbody.unique hbody' (List.cons.inj hunion).2).2
  | cons hbody _ ih =>
    generalize hunion : '"' :: _ = union at h'
    cases h' with
    | single hbody' => cases (hbody.unique hbody' (List.cons.inj hunion).2).2
    | cons hbody' hrest' =>
      obtain ⟨rfl, hrest⟩ := hbody.unique hbody' (List.cons.inj hunion).2
      rw [ih (List.append_cancel_left hrest ▸ hrest')]

/-- The inside of a literal has no line feed: it is escaped. -/
theorem BodyReads.lineFeed_notMem {body value : List Char} (h : BodyReads body value) :
    '\n' ∉ body := by
  induction h with
  | nil => exact List.not_mem_nil
  | plain _ _ hlineFeed _ _ ih =>
    simp only [List.mem_cons, not_or]
    exact ⟨hlineFeed.symm, ih⟩
  | escaped hmark _ ih =>
    simp only [List.mem_cons, not_or]
    exact ⟨by decide, by cases hmark <;> decide, ih⟩

/-- Neither has a union. -/
theorem UnionReads.lineFeed_notMem {union : List Char} {values : List String}
    (h : UnionReads union values) : '\n' ∉ union := by
  induction h with
  | single hbody => simpa using hbody.lineFeed_notMem
  | cons hbody _ ih => simpa using ⟨hbody.lineFeed_notMem, ih⟩

/-- A union begins with a quote. -/
theorem UnionReads.quote_mem {union : List Char} {values : List String}
    (h : UnionReads union values) : '"' ∈ union := by
  cases h <;> exact List.mem_cons_self

/-- An escaped text reads as the text. -/
theorem bodyReads_escape (value : List Char) : BodyReads (value.flatMap escapeChar) value := by
  induction value with
  | nil => exact .nil
  | cons c value ih =>
    rw [List.flatMap_cons]
    unfold escapeChar
    split
    · exact .escaped .quote ih
    · exact .escaped .backslash ih
    · exact .escaped .lineFeed ih
    · exact .escaped .carriageReturn ih
    · exact .escaped .tab ih
    · exact .plain ‹_› ‹_› ‹_› ‹_› ih

theorem text_union_cons_cons (l m : String) (ls : List String) :
    (TypeExpr.union (l :: m :: ls)).text = quote l ++ " | " ++ (TypeExpr.union (m :: ls)).text := by
  simp only [TypeExpr.text, List.map_cons, String.intercalate_cons_cons]

/-- A written union reads as its literals. -/
theorem unionReads_text {literals : List String} (h : literals ≠ []) :
    UnionReads (TypeExpr.union literals).text.toList literals := by
  induction literals with
  | nil => exact absurd rfl h
  | cons l ls ih =>
    have hbody := bodyReads_escape l.toList
    cases ls with
    | nil =>
      have hsingle := UnionReads.single hbody
      rw [← toList_quote, String.ofList_toList] at hsingle
      simpa [TypeExpr.text] using hsingle
    | cons m ls =>
      have hcons := UnionReads.cons hbody (ih (List.cons_ne_nil m ls))
      rw [String.ofList_toList] at hcons
      rw [text_union_cons_cons, String.toList_append, String.toList_append, toList_quote]
      simpa using hcons

/-- A written union reads as its literals and as nothing else. -/
theorem unionReads_text_iff {literals values : List String} (h : literals ≠ []) :
    UnionReads (TypeExpr.union literals).text.toList values ↔ values = literals := by
  constructor
  · intro hvalues
    exact hvalues.unique (unionReads_text h)
  · rintro rfl
    exact unionReads_text h

end SoapTypes.TypeScript

namespace SoapTypes

open TypeScript

/-- The values of an enumeration, in the order of the document. -/
def Schema.enumeratedValues (restriction : Xml.Element) : List String :=
  (restriction.childrenNamed "enumeration").filterMap (·.attribute? "value")

/-- A simple type with an enumeration has the values of the enumeration as its literals. -/
theorem Schema.exists_simpleTypeOf_of_enumeration {e restriction : Xml.Element} {name : String}
    (hname : e.attribute? "name" = some name)
    (hrestriction : e.child? "restriction" = some restriction)
    (henumeration : restriction.childrenNamed "enumeration" ≠ [])
    (hbase : ∀ reference, restriction.attribute? "base" = some reference →
      ∃ type, resolve reference = .ok type) :
    ∃ base, simpleTypeOf e = .ok ⟨name, base, some (enumeratedValues restriction)⟩ := by
  have hresolve : ∃ base, resolve? (restriction.attribute? "base") = .ok base := by
    cases hreference : restriction.attribute? "base" with
    | none => exact ⟨none, rfl⟩
    | some reference =>
      obtain ⟨type, htype⟩ := hbase reference hreference
      exact ⟨some type, resolve?_eq_ok_iff.2 (Or.inr ⟨reference, type, rfl, htype, rfl⟩)⟩
  obtain ⟨base, hresolve⟩ := hresolve
  exact ⟨base, simpleTypeOf_eq_ok_iff.2
    ⟨name, restriction, base, hname, hrestriction, hresolve, Or.inl ⟨henumeration, rfl⟩⟩⟩

/-- **Enumerations survive.** A named simple type whose restriction has an enumeration, and a base
that can be resolved if any, is extracted and written. What is written behind its name has exactly
one reading as a union, the values of the enumeration in their order; without values it is the
empty type. -/
theorem enumeration_reading {e restriction : Xml.Element} {name : String}
    (hname : e.attribute? "name" = some name)
    (hrestriction : e.child? "restriction" = some restriction)
    (henumeration : restriction.childrenNamed "enumeration" ≠ [])
    (hbase : ∀ reference, restriction.attribute? "base" = some reference →
      ∃ type, Schema.resolve reference = .ok type) :
    ∃ t a written, Schema.simpleTypeOf e = .ok t ∧ t.alias = .ok a ∧
      a.line = "export type " ++ name ++ " = " ++ written ++ ";" ∧
      (Schema.enumeratedValues restriction ≠ [] →
        ∀ values, UnionReads written.toList values ↔
          values = Schema.enumeratedValues restriction) ∧
      (Schema.enumeratedValues restriction = [] → written = "never") := by
  obtain ⟨base, ht⟩ :=
    Schema.exists_simpleTypeOf_of_enumeration hname hrestriction henumeration hbase
  refine ⟨_, ⟨name, .union (Schema.enumeratedValues restriction)⟩, _, ht, rfl, rfl, ?_, ?_⟩
  · intro hvalues values
    exact unionReads_text_iff hvalues
  · intro hempty
    rw [hempty]
    rfl

/-- A restriction to values that look like several literals, hold ends of lines and backslashes,
are missing and are repeated. -/
def awkwardRestriction : Xml.Element :=
  ⟨"xsd:restriction", [("base", "xsd:string")], [
    ⟨"xsd:enumeration", [("value", "a\" | \"b")], []⟩, ⟨"xsd:enumeration", [], []⟩,
    ⟨"xsd:enumeration", [("value", "\\\n")], []⟩, ⟨"xsd:enumeration", [("value", "\\\n")], []⟩]⟩

/-- The enumeration of these values. -/
def awkwardEnumeration : Xml.Element :=
  ⟨"xsd:simpleType", [("name", "Odd")], [awkwardRestriction]⟩

/-- The one reading of the alias of an enumeration, as `enumeration_reading` gives it. -/
theorem awkwardEnumeration_reading :
    ∃ t a written, Schema.simpleTypeOf awkwardEnumeration = .ok t ∧ t.alias = .ok a ∧
      a.line = "export type " ++ "Odd" ++ " = " ++ written ++ ";" ∧
      ∀ values, UnionReads written.toList values ↔ values = ["a\" | \"b", "\\\n", "\\\n"] := by
  have hname : awkwardEnumeration.attribute? "name" = some "Odd" := by decide
  have hrestriction : awkwardEnumeration.child? "restriction" = some awkwardRestriction := rfl
  have henumeration : awkwardRestriction.childrenNamed "enumeration" ≠ [] := by decide
  have hbase : ∀ reference, awkwardRestriction.attribute? "base" = some reference →
      ∃ type, Schema.resolve reference = .ok type := by
    intro reference hreference
    obtain rfl : "xsd:string" = reference := Option.some.inj hreference
    exact ⟨"string", by decide⟩
  obtain ⟨t, a, written, ht, ha, hline, hreading, -⟩ :=
    enumeration_reading hname hrestriction henumeration hbase
  exact ⟨t, a, written, ht, ha, hline, hreading (by decide)⟩

end SoapTypes
