import SoapTypes.Proofs.Writing.Layout
import SoapTypes.Proofs.Writing.Writable

/-!
# Documents tell their types

If all names in a schema are plain, the text of its document determines which types it declares and
what it declares of them, in their order, whatever the literals of the simple types are.
-/

namespace SoapTypes

open TypeScript Text

/-- A simple type whose names are plain. -/
structure SimpleType.Plain (t : SimpleType) : Prop where
  name : PlainName t.name
  base : ∀ base ∈ t.base, PlainName base

/-- A complex type whose names are plain. -/
structure ComplexType.Plain (t : ComplexType) : Prop where
  name : PlainName t.name
  base : ∀ base ∈ t.base, PlainName base
  fieldName : ∀ f ∈ t.fields, PlainName f.name
  fieldType : ∀ f ∈ t.fields, PlainName f.type

/-- A schema whose names are plain; its literals may be any texts. -/
structure Schema.Plain (s : Schema) : Prop where
  simple : ∀ t ∈ s.simpleTypes, t.Plain
  complex : ∀ t ∈ s.complexTypes, t.Plain

instance (t : SimpleType) : Decidable t.Plain :=
  decidable_of_iff (PlainName t.name ∧ ∀ base ∈ t.base, PlainName base)
    ⟨fun h => ⟨h.1, h.2⟩, fun h => ⟨h.name, h.base⟩⟩

instance (t : ComplexType) : Decidable t.Plain :=
  decidable_of_iff (PlainName t.name ∧ (∀ base ∈ t.base, PlainName base) ∧
      (∀ f ∈ t.fields, PlainName f.name) ∧ ∀ f ∈ t.fields, PlainName f.type)
    ⟨fun h => ⟨h.1, h.2.1, h.2.2.1, h.2.2.2⟩,
      fun h => ⟨h.name, h.base, h.fieldName, h.fieldType⟩⟩

instance (s : Schema) : Decidable s.Plain :=
  decidable_of_iff ((∀ t ∈ s.simpleTypes, t.Plain) ∧ ∀ t ∈ s.complexTypes, t.Plain)
    ⟨fun h => ⟨h.1, h.2⟩, fun h => ⟨h.simple, h.complex⟩⟩

/-- What a simple type stands for: its literals if it has any, the empty type if its enumeration
has none, and otherwise what its base stands for. -/
def SimpleType.meaning (t : SimpleType) : Option TypeExpr :=
  match t.literals with
  | some [] => some (.name "never")
  | some (l :: ls) => some (.union (l :: ls))
  | none => t.base.map fun base => .name (typeName base)

/-- What a document tells of a simple type. -/
def SimpleType.told (t : SimpleType) : String × Option TypeExpr :=
  (t.name, t.meaning)

/-- What a document tells of a complex type: its name and its base as they are written, and the
name and the type of each field and whether it repeats. -/
def ComplexType.told (t : ComplexType) : String × Option String × List (String × String × Bool) :=
  (capitalize t.name, t.base.map capitalize,
    t.fields.map fun f => (f.name, typeName f.type, f.isArray))

theorem plainName_primitiveName (p : Primitive) : PlainName (primitiveName p) := by
  cases p <;> decide

/-- What a plain name stands for is a plain name. -/
theorem plainName_typeName {name : String} (h : PlainName name) : PlainName (typeName name) := by
  unfold typeName
  cases Primitive.ofName? name with
  | none => exact h
  | some p => exact plainName_primitiveName p

/-- The alias of a plain simple type is written as what the type stands for. -/
theorem exists_meaning_of_alias {t : SimpleType} {a : Alias} (ht : t.Plain)
    (ha : t.alias = .ok a) :
    a.name = t.name ∧ ∃ e, t.meaning = some e ∧ e.Plain ∧ a.type.text = e.text := by
  obtain ⟨name, base, literals⟩ := t
  cases literals with
  | some literals =>
    obtain rfl := Except.ok.inj ha
    cases literals with
    | nil =>
      have hplain : PlainName "never" := by decide
      exact ⟨rfl, .name "never", rfl, hplain, rfl⟩
    | cons l ls => exact ⟨rfl, .union (l :: ls), rfl, List.cons_ne_nil l ls, rfl⟩
  | none =>
    cases base with
    | none => cases ha
    | some base =>
      obtain rfl := Except.ok.inj ha
      exact ⟨rfl, .name (typeName base), rfl, plainName_typeName (ht.base base rfl), rfl⟩

theorem oneLine_aliasLine {t : SimpleType} {a : Alias} (ht : t.Plain) (ha : t.alias = .ok a) :
    OneLine a.line := by
  obtain ⟨hname, e, -, he, htext⟩ := exists_meaning_of_alias ht ha
  have hno : '\n' ∉ t.name.toList := ht.name.notMem rfl
  have htype : '\n' ∉ e.text.toList := he.oneLine
  rw [OneLine, toList_aliasLine, hname, htext]
  simpa using ⟨hno, htype⟩

/-- The line of its alias tells what is told of a plain simple type. -/
theorem told_of_aliasLine {t u : SimpleType} {a b : Alias} (ht : t.Plain) (hu : u.Plain)
    (ha : t.alias = .ok a) (hb : u.alias = .ok b) (h : a.line = b.line) : t.told = u.told := by
  obtain ⟨hname, e, hmeaning, he, htext⟩ := exists_meaning_of_alias ht ha
  obtain ⟨hname', e', hmeaning', he', htext'⟩ := exists_meaning_of_alias hu hb
  obtain ⟨hnames, htexts⟩ := alias_of_line_eq (hname ▸ ht.name.notMem rfl)
    (hname' ▸ hu.name.notMem rfl) h
  rw [htext, htext'] at htexts
  rw [SimpleType.told, SimpleType.told, ← hname, ← hname', hnames, hmeaning, hmeaning',
    he.text_injective he' htexts]

/-- The type of the property of a field. -/
def Field.expr (f : Field) : TypeExpr :=
  if f.isArray then .array (typeName f.type) else .name (typeName f.type)

theorem Field.property_eq_ok {owner : String} {f : Field} {p : Property}
    (h : f.property owner = .ok p) : p = ⟨f.name, f.expr⟩ := by
  obtain ⟨e, he, rfl⟩ := except_map_eq_ok_iff.1 h
  by_cases hempty : (typeName f.type).isEmpty = true
  · simp [Field.propertyType, hempty] at he
  · rw [Field.propertyType, if_neg hempty, Except.ok.injEq] at he
    rw [← he, Field.expr]

theorem Field.plain_expr {f : Field} (h : PlainName f.type) : f.expr.Plain := by
  unfold Field.expr
  split <;> exact plainName_typeName h

/-- The line of its property tells what is told of a plain field. -/
theorem told_of_propertyLine {owner owner' : String} {f g : Field} {p q : Property}
    (hname : PlainName f.name) (hname' : PlainName g.name) (htype : PlainName f.type)
    (htype' : PlainName g.type) (hp : f.property owner = .ok p) (hq : g.property owner' = .ok q)
    (h : p.line = q.line) :
    (f.name, typeName f.type, f.isArray) = (g.name, typeName g.type, g.isArray) := by
  obtain rfl := Field.property_eq_ok hp
  obtain rfl := Field.property_eq_ok hq
  obtain ⟨hnames, htexts⟩ := property_of_line_eq (hname.notMem rfl) (hname'.notMem rfl) h
  have hexpr := (Field.plain_expr htype).text_injective (Field.plain_expr htype') htexts
  unfold Field.expr at hexpr
  cases harray : f.isArray <;> cases harray' : g.isArray <;> simp_all

theorem ComplexType.interface_eq_ok_iff {t : ComplexType} {i : Interface} :
    t.interface = .ok i ↔ ∃ ps, t.fields.mapM (Field.property t.name) = .ok ps ∧
      ⟨capitalize t.name, t.base.map capitalize, ps⟩ = i :=
  except_map_eq_ok_iff

theorem oneLined_interface {t : ComplexType} {i : Interface} (ht : t.Plain)
    (hi : t.interface = .ok i) : i.OneLined := by
  obtain ⟨ps, hps, rfl⟩ := ComplexType.interface_eq_ok_iff.1 hi
  have hno {name : String} (h : PlainName name) : '\n' ∉ (capitalize name).toList :=
    h.notMem_capitalize (by decide) (by decide)
  constructor
  · rw [OneLine, toList_header]
    cases hbase : t.base with
    | none => simpa [extension] using hno ht.name
    | some base => simpa [extension] using ⟨hno ht.name, hno (ht.base base hbase)⟩
  · intro p hp
    obtain ⟨f, hf, hproperty⟩ := exists_of_mem_mapM hps hp
    obtain rfl := Field.property_eq_ok hproperty
    have hname : '\n' ∉ f.name.toList := (ht.fieldName f hf).notMem rfl
    have htype : '\n' ∉ f.expr.text.toList := (Field.plain_expr (ht.fieldType f hf)).oneLine
    rw [OneLine, toList_propertyLine]
    simpa using ⟨hname, htype⟩

/-- The lines of its interface tell what is told of a plain complex type. -/
theorem told_of_interfaceLines {t u : ComplexType} {i j : Interface} (ht : t.Plain) (hu : u.Plain)
    (hi : t.interface = .ok i) (hj : u.interface = .ok j) (h : i.lines = j.lines) :
    t.told = u.told := by
  obtain ⟨ps, hps, rfl⟩ := ComplexType.interface_eq_ok_iff.1 hi
  obtain ⟨qs, hqs, rfl⟩ := ComplexType.interface_eq_ok_iff.1 hj
  have hno {name : String} (h : PlainName name) : ' ' ∉ (capitalize name).toList :=
    h.notMem_capitalize (by decide) (by decide)
  rw [Interface.lines, Interface.lines] at h
  obtain ⟨hheader, hinside⟩ := List.cons.inj h
  obtain ⟨hname, hbase⟩ := interface_of_header_eq (i := ⟨_, _, ps⟩) (j := ⟨_, _, qs⟩)
    (hno ht.name) (hno hu.name) hheader
  have hname : capitalize t.name = capitalize u.name := hname
  have hbase : t.base.map capitalize = u.base.map capitalize := hbase
  have hfields := map_eq_map_of_mapM hps hqs
    (fun f hf g hg _ _ hp hq => told_of_propertyLine (ht.fieldName f hf) (hu.fieldName g hg)
      (ht.fieldType f hf) (hu.fieldType g hg) hp hq) (List.append_cancel_right hinside)
  rw [ComplexType.told, ComplexType.told, hname, hbase, hfields]

/-- **Documents tell their types.** Two schemas with plain names whose documents without a time
have the same text agree on their simple types, in order, with their literals or the types that
they stand for, and on their complex types, in order, with their written names and bases and their
fields. -/
theorem told_of_document_text_eq {s s' : Schema} {root : Option String} {d d' : Document}
    (hs : s.Plain) (hs' : s'.Plain) (hd : (s.document none root).result = .ok d)
    (hd' : (s'.document none root).result = .ok d') (h : d.text = d'.text) :
    s.simpleTypes.map SimpleType.told = s'.simpleTypes.map SimpleType.told ∧
      s.complexTypes.map ComplexType.told = s'.complexTypes.map ComplexType.told := by
  obtain ⟨as, is, has, his, rfl⟩ := Schema.document_eq_ok_iff.1 hd
  obtain ⟨as', is', has', his', rfl⟩ := Schema.document_eq_ok_iff.1 hd'
  have haliases {s : Schema} (hs : s.Plain) {as : List Alias} (has : s.aliases = .ok as) :
      ∀ a ∈ as, OneLine a.line := by
    intro a ha
    obtain ⟨t, ht, halias⟩ := exists_of_mem_mapM has ha
    exact oneLine_aliasLine (hs.simple t ht) halias
  have hinterfaces {s : Schema} (hs : s.Plain) {is : List Interface}
      (his : s.interfaces = .ok is) : ∀ i ∈ is, i.OneLined := by
    intro i hi
    obtain ⟨t, ht, hinterface⟩ := exists_of_mem_mapM his hi
    exact oneLined_interface (hs.complex t ht) hinterface
  obtain ⟨hsimple, hcomplex⟩ := declarations_of_text_eq rfl rfl (haliases hs has)
    (haliases hs' has') (hinterfaces hs his) (hinterfaces hs' his') h
  constructor
  · exact map_eq_map_of_mapM has has'
      (fun t ht u hu _ _ ha hb => told_of_aliasLine (hs.simple t ht) (hs'.simple u hu) ha hb)
      hsimple
  · exact map_eq_map_of_mapM his his'
      (fun t ht u hu _ _ hi hj =>
        told_of_interfaceLines (hs.complex t ht) (hs'.complex u hu) hi hj)
      hcomplex

/-- A schema with an enumeration without values and one whose values look like other lines. -/
def writtenAlike : Schema :=
  ⟨[⟨"Code", some "string", some ["a\" | \"b", "\";\n\nexport"]⟩, ⟨"None", none, some []⟩,
      ⟨"Day", some "date", none⟩],
    [⟨"widget", none, [⟨"size", "int", false, false⟩]⟩,
      ⟨"Gadget", some "widget", [⟨"tags", "Code", true, false⟩]⟩]⟩

/-- Another schema that is written in the same way. -/
def writtenAlike' : Schema :=
  ⟨[⟨"Code", none, some ["a\" | \"b", "\";\n\nexport"]⟩, ⟨"None", some "never", none⟩,
      ⟨"Day", some "dateTime", none⟩],
    [⟨"Widget", none, [⟨"size", "double", false, true⟩]⟩,
      ⟨"gadget", some "Widget", [⟨"tags", "Code", true, false⟩]⟩]⟩

/-- The document of both, but for the type without values. -/
def writtenAlikeDocument (empty : TypeExpr) : Document :=
  ⟨none, [⟨"Code", .union ["a\" | \"b", "\";\n\nexport"]⟩, ⟨"None", empty⟩,
      ⟨"Day", .name "string"⟩],
    [⟨"Widget", none, [⟨"size", .name "number"⟩]⟩,
      ⟨"Gadget", some "Widget", [⟨"tags", .array "Code"⟩]⟩],
    some ⟨"RootType", "rootTypes", []⟩⟩

/-- Two schemas with one text agree on what `told_of_document_text_eq` says. -/
theorem writtenAlike_told :
    writtenAlike.Plain ∧ writtenAlike'.Plain ∧
      (∃ d d', (writtenAlike.document none (some "Root")).result = .ok d ∧
        (writtenAlike'.document none (some "Root")).result = .ok d' ∧ d.text = d'.text) ∧
      writtenAlike.simpleTypes.map SimpleType.told = writtenAlike'.simpleTypes.map SimpleType.told ∧
      writtenAlike.complexTypes.map ComplexType.told =
        writtenAlike'.complexTypes.map ComplexType.told := by
  have hplain : writtenAlike.Plain := by decide +kernel
  have hplain' : writtenAlike'.Plain := by decide +kernel
  have hd : (writtenAlike.document none (some "Root")).result =
      .ok (writtenAlikeDocument (.union [])) := by decide +kernel
  have hd' : (writtenAlike'.document none (some "Root")).result =
      .ok (writtenAlikeDocument (.name "never")) := by decide +kernel
  have htext : (writtenAlikeDocument (.union [])).text =
      (writtenAlikeDocument (.name "never")).text := rfl
  exact ⟨hplain, hplain', ⟨_, _, hd, hd', htext⟩,
    told_of_document_text_eq hplain hplain' hd hd' htext⟩

end SoapTypes
