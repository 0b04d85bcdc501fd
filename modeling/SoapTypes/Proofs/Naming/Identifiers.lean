import SoapTypes.Proofs.Writing.Faithful
import SoapTypes.Proofs.Writing.Grammar

/-!
# Names that are identifiers

Names reach a document as they are in the description, but for primitives and capital letters, and
nobody asks whether they are identifiers. If they are, the document follows the grammar, whatever
the literals of enumerations hold. If one is not, the document does not, as long as names are plain.
-/

namespace SoapTypes

open TypeScript Text

/-! ## The names that are written -/

/-- The names in the alias of a simple type. Literals are not among them. -/
def SimpleType.writtenNames (t : SimpleType) : List String :=
  match t.literals with
  | some _ => [t.name]
  | none => t.name :: t.base.toList.map typeName

/-- The names in the property of a field. -/
def Field.writtenNames (f : Field) : List String :=
  [f.name, typeName f.type]

/-- The names in the interface of a complex type. -/
def ComplexType.writtenNames (t : ComplexType) : List String :=
  capitalize t.name :: (t.base.toList.map capitalize ++ t.fields.flatMap Field.writtenNames)

/-- The names in the document of a schema without a root. -/
def Schema.writtenNames (s : Schema) : List String :=
  s.simpleTypes.flatMap SimpleType.writtenNames ++ s.complexTypes.flatMap ComplexType.writtenNames

variable {a : Alphabet}

/-! ## Identifiers make lines of the grammar -/

theorem line_of_alias {t : SimpleType} {b : Alias} (hb : t.alias = .ok b)
    (h : ∀ n ∈ t.writtenNames, a.Identifier n) : a.Line .outside .outside b.line := by
  obtain ⟨name, base, literals⟩ := t
  cases literals with
  | some literals =>
    obtain rfl := Except.ok.inj hb
    simp only [SimpleType.writtenNames, List.forall_mem_singleton] at h
    exact .aliased h (Alphabet.typeText_union literals)
  | none =>
    cases base with
    | none => cases hb
    | some base =>
      obtain rfl := Except.ok.inj hb
      simp only [SimpleType.writtenNames, Option.toList_some, List.map_cons, List.map_nil,
        List.forall_mem_cons] at h
      exact .aliased h.1 (.name h.2.1)

theorem line_of_property {f : Field} (h : ∀ n ∈ f.writtenNames, a.Identifier n) :
    a.Line .inside .inside (Property.line ⟨f.name, f.expr⟩) := by
  simp only [Field.writtenNames, List.forall_mem_cons] at h
  obtain ⟨hname, htype, -⟩ := h
  unfold Field.expr
  split
  · exact .property hname (.array htype)
  · exact .property hname (.name htype)

theorem lines_of_interface {t : ComplexType} {i : Interface} (hi : t.interface = .ok i)
    (h : ∀ n ∈ t.writtenNames, a.Identifier n) : a.Lines .outside .outside i.lines := by
  obtain ⟨ps, hps, rfl⟩ := ComplexType.interface_eq_ok_iff.1 hi
  simp only [ComplexType.writtenNames, List.forall_mem_cons, List.forall_mem_append,
    List.forall_mem_map, List.forall_mem_flatMap, Option.mem_toList] at h
  obtain ⟨hname, hbase, hfields⟩ := h
  apply Alphabet.lines_interface
  · cases ht : t.base with
    | none => exact .opening hname
    | some base => exact .extending hname (hbase base ht)
  · intro p hp
    obtain ⟨f, hf, hproperty⟩ := exists_of_mem_mapM hps hp
    obtain rfl := Field.property_eq_ok hproperty
    exact line_of_property (hfields f hf)

/-- Identifiers make well-formed documents. -/
theorem wellFormed_of_identifiers {s : Schema} {d : Document}
    (hd : (s.document none none).result = .ok d) (h : ∀ n ∈ s.writtenNames, a.Identifier n) :
    a.WellFormed d.text := by
  obtain ⟨as, is, has, his, rfl⟩ := Schema.document_eq_ok_iff.1 hd
  rw [Schema.writtenNames, List.forall_mem_append, List.forall_mem_flatMap,
    List.forall_mem_flatMap] at h
  apply Alphabet.wellFormed_text rfl rfl
  · intro b hb
    obtain ⟨t, ht, halias⟩ := exists_of_mem_mapM has hb
    exact line_of_alias halias (h.1 t ht)
  · intro i hi
    obtain ⟨t, ht, hinterface⟩ := exists_of_mem_mapM his hi
    exact lines_of_interface hinterface (h.2 t ht)

/-! ## Lines of the grammar hold identifiers -/

theorem identifiers_of_alias {t : SimpleType} {b : Alias} (ht : t.Plain) (hb : t.alias = .ok b)
    {p q : Place} (h : a.Line p q b.line) : ∀ n ∈ t.writtenNames, a.Identifier n := by
  obtain ⟨name, base, literals⟩ := t
  have hblank : ' ' ∉ name.toList := ht.name.notMem rfl
  cases literals with
  | some literals =>
    obtain rfl := Except.ok.inj hb
    simp only [SimpleType.writtenNames, List.forall_mem_singleton]
    exact (h.of_alias hblank).1
  | none =>
    cases base with
    | none => cases hb
    | some base =>
      obtain rfl := Except.ok.inj hb
      obtain ⟨hname, htype⟩ := h.of_alias hblank
      simp only [SimpleType.writtenNames, Option.toList_some, List.map_cons, List.map_nil,
        List.forall_mem_cons]
      exact ⟨hname, htype.identifier_of_plain (plainName_typeName (ht.base base rfl)), nofun⟩

theorem identifiers_of_property {f : Field} (hname : PlainName f.name) (htype : PlainName f.type)
    {p q : Place} (h : a.Line p q (Property.line ⟨f.name, f.expr⟩)) :
    ∀ n ∈ f.writtenNames, a.Identifier n := by
  obtain ⟨hidentifier, htext⟩ := h.of_property (hname.notMem rfl)
  have hplain := plainName_typeName htype
  simp only [Field.writtenNames, List.forall_mem_cons]
  refine ⟨hidentifier, ?_, nofun⟩
  unfold Field.expr at htext
  split at htext
  · exact htext.identifier_of_array hplain
  · exact htext.identifier_of_plain hplain

theorem identifiers_of_interface {t : ComplexType} {i : Interface} (ht : t.Plain)
    (hi : t.interface = .ok i) (h : ∀ l ∈ i.lines, ∃ p q, a.Line p q l) :
    ∀ n ∈ t.writtenNames, a.Identifier n := by
  obtain ⟨ps, hps, rfl⟩ := ComplexType.interface_eq_ok_iff.1 hi
  simp only [Interface.lines, List.forall_mem_cons, List.forall_mem_append,
    List.forall_mem_map] at h
  obtain ⟨⟨p, q, hheader⟩, hproperties, -⟩ := h
  have hblank : ' ' ∉ (capitalize t.name).toList :=
    ht.name.notMem_capitalize (by decide) (by decide)
  obtain ⟨hname, hbase⟩ := hheader.of_header (i := ⟨_, _, ps⟩) hblank
  simp only [ComplexType.writtenNames, List.forall_mem_cons, List.forall_mem_append,
    List.forall_mem_map, List.forall_mem_flatMap, Option.mem_toList]
  refine ⟨hname, fun base hb => hbase _ (Option.mem_map_of_mem capitalize hb), fun f hf => ?_⟩
  obtain ⟨y, hy, hproperty⟩ := exists_mem_of_mapM hps hf
  obtain rfl := Field.property_eq_ok hproperty
  obtain ⟨p, q, hline⟩ := hproperties _ hy
  exact identifiers_of_property (ht.fieldName f hf) (ht.fieldType f hf) hline

/-- Among plain names only identifiers make well-formed documents. -/
theorem identifiers_of_wellFormed {s : Schema} (hs : s.Plain) {d : Document}
    (hd : (s.document none none).result = .ok d) (h : a.WellFormed d.text) :
    ∀ n ∈ s.writtenNames, a.Identifier n := by
  obtain ⟨as, is, has, his, rfl⟩ := Schema.document_eq_ok_iff.1 hd
  have haliases : ∀ b ∈ as, OneLine b.line := by
    intro b hb
    obtain ⟨t, ht, halias⟩ := exists_of_mem_mapM has hb
    exact oneLine_aliasLine (hs.simple t ht) halias
  have hinterfaces : ∀ i ∈ is, i.OneLined := by
    intro i hi
    obtain ⟨t, ht, hinterface⟩ := exists_of_mem_mapM his hi
    exact oneLined_interface (hs.complex t ht) hinterface
  obtain ⟨hsimple, hcomplex⟩ :=
    Alphabet.exists_line_of_wellFormed rfl rfl haliases hinterfaces h
  rw [Schema.writtenNames, List.forall_mem_append, List.forall_mem_flatMap,
    List.forall_mem_flatMap]
  constructor
  · intro t ht
    obtain ⟨b, hb, halias⟩ := exists_mem_of_mapM has ht
    obtain ⟨p, q, hline⟩ := hsimple b hb
    exact identifiers_of_alias (hs.simple t ht) halias hline
  · intro t ht
    obtain ⟨i, hi, hinterface⟩ := exists_mem_of_mapM his ht
    exact identifiers_of_interface (hs.complex t ht) hinterface (hcomplex i hi)

/-- **Well-formed documents.** If the names that the document of a description writes are
identifiers, its text follows the grammar, whatever the literals of enumerations hold. If the names
of the description are plain, it does so only then. -/
theorem wellFormed_ofText (a : Alphabet) {description text : String}
    (h : (TypeScript.ofText description none none).result = .ok text) :
    ∃ s, (Schema.ofText description).result = .ok s ∧
      ((∀ n ∈ s.writtenNames, a.Identifier n) → a.WellFormed text) ∧
      (s.Plain → a.WellFormed text → ∀ n ∈ s.writtenNames, a.Identifier n) := by
  obtain ⟨s, d, hs, -, hd, rfl⟩ := ofText_eq_ok_iff.1 h
  exact ⟨s, hs, wellFormed_of_identifiers hd, fun hplain => identifiers_of_wellFormed hplain hd⟩

/-- A description of an enumeration with a value that looks like the ends of a line and of an
interface. -/
def oddText : String :=
  "<definitions><types><schema><simpleType name=\"Odd\"><restriction>" ++
    "<enumeration value=\"&quot;;&#10;\x7d\"/></restriction></simpleType>" ++
    "<complexType name=\"a\"><sequence/></complexType></schema></types></definitions>"

/-- The schema of this description. -/
def oddSchema : Schema :=
  ⟨[⟨"Odd", none, some ["\";\n\x7d"]⟩], [⟨"a", none, []⟩]⟩

/-- Its document. -/
def oddDocument : Document :=
  ⟨none, [⟨"Odd", .union ["\";\n\x7d"]⟩], [⟨"A", none, []⟩], none⟩

/-- The text of this document is well-formed, as `wellFormed_ofText` says. -/
theorem oddText_wellFormed :
    (TypeScript.ofText oddText none none).result = .ok oddDocument.text ∧
      Alphabet.WellFormed ⟨Char.isAlpha, Char.isDigit⟩ oddDocument.text := by
  have hschema : (Schema.ofText oddText).result = .ok oddSchema := by decide +kernel
  have hvalid : oddSchema.validate.result = .ok () := by decide +kernel
  have hdocument : (oddSchema.document none none).result = .ok oddDocument := by decide +kernel
  have htext : (TypeScript.ofText oddText none none).result = .ok oddDocument.text :=
    ofText_eq_ok_iff.2 ⟨oddSchema, oddDocument, hschema, hvalid, hdocument, rfl⟩
  have hidentifiers : ∀ n ∈ oddSchema.writtenNames,
      Alphabet.Identifier ⟨Char.isAlpha, Char.isDigit⟩ n := by decide +kernel
  obtain ⟨s, hs, hwellFormed, -⟩ := wellFormed_ofText ⟨Char.isAlpha, Char.isDigit⟩ htext
  obtain rfl := Except.ok.inj (hs.symm.trans hschema)
  exact ⟨htext, hwellFormed hidentifiers⟩

/-- A description of a type whose name has a hyphen. -/
def hyphenText : String :=
  "<definitions><types><schema><complexType name=\"my-type\"><sequence></sequence></complexType>" ++
    "</schema></types></definitions>"

/-- The schema of this description. -/
def hyphenSchema : Schema :=
  ⟨[], [⟨"my-type", none, []⟩]⟩

/-- Its document. -/
def hyphenDocument : Document :=
  ⟨none, [], [⟨"My-type", none, []⟩], none⟩

/-- Whichever characters beyond ASCII are letters, the text of its document is not well-formed. -/
theorem hyphenText_not_wellFormed :
    ∃ text, (TypeScript.ofText hyphenText none none).result = .ok text ∧
      ∀ a : Alphabet, ¬ a.WellFormed text := by
  have hschema : (Schema.ofText hyphenText).result = .ok hyphenSchema := by decide +kernel
  have hvalid : hyphenSchema.validate.result = .ok () := by decide +kernel
  have hdocument : (hyphenSchema.document none none).result = .ok hyphenDocument := by
    decide +kernel
  have htext : (TypeScript.ofText hyphenText none none).result = .ok hyphenDocument.text :=
    ofText_eq_ok_iff.2 ⟨hyphenSchema, hyphenDocument, hschema, hvalid, hdocument, rfl⟩
  have hplain : hyphenSchema.Plain := by decide +kernel
  have hwritten : "My-type" ∈ hyphenSchema.writtenNames := by decide +kernel
  have hhyphen : '-' ∈ "My-type".toList := by decide
  refine ⟨hyphenDocument.text, htext, fun a h => ?_⟩
  have hidentifier := identifiers_of_wellFormed hplain hdocument h "My-type" hwritten
  exact hidentifier.notMem rfl hhyphen

end SoapTypes
