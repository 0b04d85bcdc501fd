import SoapTypes.Proofs.Naming.References

/-!
# Bases that are found

Validation compares names as they are declared, and an interface and the base that it extends are
written with capital letters. Since both are written in the same way, every base that is extended in
a document is the name of an interface there, wherever and however often its type is declared.
-/

namespace SoapTypes

open TypeScript Text

/-! ## Schemas -/

/-- Whatever one of the interfaces extends is the name of one of them. -/
def Resolved (is : List Interface) : Prop :=
  ∀ i ∈ is, ∀ base, i.base = some base → ∃ j ∈ is, j.name = base

/-- The interfaces of a sound schema find their bases. -/
theorem resolved_of_validate {s : Schema} {is : List Interface}
    (hvalid : s.validate.result = .ok ()) (his : s.interfaces = .ok is) : Resolved is := by
  intro i hi base hbase
  obtain ⟨t, ht, b, hb, -, hcapital⟩ := exists_base_of_links his ⟨i, hi, rfl, hbase⟩
  obtain ⟨u, hu, rfl⟩ := Schema.exists_declaration_of_base hvalid ht hb
  obtain ⟨j, hj, huj⟩ := exists_mem_of_mapM his hu
  exact ⟨j, hj, (ComplexType.name_interface huj).trans hcapital⟩

/-! ## Lines that open an interface -/

/-- The line begins like one that opens an interface. -/
def Opens (line : String) : Prop :=
  "export interface ".toList <+: line.toList

instance (line : String) : Decidable (Opens line) :=
  inferInstanceAs (Decidable (_ <+: _))

theorem opens_header (i : Interface) : Opens i.header := by
  rw [Opens, toList_header]
  exact List.prefix_append _ _

/-- A line that begins in another way opens no interface. -/
theorem not_opens_of_prefix {start : List Char} {line : String} (hstart : start <+: line.toList)
    (hlength : start.length ≤ 17) (hother : ¬ start <+: "export interface ".toList) :
    ¬ Opens line := by
  intro hopens
  exact hother (List.prefix_of_prefix_length_le hstart hopens hlength)

theorem not_opens_append {start : String} (hlength : start.toList.length ≤ 17)
    (hother : ¬ start.toList <+: "export interface ".toList) (rest : String) :
    ¬ Opens (start ++ rest) := by
  refine not_opens_of_prefix ?_ hlength hother
  rw [String.toList_append]
  exact List.prefix_append _ _

theorem not_opens_aliasLine (a : Alias) : ¬ Opens a.line := by
  have hstart : "export type ".toList <+: a.line.toList := by
    rw [toList_aliasLine]
    exact List.prefix_append _ _
  exact not_opens_of_prefix hstart (by decide) (by decide)

theorem not_opens_propertyLine (p : Property) : ¬ Opens p.line := by
  have hstart : "    ".toList <+: p.line.toList := by
    rw [toList_propertyLine]
    exact List.prefix_append _ _
  exact not_opens_of_prefix hstart (by decide) (by decide)

theorem not_opens_of_mem_bannerLines {generated : Option Timestamp} :
    ∀ l ∈ bannerLines generated, ¬ Opens l := by
  cases generated with
  | none => decide
  | some t =>
    have htime : ¬ Opens ("Generated at: " ++ t.text ++ " */") := by
      rw [String.append_assoc]
      exact not_opens_append (by decide) (by decide) _
    simp only [bannerLines, List.forall_mem_append, List.forall_mem_cons]
    exact ⟨⟨by decide, by decide, htime, nofun⟩, by decide⟩

theorem not_opens_of_mem_unionMembers {members : List String} :
    ∀ l ∈ Roster.unionMembers members, ¬ Opens l := by
  have hmember (m ending : String) : ¬ Opens ("    " ++ quote m ++ ending) := by
    rw [String.append_assoc]
    exact not_opens_append (by decide) (by decide) _
  induction members with
  | nil => nofun
  | cons m ms ih =>
    cases ms with
    | nil => exact List.forall_mem_singleton.2 (hmember m ";")
    | cons n ns => exact List.forall_mem_cons.2 ⟨hmember m " |", ih⟩

theorem not_opens_of_mem_unionLines {r : Roster} : ∀ l ∈ r.unionLines, ¬ Opens l := by
  have hdeclares (ending : String) : ¬ Opens ("export type " ++ r.unionName ++ ending) := by
    rw [String.append_assoc]
    exact not_opens_append (by decide) (by decide) _
  unfold Roster.unionLines
  split
  · exact List.forall_mem_singleton.2 (hdeclares " = never;")
  · exact List.forall_mem_cons.2 ⟨hdeclares " =", not_opens_of_mem_unionMembers⟩

theorem not_opens_of_mem_constantLines {r : Roster} : ∀ l ∈ r.constantLines, ¬ Opens l := by
  have hdeclares (rest : String) : ¬ Opens ("export const " ++ rest) :=
    not_opens_append (by decide) (by decide) rest
  have hmember (m : String) : ¬ Opens ("    " ++ quote m ++ ",") := by
    rw [String.append_assoc]
    exact not_opens_append (by decide) (by decide) _
  simp only [Roster.constantLines, List.forall_mem_cons, List.forall_mem_append,
    List.forall_mem_map]
  refine ⟨?_, fun m _ => hmember m, by decide, nofun⟩
  have h := hdeclares (r.constantName ++ ": " ++ r.unionName ++ "[] = [")
  simpa [toString, String.append_assoc] using h

theorem not_opens_of_mem_rosterLines {r : Option Roster} : ∀ l ∈ rosterLines r, ¬ Opens l := by
  cases r with
  | none => nofun
  | some r =>
    simp only [rosterLines, Roster.lines, List.forall_mem_cons, List.forall_mem_append]
    exact ⟨by decide, not_opens_of_mem_unionLines, by decide, not_opens_of_mem_constantLines⟩

/-- Of the lines of an interface only the first opens one. -/
theorem eq_header_of_opens {i : Interface} {line : String} (hline : line ∈ i.lines)
    (hopens : Opens line) : line = i.header := by
  rcases List.mem_cons.1 hline with rfl | hline
  · rfl
  · rcases List.mem_append.1 hline with hline | hline
    · obtain ⟨p, -, rfl⟩ := List.mem_map.1 hline
      exact absurd hopens (not_opens_propertyLine p)
    · rw [List.mem_singleton.1 hline] at hopens
      exact absurd hopens (by decide)

/-- Each line of the interfaces is blank or one of an interface. -/
theorem eq_or_mem_of_mem_interfaceLines {is : List Interface} {line : String}
    (hline : line ∈ interfaceLines is) : line = "" ∨ ∃ i ∈ is, line ∈ i.lines := by
  cases is with
  | nil => cases hline
  | cons i is =>
    rw [interfaceLines_cons, List.mem_append, List.mem_flatMap] at hline
    rcases hline with hline | ⟨j, hj, hline⟩
    · exact Or.inr ⟨i, List.mem_cons_self, hline⟩
    · rcases List.mem_cons.1 hline with hblank | hline
      · exact Or.inl hblank
      · exact Or.inr ⟨j, List.mem_cons_of_mem i hj, hline⟩

/-- The lines of a document that open an interface are the first lines of its interfaces. -/
theorem opens_iff_of_mem_lines {d : Document} {line : String} (hline : line ∈ d.lines) :
    Opens line ↔ ∃ i ∈ d.interfaces, line = i.header := by
  constructor
  · intro hopens
    simp only [document_lines_eq, List.mem_append, List.mem_cons, List.mem_map] at hline
    rcases hline with hline | ⟨a, -, rfl⟩ | rfl | hline | hline
    · exact absurd hopens (not_opens_of_mem_bannerLines line hline)
    · exact absurd hopens (not_opens_aliasLine a)
    · exact absurd hopens (by decide)
    · rcases eq_or_mem_of_mem_interfaceLines hline with rfl | ⟨i, hi, hline⟩
      · exact absurd hopens (by decide)
      · exact ⟨i, hi, eq_header_of_opens hline hopens⟩
    · exact absurd hopens (not_opens_of_mem_rosterLines line hline)
  · rintro ⟨i, -, rfl⟩
    exact opens_header i

/-- Each interface of a document is opened by one of its lines. -/
theorem header_mem_lines {d : Document} {i : Interface} (hi : i ∈ d.interfaces) :
    i.header ∈ d.lines := by
  have hheader : i.header ∈ interfaceLines d.interfaces :=
    mem_interfaceLines_of_mem hi List.mem_cons_self
  simp [document_lines_eq, hheader]

/-- One of the lines opens an interface of the name, which extends the base, if there is one. -/
def OpenedIn (lines : List String) (name : String) (base : Option String) : Prop :=
  (⟨name, base, []⟩ : Interface).header ∈ lines

/-- In a document whose interfaces find their bases the lines that open interfaces tell so, as long
as no name holds a blank. -/
theorem exists_openedIn {d : Document} (hresolved : Resolved d.interfaces)
    (hblank : ∀ i ∈ d.interfaces, ' ' ∉ i.name.toList) {name base : String}
    (hname : ' ' ∉ name.toList) (hopened : OpenedIn d.lines name (some base)) :
    ∃ further, OpenedIn d.lines base further := by
  obtain ⟨i, hi, hheader⟩ := (opens_iff_of_mem_lines hopened).1 (opens_header _)
  obtain ⟨-, hbase⟩ := interface_of_header_eq hname (hblank i hi) hheader
  obtain ⟨j, hj, rfl⟩ := hresolved i hi base hbase.symm
  have hlines : j.header ∈ d.lines := header_mem_lines hj
  exact ⟨j.base, hlines⟩

/-! ## Documents -/

/-- **Bases are found.** On a sound schema the base of a type is written like the name of a type, so
that every interface finds the one that it extends. In the document of a description, whatever the
time and the root, the lines that open interfaces are the first lines of its interfaces, and for
each base of one of these another line opens an interface of exactly this name. As long as no name
holds a blank, the lines alone tell so. -/
theorem resolved_ofText :
    (∀ s : Schema, s.validate.result = .ok () →
      (∀ t ∈ s.complexTypes, ∀ base, t.base = some base →
        ∃ u ∈ s.complexTypes, u.name = base ∧ capitalize u.name = capitalize base) ∧
      ∀ is, s.interfaces = .ok is → Resolved is) ∧
    ∀ description text generated root,
      (TypeScript.ofText description generated root).result = .ok text →
      ∃ (s : Schema) (d : Document), (Schema.ofText description).result = .ok s ∧
        (s.document generated root).result = .ok d ∧ unlines d.lines = text ∧
        (∀ line ∈ d.lines, Opens line ↔ ∃ i ∈ d.interfaces, line = i.header) ∧
        (∀ i ∈ d.interfaces, ∀ base, i.base = some base →
          ∃ j ∈ d.interfaces, j.name = base ∧ j.header ∈ d.lines) ∧
        ((∀ i ∈ d.interfaces, ' ' ∉ i.name.toList) → ∀ name base, ' ' ∉ name.toList →
          OpenedIn d.lines name (some base) → ∃ further, OpenedIn d.lines base further) := by
  constructor
  · intro s hvalid
    refine ⟨fun t ht base hbase => ?_, fun is his => resolved_of_validate hvalid his⟩
    obtain ⟨u, hu, hname⟩ := Schema.exists_declaration_of_base hvalid ht hbase
    exact ⟨u, hu, hname, by rw [hname]⟩
  · intro description text generated root htext
    obtain ⟨s, d, hs, hvalid, hd, rfl⟩ := ofText_eq_ok_iff.1 htext
    obtain ⟨as, is, -, his, rfl⟩ := Schema.document_eq_ok_iff.1 hd
    have hresolved := resolved_of_validate hvalid his
    refine ⟨s, _, hs, hd, rfl, fun line hline => opens_iff_of_mem_lines hline,
      fun i hi base hbase => ?_,
      fun hblank name base hname hopened => exists_openedIn hresolved hblank hname hopened⟩
    obtain ⟨j, hj, hname⟩ := hresolved i hi base hbase
    exact ⟨j, hj, hname, header_mem_lines hj⟩

/-- A description of a type that extends the type of an element behind it. -/
def elementBaseText : String :=
  "<definitions><types><schema><complexType name=\"a\"><complexContent>" ++
    "<extension base=\"tns:b\"/></complexContent></complexType><element name=\"b\">" ++
    "<complexType><sequence/></complexType></element></schema></types></definitions>"

/-- The schema of this description. -/
def elementBaseSchema : Schema :=
  ⟨[], [⟨"b", none, []⟩, ⟨"a", some "b", []⟩]⟩

/-- Its document. -/
def elementBaseDocument : Document :=
  ⟨none, [], [⟨"B", none, []⟩, ⟨"A", some "B", []⟩], none⟩

/-- `A` finds `B`, as `resolved_ofText` says of any text and any schema. -/
theorem elementBaseText_resolved :
    (TypeScript.ofText elementBaseText none none).result = .ok elementBaseDocument.text ∧
      Resolved elementBaseDocument.interfaces ∧
      OpenedIn elementBaseDocument.lines "A" (some "B") ∧
      ∃ further, OpenedIn elementBaseDocument.lines "B" further := by
  have hschema : (Schema.ofText elementBaseText).result = .ok elementBaseSchema := by decide +kernel
  have hvalid : elementBaseSchema.validate.result = .ok () := by decide +kernel
  have hinterfaces : elementBaseSchema.interfaces = .ok elementBaseDocument.interfaces := by
    decide +kernel
  have hdocument : (elementBaseSchema.document none none).result = .ok elementBaseDocument := by
    decide +kernel
  have htext :
      (TypeScript.ofText elementBaseText none none).result = .ok elementBaseDocument.text :=
    ofText_eq_ok_iff.2 ⟨elementBaseSchema, elementBaseDocument, hschema, hvalid, hdocument, rfl⟩
  obtain ⟨hschemas, htexts⟩ := resolved_ofText
  obtain ⟨s, d, hs, hd, -, -, -, hreads⟩ := htexts _ _ _ _ htext
  obtain rfl := Except.ok.inj (hs.symm.trans hschema)
  obtain rfl := Except.ok.inj (hd.symm.trans hdocument)
  have hopened : OpenedIn elementBaseDocument.lines "A" (some "B") :=
    header_mem_lines (i := ⟨"A", some "B", []⟩) (by simp [elementBaseDocument])
  exact ⟨htext, (hschemas _ hvalid).2 _ hinterfaces, hopened,
    hreads (by decide) "A" "B" (by decide) hopened⟩

end SoapTypes
