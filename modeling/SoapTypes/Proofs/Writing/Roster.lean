import SoapTypes.Proofs.Inheritance.Family
import SoapTypes.Proofs.Writing.Union
import SoapTypes.TypeScript.Document

/-!
# Rosters

The text of a roster is read with the names of its union and of its constant list known. It has
exactly one reading, in which the union and the list hold the same names, whatever characters these
are made of. The roster of a root names its family.
-/

namespace SoapTypes.TypeScript

/-- A literal at the start of a text, its value, and what follows it. -/
inductive LiteralReads : List Char → String → List Char → Prop
  | quoted {body value rest : List Char} (hbody : BodyReads body value) :
      LiteralReads ('"' :: (body ++ '"' :: rest)) (String.ofList value) rest

/-- The members of a union, one a line, and what follows them. A bar stands behind each but the
last, which a semicolon ends. -/
inductive MembersRead : List Char → List String → List Char → Prop
  | last {text rest : List Char} {value : String}
      (hliteral : LiteralReads text value (";\n".toList ++ rest)) :
      MembersRead ("    ".toList ++ text) [value] rest
  | more {text middle rest : List Char} {value : String} {values : List String}
      (hliteral : LiteralReads text value (" |\n".toList ++ middle))
      (hrest : MembersRead middle values rest) :
      MembersRead ("    ".toList ++ text) (value :: values) rest

/-- The declaration of a union of a given name: the empty type, or members. -/
inductive UnionDeclarationReads (name : String) : List Char → List String → List Char → Prop
  | never {rest : List Char} :
      UnionDeclarationReads name (("export type " ++ name ++ " = never;\n").toList ++ rest) [] rest
  | members {text rest : List Char} {values : List String} (h : MembersRead text values rest) :
      UnionDeclarationReads name (("export type " ++ name ++ " =\n").toList ++ text) values rest

/-- The entries of a list, one a line with a comma behind, up to the closing bracket. -/
inductive EntriesRead : List Char → List String → List Char → Prop
  | close {rest : List Char} : EntriesRead ("];\n".toList ++ rest) [] rest
  | entry {text middle rest : List Char} {value : String} {values : List String}
      (hliteral : LiteralReads text value (",\n".toList ++ middle))
      (hrest : EntriesRead middle values rest) :
      EntriesRead ("    ".toList ++ text) (value :: values) rest

/-- The text of a roster whose union and constant list have the given names: the values of the
union, and after a blank line those of the list. -/
def RosterReads (unionName constantName text : String) (union constants : List String) : Prop :=
  ∃ entries : List Char,
    UnionDeclarationReads unionName text.toList union
      (("\nexport const " ++ constantName ++ ": " ++ unionName ++ "[] = [\n").toList ++ entries) ∧
    EntriesRead entries constants []

theorem LiteralReads.unique {text rest rest' : List Char} {value value' : String}
    (h : LiteralReads text value rest) (h' : LiteralReads text value' rest') :
    value = value' ∧ rest = rest' := by
  obtain ⟨hbody⟩ := h
  generalize htext : '"' :: _ = text at h'
  obtain ⟨hbody'⟩ := h'
  obtain ⟨rfl, rfl⟩ := hbody.unique hbody' (List.cons.inj htext).2
  exact ⟨rfl, rfl⟩

/-- What follows a member tells whether it is the last one. -/
theorem MembersRead.unique {text rest rest' : List Char} {values values' : List String}
    (h : MembersRead text values rest) (h' : MembersRead text values' rest') :
    values = values' ∧ rest = rest' := by
  induction h generalizing values' rest' with
  | last hliteral =>
    generalize htext : "    ".toList ++ _ = text at h'
    cases h' with
    | last hliteral' =>
      obtain rfl := List.append_cancel_left htext
      obtain ⟨rfl, hrest⟩ := hliteral.unique hliteral'
      exact ⟨rfl, List.append_cancel_left hrest⟩
    | more hliteral' =>
      obtain rfl := List.append_cancel_left htext
      cases (hliteral.unique hliteral').2
  | more hliteral _ ih =>
    generalize htext : "    ".toList ++ _ = text at h'
    cases h' with
    | last hliteral' =>
      obtain rfl := List.append_cancel_left htext
      cases (hliteral.unique hliteral').2
    | more hliteral' hrest' =>
      obtain rfl := List.append_cancel_left htext
      obtain ⟨rfl, hmiddle⟩ := hliteral.unique hliteral'
      obtain ⟨rfl, rfl⟩ := ih (List.append_cancel_left hmiddle ▸ hrest')
      exact ⟨rfl, rfl⟩

/-- Behind the name of a union an empty type and the end of the line are different. -/
theorem never_ne_members (name : String) (rest text : List Char) :
    ("export type " ++ name ++ " = never;\n").toList ++ rest ≠
      ("export type " ++ name ++ " =\n").toList ++ text := by
  have hhead (ending : String) : ("export type " ++ name ++ ending).toList =
      ("export type " ++ name).toList ++ ending.toList := String.toList_append
  rw [hhead, hhead, List.append_assoc, List.append_assoc]
  intro h
  cases List.append_cancel_left h

/-- What follows the name of a union tells whether the union is empty. -/
theorem UnionDeclarationReads.unique {name : String} {text rest rest' : List Char}
    {values values' : List String} (h : UnionDeclarationReads name text values rest)
    (h' : UnionDeclarationReads name text values' rest') : values = values' ∧ rest = rest' := by
  cases h with
  | never =>
    generalize htext : String.toList _ ++ _ = text at h'
    cases h' with
    | never => exact ⟨rfl, List.append_cancel_left htext⟩
    | members => exact absurd htext (never_ne_members name _ _)
  | members h =>
    generalize htext : String.toList _ ++ _ = text at h'
    cases h' with
    | never => exact absurd htext.symm (never_ne_members name _ _)
    | members h' => exact h.unique (List.append_cancel_left htext ▸ h')

/-- The start of a line tells whether the list goes on. -/
theorem EntriesRead.unique {text rest rest' : List Char} {values values' : List String}
    (h : EntriesRead text values rest) (h' : EntriesRead text values' rest') :
    values = values' ∧ rest = rest' := by
  induction h generalizing values' rest' with
  | close =>
    generalize htext : "];\n".toList ++ _ = text at h'
    cases h' with
    | close => exact ⟨rfl, List.append_cancel_left htext⟩
    | entry => cases htext
  | entry hliteral _ ih =>
    generalize htext : "    ".toList ++ _ = text at h'
    cases h' with
    | close => cases htext
    | entry hliteral' hrest' =>
      obtain rfl := List.append_cancel_left htext
      obtain ⟨rfl, hmiddle⟩ := hliteral.unique hliteral'
      obtain ⟨rfl, rfl⟩ := ih (List.append_cancel_left hmiddle ▸ hrest')
      exact ⟨rfl, rfl⟩

/-- With its names known a roster has at most one reading. -/
theorem RosterReads.unique {unionName constantName text : String}
    {union union' constants constants' : List String}
    (h : RosterReads unionName constantName text union constants)
    (h' : RosterReads unionName constantName text union' constants') :
    union = union' ∧ constants = constants' := by
  obtain ⟨entries, hunion, hentries⟩ := h
  obtain ⟨entries', hunion', hentries'⟩ := h'
  obtain ⟨rfl, hrest⟩ := hunion.unique hunion'
  obtain rfl := List.append_cancel_left hrest
  exact ⟨rfl, (hentries.unique hentries').1⟩

/-- A written literal reads as the text that it was written for. -/
theorem literalReads_quote (value : String) (rest : List Char) :
    LiteralReads ((quote value).toList ++ rest) value rest := by
  have h : LiteralReads _ _ rest := .quoted (bodyReads_escape value.toList)
  rw [String.ofList_toList] at h
  simpa [toList_quote] using h

/-- The written members of a union read as these. -/
theorem membersRead_unionMembers (m : String) (ms : List String) (rest : List Char) :
    MembersRead ((Text.unlines (Roster.unionMembers (m :: ms))).toList ++ rest) (m :: ms) rest := by
  induction ms generalizing m with
  | nil =>
    have h := MembersRead.last (literalReads_quote m (";\n".toList ++ rest))
    simpa [Roster.unionMembers, Text.toList_unlines, toString] using h
  | cons n ns ih =>
    have h := MembersRead.more (literalReads_quote m (" |\n".toList ++ _)) (ih n)
    simpa [Roster.unionMembers, Text.toList_unlines, toString] using h

/-- A written union reads as the members of the roster. -/
theorem unionDeclarationReads_unionLines (r : Roster) (rest : List Char) :
    UnionDeclarationReads r.unionName ((Text.unlines r.unionLines).toList ++ rest) r.members
      rest := by
  unfold Roster.unionLines
  cases hmembers : r.members with
  | nil =>
    have h : UnionDeclarationReads r.unionName _ [] rest := .never
    simpa [Text.toList_unlines, toString] using h
  | cons m ms =>
    have h : UnionDeclarationReads r.unionName _ (m :: ms) rest :=
      .members (membersRead_unionMembers m ms rest)
    simpa [Text.toList_unlines, toString] using h

/-- The written entries of a list read as the members of the roster. -/
theorem entriesRead_lines (members : List String) :
    EntriesRead (Text.unlines (members.map (fun m => s!"    {quote m},") ++ ["];"])).toList members
      [] := by
  induction members with
  | nil => exact EntriesRead.close
  | cons m ms ih =>
    have h := EntriesRead.entry (literalReads_quote m (",\n".toList ++ _)) ih
    simpa [Text.toList_unlines, toString] using h

/-- A written roster reads as its members, twice, and as nothing else. -/
theorem rosterReads_lines_iff (r : Roster) (union constants : List String) :
    RosterReads r.unionName r.constantName (Text.unlines r.lines) union constants ↔
      union = r.members ∧ constants = r.members := by
  have hreads :
      RosterReads r.unionName r.constantName (Text.unlines r.lines) r.members r.members := by
    refine ⟨_, ?_, entriesRead_lines r.members⟩
    have h := unionDeclarationReads_unionLines r (Text.unlines ("" :: r.constantLines)).toList
    rw [← String.toList_append, ← Text.unlines_append] at h
    simpa [Roster.lines, Roster.constantLines, Text.toList_unlines, toString] using h
  constructor
  · intro h
    exact h.unique hreads
  · rintro ⟨rfl, rfl⟩
    exact hreads

/-- A union is written as the empty type exactly if the roster has no members. -/
theorem never_prefix_lines_iff (r : Roster) :
    ("export type " ++ r.unionName ++ " = never;\n").toList <+: (Text.unlines r.lines).toList ↔
      r.members = [] := by
  have hreads := unionDeclarationReads_unionLines r (Text.unlines ("" :: r.constantLines)).toList
  rw [← String.toList_append, ← Text.unlines_append] at hreads
  constructor
  · rintro ⟨rest, hrest⟩
    have hnever : UnionDeclarationReads r.unionName _ [] rest := .never
    rw [hrest] at hnever
    exact (hreads.unique hnever).1
  · intro hmembers
    refine ⟨(Text.unlines ("" :: r.constantLines)).toList, ?_⟩
    simp [Roster.lines, Roster.unionLines, hmembers, Text.toList_unlines, toString]

end SoapTypes.TypeScript

namespace SoapTypes

open TypeScript

open Classical in
/-- **Rosters name families.** The text of the roster of any root has, with the root known, exactly
one reading, in which the union and the list hold the same names. They are those of the complex
types from whose names the declared root is reached, in the order of the schema and one for each
declaration. The union is the empty type exactly if there are none. The names of a declared root
hold the root and every name that extends one of them. -/
theorem roster_reading (s : Schema) (root : String) :
    ∃ r names, (s.roster root).result = .ok r ∧
      (∀ union constants,
        RosterReads (Text.capitalize root ++ "Type") (Text.decapitalize root ++ "Types")
            (Text.unlines r.lines) union constants ↔
          union = names ∧ constants = names) ∧
      names = (s.complexTypes.filter fun t => s.InFamily root t).map (·.name) ∧
      (("export type " ++ Text.capitalize root ++ "Type = never;\n").toList <+:
          (Text.unlines r.lines).toList ↔ names = []) ∧
      ((∃ t ∈ s.complexTypes, t.name = root) →
        root ∈ names ∧ ∀ name base, s.Extends name base → base ∈ names → name ∈ names) := by
  refine ⟨.ofFamily root (s.family root), (s.family root).map ComplexType.name, rfl,
    rosterReads_lines_iff (.ofFamily root (s.family root)), ?_, ?_,
    fun hroot => ⟨Schema.root_mem_family hroot, ?_⟩⟩
  · rw [Schema.family_eq_filter]
  · have h := never_prefix_lines_iff (.ofFamily root (s.family root))
    simpa [Roster.ofFamily, String.append_assoc] using h
  · intro name base hextends hbase
    exact Schema.mem_family_of_extends hextends hbase

/-- Two types that extend each other, a third with a quote in its name, and the first once more. -/
def circularFamily : Schema :=
  ⟨[], [⟨"B", some "A", []⟩, ⟨"A", some "B", []⟩, ⟨"C\"", some "B", []⟩, ⟨"B", none, []⟩]⟩

/-- The roster of one of the two that extend each other holds the third type. -/
theorem circularFamily_roster :
    (∃ t ∈ circularFamily.complexTypes, t.name = "A") ∧
      ∃ r names, (circularFamily.roster "A").result = .ok r ∧
        RosterReads "AType" "aTypes" (Text.unlines r.lines) names names ∧ "C\"" ∈ names := by
  have hroot : ∃ t ∈ circularFamily.complexTypes, t.name = "A" :=
    ⟨⟨"A", some "B", []⟩, by simp [circularFamily], rfl⟩
  have hunion : Text.capitalize "A" ++ "Type" = "AType" := by decide +kernel
  have hlist : Text.decapitalize "A" ++ "Types" = "aTypes" := by decide +kernel
  obtain ⟨r, names, hr, hreads, -, -, hfamily⟩ := roster_reading circularFamily "A"
  rw [hunion, hlist] at hreads
  obtain ⟨hself, hclosed⟩ := hfamily hroot
  have hB : "B" ∈ names := hclosed "B" "A" rfl hself
  exact ⟨hroot, r, names, hr, (hreads names names).2 ⟨rfl, rfl⟩, hclosed "C\"" "B" rfl hB⟩

end SoapTypes
