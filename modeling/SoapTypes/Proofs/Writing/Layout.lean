import SoapTypes.Proofs.PlainName
import SoapTypes.Proofs.Writing.Lines
import SoapTypes.Proofs.Writing.Union
import SoapTypes.TypeScript.Document

/-!
# The layout of documents

A document is taken apart line by line: aliases up to the blank line, then interfaces up to their
closing braces. So its text determines the lines of its declarations, and each of these lines the
names and the types that are written in it.
-/

namespace SoapTypes

open TypeScript Text

/-! ## The text of a type -/

/-- A type whose text can be read back: its name is plain, or it is a union that is not empty. -/
def TypeScript.TypeExpr.Plain : TypeExpr → Prop
  | .name n | .array n => PlainName n
  | .union literals => literals ≠ []

/-- The text of a union has no line feed. -/
theorem oneLine_text_union (literals : List String) :
    OneLine (TypeExpr.union literals).text := by
  cases literals with
  | nil => decide
  | cons l ls => exact (unionReads_text (List.cons_ne_nil l ls)).lineFeed_notMem

/-- The text of a plain type has no line feed. -/
theorem TypeScript.TypeExpr.Plain.oneLine {e : TypeExpr} (h : e.Plain) : OneLine e.text := by
  cases e with
  | name n => exact PlainName.notMem h rfl
  | array n =>
    have hn : '\n' ∉ n.toList := PlainName.notMem h rfl
    simpa [OneLine, TypeExpr.text] using hn
  | union literals => exact oneLine_text_union literals

/-- Brackets tell arrays from names. -/
theorem text_name_ne_text_array {m n : String} (hm : PlainName m) :
    (TypeExpr.name m).text ≠ (TypeExpr.array n).text := by
  intro h
  have hmem : '[' ∈ m.toList := by
    change m = n ++ "[]" at h
    rw [h]
    simp
  exact hm.notMem rfl hmem

/-- Quotes tell unions from names and arrays. -/
theorem text_union_ne {literals : List String} (h : literals ≠ []) {n : String}
    (hn : PlainName n) :
    (TypeExpr.union literals).text ≠ (TypeExpr.name n).text ∧
      (TypeExpr.union literals).text ≠ (TypeExpr.array n).text := by
  have hno : '"' ∉ n.toList := hn.notMem rfl
  have hmem := (unionReads_text h).quote_mem
  constructor
  · intro heq
    rw [heq] at hmem
    exact hno hmem
  · intro heq
    rw [heq] at hmem
    exact hno (by simpa [TypeExpr.text] using hmem)

/-- The text of a plain type tells the type. -/
theorem TypeScript.TypeExpr.Plain.text_injective {e e' : TypeExpr} (h : e.Plain) (h' : e'.Plain)
    (htext : e.text = e'.text) : e = e' := by
  cases e with
  | name m =>
    cases e' with
    | name n => exact congrArg TypeExpr.name htext
    | array n => exact absurd htext (text_name_ne_text_array h)
    | union literals => exact absurd htext.symm (text_union_ne h' h).1
  | array m =>
    cases e' with
    | name n => exact absurd htext.symm (text_name_ne_text_array h')
    | array n =>
      have hlist := congrArg String.toList htext
      simp only [TypeExpr.text, String.toList_append] at hlist
      rw [String.toList_injective (List.append_cancel_right hlist)]
    | union literals => exact absurd htext.symm (text_union_ne h' h).2
  | union literals =>
    cases e' with
    | name n => exact absurd htext (text_union_ne h h').1
    | array n => exact absurd htext (text_union_ne h h').2
    | union literals' =>
      have hreads := unionReads_text h'
      rw [← htext] at hreads
      rw [(unionReads_text_iff h).1 hreads]

/-! ## Lines of declarations -/

theorem toList_aliasLine (a : Alias) :
    a.line.toList = "export type ".toList ++
      (a.name.toList ++ ' ' :: ("= ".toList ++ (a.type.text.toList ++ [';']))) := by
  have hline : a.line = "export type " ++ a.name ++ " = " ++ a.type.text ++ ";" := rfl
  simp [hline]

theorem toList_propertyLine (p : Property) :
    p.line.toList = "    ".toList ++
      (p.name.toList ++ '?' :: (": ".toList ++ (p.type.text.toList ++ [';']))) := by
  have hline : p.line = "    " ++ p.name ++ "?: " ++ p.type.text ++ ";" := rfl
  simp [hline]

/-- What stands behind the name in the line that opens an interface. -/
def extension : Option String → String
  | none => "\x7b"
  | some base => "extends " ++ base ++ " \x7b"

theorem toList_header (i : Interface) :
    i.header.toList =
      "export interface ".toList ++ (i.name.toList ++ ' ' :: (extension i.base).toList) := by
  obtain ⟨name, base, properties⟩ := i
  cases base with
  | none =>
    have hline : Interface.header ⟨name, none, properties⟩ =
        "export interface " ++ name ++ " \x7b" := rfl
    simp [hline, extension]
  | some base =>
    have hline : Interface.header ⟨name, some base, properties⟩ =
        "export interface " ++ name ++ " extends " ++ base ++ " \x7b" := rfl
    simp [hline, extension]

theorem extension_injective {base base' : Option String}
    (h : (extension base).toList = (extension base').toList) : base = base' := by
  cases base with
  | none =>
    cases base' with
    | none => rfl
    | some b => simp [extension] at h
  | some b =>
    cases base' with
    | none => simp [extension] at h
    | some b' =>
      simp only [extension, String.toList_append] at h
      have hbase := List.append_cancel_left (List.append_cancel_right h)
      rw [String.toList_injective hbase]

/-- The line of an alias whose name has no blank tells the name and the text of the type. -/
theorem alias_of_line_eq {a b : Alias} (ha : ' ' ∉ a.name.toList) (hb : ' ' ∉ b.name.toList)
    (h : a.line = b.line) : a.name = b.name ∧ a.type.text = b.type.text := by
  have hlist := congrArg String.toList h
  rw [toList_aliasLine, toList_aliasLine] at hlist
  obtain ⟨hname, htype⟩ := append_cons_cancel ha hb (List.append_cancel_left hlist)
  exact ⟨String.toList_injective hname,
    String.toList_injective (List.append_cancel_right (List.append_cancel_left htype))⟩

/-- The line of a property whose name has no question mark tells the name and the text of the
type. -/
theorem property_of_line_eq {p q : Property} (hp : '?' ∉ p.name.toList) (hq : '?' ∉ q.name.toList)
    (h : p.line = q.line) : p.name = q.name ∧ p.type.text = q.type.text := by
  have hlist := congrArg String.toList h
  rw [toList_propertyLine, toList_propertyLine] at hlist
  obtain ⟨hname, htype⟩ := append_cons_cancel hp hq (List.append_cancel_left hlist)
  exact ⟨String.toList_injective hname,
    String.toList_injective (List.append_cancel_right (List.append_cancel_left htype))⟩

/-- The line that opens an interface whose name has no blank tells the name and the base. -/
theorem interface_of_header_eq {i j : Interface} (hi : ' ' ∉ i.name.toList)
    (hj : ' ' ∉ j.name.toList) (h : i.header = j.header) : i.name = j.name ∧ i.base = j.base := by
  have hlist := congrArg String.toList h
  rw [toList_header, toList_header] at hlist
  obtain ⟨hname, hbase⟩ := append_cons_cancel hi hj (List.append_cancel_left hlist)
  exact ⟨String.toList_injective hname, extension_injective hbase⟩

/-! ## Sections of a document -/

/-- The lines of an interface have no line feeds. -/
structure TypeScript.Interface.OneLined (i : Interface) : Prop where
  header : OneLine i.header
  properties : ∀ p ∈ i.properties, OneLine p.line

/-- The first interface of a text is determined, and what follows its closing brace. -/
theorem interface_lines_cancel {i j : Interface} (hi : i.OneLined) (hj : j.OneLined)
    {x y : List String} (h : unlines (i.lines ++ x) = unlines (j.lines ++ y)) :
    i.lines = j.lines ∧ unlines x = unlines y := by
  have hinside {k : Interface} (hk : k.OneLined) :
      ∀ l ∈ k.header :: k.properties.map Property.line, OneLine l ∧ l ≠ "\x7d" := by
    intro l hl
    rcases List.mem_cons.1 hl with rfl | hl
    · refine ⟨hk.header, fun heq => ?_⟩
      have hlist := toList_header k
      rw [heq] at hlist
      exact absurd (List.cons.inj hlist).1 (by decide)
    · obtain ⟨p, hp, rfl⟩ := List.mem_map.1 hl
      refine ⟨hk.properties p hp, fun heq => ?_⟩
      have hlist := toList_propertyLine p
      simp [heq] at hlist
  have hlines (k : Interface) (z : List String) :
      k.lines ++ z = (k.header :: k.properties.map Property.line) ++ "\x7d" :: z := by
    simp [Interface.lines]
  rw [hlines, hlines] at h
  obtain ⟨hequal, hrest⟩ :=
    unlines_append_cons_cancel (by decide) (hinside hi) (hinside hj) h
  refine ⟨?_, hrest⟩
  obtain ⟨hheader, hproperties⟩ := List.cons.inj hequal
  rw [Interface.lines, Interface.lines, hheader, hproperties]

theorem interfaceLines_cons (i : Interface) (is : List Interface) :
    interfaceLines (i :: is) = i.lines ++ is.flatMap fun j => "" :: j.lines := by
  induction is generalizing i with
  | nil => simp [interfaceLines]
  | cons j is ih =>
    rw [interfaceLines, List.map_cons, List.map_cons, List.intercalate_cons_cons, ← List.map_cons,
      ← interfaceLines, ih j]
    simp

/-- The lines of each interface are among the lines of all. -/
theorem mem_interfaceLines_of_mem {is : List Interface} {i : Interface} (hi : i ∈ is) {l : String}
    (hl : l ∈ i.lines) : l ∈ interfaceLines is := by
  cases is with
  | nil => cases hi
  | cons j is =>
    rw [interfaceLines_cons, List.mem_append, List.mem_flatMap]
    rcases List.mem_cons.1 hi with rfl | hi
    · exact Or.inl hl
    · exact Or.inr ⟨i, hi, List.mem_cons_of_mem "" hl⟩

theorem TypeScript.Interface.OneLined.oneLine_of_mem {i : Interface} (hi : i.OneLined) :
    ∀ l ∈ i.lines, OneLine l := by
  simp only [Interface.lines, List.forall_mem_cons, List.forall_mem_append, List.forall_mem_map]
  exact ⟨hi.header, hi.properties, by decide, nofun⟩

theorem oneLine_of_mem_interfaceLines {is : List Interface} (his : ∀ i ∈ is, i.OneLined) :
    ∀ l ∈ interfaceLines is, OneLine l := by
  cases is with
  | nil => nofun
  | cons i is =>
    rw [List.forall_mem_cons] at his
    rw [interfaceLines_cons, List.forall_mem_append, List.forall_mem_flatMap]
    refine ⟨his.1.oneLine_of_mem, fun j hj => ?_⟩
    rw [List.forall_mem_cons]
    exact ⟨by decide, (his.2 j hj).oneLine_of_mem⟩

/-- The lines of a roster behind the blank line that opens its section. -/
def rosterLines : Option Roster → List String
  | none => []
  | some r => "" :: r.lines

theorem prefix_header (i : Interface) : "export i".toList <+: i.header.toList := by
  rw [toList_header]
  exact (by decide : "export i".toList <+: "export interface ".toList).trans
    (List.prefix_append _ _)

/-- An interface does not begin like a roster. -/
theorem unlines_interface_ne_roster (i : Interface) (r : Roster) (x : List String) :
    unlines (i.lines ++ x) ≠ unlines r.lines := by
  have hroster : ∃ line y, r.lines = line :: y ∧ "export t".toList <+: line.toList := by
    obtain ⟨unionName, constantName, members⟩ := r
    cases members with
    | nil =>
      refine ⟨"export type " ++ unionName ++ " = never;", _, rfl, ?_⟩
      simp
    | cons m ms =>
      refine ⟨"export type " ++ unionName ++ " =", _, rfl, ?_⟩
      simp
  obtain ⟨line, y, hlines, hline⟩ := hroster
  rw [hlines]
  exact unlines_cons_ne (prefix_header i) hline (by decide) (by decide)

/-- Neither does what follows an interface, if that is another one. -/
theorem unlines_rosterLines_ne (r : Option Roster) (i : Interface) (x : List String) :
    unlines (rosterLines r) ≠ unlines ("" :: (i.lines ++ x)) := by
  intro h
  cases r with
  | none => exact unlines_cons_ne_unlines_nil _ _ h.symm
  | some r =>
    have hrest := (unlines_cons_cancel (by decide) (by decide) h).2
    exact unlines_interface_ne_roster i r x hrest.symm

/-- The interfaces that follow another one are determined. -/
theorem following_interfaces_cancel {is js : List Interface} {r r' : Option Roster}
    (his : ∀ i ∈ is, i.OneLined) (hjs : ∀ j ∈ js, j.OneLined)
    (h : unlines ((is.flatMap fun i => "" :: i.lines) ++ rosterLines r) =
      unlines ((js.flatMap fun j => "" :: j.lines) ++ rosterLines r')) :
    is.map Interface.lines = js.map Interface.lines := by
  induction is generalizing js with
  | nil =>
    cases js with
    | nil => rfl
    | cons j js =>
      rw [List.flatMap_cons, List.cons_append, List.cons_append, List.append_assoc] at h
      exact absurd h (unlines_rosterLines_ne r j _)
  | cons i is ih =>
    rw [List.flatMap_cons, List.cons_append, List.cons_append, List.append_assoc] at h
    cases js with
    | nil => exact absurd h.symm (unlines_rosterLines_ne r' i _)
    | cons j js =>
      rw [List.flatMap_cons, List.cons_append, List.cons_append, List.append_assoc] at h
      have hrest := (unlines_cons_cancel (by decide) (by decide) h).2
      obtain ⟨hlines, hrest⟩ := interface_lines_cancel (his i List.mem_cons_self)
        (hjs j List.mem_cons_self) hrest
      rw [List.map_cons, List.map_cons, hlines,
        ih (fun i hi => his i (List.mem_cons_of_mem _ hi))
          (fun j hj => hjs j (List.mem_cons_of_mem _ hj)) hrest]

/-- A section without interfaces does not begin like an interface. -/
theorem unlines_rosterLines_ne_interface (r : Option Roster) {i : Interface} (hi : i.OneLined)
    (x : List String) : unlines (rosterLines r) ≠ unlines (i.lines ++ x) := by
  intro h
  cases r with
  | none => exact unlines_cons_ne_unlines_nil _ _ h.symm
  | some r =>
    have hblank := (unlines_cons_cancel (by decide) hi.header h).1
    have hlist := toList_header i
    simp [← hblank] at hlist

/-- The interfaces of a document are determined. -/
theorem interfaceLines_cancel {is js : List Interface} {r r' : Option Roster}
    (his : ∀ i ∈ is, i.OneLined) (hjs : ∀ j ∈ js, j.OneLined)
    (h : unlines (interfaceLines is ++ rosterLines r) =
      unlines (interfaceLines js ++ rosterLines r')) :
    is.map Interface.lines = js.map Interface.lines := by
  cases is with
  | nil =>
    cases js with
    | nil => rfl
    | cons j js =>
      rw [interfaceLines_cons, List.append_assoc] at h
      exact absurd h (unlines_rosterLines_ne_interface r (hjs j List.mem_cons_self) _)
  | cons i is =>
    rw [interfaceLines_cons, List.append_assoc] at h
    cases js with
    | nil =>
      exact absurd h.symm (unlines_rosterLines_ne_interface r' (his i List.mem_cons_self) _)
    | cons j js =>
      rw [interfaceLines_cons, List.append_assoc] at h
      obtain ⟨hlines, hrest⟩ := interface_lines_cancel (his i List.mem_cons_self)
        (hjs j List.mem_cons_self) h
      rw [List.map_cons, List.map_cons, hlines,
        following_interfaces_cancel (fun i hi => his i (List.mem_cons_of_mem _ hi))
          (fun j hj => hjs j (List.mem_cons_of_mem _ hj)) hrest]

theorem document_lines_eq (d : Document) :
    d.lines = bannerLines d.generated ++ (d.aliases.map Alias.line ++
      "" :: (interfaceLines d.interfaces ++ rosterLines d.roster)) := by
  obtain ⟨generated, aliases, interfaces, roster⟩ := d
  cases roster <;> simp [Document.lines, rosterLines]

/-- The text of a document without a time determines the lines of its aliases and of its
interfaces, whatever rosters it ends in. -/
theorem declarations_of_text_eq {d d' : Document} (hd : d.generated = none)
    (hd' : d'.generated = none) (has : ∀ a ∈ d.aliases, OneLine a.line)
    (has' : ∀ a ∈ d'.aliases, OneLine a.line) (his : ∀ i ∈ d.interfaces, i.OneLined)
    (his' : ∀ i ∈ d'.interfaces, i.OneLined) (h : d.text = d'.text) :
    d.aliases.map Alias.line = d'.aliases.map Alias.line ∧
      d.interfaces.map Interface.lines = d'.interfaces.map Interface.lines := by
  have hinside {as : List Alias} (has : ∀ a ∈ as, OneLine a.line) :
      ∀ l ∈ as.map Alias.line, OneLine l ∧ l ≠ "" := by
    intro l hl
    obtain ⟨a, ha, rfl⟩ := List.mem_map.1 hl
    refine ⟨has a ha, fun heq => ?_⟩
    have hlist := toList_aliasLine a
    simp [heq] at hlist
  rw [Document.text, Document.text, document_lines_eq, document_lines_eq, hd, hd'] at h
  obtain ⟨haliases, hrest⟩ := unlines_append_cons_cancel (by decide) (hinside has)
    (hinside has') (unlines_append_cancel h)
  exact ⟨haliases, interfaceLines_cancel his his' hrest⟩

end SoapTypes
