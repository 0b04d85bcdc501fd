import SoapTypes.Proofs.Writing.Layout

/-!
# The grammar of documents

A document without a roster is read line by line. A line stands outside of an interface or inside of
one, and leads to one of these two places. The grammar asks for identifiers wherever a name stands,
and it does not mention how declarations are written. Which characters beyond ASCII may stand in
identifiers is left open: all that is shown here holds for every choice.
-/

namespace SoapTypes.TypeScript

open Text

/-- The letters and digits beyond ASCII. -/
structure Alphabet where
  letter : Char → Bool
  digit : Char → Bool

/-- The places between lines. -/
inductive Place
  | outside
  | inside

namespace Alphabet

variable {a : Alphabet}

/-- The characters that begin an identifier. -/
def starts (a : Alphabet) (c : Char) : Bool :=
  c.isAlpha || c == '_' || c == '$' || (decide (128 ≤ c.toNat) && a.letter c)

/-- The characters of an identifier. -/
def continues (a : Alphabet) (c : Char) : Bool :=
  a.starts c || c.isDigit || (decide (128 ≤ c.toNat) && a.digit c)

/-- A name that begins with a letter or one of two marks and goes on with these and digits. -/
structure Identifier (a : Alphabet) (name : String) : Prop where
  start : name.toList.head?.any a.starts = true
  rest : name.toList.all a.continues = true

instance (name : String) : Decidable (a.Identifier name) :=
  decidable_of_iff
    (name.toList.head?.any a.starts = true ∧ name.toList.all a.continues = true)
    ⟨fun h => ⟨h.1, h.2⟩, fun h => ⟨h.start, h.rest⟩⟩

/-- A type: an identifier, an array of one, or literals with bars between them. -/
inductive TypeText (a : Alphabet) : String → Prop
  | name {name : String} (hname : a.Identifier name) : TypeText a name
  | array {name : String} (hname : a.Identifier name) : TypeText a (name ++ "[]")
  | union {text : String} {values : List String} (hreads : UnionReads text.toList values) :
      TypeText a text

/-- A line and the places before and behind it. Blank lines stand anywhere. -/
inductive Line (a : Alphabet) : Place → Place → String → Prop
  | blank {p : Place} : Line a p p ""
  | aliased {name type : String} (hname : a.Identifier name) (htype : a.TypeText type) :
      Line a .outside .outside ("export type " ++ name ++ " = " ++ type ++ ";")
  | opening {name : String} (hname : a.Identifier name) :
      Line a .outside .inside ("export interface " ++ name ++ " \x7b")
  | extending {name base : String} (hname : a.Identifier name) (hbase : a.Identifier base) :
      Line a .outside .inside ("export interface " ++ name ++ " extends " ++ base ++ " \x7b")
  | property {name type : String} (hname : a.Identifier name) (htype : a.TypeText type) :
      Line a .inside .inside ("    " ++ name ++ "?: " ++ type ++ ";")
  | closing : Line a .inside .outside "\x7d"

/-- Lines, each of which stands where the one before leads to. -/
inductive Lines (a : Alphabet) : Place → Place → List String → Prop
  | nil {p : Place} : Lines a p p []
  | cons {p q r : Place} {l : String} {ls : List String} (hline : a.Line p q l)
      (hlines : Lines a q r ls) : Lines a p r (l :: ls)

/-- The banner without a time, and lines that begin and end outside of interfaces. -/
def WellFormed (a : Alphabet) (text : String) : Prop :=
  ∃ ls, text = unlines (bannerLines none ++ ls) ∧ a.Lines .outside .outside ls

/-! ## Identifiers and types -/

/-- No other character occurs in an identifier. -/
theorem Identifier.notMem {name : String} (h : a.Identifier name) {c : Char}
    (hc : a.continues c = false) : c ∉ name.toList := by
  intro hmem
  rw [List.all_eq_true.1 h.rest c hmem] at hc
  cases hc

theorem identifier_never (a : Alphabet) : a.Identifier "never" :=
  ⟨rfl, rfl⟩

theorem TypeText.oneLine {text : String} (h : a.TypeText text) : OneLine text := by
  cases h with
  | name hname => exact hname.notMem rfl
  | @array name hname =>
    have hno : '\n' ∉ name.toList := hname.notMem rfl
    simpa [OneLine] using hno
  | union hreads => exact hreads.lineFeed_notMem

/-- The text of a union of literals is a type, whatever the literals are. -/
theorem typeText_union (literals : List String) : a.TypeText (TypeExpr.union literals).text := by
  cases literals with
  | nil => exact .name (identifier_never a)
  | cons l ls => exact .union (unionReads_text (List.cons_ne_nil l ls))

/-- A plain name is a type only as an identifier. -/
theorem TypeText.identifier_of_plain {name : String} (hname : PlainName name)
    (h : a.TypeText name) : a.Identifier name := by
  cases h with
  | name h => exact h
  | array =>
    have hno : '[' ∉ (_ ++ "[]" : String).toList := hname.notMem rfl
    simp at hno
  | union hreads => exact absurd hreads.quote_mem (hname.notMem rfl)

/-- An array of a plain name is a type only as an array of an identifier. -/
theorem TypeText.identifier_of_array {name : String} (hname : PlainName name)
    (h : a.TypeText (name ++ "[]")) : a.Identifier name := by
  generalize htext : name ++ "[]" = text at h
  cases h with
  | name h =>
    have hno : '[' ∉ text.toList := h.notMem rfl
    simp [← htext] at hno
  | array h =>
    have hlist := congrArg String.toList htext
    rw [String.toList_append, String.toList_append] at hlist
    rwa [String.toList_injective (List.append_cancel_right hlist)]
  | union hreads =>
    have hno : '"' ∉ name.toList := hname.notMem rfl
    have hmem := hreads.quote_mem
    rw [← htext] at hmem
    exact absurd (by simpa using hmem) hno

/-! ## Single lines -/

theorem Line.oneLine {p q : Place} {l : String} (h : a.Line p q l) : OneLine l := by
  have hno {name : String} (hname : a.Identifier name) : '\n' ∉ name.toList := hname.notMem rfl
  cases h with
  | blank => decide
  | aliased hname htype =>
    have htype : '\n' ∉ _ := htype.oneLine
    simpa [OneLine] using ⟨hno hname, htype⟩
  | opening hname => simpa [OneLine] using hno hname
  | extending hname hbase => simpa [OneLine] using ⟨hno hname, hno hbase⟩
  | property hname htype =>
    have htype : '\n' ∉ _ := htype.oneLine
    simpa [OneLine] using ⟨hno hname, htype⟩
  | closing => decide

/-- The line of an alias is a line of the grammar only as such. -/
theorem Line.of_alias {p q : Place} {t : Alias} (ht : ' ' ∉ t.name.toList)
    (h : a.Line p q t.line) : a.Identifier t.name ∧ a.TypeText t.type.text := by
  have hlist := toList_aliasLine t
  generalize hline : t.line = line at h hlist
  cases h with
  | @aliased name type hname htype =>
    obtain ⟨hnames, htexts⟩ :=
      alias_of_line_eq (b := ⟨name, .name type⟩) ht (hname.notMem rfl) hline
    exact ⟨hnames ▸ hname, htexts ▸ htype⟩
  | _ => simp at hlist

/-- The line of a property is a line of the grammar only as such. -/
theorem Line.of_property {p q : Place} {t : Property} (ht : '?' ∉ t.name.toList)
    (h : a.Line p q t.line) : a.Identifier t.name ∧ a.TypeText t.type.text := by
  have hlist := toList_propertyLine t
  generalize hline : t.line = line at h hlist
  cases h with
  | @property name type hname htype =>
    obtain ⟨hnames, htexts⟩ :=
      property_of_line_eq (q := ⟨name, .name type⟩) ht (hname.notMem rfl) hline
    exact ⟨hnames ▸ hname, htexts ▸ htype⟩
  | _ => simp at hlist

/-- The line that opens an interface is a line of the grammar only as such. -/
theorem Line.of_header {p q : Place} {i : Interface} (hi : ' ' ∉ i.name.toList)
    (h : a.Line p q i.header) : a.Identifier i.name ∧ ∀ base ∈ i.base, a.Identifier base := by
  have hlist := toList_header i
  generalize hline : i.header = line at h hlist
  cases h with
  | @opening name hname =>
    obtain ⟨hnames, hbases⟩ :=
      interface_of_header_eq (j := ⟨name, none, []⟩) hi (hname.notMem rfl) hline
    rw [hbases]
    exact ⟨hnames ▸ hname, nofun⟩
  | @extending name base hname hbase =>
    obtain ⟨hnames, hbases⟩ :=
      interface_of_header_eq (j := ⟨name, some base, []⟩) hi (hname.notMem rfl) hline
    rw [hbases]
    exact ⟨hnames ▸ hname, fun _ h => Option.some.inj h ▸ hbase⟩
  | _ => simp at hlist

/-! ## Lines together -/

theorem Lines.append {p q r : Place} {ls ms : List String} (h : a.Lines p q ls)
    (h' : a.Lines q r ms) : a.Lines p r (ls ++ ms) := by
  induction h with
  | nil => exact h'
  | cons hline _ ih => exact .cons hline (ih h')

/-- Each of several lines is a line of the grammar somewhere. -/
theorem Lines.exists_line {p q : Place} {ls : List String} (h : a.Lines p q ls) {l : String}
    (hl : l ∈ ls) : ∃ p q, a.Line p q l := by
  induction h with
  | nil => cases hl
  | cons hline _ ih =>
    rcases List.mem_cons.1 hl with rfl | hl
    · exact ⟨_, _, hline⟩
    · exact ih hl

/-- Parts that begin and end in one place may follow each other. -/
theorem lines_flatMap {α : Type} {p : Place} {f : α → List String} {xs : List α}
    (h : ∀ x ∈ xs, a.Lines p p (f x)) : a.Lines p p (xs.flatMap f) := by
  induction xs with
  | nil => exact .nil
  | cons x xs ih =>
    rw [List.forall_mem_cons] at h
    exact h.1.append (ih h.2)

theorem lines_map {α : Type} {p : Place} {f : α → String} {xs : List α}
    (h : ∀ x ∈ xs, a.Line p p (f x)) : a.Lines p p (xs.map f) := by
  rw [List.map_eq_flatMap]
  exact lines_flatMap fun x hx => .cons (h x hx) .nil

/-- An interface begins and ends outside. -/
theorem lines_interface {i : Interface} (hheader : a.Line .outside .inside i.header)
    (hproperties : ∀ p ∈ i.properties, a.Line .inside .inside p.line) :
    a.Lines .outside .outside i.lines :=
  .cons hheader ((lines_map hproperties).append (.cons .closing .nil))

theorem lines_interfaceLines {is : List Interface}
    (h : ∀ i ∈ is, a.Lines .outside .outside i.lines) :
    a.Lines .outside .outside (interfaceLines is) := by
  cases is with
  | nil => exact .nil
  | cons i is =>
    rw [List.forall_mem_cons] at h
    rw [interfaceLines_cons]
    exact h.1.append (lines_flatMap fun j hj => .cons .blank (h.2 j hj))

/-- A text that begins with the banner is well-formed exactly if the grammar holds of its other
lines. -/
theorem wellFormed_unlines_iff {ls : List String} (hls : ∀ l ∈ ls, OneLine l) :
    a.WellFormed (unlines (bannerLines none ++ ls)) ↔ a.Lines .outside .outside ls := by
  constructor
  · rintro ⟨ms, htext, hms⟩
    -- Lines of the grammar have no line feeds, so the text tells that they are the given ones.
    have honeLine : ∀ m ∈ ms, OneLine m := by
      intro m hm
      obtain ⟨p, q, hline⟩ := hms.exists_line hm
      exact hline.oneLine
    rwa [unlines_injective hls honeLine (unlines_append_cancel htext)]
  · intro h
    exact ⟨ls, rfl, h⟩

/-- A document is well-formed if its aliases and interfaces follow the grammar. -/
theorem wellFormed_text {d : Document} (hd : d.generated = none) (hroster : d.roster = none)
    (haliases : ∀ t ∈ d.aliases, a.Line .outside .outside t.line)
    (hinterfaces : ∀ i ∈ d.interfaces, a.Lines .outside .outside i.lines) :
    a.WellFormed d.text := by
  have hlines : a.Lines .outside .outside
      (d.aliases.map Alias.line ++ "" :: (interfaceLines d.interfaces ++ rosterLines none)) :=
    (lines_map haliases).append (.cons .blank ((lines_interfaceLines hinterfaces).append .nil))
  exact ⟨_, by rw [Document.text, document_lines_eq, hd, hroster], hlines⟩

/-- A document whose lines have no line feeds is well-formed only if each of its lines is a line of
the grammar. -/
theorem exists_line_of_wellFormed {d : Document} (hd : d.generated = none)
    (hroster : d.roster = none) (has : ∀ t ∈ d.aliases, OneLine t.line)
    (his : ∀ i ∈ d.interfaces, i.OneLined) (h : a.WellFormed d.text) :
    (∀ t ∈ d.aliases, ∃ p q, a.Line p q t.line) ∧
      ∀ i ∈ d.interfaces, ∀ l ∈ i.lines, ∃ p q, a.Line p q l := by
  rw [Document.text, document_lines_eq, hd, hroster, rosterLines, List.append_nil,
    wellFormed_unlines_iff] at h
  · constructor
    · intro t ht
      exact h.exists_line (List.mem_append_left _ (List.mem_map_of_mem ht))
    · intro i hi l hl
      exact h.exists_line (List.mem_append_right _ (List.mem_cons_of_mem _
        (mem_interfaceLines_of_mem hi hl)))
  · simp only [List.forall_mem_append, List.forall_mem_cons, List.forall_mem_map]
    exact ⟨has, by decide, oneLine_of_mem_interfaceLines his⟩

end Alphabet

end SoapTypes.TypeScript
