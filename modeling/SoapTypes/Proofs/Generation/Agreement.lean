import SoapTypes.Proofs.Extraction.Failure
import SoapTypes.Proofs.Files.Frame
import SoapTypes.Proofs.Inheritance.Soundness
import SoapTypes.Proofs.Writing.Writable
import SoapTypes.Generation.Run

/-!
# Two ways to a document

A run that reads its description from a file goes through the same steps as the way from a text to
its document, but has errors of its own: what is wrong with the notation of a description is told
apart from what is wrong with its schema. Up to this both ways end alike, and no run ends in an
error of writing.
-/

namespace SoapTypes

/-! ## Where errors come from -/

namespace Schema

/-- An error that does not lie in the notation of a description. -/
def Error.BeyondNotation (error : Error) : Prop :=
  ∀ e, error ≠ .document e

theorem SequenceFails.beyondNotation {sequence : Xml.Element} {error : Error}
    (h : SequenceFails sequence error) : error.BeyondNotation := by
  obtain ⟨_, -, hfield⟩ := h
  cases hfield
  nofun

theorem Declaration.Fails.beyondNotation {d : Declaration} {error : Error} (h : d.Fails error) :
    error.BeyondNotation := by
  cases h with
  | element _ _ hfails => exact hfails.beyondNotation
  | sequence _ _ _ hfails => exact hfails.beyondNotation
  | extensionField _ _ _ _ _ hfails => exact hfails.beyondNotation
  | _ => nofun

/-- Extraction finds no fault with the notation. -/
theorem beyondNotation_of_ofRoot {root : Xml.Element} {error : Error}
    (h : (ofRoot root).result = .error error) : error.BeyondNotation := by
  by_cases hroot : root.localName = "definitions"
  · cases hschema : root.descend? ["types", "schema"] with
    | none =>
      rw [ofRoot, hroot, beq_self_eq_true, if_pos rfl, hschema] at h
      obtain rfl := Except.error.inj h
      simp [Error.BeyondNotation]
    | some schema =>
      obtain ⟨d, -, hfails⟩ := ((ofRoot_error_iff hroot hschema).2.1 error).1 h
      exact hfails.beyondNotation
  · rw [ofRoot, beq_eq_false_iff_ne.2 hroot] at h
    obtain rfl := Except.error.inj h
    simp [Error.BeyondNotation]

/-- Validation finds none either. -/
theorem beyondNotation_of_validate {s : Schema} {error : Error}
    (h : s.validate.result = .error error) : error.BeyondNotation := by
  rw [validate_result_eq_error_iff, unsoundness?, Option.or_eq_some_iff] at h
  rcases h with hbase | ⟨-, hcircle⟩
  · obtain ⟨t, -, ht⟩ := List.exists_of_findSome?_eq_some hbase
    obtain ⟨base, -, -, rfl⟩ := undeclaredBase?_eq_some_iff.1 ht
    simp [Error.BeyondNotation]
  · obtain ⟨t, -, ht⟩ := List.exists_of_findSome?_eq_some hcircle
    obtain ⟨path, -, rfl⟩ := circularBase?_eq_some_iff.1 ht
    simp [Error.BeyondNotation]

end Schema

namespace Generation

open Files

/-- The error in which a run ends where the way from a text to its document ends in the given
one. -/
def Error.ofTypeScript : TypeScript.Error → Error
  | .schema (.document e) => .document e
  | .schema e => .schema e
  | e => .typeScript e

theorem Error.ofTypeScript_schema {e : Schema.Error} (h : e.BeyondNotation) :
    ofTypeScript (.schema e) = .schema e := by
  cases e with
  | document e => exact absurd rfl (h e)
  | _ => rfl

/-- From a text that is parsed on, only extraction and validation can fail. -/
theorem ofText_cases {text : String} {element : Xml.Element} (generated : Option Timestamp)
    (root : Option String) (hparse : Xml.parse text = .ok element) :
    (∃ e, (Schema.ofRoot element).result = .error e ∧
      (TypeScript.ofText text generated root).result = .error (.schema e)) ∨
    ∃ s, (Schema.ofRoot element).result = .ok s ∧
      ((∃ e, s.validate.result = .error e ∧
        (TypeScript.ofText text generated root).result = .error (.schema e)) ∨
      ∃ d, s.validate.result = .ok () ∧ (s.document generated root).result = .ok d ∧
        (TypeScript.ofText text generated root).result = .ok d.text) := by
  simp only [TypeScript.ofText, Schema.ofText, Report.bind_eq_bind, Report.pure_eq_ok,
    Report.result_bind, Report.result_ok, Report.result_ofExcept, Report.mapError, hparse]
  cases hextract : (Schema.ofRoot element).result with
  | error e => exact Or.inl ⟨e, rfl, by simp only [Except.mapError, Except.bind, hextract]⟩
  | ok s =>
    refine Or.inr ⟨s, rfl, ?_⟩
    cases hvalidate : s.validate.result with
    | error e =>
      exact Or.inl ⟨e, rfl, by simp only [Except.mapError, Except.bind, hextract, hvalidate]⟩
    | ok u =>
      obtain ⟨d, hd⟩ := (s.exists_document_iff_writable generated root).2
        (Schema.extracted_of_ofRoot hextract).writable
      refine Or.inr ⟨d, rfl, hd, ?_⟩
      simp only [Except.mapError, Except.bind, hextract, hvalidate, hd]

/-- The way from a text to its document finds fault with the notation exactly if parsing does. -/
theorem ofText_eq_error_document_iff {text : String} {generated : Option Timestamp}
    {root : Option String} {e : Xml.Error} :
    (TypeScript.ofText text generated root).result = .error (.schema (.document e)) ↔
      Xml.parse text = .error e := by
  cases hparse : Xml.parse text with
  | error e' =>
    simp [TypeScript.ofText, Schema.ofText, Report.mapError, hparse, Except.mapError, Except.bind]
  | ok element =>
    refine iff_of_false (fun h => ?_) (by simp)
    rcases ofText_cases generated root hparse with ⟨e', hextract, hresult⟩ |
      ⟨s, -, ⟨e', hvalidate, hresult⟩ | ⟨d, -, -, hresult⟩⟩
    · rw [hresult, Except.error.injEq, TypeScript.Error.schema.injEq] at h
      exact Schema.beyondNotation_of_ofRoot hextract e h
    · rw [hresult, Except.error.injEq, TypeScript.Error.schema.injEq] at h
      exact Schema.beyondNotation_of_validate hvalidate e h
    · cases hresult.symm.trans h

section Run

variable {read : Reader} {env : Environment} {o : Options} {path text : String}

/-- A run whose description is a file that can be read parses the text of the file. -/
theorem load_result (hsource : o.source = .file path) (hread : read path = .ok text) :
    (load read env o).result = (Xml.parse text).mapError .document := by
  simp only [load, Options.sourcePath, hsource, Report.bind_eq_bind, Report.result_bind,
    Report.result_tell, Report.result_ofExcept, hread]
  rfl

/-- A run on a file ends as the way from the text of the file to its document does. -/
theorem render_result (hsource : o.source = .file path) (hread : read path = .ok text) :
    (render read env o).result =
      (TypeScript.ofText text (o.generatedAt env) o.root).result.mapError Error.ofTypeScript := by
  simp only [render, loadSchema, Report.bind_eq_bind, Report.pure_eq_ok, Report.result_bind,
    Report.result_ok, load_result hsource hread, Report.mapError]
  cases hparse : Xml.parse text with
  | error e =>
    rw [ofText_eq_error_document_iff.2 hparse]
    rfl
  | ok element =>
    rcases ofText_cases (o.generatedAt env) o.root hparse with ⟨e, hextract, hresult⟩ |
      ⟨s, hextract, ⟨e, hvalidate, hresult⟩ | ⟨d, hvalidate, hd, hresult⟩⟩
    · have hschema := Error.ofTypeScript_schema (Schema.beyondNotation_of_ofRoot hextract)
      simp only [Except.mapError, Except.bind, hextract, hresult, hschema]
    · have hschema := Error.ofTypeScript_schema (Schema.beyondNotation_of_validate hvalidate)
      simp only [Except.mapError, Except.bind, hextract, hvalidate, hresult, hschema]
    · simp only [Except.mapError, Except.bind, hextract, hvalidate, hd, hresult]

end Run

/-- **Both ways to a document agree.** A run on a file that holds the UTF-8 form of a text, without
the time, gives the document of the text or ends in the corresponding error. What is wrong with the
notation is what parsing finds, and all other errors are of the schema. -/
theorem render_agrees {store : Store} {env : Environment} {o : Options} {path text : String}
    {place : Location} (hdescription : o.description = some path) (hlatest : o.latest = false)
    (hversion : o.version = none) (htime : o.timestamp = false)
    (hplace : store.locate path = .ok place)
    (hfile : store.contents? place = some text.toUTF8) :
    (∀ document, (render store.readText env o).result = .ok document ↔
      (TypeScript.ofText text none o.root).result = .ok document) ∧
    (∀ e, (render store.readText env o).result = .error (.document e) ↔
      (TypeScript.ofText text none o.root).result = .error (.schema (.document e))) ∧
    (∀ e, (render store.readText env o).result = .error (.schema e) ↔
      (TypeScript.ofText text none o.root).result = .error (.schema e) ∧
        ∀ e', e ≠ .document e') ∧
    (∀ e, (render store.readText env o).result = .error (.document e) ↔
      Xml.parse text = .error e) ∧
    ∀ e, (render store.readText env o).result = .error e →
      (∃ e', e = .document e') ∨ ∃ e', e = .schema e' := by
  have hsource : o.source = .file path := by
    simp [Options.source, hlatest, hversion, hdescription]
  have hread := Store.readText_of_contents? hplace hfile
  have htime : o.generatedAt env = none := by
    simp [Options.generatedAt, htime]
  have hrender : (render store.readText env o).result = _ := render_result hsource hread
  have hnotation (e : Xml.Error) :
      (TypeScript.ofText text none o.root).result = .error (.schema (.document e)) ↔
        Xml.parse text = .error e := ofText_eq_error_document_iff
  rw [htime] at hrender
  rw [hrender]
  simp only [← hnotation]
  cases hresult : (TypeScript.ofText text none o.root).result with
  | ok document => simp [Except.mapError]
  | error error =>
    obtain ⟨e, rfl⟩ := TypeScript.ofText_error hresult
    cases e with
    | document e => simp [Except.mapError, Error.ofTypeScript]
    | _ => simp [Except.mapError, Error.ofTypeScript]

/-- A store with a description that gives a document, one with a fault in its notation and one with
a fault in its schema. -/
def threeDescriptions : Store :=
  ⟨["work"], .ofList [(["work"], Entry.directory),
    (["bare", "work"], Entry.file "<definitions><types><schema/></types></definitions>".toUTF8),
    (["open", "work"], Entry.file "<definitions>".toUTF8),
    (["empty", "work"], Entry.file "<definitions/>".toUTF8)]⟩

/-- Options that read the description of a name. -/
def familyOptions (name : String) : Options :=
  { description := some name, root := some "A", timestamp := false }

/-- An environment without resources. -/
def emptyEnvironment : Environment := ⟨"resources", ⟨0, 0⟩⟩

/-- How a run on one of the descriptions ends. -/
def renderOne (name : String) : Except Error String :=
  (render threeDescriptions.readText emptyEnvironment (familyOptions name)).result

/-- A document, a fault of the notation and one of the schema, as `render_agrees` says. -/
theorem threeDescriptions_render :
    (∃ document, (TypeScript.ofText "<definitions><types><schema/></types></definitions>" none
        (some "A")).result = .ok document ∧ renderOne "bare" = .ok document) ∧
      renderOne "open" = .error (.document (.tree (.neverClosed "definitions"))) ∧
      renderOne "empty" = .error (.schema (.missingNode "definitions/types/schema")) := by
  have hagrees (name text : String)
      (hplace : threeDescriptions.locate name = .ok [name, "work"])
      (hfile : threeDescriptions.contents? [name, "work"] = some text.toUTF8) :=
    @render_agrees threeDescriptions emptyEnvironment (familyOptions name) _ _ _ rfl rfl rfl rfl
      hplace hfile
  obtain ⟨hok, -⟩ := hagrees "bare" _ (by decide +kernel) rfl
  obtain ⟨-, -, -, hparse, -⟩ := hagrees "open" _ (by decide +kernel) rfl
  obtain ⟨-, -, hschema, -⟩ := hagrees "empty" _ (by decide +kernel) rfl
  have hopen : Xml.parse "<definitions>" = .error (.tree (.neverClosed "definitions")) := by
    decide +kernel
  have hempty : (TypeScript.ofText "<definitions/>" none (some "A")).result =
      .error (.schema (.missingNode "definitions/types/schema")) := by
    decide +kernel
  obtain ⟨document, hdocument⟩ : ∃ document,
      (TypeScript.ofText "<definitions><types><schema/></types></definitions>" none
        (some "A")).result = .ok document :=
    failure?_eq_none_iff.1 (by decide +kernel)
  exact ⟨⟨document, hdocument, (hok document).2 hdocument⟩, (hparse _).2 hopen,
    (hschema _).2 ⟨hempty, nofun⟩⟩

end Generation

end SoapTypes
