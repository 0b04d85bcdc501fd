import SoapTypes.Proofs.Naming.References
import SoapTypes.Proofs.Naming.Warnings

/-!
# Distinct names

Validation is silent exactly if all names in a schema are distinct, those of simple and of complex
types together. Its document may still declare a name twice: capital letters make different names
equal, and the union of a roster takes a name that no one has asked for. This file says exactly when
that happens.
-/

namespace SoapTypes

open TypeScript Text

/-! ## The names that a document declares -/

/-- The names of all types that a document declares. -/
def TypeScript.Document.typeNames (d : Document) : List String :=
  d.aliases.map (·.name) ++ d.interfaces.map (·.name) ++ d.roster.toList.map (·.unionName)

/-- The name of the union of a root's family. -/
def unionName (root : String) : String := capitalize root ++ "Type"

/-- An alias has the name of its type. -/
theorem SimpleType.name_alias {t : SimpleType} {a : Alias} (ha : t.alias = .ok a) :
    a.name = t.name := by
  obtain ⟨name, _ | base, _ | literals⟩ := t
  · cases ha
  all_goals
    obtain rfl := Except.ok.inj ha
    rfl

theorem map_name_aliases {s : Schema} {as : List Alias} (has : s.aliases = .ok as) :
    as.map (·.name) = s.simpleTypes.map (·.name) :=
  map_eq_of_mapM has fun _ _ _ ha => SimpleType.name_alias ha

/-- A document declares the names of the simple types as they are, those of the complex types with
capital letters, and that of the union if there is a root. -/
theorem typeNames_document {s : Schema} {generated : Option Timestamp} {root : Option String}
    {d : Document} (hd : (s.document generated root).result = .ok d) :
    d.typeNames = s.simpleTypes.map (·.name) ++ s.complexTypes.map (fun t => capitalize t.name) ++
      root.toList.map unionName := by
  obtain ⟨as, is, has, his, rfl⟩ := Schema.document_eq_ok_iff.1 hd
  rw [Document.typeNames, map_name_aliases has, map_name_interfaces his]
  cases root <;> rfl

/-- Names that stay apart when they are written. -/
structure Schema.Apart (s : Schema) (root : Option String) : Prop where
  complex : ∀ t ∈ s.complexTypes, ∀ u ∈ s.complexTypes, t.name ≠ u.name →
    capitalize t.name ≠ capitalize u.name
  simple : ∀ t ∈ s.simpleTypes, ∀ u ∈ s.complexTypes, t.name ≠ capitalize u.name
  union : ∀ r ∈ root, (∀ t ∈ s.simpleTypes, t.name ≠ unionName r) ∧
    ∀ t ∈ s.complexTypes, capitalize t.name ≠ unionName r

/-- Among distinct names those of the complex types are distinct when they are written if no two of
them have the same capital form. -/
theorem Schema.nodup_map_capitalize_iff {s : Schema}
    (hdistinct : (s.complexTypes.map (·.name)).Nodup) :
    (s.complexTypes.map fun t => capitalize t.name).Nodup ↔
      ∀ t ∈ s.complexTypes, ∀ u ∈ s.complexTypes, t.name ≠ u.name →
        capitalize t.name ≠ capitalize u.name := by
  have hmap : (s.complexTypes.map fun t => capitalize t.name) =
      (s.complexTypes.map (·.name)).map capitalize := by
    rw [List.map_map]
    rfl
  rw [hmap, List.nodup_map_iff_inj_on hdistinct]
  simp only [List.forall_mem_map]
  exact forall₄_congr fun t _ u _ => not_imp_not.symm

/-- Distinct names of a schema are distinct when they are written if they stay apart. -/
theorem Schema.nodup_written_iff {s : Schema} {root : Option String}
    (hdistinct : (s.simpleTypes.map (·.name) ++ s.complexTypes.map (·.name)).Nodup) :
    (s.simpleTypes.map (·.name) ++ s.complexTypes.map (fun t => capitalize t.name) ++
      root.toList.map unionName).Nodup ↔ s.Apart root := by
  obtain ⟨hsimple, hcomplex, -⟩ := List.nodup_append.1 hdistinct
  have hunion : (root.toList.map unionName).Nodup := by cases root <;> simp
  rw [List.nodup_append, List.nodup_append, Schema.nodup_map_capitalize_iff hcomplex]
  simp only [List.forall_mem_append, List.forall_mem_map, Option.mem_toList]
  constructor
  · rintro ⟨⟨-, hcomplex, hboth⟩, -, hroot⟩
    exact ⟨hcomplex, hboth, fun r hr =>
      ⟨fun t ht => hroot.1 t ht r hr, fun t ht => hroot.2 t ht r hr⟩⟩
  · intro h
    exact ⟨⟨hsimple, h.complex, h.simple⟩, hunion, fun t ht r hr => (h.union r hr).1 t ht,
      fun t ht r hr => (h.union r hr).2 t ht⟩

/-- **Distinct declarations.** If validation is silent, the names that a document declares are
distinct exactly if the names of the schema stay apart when they are written. If the complex types
have capital letters already, only the union of the roster can take a name twice. -/
theorem nodup_typeNames_iff {s : Schema} (hsilent : s.validate.notices = [])
    {generated : Option Timestamp} {root : Option String} {d : Document}
    (hd : (s.document generated root).result = .ok d) :
    (d.typeNames.Nodup ↔ s.Apart root) ∧
    ((∀ t ∈ s.complexTypes, capitalize t.name = t.name) →
      (d.typeNames.Nodup ↔ ∀ r ∈ root, (∀ t ∈ s.simpleTypes, t.name ≠ unionName r) ∧
        ∀ t ∈ s.complexTypes, t.name ≠ unionName r)) := by
  have hdistinct := Schema.nameWarnings_eq_nil_iff.1 hsilent
  have happart : d.typeNames.Nodup ↔ s.Apart root := by
    rw [typeNames_document hd, Schema.nodup_written_iff hdistinct]
  refine ⟨happart, fun hcapital => happart.trans ?_⟩
  obtain ⟨-, -, hboth⟩ := List.nodup_append.1 hdistinct
  simp only [List.forall_mem_map] at hboth
  constructor
  · intro h r hr
    exact ⟨(h.union r hr).1, fun t ht => hcapital t ht ▸ (h.union r hr).2 t ht⟩
  · intro hunion
    refine ⟨fun t ht u hu hne => ?_, fun t ht u hu => ?_, fun r hr => ⟨(hunion r hr).1, ?_⟩⟩
    · rwa [hcapital t ht, hcapital u hu]
    · rw [hcapital u hu]
      exact hboth t ht u hu
    · intro t ht
      rw [hcapital t ht]
      exact (hunion r hr).2 t ht

/-- Types with capital letters, of which one descends from the other, and an alias. -/
def capitalWidgets : Schema :=
  ⟨[⟨"Kind", some "string", none⟩], [⟨"Gadget", some "Widget", []⟩, ⟨"Widget", none, []⟩]⟩

/-- The document of these types with the roster of a root. -/
def capitalWidgetsDocument : Document :=
  ⟨none, [⟨"Kind", .name "string"⟩], [⟨"Gadget", some "Widget", []⟩, ⟨"Widget", none, []⟩],
    some ⟨"WidgetType", "widgetTypes", ["Gadget", "Widget"]⟩⟩

/-- The names that this document declares are distinct, as `nodup_typeNames_iff` says. -/
theorem capitalWidgets_nodup :
    capitalWidgets.validate.notices = [] ∧
      (capitalWidgets.document none (some "Widget")).result = .ok capitalWidgetsDocument ∧
      (∀ t ∈ capitalWidgets.complexTypes, capitalize t.name = t.name) ∧
      capitalWidgetsDocument.typeNames.Nodup := by
  have hsilent : capitalWidgets.validate.notices = [] := by decide +kernel
  have hd : (capitalWidgets.document none (some "Widget")).result =
      .ok capitalWidgetsDocument := by decide +kernel
  have hcapital : ∀ t ∈ capitalWidgets.complexTypes, capitalize t.name = t.name := by
    decide +kernel
  have hunion : ∀ r ∈ some "Widget", (∀ t ∈ capitalWidgets.simpleTypes, t.name ≠ unionName r) ∧
      ∀ t ∈ capitalWidgets.complexTypes, t.name ≠ unionName r := by decide +kernel
  exact ⟨hsilent, hd, hcapital, ((nodup_typeNames_iff hsilent hd).2 hcapital).2 hunion⟩

/-- A sound schema without warnings whose document declares a name twice. -/
def Clashes (s : Schema) (root : Option String) : Prop :=
  s.validate.result = .ok () ∧ s.validate.notices = [] ∧
    ∃ d, (s.document none root).result = .ok d ∧ ¬ d.typeNames.Nodup

/-- Two complex types with the same capital form. -/
def twoWidgets : Schema :=
  ⟨[], [⟨"Widget", none, []⟩, ⟨"widget", none, []⟩]⟩

/-- A simple type with the capital form of a complex one. -/
def aliasedWidget : Schema :=
  ⟨[⟨"Widget", some "string", none⟩], [⟨"widget", none, []⟩]⟩

/-- A simple type with the name of the union of a root's family. -/
def typedWidget : Schema :=
  ⟨[⟨"WidgetType", some "string", none⟩], [⟨"Widget", none, []⟩]⟩

/-- Names clash in each way in which they may fail to stay apart. -/
theorem clashes :
    Clashes twoWidgets none ∧ Clashes aliasedWidget none ∧ Clashes typedWidget (some "Widget") := by
  have hcomplex : (twoWidgets.document none none).result =
      .ok ⟨none, [], [⟨"Widget", none, []⟩, ⟨"Widget", none, []⟩], none⟩ := by decide +kernel
  have hsimple : (aliasedWidget.document none none).result =
      .ok ⟨none, [⟨"Widget", .name "string"⟩], [⟨"Widget", none, []⟩], none⟩ := by decide +kernel
  have hunion : (typedWidget.document none (some "Widget")).result =
      .ok ⟨none, [⟨"WidgetType", .name "string"⟩], [⟨"Widget", none, []⟩],
        some ⟨"WidgetType", "widgetTypes", ["Widget"]⟩⟩ := by decide +kernel
  exact ⟨⟨by decide +kernel, by decide +kernel, _, hcomplex, by decide⟩,
    ⟨by decide +kernel, by decide +kernel, _, hsimple, by decide⟩,
    ⟨by decide +kernel, by decide +kernel, _, hunion, by decide⟩⟩

end SoapTypes
