import SoapTypes.Proofs.Writing.Writable

/-!
# Why a schema has no document

Making a document fails at the first simple type without content or, if there is none, at the first
field without a type, with an error that names it. The schema may be any; neither the time nor the
root of the roster matters.
-/

namespace SoapTypes

open TypeScript

/-- A simple type with neither literals nor a base. -/
def SimpleType.Bare (t : SimpleType) : Prop :=
  t.literals = none ∧ t.base = none

/-- A field whose type is empty. -/
def Field.Untyped (f : Field) : Prop :=
  f.type = ""

/-- A complex type with a field whose type is empty. -/
def ComplexType.HasUntyped (t : ComplexType) : Prop :=
  ∃ f ∈ t.fields, f.Untyped

/-- The first type of a schema that cannot be written and the error that tells so. Simple types are
written before complex ones. -/
inductive Schema.FirstFault (s : Schema) : TypeScript.Error → Prop
  | bare {t : SimpleType} (hfirst : FirstOf SimpleType.Bare s.simpleTypes t) :
      FirstFault s (.emptySimpleType t.name)
  | untyped {t : ComplexType} {f : Field} (hsimple : ∀ t ∈ s.simpleTypes, ¬ t.Bare)
      (hfirst : FirstOf ComplexType.HasUntyped s.complexTypes t)
      (hfield : FirstOf Field.Untyped t.fields f) :
      FirstFault s (.unknownPropertyType t.name f.name f.type)

theorem SimpleType.not_bare_iff {t : SimpleType} :
    ¬ t.Bare ↔ t.literals ≠ none ∨ t.base ≠ none :=
  not_and_or

theorem SimpleType.alias_eq_error_iff {t : SimpleType} {e : TypeScript.Error} :
    t.alias = .error e ↔ t.Bare ∧ e = .emptySimpleType t.name := by
  rcases t with ⟨name, _ | base, _ | literals⟩ <;> simp [SimpleType.alias, SimpleType.Bare, eq_comm]

/-- Only the empty name stands for the empty type, so it is the type of the field that is
checked. -/
theorem Field.property_eq_error_iff {owner : String} {f : Field} {e : TypeScript.Error} :
    f.property owner = .error e ↔ f.Untyped ∧ e = .unknownPropertyType owner f.name f.type := by
  rw [Field.Untyped, ← typeName_eq_empty_iff, ← String.isEmpty_iff, Field.property,
    Field.propertyType, except_map_eq_error_iff]
  cases (typeName f.type).isEmpty with
  | true => simp [eq_comm]
  | false => simp

theorem ComplexType.interface_eq_error_iff {t : ComplexType} {e : TypeScript.Error} :
    t.interface = .error e ↔
      ∃ f, FirstOf Field.Untyped t.fields f ∧ e = .unknownPropertyType t.name f.name f.type := by
  have hfails : ∀ f ∈ t.fields, f.Untyped ↔ ∃ e, f.property t.name = .error e := fun f _ => by
    simp [Field.property_eq_error_iff]
  rw [ComplexType.interface, except_map_eq_error_iff, mapM_eq_error_iff_firstOf hfails]
  refine exists_congr fun f => and_congr_right fun hfirst => ?_
  rw [Field.property_eq_error_iff, and_iff_right hfirst.holds]

theorem ComplexType.hasUntyped_iff {t : ComplexType} :
    t.HasUntyped ↔ ∃ e, t.interface = .error e := by
  rw [ComplexType.HasUntyped, ← exists_firstOf_iff]
  simp only [ComplexType.interface_eq_error_iff]
  constructor
  · rintro ⟨f, hfirst⟩
    exact ⟨_, f, hfirst, rfl⟩
  · rintro ⟨_, f, hfirst, -⟩
    exact ⟨f, hfirst⟩

namespace Schema

variable {s : Schema} {e : TypeScript.Error}

theorem aliases_eq_error_iff :
    s.aliases = .error e ↔
      ∃ t, FirstOf SimpleType.Bare s.simpleTypes t ∧ e = .emptySimpleType t.name := by
  have hfails : ∀ t ∈ s.simpleTypes, t.Bare ↔ ∃ e, t.alias = .error e := fun t _ => by
    simp [SimpleType.alias_eq_error_iff]
  rw [aliases, mapM_eq_error_iff_firstOf hfails]
  refine exists_congr fun t => and_congr_right fun hfirst => ?_
  rw [SimpleType.alias_eq_error_iff, and_iff_right hfirst.holds]

theorem interfaces_eq_error_iff :
    s.interfaces = .error e ↔
      ∃ t f, FirstOf ComplexType.HasUntyped s.complexTypes t ∧
        FirstOf Field.Untyped t.fields f ∧ e = .unknownPropertyType t.name f.name f.type := by
  rw [interfaces, mapM_eq_error_iff_firstOf fun _ _ => ComplexType.hasUntyped_iff]
  simp only [ComplexType.interface_eq_error_iff, exists_and_left]

/-- Making a document fails as making the aliases does or, if these are made, as making the
interfaces does. What is made of the root cannot fail. -/
theorem document_eq_error_iff {generated : Option Timestamp} {root : Option String} :
    (s.document generated root).result = .error e ↔
      s.aliases = .error e ∨ (∃ as, s.aliases = .ok as) ∧ s.interfaces = .error e := by
  simp only [document, Report.bind_eq_bind, Report.result_bind, Report.result_ofExcept,
    except_bind_eq_error_iff]
  refine or_congr_right ?_
  constructor
  · rintro ⟨as, has, hinterfaces | ⟨is, -, hroster⟩⟩
    · exact ⟨⟨as, has⟩, hinterfaces⟩
    · -- behind the types there is only the roster, if any, and it has no errors
      cases root <;> cases hroster
  · rintro ⟨⟨as, has⟩, hinterfaces⟩
    exact ⟨as, has, .inl hinterfaces⟩

theorem document_eq_error_iff_firstFault {generated : Option Timestamp} {root : Option String} :
    (s.document generated root).result = .error e ↔ s.FirstFault e := by
  rw [document_eq_error_iff, aliases_eq_error_iff, exists_aliases_iff, interfaces_eq_error_iff]
  simp only [← SimpleType.not_bare_iff]
  constructor
  · rintro (⟨t, hfirst, rfl⟩ | ⟨hsimple, t, f, hfirst, hfield, rfl⟩)
    · exact .bare hfirst
    · exact .untyped hsimple hfirst hfield
  · rintro (hfirst | ⟨hsimple, hfirst, hfield⟩)
    · exact .inl ⟨_, hfirst, rfl⟩
    · exact .inr ⟨hsimple, _, _, hfirst, hfield, rfl⟩

/-- There is a first fault if there is any. -/
theorem exists_firstFault_iff (s : Schema) :
    (∃ e, s.FirstFault e) ↔
      (∃ t ∈ s.simpleTypes, t.Bare) ∨ ∃ t ∈ s.complexTypes, t.HasUntyped := by
  constructor
  · rintro ⟨_, hfirst | ⟨-, hfirst, -⟩⟩
    · exact .inl ⟨_, hfirst.mem, hfirst.holds⟩
    · exact .inr ⟨_, hfirst.mem, hfirst.holds⟩
  · intro h
    by_cases hbare : ∃ t ∈ s.simpleTypes, t.Bare
    · obtain ⟨t, hfirst⟩ := exists_firstOf_iff.2 hbare
      exact ⟨_, .bare hfirst⟩
    · obtain ⟨t, hfirst⟩ := exists_firstOf_iff.2 (h.resolve_left hbare)
      obtain ⟨f, hfield⟩ := exists_firstOf_iff.2 hfirst.holds
      exact ⟨_, .untyped (by simpa using hbare) hfirst hfield⟩

end Schema

/-- **Why a document is not made.** Making the document of any schema fails exactly if a simple type
has neither literals nor a base or a field has an empty type. The error names the first such simple
type or, if there is none, the first such field of the first complex type that has one. The time and
the root of the roster do not change it. -/
theorem document_failure (s : Schema) (generated : Option Timestamp) (root : Option String) :
    ((∃ e, (s.document generated root).result = .error e) ↔
      (∃ t ∈ s.simpleTypes, t.literals = none ∧ t.base = none) ∨
        ∃ t ∈ s.complexTypes, ∃ f ∈ t.fields, f.type = "") ∧
    (∀ e, (s.document generated root).result = .error e ↔ s.FirstFault e) ∧
    ∀ e, (s.document generated root).result = .error e ↔
      (s.document none none).result = .error e := by
  refine ⟨?_, fun e => Schema.document_eq_error_iff_firstFault, fun e => ?_⟩
  · simp only [Schema.document_eq_error_iff_firstFault]
    exact s.exists_firstFault_iff
  · rw [Schema.document_eq_error_iff_firstFault, Schema.document_eq_error_iff_firstFault]

/-- Simple types come before fields, and a root that is declared does not help. -/
example :
    (Schema.document ⟨[⟨"S", none, none⟩], [⟨"A", none, [⟨"f", "", false, false⟩]⟩]⟩ none
      (some "A")).result = .error (.emptySimpleType "S") := rfl

end SoapTypes
