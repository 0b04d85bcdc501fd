import SoapTypes.Schema.Basic
import SoapTypes.Schema.Primitive
import SoapTypes.Text.Case
import SoapTypes.TypeScript.Declaration
import SoapTypes.TypeScript.Error

/-!
# Declarations of a schema's types

A simple type becomes an alias, a complex type an interface, a family of types a roster. The
names of interfaces begin with a capital letter, as do the bases they extend; names of fields,
of aliases and of field types stay as they are, primitives apart.
-/

namespace SoapTypes

namespace TypeScript

/-- The type that stands for a primitive. -/
def primitiveName : Primitive → String
  | .int | .double | .long | .time => "number"
  | .boolean => "boolean"
  | .string | .date | .dateTime => "string"
  | .base64Binary | .anyType => "any"

/-- The type that a schema's type name stands for: a primitive's counterpart, or the type
declared under the same name. -/
def typeName (name : String) : String :=
  match Primitive.ofName? name with
  | some p => primitiveName p
  | none => name

end TypeScript

open TypeScript

/-- The alias of a simple type: the union of its literals if it has an enumeration, and its
base otherwise. -/
def SimpleType.alias (t : SimpleType) : Except Error Alias :=
  match t.literals, t.base with
  | some literals, _ => .ok ⟨t.name, .union literals⟩
  | none, some base => .ok ⟨t.name, .name (typeName base)⟩
  | none, none => .error (.emptySimpleType t.name)

/-- The type of the property that stands for a field of the type `owner`. -/
def Field.propertyType (owner : String) (f : Field) : Except Error TypeExpr :=
  let type := typeName f.type
  if type.isEmpty then .error (.unknownPropertyType owner f.name f.type)
  else .ok (if f.isArray then .array type else .name type)

/-- The property that stands for a field of the type `owner`. -/
def Field.property (owner : String) (f : Field) : Except Error Property :=
  (f.propertyType owner).map (⟨f.name, ·⟩)

/-- The interface of a complex type. -/
def ComplexType.interface (t : ComplexType) : Except Error Interface :=
  (t.fields.mapM (Field.property t.name)).map fun properties =>
    ⟨Text.capitalize t.name, t.base.map Text.capitalize, properties⟩

/-- The roster of the family of a root. -/
def TypeScript.Roster.ofFamily (root : String) (family : List ComplexType) : Roster :=
  ⟨Text.capitalize root ++ "Type", Text.decapitalize root ++ "Types", family.map (·.name)⟩

end SoapTypes
