/-!
# Schemas

What a service description declares, once its notation is gone: simple types, which are
aliases or closed sets of literals, and complex types, which are records with at most one
base. Types refer to each other by name. A name may be declared more than once; a look-up
then finds the first declaration.
-/

namespace SoapTypes

/-- A simple type: a closed set of literals, or else an alias of its base. -/
structure SimpleType where
  name : String
  /-- The type that is restricted. -/
  base : Option String := none
  /-- The values admitted, in the order of the declaration; `none` without an enumeration. -/
  literals : Option (List String) := none
  deriving DecidableEq, Repr

/-- A field of a complex type. -/
structure Field where
  name : String
  /-- The name of the field's type, a primitive or a declared type. -/
  type : String
  /-- Whether the field may repeat without bound. -/
  isArray : Bool := false
  /-- Whether the field may be absent. -/
  isOptional : Bool := false
  deriving DecidableEq, Repr

/-- A complex type: a record, perhaps extending another one. -/
structure ComplexType where
  name : String
  /-- The name of the type that is extended. -/
  base : Option String := none
  /-- The fields added to those of the base, in the order of the declaration. -/
  fields : List Field := []
  deriving DecidableEq, Repr

/-- The declarations of a schema. -/
structure Schema where
  simpleTypes : List SimpleType := []
  complexTypes : List ComplexType := []
  deriving DecidableEq, Repr

namespace Schema

/-- The first simple type of a name. -/
def simpleType? (s : Schema) (name : String) : Option SimpleType :=
  s.simpleTypes.find? (·.name == name)

/-- The first complex type of a name. -/
def complexType? (s : Schema) (name : String) : Option ComplexType :=
  s.complexTypes.find? (·.name == name)

/-- Whether the schema declares nothing. -/
def isEmpty (s : Schema) : Bool :=
  s.simpleTypes.isEmpty && s.complexTypes.isEmpty

end Schema

end SoapTypes
