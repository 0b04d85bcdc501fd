import SoapTypes.Report
import SoapTypes.Schema.Error
import SoapTypes.Schema.Index

/-!
# Validity

A schema is sound if every base is declared and no chain of bases runs in a circle. Repeated
names are worth a warning only, since the first declaration of a name stands for it.
-/

namespace SoapTypes.Schema

/-- A warning for each simple type whose name is among `seen` or occurs before. -/
def repeatedSimpleTypes (seen : List String) : List SimpleType → List Notice
  | [] => []
  | t :: ts =>
    (if t.name ∈ seen then [.duplicateSimpleType t.name] else []) ++
      repeatedSimpleTypes (t.name :: seen) ts

/-- A warning for each complex type whose name is among `seen` or occurs before, and one for
each whose name is also that of a simple type. -/
def repeatedComplexTypes (s : Schema) (seen : List String) : List ComplexType → List Notice
  | [] => []
  | t :: ts =>
    (if t.name ∈ seen then [.duplicateComplexType t.name] else []) ++
      (if (s.simpleType? t.name).isSome then [.sharedName t.name] else []) ++
      repeatedComplexTypes s (t.name :: seen) ts

/-- The warnings about repeated names, simple types first. -/
def nameWarnings (s : Schema) : List Notice :=
  repeatedSimpleTypes [] s.simpleTypes ++ s.repeatedComplexTypes [] s.complexTypes

/-- The error of a type whose base is not declared. -/
def undeclaredBase? (index : TypeIndex) (t : ComplexType) : Option Error :=
  t.base.bind fun base => if index.contains base then none else some (.undeclaredBase t.name base)

/-- The error of a type whose bases lead to a name for the second time. -/
def circularBase? (index : TypeIndex) (t : ComplexType) : Option Error :=
  let climb := index.climb [t.name] t.base
  climb.repeated.map fun name => .circularBase (t.name :: (climb.chain ++ [name]))

/-- The first undeclared base, or else the first circle, if there is one. -/
def unsoundness? (s : Schema) : Option Error :=
  let index := s.index
  (s.complexTypes.findSome? (undeclaredBase? index)).or
    (s.complexTypes.findSome? (circularBase? index))

/-- Warns about repeated names and fails on an unsound schema. -/
def validate (s : Schema) : Report Error Unit :=
  ⟨s.nameWarnings, match s.unsoundness? with | some e => .error e | none => .ok ()⟩

end SoapTypes.Schema
