/-!
# Primitive types

The built-in schema types that have a counterpart of their own in the generated code.
-/

namespace SoapTypes

/-- A built-in schema type. -/
inductive Primitive
  | int
  | double
  | long
  | boolean
  | string
  | date
  | dateTime
  | time
  | base64Binary
  | anyType
  deriving DecidableEq, Repr

namespace Primitive

/-- Every primitive, each once. -/
def all : List Primitive :=
  [int, double, long, boolean, string, date, dateTime, time, base64Binary, anyType]

/-- The name of a primitive in a schema, without a namespace. -/
def name : Primitive → String
  | int => "int"
  | double => "double"
  | long => "long"
  | boolean => "boolean"
  | string => "string"
  | date => "date"
  | dateTime => "dateTime"
  | time => "time"
  | base64Binary => "base64Binary"
  | anyType => "anyType"

/-- The primitive of a given name. -/
def ofName? (n : String) : Option Primitive :=
  all.find? (·.name == n)

/-- A primitive is found under its name and under no other. -/
theorem ofName?_eq_some_iff {n : String} {p : Primitive} : ofName? n = some p ↔ p.name = n := by
  constructor
  · intro h
    simpa using List.find?_some h
  · rintro rfl
    cases p <;> decide

end Primitive

end SoapTypes
