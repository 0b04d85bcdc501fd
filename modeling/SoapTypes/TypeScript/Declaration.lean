import SoapTypes.TypeScript.Literal

/-!
# Declarations

The declarations of a generated document and the lines that write them: type aliases,
interfaces whose properties are all optional, and the roster of a family of types, which is a
union of their names beside a constant list of the same names.
-/

namespace SoapTypes.TypeScript

/-- A type as it is written behind a name. -/
inductive TypeExpr
  | name (name : String)
  | array (element : String)
  /-- A union of string literals; without any it is the empty type. -/
  | union (literals : List String)
  deriving DecidableEq, Repr

/-- The text of a type. -/
def TypeExpr.text : TypeExpr → String
  | name n => n
  | array n => n ++ "[]"
  | union [] => "never"
  | union (l :: ls) => " | ".intercalate ((l :: ls).map quote)

/-- A type given a name. -/
structure Alias where
  name : String
  type : TypeExpr
  deriving DecidableEq, Repr

/-- The line that declares an alias. -/
def Alias.line (a : Alias) : String :=
  s!"export type {a.name} = {a.type.text};"

/-- An optional property of an interface. -/
structure Property where
  name : String
  type : TypeExpr
  deriving DecidableEq, Repr

/-- The line that declares a property. -/
def Property.line (p : Property) : String :=
  s!"    {p.name}?: {p.type.text};"

/-- An interface, perhaps extending another one. -/
structure Interface where
  name : String
  base : Option String
  properties : List Property
  deriving DecidableEq, Repr

namespace Interface

/-- The line that opens an interface. -/
def header (i : Interface) : String :=
  match i.base with
  | none => s!"export interface {i.name} \x7b"
  | some base => s!"export interface {i.name} extends {base} \x7b"

/-- The lines that declare an interface. -/
def lines (i : Interface) : List String :=
  i.header :: (i.properties.map Property.line ++ ["\x7d"])

end Interface

/-- The names of a family of types, as a union type and as a constant list. -/
structure Roster where
  unionName : String
  constantName : String
  members : List String
  deriving DecidableEq, Repr

namespace Roster

/-- The literals of a union, one a line, a bar behind each but the last. -/
def unionMembers : List String → List String
  | [] => []
  | [m] => [s!"    {quote m};"]
  | m :: ms => s!"    {quote m} |" :: unionMembers ms

/-- The lines that declare the union. -/
def unionLines (r : Roster) : List String :=
  match r.members with
  | [] => [s!"export type {r.unionName} = never;"]
  | ms => s!"export type {r.unionName} =" :: unionMembers ms

/-- The lines that declare the constant list. -/
def constantLines (r : Roster) : List String :=
  s!"export const {r.constantName}: {r.unionName}[] = [" ::
    (r.members.map (fun m => s!"    {quote m},") ++ ["];"])

/-- The lines that declare the union and, after a blank line, the list. -/
def lines (r : Roster) : List String :=
  r.unionLines ++ "" :: r.constantLines

end Roster

end SoapTypes.TypeScript
