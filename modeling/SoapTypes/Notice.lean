/-!
# Notices

What a run tells on its way besides its result: which input it takes, how much it finds, what it
passes over and what a user may not have meant.
-/

namespace SoapTypes

/-- How much a notice matters. -/
inductive Level
  | debug
  | info
  | warn
  deriving DecidableEq, Repr

/-- The name of a level in a log. -/
def Level.name : Level → String
  | debug => "DEBUG"
  | info => "INFO"
  | warn => "WARN"

/-- Something worth telling that is not an error. -/
inductive Notice
  /-- The description of a built-in version is used. -/
  | builtInVersion (version : String)
  /-- The description in the given file is used. -/
  | descriptionFile (path : String)
  | reading (path : String)
  | foundComplexTypes (count : Nat)
  | foundSimpleTypes (count : Nat)
  | foundElements (count : Nat)
  | keptComplexTypes (count : Nat)
  | keptSimpleTypes (count : Nat)
  /-- A complex type is passed over for want of a name. -/
  | unnamedComplexType
  /-- A complex type is passed over since its sequence holds wildcards only. -/
  | wildcardContent (name : String)
  /-- A complex type is passed over since it extends nothing. -/
  | extensionWithoutBase (name : String)
  /-- A complex type is passed over for want of a sequence and of an extension. -/
  | noContent (name : String)
  /-- An element with a type of its own is passed over for want of a name. -/
  | unnamedElement
  /-- An element of a sequence is passed over for want of a type. -/
  | fieldWithoutType (label : String)
  | duplicateSimpleType (name : String)
  | duplicateComplexType (name : String)
  /-- A name is declared both as a simple and as a complex type. -/
  | sharedName (name : String)
  | undeclaredRoot (root : String)
  /-- The number of types descended from a root. -/
  | familySize (root : String) (count : Nat)
  | wrote (bytes : Nat) (path : String)
  deriving DecidableEq, Repr

namespace Notice

/-- Details of the search are for debugging, progress is information, and what a user may not
have meant is a warning. -/
def level : Notice → Level
  | reading _ | unnamedComplexType | wildcardContent _ | noContent _ | unnamedElement => .debug
  | extensionWithoutBase _ | fieldWithoutType _ | duplicateSimpleType _
  | duplicateComplexType _ | sharedName _ | undeclaredRoot _ => .warn
  | _ => .info

/-- The text of a notice. -/
def message : Notice → String
  | builtInVersion v => s!"Using built-in Metadata WSDL version {v}"
  | descriptionFile p => s!"Using WSDL file {p}"
  | reading p => s!"Reading WSDL from {p}"
  | foundComplexTypes n => s!"XSD complex types: {n}"
  | foundSimpleTypes n => s!"XSD simple types: {n}"
  | foundElements n => s!"XSD elements: {n}"
  | keptComplexTypes n => s!"Complex types: {n}"
  | keptSimpleTypes n => s!"Simple types: {n}"
  | unnamedComplexType => "Skipping complex type without a name"
  | wildcardContent n => s!"Skipping complex type '{n}' with wildcard-only content"
  | extensionWithoutBase n => s!"Skipping complex type '{n}': extension without a base"
  | noContent n => s!"Skipping complex type '{n}' without extractable content"
  | unnamedElement => "Skipping inline complex type of an unnamed element"
  | fieldWithoutType l => s!"Sequence element without type: {l}"
  | duplicateSimpleType n => s!"Duplicate simple type '{n}'"
  | duplicateComplexType n => s!"Duplicate complex type '{n}'"
  | sharedName n => s!"Type '{n}' is declared as both simple and complex"
  | undeclaredRoot r => s!"Discriminator root '{r}' is not a declared complex type"
  | familySize r n => s!"{r} types: {n}"
  | wrote n p => s!"Wrote {n} bytes to {p}"

end Notice

end SoapTypes
