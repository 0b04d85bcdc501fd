/-!
# Errors of reading XML

Each error names its cause; `message` gives its wording. `chain` lists the wordings from the
outermost account of an error to the innermost.
-/

namespace SoapTypes.Xml

/-- A construct that must be closed before the text ends. -/
inductive Construct
  | tag
  /-- A value between the given quotes. -/
  | value (delimiter : Char)
  | comment
  | characterData
  | documentType
  | declaration
  | instruction
  deriving DecidableEq, Repr

namespace Construct

def label : Construct → String
  | tag => "tag"
  | value _ => "attribute value"
  | comment => "comment"
  | characterData => "CDATA"
  | documentType => "DOCTYPE"
  | declaration => "XML declaration"
  | instruction => "processing instruction"

/-- What would have closed the construct. -/
def terminator : Construct → String
  | tag | documentType => ">"
  | value delimiter => delimiter.toString
  | comment => "-->"
  | characterData => "]]>"
  | declaration | instruction => "?>"

end Construct

/-- Markup that cannot be taken apart. -/
inductive MarkupFault
  | unclosed (construct : Construct)
  /-- A `<!` that opens none of the known constructs. -/
  | unknown
  deriving DecidableEq, Repr

def MarkupFault.message : MarkupFault → String
  | unclosed c =>
    s!"{c.label} not closed: `" ++ c.terminator ++ "` not found before end of input"
  | unknown => "unknown or missed symbol in markup"

/-- Constructs that do not fit together. -/
inductive FormFault
  | unclosedReference
  | namelessDocumentType
  /-- An end tag while no element is open. -/
  | strayEnd (name : String)
  /-- An end tag for another element than the open one. -/
  | wrongEnd (opened closed : String)
  deriving DecidableEq, Repr

def FormFault.message : FormFault → String
  | unclosedReference =>
    "entity or character reference not closed: `;` not found before end of input"
  | namelessDocumentType =>
    "`<!DOCTYPE>` declaration does not contain a name of a document type"
  | strayEnd name => "close tag `</" ++ name ++ ">` does not match any open tag"
  | wrongEnd opened closed =>
    "expected `</" ++ opened ++ ">`, but `</" ++ closed ++ ">` was found"

/-- The digits of a character reference that do not make a number. -/
inductive NumberFault
  | empty
  | invalidDigit
  | tooLarge
  deriving DecidableEq, Repr

def NumberFault.message : NumberFault → String
  | empty => "cannot parse integer from empty string"
  | invalidDigit => "invalid digit found in string"
  | tooLarge => "number too large to fit in target type"

/-- A character reference that gives no character. -/
inductive CodePointFault
  | sign
  | number (fault : NumberFault)
  | zero
  | notScalar (code : Nat)
  deriving DecidableEq, Repr

def CodePointFault.message : CodePointFault → String
  | sign => "unexpected number sign"
  | number fault => fault.message
  | zero => "0x0 character is not permitted in XML"
  | notScalar code => s!"`{code}` is not a valid codepoint"

/-- A reference in an attribute value that cannot be resolved. Offsets count the bytes of the
value's UTF-8 form. -/
inductive ReferenceFault
  | unterminated (start stop : Nat)
  | unknownEntity (start stop : Nat) (name : String)
  | character (fault : CodePointFault)
  deriving DecidableEq, Repr

def ReferenceFault.message : ReferenceFault → String
  | unterminated start stop =>
    s!"Error while escaping character at range {start}..{stop}: Cannot find ';' after '&'"
  | unknownEntity start stop name =>
    s!"at {start}..{stop}: unrecognized entity `" ++ name ++ "`"
  | character fault => s!"invalid character reference: {fault.message}"

/-- Elements that do not make one tree. -/
inductive TreeFault
  | unexpectedEnd
  | secondRoot (name : String)
  | neverClosed (name : String)
  | noRoot
  deriving DecidableEq, Repr

def TreeFault.message : TreeFault → String
  | unexpectedEnd => "unexpected closing tag"
  | secondRoot name => s!"second root element '{name}'"
  | neverClosed name => s!"element '{name}' is never closed"
  | noRoot => "no root element found"

/-- Why a text is not a document. -/
inductive Error
  | markup (fault : MarkupFault)
  | form (fault : FormFault)
  | reference (fault : ReferenceFault)
  | tree (fault : TreeFault)
  deriving DecidableEq, Repr

namespace Error

/-- The accounts below the outermost one. -/
def inner : Error → List String
  | markup f => [s!"syntax error: {f.message}", f.message]
  | form f => [s!"ill-formed document: {f.message}", f.message]
  | reference (.character (.number f)) =>
    [(ReferenceFault.character (.number f)).message, f.message, f.message]
  | reference (.character f) => [(ReferenceFault.character f).message, f.message]
  | reference f => [f.message]
  | tree _ => []

def message : Error → String
  | markup f => s!"XML parsing error: syntax error: {f.message}"
  | form f => s!"XML parsing error: ill-formed document: {f.message}"
  | reference f => s!"invalid escape sequence: {f.message}"
  | tree f => s!"invalid document structure: {f.message}"

def chain (e : Error) : List String :=
  e.message :: e.inner

end Error

end SoapTypes.Xml
