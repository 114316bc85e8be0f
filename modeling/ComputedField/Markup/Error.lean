/-!
# What is wrong with a document

The reasons why a text is no document. Those about single pieces of markup say what is left open or
misplaced; those about attributes say where a tag departs from `name="value"`; the others are about
the document as a whole.
-/

namespace ComputedField.Markup

inductive MarkupFault where
  | unknownDeclaration
  | openInstruction
  | openDeclaration
  | openComment
  | openDoctype
  | openCharacterData
  | openTag
  | openSingleQuote
  | openDoubleQuote
  | namelessDoctype
  | openReference
  | endWithoutStart
  | endOfAnother
  deriving DecidableEq, Repr

inductive AttributeFault where
  | equalsExpected
  | valueExpected
  | unquotedValue
  | quoteExpected
  | duplicated
  deriving DecidableEq, Repr

inductive Error where
  | markup (fault : MarkupFault)
  | attribute (fault : AttributeFault)
  /-- A reference in an attribute value that stands for no character. -/
  | attributeValue
  | characterReference (name : String)
  | unknownEntity (name : String)
  | unclosedElement (name : String)
  | secondElement
  | strayText
  deriving DecidableEq, Repr

def MarkupFault.message : MarkupFault → String
  | .unknownDeclaration => "unknown markup after <!"
  | .openInstruction => "unclosed processing instruction"
  | .openDeclaration => "unclosed XML declaration"
  | .openComment => "unclosed comment"
  | .openDoctype => "unclosed document type"
  | .openCharacterData => "unclosed character data"
  | .openTag => "unclosed tag"
  | .openSingleQuote => "unclosed attribute value in single quotes"
  | .openDoubleQuote => "unclosed attribute value in double quotes"
  | .namelessDoctype => "document type without a name"
  | .openReference => "unclosed reference"
  | .endWithoutStart => "end tag without a start tag"
  | .endOfAnother => "end tag of another element"

def AttributeFault.message : AttributeFault → String
  | .equalsExpected => "an equals sign is expected after the name"
  | .valueExpected => "a value is expected after the equals sign"
  | .unquotedValue => "the value has no quotes"
  | .quoteExpected => "the value has no closing quote"
  | .duplicated => "the name occurs twice"

def Error.message : Error → String
  | .markup fault => "XML processing error: " ++ fault.message
  | .attribute fault => "XML attribute error: " ++ fault.message
  | .attributeValue => "failed to decode XML content: invalid reference in an attribute value"
  | .characterReference name =>
    "failed to decode XML content: invalid character reference &" ++ name ++ ";"
  | .unknownEntity name => "failed to decode XML content: unknown entity &" ++ name ++ ";"
  | .unclosedElement name => "malformed document: unclosed element <" ++ name ++ ">"
  | .secondElement => "malformed document: more than one document element"
  | .strayText => "malformed document: text outside the document element"

end ComputedField.Markup
