import ComputedField.Markup.Reference

/-!
# Written elements

A computed value leaves the library as an element whose content is markup already. Only the handle
is escaped; name and content are written as they are.
-/

namespace ComputedField.Markup

structure OutputElement where
  name : String
  handle : Option String
  value : String
  deriving DecidableEq, Repr

namespace OutputElement

def startTag (e : OutputElement) : String :=
  match e.handle with
  | none => "<" ++ e.name ++ ">"
  | some handle => "<" ++ e.name ++ " handle=\"" ++ escape handle ++ "\">"

def write (e : OutputElement) : String := e.startTag ++ e.value ++ "</" ++ e.name ++ ">"

end OutputElement

/-- Elements one after the other. -/
def writeElements (elements : List OutputElement) : String :=
  String.join (elements.map (·.write))

end ComputedField.Markup
