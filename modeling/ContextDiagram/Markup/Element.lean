namespace ContextDiagram.Markup

inductive Node
  | element (name : String) (attributes : List (String × String)) (children : List Node)
  | text (content : String)
deriving Repr

def escapeTextChar : Char → List Char
  | '&' => "&amp;".toList
  | '<' => "&lt;".toList
  | '>' => "&gt;".toList
  | c => [c]

/-- A character of an attribute's value, which may hold no quotes either. -/
def escapeValueChar : Char → List Char
  | '"' => "&quot;".toList
  | '\'' => "&apos;".toList
  | c => escapeTextChar c

def escapeText (s : String) : String :=
  String.ofList (s.toList.flatMap escapeTextChar)

def escapeValue (s : String) : String :=
  String.ofList (s.toList.flatMap escapeValueChar)

def renderAttribute (key value : String) : String :=
  " " ++ key ++ "=\"" ++ escapeValue value ++ "\""

def renderAttributes (attributes : List (String × String)) : String :=
  attributes.foldr (fun (key, value) s => renderAttribute key value ++ s) ""

mutual

/-- A node in writing. Children and the closing tag each start a new line; an element without
children closes itself. -/
def Node.render : Node → String
  | .element name attributes [] => "<" ++ name ++ renderAttributes attributes ++ "/>"
  | .element name attributes (child :: children) =>
    "<" ++ name ++ renderAttributes attributes ++ ">" ++
      "\n" ++ child.render ++ renderAll children ++ "\n</" ++ name ++ ">"
  | .text content => escapeText content

def renderAll : List Node → String
  | [] => ""
  | n :: ns => "\n" ++ n.render ++ renderAll ns

end

end ContextDiagram.Markup
