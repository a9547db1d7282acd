import ContextDiagram.Toml.Draft
import ContextDiagram.Toml.Quoted
import ContextDiagram.Toml.Scalar

namespace ContextDiagram.Toml

def dropBlanks (cs : List Char) : List Char :=
  cs.dropWhile fun c => c == ' ' || c == '\t'

def dropComment : List Char → List Char
  | '#' :: rest => rest.dropWhile isPlain
  | cs => cs

def dropVoid (inComment : Bool) : List Char → List Char
  | [] => []
  | '\n' :: rest => dropVoid false rest
  | '\r' :: '\n' :: rest => dropVoid false rest
  | c :: rest =>
    if inComment then
      if isPlain c then dropVoid true rest else c :: rest
    else if c == ' ' || c == '\t' then dropVoid false rest
    else if c == '#' then dropVoid true rest
    else c :: rest

def isBareKeyChar (c : Char) : Bool :=
  c.isAlphanum || c == '_' || c == '-'

/-- How deep brackets may nest. -/
def deepestNesting : Nat := 80

def longestKey : Nat := 80

/-- A key without dots. -/
def simpleKey? (cs : List Char) : Option (String × List Char) :=
  match cs.takeWhile isBareKeyChar with
  | [] => shortText? cs
  | name => some (String.ofList name, cs.dropWhile isBareKeyChar)

def keyParts? (cs : List Char) : Option (List String × List Char) := do
  let (name, rest) ← simpleKey? cs
  match dropBlanks rest with
  | '.' :: rest =>
    let rest := dropBlanks rest
    if _ : rest.length < cs.length then
      let (names, rest) ← keyParts? rest
      return (name :: names, rest)
    else none
  | rest => return ([name], rest)
termination_by cs.length

def key? (cs : List Char) : Option (List String × List Char) := do
  let (names, rest) ← keyParts? cs
  if names.length ≤ longestKey then return (names, rest) else none

/-- Elements with commas between them up to a closing bracket; one more comma may stand before
it. -/
def listed? (close : Char) (element : List Char → Option (α × List Char)) (cs : List Char) :
    Option (List α × List Char) := do
  match dropVoid false cs with
  | [] => none
  | c :: rest =>
    if c == close then return ([], rest)
    else
      let (first, rest) ← element (c :: rest)
      match dropVoid false rest with
      | [] => none
      | c :: rest =>
        if c == close then return ([first], rest)
        else if _ : c = ',' ∧ rest.length < cs.length then
          let (others, rest) ← listed? close element rest
          return (first :: others, rest)
        else none
termination_by cs.length

/-- A key with its value; `skip` drops what may stand around the sign between them. -/
def assignment? (skip : List Char → List Char)
    (value : List Char → Option (Value × List Char)) (cs : List Char) :
    Option ((List String × Value) × List Char) := do
  let (key, rest) ← key? cs
  match skip rest with
  | '=' :: rest =>
    let (v, rest) ← value (skip rest)
    return ((key, v), rest)
  | _ => none

/-- A value in which brackets nest no deeper than a bound. -/
def value? : Nat → List Char → Option (Value × List Char)
  | depth + 1, '[' :: rest => do
    let (items, rest) ← listed? ']' (value? depth) rest
    return (.array items, rest)
  | depth + 1, '{' :: rest => do
    let (given, rest) ← listed? '}' (assignment? (dropVoid false) (value? depth)) rest
    let entries ← given.foldlM (fun entries (key, v) => assign v key entries) []
    return (.table (closeEntries entries), rest)
  | _, cs =>
    match text? cs with
    | some (s, rest) => some (.string s, rest)
    | none =>
      let (word, rest) := splitWord cs
      (scalar? word).map (·, rest)

def line? (draft : Draft) : List Char → Option (Draft × List Char)
  | '[' :: '[' :: rest => do
    match ← key? (dropBlanks rest) with
    | (path, ']' :: ']' :: rest) => return (← draft.enter openElement path, rest)
    | _ => none
  | '[' :: rest => do
    match ← key? (dropBlanks rest) with
    | (path, ']' :: rest) => return (← draft.enter openTable path, rest)
    | _ => none
  | [] => some (draft, [])
  | c :: rest => do
    if c == '#' || c == '\n' || c == '\r' then return (draft, c :: rest)
    else
      let ((key, v), rest) ← assignment? dropBlanks (value? deepestNesting) (c :: rest)
      return (← draft.insert key v, rest)

def afterLineEnd? : List Char → Option (List Char)
  | '\n' :: rest => some rest
  | '\r' :: '\n' :: rest => some rest
  | _ => none

def lines? (draft : Draft) (cs : List Char) : Option Draft := do
  let (draft, rest) ← line? draft (dropBlanks cs)
  match dropComment (dropBlanks rest) with
  | [] => return draft
  | rest =>
    let rest ← afterLineEnd? rest
    if _ : rest.length < cs.length then lines? draft rest else none
termination_by cs.length

/-- The table of a document. A mark of the byte order at its front does not count. -/
def read? (source : String) : Option Table :=
  let cs := match source.toList with
    | '\ufeff' :: rest => rest
    | cs => cs
  (lines? {} cs).map fun draft => closeEntries draft.entries

end ContextDiagram.Toml
