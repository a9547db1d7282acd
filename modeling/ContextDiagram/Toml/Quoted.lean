namespace ContextDiagram.Toml

/-- The characters that may stand in a text or a comment as they are: no control characters save the
tabulator. -/
def isPlain (c : Char) : Bool :=
  c == '\t' || (' ' ≤ c && c != '\x7f')

def hexValue? (c : Char) : Option Nat :=
  if c.isDigit then some (c.toNat - '0'.toNat)
  else if 'a' ≤ c ∧ c ≤ 'f' then some (c.toNat - 'a'.toNat + 10)
  else if 'A' ≤ c ∧ c ≤ 'F' then some (c.toNat - 'A'.toNat + 10)
  else none

def codePoint? (digits : List Char) : Option Char := do
  let n ← digits.foldlM (fun n c => return 16 * n + (← hexValue? c)) 0
  if n.isValidChar then some (Char.ofNat n) else none

def escaped? : Char → Option Char
  | 'b' => some '\x08'
  | 't' => some '\t'
  | 'n' => some '\n'
  | 'f' => some '\x0c'
  | 'r' => some '\r'
  | 'e' => some '\x1b'
  | '"' => some '"'
  | '\\' => some '\\'
  | _ => none

def prepend (c : Char) (found : Option (List Char × List Char)) :
    Option (List Char × List Char) :=
  found.map fun (body, rest) => (c :: body, rest)

def basicBody : List Char → Option (List Char × List Char)
  | [] => none
  | '"' :: rest => some ([], rest)
  | '\\' :: 'x' :: a :: b :: rest => do prepend (← codePoint? [a, b]) (basicBody rest)
  | '\\' :: 'u' :: a :: b :: c :: d :: rest => do
    prepend (← codePoint? [a, b, c, d]) (basicBody rest)
  | '\\' :: 'U' :: a :: b :: c :: d :: e :: f :: g :: h :: rest => do
    prepend (← codePoint? [a, b, c, d, e, f, g, h]) (basicBody rest)
  | '\\' :: c :: rest => do prepend (← escaped? c) (basicBody rest)
  | c :: rest => if isPlain c then prepend c (basicBody rest) else none

def literalBody : List Char → Option (List Char × List Char)
  | [] => none
  | '\'' :: rest => some ([], rest)
  | c :: rest => if isPlain c then prepend c (literalBody rest) else none

def endsLine (cs : List Char) : Bool :=
  match cs.dropWhile fun c => c == ' ' || c == '\t' with
  | '\n' :: _ => true
  | '\r' :: '\n' :: _ => true
  | _ => false

/-- The rest of a text in three double quotes. Two more quotes before the end belong to the text. A
backslash at the end of a line skips to the next visible character; `skipping` says that this is
going on. -/
def longBasicBody (skipping : Bool) : List Char → Option (List Char × List Char)
  | [] => none
  | '"' :: '"' :: '"' :: '"' :: '"' :: rest => some (['"', '"'], rest)
  | '"' :: '"' :: '"' :: '"' :: rest => some (['"'], rest)
  | '"' :: '"' :: '"' :: rest => some ([], rest)
  | '\r' :: '\n' :: rest =>
    if skipping then longBasicBody true rest
    else prepend '\r' (prepend '\n' (longBasicBody false rest))
  | '\n' :: rest =>
    if skipping then longBasicBody true rest else prepend '\n' (longBasicBody false rest)
  | '\\' :: 'x' :: a :: b :: rest => do prepend (← codePoint? [a, b]) (longBasicBody false rest)
  | '\\' :: 'u' :: a :: b :: c :: d :: rest => do
    prepend (← codePoint? [a, b, c, d]) (longBasicBody false rest)
  | '\\' :: 'U' :: a :: b :: c :: d :: e :: f :: g :: h :: rest => do
    prepend (← codePoint? [a, b, c, d, e, f, g, h]) (longBasicBody false rest)
  | '\\' :: c :: rest =>
    if endsLine (c :: rest) then longBasicBody true (c :: rest)
    else do prepend (← escaped? c) (longBasicBody false rest)
  | c :: rest =>
    if skipping && (c == ' ' || c == '\t') then longBasicBody true rest
    else if isPlain c then prepend c (longBasicBody false rest)
    else none

def longLiteralBody : List Char → Option (List Char × List Char)
  | [] => none
  | '\'' :: '\'' :: '\'' :: '\'' :: '\'' :: rest => some (['\'', '\''], rest)
  | '\'' :: '\'' :: '\'' :: '\'' :: rest => some (['\''], rest)
  | '\'' :: '\'' :: '\'' :: rest => some ([], rest)
  | '\r' :: '\n' :: rest => prepend '\r' (prepend '\n' (longLiteralBody rest))
  | '\n' :: rest => prepend '\n' (longLiteralBody rest)
  | c :: rest => if isPlain c then prepend c (longLiteralBody rest) else none

/-- A line end directly behind the opening quotes is not part of a text. -/
def dropFirstLineEnd : List Char → List Char
  | '\n' :: rest => rest
  | '\r' :: '\n' :: rest => rest
  | cs => cs

def shortText? : List Char → Option (String × List Char)
  | '"' :: rest => (basicBody rest).map fun (body, rest) => (String.ofList body, rest)
  | '\'' :: rest => (literalBody rest).map fun (body, rest) => (String.ofList body, rest)
  | _ => none

def text? : List Char → Option (String × List Char)
  | '"' :: '"' :: '"' :: rest =>
    (longBasicBody false (dropFirstLineEnd rest)).map fun (body, rest) => (String.ofList body, rest)
  | '\'' :: '\'' :: '\'' :: rest =>
    (longLiteralBody (dropFirstLineEnd rest)).map fun (body, rest) => (String.ofList body, rest)
  | cs => shortText? cs

end ContextDiagram.Toml
