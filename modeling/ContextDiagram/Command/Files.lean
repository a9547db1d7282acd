import ContextDiagram.Failure

namespace ContextDiagram.Command

class Files (m : Type → Type) where
  isPresent : String → m Bool
  read : String → m (Except FileFault String)
  write : String → String → m (Except FileFault Unit)

instance {ε : Type} {m : Type → Type} [Monad m] [Files m] : Files (ExceptT ε m) where
  isPresent path := ExceptT.lift (Files.isPresent path)
  read path := ExceptT.lift (Files.read path)
  write path text := ExceptT.lift (Files.write path text)

inductive Entry
  | file (content : ByteArray)
  | directory

instance : DecidableEq Entry := fun e e' =>
  match e, e' with
  | .directory, .directory => isTrue rfl
  | .file _, .directory => isFalse fun h => by cases h
  | .directory, .file _ => isFalse fun h => by cases h
  | .file content, .file content' =>
    decidable_of_iff (content.data = content'.data)
      ⟨fun h => congrArg Entry.file (ByteArray.ext h), fun h => by cases h; rfl⟩

/-- A disk: what stands at each place, a place being the names on the way to it from the top. Paths
start at the current directory, and at the top if they begin with a slash. -/
structure Disk where
  entry? : List String → Option Entry
  current : List String

namespace Disk

def empty (current : List String) : Disk where
  entry? place := if place.isPrefixOf current then some .directory else none
  current := current

def set (disk : Disk) (place : List String) (entry : Entry) : Disk :=
  { disk with entry? := fun other => if other = place then some entry else disk.entry? other }

def addFile (disk : Disk) (names : List String) (content : ByteArray) : Disk :=
  let directories := (List.range names.length).foldl
    (fun disk n => disk.set (disk.current ++ names.take n) .directory) disk
  directories.set (disk.current ++ names) (.file content)

def longestName : Nat := 255

def longestPath : Nat := 4095

def split (disk : Disk) (path : String) : Except FileFault (List String × List String) :=
  if path.contains '\x00' then .error .nulInName
  else if path.isEmpty then .error .notFound
  else if longestPath < path.utf8ByteSize then .error .nameTooLong
  else .ok (if path.startsWith "/" then [] else disk.current, path.splitOn "/")

/-- The place that the parts of a path lead to. All parts but the last have to lead to directories;
an empty part or one dot stays there, and two dots go up. -/
def walk (disk : Disk) (place : List String) : List String → Except FileFault (List String)
  | [] => .ok place
  | part :: rest =>
    match disk.entry? place with
    | none => .error .notFound
    | some (.file _) => .error .notADirectory
    | some .directory =>
      if part = "" ∨ part = "." then disk.walk place rest
      else if part = ".." then disk.walk place.dropLast rest
      else if longestName < part.utf8ByteSize then .error .nameTooLong
      else disk.walk (place ++ [part]) rest

def find (disk : Disk) (path : String) : Except FileFault Entry := do
  let (start, parts) ← disk.split path
  match disk.entry? (← disk.walk start parts) with
  | some entry => return entry
  | none => throw .notFound

def read (disk : Disk) (path : String) : Except FileFault String := do
  match ← disk.find path with
  | .directory => throw .isADirectory
  | .file content =>
    match String.fromUTF8? content with
    | some text => return text
    | none => throw .notText

def withoutTrailing (parts : List String) : List String :=
  (parts.reverse.dropWhile (· = "")).reverse

/-- A disk after a text has been written to a path. Files come to be, directories do not. A path
that ends in a slash could only name a directory, if what stands in front of its last name is
one. -/
def write (disk : Disk) (path text : String) : Except FileFault Disk := do
  let (start, parts) ← disk.split path
  let named := withoutTrailing parts
  if named.length < parts.length then
    let _ ← disk.walk start (named.dropLast ++ ["."])
    throw .isADirectory
  let place ← disk.walk start named
  if disk.entry? place = some .directory then throw .isADirectory
  return disk.set place (.file text.toUTF8)

end Disk

instance : Files (StateM Disk) where
  isPresent path := do
    return ((← get).find path).toBool
  read path := do
    return (← get).read path
  write path text := do
    match (← get).write path text with
    | .ok disk =>
      set disk
      return .ok ()
    | .error fault => return .error fault

end ContextDiagram.Command
