namespace ContextDiagram.Source

structure Span where
  start : Nat
  stop : Nat
  start_le_stop : start ≤ stop := by omega
deriving DecidableEq, Repr

namespace Span

/-- The range between two offsets; an end before the start is moved to the start. -/
def between (start stop : Nat) : Span where
  start := start
  stop := max start stop

def emptyAt (offset : Nat) : Span where
  start := offset
  stop := offset

def length (s : Span) : Nat :=
  s.stop - s.start

def isEmpty (s : Span) : Bool :=
  s.start == s.stop

def union (s t : Span) : Span where
  start := min s.start t.start
  stop := max s.stop t.stop
  start_le_stop := by have := s.start_le_stop; omega

def shift (s : Span) (bytes : Nat) : Span where
  start := s.start + bytes
  stop := s.stop + bytes
  start_le_stop := by have := s.start_le_stop; omega

/-- The range in writing, such as `3..5`. -/
def text (s : Span) : String :=
  toString s.start ++ ".." ++ toString s.stop

end Span

structure Located (α : Type) where
  value : α
  span : Span
deriving DecidableEq, Repr

/-- The number of bytes that characters take in UTF-8. -/
def byteLength : List Char → Nat
  | [] => 0
  | c :: cs => c.utf8Size + byteLength cs

@[simp] theorem byteLength_append (cs ds : List Char) :
    byteLength (cs ++ ds) = byteLength cs + byteLength ds := by
  induction cs with
  | nil => simp [byteLength]
  | cons c cs ih => simp [byteLength, ih, Nat.add_assoc]

/-- A place in a text, counted from 1; columns count characters. -/
structure Position where
  line : Nat
  column : Nat
deriving DecidableEq, Repr

def Position.behind (cs : List Char) : Position where
  line := cs.count '\n' + 1
  column := (cs.reverse.takeWhile (· != '\n')).length + 1

/-- The two parts of a text before and after a byte offset, unless it lies inside a character. -/
def splitAtByte : Nat → List Char → Option (List Char × List Char)
  | 0, cs => some ([], cs)
  | _ + 1, [] => none
  | n + 1, c :: cs =>
    if c.utf8Size ≤ n + 1 then
      (splitAtByte (n + 1 - c.utf8Size) cs).map fun (before, after) => (c :: before, after)
    else none

/-- The first offset between characters on the way down, or nothing if the way goes past 0. -/
def boundaryDownFrom? (cs : List Char) : Nat → Option Nat
  | 0 => if (splitAtByte 0 cs).isSome then some 0 else none
  | n + 1 => if (splitAtByte (n + 1) cs).isSome then some (n + 1) else boundaryDownFrom? cs n

/-- The text in front of an offset. An offset inside a character stands for the character's start,
and one past the end for the end. -/
def textBefore? (source : List Char) (offset : Nat) : Option (List Char) := do
  let boundary ← boundaryDownFrom? source (min offset (byteLength source))
  let (before, _) ← splitAtByte boundary source
  return before

def Span.position (s : Span) (source : List Char) : Position :=
  -- There always is a text in front: the way down ends at 0 at the latest.
  .behind ((textBefore? source s.start).getD [])

end ContextDiagram.Source
