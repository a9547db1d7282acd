import Mathlib.Data.List.TakeWhile
import ContextDiagram.Markup.Element

namespace ContextDiagram.Markup

inductive Item
  | character (c : Char)
  | element (name : String) (attributes : List (String × String)) (items : List Item)
deriving Repr

/-- What markup consists of as long as no tag has been matched with another one. -/
inductive Piece
  | character (c : Char)
  | opening (name : String) (attributes : List (String × String))
  | empty (name : String) (attributes : List (String × String))
  | closing (name : String)
deriving DecidableEq, Repr

/-- A character that stands for itself or is written as an entity, and what follows it. A bracket
that begins a tag stands for nothing. -/
def readCharacter : List Char → Option (Char × List Char)
  | '&' :: 'a' :: 'm' :: 'p' :: ';' :: cs => some ('&', cs)
  | '&' :: 'l' :: 't' :: ';' :: cs => some ('<', cs)
  | '&' :: 'g' :: 't' :: ';' :: cs => some ('>', cs)
  | '&' :: 'q' :: 'u' :: 'o' :: 't' :: ';' :: cs => some ('"', cs)
  | '&' :: 'a' :: 'p' :: 'o' :: 's' :: ';' :: cs => some ('\'', cs)
  | '&' :: _ | '<' :: _ | [] => none
  | c :: cs => some (c, cs)

/-- Whether characters are what others begin with, and begin no tag. -/
def IsTaken (taken cs rest : List Char) : Prop :=
  cs = taken ++ rest ∧ '<' ∉ taken

theorem exists_isTaken_of_readCharacter {cs rest : List Char} {c : Char}
    (h : readCharacter cs = some (c, rest)) : ∃ x taken, IsTaken (x :: taken) cs rest := by
  unfold readCharacter at h
  split at h
  · cases h
    exact ⟨'&', "amp;".toList, rfl, by decide⟩
  · cases h
    exact ⟨'&', "lt;".toList, rfl, by decide⟩
  · cases h
    exact ⟨'&', "gt;".toList, rfl, by decide⟩
  · cases h
    exact ⟨'&', "quot;".toList, rfl, by decide⟩
  · cases h
    exact ⟨'&', "apos;".toList, rfl, by decide⟩
  · cases h
  · cases h
  · cases h
  · next x cs _ _ _ _ _ _ hx =>
    cases h
    exact ⟨c, [], rfl, by simpa using Ne.symm hx⟩

theorem length_lt_of_readCharacter {cs rest : List Char} {c : Char}
    (h : readCharacter cs = some (c, rest)) : rest.length < cs.length := by
  obtain ⟨x, taken, rfl, -⟩ := exists_isTaken_of_readCharacter h
  simp only [List.length_append, List.length_cons]
  omega

def readValue (cs : List Char) : Option (List Char × List Char) :=
  match cs with
  | '"' :: rest => some ([], rest)
  | cs =>
    match _ : readCharacter cs with
    | some (c, rest) => (readValue rest).map fun (value, rest) => (c :: value, rest)
    | none => none
termination_by cs.length
decreasing_by exact length_lt_of_readCharacter ‹_›

theorem exists_isTaken_of_readValue {cs rest value : List Char}
    (h : readValue cs = some (value, rest)) : ∃ taken, IsTaken taken cs rest := by
  fun_induction readValue cs generalizing value with
  | case1 rest' =>
    cases h
    exact ⟨['"'], rfl, by decide⟩
  | case2 cs _ c rest' hc ih =>
    obtain ⟨⟨value', rest''⟩, hv, he⟩ := Option.map_eq_some_iff.1 h
    cases he
    obtain ⟨x, taken, rfl, ht⟩ := exists_isTaken_of_readCharacter hc
    obtain ⟨taken', rfl, ht'⟩ := ih hv
    refine ⟨x :: taken ++ taken', (List.append_assoc ..).symm, ?_⟩
    rw [List.mem_append, not_or]
    exact ⟨ht, ht'⟩
  | case3 => cases h

def isNameChar (c : Char) : Bool :=
  c.isAlpha || c == '-'

def leadingName (cs : List Char) : String :=
  String.ofList (cs.takeWhile isNameChar)

theorem length_lt_of_readValue {cs inside rest value : List Char} {c c' : Char}
    (hcs : cs.dropWhile isNameChar = c :: c' :: inside)
    (h : readValue inside = some (value, rest)) :
    rest.length < cs.length := by
  obtain ⟨taken, rfl, -⟩ := exists_isTaken_of_readValue h
  have hle := (List.dropWhile_suffix isNameChar (l := cs)).length_le
  rw [hcs, List.length_cons, List.length_cons, List.length_append] at hle
  omega

/-- Attributes, each with a blank before its name and quotes around its value. -/
def readAttributes (cs : List Char) : Option (List (String × String) × List Char) :=
  match cs with
  | ' ' :: cs =>
    match _ : cs.dropWhile isNameChar with
    | '=' :: '"' :: inside =>
      match _ : readValue inside with
      | some (value, rest) =>
        (readAttributes rest).map fun (others, rest) =>
          ((leadingName cs, String.ofList value) :: others, rest)
      | none => none
    | _ => none
  | cs => some ([], cs)
termination_by cs.length
decreasing_by exact Nat.lt_succ_of_lt (length_lt_of_readValue ‹_› ‹_›)

def readTag (cs : List Char) : Option (Piece × List Char) :=
  match cs with
  | '/' :: cs =>
    match cs.dropWhile isNameChar with
    | '>' :: rest => some (.closing (leadingName cs), rest)
    | _ => none
  | cs =>
    match readAttributes (cs.dropWhile isNameChar) with
    | some (attributes, '/' :: '>' :: rest) => some (.empty (leadingName cs) attributes, rest)
    | some (attributes, '>' :: rest) => some (.opening (leadingName cs) attributes, rest)
    | _ => none

theorem IsTaken.trans {taken taken' cs mid rest : List Char} (h : IsTaken taken cs mid)
    (h' : IsTaken taken' mid rest) : IsTaken (taken ++ taken') cs rest := by
  obtain ⟨rfl, ht⟩ := h
  obtain ⟨rfl, ht'⟩ := h'
  refine ⟨(List.append_assoc ..).symm, ?_⟩
  rw [List.mem_append, not_or]
  exact ⟨ht, ht'⟩

theorem isTaken_name (cs : List Char) :
    IsTaken (cs.takeWhile isNameChar) cs (cs.dropWhile isNameChar) := by
  refine ⟨List.takeWhile_append_dropWhile.symm, fun h => ?_⟩
  exact absurd (List.mem_takeWhile_imp h) (by decide)

theorem exists_isTaken_of_readAttributes {cs rest : List Char} {attributes : List (String × String)}
    (h : readAttributes cs = some (attributes, rest)) : ∃ taken, IsTaken taken cs rest := by
  fun_induction readAttributes cs generalizing attributes with
  | case1 cs inside hinside value mid hvalue ih =>
    obtain ⟨⟨others, rest'⟩, ho, he⟩ := Option.map_eq_some_iff.1 h
    cases he
    have hblank : IsTaken [' '] (' ' :: cs) cs := ⟨rfl, by decide⟩
    have hquote : IsTaken ['=', '"'] (cs.dropWhile isNameChar) inside := ⟨hinside, by decide⟩
    obtain ⟨taken, ht⟩ := exists_isTaken_of_readValue hvalue
    obtain ⟨taken', ht'⟩ := ih ho
    exact ⟨_, (((hblank.trans (isTaken_name cs)).trans hquote).trans ht).trans ht'⟩
  | case2 => cases h
  | case3 => cases h
  | case4 =>
    cases h
    exact ⟨[], rfl, nofun⟩

theorem exists_isTaken_of_readTag {cs rest : List Char} {tag : Piece}
    (h : readTag cs = some (tag, rest)) : ∃ taken, IsTaken taken cs rest := by
  unfold readTag at h
  split at h
  · next cs =>
    split at h
    · next rest' hrest =>
      cases h
      have hslash : IsTaken ['/'] ('/' :: cs) cs := ⟨rfl, by decide⟩
      have hclose : IsTaken ['>'] (cs.dropWhile isNameChar) rest := ⟨hrest, by decide⟩
      exact ⟨_, (hslash.trans (isTaken_name cs)).trans hclose⟩
    · cases h
  · split at h
    · next attributes rest' hattributes =>
      cases h
      obtain ⟨taken, ht⟩ := exists_isTaken_of_readAttributes hattributes
      have hclose : IsTaken ['/', '>'] ('/' :: '>' :: rest) rest := ⟨rfl, by decide⟩
      exact ⟨_, ((isTaken_name cs).trans ht).trans hclose⟩
    · next attributes rest' hattributes =>
      cases h
      obtain ⟨taken, ht⟩ := exists_isTaken_of_readAttributes hattributes
      have hclose : IsTaken ['>'] ('>' :: rest) rest := ⟨rfl, by decide⟩
      exact ⟨_, ((isTaken_name cs).trans ht).trans hclose⟩
    · cases h

theorem length_le_of_readTag {cs rest : List Char} {tag : Piece}
    (h : readTag cs = some (tag, rest)) : rest.length ≤ cs.length := by
  obtain ⟨taken, rfl, -⟩ := exists_isTaken_of_readTag h
  rw [List.length_append]
  exact Nat.le_add_left _ _

def readPieces (cs : List Char) : Option (List Piece) :=
  match cs with
  | [] => some []
  | '<' :: cs =>
    match _ : readTag cs with
    | some (tag, rest) => (readPieces rest).map (tag :: ·)
    | none => none
  | cs =>
    match _ : readCharacter cs with
    | some (c, rest) => (readPieces rest).map (.character c :: ·)
    | none => none
termination_by cs.length
decreasing_by
  · exact Nat.lt_succ_of_le (length_le_of_readTag ‹_›)
  · exact length_lt_of_readCharacter ‹_›

structure OpenElement where
  name : String
  attributes : List (String × String)
  before : List Item
deriving Repr

/-- The items of a text, of which the last ones that were read come first. Every closing tag must
have the name of the last element that is still open. -/
def nest : List OpenElement → List Item → List Piece → Option (List Item)
  | [], items, [] => some items.reverse
  | _ :: _, _, [] => none
  | outer, items, .character c :: ps => nest outer (.character c :: items) ps
  | outer, items, .empty name attributes :: ps =>
    nest outer (.element name attributes [] :: items) ps
  | outer, items, .opening name attributes :: ps => nest (⟨name, attributes, items⟩ :: outer) [] ps
  | [], _, .closing _ :: _ => none
  | e :: outer, items, .closing name :: ps =>
    if name = e.name then nest outer (.element name e.attributes items.reverse :: e.before) ps
    else none

/-- The one element that a text consists of. -/
def read (text : String) : Option Item := do
  match ← nest [] [] (← readPieces text.toList) with
  | [.element name attributes items] => some (.element name attributes items)
  | _ => none

end ContextDiagram.Markup
