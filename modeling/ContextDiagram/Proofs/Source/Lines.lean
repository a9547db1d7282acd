import ContextDiagram.Proofs.Source.Boundary
import Mathlib.Data.List.Induction
import Mathlib.Order.Bounds.Defs

namespace ContextDiagram.Source

namespace Position

def Precedes (p q : Position) : Prop :=
  p.line < q.line ∨ p.line = q.line ∧ p.column < q.column

/-- Whether a place leads to a byte offset of a text: past the lines above it, with their line ends,
and past the characters in front of it in its own line. -/
def LeadsTo (p : Position) (cs : List Char) (offset : Nat) : Prop :=
  ∃ above front back below, cs.splitOn '\n' = above ++ (front ++ back) :: below ∧
    p = ⟨above.length + 1, front.length + 1⟩ ∧
    offset = byteLength (above.flatMap (· ++ ['\n']) ++ front)

variable {p q r : Position} {cs before rest : List Char}

theorem Precedes.trans (h : p.Precedes q) (h' : q.Precedes r) : p.Precedes r := by
  rcases h with h | ⟨h, hc⟩ <;> rcases h' with h' | ⟨h', hc'⟩
  · exact .inl (Nat.lt_trans h h')
  · exact .inl (h' ▸ h)
  · exact .inl (h ▸ h')
  · exact .inr ⟨h.trans h', Nat.lt_trans hc hc'⟩

theorem behind_concat (before : List Char) (c : Char) :
    behind (before ++ [c]) =
      if c = '\n' then ⟨(behind before).line + 1, 1⟩
      else ⟨(behind before).line, (behind before).column + 1⟩ := by
  by_cases hc : c = '\n'
  · subst hc
    simp [behind]
  · simp [behind, hc]

theorem precedes_behind_concat (before : List Char) (c : Char) :
    (behind before).Precedes (behind (before ++ [c])) := by
  rw [behind_concat]
  split
  · exact .inl (Nat.lt_succ_self _)
  · exact .inr ⟨rfl, Nat.lt_succ_self _⟩

theorem behind_precedes_append (before : List Char) (h : rest ≠ []) :
    (behind before).Precedes (behind (before ++ rest)) := by
  induction rest generalizing before with
  | nil => exact absurd rfl h
  | cons c rest ih =>
    have hc := precedes_behind_concat before c
    cases rest with
    | nil => exact hc
    | cons d rest =>
      have hrest := ih (before ++ [c]) (List.cons_ne_nil _ _)
      rw [List.append_assoc] at hrest
      exact hc.trans hrest

end Position

/-- Every offset lies at or behind a boundary, and before the end of the next character. -/
theorem exists_boundary_before (cs : List Char) (offset : Nat) :
    ∃ before rest bytes, cs = before ++ rest ∧ offset = byteLength before + bytes ∧
      ∀ c ∈ rest.head?, bytes < c.utf8Size := by
  induction cs generalizing offset with
  | nil => exact ⟨[], [], offset, rfl, (Nat.zero_add _).symm, nofun⟩
  | cons c cs ih =>
    by_cases hle : c.utf8Size ≤ offset
    · obtain ⟨before, rest, bytes, rfl, he, hlt⟩ := ih (offset - c.utf8Size)
      refine ⟨c :: before, rest, bytes, rfl, ?_, hlt⟩
      rw [byteLength_cons]
      omega
    · refine ⟨[], c :: cs, offset, rfl, (Nat.zero_add _).symm, ?_⟩
      intro d hd
      cases hd
      exact Nat.not_le.1 hle

/-- A text up to a place, line by line, whatever follows. -/
theorem Position.exists_lines (before : List Char) :
    ∃ above front, behind before = ⟨above.length + 1, front.length + 1⟩ ∧
      before = above.flatMap (· ++ ['\n']) ++ front ∧
      ∀ rest, (before ++ rest).splitOn '\n' =
        above ++ (rest.splitOn '\n').modifyHead (front ++ ·) := by
  induction before using List.reverseRecOn with
  | nil =>
    refine ⟨[], [], rfl, rfl, ?_⟩
    intro rest
    exact (congrFun List.modifyHead_id _).symm
  | append_singleton before c ih =>
    obtain ⟨above, front, hplace, hbefore, hlines⟩ := ih
    by_cases hc : c = '\n'
    · subst hc
      refine ⟨above ++ [front], [], ?_, ?_, ?_⟩
      · rw [behind_concat, if_pos rfl, hplace, List.length_append]
        rfl
      · rw [List.flatMap_append, List.append_nil, List.flatMap_singleton, ← List.append_assoc,
          ← hbefore]
      · intro rest
        rw [List.append_assoc, hlines, List.singleton_append, List.splitOn_cons_eq_if_modifyHead,
          if_pos (beq_self_eq_true _), List.modifyHead_cons, List.append_nil, List.append_assoc]
        exact congrArg _ (congrArg _ (congrFun List.modifyHead_id _).symm)
    · refine ⟨above, front ++ [c], ?_, ?_, ?_⟩
      · rw [behind_concat, if_neg hc, hplace, List.length_append]
        rfl
      · rw [← List.append_assoc, ← hbefore]
      · intro rest
        rw [List.append_assoc, hlines, List.singleton_append, List.splitOn_cons_eq_if_modifyHead,
          if_neg (beq_iff_eq.not.2 hc), List.modifyHead_modifyHead]
        congr 2
        funext line
        exact (List.append_assoc front [c] line).symm

theorem Position.leadsTo_behind (before rest : List Char) :
    (behind before).LeadsTo (before ++ rest) (byteLength before) := by
  obtain ⟨above, front, hplace, hbefore, hlines⟩ := exists_lines before
  obtain ⟨back, below, hrest⟩ := List.exists_cons_of_ne_nil (List.splitOn_ne_nil '\n' rest)
  refine ⟨above, front, back, below, ?_, hplace, congrArg byteLength hbefore⟩
  rw [hlines, hrest, List.modifyHead_cons]

theorem Position.LeadsTo.unique {p : Position} {cs : List Char} {offset offset' : Nat}
    (h : p.LeadsTo cs offset) (h' : p.LeadsTo cs offset') : offset = offset' := by
  obtain ⟨above, front, back, below, hlines, rfl, rfl⟩ := h
  obtain ⟨above', front', back', below', hlines', hplace, rfl⟩ := h'
  simp only [mk.injEq, Nat.add_right_cancel_iff] at hplace
  obtain ⟨rfl, hline⟩ := List.append_inj (hlines.symm.trans hlines') hplace.1
  obtain ⟨rfl, -⟩ := List.append_inj (List.cons.inj hline).1 hplace.2
  rfl

theorem isSome_splitAtByte_iff {cs : List Char} {offset : Nat} :
    (splitAtByte offset cs).isSome ↔ IsBoundary cs offset := by
  simp only [Option.isSome_iff_exists, Prod.exists, splitAtByte_eq_some_iff, IsBoundary]

instance (cs : List Char) (offset : Nat) : Decidable (IsBoundary cs offset) :=
  decidable_of_iff _ isSome_splitAtByte_iff

theorem boundaryDownFrom?_of_isBoundary {cs : List Char} {offset : Nat} (h : IsBoundary cs offset) :
    boundaryDownFrom? cs offset = some offset := by
  cases offset with
  | zero => rw [boundaryDownFrom?, if_pos (isSome_splitAtByte_iff.2 h)]
  | succ n => rw [boundaryDownFrom?, if_pos (isSome_splitAtByte_iff.2 h)]

theorem IsBoundary.le_of_le_add {before rest : List Char} {offset bytes : Nat}
    (h : IsBoundary (before ++ rest) offset) (hlt : ∀ c ∈ rest.head?, bytes < c.utf8Size)
    (hle : offset ≤ byteLength before + bytes) : offset ≤ byteLength before := by
  obtain ⟨before', rest', he, rfl⟩ := h
  rcases List.append_eq_append_iff.1 he with ⟨more, rfl, rfl⟩ | ⟨more, rfl, -⟩
  · cases more with
    | nil => simp only [List.append_nil, Nat.le_refl]
    | cons c more =>
      have hc := hlt c rfl
      rw [byteLength_append, byteLength_cons] at hle
      omega
  · rw [byteLength_append]
    omega

theorem boundaryDownFrom?_append {before rest : List Char} {bytes : Nat}
    (hlt : ∀ c ∈ rest.head?, bytes < c.utf8Size)
    (hle : byteLength before + bytes ≤ byteLength (before ++ rest)) :
    boundaryDownFrom? (before ++ rest) (byteLength before + bytes) = some (byteLength before) := by
  induction bytes with
  | zero => exact boundaryDownFrom?_of_isBoundary ⟨before, rest, rfl, rfl⟩
  | succ n ih =>
    have hno : ¬IsBoundary (before ++ rest) (byteLength before + n + 1) := by
      intro h
      have := h.le_of_le_add hlt (Nat.le_refl _)
      omega
    rw [← Nat.add_assoc, boundaryDownFrom?, if_neg (mt isSome_splitAtByte_iff.1 hno)]
    exact ih (fun c hc => Nat.lt_of_succ_lt (hlt c hc)) (by omega)

theorem boundaryDownFrom?_min {before rest : List Char} {bytes : Nat}
    (hlt : ∀ c ∈ rest.head?, bytes < c.utf8Size) :
    boundaryDownFrom? (before ++ rest)
      (min (byteLength before + bytes) (byteLength (before ++ rest))) =
        some (byteLength before) := by
  rcases Nat.le_total (byteLength before + bytes) (byteLength (before ++ rest)) with hle | hle
  · rw [Nat.min_eq_left hle]
    exact boundaryDownFrom?_append hlt hle
  · -- Only at the end of a text is there no next character to be inside of.
    cases rest with
    | nil =>
      rw [Nat.min_eq_right hle, List.append_nil]
      exact boundaryDownFrom?_of_isBoundary ⟨before, [], (List.append_nil _).symm, rfl⟩
    | cons c rest =>
      have hc := hlt c rfl
      rw [byteLength_append, byteLength_cons] at hle
      omega

section

variable {s t : Span} {cs before rest : List Char}

/-- A range that does not start behind the next character has the place in front of it. -/
theorem Span.position_append {bytes : Nat} (hlt : ∀ c ∈ rest.head?, bytes < c.utf8Size)
    (hs : s.start = byteLength before + bytes) :
    s.position (before ++ rest) = .behind before := by
  have hbefore : textBefore? (before ++ rest) s.start = some before := by
    rw [textBefore?, hs, boundaryDownFrom?_min hlt, Option.bind_eq_bind, Option.bind_some,
      splitAtByte_eq_some_iff.2 ⟨rfl, rfl⟩]
    rfl
  rw [position, hbefore, Option.getD_some]

theorem Span.position_of_start_eq (hs : s.start = byteLength before) (rest : List Char) :
    s.position (before ++ rest) = .behind before := by
  have hpos : ∀ c ∈ rest.head?, 0 < c.utf8Size := fun c _ => c.utf8Size_pos
  exact position_append hpos hs

theorem Span.exists_boundary_leadsTo (s : Span) (cs : List Char) :
    ∃ boundary, boundaryDownFrom? cs (min s.start (byteLength cs)) = some boundary ∧
      IsGreatest {b | IsBoundary cs b ∧ b ≤ s.start} boundary ∧
      (s.position cs).LeadsTo cs boundary := by
  obtain ⟨before, rest, bytes, rfl, hs, hlt⟩ := exists_boundary_before cs s.start
  have hle : byteLength before ≤ s.start := hs ▸ Nat.le_add_right _ _
  refine ⟨byteLength before, hs ▸ boundaryDownFrom?_min hlt,
    ⟨⟨⟨before, rest, rfl, rfl⟩, hle⟩, ?_⟩, ?_⟩
  · intro b hb
    exact hb.1.le_of_le_add hlt (hs ▸ hb.2)
  · rw [position_append hlt hs]
    exact Position.leadsTo_behind before rest

theorem Span.position_precedes (hs : IsBoundary cs s.start) (ht : IsBoundary cs t.start)
    (hlt : s.start < t.start) : (s.position cs).Precedes (t.position cs) := by
  obtain ⟨before, rest, rfl, hb⟩ := hs
  obtain ⟨before', rest', he, hb'⟩ := ht
  rcases List.append_eq_append_iff.1 he with ⟨more, rfl, rfl⟩ | ⟨more, rfl, -⟩
  · rw [position_of_start_eq hb.symm, ← List.append_assoc, position_of_start_eq hb'.symm]
    apply Position.behind_precedes_append
    rintro rfl
    rw [List.append_nil] at hb'
    omega
  · rw [byteLength_append] at hb
    omega

theorem Span.position_of_byteLength_le (h : byteLength cs ≤ s.start) :
    s.position cs = .behind cs := by
  obtain ⟨bytes, hs⟩ := Nat.exists_eq_add_of_le h
  have hplace : s.position (cs ++ []) = .behind cs := position_append nofun hs
  rwa [List.append_nil] at hplace

end

/-- The line and the column of a range lead to its start, taken back to the end of the text and to
the start of a character, and to nothing else. So they tell all boundaries apart, in their order,
and are the same within a character and past the end. -/
theorem leadsTo_position (source : String) :
    (∀ s : Span, ∃ boundary,
      boundaryDownFrom? source.toList (min s.start source.utf8ByteSize) = some boundary ∧
        IsGreatest {b | IsBoundary source.toList b ∧ b ≤ s.start} boundary ∧
        ∀ offset, (s.position source.toList).LeadsTo source.toList offset ↔ offset = boundary) ∧
    (∀ s t : Span, IsBoundary source.toList s.start → IsBoundary source.toList t.start →
      s.start < t.start → (s.position source.toList).Precedes (t.position source.toList)) ∧
    (∀ before c rest, source.toList = before ++ c :: rest → ∀ s : Span,
      byteLength before ≤ s.start → s.start < byteLength before + c.utf8Size →
        s.position source.toList = Position.behind before) ∧
    ∀ s : Span, source.utf8ByteSize ≤ s.start →
      s.position source.toList = Position.behind source.toList := by
  rw [← byteLength_toList]
  refine ⟨?_, ?_, ?_, ?_⟩
  · intro s
    obtain ⟨boundary, hdown, hgreatest, hleads⟩ := s.exists_boundary_leadsTo source.toList
    refine ⟨boundary, hdown, hgreatest, ?_⟩
    intro offset
    constructor
    · intro h
      exact h.unique hleads
    · intro he
      subst he
      exact hleads
  · intro s t hs ht hlt
    exact Span.position_precedes hs ht hlt
  · intro before c rest he s hle hlt
    obtain ⟨bytes, hbytes⟩ := Nat.exists_eq_add_of_le hle
    rw [he]
    refine Span.position_append ?_ hbytes
    intro d hd
    cases hd
    omega
  · intro s hle
    exact Span.position_of_byteLength_le hle

/-- In a text of an accented letter, a line end and another letter, the second byte of the first
letter has the place of the letter, and the line end stands before the letter of the next line. -/
theorem leadsTo_position_accented :
    (Span.between 1 1).position "é\nb".toList = Position.behind [] ∧
      ((Span.between 2 2).position "é\nb".toList).Precedes
        ((Span.between 3 3).position "é\nb".toList) := by
  obtain ⟨-, hprecedes, hinside, -⟩ := leadsTo_position "é\nb"
  constructor
  · exact hinside [] 'é' ['\n', 'b'] (by decide) (Span.between 1 1) (by decide) (by decide)
  · exact hprecedes (Span.between 2 2) (Span.between 3 3) (by decide) (by decide) (by decide)

end ContextDiagram.Source
