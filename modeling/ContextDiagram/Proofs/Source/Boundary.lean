import ContextDiagram.Proofs.Source.Slice

namespace ContextDiagram.Source

/-- Whether an offset lies between two characters of a text, or at one of its ends. -/
def IsBoundary (cs : List Char) (offset : Nat) : Prop :=
  ∃ before after, cs = before ++ after ∧ byteLength before = offset

def Span.IsWholeIn (s : Span) (cs : List Char) : Prop :=
  IsBoundary cs s.start ∧ IsBoundary cs s.stop

def Span.IsFirstByteOf (s : Span) (c : Char) (cs : List Char) : Prop :=
  ∃ before after, cs = before ++ c :: after ∧ s.start = byteLength before ∧ s.stop = s.start + 1

variable {cs : List Char}

theorem IsBoundary.le_byteLength {offset : Nat} (h : IsBoundary cs offset) :
    offset ≤ byteLength cs := by
  obtain ⟨before, after, rfl, hb⟩ := h
  rw [byteLength_append]
  omega

theorem isBoundary_zero : IsBoundary cs 0 :=
  ⟨[], cs, rfl, rfl⟩

theorem Span.isWholeIn_emptyAt {offset : Nat} (h : IsBoundary cs offset) :
    (Span.emptyAt offset).IsWholeIn cs :=
  ⟨h, h⟩

theorem Span.IsWholeIn.union {s t : Span} (hs : s.IsWholeIn cs) (ht : t.IsWholeIn cs) :
    (s.union t).IsWholeIn cs := by
  constructor
  · change IsBoundary cs (min s.start t.start)
    rcases Nat.le_total s.start t.start with hle | hle
    · rw [Nat.min_eq_left hle]
      exact hs.1
    · rw [Nat.min_eq_right hle]
      exact ht.1
  · change IsBoundary cs (max s.stop t.stop)
    rcases Nat.le_total s.stop t.stop with hle | hle
    · rw [Nat.max_eq_right hle]
      exact ht.2
    · rw [Nat.max_eq_left hle]
      exact hs.2

theorem Span.exists_slice?_iff {s : Span} :
    (∃ text, s.slice? cs = some text) ↔ s.IsWholeIn cs := by
  constructor
  · intro h
    obtain ⟨text, h⟩ := h
    obtain ⟨before, after, rfl, hstart, hstop⟩ := slice?_eq_some_iff.1 h
    refine ⟨⟨before, text ++ after, rfl, hstart⟩, before ++ text, after, ?_, ?_⟩
    · rw [List.append_assoc]
    · rw [byteLength_append]
      omega
  · intro h
    obtain ⟨⟨before, rest, rfl, hstart⟩, ⟨before', rest', he, hstop⟩⟩ := h
    have hle := s.start_le_stop
    rcases List.append_eq_append_iff.1 he with ⟨text, rfl, rfl⟩ | ⟨text, rfl, rfl⟩
    · rw [byteLength_append] at hstop
      exact ⟨text, slice?_eq_some_iff.2 ⟨before, rest', rfl, hstart, by omega⟩⟩
    · -- The second offset is not the smaller one, so nothing lies between the two.
      rw [byteLength_append] at hstart
      obtain rfl : text = [] := eq_nil_of_byteLength (by omega)
      rw [byteLength] at hstart
      rw [List.append_nil]
      exact ⟨[], slice?_eq_some_iff.2 ⟨before', rest, rfl, by omega, by rw [byteLength]; omega⟩⟩

theorem Span.stop_between_add (offset length : Nat) :
    (between offset (offset + length)).stop = offset + length :=
  Nat.max_eq_right (Nat.le_add_right _ _)

theorem Span.isWholeIn_between (before text after : List Char) :
    (between (byteLength before) (byteLength before + byteLength text)).IsWholeIn
      (before ++ (text ++ after)) := by
  apply exists_slice?_iff.1
  exact ⟨text, slice?_eq_some_iff.2 ⟨before, after, rfl, rfl, (stop_between_add _ _).symm⟩⟩

section

variable {s : Span} {c : Char}

theorem Span.IsFirstByteOf.isBoundary_start (h : s.IsFirstByteOf c cs) : IsBoundary cs s.start := by
  obtain ⟨before, after, rfl, hstart, -⟩ := h
  exact ⟨before, c :: after, rfl, hstart.symm⟩

theorem Span.IsFirstByteOf.stop_le (h : s.IsFirstByteOf c cs) : s.stop ≤ byteLength cs := by
  obtain ⟨before, after, rfl, hstart, hstop⟩ := h
  have hpos := c.utf8Size_pos
  rw [byteLength_append, byteLength_cons]
  omega

/-- A character has text under its first byte only if it has no other byte. -/
theorem Span.IsFirstByteOf.exists_slice?_iff (h : s.IsFirstByteOf c cs) :
    (∃ text, s.slice? cs = some text) ↔ c.utf8Size = 1 := by
  rw [Span.exists_slice?_iff, IsWholeIn, and_iff_right h.isBoundary_start]
  obtain ⟨before, after, rfl, hstart, hstop⟩ := h
  have hpos := c.utf8Size_pos
  constructor
  · intro h
    obtain ⟨before', after', he, hb⟩ := h
    rcases List.append_eq_append_iff.1 he with ⟨text, rfl, htext⟩ | ⟨text, rfl, -⟩
    · rw [byteLength_append] at hb
      cases text with
      | nil =>
        rw [byteLength] at hb
        omega
      | cons d text =>
        obtain ⟨rfl, -⟩ := List.cons.inj htext
        rw [byteLength_cons] at hb
        omega
    · rw [byteLength_append] at hstart
      omega
  · intro hsize
    refine ⟨before ++ [c], after, ?_, ?_⟩
    · rw [List.append_assoc, List.singleton_append]
    · rw [byteLength_append, byteLength_cons, byteLength]
      omega

end

end ContextDiagram.Source
