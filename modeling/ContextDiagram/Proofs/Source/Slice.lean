import ContextDiagram.Source.Span

namespace ContextDiagram.Source

@[simp] theorem byteLength_cons (c : Char) (cs : List Char) :
    byteLength (c :: cs) = c.utf8Size + byteLength cs := rfl

theorem byteLength_pos {cs : List Char} (h : cs ≠ []) : 0 < byteLength cs := by
  cases cs with
  | nil => exact absurd rfl h
  | cons c cs =>
    have := c.utf8Size_pos
    rw [byteLength_cons]
    omega

theorem eq_nil_of_byteLength {cs : List Char} (h : byteLength cs = 0) : cs = [] :=
  Decidable.byContradiction fun hne => Nat.ne_of_gt (byteLength_pos hne) h

theorem size_utf8Encode (cs : List Char) : cs.utf8Encode.size = byteLength cs := by
  induction cs with
  | nil => rw [List.utf8Encode_nil, ByteArray.size_empty, byteLength]
  | cons c cs ih =>
    rw [List.utf8Encode_cons, ByteArray.size_append, ih, List.utf8Encode_singleton,
      List.size_toByteArray, String.length_utf8EncodeChar, byteLength_cons]

theorem byteLength_toList (s : String) : byteLength s.toList = s.utf8ByteSize := by
  rw [← size_utf8Encode, String.utf8Encode_toList, String.size_toByteArray]

theorem splitAtByte_eq_some_iff {n : Nat} {cs before after : List Char} :
    splitAtByte n cs = some (before, after) ↔ cs = before ++ after ∧ byteLength before = n := by
  fun_induction splitAtByte n cs generalizing before with
  | case1 cs =>
    constructor
    · intro h
      cases h
      exact ⟨rfl, rfl⟩
    · intro h
      obtain ⟨rfl, hb⟩ := h
      rw [eq_nil_of_byteLength hb]
      rfl
  | case2 n =>
    constructor
    · intro h
      cases h
    · intro h
      obtain ⟨hcs, hb⟩ := h
      rw [(List.append_eq_nil_iff.1 hcs.symm).1] at hb
      cases hb
  | case3 n c cs hc ih =>
    constructor
    · intro h
      obtain ⟨⟨b, a⟩, hs, he⟩ := Option.map_eq_some_iff.1 h
      cases he
      obtain ⟨rfl, hb⟩ := ih.1 hs
      refine ⟨rfl, ?_⟩
      rw [byteLength_cons]
      omega
    · intro h
      obtain ⟨hcs, hb⟩ := h
      cases before with
      | nil => cases hb
      | cons d before =>
        obtain ⟨rfl, rfl⟩ := List.cons.inj hcs
        rw [byteLength_cons] at hb
        exact Option.map_eq_some_iff.2 ⟨(before, after), ih.2 ⟨rfl, by omega⟩, rfl⟩
  | case4 n c cs hc =>
    constructor
    · intro h
      cases h
    · intro h
      obtain ⟨hcs, hb⟩ := h
      cases before with
      | nil => cases hb
      | cons d before =>
        obtain ⟨rfl, rfl⟩ := List.cons.inj hcs
        rw [byteLength_cons] at hb
        omega

/-- A text has at most one first part of a given number of bytes. -/
theorem append_inj_of_byteLength_eq {a b c d : List Char} (h : a ++ b = c ++ d)
    (hl : byteLength a = byteLength c) : a = c ∧ b = d := by
  have hc : splitAtByte (byteLength c) (a ++ b) = some (c, d) :=
    splitAtByte_eq_some_iff.2 ⟨h, rfl⟩
  rw [splitAtByte_eq_some_iff.2 ⟨rfl, hl⟩] at hc
  exact Prod.mk.inj (Option.some.inj hc)

theorem Span.eq_between_add_iff {s : Span} {offset length : Nat} :
    s = between offset (offset + length) ↔ s.start = offset ∧ s.stop = offset + length := by
  cases s with
  | mk start stop h =>
    simp only [between, Span.mk.injEq, Nat.max_eq_right (Nat.le_add_right _ _)]

def Span.slice? (s : Span) (cs : List Char) : Option (List Char) :=
  (splitAtByte s.start cs).bind fun split => (splitAtByte s.length split.2).map Prod.fst

theorem Span.slice?_eq_some_iff {s : Span} {cs text : List Char} :
    s.slice? cs = some text ↔ ∃ before after, cs = before ++ (text ++ after) ∧
      byteLength before = s.start ∧ s.start + byteLength text = s.stop := by
  have hs := s.start_le_stop
  rw [Span.slice?, Option.bind_eq_some_iff]
  constructor
  · intro h
    obtain ⟨⟨before, rest⟩, hd, hm⟩ := h
    obtain ⟨⟨text, after⟩, ht, rfl⟩ := Option.map_eq_some_iff.1 hm
    obtain ⟨rfl, hb⟩ := splitAtByte_eq_some_iff.1 hd
    obtain ⟨rfl, hl⟩ := splitAtByte_eq_some_iff.1 ht
    rw [Span.length] at hl
    dsimp only
    exact ⟨before, after, rfl, hb, by omega⟩
  · intro h
    obtain ⟨before, after, rfl, hb, ht⟩ := h
    refine ⟨(before, text ++ after), splitAtByte_eq_some_iff.2 ⟨rfl, hb⟩, ?_⟩
    refine Option.map_eq_some_iff.2 ⟨(text, after), splitAtByte_eq_some_iff.2 ⟨rfl, ?_⟩, rfl⟩
    rw [Span.length]
    omega

end ContextDiagram.Source
