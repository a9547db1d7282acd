import Mathlib.Data.List.Infix
import ContextDiagram.Proofs.Markup.Reader

namespace ContextDiagram.Markup

def occurrences (s text : String) : Nat :=
  text.toList.tails.countP s.toList.isPrefixOf

def Piece.begins (s : String) : Piece → Bool
  | .opening name _ | .empty name _ => s.toList.isPrefixOf name.toList
  | .character _ | .closing _ => false

theorem isPrefixOf_takeWhile {p : Char → Bool} {s : List Char} (h : ∀ c ∈ s, p c) (cs : List Char) :
    s.isPrefixOf (cs.takeWhile p) = s.isPrefixOf cs := by
  induction s generalizing cs with
  | nil => rfl
  | cons a s ih =>
    cases cs with
    | nil => rfl
    | cons c cs =>
      obtain ⟨ha, hs⟩ := List.forall_mem_cons.1 h
      by_cases hc : p c
      · rw [List.takeWhile_cons_of_pos hc, List.isPrefixOf_cons_cons, List.isPrefixOf_cons_cons,
          ih hs]
      · have hne : a ≠ c := by
          rintro rfl
          exact hc ha
        rw [List.takeWhile_cons_of_neg hc, List.isPrefixOf_cons_cons, beq_false_of_ne hne]
        rfl

theorem countP_tails_of_isTaken {taken cs rest : List Char} (s : List Char)
    (h : IsTaken taken cs rest) :
    cs.tails.countP ('<' :: s).isPrefixOf = rest.tails.countP ('<' :: s).isPrefixOf := by
  obtain ⟨rfl, ht⟩ := h
  induction taken with
  | nil => rfl
  | cons c taken ih =>
    rw [List.mem_cons, not_or] at ht
    rw [List.cons_append, List.tails_cons, List.countP_cons, ih ht.2, List.isPrefixOf_cons_cons,
      beq_false_of_ne ht.1]
    rfl

section

variable {s : String}

/-- A tag begins with a name just when the characters behind its bracket do. -/
theorem begins_of_readTag (hne : s ≠ "") (hs : ∀ c ∈ s.toList, isNameChar c) {cs rest : List Char}
    {tag : Piece} (h : readTag cs = some (tag, rest)) : tag.begins s = s.toList.isPrefixOf cs := by
  have hname : s.toList.isPrefixOf (leadingName cs).toList = s.toList.isPrefixOf cs := by
    rw [leadingName, String.toList_ofList, isPrefixOf_takeWhile hs]
  unfold readTag at h
  split at h
  · next cs =>
    obtain ⟨a, s', ha⟩ := List.exists_cons_of_ne_nil (mt String.toList_eq_nil_iff.1 hne)
    have hslash : a ≠ '/' := by
      rintro rfl
      exact absurd (hs '/' (ha ▸ List.mem_cons_self)) (by decide)
    rw [ha, List.isPrefixOf_cons_cons, beq_false_of_ne hslash]
    split at h
    · cases h
      rfl
    · cases h
  · split at h
    · cases h
      exact hname
    · cases h
      exact hname
    · cases h

/-- A bracket with a name behind it occurs once for each tag that begins so. -/
theorem occurrences_eq_countP (hne : s ≠ "") (hs : ∀ c ∈ s.toList, isNameChar c) {text : String}
    {ps : List Piece} (h : readPieces text.toList = some ps) :
    occurrences ("<" ++ s) text = ps.countP (Piece.begins s) := by
  have hl : ("<" ++ s).toList = '<' :: s.toList := by simp
  rw [occurrences, hl]
  generalize text.toList = cs at h
  fun_induction readPieces cs generalizing ps with
  | case1 =>
    cases h
    rfl
  | case2 cs tag rest htag ih =>
    obtain ⟨ps', hps, rfl⟩ := Option.map_eq_some_iff.1 h
    obtain ⟨taken, ht⟩ := exists_isTaken_of_readTag htag
    rw [List.tails_cons, List.countP_cons, countP_tails_of_isTaken _ ht, ih hps, List.countP_cons,
      begins_of_readTag hne hs htag, List.isPrefixOf_cons_cons, beq_self_eq_true, Bool.true_and]
  | case3 => cases h
  | case4 cs _ _ c rest hc ih =>
    obtain ⟨ps', hps, rfl⟩ := Option.map_eq_some_iff.1 h
    obtain ⟨x, taken, ht⟩ := exists_isTaken_of_readCharacter hc
    rw [countP_tails_of_isTaken _ ht, ih hps]
    exact (List.countP_cons_of_neg Bool.false_ne_true).symm
  | case5 => cases h

end

end ContextDiagram.Markup
