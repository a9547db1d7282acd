import ContextDiagram.Proofs.Language.Refinement

namespace ContextDiagram.Language

open Source

theorem nameLexeme_inj {a b : Located String} (h : nameLexeme a = nameLexeme b) : a = b := by
  cases a
  cases b
  cases h
  rfl

theorem NameSeries.yield_append_inj {s s' : NameSeries} {rest rest' : List Lexeme}
    (h : s.yield ++ rest = s'.yield ++ rest') (hr : NextIsNot .comma rest)
    (hr' : NextIsNot .comma rest') : s = s' ∧ rest = rest' := by
  obtain ⟨first, others⟩ := s
  obtain ⟨first', others'⟩ := s'
  induction others generalizing first first' others' with
  | nil =>
    obtain ⟨hfirst, h⟩ := List.cons.inj h
    obtain rfl : first = first' := nameLexeme_inj hfirst
    cases others' with
    | nil => exact ⟨rfl, h⟩
    | cons other others' =>
      obtain rfl : rest = _ := h
      exact absurd rfl (nextIsNot_cons.1 hr)
  | cons other others ih =>
    obtain ⟨comma, name⟩ := other
    obtain ⟨hfirst, h⟩ := List.cons.inj h
    obtain rfl : first = first' := nameLexeme_inj hfirst
    cases others' with
    | nil =>
      obtain rfl : _ = rest' := h
      exact absurd rfl (nextIsNot_cons.1 hr')
    | cons other' others' =>
      obtain ⟨comma', name'⟩ := other'
      obtain ⟨hcomma, h⟩ := List.cons.inj h
      obtain ⟨hs, hrest⟩ := ih _ _ _ h
      cases hs
      cases hcomma
      exact ⟨rfl, hrest⟩

theorem TagGroup.yield?_append_inj {g g' : Option TagGroup} {rest rest' : List Lexeme}
    (h : yield? g ++ rest = yield? g' ++ rest') (hr : NextIsNot .openBracket rest)
    (hr' : NextIsNot .openBracket rest') : g = g' ∧ rest = rest' := by
  cases g with
  | none =>
    cases g' with
    | none => exact ⟨rfl, h⟩
    | some g' =>
      obtain rfl : rest = _ := h
      exact absurd rfl (nextIsNot_cons.1 hr)
  | some g =>
    cases g' with
    | none =>
      obtain rfl : _ = rest' := h
      exact absurd rfl (nextIsNot_cons.1 hr')
    | some g' =>
      simp only [yield?, yield, List.cons_append, List.append_assoc, List.nil_append] at h
      obtain ⟨hopened, h⟩ := List.cons.inj h
      obtain ⟨htags, h⟩ := NameSeries.yield_append_inj h (nextIsNot_cons.2 fun h => by cases h)
        (nextIsNot_cons.2 fun h => by cases h)
      obtain ⟨hclosed, hrest⟩ := List.cons.inj h
      cases g
      cases g'
      cases hopened
      cases htags
      cases hclosed
      exact ⟨rfl, hrest⟩

theorem RelationshipTree.yield_append_inj {r r' : RelationshipTree} {rest rest' : List Lexeme}
    (h : r.yield ++ rest = r'.yield ++ rest') : r = r' ∧ rest = rest' := by
  simp only [yield, List.cons_append, List.append_assoc, List.nil_append] at h
  obtain ⟨hleading, h⟩ := TagGroup.yield?_append_inj h (nextIsNot_cons.2 fun h => by cases h)
    (nextIsNot_cons.2 fun h => by cases h)
  obtain ⟨hsource, h⟩ := List.cons.inj h
  obtain ⟨htrailing, h⟩ := TagGroup.yield?_append_inj h (nextIsNot_cons.2 fun h => by cases h)
    (nextIsNot_cons.2 fun h => by cases h)
  obtain ⟨harrow, h⟩ := List.cons.inj h
  obtain ⟨htags, h⟩ := TagGroup.yield?_append_inj h (nextIsNot_cons.2 fun h => by cases h)
    (nextIsNot_cons.2 fun h => by cases h)
  obtain ⟨htarget, hrest⟩ := List.cons.inj h
  obtain ⟨leading, source, trailing, ⟨direction, span⟩, tags, target⟩ := r
  obtain ⟨leading', source', trailing', ⟨direction', span'⟩, tags', target'⟩ := r'
  cases hleading
  cases nameLexeme_inj hsource
  cases htrailing
  cases harrow
  cases htags
  cases nameLexeme_inj htarget
  exact ⟨rfl, hrest⟩

theorem RelationshipTree.nextIsNot_contains (r : RelationshipTree) (rest : List Lexeme) :
    NextIsNot .contains (r.yield ++ rest) := by
  rw [yield]
  cases r.leading <;> exact nextIsNot_cons.2 fun h => by cases h

theorem StatementTree.yield_append_inj {s s' : StatementTree} {rest rest' : List Lexeme}
    (h : s.yield ++ rest = s'.yield ++ rest') (hr : NextIsNot .comma rest)
    (hr' : NextIsNot .comma rest') : s = s' ∧ rest = rest' := by
  cases s with
  | contains keyword names =>
    cases s' with
    | contains keyword' names' =>
      obtain ⟨hkeyword, h⟩ := List.cons.inj h
      obtain ⟨rfl, hrest⟩ := NameSeries.yield_append_inj h hr hr'
      cases hkeyword
      exact ⟨rfl, hrest⟩
    | relationship r' =>
      have hne := r'.nextIsNot_contains rest'
      rw [show r'.yield ++ rest' = _ from h.symm] at hne
      exact absurd rfl (nextIsNot_cons.1 hne)
  | relationship r =>
    cases s' with
    | contains keyword' names' =>
      have hne := r.nextIsNot_contains rest
      rw [show r.yield ++ rest = _ from h] at hne
      exact absurd rfl (nextIsNot_cons.1 hne)
    | relationship r' =>
      obtain ⟨rfl, hrest⟩ := RelationshipTree.yield_append_inj h
      exact ⟨rfl, hrest⟩

theorem flatMap_yield_append_inj {ss ss' : List StatementTree} {closed closed' : Span}
    (h : ss.flatMap StatementTree.yield ++ [⟨.closeBrace, closed⟩] =
      ss'.flatMap StatementTree.yield ++ [⟨.closeBrace, closed'⟩]) :
    ss = ss' ∧ closed = closed' := by
  induction ss generalizing ss' with
  | nil =>
    cases ss' with
    | nil =>
      cases h
      exact ⟨rfl, rfl⟩
    | cons s' ss' =>
      obtain ⟨l, ls, hs, -, hl⟩ := s'.exists_head
      rw [List.flatMap_cons, hs] at h
      obtain ⟨rfl, -⟩ := List.cons.inj h
      exact absurd rfl hl
  | cons s ss ih =>
    cases ss' with
    | nil =>
      obtain ⟨l, ls, hs, -, hl⟩ := s.exists_head
      rw [List.flatMap_cons, hs] at h
      obtain ⟨rfl, -⟩ := List.cons.inj h
      exact absurd rfl hl
    | cons s' ss' =>
      rw [List.flatMap_cons, List.flatMap_cons, List.append_assoc, List.append_assoc] at h
      obtain ⟨rfl, hrest⟩ := StatementTree.yield_append_inj h
        (nextIsNot_comma_flatMap_yield ss (nextIsNot_cons.2 nofun))
        (nextIsNot_comma_flatMap_yield ss' (nextIsNot_cons.2 nofun))
      obtain ⟨rfl, rfl⟩ := ih hrest
      exact ⟨rfl, rfl⟩

theorem BlockTree.yield_inj {b b' : BlockTree} (h : b.yield = b'.yield) : b = b' := by
  obtain ⟨keyword, name, opened, ss, closed⟩ := b
  obtain ⟨keyword', name', opened', ss', closed'⟩ := b'
  obtain ⟨hkeyword, hbody⟩ := List.cons.inj h
  have hname := congrArg blockName hbody
  dsimp only at hname
  rw [blockName_append, blockName_append] at hname
  obtain ⟨rfl, hbraces⟩ := Prod.mk.inj hname
  obtain ⟨hopened, hstatements⟩ := List.cons.inj hbraces
  obtain ⟨rfl, rfl⟩ := flatMap_yield_append_inj hstatements
  cases hkeyword
  cases hopened
  rfl

theorem DocumentTree.yield_inj {d d' : DocumentTree} (h : d.yield = d'.yield) : d = d' := by
  obtain ⟨block⟩ := d
  obtain ⟨block'⟩ := d'
  cases block with
  | none =>
    cases block' with
    | none => rfl
    | some b' => cases h
  | some b =>
    cases block' with
    | none => cases h
    | some b' => rw [BlockTree.yield_inj h]

theorem DocumentTree.document_block_eq_none_iff (t : DocumentTree) :
    t.document.block = none ↔ t.yield = [] := by
  obtain ⟨block⟩ := t
  cases block with
  | none => exact iff_of_true rfl rfl
  | some b => exact iff_of_false nofun nofun

/-- Tokens form a document exactly if their meaningful ones have one parse tree and no other, which
then gives the document; and the document has no block exactly if no token is meaningful. -/
theorem ofLexemes_eq_ok_iff (lexemes : List Lexeme) (d : Document) :
    (Document.ofLexemes lexemes = .ok d ↔
      ∃ t : DocumentTree, (∀ u : DocumentTree, u.yield = meaningful lexemes ↔ u = t) ∧
        t.document = d) ∧
    (Document.ofLexemes lexemes = .ok ⟨none⟩ ↔ meaningful lexemes = []) := by
  constructor
  · constructor
    · intro h
      obtain ⟨t, ht, hd⟩ := document_eq_ok_iff.1 (ofLexemes_eq_ok_iff_document.1 h)
      refine ⟨t, fun u => ?_, hd⟩
      constructor
      · intro hu
        exact DocumentTree.yield_inj (hu.trans ht.symm)
      · intro he
        subst he
        exact ht
    · intro h
      obtain ⟨t, ht, hd⟩ := h
      exact ofLexemes_eq_ok_iff_document.2 (document_eq_ok_iff.2 ⟨t, (ht t).2 rfl, hd⟩)
  · constructor
    · intro h
      obtain ⟨t, ht, hd⟩ := document_eq_ok_iff.1 (ofLexemes_eq_ok_iff_document.1 h)
      rw [← ht, ← t.document_block_eq_none_iff, hd]
    · intro h
      rw [ofLexemes_eq_ok_iff_document, h]
      rfl

end ContextDiagram.Language
