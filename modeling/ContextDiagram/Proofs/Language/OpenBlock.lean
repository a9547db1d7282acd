import ContextDiagram.Proofs.Language.Unfinished
import Mathlib.Data.List.Basic

namespace ContextDiagram.Language

open Source

def Token.isListed : Token → Bool
  | identifier _ | comma => true
  | _ => false

/-- The last token that is neither a name nor a comma. -/
def lastSign (ls : List Lexeme) : Option Lexeme :=
  ls.reverse.find? fun l => !l.token.isListed

/-- Whether the names at the end of tokens, if there are any, do not stand behind a bracket. -/
def TagsClosed (ls : List Lexeme) : Prop :=
  ∀ l ∈ lastSign ls, l.token ≠ .openBracket

def Token.isInner : Token → Bool
  | contains | identifier _ | arrow _ | openBracket | closeBracket | comma => true
  | _ => false

def openBlock (keyword : Span) (name : Option (Located String)) (opened : Span)
    (ss : List StatementTree) : List Lexeme :=
  ⟨.contextMap, keyword⟩ :: (name.toList.map nameLexeme ++
    ⟨.openBrace, opened⟩ :: ss.flatMap StatementTree.yield)

/-- What is known of the tokens before a mistake in a document. -/
def Mistake.Marks (before : List Lexeme) : Mistake → Prop
  | unexpected _ _ => ∀ opened, ¬EndsInTags opened before
  | unclosedTagList opened rest =>
    EndsInTags opened before ∧ NextIsNot .comma rest ∧ NextIsNot .closeBracket rest
  | unclosedBlock opened => ∃ keyword name ss, before = openBlock keyword name opened ss

variable {ls ms : List Lexeme} {l : Lexeme} {opened : Span} {mistake : Mistake}

theorem lastSign_append (ls ms : List Lexeme) :
    lastSign (ls ++ ms) = (lastSign ms).or (lastSign ls) := by
  rw [lastSign, List.reverse_append, List.find?_append]
  rfl

theorem lastSign_yield (s : NameSeries) : lastSign s.yield = none := by
  rw [lastSign, List.find?_eq_none]
  intro l hl
  rw [List.mem_reverse, NameSeries.yield, List.mem_cons, List.mem_flatMap] at hl
  rcases hl with rfl | ⟨other, -, hl⟩
  · nofun
  · rcases List.mem_pair.1 hl with rfl | rfl <;> nofun

theorem EndsInTags.lastSign (h : EndsInTags opened ls) :
    Language.lastSign ls = some ⟨.openBracket, opened⟩ := by
  obtain ⟨front, s, rfl⟩ := h
  rw [List.append_cons, lastSign_append, lastSign_yield, lastSign_append]
  rfl

theorem TagsClosed.not_endsInTags (h : TagsClosed ls) : ¬EndsInTags opened ls :=
  fun htags => h _ htags.lastSign rfl

theorem NameSeries.getLast?_yield (s : NameSeries) :
    ∃ name, s.yield.getLast? = some (nameLexeme name) := by
  obtain ⟨first, others⟩ := s
  induction others generalizing first with
  | nil => exact ⟨first, rfl⟩
  | cons other others ih =>
    obtain ⟨comma, name⟩ := other
    obtain ⟨last, hlast⟩ := ih name
    refine ⟨last, ?_⟩
    rw [yield_cons, List.getLast?_cons_cons, List.getLast?_cons, hlast]
    rfl

theorem EndsInSign.not_endsInTags (h : EndsInSign ls) : ¬EndsInTags opened ls := by
  intro htags
  obtain ⟨l, hlast, hl⟩ := h
  obtain ⟨front, s, rfl⟩ := htags
  obtain ⟨name, hname⟩ := s.getLast?_yield
  rw [List.getLast?_append, List.getLast?_cons, hname] at hlast
  cases hlast
  exact hl name.value rfl

theorem TagsClosed.append (hls : TagsClosed ls) (hms : TagsClosed ms) : TagsClosed (ls ++ ms) := by
  intro l hl
  rw [lastSign_append] at hl
  cases hlast : lastSign ms with
  | none =>
    rw [hlast] at hl
    exact hls l hl
  | some m =>
    rw [hlast] at hl
    cases hl
    exact hms l hlast

theorem tagsClosed_nil : TagsClosed [] :=
  nofun

theorem tagsClosed_singleton (h : l.token ≠ .openBracket) : TagsClosed [l] := by
  intro m hm
  rw [List.mem_singleton.1 (List.mem_of_find?_eq_some hm)]
  exact h

theorem TagsClosed.cons (hls : TagsClosed ls) (h : l.token ≠ .openBracket) :
    TagsClosed (l :: ls) :=
  (tagsClosed_singleton h).append hls

theorem tagsClosed_series (s : NameSeries) : TagsClosed s.yield := by
  rw [TagsClosed, lastSign_yield]
  nofun

theorem tagsClosed_group (g : Option TagGroup) : TagsClosed (TagGroup.yield? g) := by
  cases g with
  | none => exact tagsClosed_nil
  | some g =>
    intro l hl
    rw [TagGroup.yield?, TagGroup.yield, ← List.cons_append, lastSign_append] at hl
    cases hl
    intro h
    cases h

theorem tagsClosed_statement (s : StatementTree) : TagsClosed s.yield := by
  cases s with
  | contains keyword names => exact (tagsClosed_series names).cons nofun
  | relationship r =>
    have htarget : TagsClosed [nameLexeme r.target] := tagsClosed_singleton nofun
    have harrow := ((tagsClosed_group r.tags).append htarget).cons
      (l := ⟨.arrow r.arrow.value, r.arrow.span⟩) nofun
    have hsource := ((tagsClosed_group r.trailing).append harrow).cons
      (l := nameLexeme r.source) nofun
    exact (tagsClosed_group r.leading).append hsource

theorem tagsClosed_statements (ss : List StatementTree) :
    TagsClosed (ss.flatMap StatementTree.yield) := by
  induction ss with
  | nil => exact tagsClosed_nil
  | cons s ss ih =>
    rw [List.flatMap_cons]
    exact (tagsClosed_statement s).append ih

theorem tagsClosed_name (name : Option (Located String)) :
    TagsClosed (name.toList.map nameLexeme) := by
  cases name with
  | none => exact tagsClosed_nil
  | some name => exact tagsClosed_singleton nofun

theorem tagsClosed_openBlock (keyword opened : Span) (name : Option (Located String))
    (ss : List StatementTree) : TagsClosed (openBlock keyword name opened ss) := by
  have hopened := (tagsClosed_statements ss).cons (l := ⟨.openBrace, opened⟩) nofun
  rw [openBlock]
  exact ((tagsClosed_name name).append hopened).cons nofun

theorem BlockTree.yield_eq (b : BlockTree) :
    b.yield = openBlock b.keyword b.name b.opened b.statements ++ [⟨.closeBrace, b.closed⟩] := by
  rw [yield, openBlock, List.cons_append, List.append_assoc, List.cons_append]

theorem openBlock_append (keyword opened : Span) (name : Option (Located String))
    (ss : List StatementTree) (rest : List Lexeme) :
    openBlock keyword name opened ss ++ rest =
      ⟨.contextMap, keyword⟩ :: (name.toList.map nameLexeme ++
        ⟨.openBrace, opened⟩ :: (ss.flatMap StatementTree.yield ++ rest)) := by
  rw [openBlock, List.cons_append, List.append_assoc, List.cons_append]

theorem openBlock_concat (keyword opened : Span) (name : Option (Located String))
    (ss : List StatementTree) (s : StatementTree) :
    openBlock keyword name opened (ss ++ [s]) = openBlock keyword name opened ss ++ s.yield := by
  rw [openBlock_append, openBlock, List.flatMap_append, List.flatMap_singleton]

theorem document_openBlock_append (keyword opened closed : Span) (name : Option (Located String))
    (ss : List StatementTree) :
    ∃ d, document (openBlock keyword name opened ss ++ [⟨.closeBrace, closed⟩]) = .ok d := by
  have hd := document_yield ⟨some ⟨keyword, name, opened, ss, closed⟩⟩
  change document (BlockTree.yield _) = _ at hd
  rw [BlockTree.yield_eq] at hd
  exact ⟨_, hd⟩

theorem document_openBlock (keyword opened : Span) (name : Option (Located String))
    (ss : List StatementTree) :
    document (openBlock keyword name opened ss) = .error (.unclosedBlock opened) := by
  have hstatements : statements (ss.flatMap StatementTree.yield ++ []) =
      .ok (ss.map StatementTree.statement, []) := statements_yield_append ss nofun rfl
  rw [List.append_nil] at hstatements
  rw [openBlock, document, blockName_append]
  dsimp only
  rw [hstatements]
  rfl

theorem exists_openBlock_of_append {closed : Span} {d : Document}
    (h : document (ls ++ [⟨.closeBrace, closed⟩]) = .ok d) :
    ∃ keyword name opened ss, ls = openBlock keyword name opened ss := by
  obtain ⟨⟨block⟩, ht, -⟩ := exists_tree_of_document h
  cases block with
  | none => exact absurd ht.symm (List.append_ne_nil_of_right_ne_nil _ (List.cons_ne_nil _ _))
  | some b =>
    have hyield : b.yield = ls ++ [⟨.closeBrace, closed⟩] := ht
    rw [b.yield_eq] at hyield
    exact ⟨b.keyword, b.name, b.opened, b.statements, (List.append_inj_left' hyield rfl).symm⟩

theorem Mistake.Follows.marks (h : mistake.Follows ls) : mistake.Marks ls := by
  cases mistake with
  | unexpected expected rest => exact fun opened => EndsInSign.not_endsInTags h
  | unclosedTagList opened rest => exact h
  | unclosedBlock opened => exact h.elim

/-- The tokens before a mistake are the first part of a document, and the mistake says what is open
at their end. -/
theorem document_error (h : document ls = .error mistake) :
    ∃ before, ls = before ++ mistake.rest ∧ mistake.Marks before ∧
      ∃ more d, document (before ++ more) = .ok d := by
  unfold document at h
  split at h
  · cases h
  · next keyword ls =>
    split at h
    · next name opened ls hname =>
      rw [eq_append_of_blockName hname]
      rcases Except.bind_eq_error_iff.1 h with hs | ⟨⟨found, rest⟩, hs, hf⟩
      · obtain ⟨ss, rest, rfl, hrest⟩ := exists_trees_of_statements_error hs
        have hfails : FailsInside (fun text => ∃ d, document text = .ok d)
            (openBlock keyword name opened ss ++ rest) mistake := by
          apply (failsInside_statement? hrest).prepend
          rintro text ⟨s, rfl⟩
          refine ⟨[⟨.closeBrace, opened⟩], ?_⟩
          rw [← List.append_assoc, ← openBlock_concat]
          exact document_openBlock_append ..
        obtain ⟨part, hpart, hfollows, more, hmore⟩ := hfails
        rw [← openBlock_append]
        exact ⟨part, hpart, hfollows.marks, more, hmore⟩
      · obtain ⟨ss, rfl, -⟩ := exists_trees_of_statements hs
        rw [← openBlock_append]
        have hsettled := tagsClosed_openBlock keyword opened name ss
        split at hf
        · next hp =>
          cases hp
          cases hf
          exact ⟨_, rfl, ⟨keyword, name, ss, rfl⟩, _, document_openBlock_append _ _ opened _ _⟩
        · cases hf
        · next closed rest _ hp =>
          cases hp
          cases hf
          have hsign := endsInSign_concat (openBlock keyword name opened ss)
            (l := ⟨.closeBrace, closed⟩) nofun
          obtain ⟨d, hd⟩ := document_openBlock_append keyword opened closed name ss
          refine ⟨_, List.append_cons .., fun _ => hsign.not_endsInTags, [], d, ?_⟩
          rwa [List.append_nil]
        · next hp =>
          cases hp
          cases hf
          exact ⟨_, rfl, fun _ => hsettled.not_endsInTags, _,
            document_openBlock_append _ _ opened _ _⟩
    · next name rest hopened hname =>
      cases h
      rw [eq_append_of_blockName hname]
      have hclosed := (tagsClosed_name name).cons (l := ⟨.contextMap, keyword⟩) nofun
      refine ⟨⟨.contextMap, keyword⟩ :: name.toList.map nameLexeme, rfl,
        fun _ => hclosed.not_endsInTags, [⟨.openBrace, keyword⟩, ⟨.closeBrace, keyword⟩], ?_⟩
      have hd := document_openBlock_append keyword keyword keyword name []
      rwa [openBlock_append] at hd
  · cases h
    exact ⟨[], rfl, fun opened => tagsClosed_nil.not_endsInTags, [], _, rfl⟩

theorem isInner_of_mem_series {s : NameSeries} : ∀ l ∈ s.yield, l.token.isInner = true := by
  rw [NameSeries.yield, List.forall_mem_cons, List.forall_mem_flatMap]
  refine ⟨rfl, ?_⟩
  intro other _ l hl
  rcases List.mem_pair.1 hl with rfl | rfl <;> rfl

theorem isInner_of_mem_group {g : Option TagGroup} :
    ∀ l ∈ TagGroup.yield? g, l.token.isInner = true := by
  cases g with
  | none => nofun
  | some g =>
    rw [TagGroup.yield?, TagGroup.yield, List.forall_mem_cons, List.forall_mem_append,
      List.forall_mem_singleton]
    exact ⟨rfl, isInner_of_mem_series, rfl⟩

theorem isInner_of_mem_statement {s : StatementTree} : ∀ l ∈ s.yield, l.token.isInner = true := by
  cases s with
  | contains keyword names =>
    rw [StatementTree.yield, List.forall_mem_cons]
    exact ⟨rfl, isInner_of_mem_series⟩
  | relationship r =>
    rw [StatementTree.yield, RelationshipTree.yield, List.forall_mem_append, List.forall_mem_cons,
      List.forall_mem_append, List.forall_mem_cons, List.forall_mem_append,
      List.forall_mem_singleton]
    exact ⟨isInner_of_mem_group, rfl, isInner_of_mem_group, rfl, isInner_of_mem_group, rfl⟩

theorem isInner_of_mem_statements {ss : List StatementTree} :
    ∀ l ∈ ss.flatMap StatementTree.yield, l.token.isInner = true := by
  rw [List.forall_mem_flatMap]
  intro s _
  exact isInner_of_mem_statement

theorem Token.isTrivia_of_isInner {t : Token} (h : t.isInner = true) : t.isTrivia = false := by
  cases t with
  | blockComment body => cases h
  | lineComment body => cases h
  | blanks => cases h
  | newline => cases h
  | _ => rfl

theorem meaningful_of_document {d : Document} (h : document ls = .ok d) : meaningful ls = ls := by
  obtain ⟨⟨block⟩, rfl, -⟩ := exists_tree_of_document h
  cases block with
  | none => rfl
  | some b =>
    change meaningful b.yield = b.yield
    rw [meaningful, List.filter_eq_self, BlockTree.yield, List.forall_mem_cons,
      List.forall_mem_append, List.forall_mem_cons, List.forall_mem_append,
      List.forall_mem_singleton]
    refine ⟨rfl, ?_, rfl, ?_, rfl⟩
    · intro l hl
      obtain ⟨name, -, rfl⟩ := List.mem_map.1 hl
      rfl
    · intro l hl
      rw [Lexeme.isTrivia, Token.isTrivia_of_isInner (isInner_of_mem_statements l hl)]
      rfl

end ContextDiagram.Language
