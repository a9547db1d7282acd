import ContextDiagram.Proofs.Language.Reading

namespace ContextDiagram.Language

open Source

/-- Whether a lexeme is a name, a tag or an arrow: what a syntax tree keeps of a source. -/
def Lexeme.isPart (l : Lexeme) : Bool :=
  match l.token with
  | .identifier _ | .arrow _ => true
  | _ => false

theorem Lexeme.isTrivia_of_isPart {l : Lexeme} (h : l.isPart = true) : l.isTrivia = false := by
  obtain ⟨token, span⟩ := l
  cases token with
  | identifier => rfl
  | arrow => rfl
  | _ => cases h

theorem filter_isPart_meaningful (ls : List Lexeme) :
    (meaningful ls).filter Lexeme.isPart = ls.filter Lexeme.isPart := by
  rw [meaningful, List.filter_filter]
  apply List.filter_congr
  intro l _
  cases hl : l.isPart with
  | false => rfl
  | true => rw [Lexeme.isTrivia_of_isPart hl, Bool.not_false, Bool.and_true]

theorem Lexeme.slice?_of_isPart {l : Lexeme} {cs : List Char} (h : l.IsWrittenIn cs)
    (hl : l.isPart = true) : l.span.slice? cs = some l.token.text.toList := by
  obtain ⟨text, hslice, hs⟩ := h
  obtain ⟨token, span⟩ := l
  cases token with
  | identifier name =>
    obtain ⟨rfl, -⟩ := hs
    exact hslice
  | arrow direction =>
    obtain rfl : text = direction.text.toList := hs
    exact hslice
  | _ => cases hl

def arrowLexeme (arrow : Located Direction) : Lexeme :=
  ⟨.arrow arrow.value, arrow.span⟩

namespace Party

def leading (p : Party) : List (Located String) :=
  p.tags.takeWhile fun tag => tag.span.start < p.context.span.start

def trailing (p : Party) : List (Located String) :=
  p.tags.dropWhile fun tag => tag.span.start < p.context.span.start

end Party

/-- The parts of a relationship in the order in which they are written. The tags of the target are
all before its name. -/
def RelationshipClause.parts (r : RelationshipClause) : List Lexeme :=
  (r.source.leading ++ r.source.context :: r.source.trailing).map nameLexeme ++
    arrowLexeme r.arrow :: (r.target.tags ++ [r.target.context]).map nameLexeme

def Statement.parts : Statement → List Lexeme
  | contains names => names.map nameLexeme
  | relationship clause => clause.parts

def Block.parts (b : Block) : List Lexeme :=
  b.name.toList.map nameLexeme ++ b.statements.flatMap Statement.parts

theorem NameSeries.filter_yield (s : NameSeries) :
    s.yield.filter Lexeme.isPart = s.names.map nameLexeme := by
  obtain ⟨first, others⟩ := s
  induction others generalizing first with
  | nil => rfl
  | cons other others ih =>
    obtain ⟨comma, name⟩ := other
    rw [yield_cons]
    exact congrArg (nameLexeme first :: ·) (ih name)

theorem TagGroup.filter_yield? (g : Option TagGroup) :
    (yield? g).filter Lexeme.isPart = (tags? g).map nameLexeme := by
  cases g with
  | none => rfl
  | some g =>
    have hyield : (yield? (some g)).filter Lexeme.isPart =
        (g.tags.yield ++ [(⟨.closeBracket, g.closed⟩ : Lexeme)]).filter Lexeme.isPart := rfl
    rw [hyield, List.filter_append, g.tags.filter_yield]
    exact List.append_nil _

namespace RelationshipTree

theorem filter_yield (r : RelationshipTree) :
    r.yield.filter Lexeme.isPart =
      (TagGroup.tags? r.leading ++ r.source :: TagGroup.tags? r.trailing).map nameLexeme ++
        arrowLexeme r.arrow :: (TagGroup.tags? r.tags ++ [r.target]).map nameLexeme := by
  have hname (name : Located String) : (nameLexeme name).isPart = true := rfl
  have harrow : (arrowLexeme r.arrow).isPart = true := rfl
  rw [arrowLexeme] at harrow ⊢
  simp only [yield, List.filter_append, List.filter_cons_of_pos, TagGroup.filter_yield?, hname,
    harrow, List.filter_nil, List.map_append, List.map_cons, List.map_nil, List.append_assoc,
    List.cons_append]

/-- The place of the name tells the tags before it from those behind it. -/
theorem leading_clause {r : RelationshipTree} (h : r.yield.Pairwise Lexeme.Precedes) :
    r.clause.source.leading = TagGroup.tags? r.leading ∧
      r.clause.source.trailing = TagGroup.tags? r.trailing := by
  have hparts := h.filter Lexeme.isPart
  rw [filter_yield] at hparts
  have hsource := (List.pairwise_append.1 hparts).1
  rw [List.pairwise_map] at hsource
  obtain ⟨-, hbehind, hbefore⟩ := List.pairwise_append.1 hsource
  -- The tags before the name start before it, and the first of those behind it does not.
  apply takeWhile_dropWhile_eq
  · intro tag htag
    exact decide_eq_true (hbefore tag htag r.source List.mem_cons_self).1
  · intro tag htag
    have hlt := ((List.pairwise_cons.1 hbehind).1 tag (List.mem_of_head? htag)).1
    exact decide_eq_false (Nat.lt_asymm hlt)

theorem filter_yield_eq_parts {r : RelationshipTree} (h : r.yield.Pairwise Lexeme.Precedes) :
    r.yield.filter Lexeme.isPart = r.clause.parts := by
  obtain ⟨hleading, htrailing⟩ := leading_clause h
  rw [filter_yield, RelationshipClause.parts, hleading, htrailing]
  rfl

theorem span_clause {r : RelationshipTree} (h : r.yield.Pairwise Lexeme.Precedes) :
    r.clause.span.start = r.source.span.start ∧ r.clause.span.stop = r.target.span.stop := by
  have hparts := h.filter Lexeme.isPart
  rw [filter_yield] at hparts
  have hsource : nameLexeme r.source ∈
      (TagGroup.tags? r.leading ++ r.source :: TagGroup.tags? r.trailing).map nameLexeme :=
    List.mem_map_of_mem (List.mem_append_right _ List.mem_cons_self)
  have htarget : nameLexeme r.target ∈ arrowLexeme r.arrow ::
      (TagGroup.tags? r.tags ++ [r.target]).map nameLexeme :=
    List.mem_cons_of_mem _ (List.mem_map_of_mem (List.mem_append_right _ List.mem_cons_self))
  obtain ⟨hstart, hstop⟩ := (List.pairwise_append.1 hparts).2.2 _ hsource _ htarget
  have hle : r.source.span.stop ≤ r.target.span.stop := hstop.trans r.target.span.start_le_stop
  exact ⟨Nat.min_eq_left hstart.le, Nat.max_eq_right hle⟩

end RelationshipTree

theorem StatementTree.filter_yield_eq_parts {s : StatementTree}
    (h : s.yield.Pairwise Lexeme.Precedes) :
    s.yield.filter Lexeme.isPart = s.statement.parts := by
  cases s with
  | contains keyword names => exact names.filter_yield
  | relationship r => exact RelationshipTree.filter_yield_eq_parts h

theorem filter_flatMap_yield {ss : List StatementTree}
    (h : (ss.flatMap StatementTree.yield).Pairwise Lexeme.Precedes) :
    (ss.flatMap StatementTree.yield).filter Lexeme.isPart =
      (ss.map StatementTree.statement).flatMap Statement.parts := by
  induction ss with
  | nil => rfl
  | cons s ss ih =>
    rw [List.flatMap_cons] at h
    obtain ⟨hs, hss, -⟩ := List.pairwise_append.1 h
    rw [List.flatMap_cons, List.filter_append, StatementTree.filter_yield_eq_parts hs, ih hss]
    rfl

namespace BlockTree

variable {b : BlockTree}

def body (b : BlockTree) : List Lexeme :=
  b.name.toList.map nameLexeme ++ ⟨.openBrace, b.opened⟩ ::
    b.statements.flatMap StatementTree.yield

theorem yield_eq_body (b : BlockTree) :
    b.yield = ⟨.contextMap, b.keyword⟩ :: (b.body ++ [⟨.closeBrace, b.closed⟩]) := by
  rw [yield, body, List.append_assoc, List.cons_append]

theorem head?_yield (b : BlockTree) : b.yield.head? = some ⟨.contextMap, b.keyword⟩ := rfl

theorem getLast?_yield (b : BlockTree) : b.yield.getLast? = some ⟨.closeBrace, b.closed⟩ := by
  rw [yield_eq_body, ← List.cons_append, List.getLast?_concat]

theorem filter_body_eq_parts (h : b.yield.Pairwise Lexeme.Precedes) :
    b.body.filter Lexeme.isPart = b.block.parts := by
  rw [yield_eq_body] at h
  obtain ⟨hbody, -, -⟩ := List.pairwise_append.1 (List.pairwise_cons.1 h).2
  obtain ⟨-, hstatements, -⟩ := List.pairwise_append.1 hbody
  have hname : (b.name.toList.map nameLexeme).filter Lexeme.isPart =
      b.name.toList.map nameLexeme := by
    cases b.name with
    | none => rfl
    | some name => rfl
  rw [body, List.filter_append, hname, List.filter_cons_of_neg Bool.false_ne_true,
    filter_flatMap_yield (List.pairwise_cons.1 hstatements).2]
  rfl

theorem filter_yield_eq_parts (h : b.yield.Pairwise Lexeme.Precedes) :
    b.yield.filter Lexeme.isPart = b.block.parts := by
  rw [← filter_body_eq_parts h, yield_eq_body, List.filter_cons_of_neg Bool.false_ne_true,
    List.filter_append]
  exact List.append_nil _

theorem pairwise_parts (h : b.yield.Pairwise Lexeme.Precedes) :
    (⟨.contextMap, b.keyword⟩ ::
      (b.block.parts ++ [⟨.closeBrace, b.closed⟩])).Pairwise Lexeme.Precedes := by
  rw [← filter_body_eq_parts h]
  rw [yield_eq_body] at h
  exact List.Pairwise.sublist ((List.filter_sublist.append (.refl _)).cons_cons _) h

theorem span_block (h : b.yield.Pairwise Lexeme.Precedes) :
    b.block.span.start = b.keyword.start ∧ b.block.span.stop = b.closed.stop := by
  have hclosed := (List.pairwise_cons.1 (pairwise_parts h)).1 _
    (List.mem_append_right _ List.mem_cons_self)
  obtain ⟨hstart, hstop⟩ := hclosed
  have hle : b.keyword.stop ≤ b.closed.stop := hstop.trans b.closed.start_le_stop
  exact ⟨Nat.min_eq_left hstart.le, Nat.max_eq_right hle⟩

theorem span_parts (h : b.yield.Pairwise Lexeme.Precedes) :
    ∀ part ∈ b.block.parts,
      b.block.span.start ≤ part.span.start ∧ part.span.stop ≤ b.block.span.stop := by
  intro part hpart
  obtain ⟨hafter, hbefore⟩ := List.pairwise_cons.1 (pairwise_parts h)
  have hbehind := hafter part (List.mem_append_left _ hpart)
  have hahead := (List.pairwise_append.1 hbefore).2.2 part hpart _ List.mem_cons_self
  obtain ⟨hstart, hstop⟩ := span_block h
  rw [hstart, hstop]
  exact ⟨hbehind.1.le, hahead.2.trans b.closed.start_le_stop⟩

theorem exists_relationshipTree {clause : RelationshipClause}
    (h : clause ∈ Document.clauses ⟨some b.block⟩) :
    ∃ r : RelationshipTree, r.clause = clause ∧ r.yield <:+: b.yield := by
  obtain ⟨statement, hstatement, hclause⟩ := List.mem_filterMap.1 h
  obtain ⟨s, hs, rfl⟩ := List.mem_map.1 hstatement
  cases s with
  | contains keyword names => cases hclause
  | relationship r =>
    cases hclause
    refine ⟨r, rfl, ?_⟩
    have hr : StatementTree.yield (.relationship r) <:+:
        b.statements.flatMap StatementTree.yield :=
      List.infix_of_mem_flatten (List.mem_map_of_mem hs)
    have hbody : b.statements.flatMap StatementTree.yield <:+: b.body :=
      ((List.suffix_cons _ _).trans (List.suffix_append _ _)).isInfix
    have hyield : b.body <:+: b.yield := by
      rw [yield_eq_body]
      exact (List.prefix_append _ _).isInfix.trans (List.suffix_cons _ _).isInfix
    exact (hr.trans hbody).trans hyield

end BlockTree

theorem exists_blockTree_of_readDocument {source : String} {b : Block}
    (h : readDocument source = .ok ⟨some b⟩) :
    ∃ (ls : List Lexeme) (t : BlockTree), Cuts 0 source.toList ls ∧ t.yield = meaningful ls ∧
      t.block = b ∧ t.yield.Pairwise Lexeme.Precedes := by
  obtain ⟨ls, hls, hd⟩ := readDocument_eq_ok_iff.1 h
  obtain ⟨⟨block⟩, ht, hblock⟩ := document_eq_ok_iff.1 hd
  cases block with
  | none => cases hblock
  | some t =>
    cases hblock
    have hyield : t.yield = meaningful ls := ht
    have hcuts := scan_eq_ok_iff_cuts.1 hls
    have hpairwise := hcuts.tiles.pairwise_precedes.filter fun l => !l.isTrivia
    exact ⟨ls, t, hcuts, hyield, rfl, hyield ▸ hpairwise⟩

/-- The parts of the block in a source text are the names and arrows of the text, each over its own
text, one behind the other as they are written. The block starts at the keyword before them and ends
at the closing brace behind them, and a relationship starts at its source and ends at its target. -/
theorem parts_of_readDocument {source : String} {b : Block}
    (h : readDocument source = .ok ⟨some b⟩) :
    ∃ ls keyword closed, scan source = .ok ls ∧
      (meaningful ls).head? = some ⟨.contextMap, keyword⟩ ∧
      (meaningful ls).getLast? = some ⟨.closeBrace, closed⟩ ∧
      keyword.slice? source.toList = some "ContextMap".toList ∧
      closed.slice? source.toList = some ['}'] ∧
      b.span.start = keyword.start ∧ b.span.stop = closed.stop ∧
      b.parts = ls.filter Lexeme.isPart ∧
      (⟨.contextMap, keyword⟩ :: (b.parts ++ [⟨.closeBrace, closed⟩])).Pairwise Lexeme.Precedes ∧
      (∀ part ∈ b.parts, part.span.slice? source.toList = some part.token.text.toList ∧
        part.span.start < part.span.stop ∧
        b.span.start ≤ part.span.start ∧ part.span.stop ≤ b.span.stop) ∧
      ∀ clause ∈ Document.clauses ⟨some b⟩,
        clause.span.start = clause.source.context.span.start ∧
          clause.span.stop = clause.target.context.span.stop := by
  obtain ⟨ls, t, hcuts, hyield, rfl, hpairwise⟩ := exists_blockTree_of_readDocument h
  have hhead := t.head?_yield
  have hlast := t.getLast?_yield
  have hparts := BlockTree.filter_yield_eq_parts hpairwise
  rw [hyield] at hhead hlast hparts
  rw [filter_isPart_meaningful] at hparts
  have hwritten : ∀ l ∈ ls, l.IsWrittenIn source.toList := Cuts.isWrittenIn [] hcuts
  have hmem {l : Lexeme} (hl : l ∈ meaningful ls) : l ∈ ls := (List.mem_filter.1 hl).1
  obtain ⟨keyword, hkeyword, rfl⟩ := hwritten _ (hmem (List.mem_of_head? hhead))
  obtain ⟨closed, hclosed, rfl⟩ := hwritten _ (hmem (List.mem_of_getLast? hlast))
  obtain ⟨hstart, hstop⟩ := BlockTree.span_block hpairwise
  refine ⟨ls, t.keyword, t.closed, scan_eq_ok_iff_cuts.2 hcuts, hhead, hlast, hkeyword, hclosed,
    hstart, hstop, hparts.symm, BlockTree.pairwise_parts hpairwise, ?_, ?_⟩
  · intro part hpart
    have hinside := BlockTree.span_parts hpairwise part hpart
    rw [← hparts] at hpart
    obtain ⟨hl, hispart⟩ := List.mem_filter.1 hpart
    exact ⟨Lexeme.slice?_of_isPart (hwritten part hl) hispart, hcuts.tiles.start_lt_stop part hl,
      hinside⟩
  · intro clause hclause
    obtain ⟨r, rfl, hr⟩ := BlockTree.exists_relationshipTree hclause
    exact RelationshipTree.span_clause (List.Pairwise.sublist hr.sublist hpairwise)

theorem parts_of_readDocument_comment : ∃ b keyword closed,
    readDocument "/*é*/ContextMap M \x7b contains A [U] A [D] -> [C] B \x7d" = .ok ⟨some b⟩ ∧
      b.parts.map (fun part => (part.token.text, part.span.start)) =
        [("M", 17), ("A", 30), ("U", 33), ("A", 36), ("D", 39), ("->", 42), ("C", 46),
          ("B", 49)] ∧
      b.span.start = keyword.start ∧ b.span.stop = closed.stop ∧
      (⟨.contextMap, keyword⟩ ::
        (b.parts ++ [⟨.closeBrace, closed⟩])).Pairwise Lexeme.Precedes := by
  have h : (do
      let d ← readDocument "/*é*/ContextMap M \x7b contains A [U] A [D] -> [C] B \x7d"
      return d.block.map fun b : Block =>
        b.parts.map fun part : Lexeme => (part.token.text, part.span.start)) =
        .ok (some [("M", 17), ("A", 30), ("U", 33), ("A", 36), ("D", 39), ("->", 42), ("C", 46),
          ("B", 49)]) := by
    decide +kernel
  obtain ⟨⟨block⟩, hread, hd⟩ := Except.bind_eq_ok_iff.1 h
  obtain ⟨b, rfl, hparts⟩ := Option.map_eq_some_iff.1 (Except.pure_eq_ok_iff.1 hd)
  obtain ⟨-, keyword, closed, -, -, -, -, -, hstart, hstop, -, horder, -⟩ :=
    parts_of_readDocument hread
  exact ⟨b, keyword, closed, hread, hparts, hstart, hstop, horder⟩

end ContextDiagram.Language
