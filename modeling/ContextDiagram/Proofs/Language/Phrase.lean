import ContextDiagram.Proofs.Language.ParseTree

namespace ContextDiagram.Language

open Source

/-- A statement without its place in a source. The tags of a source context may be split between a
list before its name and a list behind it. -/
inductive Phrase
  | contains (first : String) (others : List String)
  | relationship (leading : List String) (source : String) (trailing : List String)
      (direction : Direction) (tags : List String) (target : String)
deriving DecidableEq, Repr

def seriesTokens (first : String) (others : List String) : List Token :=
  .identifier first :: others.flatMap fun name => [.comma, .identifier name]

theorem seriesTokens_cons (first other : String) (others : List String) :
    seriesTokens first (other :: others) =
      .identifier first :: .comma :: seriesTokens other others := rfl

def bracketed : List String → List Token
  | [] => []
  | first :: others => .openBracket :: (seriesTokens first others ++ [.closeBracket])

namespace Phrase

def tokens : Phrase → List Token
  | contains first others => .contains :: seriesTokens first others
  | relationship leading source trailing direction tags target =>
    bracketed leading ++ .identifier source :: (bracketed trailing ++
      .arrow direction :: (bracketed tags ++ [.identifier target]))

def declared : Phrase → List String
  | contains first others => first :: others
  | relationship .. => []

def relationship? : Phrase → Option Relationship
  | contains .. => none
  | relationship leading source trailing direction tags target =>
    some ⟨⟨source, leading ++ trailing⟩, direction, ⟨target, tags⟩⟩

end Phrase

def blockTokens (name : Option String) (phrases : List Phrase) : List Token :=
  .contextMap :: (name.toList.map .identifier ++
    .openBrace :: (phrases.flatMap Phrase.tokens ++ [.closeBrace]))

/-- Whether some phrases declare the contexts of a map and state its relationships, each in the
order of the map and with the repetitions of the map. -/
def Describes (phrases : List Phrase) (m : ContextMap) : Prop :=
  m.contexts = (phrases.flatMap Phrase.declared).map (fun id => { id := id }) ∧
    m.relationships = phrases.filterMap Phrase.relationship?

theorem NameSeries.map_token_yield (s : NameSeries) :
    s.yield.map Lexeme.token = seriesTokens s.first.value (s.others.map fun o => o.2.value) := by
  simp only [yield, seriesTokens, nameLexeme, List.map_cons, List.map_flatMap, List.flatMap_map,
    List.map_nil]

theorem exists_series_of_map_token {first : String} {others : List String} {ls : List Lexeme}
    (h : ls.map Lexeme.token = seriesTokens first others) :
    ∃ s : NameSeries, s.yield = ls ∧ s.names.map Located.value = first :: others := by
  induction others generalizing first ls with
  | nil =>
    obtain ⟨⟨t, span⟩, ls, rfl, ht, hls⟩ := List.map_eq_cons_iff.1 h
    obtain rfl := List.map_eq_nil_iff.1 hls
    obtain rfl : t = .identifier first := ht
    exact ⟨⟨⟨first, span⟩, []⟩, rfl, rfl⟩
  | cons other others ih =>
    rw [seriesTokens_cons] at h
    obtain ⟨⟨t, span⟩, ls, rfl, ht, hls⟩ := List.map_eq_cons_iff.1 h
    obtain ⟨⟨u, comma⟩, ls, rfl, hu, hls'⟩ := List.map_eq_cons_iff.1 hls
    obtain rfl : t = .identifier first := ht
    obtain rfl : u = .comma := hu
    obtain ⟨s, rfl, hs⟩ := ih hls'
    refine ⟨⟨⟨first, span⟩, (comma, s.first) :: s.others⟩, rfl, ?_⟩
    rw [← hs]
    rfl

theorem TagGroup.map_token_yield? (g : Option TagGroup) :
    (yield? g).map Lexeme.token = bracketed ((tags? g).map Located.value) := by
  cases g with
  | none => rfl
  | some g =>
    change (yield g).map Lexeme.token = bracketed (g.tags.names.map Located.value)
    simp only [yield, List.map_cons, List.map_append, NameSeries.map_token_yield, NameSeries.names,
      bracketed, List.map_map, List.map_nil]
    rfl

theorem exists_group_of_map_token {tags : List String} {ls : List Lexeme}
    (h : ls.map Lexeme.token = bracketed tags) :
    ∃ g, TagGroup.yield? g = ls ∧ (TagGroup.tags? g).map Located.value = tags := by
  cases tags with
  | nil =>
    obtain rfl := List.map_eq_nil_iff.1 h
    exact ⟨none, rfl, rfl⟩
  | cons first others =>
    obtain ⟨⟨t, opened⟩, ls, rfl, ht, hls⟩ := List.map_eq_cons_iff.1 h
    obtain ⟨ls₁, ls₂, rfl, hls₁, hls₂⟩ := List.map_eq_append_iff.1 hls
    obtain ⟨⟨u, closed⟩, rfl, hu⟩ := List.map_eq_singleton_iff.1 hls₂
    obtain rfl : t = .openBracket := ht
    obtain rfl : u = .closeBracket := hu
    obtain ⟨s, rfl, hs⟩ := exists_series_of_map_token hls₁
    exact ⟨some ⟨opened, s, closed⟩, rfl, hs⟩

def StatementTree.phrase : StatementTree → Phrase
  | contains _ names => .contains names.first.value (names.others.map fun o => o.2.value)
  | relationship r =>
    .relationship ((TagGroup.tags? r.leading).map Located.value) r.source.value
      ((TagGroup.tags? r.trailing).map Located.value) r.arrow.value
      ((TagGroup.tags? r.tags).map Located.value) r.target.value

theorem StatementTree.map_token_yield (s : StatementTree) :
    s.yield.map Lexeme.token = s.phrase.tokens := by
  cases s with
  | contains keyword names =>
    rw [yield, List.map_cons, names.map_token_yield]
    rfl
  | relationship r =>
    simp only [yield, RelationshipTree.yield, phrase, Phrase.tokens, List.map_append, List.map_cons,
      TagGroup.map_token_yield?, List.map_nil, nameLexeme]

theorem exists_statement_of_map_token {p : Phrase} {ls : List Lexeme}
    (h : ls.map Lexeme.token = p.tokens) :
    ∃ s : StatementTree, s.yield = ls ∧ s.phrase = p := by
  cases p with
  | contains first others =>
    obtain ⟨⟨t, keyword⟩, ls, rfl, ht, hls⟩ := List.map_eq_cons_iff.1 h
    obtain rfl : t = .contains := ht
    obtain ⟨s, rfl, hs⟩ := exists_series_of_map_token hls
    obtain ⟨hfirst, hothers⟩ := List.cons.inj hs
    refine ⟨.contains keyword s, rfl, ?_⟩
    rw [StatementTree.phrase, ← hfirst, ← hothers, List.map_map]
    rfl
  | relationship leading source trailing direction tags target =>
    obtain ⟨ls₁, ls, rfl, h₁, hls⟩ := List.map_eq_append_iff.1 h
    obtain ⟨⟨t, sourceSpan⟩, ls, rfl, ht, hls⟩ := List.map_eq_cons_iff.1 hls
    obtain ⟨ls₂, ls, rfl, h₂, hls⟩ := List.map_eq_append_iff.1 hls
    obtain ⟨⟨u, arrowSpan⟩, ls, rfl, hu, hls⟩ := List.map_eq_cons_iff.1 hls
    obtain ⟨ls₃, ls, rfl, h₃, hls⟩ := List.map_eq_append_iff.1 hls
    obtain ⟨⟨v, targetSpan⟩, rfl, hv⟩ := List.map_eq_singleton_iff.1 hls
    obtain rfl : t = .identifier source := ht
    obtain rfl : u = .arrow direction := hu
    obtain rfl : v = .identifier target := hv
    obtain ⟨g₁, rfl, rfl⟩ := exists_group_of_map_token h₁
    obtain ⟨g₂, rfl, rfl⟩ := exists_group_of_map_token h₂
    obtain ⟨g₃, rfl, rfl⟩ := exists_group_of_map_token h₃
    exact ⟨.relationship ⟨g₁, ⟨source, sourceSpan⟩, g₂, ⟨direction, arrowSpan⟩, g₃,
      ⟨target, targetSpan⟩⟩, rfl, rfl⟩

theorem exists_statements_of_map_token {phrases : List Phrase} {ls : List Lexeme}
    (h : ls.map Lexeme.token = phrases.flatMap Phrase.tokens) :
    ∃ ss : List StatementTree, ss.flatMap StatementTree.yield = ls ∧
      ss.map StatementTree.phrase = phrases := by
  induction phrases generalizing ls with
  | nil =>
    obtain rfl := List.map_eq_nil_iff.1 h
    exact ⟨[], rfl, rfl⟩
  | cons p phrases ih =>
    rw [List.flatMap_cons] at h
    obtain ⟨ls₁, ls₂, rfl, h₁, h₂⟩ := List.map_eq_append_iff.1 h
    obtain ⟨s, rfl, rfl⟩ := exists_statement_of_map_token h₁
    obtain ⟨ss, rfl, rfl⟩ := ih h₂
    exact ⟨s :: ss, rfl, rfl⟩

theorem BlockTree.map_token_yield (b : BlockTree) :
    b.yield.map Lexeme.token =
      blockTokens (b.name.map Located.value) (b.statements.map StatementTree.phrase) := by
  have hname : (b.name.toList.map nameLexeme).map Lexeme.token =
      (b.name.map Located.value).toList.map Token.identifier := by
    cases b.name <;> rfl
  simp only [yield, blockTokens, List.map_cons, List.map_append, hname, List.map_flatMap,
    List.flatMap_map, StatementTree.map_token_yield, List.map_nil]

theorem exists_block_of_map_token {name : Option String} {phrases : List Phrase}
    {ls : List Lexeme} (h : ls.map Lexeme.token = blockTokens name phrases) :
    ∃ b : BlockTree, b.yield = ls ∧ b.name.map Located.value = name ∧
      b.statements.map StatementTree.phrase = phrases := by
  obtain ⟨⟨t, keyword⟩, ls, rfl, ht, hls⟩ := List.map_eq_cons_iff.1 h
  obtain ⟨ls₁, ls, rfl, h₁, hls⟩ := List.map_eq_append_iff.1 hls
  obtain ⟨⟨u, opened⟩, ls, rfl, hu, hls⟩ := List.map_eq_cons_iff.1 hls
  obtain ⟨ls₂, ls, rfl, h₂, hls⟩ := List.map_eq_append_iff.1 hls
  obtain ⟨⟨v, closed⟩, rfl, hv⟩ := List.map_eq_singleton_iff.1 hls
  obtain rfl : t = .contextMap := ht
  obtain rfl : u = .openBrace := hu
  obtain rfl : v = .closeBrace := hv
  obtain ⟨ss, rfl, rfl⟩ := exists_statements_of_map_token h₂
  cases name with
  | none =>
    obtain rfl := List.map_eq_nil_iff.1 h₁
    exact ⟨⟨keyword, none, opened, ss, closed⟩, rfl, rfl, rfl⟩
  | some name =>
    obtain ⟨⟨w, nameSpan⟩, rfl, hw⟩ := List.map_eq_singleton_iff.1 h₁
    obtain rfl : w = .identifier name := hw
    exact ⟨⟨keyword, some ⟨name, nameSpan⟩, opened, ss, closed⟩, rfl, rfl, rfl⟩

theorem StatementTree.map_value_declarations (s : StatementTree) :
    s.statement.declarations.map Located.value = s.phrase.declared := by
  cases s with
  | contains keyword names =>
    change names.first.value :: (names.others.map Prod.snd).map Located.value = _
    rw [List.map_map]
    rfl
  | relationship r => rfl

theorem StatementTree.map_relationship_clause? (s : StatementTree) :
    s.statement.clause?.map RelationshipClause.relationship = s.phrase.relationship? := by
  cases s with
  | contains keyword names => rfl
  | relationship r =>
    simp only [statement, Statement.clause?, phrase, Phrase.relationship?, RelationshipTree.clause,
      RelationshipClause.relationship, Party.endpoint, List.map_append, Option.map_some]

theorem BlockTree.describes (b : BlockTree) :
    Describes (b.statements.map StatementTree.phrase)
      (DocumentTree.document ⟨some b⟩).contextMap := by
  have hdeclared : ((b.statements.map StatementTree.statement).flatMap
      Statement.declarations).map Located.value =
        (b.statements.map StatementTree.phrase).flatMap Phrase.declared := by
    simp only [List.flatMap_map, List.map_flatMap, StatementTree.map_value_declarations]
  have hstated : ((b.statements.map StatementTree.statement).filterMap
      Statement.clause?).map RelationshipClause.relationship =
        (b.statements.map StatementTree.phrase).filterMap Phrase.relationship? := by
    simp only [List.filterMap_map, List.map_filterMap, Function.comp_def,
      StatementTree.map_relationship_clause?]
  refine ⟨?_, hstated⟩
  rw [← hdeclared, List.map_map]
  rfl

theorem Describes.eq {phrases : List Phrase} {m m' : ContextMap} (h : Describes phrases m)
    (h' : Describes phrases m') (hname : m.name = m'.name) : m = m' := by
  obtain ⟨name, contexts, relationships⟩ := m
  obtain ⟨name', contexts', relationships'⟩ := m'
  obtain rfl : name = name' := hname
  obtain rfl : contexts = contexts' := h.1.trans h'.1.symm
  obtain rfl : relationships = relationships' := h.2.trans h'.2.symm
  rfl

/-- The tokens of a map are those of a block that describes it, or none. -/
theorem exists_document_iff {ls : List Lexeme} {m : ContextMap} :
    (∃ d, document ls = .ok d ∧ d.contextMap = m) ↔
      (m = .empty ∧ ls.map Lexeme.token = []) ∨
        ∃ phrases, Describes phrases m ∧ ls.map Lexeme.token = blockTokens m.name phrases := by
  constructor
  · intro h
    obtain ⟨d, hd, rfl⟩ := h
    obtain ⟨⟨block⟩, rfl, rfl⟩ := document_eq_ok_iff.1 hd
    cases block with
    | none => exact .inl ⟨rfl, rfl⟩
    | some b => exact .inr ⟨_, b.describes, b.map_token_yield⟩
  · intro h
    rcases h with ⟨rfl, hls⟩ | ⟨phrases, hm, hls⟩
    · obtain rfl := List.map_eq_nil_iff.1 hls
      exact ⟨⟨none⟩, rfl, rfl⟩
    · obtain ⟨b, rfl, hname, rfl⟩ := exists_block_of_map_token hls
      exact ⟨_, document_yield ⟨some b⟩, b.describes.eq hm hname⟩

end ContextDiagram.Language
