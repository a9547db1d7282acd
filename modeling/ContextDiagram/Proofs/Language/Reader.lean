import ContextDiagram.Language.Grammar

namespace ContextDiagram.Language

open Source

/-- Why tokens form no document, with the tokens from the offending one on. -/
inductive Mistake
  | unexpected (expected : Expectation) (rest : List Lexeme)
  | unclosedTagList (opened : Span) (rest : List Lexeme)
  | unclosedBlock (opened : Span)
deriving DecidableEq, Repr

def names (expected : Expectation) :
    List Lexeme → Except Mistake (List (Located String) × List Lexeme)
  | ⟨.identifier name, span⟩ :: ⟨.comma, _⟩ :: rest => do
    let (others, rest) ← names expected rest
    return (⟨name, span⟩ :: others, rest)
  | ⟨.identifier name, span⟩ :: rest => .ok ([⟨name, span⟩], rest)
  | rest => .error (.unexpected expected rest)

def tagList : List Lexeme → Except Mistake (List (Located String) × List Lexeme)
  | ⟨.openBracket, opened⟩ :: rest => do
    match ← names .tag rest with
    | (tags, ⟨.closeBracket, _⟩ :: rest) => return (tags, rest)
    | (_, rest) => throw (.unclosedTagList opened rest)
  | rest => .ok ([], rest)

/-- A relationship, or nothing if the tokens before an arrow could begin something else. -/
def relationship? (lexemes : List Lexeme) :
    Except Mistake (Option (RelationshipClause × List Lexeme)) := do
  match ← tagList lexemes with
  | (leading, ⟨.identifier source, sourceSpan⟩ :: rest) =>
    match ← tagList rest with
    | (trailing, ⟨.arrow direction, arrowSpan⟩ :: rest) =>
      match ← tagList rest with
      | (tags, ⟨.identifier target, targetSpan⟩ :: rest) =>
        return some
          ({ source := ⟨⟨source, sourceSpan⟩, leading ++ trailing⟩
             arrow := ⟨direction, arrowSpan⟩
             target := ⟨⟨target, targetSpan⟩, tags⟩ }, rest)
      | (_, rest) => throw (.unexpected .targetContext rest)
    | _ => return none
  | _ => return none

def statement? : List Lexeme → Except Mistake (Option (Statement × List Lexeme))
  | ⟨.contains, _⟩ :: rest => do
    let (declared, rest) ← names .contextName rest
    return some (.contains declared, rest)
  | rest => do
    match ← relationship? rest with
    | some (clause, rest) => return some (.relationship clause, rest)
    | none => return none

theorem length_lt_of_names {expected : Expectation} {lexemes rest : List Lexeme}
    {found : List (Located String)} (h : names expected lexemes = .ok (found, rest)) :
    rest.length < lexemes.length := by
  fun_induction names expected lexemes generalizing found with
  | case1 name span comma rest' ih =>
    cases hn : names expected rest' with
    | error f => simp [hn, bind, Except.bind] at h
    | ok p =>
      simp only [hn, bind, Except.bind, pure, Except.pure, Except.ok.injEq, Prod.mk.injEq] at h
      obtain ⟨_, rfl⟩ := h
      have := ih hn
      simp only [List.length_cons]
      omega
  | case2 name span rest' =>
    cases h
    simp
  | case3 => cases h

theorem length_le_of_tagList {lexemes rest : List Lexeme} {tags : List (Located String)}
    (h : tagList lexemes = .ok (tags, rest)) : rest.length ≤ lexemes.length := by
  unfold tagList at h
  split at h
  · next opened rest' =>
    cases hn : names .tag rest' with
    | error f => simp [hn, bind, Except.bind] at h
    | ok p =>
      have hlt := length_lt_of_names hn
      simp only [hn, bind, Except.bind] at h
      split at h
      · cases h
        simp only [List.length_cons] at hlt ⊢
        omega
      · cases h
  · cases h
    exact Nat.le_refl _

theorem length_lt_of_relationship? {lexemes rest : List Lexeme} {clause : RelationshipClause}
    (h : relationship? lexemes = .ok (some (clause, rest))) : rest.length < lexemes.length := by
  simp only [relationship?, bind, Except.bind, pure, Except.pure, throw, throwThe,
    MonadExceptOf.throw] at h
  split at h
  · cases h
  · next leading hl =>
    split at h
    · split at h
      · cases h
      · next trailing ht =>
        split at h
        · split at h
          · cases h
          · next tags hg =>
            split at h
            · cases h
              have h₁ := length_le_of_tagList hl
              have h₂ := length_le_of_tagList ht
              have h₃ := length_le_of_tagList hg
              simp only [List.length_cons] at h₁ h₂ h₃
              omega
            · cases h
        · cases h
    · cases h

theorem length_lt_of_statement? {lexemes rest : List Lexeme} {statement : Statement}
    (h : statement? lexemes = .ok (some (statement, rest))) : rest.length < lexemes.length := by
  unfold statement? at h
  split at h
  · next span rest' =>
    cases hn : names .contextName rest' with
    | error f => simp [hn, bind, Except.bind] at h
    | ok p =>
      simp only [hn, bind, Except.bind, pure, Except.pure, Except.ok.injEq, Option.some.injEq,
        Prod.mk.injEq] at h
      obtain ⟨_, rfl⟩ := h
      have := length_lt_of_names hn
      simp only [List.length_cons]
      omega
  · cases hr : relationship? lexemes with
    | error f => simp [hr, bind, Except.bind] at h
    | ok r =>
      cases r with
      | none => simp [hr, bind, Except.bind, pure, Except.pure] at h
      | some p =>
        simp only [hr, bind, Except.bind, pure, Except.pure, Except.ok.injEq, Option.some.injEq,
          Prod.mk.injEq] at h
        obtain ⟨_, rfl⟩ := h
        exact length_lt_of_relationship? hr

def statements (lexemes : List Lexeme) : Except Mistake (List Statement × List Lexeme) :=
  match _ : statement? lexemes with
  | .error mistake => .error mistake
  | .ok none => .ok ([], lexemes)
  | .ok (some (statement, rest)) => do
    let (others, rest) ← statements rest
    return (statement :: others, rest)
termination_by lexemes.length
decreasing_by exact length_lt_of_statement? ‹_›

def blockName : List Lexeme → Option (Located String) × List Lexeme
  | ⟨.identifier name, span⟩ :: rest => (some ⟨name, span⟩, rest)
  | rest => (none, rest)

/-- The document that meaningful tokens form. -/
def document : List Lexeme → Except Mistake Document
  | [] => .ok ⟨none⟩
  | ⟨.contextMap, keyword⟩ :: rest =>
    match blockName rest with
    | (name, ⟨.openBrace, opened⟩ :: rest) => do
      match ← statements rest with
      | (_, []) => throw (.unclosedBlock opened)
      | (found, [⟨.closeBrace, closed⟩]) =>
        return ⟨some { span := keyword.union closed, name := name, statements := found }⟩
      | (_, ⟨.closeBrace, _⟩ :: rest) => throw (.unexpected .endOfMap rest)
      | (_, rest) => throw (.unexpected .statementOrBlockEnd rest)
    | (_, rest) => .error (.unexpected .blockStart rest)
  | rest => .error (.unexpected .contextMapBlock rest)

def Mistake.rest : Mistake → List Lexeme
  | unexpected _ rest => rest
  | unclosedTagList _ rest => rest
  | unclosedBlock _ => []

def Mistake.contexts : Mistake → List Context
  | unexpected what _ => [.expected what]
  | unclosedTagList opened _ => [.unclosed .tagList opened]
  | unclosedBlock opened => [.unclosed .block opened]

def Mistake.diagnostic (lexemes : List Lexeme) (m : Mistake) : Diagnostic :=
  explain lexemes m.contexts m.rest.head?

end ContextDiagram.Language
