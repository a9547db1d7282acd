import ContextDiagram.Proofs.Language.Trivia

namespace ContextDiagram.Language

open Source

variable {α β : Type} {ls : List Lexeme}

/-- What a parser does with tokens is what a reader does with the meaningful ones among them: both
find the same and go on at the same token, both find nothing, or both fail for the same reason at
the same token. -/
inductive Refines (ls : List Lexeme) :
    EStateM.Result Parser.Error (List Lexeme) α → Except Mistake (Option (α × List Lexeme)) → Prop
  | found {a : α} {rest : List Lexeme} :
    rest <:+ ls → Refines ls (.ok a rest) (.ok (some (a, meaningful rest)))
  | absent {e : Parser.Error} {rest : List Lexeme} :
    e.isFinal = false → Refines ls (.error e rest) (.ok none)
  | mistaken {contexts : List Context} {rest : List Lexeme} {m : Mistake} :
    contexts = m.contexts → meaningful rest = m.rest → rest <:+ ls →
      Refines ls (.error ⟨true, contexts⟩ rest) (.error m)

namespace Refines

variable {start : List Lexeme} {p : Parser α} {f : α → Parser β}
  {x : Except Mistake (α × List Lexeme)}
  {g : α × List Lexeme → Except Mistake (Option (β × List Lexeme))}

theorem mono {r : EStateM.Result Parser.Error (List Lexeme) α}
    {y : Except Mistake (Option (α × List Lexeme))} (h : Refines start r y) (hs : start <:+ ls) :
    Refines ls r y := by
  cases h with
  | found hrest => exact .found (hrest.trans hs)
  | absent he => exact .absent he
  | mistaken hcontexts hmeaningful hrest => exact .mistaken hcontexts hmeaningful (hrest.trans hs)

theorem exists_of_found {r : EStateM.Result Parser.Error (List Lexeme) α} {a : α}
    {ms : List Lexeme} (h : Refines ls r (.ok (some (a, ms)))) :
    ∃ rest, r = .ok a rest ∧ meaningful rest = ms ∧ rest <:+ ls := by
  cases h with
  | found hrest => exact ⟨_, rfl, rfl, hrest⟩

theorem exists_of_absent {r : EStateM.Result Parser.Error (List Lexeme) α}
    (h : Refines ls r (.ok none)) : ∃ e rest, r = .error e rest ∧ e.isFinal = false := by
  cases h with
  | absent he => exact ⟨_, _, rfl, he⟩

theorem exists_of_mistaken {r : EStateM.Result Parser.Error (List Lexeme) α} {m : Mistake}
    (h : Refines ls r (.error m)) :
    ∃ rest, r = .error ⟨true, m.contexts⟩ rest ∧ meaningful rest = m.rest ∧ rest <:+ ls := by
  cases h with
  | mistaken hcontexts hmeaningful hrest =>
    subst hcontexts
    exact ⟨_, rfl, hmeaningful, hrest⟩

/-- Beside a reader that always finds something or fails, a parser has two outcomes. -/
theorem cases_of_some {r : EStateM.Result Parser.Error (List Lexeme) α}
    (h : Refines ls r (some <$> x)) :
    (∃ a rest, r = .ok a rest ∧ x = .ok (a, meaningful rest) ∧ rest <:+ ls) ∨
      ∃ rest m, r = .error ⟨true, m.contexts⟩ rest ∧ x = .error m ∧ meaningful rest = m.rest ∧
        rest <:+ ls := by
  cases x with
  | error m =>
    obtain ⟨rest, hr, hmeaningful, hrest⟩ := exists_of_mistaken h
    exact .inr ⟨rest, m, hr, rfl, hmeaningful, hrest⟩
  | ok found =>
    obtain ⟨rest, hr, hmeaningful, hrest⟩ := exists_of_found h
    exact .inl ⟨found.1, rest, hr, by rw [hmeaningful], hrest⟩

theorem commit (h : Refines ls (p start) (some <$> x)) :
    Refines ls (Parser.commit p start) (some <$> x) := by
  rw [Parser.commit]
  rcases h.cases_of_some with ⟨a, rest, hp, rfl, hrest⟩ | ⟨rest, m, hp, rfl, hmeaningful, hrest⟩
  · rw [hp]
    exact .found hrest
  · rw [hp]
    exact .mistaken rfl hmeaningful hrest

theorem bind (h : Refines ls (p start) (some <$> x))
    (hf : ∀ a rest, rest <:+ ls → Refines ls (f a rest) (g (a, meaningful rest))) :
    Refines ls ((p >>= f) start) (x >>= g) := by
  rcases h.cases_of_some with ⟨a, rest, hp, rfl, hrest⟩ | ⟨rest, m, hp, rfl, hmeaningful, hrest⟩
  · rw [Parser.bind_of_ok hp]
    exact hf a rest hrest
  · rw [Parser.bind_of_error hp]
    exact .mistaken rfl hmeaningful hrest

theorem orElse (h : Refines ls (p start) (some <$> x)) (q : Parser α) :
    Refines ls (Parser.orElse p q start) (some <$> x) := by
  rw [Parser.orElse]
  rcases h.cases_of_some with ⟨a, rest, hp, rfl, hrest⟩ | ⟨rest, m, hp, rfl, hmeaningful, hrest⟩
  · rw [hp]
    exact .found hrest
  · rw [hp]
    exact .mistaken rfl hmeaningful hrest

theorem map {y : Except Mistake (Option (α × List Lexeme))} (h : Refines ls (p start) y)
    (φ : α → β) : Refines ls ((φ <$> p) start) (Option.map (Prod.map φ id) <$> y) := by
  generalize hp : p start = r at h
  cases h with
  | found hrest =>
    rw [Parser.map_of_ok hp]
    exact .found hrest
  | absent he =>
    rw [Parser.map_of_error hp]
    exact .absent he
  | mistaken hcontexts hmeaningful hrest =>
    rw [Parser.map_of_error hp]
    exact .mistaken hcontexts hmeaningful hrest

end Refines

theorem refines_names (what : Expectation) (ls : List Lexeme) :
    Refines ls (Parser.commit (Parser.names what) ls) (some <$> names what (meaningful ls)) := by
  generalize hms : meaningful ls = ms
  fun_induction names what ms generalizing ls with
  | case1 n s comma ms ih =>
    obtain ⟨rest, hl, hrest⟩ := exists_isNext_of_meaningful hms
    obtain ⟨rest', hl', hrest'⟩ := exists_isNext_of_meaningful hrest
    have hothers := (ih rest' hrest').mono (hl'.suffix.trans hl.suffix)
    rw [← Parser.otherNames_of_comma hl'.afterTrivia_eq] at hothers
    rw [Parser.commit, Parser.names_of_identifier hl.afterTrivia_eq, ← Parser.commit,
      Parser.commit_bind, map_bind]
    refine hothers.commit.bind ?_
    intro others rest'' hsuffix''
    exact .found hsuffix''
  | case2 n s ms hcomma =>
    obtain ⟨rest, hl, rfl⟩ := exists_isNext_of_meaningful hms
    have hnext : NextIsNot .comma (meaningful rest) := by
      intro l hl
      obtain ⟨t, s⟩ := l
      obtain ⟨ms, hms⟩ := List.head?_eq_some_iff.1 hl
      rintro rfl
      exact hcomma _ _ hms
    have hnames : Parser.names what ls = .ok [⟨n, s⟩] rest := by
      rw [Parser.names_of_identifier hl.afterTrivia_eq]
      exact Parser.bind_of_ok (Parser.otherNames_of_nextIsNot hnext)
    rw [Parser.commit, hnames]
    exact .found hl.suffix
  | case3 ms hcomma hname =>
    have hfirst : Parser.name (afterTrivia ls) = .error .plain (afterTrivia ls) :=
      Parser.name_of_not_identifier fun n s rest h =>
        hname n s (meaningful rest) (hms.symm.trans (isNext_of_afterTrivia h).meaningful_eq)
    rw [Parser.names, Parser.commit_bind_of_ok (Parser.skipTrivia_apply ls),
      Parser.commit_bind_of_error (Parser.context_of_error hfirst)]
    exact .mistaken rfl ((meaningful_afterTrivia ls).trans hms) (suffix_afterTrivia ls)

theorem refines_tagList (opened : Span) (ls : List Lexeme) :
    Refines (⟨.openBracket, opened⟩ :: ls) (Parser.tagList (⟨.openBracket, opened⟩ :: ls))
      (some <$> tagList (⟨.openBracket, opened⟩ :: meaningful ls)) := by
  rw [Parser.tagList, Parser.bind_of_ok (Parser.symbol_cons_self _ _), Parser.commit_bind, tagList,
    map_bind]
  refine ((refines_names .tag ls).mono (List.suffix_cons _ _)).bind ?_
  intro tags rest hrest
  rw [Parser.commit_bind_of_ok (Parser.skipTrivia_apply rest)]
  refine cases_next rest (.mistaken rfl rfl List.nil_suffix) ?_
  rintro ⟨t, s⟩ rest' hl
  cases t with
  | closeBracket => exact .found (hl.suffix.trans hrest)
  | _ => exact .mistaken rfl hl.meaningful_cons (hl.cons_suffix.trans hrest)

theorem refines_tags (ls : List Lexeme) :
    Refines ls (Parser.tags (afterTrivia ls)) (some <$> tagList (meaningful ls)) := by
  refine cases_next ls (.found List.nil_suffix) ?_
  rintro ⟨t, s⟩ rest hl
  have hnone : Refines ls (.ok ([] : List (Located String)) (⟨t, s⟩ :: rest))
      (.ok (some ([], ⟨t, s⟩ :: meaningful rest))) := by
    rw [← hl.meaningful_cons]
    exact .found hl.cons_suffix
  cases t with
  | openBracket =>
    rcases ((refines_tagList s rest).mono hl.cons_suffix).cases_of_some with
      ⟨tags, rest', hp, hx, hrest⟩ | ⟨rest', m, hp, hx, hmeaningful, hrest⟩
    · rw [hx, Parser.tags, Parser.bind_of_ok (Parser.opt_of_ok hp)]
      exact .found hrest
    · rw [hx, Parser.tags, Parser.bind_of_error (Parser.opt_of_final hp)]
      exact .mistaken rfl hmeaningful hrest
  | _ => exact hnone

theorem refines_relationship (ls : List Lexeme) :
    Refines ls (Parser.relationship (afterTrivia ls)) (relationship? (meaningful ls)) := by
  refine (refines_tags ls).bind ?_
  intro leading rest hrest
  rw [Parser.bind_of_ok (Parser.skipTrivia_apply rest)]
  refine cases_next rest (.absent rfl) ?_
  rintro ⟨t, s⟩ rest₁ hl
  cases t with
  | identifier source =>
    rw [Parser.bind_of_ok (Parser.name_cons source s),
      Parser.bind_of_ok (Parser.skipTrivia_apply rest₁)]
    refine ((refines_tags rest₁).mono (hl.suffix.trans hrest)).bind ?_
    intro trailing rest₂ hrest₂
    rw [Parser.bind_of_ok (Parser.skipTrivia_apply rest₂)]
    refine cases_next rest₂ (.absent rfl) ?_
    rintro ⟨t, s'⟩ rest₃ hl'
    cases t with
    | arrow direction =>
      rw [Parser.bind_of_ok (Parser.arrow_cons direction s'),
        Parser.commit_bind_of_ok (Parser.skipTrivia_apply rest₃), Parser.commit_bind]
      refine ((refines_tags rest₃).mono (hl'.suffix.trans hrest₂)).commit.bind ?_
      intro tags rest₄ hrest₄
      rw [Parser.commit_bind_of_ok (Parser.skipTrivia_apply rest₄)]
      refine cases_next rest₄ (.mistaken rfl rfl List.nil_suffix) ?_
      rintro ⟨t, s''⟩ rest₅ hl''
      cases t with
      | identifier target => exact .found (hl''.suffix.trans hrest₄)
      | _ => exact .mistaken rfl hl''.meaningful_cons (hl''.cons_suffix.trans hrest₄)
    | _ => exact .absent rfl
  | _ => exact .absent rfl

theorem statement?_of_nextIsNot (h : NextIsNot .contains ls) :
    statement? ls = Option.map (Prod.map Statement.relationship id) <$> relationship? ls := by
  rw [statement?]
  · cases relationship? ls with
    | error m => rfl
    | ok found => cases found <;> rfl
  · rintro s rest rfl
    exact nextIsNot_cons.1 h rfl

theorem Parser.statement_of_nextIsNot (h : NextIsNot .contains ls) :
    Parser.statement ls = (Statement.relationship <$> Parser.relationship) ls := by
  have hcontains : (Statement.contains <$> Parser.contains) ls = .error .plain ls :=
    map_of_error (bind_of_error (discard_of_error (symbol_of_nextIsNot h)))
  rw [statement, orElse, hcontains]
  rfl

theorem refines_statement (ls : List Lexeme) :
    Refines ls (Parser.statement (afterTrivia ls)) (statement? (meaningful ls)) := by
  have hrelationship (h : NextIsNot .contains (meaningful ls)) :
      Refines ls (Parser.statement (afterTrivia ls)) (statement? (meaningful ls)) := by
    rw [statement?_of_nextIsNot h, Parser.statement_of_nextIsNot (Parser.nextIsNot_afterTrivia h)]
    exact (refines_relationship ls).map _
  rcases isNext_or_nil ls with ⟨-, hmeaningful⟩ | ⟨⟨t, s⟩, rest, hl⟩
  · apply hrelationship
    rw [hmeaningful]
    nofun
  by_cases ht : t = .contains
  · subst ht
    have hcontains : Parser.contains (⟨.contains, s⟩ :: rest) =
        Parser.commit (Parser.names .contextName) rest :=
      Parser.bind_of_ok (Parser.discard_of_ok (Parser.symbol_cons_self _ _))
    have hread : statement? (⟨.contains, s⟩ :: meaningful rest) =
        some <$> (Prod.map Statement.contains id <$> names .contextName (meaningful rest)) := by
      rw [statement?]
      cases names .contextName (meaningful rest) <;> rfl
    have hmap : Option.map (Prod.map Statement.contains id) <$>
          some <$> names .contextName (meaningful rest) =
        some <$> (Prod.map Statement.contains id <$> names .contextName (meaningful rest)) := by
      cases names .contextName (meaningful rest) <;> rfl
    have hnames := ((refines_names .contextName rest).mono hl.suffix).map Statement.contains
    rw [hmap, ← Parser.map_congr hcontains] at hnames
    rw [hl.afterTrivia_eq, hl.meaningful_eq, hread]
    exact hnames.orElse _
  · apply hrelationship
    rw [hl.meaningful_eq]
    exact nextIsNot_cons.2 ht

theorem refines_step (ls : List Lexeme) :
    Refines ls ((Parser.skipTrivia >>= fun _ => Parser.statement) ls)
      (statement? (meaningful ls)) := by
  rw [Parser.bind_of_ok (Parser.skipTrivia_apply ls)]
  exact refines_statement ls

theorem refines_statements (ls : List Lexeme) :
    Refines ls (Parser.many (do Parser.skipTrivia; Parser.statement) ls)
      (some <$> statements (meaningful ls)) := by
  generalize hms : meaningful ls = ms
  fun_induction statements ms generalizing ls with
  | case1 ms m hm =>
    subst hms
    obtain ⟨rest, hp, hmeaningful, hrest⟩ := (hm ▸ refines_step ls).exists_of_mistaken
    rw [Parser.many_of_final hp]
    exact .mistaken rfl hmeaningful hrest
  | case2 ms hm =>
    subst hms
    obtain ⟨e, rest, hp, he⟩ := (hm ▸ refines_step ls).exists_of_absent
    rw [Parser.many_of_error hp he]
    exact .found List.suffix_rfl
  | case3 ms st ms' hm ih =>
    subst hms
    obtain ⟨rest, hp, rfl, hrest⟩ := (hm ▸ refines_step ls).exists_of_found
    have hlt : rest.length < ls.length := by
      apply Nat.lt_of_le_of_ne hrest.length_le
      intro hlength
      rw [hrest.eq_of_length hlength] at hm
      exact Nat.lt_irrefl _ (length_lt_of_statement? hm)
    rw [Parser.many_of_ok hp hlt, map_bind]
    refine ((ih rest rfl).mono hrest).bind ?_
    intro others rest' hrest'
    exact .found hrest'

def blockBody (keyword : Span) :
    Option (Located String) × List Lexeme → Except Mistake (Block × List Lexeme)
  | (name, ⟨.openBrace, opened⟩ :: rest) => do
    match ← statements rest with
    | (_, []) => throw (.unclosedBlock opened)
    | (found, ⟨.closeBrace, closed⟩ :: rest) =>
      return ({ span := keyword.union closed, name := name, statements := found }, rest)
    | (_, rest) => throw (.unexpected .statementOrBlockEnd rest)
  | (_, rest) => .error (.unexpected .blockStart rest)

def endOfDocument (found : Block × List Lexeme) : Except Mistake Document :=
  match found with
  | (block, []) => .ok ⟨some block⟩
  | (_, rest) => .error (.unexpected .endOfMap rest)

theorem document_contextMap (keyword : Span) (ls : List Lexeme) :
    document (⟨.contextMap, keyword⟩ :: ls) =
      blockBody keyword (blockName ls) >>= endOfDocument := by
  rw [document]
  generalize blockName ls = named
  obtain ⟨name, rest⟩ := named
  cases rest with
  | nil => rfl
  | cons l rest =>
    obtain ⟨t, opened⟩ := l
    cases t with
    | openBrace =>
      dsimp only [blockBody]
      cases statements rest with
      | error m => rfl
      | ok found =>
        obtain ⟨found, rest⟩ := found
        cases rest with
        | nil => rfl
        | cons l rest =>
          obtain ⟨t, closed⟩ := l
          cases t with
          | closeBrace => cases rest <;> rfl
          | _ => rfl
    | _ => rfl

theorem document_of_ne {t : Token} {s : Span} (h : t ≠ .contextMap) :
    document (⟨t, s⟩ :: ls) = .error (.unexpected .contextMapBlock (⟨t, s⟩ :: ls)) := by
  rw [document]
  · intro he
    cases he
  · intro keyword rest he
    cases he
    exact h rfl

theorem refines_blockName (ls : List Lexeme) :
    Refines ls (Parser.opt Parser.name (afterTrivia ls))
      (some <$> .ok (blockName (meaningful ls))) := by
  refine cases_next ls (.found List.nil_suffix) ?_
  rintro ⟨t, s⟩ rest hl
  have hnone : Refines ls (.ok (none : Option (Located String)) (⟨t, s⟩ :: rest))
      (.ok (some (none, ⟨t, s⟩ :: meaningful rest))) := by
    rw [← hl.meaningful_cons]
    exact .found hl.cons_suffix
  cases t with
  | identifier name => exact .found hl.suffix
  | _ => exact hnone

theorem refines_block (keyword : Span) (ls : List Lexeme) :
    Refines ls (Parser.block (⟨.contextMap, keyword⟩ :: ls))
      (some <$> blockBody keyword (blockName (meaningful ls))) := by
  rw [Parser.block, Parser.bind_of_ok (Parser.symbol_cons_self _ _),
    Parser.commit_bind_of_ok (Parser.skipTrivia_apply ls), Parser.commit_bind]
  refine (refines_blockName ls).commit.bind (g := fun named => some <$> blockBody keyword named) ?_
  intro name rest hrest
  rw [Parser.commit_bind_of_ok (Parser.skipTrivia_apply rest)]
  refine cases_next rest (.mistaken rfl rfl List.nil_suffix) ?_
  rintro ⟨t, opened⟩ rest₁ hl
  cases t with
  | openBrace =>
    rw [Parser.commit_bind_of_ok (Parser.context_of_ok (Parser.symbol_cons_self _ _)),
      Parser.commit_bind, blockBody, map_bind]
    refine ((refines_statements rest₁).mono (hl.suffix.trans hrest)).commit.bind ?_
    intro found rest₂ hrest₂
    rw [Parser.commit_bind_of_ok (Parser.skipTrivia_apply rest₂)]
    refine cases_next rest₂ (.mistaken rfl rfl List.nil_suffix) ?_
    rintro ⟨t, closed⟩ rest₃ hl'
    cases t with
    | closeBrace => exact .found (hl'.suffix.trans hrest₂)
    | _ => exact .mistaken rfl hl'.meaningful_cons (hl'.cons_suffix.trans hrest₂)
  | _ => exact .mistaken rfl hl.meaningful_cons (hl.cons_suffix.trans hrest)

/-- The parser takes tokens for the document that the meaningful ones form. -/
theorem refines_document (ls : List Lexeme) :
    Refines ls (Parser.document ls) ((fun d => some (d, [])) <$> document (meaningful ls)) := by
  rw [Parser.document, Parser.bind_of_ok (Parser.skipTrivia_apply ls)]
  refine cases_next ls ?_ ?_
  · have hopt : Parser.opt Parser.block [] = .ok none [] := rfl
    rw [Parser.bind_of_ok hopt, Parser.bind_of_ok (Parser.skipTrivia_apply [])]
    exact .found List.nil_suffix
  rintro ⟨t, s⟩ rest hl
  by_cases ht : t = .contextMap
  · subst ht
    rw [document_contextMap]
    rcases ((refines_block s rest).mono hl.suffix).cases_of_some with
      ⟨block, rest', hp, hx, hrest⟩ | ⟨rest', m, hp, hx, hmeaningful, hrest⟩
    · rw [hx, Parser.bind_of_ok (Parser.opt_of_ok hp),
        Parser.bind_of_ok (Parser.skipTrivia_apply rest')]
      refine cases_next rest' (.found List.nil_suffix) ?_
      rintro l rest'' hl'
      exact .mistaken rfl hl'.meaningful_cons (hl'.cons_suffix.trans hrest)
    · rw [hx, Parser.bind_of_error (Parser.opt_of_final hp)]
      exact .mistaken rfl hmeaningful hrest
  · have hblock : Parser.block (⟨t, s⟩ :: rest) = .error .plain (⟨t, s⟩ :: rest) :=
      Parser.bind_of_error (Parser.symbol_of_nextIsNot (nextIsNot_cons.2 ht))
    rw [document_of_ne ht, Parser.bind_of_ok (Parser.opt_of_plain hblock),
      Parser.bind_of_ok (Parser.skipTrivia_apply _), hl.afterTrivia_cons]
    exact .mistaken rfl hl.meaningful_cons hl.cons_suffix

theorem diagnostic_eq {fault : Fault} {m : Mistake} (hcontexts : fault.contexts = m.contexts)
    (hrest : meaningful (ls.drop (ls.length - fault.remaining)) = m.rest) :
    fault.diagnostic ls = m.diagnostic ls := by
  rw [Fault.diagnostic, Mistake.diagnostic, hcontexts, ← hrest, meaningful, List.head?_filter]

/-- What the parser makes of tokens is what the readers make of the meaningful ones, down to the
message about a fault. -/
theorem agree_ofLexemes (ls : List Lexeme) :
    Except.Agree (fun fault m => fault.diagnostic ls = m.diagnostic ls) Eq
      (Document.ofLexemes ls) (document (meaningful ls)) := by
  have h := refines_document ls
  rw [Document.ofLexemes]
  cases hd : document (meaningful ls) with
  | error m =>
    rw [hd] at h
    obtain ⟨rest, hp, hmeaningful, hrest⟩ := h.exists_of_mistaken
    rw [hp]
    refine .error (diagnostic_eq rfl ?_)
    rw [← List.suffix_iff_eq_drop.1 hrest, hmeaningful]
  | ok d =>
    rw [hd] at h
    obtain ⟨rest, hp, -, -⟩ := h.exists_of_found
    rw [hp]
    exact .ok rfl

theorem ofLexemes_eq_ok_iff_document {d : Document} :
    Document.ofLexemes ls = .ok d ↔ document (meaningful ls) = .ok d := by
  generalize hx : Document.ofLexemes ls = x
  generalize hy : document (meaningful ls) = y
  have h := agree_ofLexemes ls
  rw [hx, hy] at h
  cases h with
  | ok hd =>
    subst hd
    rw [Except.ok.injEq, Except.ok.injEq]
  | error _ => exact iff_of_false nofun nofun

theorem exists_mistake_of_ofLexemes_error {fault : Fault}
    (h : Document.ofLexemes ls = .error fault) :
    ∃ m, document (meaningful ls) = .error m ∧ fault.diagnostic ls = m.diagnostic ls := by
  have hagree := agree_ofLexemes ls
  rw [h] at hagree
  generalize hy : document (meaningful ls) = y at hagree
  cases hagree with
  | error hdiagnostic => exact ⟨_, rfl, hdiagnostic⟩

end ContextDiagram.Language
