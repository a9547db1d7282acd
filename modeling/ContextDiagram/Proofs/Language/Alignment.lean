import ContextDiagram.Proofs.Language.Refinement
import Mathlib.Data.List.Forall2

namespace ContextDiagram.Language

open Source

def Located.withoutSpan {α : Type} (x : Located α) : Located α :=
  { x with span := .emptyAt 0 }

def Party.withoutSpans (p : Party) : Party where
  context := Located.withoutSpan p.context
  tags := p.tags.map Located.withoutSpan

def RelationshipClause.withoutSpans (r : RelationshipClause) : RelationshipClause where
  source := r.source.withoutSpans
  arrow := Located.withoutSpan r.arrow
  target := r.target.withoutSpans

def Statement.withoutSpans : Statement → Statement
  | contains names => contains (names.map Located.withoutSpan)
  | relationship clause => relationship clause.withoutSpans

def Block.withoutSpans (b : Block) : Block where
  span := .emptyAt 0
  name := b.name.map Located.withoutSpan
  statements := b.statements.map Statement.withoutSpans

def Document.withoutSpans (d : Document) : Document where
  block := d.block.map Block.withoutSpans

/-- Lexemes of the same tokens in the same order, with related ranges. -/
inductive Aligned (R : Span → Span → Prop) : List Lexeme → List Lexeme → Prop
  | nil : Aligned R [] []
  | cons {t : Token} {s s' : Span} {ls ls' : List Lexeme} :
    R s s' → Aligned R ls ls' → Aligned R (⟨t, s⟩ :: ls) (⟨t, s'⟩ :: ls')

inductive Mistake.Aligned (R : Span → Span → Prop) : Mistake → Mistake → Prop
  | unexpected {expected : Expectation} {rest rest' : List Lexeme} :
    Language.Aligned R rest rest' →
      Mistake.Aligned R (.unexpected expected rest) (.unexpected expected rest')
  | unclosedTagList {opened opened' : Span} {rest rest' : List Lexeme} :
    R opened opened' → Language.Aligned R rest rest' →
      Mistake.Aligned R (.unclosedTagList opened rest) (.unclosedTagList opened' rest')
  | unclosedBlock {opened opened' : Span} :
    R opened opened' → Mistake.Aligned R (.unclosedBlock opened) (.unclosedBlock opened')

/-- Whether two readers found the same, up to ranges, and go on at the same tokens. -/
structure SameFinding {α β : Type} (R : Span → Span → Prop) (bare : α → β)
    (p p' : α × List Lexeme) : Prop where
  bare_eq : bare p.1 = bare p'.1
  aligned : Aligned R p.2 p'.2

section

variable {R : Span → Span → Prop} {ls ls' : List Lexeme}

theorem aligned_of_map_token_eq (h : ls.map Lexeme.token = ls'.map Lexeme.token)
    (hR : ∀ (k : Nat) (l l' : Lexeme), ls[k]? = some l → ls'[k]? = some l' → R l.span l'.span) :
    Aligned R ls ls' := by
  induction ls generalizing ls' with
  | nil =>
    rw [List.map_eq_nil_iff.1 h.symm]
    exact .nil
  | cons l ls ih =>
    cases ls' with
    | nil => cases h
    | cons l' ls' =>
      obtain ⟨t, s⟩ := l
      obtain ⟨t', s'⟩ := l'
      obtain ⟨htoken, htokens⟩ := List.cons.inj h
      cases htoken
      refine .cons (hR 0 _ _ rfl rfl) (ih htokens ?_)
      intro k
      exact hR (k + 1)

theorem agree_bind {α β γ : Type} {bare : α → β} {S : γ → γ → Prop}
    {x x' : Except Mistake (α × List Lexeme)} {f f' : α × List Lexeme → Except Mistake γ}
    (h : Except.Agree (Mistake.Aligned R) (SameFinding R bare) x x')
    (hf : ∀ a a' rest rest', bare a = bare a' → Aligned R rest rest' →
      Except.Agree (Mistake.Aligned R) S (f (a, rest)) (f' (a', rest'))) :
    Except.Agree (Mistake.Aligned R) S (x >>= f) (x' >>= f') := by
  refine h.bind ?_
  intro p p' hp
  exact hf _ _ _ _ hp.bare_eq hp.aligned

theorem agree_names (expected : Expectation) (h : Aligned R ls ls') :
    Except.Agree (Mistake.Aligned R) (SameFinding R (List.map Located.withoutSpan))
      (names expected ls) (names expected ls') := by
  fun_induction names expected ls generalizing ls' with
  | case1 name span comma ls ih =>
    cases h with
    | cons hs h =>
      cases h with
      | cons hcomma h =>
        refine agree_bind (ih h) ?_
        intro others others' rest rest' hothers hrest
        exact .ok ⟨congrArg (List.cons (Located.withoutSpan ⟨name, span⟩)) hothers, hrest⟩
  | case2 name span ls hls =>
    cases h with
    | cons hs h =>
      cases h with
      | nil => exact .ok ⟨rfl, .nil⟩
      | @cons t s s' ls ls' hs' h =>
        cases t with
        | comma => exact (hls _ _ rfl).elim
        | _ => exact .ok ⟨rfl, .cons hs' h⟩
  | case3 ls _ hls =>
    cases h with
    | nil => exact .error (.unexpected .nil)
    | @cons t s s' ls ls' hs h =>
      cases t with
      | identifier name => exact (hls _ _ _ rfl).elim
      | _ => exact .error (.unexpected (.cons hs h))

theorem agree_tagList (h : Aligned R ls ls') :
    Except.Agree (Mistake.Aligned R) (SameFinding R (List.map Located.withoutSpan))
      (tagList ls) (tagList ls') := by
  cases h with
  | nil => exact .ok ⟨rfl, .nil⟩
  | @cons t s s' ls ls' hs h =>
    cases t with
    | openBracket =>
      refine agree_bind (agree_names .tag h) ?_
      intro tags tags' rest rest' htags hrest
      cases hrest with
      | nil => exact .error (.unclosedTagList hs .nil)
      | @cons t _ _ _ _ hs' hrest =>
        cases t with
        | closeBracket => exact .ok ⟨htags, hrest⟩
        | _ => exact .error (.unclosedTagList hs (.cons hs' hrest))
    | _ => exact .ok ⟨rfl, .cons hs h⟩

theorem RelationshipClause.withoutSpans_eq {source target : String} {direction : Direction}
    {tags tags' sourceTags sourceTags' : List (Located String)} {s s' t t' u u' : Span}
    (hsource : sourceTags.map Located.withoutSpan = sourceTags'.map Located.withoutSpan)
    (htarget : tags.map Located.withoutSpan = tags'.map Located.withoutSpan) :
    withoutSpans ⟨⟨⟨source, s⟩, sourceTags⟩, ⟨direction, t⟩, ⟨⟨target, u⟩, tags⟩⟩ =
      withoutSpans ⟨⟨⟨source, s'⟩, sourceTags'⟩, ⟨direction, t'⟩, ⟨⟨target, u'⟩, tags'⟩⟩ := by
  simp only [withoutSpans, Party.withoutSpans, hsource, htarget]
  rfl

theorem agree_relationship? (h : Aligned R ls ls') :
    Except.Agree (Mistake.Aligned R) (Option.Rel (SameFinding R RelationshipClause.withoutSpans))
      (relationship? ls) (relationship? ls') := by
  refine agree_bind (agree_tagList h) ?_
  intro leading leading' rest rest' hleading hrest
  cases hrest with
  | nil => exact .ok .none
  | @cons t _ _ _ _ _ hrest =>
    cases t with
    | identifier source =>
      refine agree_bind (agree_tagList hrest) ?_
      intro trailing trailing' rest rest' htrailing hrest
      have hsource : (leading ++ trailing).map Located.withoutSpan =
          (leading' ++ trailing').map Located.withoutSpan := by
        rw [List.map_append, List.map_append, hleading, htrailing]
      cases hrest with
      | nil => exact .ok .none
      | @cons t _ _ _ _ _ hrest =>
        cases t with
        | arrow direction =>
          refine agree_bind (agree_tagList hrest) ?_
          intro tags tags' rest rest' htags hrest
          cases hrest with
          | nil => exact .error (.unexpected .nil)
          | @cons t _ _ _ _ hs hrest =>
            cases t with
            | identifier target =>
              exact .ok (.some ⟨RelationshipClause.withoutSpans_eq hsource htags, hrest⟩)
            | _ => exact .error (.unexpected (.cons hs hrest))
        | _ => exact .ok .none
    | _ => exact .ok .none

theorem agree_statement? (h : Aligned R ls ls') :
    Except.Agree (Mistake.Aligned R) (Option.Rel (SameFinding R Statement.withoutSpans))
      (statement? ls) (statement? ls') := by
  have hrelationship
      (g : Option (RelationshipClause × List Lexeme) →
        Except Mistake (Option (Statement × List Lexeme)))
      (hnone : g none = .ok none)
      (hsome : ∀ p, g (some p) = .ok (some (.relationship p.1, p.2))) :
      Except.Agree (Mistake.Aligned R) (Option.Rel (SameFinding R Statement.withoutSpans))
        (relationship? ls >>= g) (relationship? ls' >>= g) := by
    refine (agree_relationship? h).bind ?_
    intro found found' hfound
    cases hfound with
    | none =>
      rw [hnone]
      exact .ok .none
    | some hp =>
      rw [hsome, hsome]
      exact .ok (.some ⟨congrArg Statement.relationship hp.bare_eq, hp.aligned⟩)
  cases h with
  | nil => exact hrelationship _ rfl fun _ => rfl
  | @cons t _ _ _ _ hs h =>
    cases t with
    | contains =>
      refine agree_bind (agree_names .contextName h) ?_
      intro names names' rest rest' hnames hrest
      exact .ok (.some ⟨congrArg Statement.contains hnames, hrest⟩)
    | _ => exact hrelationship _ rfl fun _ => rfl

theorem statements_of_error {mistake : Mistake} (h : statement? ls = .error mistake) :
    statements ls = .error mistake := by
  rw [statements]
  split
  · next hs =>
    cases h.symm.trans hs
    rfl
  · next hs => cases h.symm.trans hs
  · next hs => cases h.symm.trans hs

theorem agree_statements (h : Aligned R ls ls') :
    Except.Agree (Mistake.Aligned R) (SameFinding R (List.map Statement.withoutSpans))
      (statements ls) (statements ls') := by
  have hstatement := agree_statement? h
  generalize hs' : statement? ls' = found' at hstatement
  fun_induction statements ls generalizing ls' found' with
  | case1 ls mistake hs =>
    rw [hs] at hstatement
    cases hstatement with
    | error hmistake =>
      rw [statements_of_error hs']
      exact .error hmistake
  | case2 ls hs =>
    rw [hs] at hstatement
    cases hstatement with
    | ok hfound =>
      cases hfound
      rw [statements_of_none hs']
      exact .ok ⟨rfl, h⟩
  | case3 ls statement rest hs ih =>
    rw [hs] at hstatement
    cases hstatement with
    | ok hfound =>
      cases hfound with
      | some hp =>
        rw [statements_of_some hs']
        refine agree_bind (ih hp.aligned _ rfl (agree_statement? hp.aligned)) ?_
        intro others others' rest rest' hothers hrest
        refine .ok ⟨?_, hrest⟩
        rw [List.map_cons, List.map_cons, hothers, hp.bare_eq]

theorem sameFinding_blockName (h : Aligned R ls ls') :
    SameFinding R (Option.map Located.withoutSpan) (blockName ls) (blockName ls') := by
  cases h with
  | nil => exact ⟨rfl, .nil⟩
  | @cons t _ _ _ _ hs h =>
    cases t with
    | identifier name => exact ⟨rfl, h⟩
    | _ => exact ⟨rfl, .cons hs h⟩

/-- The same tokens at other places form the same document, or none for the same reason. -/
theorem agree_document (h : Aligned R ls ls') :
    Except.Agree (Mistake.Aligned R) (fun d d' => d.withoutSpans = d'.withoutSpans)
      (document ls) (document ls') := by
  cases h with
  | nil => exact .ok rfl
  | @cons t _ _ ls ls' hs h =>
    cases t with
    | contextMap =>
      obtain ⟨hname, hrest⟩ := sameFinding_blockName h
      rw [document, document]
      generalize blockName ls = p at hname hrest
      generalize blockName ls' = p' at hname hrest
      obtain ⟨name, rest⟩ := p
      obtain ⟨name', rest'⟩ := p'
      cases hrest with
      | nil => exact .error (.unexpected .nil)
      | @cons t _ _ _ _ hopened hrest =>
        cases t with
        | openBrace =>
          refine agree_bind (agree_statements hrest) ?_
          intro found found' rest rest' hfound hrest
          cases hrest with
          | nil => exact .error (.unclosedBlock hopened)
          | @cons t _ _ _ _ hclosed hrest =>
            cases t with
            | closeBrace =>
              cases hrest with
              | nil =>
                refine .ok ?_
                simp only [Document.withoutSpans, Option.map_some, Block.withoutSpans, hfound]
                rw [hname]
              | cons hnext hrest => exact .error (.unexpected (.cons hnext hrest))
            | _ => exact .error (.unexpected (.cons hclosed hrest))
        | _ => exact .error (.unexpected (.cons hopened hrest))
    | _ => exact .error (.unexpected (.cons hs h))

structure SameMessage (R : Span → Span → Prop) (d d' : Diagnostic) : Prop where
  severity_eq : d.severity = d'.severity
  code_eq : d.code = d'.code
  message_eq : d.message = d'.message
  help_eq : d.help = d'.help
  labels : List.Forall₂
    (fun a b => a.text = b.text ∧ a.isPrimary = b.isPrimary ∧ R a.span b.span) d.labels d'.labels

theorem SameMessage.mono {S : Span → Span → Prop} {d d' : Diagnostic} (h : SameMessage R d d')
    (hRS : ∀ s s', R s s' → S s s') : SameMessage S d d' where
  severity_eq := h.severity_eq
  code_eq := h.code_eq
  message_eq := h.message_eq
  help_eq := h.help_eq
  labels := by
    apply h.labels.imp
    intro a b hab
    exact ⟨hab.1, hab.2.1, hRS _ _ hab.2.2⟩

/-- Whether two ranges are related or both behind the last lexeme. -/
def RelatedOrAtEnd (R : Span → Span → Prop) (lexemes lexemes' : List Lexeme) (s s' : Span) : Prop :=
  R s s' ∨ s = endOfInput lexemes ∧ s' = endOfInput lexemes'

theorem Aligned.offendingSpan (h : Aligned R ls ls') (lexemes lexemes' : List Lexeme) :
    RelatedOrAtEnd R lexemes lexemes' (Language.offendingSpan lexemes ls.head?)
      (Language.offendingSpan lexemes' ls'.head?) := by
  cases h with
  | nil => exact .inr ⟨rfl, rfl⟩
  | cons hs _ => exact .inl hs

theorem Mistake.Aligned.sameMessage {mistake mistake' : Mistake}
    (h : Mistake.Aligned R mistake mistake') (lexemes lexemes' : List Lexeme) :
    SameMessage (RelatedOrAtEnd R lexemes lexemes') (mistake.diagnostic lexemes)
      (mistake'.diagnostic lexemes') := by
  cases h with
  | unexpected hrest =>
    refine ⟨rfl, rfl, rfl, rfl, .cons ⟨?_, rfl, ?_⟩ .nil⟩
    · cases hrest with
      | nil => rfl
      | cons _ _ => rfl
    · exact hrest.offendingSpan lexemes lexemes'
  | unclosedTagList hopened hrest =>
    have hoffending := hrest.offendingSpan lexemes lexemes'
    exact ⟨rfl, rfl, rfl, rfl, .cons ⟨rfl, rfl, hoffending⟩ (.cons ⟨rfl, rfl, .inl hopened⟩ .nil)⟩
  | unclosedBlock hopened =>
    have hoffending := (Aligned.nil (R := R)).offendingSpan lexemes lexemes'
    exact ⟨rfl, rfl, rfl, rfl, .cons ⟨rfl, rfl, hoffending⟩ (.cons ⟨rfl, rfl, .inl hopened⟩ .nil)⟩

/-- Blanks and comments between the same tokens are nothing that a parse depends on. -/
theorem agree_ofLexemes_of_aligned (h : Aligned R (meaningful ls) (meaningful ls')) :
    Except.Agree
      (fun fault fault' => SameMessage (RelatedOrAtEnd R ls ls') (fault.diagnostic ls)
        (fault'.diagnostic ls'))
      (fun d d' => d.withoutSpans = d'.withoutSpans)
      (Document.ofLexemes ls) (Document.ofLexemes ls') := by
  have hreaders := agree_document h
  have hls := agree_ofLexemes ls
  have hls' := agree_ofLexemes ls'
  generalize Document.ofLexemes ls = result at hls ⊢
  generalize Document.ofLexemes ls' = result' at hls' ⊢
  generalize document (meaningful ls) = reading at hls hreaders
  generalize document (meaningful ls') = reading' at hls' hreaders
  cases hreaders with
  | ok hd =>
    cases hls with
    | ok he =>
      cases hls' with
      | ok he' => exact .ok (he ▸ he' ▸ hd)
  | error hm =>
    cases hls with
    | error he =>
      cases hls' with
      | error he' => exact .error (he ▸ he' ▸ hm.sameMessage ls ls')

end

end ContextDiagram.Language
