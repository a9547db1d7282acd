import ContextDiagram.Proofs.Language.ParseTree
import Mathlib.Data.List.DropRight

namespace ContextDiagram.Language

open Source

variable {α β : Type} {ls rest : List Lexeme}

def afterTrivia (ls : List Lexeme) : List Lexeme :=
  ls.dropWhile Lexeme.isTrivia

theorem suffix_afterTrivia (ls : List Lexeme) : afterTrivia ls <:+ ls :=
  List.dropWhile_suffix _

theorem meaningful_cons_of_isTrivia {l : Lexeme} (h : l.token.isTrivia = true) (ls : List Lexeme) :
    meaningful (l :: ls) = meaningful ls :=
  List.filter_cons_of_neg (by rw [Lexeme.isTrivia, h]; nofun)

theorem meaningful_cons_of_not_isTrivia {l : Lexeme} (h : l.token.isTrivia = false)
    (ls : List Lexeme) : meaningful (l :: ls) = l :: meaningful ls :=
  List.filter_cons_of_pos (by rw [Lexeme.isTrivia, h]; rfl)

theorem afterTrivia_cons_of_isTrivia {l : Lexeme} (h : l.isTrivia = true) :
    afterTrivia (l :: ls) = afterTrivia ls :=
  List.dropWhile_cons_of_pos h

theorem afterTrivia_cons_of_not_isTrivia {l : Lexeme} (h : l.isTrivia = false) :
    afterTrivia (l :: ls) = l :: ls :=
  List.dropWhile_cons_of_neg (by rw [h]; nofun)

theorem meaningful_afterTrivia (ls : List Lexeme) :
    meaningful (afterTrivia ls) = meaningful ls := by
  induction ls with
  | nil => rfl
  | cons l ls ih =>
    cases h : l.isTrivia with
    | true => rw [afterTrivia_cons_of_isTrivia h, meaningful_cons_of_isTrivia h ls, ih]
    | false => rw [afterTrivia_cons_of_not_isTrivia h]

structure IsNext (ls : List Lexeme) (l : Lexeme) (rest : List Lexeme) : Prop where
  afterTrivia_eq : afterTrivia ls = l :: rest
  meaningful_eq : meaningful ls = l :: meaningful rest

theorem isNext_or_nil (ls : List Lexeme) :
    (afterTrivia ls = [] ∧ meaningful ls = []) ∨ ∃ l rest, IsNext ls l rest := by
  induction ls with
  | nil => exact .inl ⟨rfl, rfl⟩
  | cons l ls ih =>
    cases h : l.isTrivia with
    | true =>
      rcases ih with ih | ⟨l', rest, hafter, hmeaningful⟩
      · rw [afterTrivia_cons_of_isTrivia h, meaningful_cons_of_isTrivia h ls]
        exact .inl ih
      · refine .inr ⟨l', rest, ?_, ?_⟩
        · rw [afterTrivia_cons_of_isTrivia h, hafter]
        · rw [meaningful_cons_of_isTrivia h ls, hmeaningful]
    | false =>
      exact .inr ⟨l, ls, afterTrivia_cons_of_not_isTrivia h, meaningful_cons_of_not_isTrivia h ls⟩

/-- The tokens behind blanks and the meaningful tokens begin with the same one, if any. -/
@[elab_as_elim]
theorem cases_next {motive : List Lexeme → List Lexeme → Prop} (ls : List Lexeme)
    (nil : motive [] [])
    (cons : ∀ l rest, IsNext ls l rest → motive (l :: rest) (l :: meaningful rest)) :
    motive (afterTrivia ls) (meaningful ls) := by
  rcases isNext_or_nil ls with ⟨hafter, hmeaningful⟩ | ⟨l, rest, hl⟩
  · rw [hafter, hmeaningful]
    exact nil
  · rw [hl.afterTrivia_eq, hl.meaningful_eq]
    exact cons l rest hl

theorem isNext_of_afterTrivia {l : Lexeme} (h : afterTrivia ls = l :: rest) : IsNext ls l rest := by
  rcases isNext_or_nil ls with ⟨hnil, -⟩ | ⟨l', rest', hl⟩
  · cases hnil.symm.trans h
  · cases hl.afterTrivia_eq.symm.trans h
    exact hl

theorem exists_isNext_of_meaningful {l : Lexeme} {ms : List Lexeme} (h : meaningful ls = l :: ms) :
    ∃ rest, IsNext ls l rest ∧ meaningful rest = ms := by
  rcases isNext_or_nil ls with ⟨-, hnil⟩ | ⟨l', rest, hl⟩
  · cases hnil.symm.trans h
  · cases hl.meaningful_eq.symm.trans h
    exact ⟨rest, hl, rfl⟩

namespace IsNext

variable {l : Lexeme}

theorem meaningful_cons (h : IsNext ls l rest) : meaningful (l :: rest) = l :: meaningful rest := by
  rw [← h.afterTrivia_eq, meaningful_afterTrivia, h.meaningful_eq]

theorem cons_suffix (h : IsNext ls l rest) : l :: rest <:+ ls :=
  h.afterTrivia_eq ▸ suffix_afterTrivia ls

theorem afterTrivia_cons (h : IsNext ls l rest) : afterTrivia (l :: rest) = l :: rest := by
  rw [← h.afterTrivia_eq]
  exact List.dropWhile_idempotent _ ls

theorem suffix (h : IsNext ls l rest) : rest <:+ ls :=
  (List.suffix_cons l rest).trans h.cons_suffix

end IsNext

namespace Parser

variable {p : Parser α} {f : α → Parser β} {a : α} {e : Error}

theorem bind_of_ok (h : p ls = .ok a rest) : (p >>= f) ls = f a rest := by
  simp only [bind, EStateM.bind, h]

theorem bind_of_error (h : p ls = .error e rest) : (p >>= f) ls = .error e rest := by
  simp only [bind, EStateM.bind, h]

theorem map_of_ok {φ : α → β} (h : p ls = .ok a rest) : (φ <$> p) ls = .ok (φ a) rest := by
  simp only [Functor.map, EStateM.map, h]

theorem map_of_error {φ : α → β} (h : p ls = .error e rest) : (φ <$> p) ls = .error e rest := by
  simp only [Functor.map, EStateM.map, h]

theorem map_congr {φ : α → β} {q : Parser α} {ls' : List Lexeme} (h : p ls = q ls') :
    (φ <$> p) ls = (φ <$> q) ls' := by
  simp only [Functor.map, EStateM.map, h]

theorem commit_bind_of_ok (h : p ls = .ok a rest) : commit (p >>= f) ls = commit (f a) rest := by
  rw [commit, bind_of_ok h]
  rfl

theorem commit_bind_of_error (h : p ls = .error e rest) :
    commit (p >>= f) ls = .error { e with isFinal := true } rest := by
  rw [commit, bind_of_error h]

theorem opt_of_ok (h : p ls = .ok a rest) : opt p ls = .ok (some a) rest := by
  rw [opt, h]

theorem opt_of_plain (h : p ls = .error .plain rest) : opt p ls = .ok none ls := by
  rw [opt, h]
  rfl

theorem opt_of_final {contexts : List Context} (h : p ls = .error ⟨true, contexts⟩ rest) :
    opt p ls = .error ⟨true, contexts⟩ rest := by
  rw [opt, h]
  rfl

theorem many_of_error (h : p ls = .error e rest) (he : e.isFinal = false) :
    many p ls = .ok [] ls := by
  rw [many, h]
  dsimp only
  rw [he]
  rfl

theorem many_of_final {contexts : List Context} (h : p ls = .error ⟨true, contexts⟩ rest) :
    many p ls = .error ⟨true, contexts⟩ rest := by
  rw [many, h]
  rfl

theorem many_of_ok (h : p ls = .ok a rest) (hlt : rest.length < ls.length) :
    many p ls = (many p >>= fun others => pure (a :: others)) rest := by
  rw [many, h]
  dsimp only
  rw [if_pos hlt]
  cases hrest : many p rest with
  | ok others rest' => rw [bind_of_ok hrest]; rfl
  | error e rest' => rw [bind_of_error hrest]

theorem exists_many_isTrivia (ls : List Lexeme) :
    ∃ spans, many (spanOf Token.isTrivia) ls = .ok spans (afterTrivia ls) := by
  induction ls with
  | nil => exact ⟨[], many_of_error rfl rfl⟩
  | cons l ls ih =>
    cases h : l.isTrivia with
    | true =>
      obtain ⟨spans, hspans⟩ := ih
      have hl : spanOf Token.isTrivia (l :: ls) = .ok l.span ls := by
        rw [spanOf, token]
        simp only [show l.token.isTrivia = true from h, if_true]
      refine ⟨l.span :: spans, ?_⟩
      rw [many_of_ok hl (Nat.lt_succ_self _), bind_of_ok hspans, afterTrivia_cons_of_isTrivia h]
      rfl
    | false =>
      have hl : spanOf Token.isTrivia (l :: ls) = .error .plain (l :: ls) := by
        rw [spanOf, token]
        simp only [show l.token.isTrivia = false from h, Bool.false_eq_true, if_false]
      rw [afterTrivia_cons_of_not_isTrivia h]
      exact ⟨[], many_of_error hl rfl⟩

theorem discard_of_ok (h : p ls = .ok a rest) : discard p ls = .ok () rest := by
  simp only [Functor.discard, Functor.mapConst, Function.comp_apply, EStateM.map, h]

theorem discard_of_error (h : p ls = .error e rest) : discard p ls = .error e rest := by
  simp only [Functor.discard, Functor.mapConst, Function.comp_apply, EStateM.map, h]

theorem skipTrivia_apply (ls : List Lexeme) : skipTrivia ls = .ok () (afterTrivia ls) := by
  obtain ⟨spans, h⟩ := exists_many_isTrivia ls
  exact discard_of_ok h

theorem symbol_cons_self (t : Token) (s : Span) : symbol t (⟨t, s⟩ :: ls) = .ok s ls := by
  simp only [symbol, spanOf, token, beq_self_eq_true, if_true]

theorem symbol_of_nextIsNot {t : Token} (h : NextIsNot t ls) : symbol t ls = .error .plain ls := by
  cases ls with
  | nil => rfl
  | cons l ls =>
    simp only [symbol, spanOf, token, beq_eq_false_iff_ne.2 (nextIsNot_cons.1 h),
      Bool.false_eq_true, if_false]

theorem nextIsNot_afterTrivia {t : Token} (h : NextIsNot t (meaningful ls)) :
    NextIsNot t (afterTrivia ls) := by
  revert h
  refine cases_next ls id ?_
  intro l rest _ h
  exact nextIsNot_cons.2 (nextIsNot_cons.1 h)

/-- A separator that does not come to a comma fails behind the blanks that it has taken. -/
theorem separator_of_nextIsNot (h : NextIsNot .comma (meaningful ls)) :
    separator ls = .error .plain (afterTrivia ls) := by
  rw [separator, bind_of_ok (skipTrivia_apply ls)]
  exact bind_of_error (discard_of_error (symbol_of_nextIsNot (nextIsNot_afterTrivia h)))

theorem separator_of_comma {comma : Span} (h : afterTrivia ls = ⟨.comma, comma⟩ :: rest) :
    separator ls = .ok () (afterTrivia rest) := by
  rw [separator, bind_of_ok (skipTrivia_apply ls), h,
    bind_of_ok (discard_of_ok (symbol_cons_self _ _)), skipTrivia_apply]

theorem isFinal_of_many_error (h : many p ls = .error e rest) : e.isFinal = true := by
  fun_induction many p ls with
  | case1 ls e' rest' hp he =>
    cases h
    exact he
  | case2 => cases h
  | case3 => cases h
  | case4 ls a rest' hp hlt e' rest'' hmany ih =>
    cases h
    exact ih hmany
  | case5 =>
    cases h
    rfl

theorem commit_bind : commit (p >>= f) = commit p >>= fun a => commit (f a) := by
  funext ls
  cases h : p ls with
  | ok a rest =>
    have hcommit : commit p ls = .ok a rest := by rw [commit, h]
    rw [commit_bind_of_ok h, bind_of_ok hcommit]
  | error e rest =>
    have hcommit : commit p ls = .error { e with isFinal := true } rest := by rw [commit, h]
    rw [commit_bind_of_error h, bind_of_error hcommit]

def otherNames (what : Expectation) : Parser (List (Located String)) :=
  many do
    separator
    commit (context (.expected what) name)

theorem names_of_identifier {what : Expectation} {n : String} {s : Span}
    (h : afterTrivia ls = ⟨.identifier n, s⟩ :: rest) :
    names what ls = (otherNames what >>= fun others => pure (⟨n, s⟩ :: others)) rest := by
  rw [names, bind_of_ok (skipTrivia_apply ls), h]
  exact bind_of_ok rfl

theorem otherNames_of_nextIsNot {what : Expectation} (h : NextIsNot .comma (meaningful ls)) :
    otherNames what ls = .ok [] ls :=
  many_of_error (bind_of_error (separator_of_nextIsNot h)) rfl

theorem context_of_ok {c : Context} (h : p ls = .ok a rest) : context c p ls = .ok a rest := by
  rw [context, h]

theorem context_of_error {c : Context} (h : p ls = .error e rest) :
    context c p ls = .error { e with contexts := e.contexts ++ [c] } rest := by
  rw [context, h]

theorem name_cons (n : String) (s : Span) : name (⟨.identifier n, s⟩ :: ls) = .ok ⟨n, s⟩ ls := rfl

theorem arrow_cons (d : Direction) (s : Span) : arrow (⟨.arrow d, s⟩ :: ls) = .ok ⟨d, s⟩ ls := rfl

theorem name_of_not_identifier (h : ∀ n s rest, ls ≠ ⟨.identifier n, s⟩ :: rest) :
    name ls = .error .plain ls := by
  cases ls with
  | nil => rfl
  | cons l ls =>
    obtain ⟨t, s⟩ := l
    cases t with
    | identifier n => exact absurd rfl (h n s ls)
    | _ => rfl

theorem length_lt_of_name {c : Context} {n : Located String}
    (h : context c name ls = .ok n rest) : rest.length < ls.length := by
  cases ls with
  | nil => cases h
  | cons l ls =>
    obtain ⟨t, s⟩ := l
    cases t with
    | identifier n' =>
      cases h
      exact Nat.lt_succ_self _
    | _ => cases h

theorem otherNames_of_comma {what : Expectation} {comma : Span}
    (h : afterTrivia ls = ⟨.comma, comma⟩ :: rest) :
    otherNames what ls = commit (names what) rest := by
  have hstep := bind_of_ok (f := fun _ => commit (context (.expected what) name))
    (separator_of_comma h)
  rw [otherNames, names, commit_bind_of_ok (skipTrivia_apply rest)]
  cases hfirst : context (.expected what) name (afterTrivia rest) with
  | error e rest' =>
    rw [commit, hfirst] at hstep
    rw [commit_bind_of_error hfirst, many, hstep]
    rfl
  | ok n rest' =>
    have hlt : rest'.length < ls.length := by
      have hname := length_lt_of_name hfirst
      have hrest := (suffix_afterTrivia rest).length_le
      have hls := (suffix_afterTrivia ls).length_le
      rw [h, List.length_cons] at hls
      omega
    rw [commit, hfirst] at hstep
    rw [commit_bind_of_ok hfirst, many_of_ok hstep hlt]
    cases hothers : many (separator >>= fun _ => commit (context (.expected what) name)) rest' with
    | ok others rest'' =>
      rw [bind_of_ok hothers, commit_bind_of_ok hothers]
      rfl
    | error e rest'' =>
      obtain ⟨isFinal, contexts⟩ := e
      obtain rfl : isFinal = true := isFinal_of_many_error hothers
      rw [bind_of_error hothers, commit_bind_of_error hothers]

end Parser

end ContextDiagram.Language
