import ContextDiagram.Proofs.Language.Alignment
import ContextDiagram.Proofs.Language.Tiling

namespace ContextDiagram.Language

open Source

/-- Whether the meaningful token of a number, counted from 0, stands at a range. -/
def StandsAt (ls : List Lexeme) (k : Nat) (s : Span) : Prop :=
  ((meaningful ls).map Lexeme.span)[k]? = some s

def IsEndOf (ls : List Lexeme) (s : Span) : Prop :=
  ∃ last, ls.getLast? = some last ∧ s = .emptyAt last.span.stop

/-- Whether two ranges are those of the same tokens, or both behind the last token. -/
def PointAlike (ls ls' : List Lexeme) (s s' : Span) : Prop :=
  ((∃ k, StandsAt ls k s) ∧ ∀ k, StandsAt ls k s ↔ StandsAt ls' k s') ∨
    (IsEndOf ls s ∧ IsEndOf ls' s')

theorem StandsAt.unique {source : String} {ls : List Lexeme} (h : scan source = .ok ls) {j k : Nat}
    {s : Span} (hj : StandsAt ls j s) (hk : StandsAt ls k s) : j = k := by
  have htiles := (scan_eq_ok_iff_cuts.1 h).tiles
  have hnodup : ((meaningful ls).map Lexeme.span).Nodup :=
    htiles.nodup.sublist (List.filter_sublist.map _)
  obtain ⟨hlt, -⟩ := List.getElem?_eq_some_iff.1 hj
  exact (List.getElem?_inj hlt hnodup).1 (hj.trans hk.symm)

theorem isEndOf_endOfInput {ls : List Lexeme} {fault : Fault}
    (h : Document.ofLexemes ls = .error fault) : IsEndOf ls (endOfInput ls) := by
  cases hlast : ls.getLast? with
  | none =>
    obtain ⟨m, hm, -⟩ := exists_mistake_of_ofLexemes_error h
    rw [List.getLast?_eq_none_iff.1 hlast] at hm
    cases hm
  | some last =>
    rw [endOfInput, hlast]
    exact ⟨last, hlast, rfl⟩

/-- Two texts with the same meaningful tokens hold the same document, up to the places of names, or
are faulty alike, at the same tokens or at the end. -/
theorem ofLexemes_agree {source source' : String} {ls ls' : List Lexeme}
    (hls : scan source = .ok ls) (hls' : scan source' = .ok ls')
    (h : (meaningful ls).map Lexeme.token = (meaningful ls').map Lexeme.token) :
    (∃ d d', Document.ofLexemes ls = .ok d ∧ Document.ofLexemes ls' = .ok d' ∧
      d.withoutSpans = d'.withoutSpans) ∨
    ∃ fault fault', Document.ofLexemes ls = .error fault ∧
      Document.ofLexemes ls' = .error fault' ∧
      SameMessage (PointAlike ls ls') (fault.diagnostic ls) (fault'.diagnostic ls') := by
  have haligned : Aligned (fun s s' => ∃ k, StandsAt ls k s ∧ StandsAt ls' k s')
      (meaningful ls) (meaningful ls') := by
    apply aligned_of_map_token_eq h
    intro k l l' hl hl'
    refine ⟨k, ?_, ?_⟩
    · rw [StandsAt, List.getElem?_map, hl]
      rfl
    · rw [StandsAt, List.getElem?_map, hl']
      rfl
  have hagree := agree_ofLexemes_of_aligned haligned
  generalize hd : Document.ofLexemes ls = result at hagree
  generalize hd' : Document.ofLexemes ls' = result' at hagree
  cases hagree with
  | ok he => exact .inl ⟨_, _, rfl, rfl, he⟩
  | error hmessage =>
    refine .inr ⟨_, _, rfl, rfl, hmessage.mono ?_⟩
    intro s s' hs
    rcases hs with ⟨k, hk, hk'⟩ | ⟨rfl, rfl⟩
    · refine .inl ⟨⟨k, hk⟩, ?_⟩
      intro j
      constructor
      · intro hj
        rwa [hj.unique hls hk]
      · intro hj
        rwa [hj.unique hls' hk']
    · exact .inr ⟨isEndOf_endOfInput hd, isEndOf_endOfInput hd'⟩

/-- An arrow that stands where a block should start is also found between comments. -/
theorem ofLexemes_agree_commented : ∃ ls ls' fault fault',
    scan "ContextMap A -> B" = .ok ls ∧ scan "/*a*/ContextMap// b\nA->B" = .ok ls' ∧
      (meaningful ls).map Lexeme.token = (meaningful ls').map Lexeme.token ∧
      Document.ofLexemes ls = .error fault ∧ Document.ofLexemes ls' = .error fault' ∧
      SameMessage (PointAlike ls ls') (fault.diagnostic ls) (fault'.diagnostic ls') := by
  have h : (do
      let ls ← scan "ContextMap A -> B"
      let ls' ← scan "/*a*/ContextMap// b\nA->B"
      return decide ((meaningful ls).map Lexeme.token = (meaningful ls').map Lexeme.token ∧
        (Document.ofLexemes ls).isOk = false)) = .ok true := by
    decide +kernel
  obtain ⟨ls, hls, h⟩ := Except.bind_eq_ok_iff.1 h
  obtain ⟨ls', hls', h⟩ := Except.bind_eq_ok_iff.1 h
  obtain ⟨htokens, hfails⟩ := of_decide_eq_true (Except.pure_eq_ok_iff.1 h)
  rcases ofLexemes_agree hls hls' htokens with ⟨d, d', hd, -⟩ | ⟨fault, fault', hf, hf', hagree⟩
  · rw [hd] at hfails
    cases hfails
  · exact ⟨ls, ls', fault, fault', hls, hls', htokens, hf, hf', hagree⟩

end ContextDiagram.Language
