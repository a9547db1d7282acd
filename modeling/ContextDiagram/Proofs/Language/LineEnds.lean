import ContextDiagram.Proofs.Language.Recovery

namespace ContextDiagram

open Source

theorem Source.Span.shift_between (start stop bytes : Nat) :
    (Span.between start stop).shift bytes = .between (start + bytes) (stop + bytes) := by
  simp only [Span.between, Span.shift, Nat.add_max_add_right]

def Label.shift (bytes : Nat) (label : Label) : Label :=
  { label with span := label.span.shift bytes }

def Diagnostic.shift (bytes : Nat) (d : Diagnostic) : Diagnostic :=
  { d with labels := d.labels.map (Label.shift bytes) }

namespace Language

def Lexeme.shift (bytes : Nat) (l : Lexeme) : Lexeme :=
  { l with span := l.span.shift bytes }

def Piece.shift (bytes : Nat) : Piece → Piece
  | lexeme l => lexeme (l.shift bytes)
  | unexpectedCharacter offset => unexpectedCharacter (offset + bytes)
  | unclosedComment span => unclosedComment (span.shift bytes)

def diagnosticsOf {α : Type} : Except (List Diagnostic) α → List Diagnostic
  | .ok _ => []
  | .error diagnostics => diagnostics

theorem Piece.lexeme?_shift (bytes : Nat) (p : Piece) :
    (p.shift bytes).lexeme? = p.lexeme?.map (Lexeme.shift bytes) := by
  cases p <;> rfl

theorem Piece.diagnostic?_shift (bytes : Nat) (p : Piece) :
    (p.shift bytes).diagnostic? = p.diagnostic?.map (Diagnostic.shift bytes) := by
  cases p with
  | lexeme l => rfl
  | unexpectedCharacter offset =>
    have hspan := Span.shift_between offset (offset + 1) bytes
    rw [Nat.add_right_comm] at hspan
    simp only [shift, diagnostic?, Option.map_some, Diagnostic.shift, List.map_cons, List.map_nil,
      Label.shift, hspan]
  | unclosedComment span => rfl

theorem pieces_add (offset bytes : Nat) (cs : List Char) :
    pieces (offset + bytes) cs = (pieces offset cs).map (Piece.shift bytes) := by
  fun_induction pieces offset cs with
  | case1 => rw [pieces, List.map_nil]
  | case2 offset c cs token taken rest hb stop ih =>
    obtain ⟨hs, he⟩ := spelling_of_beginning hb
    rw [beginning_eq_append hb, pieces_append hs he, List.map_cons, Piece.shift, Lexeme.shift,
      Span.shift_between, Nat.add_right_comm, ← ih]
  | case3 offset c cs hb =>
    rw [pieces_of_unclosedComment hb, List.map_singleton, Piece.shift, Span.shift_between,
      Nat.add_right_comm]
  | case4 offset c cs hb ih =>
    rw [pieces_of_nothing hb, List.map_cons, Piece.shift, Nat.add_right_comm, ← ih]

section

variable {t : Token} {cs taken rest text : List Char}

theorem Token.goesOn_newline (t : Token) : t.goesOn '\n' = false := by
  cases t with
  | arrow direction => cases direction <;> rfl
  | _ => rfl

theorem Token.EndsBefore.append_newline (h : t.EndsBefore rest) (after : List Char) :
    t.EndsBefore (rest ++ '\n' :: after) := by
  cases rest with
  | nil => exact endsBefore_cons.2 t.goesOn_newline
  | cons c rest => exact endsBefore_cons.2 (endsBefore_cons.1 h)

/-- Only block comments are written over several lines. -/
theorem Token.Spelling.of_newline_mem (h : t.Spelling text) (hn : '\n' ∈ text) :
    text = ['\n'] ∨ ∃ body, t = blockComment body := by
  have hword (ht : t.isWord = true) : False := by
    have hc := (h.isWord ht).all_isWordChar '\n' hn
    exact absurd hc (by decide)
  cases t with
  | contextMap => exact (hword rfl).elim
  | contains => exact (hword rfl).elim
  | identifier name => exact (hword rfl).elim
  | arrow direction =>
    obtain rfl := h
    exact absurd hn (by cases direction <;> decide)
  | blockComment body => exact .inr ⟨body, rfl⟩
  | lineComment body =>
    obtain ⟨rfl, hbody⟩ := h
    simp only [List.mem_cons, Char.reduceEq, false_or] at hn
    exact absurd hn hbody
  | blanks => exact absurd (h.2 '\n' hn) (by decide)
  | newline => exact .inl h
  | _ =>
    obtain rfl := h
    exact absurd hn (by decide)

/-- A text in which a comment starts begins with that comment, or never ends it. -/
theorem beginning_ne_nothing_of_comment (rest : List Char) :
    beginning ('/' :: '*' :: rest) ≠ .nothing := by
  intro h
  rw [beginning] at h
  split at h <;> cases h

theorem beginning_cons_append_newline {c : Char} (h : beginning (c :: cs) = .nothing)
    (after : List Char) : beginning (c :: (cs ++ '\n' :: after)) = .nothing := by
  rw [← List.cons_append]
  obtain ⟨hnone, -⟩ := beginning_eq_nothing_iff.1 h
  -- A comment that starts before the line end starts in the first text.
  have hcomment (rest : List Char) : c :: cs ++ '\n' :: after ≠ '/' :: '*' :: rest := by
    intro he
    cases cs with
    | nil => cases he
    | cons d cs =>
      simp only [List.cons_append, List.cons.injEq] at he
      obtain ⟨rfl, rfl, -⟩ := he
      exact beginning_ne_nothing_of_comment cs h
  refine beginning_eq_nothing_iff.2 ⟨?_, ?_⟩
  · intro t text hs htext
    rcases List.prefix_or_prefix_of_prefix htext (List.prefix_append _ _) with hle | ⟨more, rfl⟩
    · exact hnone t text hs hle
    · cases more with
      | nil =>
        rw [List.append_nil] at hs
        exact hnone t _ hs List.prefix_rfl
      | cons d more =>
        obtain ⟨rfl, -⟩ := List.cons_prefix_cons.1 ((List.prefix_append_right_inj _).1 htext)
        have hn : '\n' ∈ c :: cs ++ '\n' :: more := List.mem_append_right _ List.mem_cons_self
        rcases hs.of_newline_mem hn with he | ⟨body, rfl⟩
        · have hlength := congrArg List.length he
          simp at hlength
        · obtain ⟨rest, he⟩ := htext
          rw [hs.1] at he
          exact hcomment _ he.symm
  · intro hopen
    obtain ⟨rest, he, -⟩ := hopen
    exact hcomment rest he

end

theorem pieces_append_newline {offset : Nat} {cs : List Char}
    (h : ∀ span, .unclosedComment span ∉ pieces offset cs) (after : List Char) :
    pieces offset (cs ++ '\n' :: after) =
      pieces offset cs ++
        .lexeme ⟨.newline, .between (offset + byteLength cs) (offset + byteLength cs + 1)⟩ ::
          pieces (offset + byteLength cs + 1) after := by
  fun_induction pieces offset cs with
  | case1 offset =>
    have hs : Token.newline.Spelling ['\n'] := rfl
    exact pieces_append hs (fun _ _ => rfl) offset
  | case2 offset c cs token taken rest hb stop ih =>
    obtain ⟨hs, he⟩ := spelling_of_beginning hb
    have hrest := ih fun span hmem => h span (List.mem_cons_of_mem _ hmem)
    rw [beginning_eq_append hb, List.append_assoc, pieces_append hs (he.append_newline after),
      hrest, byteLength_append, List.cons_append, Nat.add_assoc offset]
  | case3 offset c cs hb => exact absurd List.mem_cons_self (h _)
  | case4 offset c cs hb ih =>
    have hrest := ih fun span hmem => h span (List.mem_cons_of_mem _ hmem)
    rw [List.cons_append, pieces_of_nothing (beginning_cons_append_newline hb after), hrest,
      byteLength_cons, List.cons_append, Nat.add_assoc offset]

theorem diagnosticsOf_scan (source : String) :
    diagnosticsOf (scan source) = (pieces 0 source.toList).filterMap Piece.diagnostic? := by
  rw [scan]
  split
  · next h => exact h.symm
  · rfl

theorem unclosedComment_not_mem_pieces {source : String}
    (h : ∀ d ∈ diagnosticsOf (scan source), d.code ≠ some .unclosedComment) (span : Span) :
    .unclosedComment span ∉ pieces 0 source.toList := by
  intro hmem
  rw [diagnosticsOf_scan] at h
  exact h _ (List.mem_filterMap.2 ⟨_, hmem, rfl⟩) rfl

theorem filterMap_lexeme?_shift (bytes : Nat) (ps : List Piece) :
    (ps.map (Piece.shift bytes)).filterMap Piece.lexeme? =
      (ps.filterMap Piece.lexeme?).map (Lexeme.shift bytes) := by
  rw [List.filterMap_map, List.map_filterMap]
  exact List.filterMap_congr fun p _ => p.lexeme?_shift bytes

theorem filterMap_diagnostic?_shift (bytes : Nat) (ps : List Piece) :
    (ps.map (Piece.shift bytes)).filterMap Piece.diagnostic? =
      (ps.filterMap Piece.diagnostic?).map (Diagnostic.shift bytes) := by
  rw [List.filterMap_map, List.map_filterMap]
  exact List.filterMap_congr fun p _ => p.diagnostic?_shift bytes

/-- Two texts with a line end between them scan to the tokens of the first, the line end, and the
tokens of the second, or fail with the messages about both. A comment that the first text leaves
open would go on behind the line end. -/
theorem scan_append_newline (a b : String)
    (h : ∀ d ∈ diagnosticsOf (scan a), d.code ≠ some .unclosedComment) :
    scan (a ++ "\n" ++ b) =
      match scan a, scan b with
      | .ok ls, .ok ms =>
        .ok (ls ++ ⟨.newline, .between a.utf8ByteSize (a.utf8ByteSize + 1)⟩ ::
          ms.map (Lexeme.shift (a.utf8ByteSize + 1)))
      | outcome, outcome' =>
        .error (diagnosticsOf outcome ++
          (diagnosticsOf outcome').map (Diagnostic.shift (a.utf8ByteSize + 1))) := by
  have hparts : pieces 0 (a ++ "\n" ++ b).toList =
      pieces 0 a.toList ++
        .lexeme ⟨.newline, .between a.utf8ByteSize (a.utf8ByteSize + 1)⟩ ::
          (pieces 0 b.toList).map (Piece.shift (a.utf8ByteSize + 1)) := by
    have hcut := pieces_append_newline (unclosedComment_not_mem_pieces h) b.toList
    rw [byteLength_toList, Nat.zero_add] at hcut
    rw [← pieces_add, Nat.zero_add, ← hcut, String.toList_append, String.toList_append,
      List.append_assoc]
    rfl
  have hdiagnostics : (pieces 0 (a ++ "\n" ++ b).toList).filterMap Piece.diagnostic? =
      (pieces 0 a.toList).filterMap Piece.diagnostic? ++
        ((pieces 0 b.toList).filterMap Piece.diagnostic?).map
          (Diagnostic.shift (a.utf8ByteSize + 1)) := by
    rw [hparts, List.filterMap_append, ← filterMap_diagnostic?_shift]
    rfl
  have hlexemes : (pieces 0 (a ++ "\n" ++ b).toList).filterMap Piece.lexeme? =
      (pieces 0 a.toList).filterMap Piece.lexeme? ++
        ⟨.newline, .between a.utf8ByteSize (a.utf8ByteSize + 1)⟩ ::
          ((pieces 0 b.toList).filterMap Piece.lexeme?).map
            (Lexeme.shift (a.utf8ByteSize + 1)) := by
    rw [hparts, List.filterMap_append, ← filterMap_lexeme?_shift]
    rfl
  -- The scan of the whole fails exactly if one of the two texts has a message.
  rw [scan, scan, scan]
  simp only [hdiagnostics, hlexemes]
  cases (pieces 0 a.toList).filterMap Piece.diagnostic? with
  | nil =>
    cases (pieces 0 b.toList).filterMap Piece.diagnostic? with
    | nil => rfl
    | cons e es => rfl
  | cons d ds =>
    cases (pieces 0 b.toList).filterMap Piece.diagnostic? with
    | nil => rfl
    | cons e es => rfl

theorem scan_append_newline_arrow :
    (∀ d ∈ diagnosticsOf (scan "A <"), d.code ≠ some .unclosedComment) ∧
      scan ("A <" ++ "\n" ++ "- /*") =
        .error ([.unexpectedCharacter 2, .unexpectedCharacter 4,
          .unclosedComment (.between 6 8)].filterMap Piece.diagnostic?) := by
  have h : ∀ d ∈ diagnosticsOf (scan "A <"), d.code ≠ some .unclosedComment := by decide +kernel
  refine ⟨h, (scan_append_newline "A <" "- /*" h).trans ?_⟩
  decide +kernel

end Language

end ContextDiagram
