namespace ContextDiagram.Text

/-- The text before the first `*/` and the text after it. Comments do not nest. -/
def splitAtCommentEnd : List Char → Option (List Char × List Char)
  | [] => none
  | '*' :: '/' :: rest => some ([], rest)
  | c :: rest => (splitAtCommentEnd rest).map fun (body, after) => (c :: body, after)

theorem splitAtCommentEnd_eq_append {cs body after : List Char}
    (h : splitAtCommentEnd cs = some (body, after)) : cs = body ++ '*' :: '/' :: after := by
  fun_induction splitAtCommentEnd cs generalizing body with
  | case1 => simp at h
  | case2 rest =>
    simp only [Option.some.injEq, Prod.mk.injEq] at h
    simp [← h.1, h.2]
  | case3 c rest _ ih =>
    obtain ⟨⟨b, a⟩, hb, he⟩ := Option.map_eq_some_iff.1 h
    simp only [Prod.mk.injEq] at he
    rw [ih (he.2 ▸ hb), ← he.1, List.cons_append]

theorem length_lt_of_splitAtCommentEnd {cs body after : List Char}
    (h : splitAtCommentEnd cs = some (body, after)) : after.length < cs.length := by
  simp [splitAtCommentEnd_eq_append h]
  omega

end ContextDiagram.Text
