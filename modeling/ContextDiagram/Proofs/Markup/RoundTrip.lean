import ContextDiagram.Proofs.Markup.Reader

namespace ContextDiagram.Markup

mutual

/-- What a node is read as once it was written: each child begins a line, and so does the closing
tag. -/
def Node.items : Node → List Item
  | .text content => content.toList.map .character
  | .element name attributes [] => [.element name attributes []]
  | .element name attributes (child :: children) =>
    [.element name attributes (itemsOfLines (child :: children))]

def itemsOfLines : List Node → List Item
  | [] => [.character '\n']
  | node :: nodes => .character '\n' :: (node.items ++ itemsOfLines nodes)

end

mutual

def Item.pieces : Item → List Piece
  | .character c => [.character c]
  | .element name attributes [] => [.empty name attributes]
  | .element name attributes (item :: items) =>
    .opening name attributes :: (piecesOfAll (item :: items) ++ [.closing name])

def piecesOfAll : List Item → List Piece
  | [] => []
  | item :: items => item.pieces ++ piecesOfAll items

end

/-- Names and keys are made of letters and hyphens, and no name is empty. -/
inductive Node.IsPlain : Node → Prop
  | text (content : String) : IsPlain (.text content)
  | element {name : String} {attributes : List (String × String)} {children : List Node}
    (named : name ≠ "") (letters : ∀ c ∈ name.toList, isNameChar c)
    (keys : ∀ key ∈ attributes.map Prod.fst, ∀ c ∈ key.toList, isNameChar c)
    (plain : ∀ child ∈ children, child.IsPlain) : IsPlain (.element name attributes children)

section

variable {cs rest : List Char} {c : Char}

theorem readCharacter_cons (ha : c ≠ '&') (hl : c ≠ '<') (cs : List Char) :
    readCharacter (c :: cs) = some (c, cs) := by
  rw [readCharacter.eq_def]
  split <;> simp_all

theorem readCharacter_escapeTextChar (c : Char) (cs : List Char) :
    readCharacter (escapeTextChar c ++ cs) = some (c, cs) := by
  unfold escapeTextChar
  split
  · rfl
  · rfl
  · rfl
  · next ha hl _ => exact readCharacter_cons ha hl cs

theorem readCharacter_escapeValueChar (c : Char) (cs : List Char) :
    readCharacter (escapeValueChar c ++ cs) = some (c, cs) := by
  unfold escapeValueChar
  split
  · rfl
  · rfl
  · exact readCharacter_escapeTextChar _ cs

theorem head?_escapeValueChar (c : Char) (cs : List Char) :
    (escapeValueChar c ++ cs).head? ≠ some '"' := by
  unfold escapeValueChar escapeTextChar
  split
  · nofun
  · nofun
  · next hq _ =>
    split
    · nofun
    · nofun
    · nofun
    · simpa using hq

theorem readValue_of_character (hq : cs.head? ≠ some '"') (h : readCharacter cs = some (c, rest)) :
    readValue cs = (readValue rest).map fun (value, rest) => (c :: value, rest) := by
  rw [readValue]
  · split
    · next hc =>
      cases h.symm.trans hc
      rfl
    · next hc => cases h.symm.trans hc
  · rintro rest rfl
    exact hq rfl

theorem readValue_escapeValue (value : String) (rest : List Char) :
    readValue ((escapeValue value).toList ++ '"' :: rest) = some (value.toList, rest) := by
  rw [escapeValue, String.toList_ofList]
  induction value.toList with
  | nil =>
    rw [List.flatMap_nil, List.nil_append, readValue]
  | cons c cs ih =>
    rw [List.flatMap_cons, List.append_assoc, readValue_of_character (head?_escapeValueChar c _)
      (readCharacter_escapeValueChar c _), ih]
    rfl

theorem takeWhile_name {name : List Char} (h : ∀ c ∈ name, isNameChar c)
    (hc : isNameChar c = false) (rest : List Char) :
    (name ++ c :: rest).takeWhile isNameChar = name := by
  rw [List.takeWhile_append_of_pos h, List.takeWhile_cons_of_neg (by rw [hc]; nofun),
    List.append_nil]

theorem dropWhile_name {name : List Char} (h : ∀ c ∈ name, isNameChar c)
    (hc : isNameChar c = false) (rest : List Char) :
    (name ++ c :: rest).dropWhile isNameChar = c :: rest := by
  rw [List.dropWhile_append_of_pos h, List.dropWhile_cons_of_neg (by rw [hc]; nofun)]

theorem leadingName_name {name : String} (h : ∀ c ∈ name.toList, isNameChar c)
    (hc : isNameChar c = false) (rest : List Char) :
    leadingName (name.toList ++ c :: rest) = name := by
  rw [leadingName, takeWhile_name h hc, String.ofList_toList]

end

theorem toList_renderAttribute (key value : String) :
    (renderAttribute key value).toList =
      ' ' :: (key.toList ++ '=' :: '"' :: ((escapeValue value).toList ++ ['"'])) := by
  simp [renderAttribute]

theorem readAttributes_of_head {cs : List Char} (h : cs.head? ≠ some ' ') :
    readAttributes cs = some ([], cs) := by
  rw [readAttributes.eq_def]
  split
  · exact absurd rfl h
  · rfl

theorem readAttributes_of_value {cs inside rest value : List Char}
    (hinside : cs.dropWhile isNameChar = '=' :: '"' :: inside)
    (hvalue : readValue inside = some (value, rest)) :
    readAttributes (' ' :: cs) = (readAttributes rest).map fun (others, rest) =>
      ((leadingName cs, String.ofList value) :: others, rest) := by
  rw [readAttributes]
  split
  · next hcs =>
    cases hinside.symm.trans hcs
    split
    · next hv =>
      cases hvalue.symm.trans hv
      rfl
    · next hv => cases hvalue.symm.trans hv
  · next hcs => exact absurd hinside (hcs _)

theorem readAttributes_renderAttributes {attributes : List (String × String)}
    (keys : ∀ key ∈ attributes.map Prod.fst, ∀ c ∈ key.toList, isNameChar c) {rest : List Char}
    (hrest : rest.head? ≠ some ' ') :
    readAttributes ((renderAttributes attributes).toList ++ rest) = some (attributes, rest) := by
  rw [renderAttributes]
  induction attributes with
  | nil => exact readAttributes_of_head hrest
  | cons a attributes ih =>
    obtain ⟨key, value⟩ := a
    obtain ⟨hkey, hkeys⟩ := List.forall_mem_cons.1 keys
    rw [List.foldr_cons, String.toList_append, toList_renderAttribute]
    simp only [List.cons_append, List.append_assoc, List.nil_append]
    rw [readAttributes_of_value (dropWhile_name hkey (by decide) _) (readValue_escapeValue value _),
      ih hkeys, leadingName_name hkey (by decide), String.ofList_toList]
    rfl

section

variable {name : String} {attributes : List (String × String)}

theorem exists_renderAttributes_eq_cons (attributes : List (String × String)) {c : Char}
    (hc : isNameChar c = false) (rest : List Char) :
    ∃ x cs, (renderAttributes attributes).toList ++ c :: rest = x :: cs ∧ isNameChar x = false := by
  cases attributes with
  | nil => exact ⟨c, rest, rfl, hc⟩
  | cons a attributes =>
    rw [renderAttributes, List.foldr_cons, String.toList_append, toList_renderAttribute]
    exact ⟨' ', _, rfl, by decide⟩

theorem leadingName_append_attributes (letters : ∀ c ∈ name.toList, isNameChar c) {c : Char}
    (hc : isNameChar c = false) (rest : List Char) :
    leadingName (name.toList ++ ((renderAttributes attributes).toList ++ c :: rest)) = name := by
  obtain ⟨x, cs, he, hx⟩ := exists_renderAttributes_eq_cons attributes hc rest
  rw [he, leadingName_name letters hx]

theorem dropWhile_append_attributes (letters : ∀ c ∈ name.toList, isNameChar c) {c : Char}
    (hc : isNameChar c = false) (rest : List Char) :
    (name.toList ++ ((renderAttributes attributes).toList ++ c :: rest)).dropWhile isNameChar =
      (renderAttributes attributes).toList ++ c :: rest := by
  obtain ⟨x, cs, he, hx⟩ := exists_renderAttributes_eq_cons attributes hc rest
  rw [he, dropWhile_name letters hx]

theorem append_ne_slash (named : name ≠ "") (letters : ∀ c ∈ name.toList, isNameChar c)
    (tail cs : List Char) : name.toList ++ tail ≠ '/' :: cs := by
  intro h
  obtain ⟨c, letters', hc⟩ := List.exists_cons_of_ne_nil (mt String.toList_eq_nil_iff.1 named)
  rw [hc, List.cons_append] at h
  cases h
  exact absurd (letters '/' (hc ▸ List.mem_cons_self)) (by decide)

theorem readTag_empty (named : name ≠ "") (letters : ∀ c ∈ name.toList, isNameChar c)
    (keys : ∀ key ∈ attributes.map Prod.fst, ∀ c ∈ key.toList, isNameChar c) (rest : List Char) :
    readTag (name.toList ++ ((renderAttributes attributes).toList ++ '/' :: '>' :: rest)) =
      some (.empty name attributes, rest) := by
  have hslash : ('/' :: '>' :: rest).head? ≠ some ' ' := by simp
  have hattributes := readAttributes_renderAttributes keys hslash
  rw [readTag, dropWhile_append_attributes letters (by decide), hattributes,
    leadingName_append_attributes letters (by decide)]
  · rfl
  · exact append_ne_slash named letters _

theorem readTag_opening (named : name ≠ "") (letters : ∀ c ∈ name.toList, isNameChar c)
    (keys : ∀ key ∈ attributes.map Prod.fst, ∀ c ∈ key.toList, isNameChar c) (rest : List Char) :
    readTag (name.toList ++ ((renderAttributes attributes).toList ++ '>' :: rest)) =
      some (.opening name attributes, rest) := by
  have hbracket : ('>' :: rest).head? ≠ some ' ' := by simp
  have hattributes := readAttributes_renderAttributes keys hbracket
  rw [readTag, dropWhile_append_attributes letters (by decide), hattributes,
    leadingName_append_attributes letters (by decide)]
  · rfl
  · exact append_ne_slash named letters _

theorem readTag_closing (letters : ∀ c ∈ name.toList, isNameChar c) (rest : List Char) :
    readTag ('/' :: (name.toList ++ '>' :: rest)) = some (.closing name, rest) := by
  rw [readTag, dropWhile_name letters (by decide), leadingName_name letters (by decide)]
  rfl

end

section

variable {cs rest : List Char}

theorem readPieces_tag {tag : Piece} (h : readTag cs = some (tag, rest)) :
    readPieces ('<' :: cs) = (readPieces rest).map (tag :: ·) := by
  rw [readPieces]
  split
  · next ht =>
    cases h.symm.trans ht
    rfl
  · next ht => cases h.symm.trans ht

theorem readPieces_character {c : Char} (h : readCharacter cs = some (c, rest)) :
    readPieces cs = (readPieces rest).map (.character c :: ·) := by
  rw [readPieces]
  · split
    · next hc =>
      cases h.symm.trans hc
      rfl
    · next hc => cases h.symm.trans hc
  · rintro rfl
    cases h
  · rintro cs rfl
    cases h

theorem readPieces_escapeText (content : String) (rest : List Char) :
    readPieces ((escapeText content).toList ++ rest) =
      (readPieces rest).map (content.toList.map .character ++ ·) := by
  rw [escapeText, String.toList_ofList]
  induction content.toList with
  | nil => exact Option.map_id'.symm
  | cons c cs ih =>
    rw [List.flatMap_cons, List.append_assoc,
      readPieces_character (readCharacter_escapeTextChar c _), ih, Option.map_map]
    rfl

end

theorem piecesOfAll_eq_flatMap (items : List Item) :
    piecesOfAll items = items.flatMap Item.pieces := by
  induction items with
  | nil => rfl
  | cons item items ih => rw [piecesOfAll, ih, List.flatMap_cons]

theorem piecesOfAll_append (items items' : List Item) :
    piecesOfAll (items ++ items') = piecesOfAll items ++ piecesOfAll items' := by
  simp only [piecesOfAll_eq_flatMap, List.flatMap_append]

theorem piecesOfAll_characters (cs : List Char) :
    piecesOfAll (cs.map .character) = cs.map .character := by
  rw [piecesOfAll_eq_flatMap, List.flatMap_map]
  exact List.map_eq_flatMap.symm

section

variable {name : String} {attributes : List (String × String)} {children : List Node}

theorem toList_render_empty (name : String) (attributes : List (String × String)) :
    (Node.element name attributes []).render.toList =
      '<' :: (name.toList ++ ((renderAttributes attributes).toList ++ ['/', '>'])) := by
  simp [Node.render]

theorem toList_render_element (name : String) (attributes : List (String × String))
    (h : children ≠ []) :
    (Node.element name attributes children).render.toList =
      '<' :: (name.toList ++ ((renderAttributes attributes).toList ++ '>' ::
        ((renderAll children).toList ++ '\n' :: '<' :: '/' :: (name.toList ++ ['>'])))) := by
  cases children with
  | nil => exact absurd rfl h
  | cons child children => simp [Node.render, renderAll]

theorem toList_renderAll_cons (node : Node) (nodes : List Node) :
    (renderAll (node :: nodes)).toList =
      '\n' :: (node.render.toList ++ (renderAll nodes).toList) := by
  simp [renderAll]

theorem items_element (name : String) (attributes : List (String × String)) (h : children ≠ []) :
    (Node.element name attributes children).items =
      [.element name attributes (itemsOfLines children)] := by
  cases children with
  | nil => exact absurd rfl h
  | cons child children => rw [Node.items]

theorem pieces_element (name : String) (attributes : List (String × String)) {items : List Item}
    (h : items ≠ []) :
    (Item.element name attributes items).pieces =
      .opening name attributes :: (piecesOfAll items ++ [.closing name]) := by
  cases items with
  | nil => exact absurd rfl h
  | cons item items => rw [Item.pieces]

theorem itemsOfLines_ne_nil (nodes : List Node) : itemsOfLines nodes ≠ [] := by
  cases nodes <;> rw [itemsOfLines] <;> nofun

theorem readPieces_newline (rest : List Char) :
    readPieces ('\n' :: rest) = (readPieces rest).map (.character '\n' :: ·) :=
  readPieces_character (readCharacter_cons (by decide) (by decide) rest)

theorem readPieces_renderAll {nodes : List Node}
    (h : ∀ node ∈ nodes, ∀ rest, readPieces (node.render.toList ++ rest) =
      (readPieces rest).map (piecesOfAll node.items ++ ·)) (rest : List Char) :
    readPieces ((renderAll nodes).toList ++ '\n' :: rest) =
      (readPieces rest).map (piecesOfAll (itemsOfLines nodes) ++ ·) := by
  induction nodes with
  | nil => exact readPieces_newline rest
  | cons node nodes ih =>
    rw [toList_renderAll_cons, List.cons_append, readPieces_newline, List.append_assoc,
      h node List.mem_cons_self, ih fun other ho => h other (List.mem_cons_of_mem _ ho),
      itemsOfLines, piecesOfAll, piecesOfAll_append, Option.map_map, Option.map_map]
    congr 1
    funext ps
    simp only [Function.comp_apply, Item.pieces, List.append_assoc, List.cons_append,
      List.nil_append]

/-- A written node is read as its items, whatever is written behind it. -/
theorem readPieces_render {node : Node} (h : node.IsPlain) :
    ∀ rest, readPieces (node.render.toList ++ rest) =
      (readPieces rest).map (piecesOfAll node.items ++ ·) := by
  -- The induction is on the node, for any rest: a child is followed by the rest of its parent.
  induction h with
  | text content =>
    intro rest
    rw [Node.render, readPieces_escapeText, Node.items, piecesOfAll_characters]
  | @element name attributes children named letters keys plain ih =>
    intro rest
    by_cases hc : children = []
    · subst hc
      rw [toList_render_empty]
      simp only [List.cons_append, List.append_assoc, List.nil_append]
      rw [readPieces_tag (readTag_empty named letters keys rest)]
      rfl
    · rw [toList_render_element name attributes hc]
      simp only [List.cons_append, List.append_assoc, List.nil_append]
      rw [readPieces_tag (readTag_opening named letters keys _), readPieces_renderAll ih,
        readPieces_tag (readTag_closing letters rest), items_element name attributes hc,
        piecesOfAll, pieces_element name attributes (itemsOfLines_ne_nil _), Option.map_map,
        Option.map_map]
      congr 1
      funext ps
      simp only [Function.comp_apply, piecesOfAll, List.append_nil, List.append_assoc,
        List.cons_append, List.nil_append]

end

mutual

theorem nest_pieces (outer : List OpenElement) (before : List Item) (ps : List Piece) :
    ∀ item : Item, nest outer before (item.pieces ++ ps) = nest outer (item :: before) ps
  | .character c => by
    rw [Item.pieces, List.singleton_append, nest]
  | .element name attributes [] => by
    rw [Item.pieces, List.singleton_append, nest]
  | .element name attributes (item :: items) => by
    rw [Item.pieces, List.cons_append, List.append_assoc, nest, nest_piecesOfAll,
      List.singleton_append, nest, if_pos rfl, List.append_nil, List.reverse_reverse]

theorem nest_piecesOfAll (outer : List OpenElement) (before : List Item) (ps : List Piece) :
    ∀ items : List Item,
      nest outer before (piecesOfAll items ++ ps) = nest outer (items.reverse ++ before) ps
  | [] => rfl
  | item :: items => by
    rw [piecesOfAll, List.append_assoc, nest_pieces, nest_piecesOfAll, List.reverse_cons,
      List.append_assoc, List.singleton_append]

end

theorem readPieces_render_eq {node : Node} (h : node.IsPlain) :
    readPieces node.render.toList = some (piecesOfAll node.items) := by
  have hpieces := readPieces_render h []
  have hnil : readPieces [] = some [] := by rw [readPieces]
  rwa [List.append_nil, hnil, Option.map_some, List.append_nil] at hpieces

theorem exists_read_render {name : String} {attributes : List (String × String)}
    {children : List Node} (h : (Node.element name attributes children).IsPlain) :
    ∃ root, (Node.element name attributes children).items = [root] ∧
      read (Node.element name attributes children).render = some root := by
  have hitems : ∃ items, (Node.element name attributes children).items =
      [.element name attributes items] := by
    cases children with
    | nil => exact ⟨[], rfl⟩
    | cons child children => exact ⟨_, items_element name attributes (List.cons_ne_nil _ _)⟩
  obtain ⟨items, hitems⟩ := hitems
  have hnest : nest [] [] (piecesOfAll [.element name attributes items]) =
      some [.element name attributes items] := by
    have h := nest_piecesOfAll [] [] [] [.element name attributes items]
    rwa [List.append_nil] at h
  refine ⟨.element name attributes items, hitems, ?_⟩
  rw [read, readPieces_render_eq h, hitems, Option.bind_eq_bind, Option.bind_some, hnest]
  rfl

end ContextDiagram.Markup
