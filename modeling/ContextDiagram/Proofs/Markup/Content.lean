import ContextDiagram.Proofs.Markup.Occurrences
import ContextDiagram.Proofs.Markup.RoundTrip

namespace ContextDiagram.Markup

mutual

def Item.restrict (keys : List String) : Item → Item
  | .character c => .character c
  | .element name attributes items =>
    .element name (attributes.filter (·.1 ∈ keys)) (restrictItems keys items)

def restrictItems (keys : List String) : List Item → List Item
  | [] => []
  | item :: items => item.restrict keys :: restrictItems keys items

end

mutual

def Node.restrict (keys : List String) : Node → Node
  | .text content => .text content
  | .element name attributes children =>
    .element name (attributes.filter (·.1 ∈ keys)) (restrictAll keys children)

def restrictAll (keys : List String) : List Node → List Node
  | [] => []
  | node :: nodes => node.restrict keys :: restrictAll keys nodes

end

mutual

def Item.keys : Item → List String
  | .character _ => []
  | .element _ attributes items => attributes.map Prod.fst ++ keysOfAll items

def keysOfAll : List Item → List String
  | [] => []
  | item :: items => item.keys ++ keysOfAll items

end

def Item.character? : Item → Option Char
  | .character c => some c
  | .element _ _ _ => none

mutual

/-- What stands in the elements for texts, in order. -/
def Item.contents : Item → List String
  | .character _ => []
  | .element name _ items =>
    if name = "text" then [String.ofList (items.filterMap Item.character?)]
    else contentsOfAll items

def contentsOfAll : List Item → List String
  | [] => []
  | item :: items => item.contents ++ contentsOfAll items

end

mutual

/-- How many elements have a name that begins with a string. -/
def Node.count (s : String) : Node → Nat
  | .text _ => 0
  | .element name _ children =>
    (if s.toList.isPrefixOf name.toList then 1 else 0) + countAll s children

def countAll (s : String) : List Node → Nat
  | [] => 0
  | node :: nodes => node.count s + countAll s nodes

end

inductive Node.UsesOnly (names keys : List String) : Node → Prop
  | text (content : String) : UsesOnly names keys (.text content)
  | element {name : String} {attributes : List (String × String)} {children : List Node}
    (named : name ∈ names) (keyed : attributes.map Prod.fst ⊆ keys)
    (inside : ∀ child ∈ children, child.UsesOnly names keys) :
    UsesOnly names keys (.element name attributes children)

section

variable {keys : List String}

theorem restrictItems_eq_map (items : List Item) :
    restrictItems keys items = items.map (Item.restrict keys) := by
  induction items with
  | nil => rfl
  | cons item items ih => rw [restrictItems, List.map_cons, ih]

theorem restrictAll_eq_map (nodes : List Node) :
    restrictAll keys nodes = nodes.map (Node.restrict keys) := by
  induction nodes with
  | nil => rfl
  | cons node nodes ih => rw [restrictAll, List.map_cons, ih]

mutual

theorem items_restrict : ∀ node : Node, (node.restrict keys).items = restrictItems keys node.items
  | .text content => by
    rw [Node.restrict, Node.items, restrictItems_eq_map, List.map_map]
    rfl
  | .element name attributes [] => rfl
  | .element name attributes (child :: children) => by
    have h := items_restrictAll (child :: children)
    rw [restrictAll] at h
    rw [Node.restrict, restrictAll, Node.items, h, Node.items]
    rfl

theorem items_restrictAll :
    ∀ nodes : List Node,
      itemsOfLines (restrictAll keys nodes) = restrictItems keys (itemsOfLines nodes)
  | [] => rfl
  | node :: nodes => by
    rw [restrictAll, itemsOfLines, items_restrict node, items_restrictAll nodes, itemsOfLines,
      restrictItems_eq_map, restrictItems_eq_map, restrictItems_eq_map, List.map_cons,
      List.map_append]
    rfl

end

mutual

theorem contents_restrict : ∀ item : Item, (item.restrict keys).contents = item.contents
  | .character c => rfl
  | .element name attributes items => by
    have hcharacters : (restrictItems keys items).filterMap Item.character? =
        items.filterMap Item.character? := by
      rw [restrictItems_eq_map, List.filterMap_map]
      apply List.filterMap_congr
      intro item _
      cases item <;> rfl
    rw [Item.restrict, Item.contents, hcharacters, contentsOfAll_restrictItems items, Item.contents]

theorem contentsOfAll_restrictItems :
    ∀ items : List Item, contentsOfAll (restrictItems keys items) = contentsOfAll items
  | [] => rfl
  | item :: items => by
    rw [restrictItems, contentsOfAll, contents_restrict item, contentsOfAll_restrictItems items,
      contentsOfAll]

end

end

/-- The line ends between children may be left out where nothing is found in them. -/
theorem flatMap_itemsOfLines {β : Type} {f : Item → List β} (h : f (.character '\n') = [])
    (nodes : List Node) :
    (itemsOfLines nodes).flatMap f = nodes.flatMap fun node => node.items.flatMap f := by
  induction nodes with
  | nil =>
    rw [itemsOfLines, List.flatMap_singleton, h]
    rfl
  | cons node nodes ih =>
    rw [itemsOfLines, List.flatMap_cons, h, List.nil_append, List.flatMap_append, ih,
      List.flatMap_cons]

theorem contentsOfAll_eq_flatMap (items : List Item) :
    contentsOfAll items = items.flatMap Item.contents := by
  induction items with
  | nil => rfl
  | cons item items ih => rw [contentsOfAll, ih, List.flatMap_cons]

theorem contentsOfAll_items {name : String} (h : name ≠ "text")
    (attributes : List (String × String)) (children : List Node) :
    contentsOfAll (Node.element name attributes children).items =
      children.flatMap fun child => contentsOfAll child.items := by
  simp only [contentsOfAll_eq_flatMap]
  cases children with
  | nil =>
    rw [Node.items, List.flatMap_singleton, Item.contents, if_neg h]
    rfl
  | cons child children =>
    rw [Node.items, List.flatMap_singleton, Item.contents, if_neg h, contentsOfAll_eq_flatMap,
      flatMap_itemsOfLines rfl]

section

variable {s : String}

mutual

theorem countP_pieces :
    ∀ node : Node, (piecesOfAll node.items).countP (Piece.begins s) = node.count s
  | .text content => by
    rw [Node.items, piecesOfAll_characters, Node.count, List.countP_eq_zero]
    intro p hp
    obtain ⟨c, -, rfl⟩ := List.mem_map.1 hp
    nofun
  | .element name attributes [] => by
    rw [Node.items, piecesOfAll, Node.count, countAll]
    exact List.countP_singleton
  | .element name attributes (child :: children) => by
    rw [items_element name attributes (List.cons_ne_nil _ _), piecesOfAll,
      pieces_element name attributes (itemsOfLines_ne_nil _), piecesOfAll, List.append_nil,
      List.countP_cons, List.countP_append, countP_piecesOfAll, Node.count, Nat.add_comm]
    rfl

theorem countP_piecesOfAll :
    ∀ nodes : List Node,
      (piecesOfAll (itemsOfLines nodes)).countP (Piece.begins s) = countAll s nodes
  | [] => rfl
  | node :: nodes => by
    rw [itemsOfLines, piecesOfAll, piecesOfAll_append, Item.pieces, List.countP_append,
      List.countP_append, countP_pieces node, countP_piecesOfAll nodes, countAll]
    exact Nat.zero_add _

end

mutual

theorem count_restrict (keys : List String) :
    ∀ node : Node, (node.restrict keys).count s = node.count s
  | .text content => rfl
  | .element name attributes children => by
    rw [Node.restrict, Node.count, countAll_restrictAll keys children, Node.count]

theorem countAll_restrictAll (keys : List String) :
    ∀ nodes : List Node, countAll s (restrictAll keys nodes) = countAll s nodes
  | [] => rfl
  | node :: nodes => by
    rw [restrictAll, countAll, count_restrict keys node, countAll_restrictAll keys nodes, countAll]

end

end

theorem keysOfAll_eq_flatMap (items : List Item) :
    keysOfAll items = items.flatMap Item.keys := by
  induction items with
  | nil => rfl
  | cons item items ih => rw [keysOfAll, ih, List.flatMap_cons]

theorem keysOfAll_element (name : String) (attributes : List (String × String))
    (children : List Node) :
    keysOfAll (Node.element name attributes children).items =
      attributes.map Prod.fst ++ children.flatMap fun child => keysOfAll child.items := by
  simp only [keysOfAll_eq_flatMap]
  cases children with
  | nil =>
    rw [Node.items, List.flatMap_singleton, Item.keys]
    rfl
  | cons child children =>
    rw [Node.items, List.flatMap_singleton, Item.keys, keysOfAll_eq_flatMap,
      flatMap_itemsOfLines rfl]

theorem Node.UsesOnly.keysOfAll_subset {names keys : List String} {node : Node}
    (h : node.UsesOnly names keys) : keysOfAll node.items ⊆ keys := by
  induction h with
  | text content =>
    intro key hkey
    rw [Node.items, keysOfAll_eq_flatMap, List.flatMap_map] at hkey
    obtain ⟨c, -, hkey⟩ := List.mem_flatMap.1 hkey
    cases hkey
  | element named keyed inside ih =>
    rw [keysOfAll_element]
    refine List.append_subset.2 ⟨keyed, fun key hkey => ?_⟩
    obtain ⟨child, hchild, hkey⟩ := List.mem_flatMap.1 hkey
    exact ih child hchild hkey

theorem Node.UsesOnly.isPlain {names keys : List String} {node : Node}
    (h : node.UsesOnly names keys) (named : "" ∉ names)
    (letters : ∀ s ∈ names ++ keys, ∀ c ∈ s.toList, isNameChar c) : node.IsPlain := by
  induction h with
  | text content => exact .text content
  | element hname hkeys _ ih =>
    refine .element (fun he => named (he ▸ hname)) (letters _ (List.mem_append_left _ hname)) ?_ ih
    exact fun key hkey => letters key (List.mem_append_right _ (hkeys hkey))

end ContextDiagram.Markup
