import Mathlib.Data.String.Basic

namespace ContextDiagram.Text

open String

def commaParts : List Char → List (List Char)
  | [] => [[]]
  | ',' :: ' ' :: cs => [] :: commaParts cs
  | c :: cs => (commaParts cs).modifyHead (c :: ·)

section

variable (l m r : List Char) (c : Char) (acc : List String)

theorem get_ofList_append : Pos.Raw.get (ofList (l ++ c :: r)) ⟨utf8Len l⟩ = c :=
  get_of_valid l (c :: r)

theorem next_ofList_append :
    Pos.Raw.next (ofList (l ++ c :: r)) ⟨utf8Len l⟩ = ⟨utf8Len (l ++ [c])⟩ := by
  rw [next_of_valid, utf8Len_append, utf8Len_cons, utf8Len_nil, Nat.zero_add]

theorem atEnd_ofList_append : Pos.Raw.atEnd (ofList (l ++ c :: r)) ⟨utf8Len l⟩ = false :=
  Bool.eq_false_iff.2 fun h => List.cons_ne_nil c r ((atEnd_of_valid l (c :: r)).1 h)

theorem splitOnAux_end (j : Pos.Raw) :
    (ofList (l ++ m)).splitOnAux ", " ⟨utf8Len l⟩ ⟨utf8Len (l ++ m)⟩ j acc =
      acc.reverse ++ [ofList m] := by
  have hextract := extract_of_valid l m []
  have hend := (atEnd_of_valid (l ++ m) []).2 rfl
  rw [List.append_nil] at hextract hend
  rw [splitOnAux, if_pos hend, utf8Len_append, hextract, List.reverse_cons]

theorem splitOnAux_start (b : Pos.Raw) :
    (ofList (l ++ c :: r)).splitOnAux ", " b ⟨utf8Len l⟩ 0 acc =
      if c = ',' then (ofList (l ++ c :: r)).splitOnAux ", " b ⟨utf8Len (l ++ [c])⟩ ⟨1⟩ acc
      else (ofList (l ++ c :: r)).splitOnAux ", " b ⟨utf8Len (l ++ [c])⟩ 0 acc := by
  have hfirst : Pos.Raw.get ", " 0 = ',' := get_ofList_append [] [' '] ','
  have hsecond : Pos.Raw.next ", " 0 = ⟨1⟩ := next_ofList_append [] [' '] ','
  have hend : Pos.Raw.atEnd ", " ⟨1⟩ = false := atEnd_ofList_append [','] [] ' '
  rw [splitOnAux, atEnd_ofList_append, if_neg Bool.false_ne_true, get_ofList_append, hfirst]
  by_cases hc : c = ','
  · subst hc
    simp only [beq_self_eq_true, if_true, next_ofList_append, hsecond, hend,
      if_neg Bool.false_ne_true]
  · rw [if_neg hc, if_neg (beq_iff_eq.not.2 hc)]
    exact congrArg (splitOnAux _ _ _ · _ _) (next_ofList_append l r c)

/-- Behind a comma: a blank ends the part, and anything else starts the search over. -/
theorem splitOnAux_comma :
    (ofList (l ++ m ++ ',' :: c :: r)).splitOnAux ", " ⟨utf8Len l⟩ ⟨utf8Len (l ++ m ++ [','])⟩ ⟨1⟩
        acc =
      if c = ' ' then
        (ofList (l ++ m ++ ',' :: c :: r)).splitOnAux ", " ⟨utf8Len (l ++ m ++ [',', c])⟩
          ⟨utf8Len (l ++ m ++ [',', c])⟩ 0 (ofList m :: acc)
      else
        (ofList (l ++ m ++ ',' :: c :: r)).splitOnAux ", " ⟨utf8Len l⟩
          ⟨utf8Len (l ++ m ++ [','])⟩ 0 acc := by
  have hsecond : Pos.Raw.get ", " ⟨1⟩ = ' ' := get_ofList_append [','] [] ' '
  have hthird : Pos.Raw.next ", " ⟨1⟩ = ⟨2⟩ := next_ofList_append [','] [] ' '
  have hend : Pos.Raw.atEnd ", " ⟨2⟩ = true := (atEnd_of_valid [',', ' '] []).2 rfl
  have hs : l ++ m ++ ',' :: c :: r = l ++ m ++ [','] ++ c :: r := by
    rw [List.append_assoc _ [',']]
    rfl
  rw [splitOnAux, hs, atEnd_ofList_append, get_ofList_append, hsecond, if_neg Bool.false_ne_true]
  by_cases hc : c = ' '
  · subst hc
    have hnext : l ++ m ++ [','] ++ [' '] = l ++ m ++ [',', ' '] := by
      rw [List.append_assoc _ [',']]
      rfl
    have hback : (⟨utf8Len (l ++ m ++ [',', ' '])⟩ : Pos.Raw).unoffsetBy ⟨2⟩ =
        ⟨utf8Len l + utf8Len m⟩ := by
      rw [utf8Len_append, utf8Len_append]
      rfl
    rw [if_pos (beq_self_eq_true _), if_pos rfl, next_ofList_append, hthird, if_pos hend, hnext,
      hback, ← hs, extract_of_valid]
  · have hback : (⟨utf8Len (l ++ m ++ [','])⟩ : Pos.Raw).unoffsetBy ⟨1⟩ = ⟨utf8Len (l ++ m)⟩ := by
      rw [utf8Len_append]
      rfl
    rw [if_neg (beq_iff_eq.not.2 hc), if_neg hc, hback, ← hs, next_ofList_append]

/-- The search has read `m` of the part that starts behind `l`. -/
theorem splitOnAux_eq :
    (ofList (l ++ m ++ r)).splitOnAux ", " ⟨utf8Len l⟩ ⟨utf8Len (l ++ m)⟩ 0 acc =
      acc.reverse ++ ((commaParts r).modifyHead (m ++ ·)).map ofList := by
  fun_induction commaParts r generalizing l m acc with
  | case1 =>
    rw [List.append_nil, splitOnAux_end, List.modifyHead_cons, List.append_nil, List.map_singleton]
  | case2 cs ih =>
    have h := ih (l ++ m ++ [',', ' ']) [] (ofList m :: acc)
    have hs : l ++ m ++ ',' :: ' ' :: cs = l ++ m ++ [',', ' '] ++ [] ++ cs := by
      rw [List.append_nil, List.append_assoc _ [',', ' ']]
      rfl
    rw [splitOnAux_start, if_pos rfl, splitOnAux_comma, if_pos rfl, hs]
    rw [List.append_nil] at h ⊢
    rw [h, List.reverse_cons, List.append_assoc, List.modifyHead_cons, List.append_nil,
      List.map_cons]
    exact congrArg _ (congrArg _ (congrArg _ (congrFun List.modifyHead_id _)))
  | case3 c cs hcs ih =>
    have h := ih l (m ++ [c]) acc
    have hs : l ++ m ++ c :: cs = l ++ (m ++ [c]) ++ cs := by
      rw [List.append_assoc, List.append_assoc, List.append_assoc]
      rfl
    have hparts : ((commaParts cs).modifyHead (c :: ·)).modifyHead (m ++ ·) =
        (commaParts cs).modifyHead ((m ++ [c]) ++ ·) := by
      rw [List.modifyHead_modifyHead]
      congr 1
      funext part
      exact (List.append_assoc m [c] part).symm
    rw [hparts, ← h, splitOnAux_start, List.append_assoc l m [c]]
    split
    · next hc =>
      subst hc
      cases cs with
      | nil => rw [hs, List.append_nil, splitOnAux_end, splitOnAux_end]
      | cons d cs =>
        have hd : d ≠ ' ' := by
          rintro rfl
          exact hcs cs rfl rfl
        rw [← List.append_assoc l m, splitOnAux_comma, if_neg hd, hs]
        simp only [List.append_assoc]
    · rw [hs]

end

theorem splitOn_eq (s : String) : s.splitOn ", " = (commaParts s.toList).map ofList := by
  have h := splitOnAux_eq [] [] s.toList []
  rw [List.nil_append, List.nil_append, ofList_toList] at h
  rw [splitOn, if_neg (by decide)]
  exact h.trans (congrArg (List.map ofList) (congrFun List.modifyHead_id _))

theorem commaParts_ne_nil (cs : List Char) : commaParts cs ≠ [] := by
  fun_induction commaParts cs with
  | case1 => exact List.cons_ne_nil _ _
  | case2 => exact List.cons_ne_nil _ _
  | case3 c cs _ ih => exact mt List.modifyHead_eq_nil_iff.1 ih

theorem commaParts_of_not_mem {cs : List Char} (h : ',' ∉ cs) : commaParts cs = [cs] := by
  fun_induction commaParts cs with
  | case1 => rfl
  | case2 => exact absurd List.mem_cons_self h
  | case3 c cs _ ih =>
    rw [ih fun hmem => h (List.mem_cons_of_mem _ hmem), List.modifyHead_cons]

theorem commaParts_append (cs ds : List Char) :
    commaParts (cs ++ ',' :: ' ' :: ds) = commaParts cs ++ commaParts ds := by
  fun_induction commaParts cs with
  | case1 => rfl
  | case2 cs ih => rw [List.cons_append, List.cons_append, commaParts, ih, List.cons_append]
  | case3 c cs hcs ih =>
    obtain ⟨part, parts, hparts⟩ := List.exists_cons_of_ne_nil (commaParts_ne_nil cs)
    have hnext : ∀ rest, c = ',' → cs ++ ',' :: ' ' :: ds ≠ ' ' :: rest := by
      intro rest hc he
      cases cs with
      | nil => cases he
      | cons d cs =>
        obtain ⟨rfl, -⟩ := List.cons.inj he
        exact hcs cs hc rfl
    rw [List.cons_append, commaParts, ih, hparts, List.cons_append, List.modifyHead_cons,
      List.modifyHead_cons, List.cons_append]
    exact hnext

theorem splitOn_intercalate {items : List String} (hne : items ≠ [])
    (h : ∀ item ∈ items, ',' ∉ item.toList) : (", ".intercalate items).splitOn ", " = items := by
  induction items with
  | nil => exact absurd rfl hne
  | cons item items ih =>
    obtain ⟨hitem, hitems⟩ := List.forall_mem_cons.1 h
    cases items with
    | nil =>
      rw [intercalate_singleton, splitOn_eq, commaParts_of_not_mem hitem, List.map_singleton,
        ofList_toList]
    | cons next items =>
      have hrest := ih (List.cons_ne_nil _ _) hitems
      have hsep : (item ++ ", " ++ ", ".intercalate (next :: items)).toList =
          item.toList ++ ',' :: ' ' :: (", ".intercalate (next :: items)).toList := by
        rw [toList_append, toList_append, List.append_assoc]
        rfl
      rw [splitOn_eq] at hrest
      rw [intercalate_cons_cons, splitOn_eq, hsep, commaParts_append, commaParts_of_not_mem hitem,
        List.map_append, hrest, List.map_singleton, ofList_toList, List.singleton_append]

/-- Whether an item stands in a text as a whole, or set off by `, ` from what is before and
behind. -/
def IsItemOf (item text : String) : Prop :=
  ∃ before behind, text = before ++ item ++ behind ∧
    (before = "" ∨ ∃ front, before = front ++ ", ") ∧ (behind = "" ∨ ∃ back, behind = ", " ++ back)

theorem isItemOf_intercalate {item : String} {items : List String} (h : item ∈ items) :
    IsItemOf item (", ".intercalate items) := by
  obtain ⟨front, back, rfl⟩ := List.append_of_mem h
  have hback : ∃ behind, ", ".intercalate (item :: back) = item ++ behind ∧
      (behind = "" ∨ ∃ rest, behind = ", " ++ rest) := by
    cases back with
    | nil => exact ⟨"", by rw [intercalate_singleton, append_empty], .inl rfl⟩
    | cons next back =>
      refine ⟨", " ++ ", ".intercalate (next :: back), ?_, .inr ⟨_, rfl⟩⟩
      rw [intercalate_cons_cons, append_assoc]
  obtain ⟨behind, hbehind, hcases⟩ := hback
  cases front with
  | nil => exact ⟨"", behind, by rw [List.nil_append, hbehind, empty_append], .inl rfl, hcases⟩
  | cons first front =>
    refine ⟨", ".intercalate (first :: front) ++ ", ", behind, ?_, .inr ⟨_, rfl⟩, hcases⟩
    rw [intercalate_append_of_ne_nil (List.cons_ne_nil _ _) (List.cons_ne_nil _ _), hbehind]
    exact append_assoc.symm

theorem IsItemOf.mem_splitOn {item text : String} (h : IsItemOf item text)
    (hitem : ',' ∉ item.toList) : item ∈ text.splitOn ", " := by
  obtain ⟨before, behind, rfl, hbefore, hbehind⟩ := h
  have hmem : item.toList ∈ commaParts (item.toList ++ behind.toList) := by
    rcases hbehind with rfl | ⟨back, rfl⟩
    · rw [toList_empty, List.append_nil, commaParts_of_not_mem hitem]
      exact List.mem_singleton_self _
    · rw [toList_append]
      change _ ∈ commaParts (item.toList ++ ',' :: ' ' :: back.toList)
      rw [commaParts_append, commaParts_of_not_mem hitem]
      exact List.mem_cons_self
  rw [splitOn_eq, toList_append, toList_append, List.append_assoc]
  refine List.mem_map.2 ⟨item.toList, ?_, ofList_toList⟩
  rcases hbefore with rfl | ⟨front, rfl⟩
  · exact hmem
  · rw [toList_append, List.append_assoc]
    change _ ∈ commaParts (front.toList ++ ',' :: ' ' :: (item.toList ++ behind.toList))
    rw [commaParts_append]
    exact List.mem_append_right _ hmem

end ContextDiagram.Text
