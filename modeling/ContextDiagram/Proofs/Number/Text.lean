import ContextDiagram.Number.Shortest
import ContextDiagram.Proofs.Number.Hypotenuse

namespace ContextDiagram.Number

def ShowsNonFinite (s : String) : Prop :=
  "NaN".toList <:+: s.toList ∨ "inf".toList <:+: s.toList

/-- Whether a text lacks a letter of each of the two words. -/
structure IsPlain (s : String) : Prop where
  not_mem_N : 'N' ∉ s.toList
  not_mem_f : 'f' ∉ s.toList

theorem IsPlain.not_showsNonFinite {s : String} (h : IsPlain s) : ¬ShowsNonFinite s := by
  rintro (hpart | hpart)
  · exact h.not_mem_N (hpart.subset (by decide))
  · exact h.not_mem_f (hpart.subset (by decide))

theorem IsPlain.append {s t : String} (hs : IsPlain s) (ht : IsPlain t) : IsPlain (s ++ t) := by
  constructor
  · rw [String.toList_append, List.mem_append, not_or]
    exact ⟨hs.not_mem_N, ht.not_mem_N⟩
  · rw [String.toList_append, List.mem_append, not_or]
    exact ⟨hs.not_mem_f, ht.not_mem_f⟩

theorem isPlain_of_forall {s : String}
    (h : ∀ c ∈ s.toList, c.isDigit = true ∨ c = '.' ∨ c = '-') : IsPlain s := by
  constructor
  · intro hmem
    exact absurd (h 'N' hmem) (by decide)
  · intro hmem
    exact absurd (h 'f' hmem) (by decide)

theorem isPlain_positional (digits : ℕ) (place : ℤ) : IsPlain (positional digits place) := by
  have hdigits (c) (hc : c ∈ Nat.toDigits 10 digits) : c.isDigit = true :=
    Nat.isDigit_of_mem_toDigits (by norm_num) le_rfl hc
  have hzeros {n : ℕ} (c) (hc : c ∈ List.replicate n '0') : c.isDigit = true := by
    rw [List.eq_of_mem_replicate hc]
    rfl
  apply isPlain_of_forall
  rw [positional]
  dsimp only
  split
  · rw [String.toList_ofList]
    exact List.forall_mem_append.2
      ⟨fun c hc => .inl (hdigits c hc), fun c hc => .inl (hzeros c hc)⟩
  · rw [String.toList_ofList]
    have hall : ∀ c ∈ List.replicate ((-place).toNat + 1 - (Nat.toDigits 10 digits).length) '0' ++
        Nat.toDigits 10 digits, c.isDigit = true := List.forall_mem_append.2 ⟨hzeros, hdigits⟩
    refine List.forall_mem_append.2 ⟨fun c hc => .inl (hall c (List.mem_of_mem_take hc)), ?_⟩
    exact List.forall_mem_cons.2
      ⟨.inr (.inl rfl), fun c hc => .inl (hall c (List.mem_of_mem_drop hc))⟩

theorem isPlain_text {x : Float32} (h : x.isFinite = true) : IsPlain (text x) := by
  obtain ⟨r, hr⟩ := isFinite_iff.1 h
  obtain ⟨negative, m, e, hdatum, -⟩ := exists_eq_finite hr
  have hzero : IsPlain "0" := ⟨by decide, by decide⟩
  have hsign : IsPlain "-" := ⟨by decide, by decide⟩
  have hmagnitude : IsPlain (if m = 0 then "0" else
      positional (shortest m e).1 (shortest m e).2) := by
    split
    · exact hzero
    · exact isPlain_positional _ _
  rw [text, hdatum]
  dsimp only
  split
  · exact hsign.append hmagnitude
  · exact hmagnitude

end ContextDiagram.Number
