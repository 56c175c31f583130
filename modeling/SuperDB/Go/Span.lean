import Mathlib

/-!
# Half-open intervals that partition an order

A span runs from its first key up to, but not including, its last; the least key of all as last
key stands for no upper end. A family of spans partitions the keys if each key is in exactly one of
them. Cutting one span of a family in two keeps a partition exactly if the cut lies within the
span.
-/

namespace SuperDB.Go

/-- A half-open interval. -/
structure Span (α : Type) where
  first : α
  last : α

namespace Span

variable {α : Type} [LinearOrder α] [OrderBot α]

def Mem (s : Span α) (k : α) : Prop := s.first ≤ k ∧ (s.last = ⊥ ∨ k < s.last)

def Proper (s : Span α) : Prop := s.last = ⊥ ∨ s.first ≤ s.last

/-- A key at which the span can be cut, an end included. The least key is none, as it would be
read as no upper end. -/
def Within (s : Span α) (m : α) : Prop := m ≠ ⊥ ∧ s.first ≤ m ∧ (s.last = ⊥ ∨ m ≤ s.last)

def left (s : Span α) (m : α) : Span α := ⟨s.first, m⟩

def right (s : Span α) (m : α) : Span α := ⟨m, s.last⟩

/-- The two parts hold the keys of the span, each of them once. -/
def Splits (s : Span α) (m : α) : Prop :=
  ∀ k, ((s.left m).Mem k ∨ (s.right m).Mem k ↔ s.Mem k) ∧ ¬((s.left m).Mem k ∧ (s.right m).Mem k)

variable {s : Span α} {m : α}

theorem Within.splits (h : s.Within m) : s.Splits m := by
  obtain ⟨hm, hfirst, hlast⟩ := h
  intro k
  simp only [Mem, left, right]
  refine ⟨⟨?_, ?_⟩, ?_⟩
  · rintro (⟨hk, hk'⟩ | ⟨hk, hk'⟩)
    · exact ⟨hk, hlast.imp_right fun hle => lt_of_lt_of_le (hk'.resolve_left hm) hle⟩
    · exact ⟨le_trans hfirst hk, hk'⟩
  · rintro ⟨hk, hk'⟩
    rcases lt_or_ge k m with hlt | hge
    · exact Or.inl ⟨hk, Or.inr hlt⟩
    · exact Or.inr ⟨hge, hk'⟩
  · rintro ⟨⟨-, hlt⟩, hge, -⟩
    exact absurd (hlt.resolve_left hm) (not_lt.2 hge)

theorem Splits.within (hs : s.Proper) (h : s.Splits m) : s.Within m := by
  simp only [Splits, Mem, left, right] at h
  have hfirst := h s.first
  have hcut := h m
  have hlast := h s.last
  refine ⟨fun hm => ?_, le_of_not_gt fun hlt => ?_, ?_⟩
  · -- the left part has no upper end, so it holds the first key, which the span or both parts do
    subst hm
    have hmem := hfirst.1.1 (Or.inl ⟨le_refl _, Or.inl rfl⟩)
    exact hfirst.2 ⟨⟨le_refl _, Or.inl rfl⟩, bot_le, hmem.2⟩
  · -- the right part starts below the span
    have hmem := hcut.1.1 (Or.inr ⟨le_refl _, hs.imp_right fun hle => lt_of_lt_of_le hlt hle⟩)
    exact absurd hmem.1 (not_le.2 hlt)
  · -- the left part ends above the span
    by_cases hbot : s.last = ⊥
    · exact Or.inl hbot
    · refine Or.inr (le_of_not_gt fun hlt => ?_)
      have hmem := hlast.1.1 (Or.inl ⟨hs.resolve_left hbot, Or.inr hlt⟩)
      exact absurd (hmem.2.resolve_left hbot) (lt_irrefl _)

theorem splits_iff (hs : s.Proper) : s.Splits m ↔ s.Within m := ⟨Splits.within hs, Within.splits⟩

theorem Within.proper_left (h : s.Within m) : (s.left m).Proper := Or.inr h.2.1

theorem Within.proper_right (h : s.Within m) : (s.right m).Proper := h.2.2

/-! ## Families -/

variable {ι : Type} {f f' : ι → Option (Span α)}

/-- Every key is in exactly one span. -/
def Partitions (f : ι → Option (Span α)) : Prop := ∀ k, ∃! i, ∃ s, f i = some s ∧ s.Mem k

theorem partitions_single {i : ι} (hi : f i = some ⟨⊥, ⊥⟩) (hother : ∀ j, j ≠ i → f j = none) :
    Partitions f := by
  refine fun k => ⟨i, ⟨_, hi, bot_le, Or.inl rfl⟩, ?_⟩
  rintro j ⟨s, hj, -⟩
  by_contra hne
  rw [hother j hne] at hj
  cases hj

/-- `f'` is `f` with the span at `i` cut at `m` into those at `l` and `r`. -/
structure Cut (f f' : ι → Option (Span α)) (i l r : ι) (s : Span α) (m : α) : Prop where
  old : f i = some s
  gone : f' i = none
  left : f' l = some (s.left m)
  right : f' r = some (s.right m)
  free_left : f l = none
  free_right : f r = none
  distinct : l ≠ r
  other : ∀ j, j ≠ i → j ≠ l → j ≠ r → f' j = f j

theorem Cut.mem_iff {i l r : ι} (h : Cut f f' i l r s m) (j : ι) (k : α) :
    (∃ s', f' j = some s' ∧ s'.Mem k) ↔
      j = l ∧ (s.left m).Mem k ∨ j = r ∧ (s.right m).Mem k ∨
        j ≠ i ∧ j ≠ l ∧ j ≠ r ∧ ∃ s', f j = some s' ∧ s'.Mem k := by
  have hil : i ≠ l := fun e => by
    have hold := h.old
    rw [e, h.free_left] at hold
    cases hold
  have hir : i ≠ r := fun e => by
    have hold := h.old
    rw [e, h.free_right] at hold
    cases hold
  by_cases hl : j = l
  · subst hl
    simp [h.left, h.distinct]
  · by_cases hr : j = r
    · subst hr
      simp [h.right, hl]
    · by_cases hi : j = i
      · subst hi
        simp [h.gone, hl, hr]
      · simp [h.other j hi hl hr, hl, hr, hi]

/-- **A cut keeps a partition exactly if it lies within the span.** -/
theorem Partitions.cut_iff {i l r : ι} (hf : Partitions f) (h : Cut f f' i l r s m)
    (hs : s.Proper) : Partitions f' ↔ s.Within m := by
  rw [← splits_iff hs]
  -- the spans of the others hold a key exactly if that of `i` does not
  have hother : ∀ k, (∃ j, j ≠ i ∧ j ≠ l ∧ j ≠ r ∧ ∃ s', f j = some s' ∧ s'.Mem k) ↔ ¬s.Mem k := by
    intro k
    obtain ⟨j, ⟨s', hj, hk⟩, hunique⟩ := hf k
    constructor
    · rintro ⟨j', hi, -, -, hj'⟩ hmem
      exact hi ((hunique j' hj').trans (hunique i ⟨s, h.old, hmem⟩).symm)
    · intro hmem
      refine ⟨j, ?_, ?_, ?_, s', hj, hk⟩
      · rintro rfl
        rw [h.old] at hj
        cases hj
        exact hmem hk
      · rintro rfl
        rw [h.free_left] at hj
        cases hj
      · rintro rfl
        rw [h.free_right] at hj
        cases hj
  constructor
  · intro hf' k
    obtain ⟨j, hj, hunique⟩ := hf' k
    simp only [h.mem_iff] at hj hunique
    have hboth : ¬((s.left m).Mem k ∧ (s.right m).Mem k) := fun ⟨hl, hr⟩ =>
      h.distinct ((hunique l (Or.inl ⟨rfl, hl⟩)).trans (hunique r (Or.inr (Or.inl ⟨rfl, hr⟩))).symm)
    refine ⟨⟨fun hpart => ?_, fun hmem => ?_⟩, hboth⟩
    · by_contra hmem
      obtain ⟨j', hi', hl', hr', hj'⟩ := (hother k).2 hmem
      have hjj := hunique j' (Or.inr (Or.inr ⟨hi', hl', hr', hj'⟩))
      rcases hpart with hl | hr
      · exact hl' (hjj.trans (hunique l (Or.inl ⟨rfl, hl⟩)).symm)
      · exact hr' (hjj.trans (hunique r (Or.inr (Or.inl ⟨rfl, hr⟩))).symm)
    · rcases hj with ⟨-, hl⟩ | ⟨-, hr⟩ | hrest
      · exact Or.inl hl
      · exact Or.inr hr
      · exact absurd hmem ((hother k).1 ⟨j, hrest⟩)
  · intro hsplit k
    obtain ⟨hiff, hboth⟩ := hsplit k
    simp only [h.mem_iff]
    by_cases hmem : s.Mem k
    · have hnone : ∀ j, ¬(j ≠ i ∧ j ≠ l ∧ j ≠ r ∧ ∃ s', f j = some s' ∧ s'.Mem k) :=
        fun j hj => (hother k).1 ⟨j, hj⟩ hmem
      rcases hiff.2 hmem with hl | hr
      · refine ⟨l, Or.inl ⟨rfl, hl⟩, ?_⟩
        rintro j (⟨rfl, -⟩ | ⟨-, hr⟩ | hrest)
        · rfl
        · exact absurd ⟨hl, hr⟩ hboth
        · exact absurd hrest (hnone j)
      · refine ⟨r, Or.inr (Or.inl ⟨rfl, hr⟩), ?_⟩
        rintro j (⟨-, hl⟩ | ⟨rfl, -⟩ | hrest)
        · exact absurd ⟨hl, hr⟩ hboth
        · rfl
        · exact absurd hrest (hnone j)
    · obtain ⟨j, hj⟩ := (hother k).2 hmem
      refine ⟨j, Or.inr (Or.inr hj), ?_⟩
      rintro j' (⟨-, hl⟩ | ⟨-, hr⟩ | hj')
      · exact absurd (hiff.1 (Or.inl hl)) hmem
      · exact absurd (hiff.1 (Or.inr hr)) hmem
      · exact (hf k).unique hj'.2.2.2 hj.2.2.2

end Span

end SuperDB.Go
