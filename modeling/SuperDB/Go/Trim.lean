import SuperDB.Go.Strings

/-!
# Trimming white space

What `strings.TrimSpace` leaves starts with no white space, and nothing that it starts with does.
-/

namespace SuperDB.Go

variable {s t : Bytes} {a : UInt8}

theorem spaceWidth_start (h : s <+: t) (ht : spaceWidth t = 0) : spaceWidth s = 0 := by
  obtain ⟨u, rfl⟩ := h
  match s, u with
  | [], _ => rfl
  | [a], [] => exact ht
  | [a], [b] =>
    simp only [List.singleton_append, spaceWidth] at ht ⊢
    split_ifs at ht ⊢
    rfl
  | [a], b :: c :: u =>
    simp only [List.singleton_append, spaceWidth] at ht ⊢
    split_ifs at ht ⊢
    rfl
  | [a, b], [] => exact ht
  | [a, b], c :: u =>
    simp only [List.cons_append, List.nil_append, spaceWidth] at ht ⊢
    split_ifs at ht ⊢
    rfl
  | a :: b :: c :: s, u =>
    simp only [List.cons_append, spaceWidth] at ht ⊢
    exact ht

theorem spaceWidth_trimLeftFrom (skip : Nat) (s : Bytes) : spaceWidth (trimLeftFrom skip s) =
    0 := by
  induction s generalizing skip with
  | nil => cases skip <;> rfl
  | cons a s ih =>
    cases skip with
    | succ skip => exact ih skip
    | zero =>
      simp only [trimLeftFrom]
      split
      · next h => exact h
      · exact ih _

theorem spaceWidth_trimLeft (s : Bytes) : spaceWidth (trimLeft s) = 0 := spaceWidth_trimLeftFrom 0 s

theorem trimLeft_of_spaceWidth (h : spaceWidth s = 0) : trimLeft s = s := by
  cases s with
  | nil => rfl
  | cons a s => simp only [trimLeft, trimLeftFrom, h]

theorem trimRight_start (s : Bytes) : trimRight s <+: s := by
  induction s with
  | nil => exact List.prefix_refl _
  | cons a s ih =>
    simp only [trimRight]
    split
    · exact List.nil_prefix
    · exact (List.prefix_cons_inj a).2 ih

theorem spaceWidth_trimSpace (s : Bytes) : spaceWidth (trimSpace s) = 0 :=
  spaceWidth_start (trimRight_start _) (spaceWidth_trimLeft s)

theorem trimSpace_start (h : s <+: trimSpace t) : trimSpace s <+: s := by
  rw [trimSpace, trimLeft_of_spaceWidth (spaceWidth_start h (spaceWidth_trimSpace t))]
  exact trimRight_start s

/-! ## Texts that stay as they are -/

theorem ascii_spaces (ha : a < 0x80) :
    (∀ b, space2 b a = false) ∧ (∀ b c, space3 b a c = false) ∧ ∀ b c, space3 b c a = false := by
  have hbyte : ∀ a : UInt8, a < 0x80 → (a == 0x85 || a == 0xA0) = false ∧ (a == 0x9A) = false ∧
      (a == 0x80) = false ∧ (a == 0x81) = false ∧ (a == 0x9F) = false ∧
      ((0x80 ≤ a && a ≤ 0x8A) || a == 0xA8 || a == 0xA9 || a == 0xAF) = false := by decide +kernel
  obtain ⟨h₁, h₂, h₃, h₄, h₅, h₆⟩ := hbyte a ha
  refine ⟨fun b => ?_, fun b c => ?_, fun b c => ?_⟩
  · rw [space2, h₁, Bool.and_false]
  · simp [space3, h₂, h₃, h₄]
  · rw [space3, h₃, h₅, h₆]
    simp

theorem spaceWidth_of_head (ha : a < 0x80) (hspace : space1 a = false) (s : Bytes) :
    spaceWidth (a :: s) = 0 := by
  have hbyte : ∀ a : UInt8, a < 0x80 → (a == 0xC2) = false ∧ (a == 0xE1) = false ∧
      (a == 0xE2) = false ∧ (a == 0xE3) = false := by decide +kernel
  obtain ⟨h₁, h₂, h₃, h₄⟩ := hbyte a ha
  match s with
  | [] => simp [spaceWidth, hspace]
  | [b] => simp [spaceWidth, hspace, space2, h₁]
  | b :: c :: s => simp [spaceWidth, hspace, space2, space3, h₁, h₂, h₃, h₄]

theorem spaceWidth_append_ascii {b : UInt8} (ha : a < 0x80) (u t : Bytes) :
    spaceWidth (b :: u ++ a :: t) = spaceWidth (b :: u) := by
  obtain ⟨h₂, h₃, h₃'⟩ := ascii_spaces ha
  match u, t with
  | [], [] => simp [spaceWidth, h₂]
  | [], c :: t => simp [spaceWidth, h₂, h₃]
  | [c], t => simp [spaceWidth, h₃']
  | c :: d :: u, t => rfl

theorem spaceWidth_le_length (s : Bytes) : spaceWidth s ≤ s.length := by
  match s with
  | [] => exact Nat.le_refl _
  | [a] =>
    simp only [spaceWidth, List.length_singleton]
    split <;> omega
  | [a, b] =>
    simp only [spaceWidth, List.length_cons, List.length_nil]
    split_ifs <;> omega
  | a :: b :: c :: s =>
    simp only [spaceWidth, List.length_cons]
    split_ifs <;> omega

theorem trimLeftFrom_space {w : Nat} (h : spaceWidth (a :: s) = w + 1) :
    trimLeftFrom 0 (a :: s) = trimLeftFrom w s := by
  rw [trimLeftFrom, h]

theorem trimLeftFrom_append_ascii (ha : a < 0x80) (t : Bytes) {skip : Nat} {u : Bytes}
    (h : skip ≤ u.length) :
    trimLeftFrom skip (u ++ a :: t) =
      if trimLeftFrom skip u = [] then trimLeft (a :: t) else trimLeftFrom skip u ++ a :: t := by
  induction u generalizing skip with
  | nil =>
    obtain rfl : skip = 0 := Nat.le_zero.1 h
    rfl
  | cons b u ih =>
    cases skip with
    | succ skip => exact ih (Nat.le_of_succ_le_succ h)
    | zero =>
      have hwidth := spaceWidth_append_ascii (b := b) ha u t
      have hle := spaceWidth_le_length (b :: u)
      cases hw : spaceWidth (b :: u) with
      | zero =>
        have hkeep : trimLeftFrom 0 (b :: u) = b :: u := trimLeft_of_spaceWidth hw
        have hkeep' : trimLeftFrom 0 (b :: u ++ a :: t) = b :: u ++ a :: t :=
          trimLeft_of_spaceWidth (hwidth.trans hw)
        rw [hkeep, hkeep', if_neg (List.cons_ne_nil _ _)]
      | succ w =>
        rw [hw, List.length_cons] at hle
        have hdrop : trimLeftFrom 0 (b :: u ++ a :: t) = trimLeftFrom w (u ++ a :: t) :=
          trimLeftFrom_space (hwidth.trans hw)
        rw [trimLeftFrom_space hw, hdrop]
        exact ih (by omega)

theorem trimLeft_append_ascii (ha : a < 0x80) (u t : Bytes) :
    trimLeft (u ++ a :: t) =
      if trimLeft u = [] then trimLeft (a :: t) else trimLeft u ++ a :: t :=
  trimLeftFrom_append_ascii ha t (Nat.zero_le _)

theorem trimLeft_ne_nil (ha : a < 0x80) (hspace : space1 a = false) (u : Bytes) :
    trimLeft (u ++ [a]) ≠ [] := by
  have hself : trimLeft [a] = [a] := trimLeft_of_spaceWidth (by simp [spaceWidth, hspace])
  rw [trimLeft_append_ascii ha, hself]
  split
  · exact List.cons_ne_nil _ _
  · simp

theorem trimRight_of_last (ha : a < 0x80) (hspace : space1 a = false) (s : Bytes) :
    trimRight (s ++ [a]) = s ++ [a] := by
  induction s with
  | nil =>
    have hne := trimLeft_ne_nil ha hspace []
    rw [List.nil_append] at hne ⊢
    rw [trimRight, if_neg hne]
    rfl
  | cons b s ih =>
    have hne := trimLeft_ne_nil ha hspace (b :: s)
    rw [List.cons_append] at hne ⊢
    rw [trimRight, if_neg hne, ih]

theorem trimRight_blank (s : Bytes) : trimRight (s ++ [32]) = trimRight s := by
  induction s with
  | nil => decide
  | cons b s ih =>
    have hcut := trimLeft_append_ascii (show (32 : UInt8) < 0x80 by decide) (b :: s) []
    rw [List.cons_append] at hcut ⊢
    rw [trimRight, trimRight, ih, hcut]
    have hblank : trimLeft [32] = [] := by decide
    by_cases hnil : trimLeft (b :: s) = []
    · rw [if_pos hnil, if_pos hnil, if_pos hblank]
    · rw [if_neg hnil, if_neg hnil, if_neg (by simp)]

theorem trimSpace_blank_left (s : Bytes) : trimSpace (32 :: s) = trimSpace s := by
  have hwidth : spaceWidth (32 :: s) = 1 := by
    match s with
    | [] => rfl
    | [a] => rfl
    | a :: b :: s => rfl
  unfold trimSpace trimLeft
  rw [trimLeftFrom, hwidth]

theorem spaceWidth_of_trimmed (h : trimSpace s = s) : spaceWidth s = 0 := by
  rw [← h]
  exact spaceWidth_trimSpace s

theorem trimSpace_blank_right (h : trimSpace s = s) : trimSpace (s ++ [32]) = s := by
  cases s with
  | nil => decide
  | cons b s =>
    have hzero := spaceWidth_of_trimmed h
    have hright : trimRight (b :: s) = b :: s := by
      rw [trimSpace, trimLeft_of_spaceWidth hzero] at h
      exact h
    rw [trimSpace, trimLeft_of_spaceWidth ((spaceWidth_append_ascii (by decide) s []).trans hzero),
      trimRight_blank, hright]

theorem trimSpace_of_ends {b : UInt8} (hs : s ≠ []) (h : trimSpace s = s) (hb : b < 0x80)
    (ha : a < 0x80) (hspace : space1 a = false) :
    trimSpace (s ++ b :: t ++ [a]) = s ++ b :: t ++ [a] := by
  cases s with
  | nil => exact absurd rfl hs
  | cons c s =>
    have hwidth : spaceWidth (c :: s ++ b :: t ++ [a]) = 0 := by
      have hassoc : c :: s ++ b :: t ++ [a] = c :: s ++ b :: (t ++ [a]) := by simp
      rw [hassoc, spaceWidth_append_ascii hb]
      exact spaceWidth_of_trimmed h
    rw [trimSpace, trimLeft_of_spaceWidth hwidth, trimRight_of_last ha hspace]

/-! ## What trimming keeps -/

section Count

variable {c : UInt8} (hc : c < 0x80) (hspace : space1 c = false)

include hc hspace

theorem not_mem_spaceWidth (s : Bytes) : c ∉ s.take (spaceWidth s) := by
  obtain ⟨h₂, h₃, h₃'⟩ := ascii_spaces hc
  cases s with
  | nil => exact List.not_mem_nil
  | cons a s =>
    by_cases ha : a = c
    · rw [ha, spaceWidth_of_head hc hspace]
      exact List.not_mem_nil
    match s with
    | [] =>
      rw [spaceWidth]
      split <;> simp [Ne.symm ha]
    | [b] =>
      rw [spaceWidth]
      split_ifs with _ htwo
      · simp [Ne.symm ha]
      · have hb : c ≠ b := fun h => by rw [← h, h₂] at htwo; cases htwo
        simp [Ne.symm ha, hb]
      · simp
    | b :: d :: s =>
      rw [spaceWidth]
      split_ifs with _ htwo hthree
      · simp [Ne.symm ha]
      · have hb : c ≠ b := fun h => by rw [← h, h₂] at htwo; cases htwo
        simp [Ne.symm ha, hb]
      · have hb : c ≠ b := fun h => by rw [← h, h₃] at hthree; cases hthree
        have hd : c ≠ d := fun h => by rw [← h, h₃'] at hthree; cases hthree
        simp [Ne.symm ha, hb, hd]
      · simp

theorem count_trimLeftFrom (skip : Nat) (s : Bytes) (h : c ∉ s.take skip) :
    (trimLeftFrom skip s).count c = s.count c := by
  induction s generalizing skip with
  | nil => cases skip <;> rfl
  | cons a s ih =>
    cases skip with
    | succ skip =>
      rw [List.take_succ_cons, List.mem_cons, not_or] at h
      rw [trimLeftFrom, ih skip h.2, List.count_cons_of_ne (Ne.symm h.1)]
    | zero =>
      have hno := not_mem_spaceWidth hc hspace (a :: s)
      cases hw : spaceWidth (a :: s) with
      | zero => rw [trimLeftFrom, hw]
      | succ w =>
        rw [hw, List.take_succ_cons, List.mem_cons, not_or] at hno
        rw [trimLeftFrom_space hw, ih w hno.2, List.count_cons_of_ne (Ne.symm hno.1)]

theorem count_trimRight (s : Bytes) : (trimRight s).count c = s.count c := by
  induction s with
  | nil => rfl
  | cons a s ih =>
    rw [trimRight]
    split
    · next hblank =>
      have hcount := count_trimLeftFrom hc hspace 0 (a :: s) (by simp)
      rw [← hcount, ← trimLeft, hblank]
    · rw [List.count_cons, List.count_cons, ih]

theorem count_trimSpace (s : Bytes) : (trimSpace s).count c = s.count c := by
  rw [trimSpace, count_trimRight hc hspace, trimLeft,
    count_trimLeftFrom hc hspace 0 s (by simp)]

end Count

end SuperDB.Go
