import SuperDB.Go.Trim
import SuperDB.Go.Unicode
import SuperDB.Go.Utf8

/-!
# White-space-delimited words

What `strings.Fields` takes out of a text: it drops the white space at the start, reads up to the
next white space and goes on behind it. A text has one field exactly if it is a word between blanks.
-/

namespace SuperDB.Go

variable {a c : UInt8} {s g : Bytes}

/-! ## White space between texts -/

theorem not_isTail_of_spaceWidth (h : spaceWidth (a :: s) ≠ 0) : isTail a = false := by
  have hbyte : ∀ a : UInt8, isTail a = true → space1 a = false ∧ (a == 0xC2) = false ∧
      (a == 0xE1) = false ∧ (a == 0xE2) = false ∧ (a == 0xE3) = false := by decide +kernel
  by_contra htail
  obtain ⟨h₁, h₂, h₃, h₄, h₅⟩ := hbyte a (by simpa using htail)
  refine h ?_
  match s with
  | [] => simp [spaceWidth, h₁]
  | [b] => simp [spaceWidth, h₁, space2, h₂]
  | b :: c :: s => simp [spaceWidth, h₁, space2, space3, h₂, h₃, h₄, h₅]

theorem isTail_of_space {b : UInt8} (hb : isTail b = false) :
    space2 a b = false ∧ (∀ c, space3 a b c = false) ∧ ∀ c, space3 c a b = false := by
  have hbyte : ∀ b : UInt8, isTail b = false → (b == 0x85 || b == 0xA0) = false ∧
      (b == 0x9A) = false ∧ (b == 0x80) = false ∧ (b == 0x81) = false ∧ (b == 0x9F) = false ∧
      ((0x80 ≤ b && b ≤ 0x8A) || b == 0xA8 || b == 0xA9 || b == 0xAF) = false := by decide +kernel
  obtain ⟨h₁, h₂, h₃, h₄, h₅, h₆⟩ := hbyte b hb
  refine ⟨?_, fun c => ?_, fun c => ?_⟩
  · rw [space2, h₁, Bool.and_false]
  · simp [space3, h₂, h₃, h₄]
  · rw [space3, h₃, h₅, h₆]
    simp

theorem spaceWidth_append_space (h : spaceWidth (a :: s) = 0) (hg : g ≠ [] → spaceWidth g ≠ 0) :
    spaceWidth (a :: s ++ g) = 0 := by
  cases g with
  | nil => rwa [List.append_nil]
  | cons b g =>
    obtain ⟨h₂, h₃, h₃'⟩ := isTail_of_space (a := a)
      (not_isTail_of_spaceWidth (hg (List.cons_ne_nil _ _)))
    match s, g with
    | [], [] => simpa [spaceWidth, h₂] using h
    | [], c :: g => simpa [spaceWidth, h₂, h₃] using h
    | [c], g =>
      have hmid : space3 a c b = false :=
        (isTail_of_space (a := c) (not_isTail_of_spaceWidth (hg (List.cons_ne_nil _ _)))).2.2 a
      simpa [spaceWidth, hmid] using h
    | c :: d :: s, g => exact h

theorem spaceWidth_append_of_ne_zero (h : spaceWidth s ≠ 0) (t : Bytes) :
    spaceWidth (s ++ t) = spaceWidth s := by
  match s, t with
  | [], _ => exact absurd rfl h
  | [a], [] => rfl
  | [a], [b] =>
    have ha : space1 a = true := by
      by_contra hno
      exact h (by simp [spaceWidth, hno])
    simp [spaceWidth, ha]
  | [a], b :: c :: t =>
    have ha : space1 a = true := by
      by_contra hno
      exact h (by simp [spaceWidth, hno])
    simp [spaceWidth, ha]
  | [a, b], [] => rfl
  | [a, b], c :: t =>
    by_cases ha : space1 a = true
    · simp [spaceWidth, ha]
    · have hb : space2 a b = true := by
        by_contra hno
        exact h (by simp [spaceWidth, ha, hno])
      simp [spaceWidth, ha, hb]
  | a :: b :: c :: s, t => rfl

theorem spaceWidth_of_append {t : Bytes} (h : spaceWidth (s ++ t) ≤ s.length) :
    spaceWidth s = spaceWidth (s ++ t) := by
  by_cases hs : spaceWidth s = 0
  · rw [hs]
    match s, t with
    | [], t =>
      rw [List.length_nil] at h
      exact (Nat.le_zero.1 h).symm
    | [a], [] => exact hs.symm
    | [a], [b] =>
      have ha : space1 a = false := by simpa [spaceWidth] using hs
      by_cases hb : space2 a b = true
      · simp [spaceWidth, ha, hb] at h
      · simp [spaceWidth, ha, hb]
    | [a], b :: c :: t =>
      have ha : space1 a = false := by simpa [spaceWidth] using hs
      by_cases hb : space2 a b = true
      · simp [spaceWidth, ha, hb] at h
      · by_cases hc : space3 a b c = true
        · simp [spaceWidth, ha, hb, hc] at h
        · simp [spaceWidth, ha, hb, hc]
    | [a, b], [] => exact hs.symm
    | [a, b], c :: t =>
      have hno : ¬space1 a = true ∧ ¬space2 a b = true := by
        simp only [spaceWidth] at hs
        split_ifs at hs with ha hb
        exact ⟨ha, hb⟩
      obtain ⟨ha, hb⟩ := hno
      by_cases hc : space3 a b c = true
      · simp [spaceWidth, ha, hb, hc] at h
      · simp [spaceWidth, ha, hb, hc]
    | a :: b :: c :: s, t => exact hs.symm
  · exact (spaceWidth_append_of_ne_zero hs t).symm

/-- A text of nothing but white space. -/
def Blank (s : Bytes) : Prop := trimLeft s = []

instance Blank.decidable (s : Bytes) : Decidable (Blank s) := inferInstanceAs (Decidable (_ = _))

theorem exists_blank_trimLeftFrom (skip : Nat) (s : Bytes) (h : skip ≤ s.length) :
    ∃ g, s = g ++ trimLeftFrom skip s ∧ skip ≤ g.length ∧ trimLeftFrom skip g = [] := by
  induction s generalizing skip with
  | nil =>
    obtain rfl : skip = 0 := Nat.le_zero.1 h
    exact ⟨[], rfl, Nat.le_refl _, rfl⟩
  | cons a s ih =>
    cases skip with
    | succ skip =>
      obtain ⟨g, hs, hlen, hg⟩ := ih skip (Nat.le_of_succ_le_succ h)
      refine ⟨a :: g, ?_, Nat.succ_le_succ hlen, hg⟩
      rw [trimLeftFrom, List.cons_append, ← hs]
    | zero =>
      cases hw : spaceWidth (a :: s) with
      | zero => exact ⟨[], by rw [trimLeftFrom, hw]; rfl, Nat.le_refl _, rfl⟩
      | succ w =>
        have hle := spaceWidth_le_length (a :: s)
        rw [hw, List.length_cons] at hle
        obtain ⟨g, hs, hlen, hg⟩ := ih w (by omega)
        have hsplit : a :: s = a :: g ++ trimLeftFrom w s := by rw [List.cons_append, ← hs]
        have hwidth : spaceWidth (a :: g) = w + 1 := by
          rw [hsplit] at hw
          rw [← hw]
          refine spaceWidth_of_append ?_
          rw [hw, List.length_cons]
          omega
        refine ⟨a :: g, ?_, Nat.zero_le _, ?_⟩
        · rw [trimLeftFrom_space hw, hsplit]
        · rw [trimLeftFrom_space hwidth, hg]

theorem exists_blank_trimLeft (s : Bytes) : ∃ g, s = g ++ trimLeft s ∧ Blank g := by
  obtain ⟨g, hs, -, hg⟩ := exists_blank_trimLeftFrom 0 s (Nat.zero_le _)
  exact ⟨g, hs, hg⟩

theorem trimLeftFrom_blank {skip : Nat} (hlen : skip ≤ g.length) (h : trimLeftFrom skip g = [])
    (t : Bytes) : trimLeftFrom skip (g ++ t) = trimLeft t := by
  induction g generalizing skip with
  | nil =>
    obtain rfl : skip = 0 := Nat.le_zero.1 hlen
    rfl
  | cons a g ih =>
    cases skip with
    | succ skip => exact ih (Nat.le_of_succ_le_succ hlen) h
    | zero =>
      cases hw : spaceWidth (a :: g) with
      | zero =>
        rw [trimLeftFrom, hw] at h
        cases h
      | succ w =>
        have hle := spaceWidth_le_length (a :: g)
        rw [hw, List.length_cons] at hle
        have happend : spaceWidth (a :: (g ++ t)) = w + 1 := by
          rw [← List.cons_append, spaceWidth_append_of_ne_zero (by omega), hw]
        rw [trimLeftFrom_space hw] at h
        rw [List.cons_append, trimLeftFrom_space happend, ih (by omega) h]

theorem trimLeft_blank (h : Blank g) (t : Bytes) : trimLeft (g ++ t) = trimLeft t :=
  trimLeftFrom_blank (Nat.zero_le _) h t

theorem Blank.spaceWidth_ne_zero (h : Blank g) (hne : g ≠ []) : spaceWidth g ≠ 0 := by
  intro hzero
  rw [Blank, trimLeft_of_spaceWidth hzero] at h
  exact hne h

theorem Blank.space1 (h : Blank g) (ha : a ∈ g) (hascii : a < 0x80) : space1 a = true := by
  by_contra hspace
  have hcount := count_trimLeftFrom hascii (Bool.eq_false_iff.2 hspace) 0 g (by simp)
  rw [← trimLeft, h, List.count_nil] at hcount
  exact absurd ha (List.count_eq_zero.1 hcount.symm)

theorem exists_blank_trimRight (s : Bytes) : ∃ g, s = trimRight s ++ g ∧ Blank g := by
  induction s with
  | nil => exact ⟨[], rfl, rfl⟩
  | cons a s ih =>
    rw [trimRight]
    split
    · next h => exact ⟨a :: s, rfl, h⟩
    · obtain ⟨g, hs, hg⟩ := ih
      exact ⟨g, by rw [List.cons_append, ← hs], hg⟩

theorem trimRight_trimRight (s : Bytes) : trimRight (trimRight s) = trimRight s := by
  induction s with
  | nil => rfl
  | cons a s ih =>
    rw [trimRight]
    split
    · rfl
    · next hne =>
      have hkept : trimLeft (a :: trimRight s) ≠ [] := by
        intro hblank
        obtain ⟨g, hs, hg⟩ := exists_blank_trimRight s
        refine hne ?_
        rw [hs, ← List.cons_append, trimLeft_blank hblank]
        exact hg
      rw [trimRight, if_neg hkept, ih]

theorem trimSpace_trimSpace (s : Bytes) : trimSpace (trimSpace s) = trimSpace s := by
  have hleft : trimLeft (trimSpace s) = trimSpace s :=
    trimLeft_of_spaceWidth (spaceWidth_trimSpace s)
  rw [trimSpace, hleft, trimSpace, trimRight_trimRight]

theorem blank_append_iff (hg : Blank g) (s : Bytes) : Blank (s ++ g) ↔ Blank s := by
  constructor
  · intro h
    by_contra hne
    obtain ⟨g', hs, hg'⟩ := exists_blank_trimLeft s
    cases hu : trimLeft s with
    | nil => exact hne hu
    | cons a u =>
      have hzero : spaceWidth (a :: u) = 0 := hu ▸ spaceWidth_trimLeft s
      have hkept := spaceWidth_append_space hzero hg.spaceWidth_ne_zero
      rw [Blank, hs, hu, List.append_assoc, trimLeft_blank hg', trimLeft_of_spaceWidth hkept] at h
      cases h
  · intro h
    rw [Blank, trimLeft_blank h]
    exact hg

theorem trimRight_append_blank (hg : Blank g) (s : Bytes) : trimRight (s ++ g) = trimRight s := by
  induction s with
  | nil =>
    cases g with
    | nil => rfl
    | cons a g => exact if_pos hg
  | cons a s ih =>
    have hiff : trimLeft (a :: (s ++ g)) = [] ↔ trimLeft (a :: s) = [] :=
      blank_append_iff hg (a :: s)
    rw [List.cons_append]
    rw [trimRight, trimRight, ih]
    by_cases h : trimLeft (a :: s) = []
    · rw [if_pos h, if_pos (hiff.2 h)]
    · rw [if_neg h, if_neg fun h' => h (hiff.1 h')]

theorem trimSpace_blank_append (hg : Blank g) (s : Bytes) : trimSpace (g ++ s) = trimSpace s := by
  rw [trimSpace, trimLeft_blank hg, trimSpace]

theorem trimSpace_append_blank (hg : Blank g) (s : Bytes) : trimSpace (s ++ g) = trimSpace s := by
  obtain ⟨g', hs, hg'⟩ := exists_blank_trimLeft s
  have hleft : trimLeft (s ++ g) = trimLeft (trimLeft s ++ g) := by
    conv_lhs => rw [hs, List.append_assoc, trimLeft_blank hg']
  rw [trimSpace, trimSpace, hleft]
  cases hu : trimLeft s with
  | nil => rw [List.nil_append, hg]
  | cons a u =>
    have hzero : spaceWidth (a :: u) = 0 := hu ▸ spaceWidth_trimLeft s
    rw [trimLeft_of_spaceWidth (spaceWidth_append_space hzero hg.spaceWidth_ne_zero),
      trimRight_append_blank hg]

/-! ## Words -/

def IsWord (s : Bytes) : Prop := s ≠ [] ∧ untilSpace s = s

instance IsWord.decidable (s : Bytes) : Decidable (IsWord s) :=
  inferInstanceAs (Decidable (_ ∧ _))

theorem untilSpace_start (s : Bytes) : untilSpace s <+: s := by
  induction s with
  | nil => exact List.prefix_refl _
  | cons a s ih =>
    rw [untilSpace]
    split
    · exact (List.prefix_cons_inj a).2 ih
    · exact List.nil_prefix

theorem untilSpace_untilSpace (s : Bytes) : untilSpace (untilSpace s) = untilSpace s := by
  induction s with
  | nil => rfl
  | cons a s ih =>
    rw [untilSpace]
    split
    · next h =>
      have hstart := spaceWidth_start ((List.prefix_cons_inj a).2 (untilSpace_start s)) h
      rw [untilSpace, if_pos hstart, ih]
    · rfl

theorem untilSpace_append (hs : untilSpace s = s) (hg : Blank g) : untilSpace (s ++ g) = s := by
  induction s with
  | nil =>
    cases g with
    | nil => rfl
    | cons b g =>
      rw [List.nil_append, untilSpace, if_neg (hg.spaceWidth_ne_zero (List.cons_ne_nil _ _))]
  | cons a s ih =>
    rw [untilSpace] at hs
    split at hs
    · next hzero =>
      have happend := spaceWidth_append_space hzero hg.spaceWidth_ne_zero
      rw [List.cons_append] at happend
      rw [List.cons_append, untilSpace, if_pos happend, ih (List.cons.inj hs).2]
    · cases hs

theorem IsWord.spaceWidth (h : IsWord s) : spaceWidth s = 0 := by
  obtain ⟨hne, hs⟩ := h
  cases s with
  | nil => rfl
  | cons a s =>
    rw [untilSpace] at hs
    split at hs
    · assumption
    · cases hs

theorem not_space1_of_untilSpace (h : untilSpace s = s) (ha : a ∈ s) : space1 a = false := by
  induction s with
  | nil => cases ha
  | cons b s ih =>
    rw [untilSpace] at h
    split at h
    · next hzero =>
      rcases List.mem_cons.1 ha with rfl | ha
      · have hone := spaceWidth_start (s := [a]) ⟨s, rfl⟩ hzero
        simpa [SuperDB.Go.spaceWidth] using hone
      · exact ih (List.cons.inj h).2 ha
    · cases h

theorem fieldsFrom_trimLeftFrom (skip : Nat) (s : Bytes) :
    fieldsFrom skip [] s = fields (trimLeftFrom skip s) := by
  induction s generalizing skip with
  | nil => cases skip <;> rfl
  | cons a s ih =>
    cases skip with
    | succ skip => exact ih skip
    | zero =>
      cases hw : spaceWidth (a :: s) with
      | zero => rw [trimLeftFrom, hw]; rfl
      | succ w => rw [fieldsFrom, hw, trimLeftFrom_space hw]; exact ih w

theorem fieldsFrom_untilSpace {cur : Bytes} (hcur : cur ≠ []) (s : Bytes) :
    fieldsFrom 0 cur s = (cur.reverse ++ untilSpace s) ::
      fields (s.drop (untilSpace s).length) := by
  induction s generalizing cur with
  | nil => simp [fieldsFrom, hcur, untilSpace, fields]
  | cons a s ih =>
    cases hw : spaceWidth (a :: s) with
    | zero =>
      rw [fieldsFrom, hw, untilSpace, if_pos hw]
      simp only
      rw [ih (List.cons_ne_nil _ _)]
      simp
    | succ w =>
      rw [fieldsFrom, hw, untilSpace, if_neg (by omega)]
      simp only [hcur, if_false, List.append_nil, List.length_nil, List.drop_zero]
      rw [fields, fieldsFrom, hw]
      rfl

theorem fields_trimLeft (s : Bytes) : fields s = fields (trimLeft s) := fieldsFrom_trimLeftFrom 0 s

theorem fields_of_spaceWidth (hne : s ≠ []) (h : spaceWidth s = 0) :
    fields s = untilSpace s :: fields (s.drop (untilSpace s).length) := by
  cases s with
  | nil => exact absurd rfl hne
  | cons a s =>
    rw [fields, fieldsFrom, h, untilSpace, if_pos h]
    exact fieldsFrom_untilSpace (List.cons_ne_nil _ _) s

theorem fields_eq_nil_iff : fields s = [] ↔ Blank s := by
  rw [fields_trimLeft]
  constructor
  · intro h
    by_contra hne
    rw [fields_of_spaceWidth hne (spaceWidth_trimLeft s)] at h
    cases h
  · intro h
    rw [show trimLeft s = [] from h]
    rfl

/-- A text has one field exactly if it is a word between blanks. -/
theorem fields_eq_singleton_iff {w : Bytes} :
    fields s = [w] ↔ IsWord w ∧ ∃ g g', s = g ++ w ++ g' ∧ Blank g ∧ Blank g' := by
  constructor
  · intro h
    obtain ⟨g, hs, hg⟩ := exists_blank_trimLeft s
    have hne : trimLeft s ≠ [] := by
      intro hnil
      rw [fields_eq_nil_iff.2 hnil] at h
      cases h
    have hwidth := spaceWidth_trimLeft s
    rw [fields_trimLeft, fields_of_spaceWidth hne hwidth, List.cons_eq_cons, fields_eq_nil_iff] at h
    obtain ⟨rfl, hrest⟩ := h
    refine ⟨⟨?_, untilSpace_untilSpace _⟩, g, _, ?_, hg, hrest⟩
    · cases hz : trimLeft s with
      | nil => exact absurd hz hne
      | cons a z =>
        rw [hz] at hwidth
        rw [untilSpace, if_pos hwidth]
        exact List.cons_ne_nil _ _
    · have happend := List.prefix_iff_eq_append.1 (untilSpace_start (trimLeft s))
      rw [List.append_assoc, happend, ← hs]
  · rintro ⟨hw, g, g', rfl, hg, hg'⟩
    have huntil := untilSpace_append hw.2 hg'
    have hzero : spaceWidth (w ++ g') = 0 := by
      obtain ⟨a, w, rfl⟩ := List.exists_cons_of_ne_nil hw.1
      exact spaceWidth_append_space hw.spaceWidth hg'.spaceWidth_ne_zero
    have hne : w ++ g' ≠ [] := fun h => hw.1 (List.append_eq_nil_iff.1 h).1
    rw [fields_trimLeft, List.append_assoc, trimLeft_blank hg, trimLeft_of_spaceWidth hzero,
      fields_of_spaceWidth hne hzero, huntil, List.drop_left, fields_eq_nil_iff.2 hg']

/-! ## Texts cut at a byte -/

theorem cut_eq_some_iff {l r : Bytes} : cut c s = some (l, r) ↔ s = l ++ c :: r ∧ c ∉ l := by
  induction s generalizing l with
  | nil => simp [cut]
  | cons a s ih =>
    rw [cut]
    by_cases ha : a = c
    · rw [if_pos (beq_iff_eq.2 ha), ha]
      cases l with
      | nil => simp
      | cons b l =>
        simp only [Option.some.injEq, Prod.mk.injEq, List.cons_append, List.cons.injEq,
          List.mem_cons, not_or]
        constructor
        · rintro ⟨⟨⟩, -⟩
        · rintro ⟨⟨rfl, -⟩, hne, -⟩
          exact absurd rfl hne
    · rw [if_neg (by rwa [beq_iff_eq]), Option.map_eq_some_iff]
      cases l with
      | nil =>
        simp only [Prod.mk.injEq, List.nil_append, List.cons.injEq]
        constructor
        · rintro ⟨p, -, ⟨⟩, -⟩
        · rintro ⟨⟨hac, -⟩, -⟩
          exact absurd hac ha
      | cons b l =>
        simp only [Prod.mk.injEq, List.cons.injEq, List.cons_append, List.mem_cons, not_or]
        constructor
        · rintro ⟨⟨l', r'⟩, hcut, ⟨rfl, rfl⟩, rfl⟩
          obtain ⟨hs, hmem⟩ := ih.1 hcut
          exact ⟨⟨rfl, hs⟩, Ne.symm ha, hmem⟩
        · rintro ⟨⟨rfl, hs⟩, -, hmem⟩
          exact ⟨(l, r), ih.2 ⟨hs, hmem⟩, ⟨rfl, rfl⟩, rfl⟩

/-! ## Letter case -/

theorem mem_toLower (hc : c < 0x80) (hlower : lowerByte c = c) (h : c ∈ s) : c ∈ toLower s := by
  unfold toLower
  split
  · exact List.mem_map.2 ⟨c, h, hlower⟩
  · have hnat : c.toNat < 0x80 := UInt8.lt_iff_toNat_lt.1 hc
    refine List.mem_flatMap.2 ⟨c.toNat, mem_runesFrom hc (by simp) h, ?_⟩
    rw [lowerRune, if_pos hnat, UInt8.ofNat_toNat, hlower, encodeRune, if_pos hnat,
      UInt8.ofNat_toNat]
    exact List.mem_singleton.2 rfl

/-! ## Positions of a byte -/

theorem indexByte_append {l : Bytes} (hl : c ∉ l) (r : Bytes) :
    indexByte c (l ++ c :: r) = some l.length := by
  have hnone : l.findIdx? (· == c) = none := by
    rw [List.findIdx?_eq_none_iff]
    intro a ha
    exact beq_eq_false_iff_ne.2 fun e => hl (e ▸ ha)
  rw [indexByte, List.findIdx?_append, hnone, List.findIdx?_cons, if_pos (beq_self_eq_true c)]
  simp

theorem lastIndexByte_concat (c : UInt8) (s : Bytes) : lastIndexByte c (s ++ [c]) =
    some s.length := by
  rw [lastIndexByte, List.reverse_append, List.reverse_singleton, List.singleton_append,
    List.findIdx?_cons, if_pos (beq_self_eq_true c)]
  simp

theorem slice_between (u w : Bytes) (a : UInt8) (r : Bytes) :
    slice (u ++ a :: (w ++ r)) (u.length + 1) (u.length + 1 + w.length) = w := by
  have hsplit : u ++ a :: (w ++ r) = (u ++ [a] ++ w) ++ r := by simp
  have hlen : (u ++ [a] ++ w).length = u.length + 1 + w.length := by
    simp only [List.length_append, List.length_singleton]
  rw [slice, hsplit, List.take_left' hlen, List.drop_left' (by simp)]

end SuperDB.Go
