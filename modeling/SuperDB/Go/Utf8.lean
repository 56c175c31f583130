import SuperDB.Go.Strings

/-!
# UTF-8

Decoding what has been encoded gives the runes back, for every rune that is a Unicode scalar value.
Text that goes through JSON loses its invalid bytes, each of which becomes U+FFFD; after that it
stays the same.
-/

namespace SuperDB.Go

variable {b a c : UInt8}

def ValidRune (r : Nat) : Prop := r < 0xD800 ∨ 0xE000 ≤ r ∧ r < 0x110000

/-- A string with U+FFFD in the place of its invalid bytes, as JSON carries it. -/
def toValidUTF8 (s : Bytes) : Bytes := (runes s).flatMap encodeRune

section Decode

theorem toNat_ofNat {n : Nat} (h : n < 256) : (UInt8.ofNat n).toNat = n :=
  Nat.mod_eq_of_lt h

theorem isTail_iff : isTail b = true ↔ 0x80 ≤ b.toNat ∧ b.toNat ≤ 0xBF := by
  simp [isTail, UInt8.le_iff_toNat_le]

theorem within_iff {lo hi : UInt8} :
    (decide (lo ≤ a) && decide (a ≤ hi)) = true ↔ lo.toNat ≤ a.toNat ∧ a.toNat ≤ hi.toNat := by
  simp [UInt8.le_iff_toNat_le]

theorem decodeRune_one (ha : a.toNat < 0x80) (s : Bytes) : decodeRune (a :: s) = (a.toNat, 1) := by
  unfold decodeRune
  exact if_pos (UInt8.lt_iff_toNat_lt.2 ha)

theorem decodeRune_two (ha : 0xC2 ≤ a.toNat ∧ a.toNat ≤ 0xDF) (hb : isTail b = true) (s : Bytes) :
    decodeRune (a :: b :: s) = ((a.toNat - 0xC0) * 64 + (b.toNat - 0x80), 2) := by
  have h1 : ¬a < 0x80 := fun h => absurd (UInt8.lt_iff_toNat_lt.1 h) (by simp; omega)
  have h2 : (decide (0xC2 ≤ a) && decide (a ≤ 0xDF)) = true := within_iff.2 ha
  unfold decodeRune
  simp only [if_neg h1, if_pos h2, hb, if_true]

theorem decodeRune_three (ha : 0xE0 ≤ a.toNat ∧ a.toNat ≤ 0xEF) (hb : isTail b = true)
    (hc : isTail c = true) (hlow : a.toNat = 0xE0 → 0xA0 ≤ b.toNat)
    (hhigh : a.toNat = 0xED → b.toNat ≤ 0x9F) (s : Bytes) :
    decodeRune (a :: b :: c :: s) =
      ((a.toNat - 0xE0) * 4096 + (b.toNat - 0x80) * 64 + (c.toNat - 0x80), 3) := by
  have h1 : ¬a < 0x80 := fun h => absurd (UInt8.lt_iff_toNat_lt.1 h) (by simp; omega)
  have h2 : ¬(decide (0xC2 ≤ a) && decide (a ≤ 0xDF)) = true := fun h => by
    have := (within_iff.1 h).2
    simp at this
    omega
  have hsecond : (isTail b && isTail c && (a != 0xE0 || decide (0xA0 ≤ b)) &&
      (a != 0xED || decide (b ≤ 0x9F))) = true := by
    have hne : ∀ n : UInt8, a = n → a.toNat = n.toNat := fun n h => by rw [h]
    simp only [hb, hc, Bool.true_and, Bool.and_eq_true, Bool.or_eq_true, bne_iff_ne,
      decide_eq_true_eq, UInt8.le_iff_toNat_le]
    refine ⟨?_, ?_⟩
    · by_cases h : a = 0xE0
      · exact Or.inr (hlow (hne _ h))
      · exact Or.inl h
    · by_cases h : a = 0xED
      · exact Or.inr (hhigh (hne _ h))
      · exact Or.inl h
  have h3 : (decide (0xE0 ≤ a) && decide (a ≤ 0xEF)) = true := within_iff.2 ha
  unfold decodeRune
  simp only [if_neg h1, if_neg h2, if_pos h3, hsecond, if_true]

theorem decodeRune_four {d : UInt8} (ha : 0xF0 ≤ a.toNat ∧ a.toNat ≤ 0xF4) (hb : isTail b = true)
    (hc : isTail c = true) (hd : isTail d = true) (hlow : a.toNat = 0xF0 → 0x90 ≤ b.toNat)
    (hhigh : a.toNat = 0xF4 → b.toNat ≤ 0x8F) (s : Bytes) :
    decodeRune (a :: b :: c :: d :: s) =
      ((a.toNat - 0xF0) * 262144 + (b.toNat - 0x80) * 4096 + (c.toNat - 0x80) * 64 +
        (d.toNat - 0x80), 4) := by
  have h1 : ¬a < 0x80 := fun h => absurd (UInt8.lt_iff_toNat_lt.1 h) (by simp; omega)
  have h2 : ¬(decide (0xC2 ≤ a) && decide (a ≤ 0xDF)) = true := fun h => by
    have := (within_iff.1 h).2
    simp at this
    omega
  have h3 : ¬(decide (0xE0 ≤ a) && decide (a ≤ 0xEF)) = true := fun h => by
    have := (within_iff.1 h).2
    simp at this
    omega
  have hsecond : (isTail b && isTail c && isTail d && (a != 0xF0 || decide (0x90 ≤ b)) &&
      (a != 0xF4 || decide (b ≤ 0x8F))) = true := by
    have hne : ∀ n : UInt8, a = n → a.toNat = n.toNat := fun n h => by rw [h]
    simp only [hb, hc, hd, Bool.true_and, Bool.and_eq_true, Bool.or_eq_true, bne_iff_ne,
      decide_eq_true_eq, UInt8.le_iff_toNat_le]
    refine ⟨?_, ?_⟩
    · by_cases h : a = 0xF0
      · exact Or.inr (hlow (hne _ h))
      · exact Or.inl h
    · by_cases h : a = 0xF4
      · exact Or.inr (hhigh (hne _ h))
      · exact Or.inl h
  have h4 : (decide (0xF0 ≤ a) && decide (a ≤ 0xF4)) = true := within_iff.2 ha
  unfold decodeRune
  simp only [if_neg h1, if_neg h2, if_neg h3, if_pos h4, hsecond, if_true]

/-- **Decoding what has been encoded.** -/
theorem decodeRune_encodeRune {r : Nat} (h : ValidRune r) (s : Bytes) :
    decodeRune (encodeRune r ++ s) = (r, (encodeRune r).length) := by
  unfold ValidRune at h
  have htail : ∀ n : Nat, n < 64 → isTail (UInt8.ofNat (0x80 + n)) = true := fun n hn => by
    rw [isTail_iff, toNat_ofNat (by omega)]
    omega
  unfold encodeRune
  split_ifs with h1 h2 h3
  · have ha : (UInt8.ofNat r).toNat = r := toNat_ofNat (by omega)
    rw [List.singleton_append, decodeRune_one (by omega), ha]
    rfl
  · have ha : (UInt8.ofNat (0xC0 + r / 64)).toNat = 0xC0 + r / 64 := toNat_ofNat (by omega)
    have hb : (UInt8.ofNat (0x80 + r % 64)).toNat = 0x80 + r % 64 := toNat_ofNat (by omega)
    simp only [List.cons_append, List.nil_append]
    rw [decodeRune_two (by omega) (htail _ (by omega)), ha, hb]
    simp only [List.length_cons, List.length_nil, Prod.mk.injEq, and_true]
    omega
  · have ha : (UInt8.ofNat (0xE0 + r / 4096)).toNat = 0xE0 + r / 4096 := toNat_ofNat (by omega)
    have hb : (UInt8.ofNat (0x80 + r / 64 % 64)).toNat = 0x80 + r / 64 % 64 :=
      toNat_ofNat (by omega)
    have hc : (UInt8.ofNat (0x80 + r % 64)).toNat = 0x80 + r % 64 := toNat_ofNat (by omega)
    simp only [List.cons_append, List.nil_append]
    rw [decodeRune_three (by omega) (htail _ (by omega)) (htail _ (by omega)) (by omega)
      (by omega), ha, hb, hc]
    simp only [List.length_cons, List.length_nil, Prod.mk.injEq, and_true]
    omega
  · have ha : (UInt8.ofNat (0xF0 + r / 262144)).toNat = 0xF0 + r / 262144 :=
      toNat_ofNat (by omega)
    have hb : (UInt8.ofNat (0x80 + r / 4096 % 64)).toNat = 0x80 + r / 4096 % 64 :=
      toNat_ofNat (by omega)
    have hc : (UInt8.ofNat (0x80 + r / 64 % 64)).toNat = 0x80 + r / 64 % 64 :=
      toNat_ofNat (by omega)
    have hd : (UInt8.ofNat (0x80 + r % 64)).toNat = 0x80 + r % 64 := toNat_ofNat (by omega)
    simp only [List.cons_append, List.nil_append]
    rw [decodeRune_four (by omega) (htail _ (by omega)) (htail _ (by omega)) (htail _ (by omega))
      (by omega) (by omega), ha, hb, hc, hd]
    simp only [List.length_cons, List.length_nil, Prod.mk.injEq, and_true]
    omega

theorem validRune_decodeRune (s : Bytes) : ValidRune (decodeRune s).1 := by
  have hbad : ValidRune 0xFFFD := by simp [ValidRune]
  unfold ValidRune at *
  unfold decodeRune
  cases s with
  | nil => exact hbad
  | cons a s =>
    simp only [Bool.and_eq_true, isTail_iff, Bool.or_eq_true, bne_iff_ne, decide_eq_true_eq,
      UInt8.le_iff_toNat_le, UInt8.lt_iff_toNat_lt, ne_eq, ← UInt8.toNat_inj,
      UInt8.reduceToNat]
    split
    · exact Or.inl (by simp only; omega)
    · split
      · split
        · split
          · exact Or.inl (by simp only; omega)
          · exact hbad
        · exact hbad
      · split
        · split
          · split
            · simp only
              omega
            · exact hbad
          · exact hbad
        · split
          · split
            · split
              · simp only
                omega
              · exact hbad
            · exact hbad
          · exact hbad

theorem encodeRune_cons (r : Nat) : ∃ a s, encodeRune r = a :: s := by
  unfold encodeRune
  split_ifs <;> exact ⟨_, _, rfl⟩

end Decode

/-! ## Strings -/

theorem runesFrom_append (t s : Bytes) : runesFrom t.length (t ++ s) = runesFrom 0 s := by
  induction t with
  | nil => rfl
  | cons a t ih => exact ih

theorem runes_encodeRune_append {r : Nat} (h : ValidRune r) (s : Bytes) :
    runes (encodeRune r ++ s) = r :: runes s := by
  have hdecode := decodeRune_encodeRune h s
  obtain ⟨a, t, ht⟩ := encodeRune_cons r
  rw [ht] at hdecode ⊢
  rw [List.cons_append] at hdecode ⊢
  simp only [runes, runesFrom, hdecode, List.length_cons, Nat.add_sub_cancel]
  rw [runesFrom_append]

theorem runes_flatMap_encodeRune {rs : List Nat} (h : ∀ r ∈ rs, ValidRune r) :
    runes (rs.flatMap encodeRune) = rs := by
  induction rs with
  | nil => rfl
  | cons r rs ih =>
    rw [List.forall_mem_cons] at h
    rw [List.flatMap_cons, runes_encodeRune_append h.1, ih h.2]

theorem validRune_runes (s : Bytes) : ∀ r ∈ runes s, ValidRune r := by
  have hfrom : ∀ (s : Bytes) (skip : Nat), ∀ r ∈ runesFrom skip s, ValidRune r := by
    intro s
    induction s with
    | nil => intro skip r hr; cases skip <;> cases hr
    | cons a s ih =>
      intro skip r hr
      cases skip with
      | succ skip => exact ih skip r hr
      | zero =>
        rcases List.mem_cons.1 hr with rfl | hr
        · exact validRune_decodeRune _
        · exact ih _ r hr
  exact hfrom s 0

theorem toValidUTF8_idem (s : Bytes) : toValidUTF8 (toValidUTF8 s) = toValidUTF8 s := by
  unfold toValidUTF8
  rw [runes_flatMap_encodeRune (validRune_runes s)]

/-! ## Maps -/

section Maps

variable {V : Type} {m : Map V} {k : Bytes}

/-- A map as a JSON object carries it: the keys are written in their order, and of those that become
the same one the last counts. -/
def Map.wire (m : Map V) : Map V :=
  m.toList.foldl (fun out p => out.insert (toValidUTF8 p.1) p.2) ∅

theorem Map.get?_wire {v : V} (h : m.wire[k]? = some v) : ∃ a, toValidUTF8 a = k ∧
    m[a]? = some v := by
  have hfold : ∀ (l : List (Bytes × V)) (out : Map V),
      (∀ p ∈ l, m[p.1]? = some p.2) →
      (out[k]? = some v → ∃ a, toValidUTF8 a = k ∧ m[a]? = some v) →
      (l.foldl (fun out p => out.insert (toValidUTF8 p.1) p.2) out)[k]? = some v →
      ∃ a, toValidUTF8 a = k ∧ m[a]? = some v := by
    intro l
    induction l with
    | nil => exact fun out _ hout => hout
    | cons p l ih =>
      intro out hl hout
      rw [List.forall_mem_cons] at hl
      refine ih _ hl.2 fun hk => ?_
      rw [Map.get?_insert] at hk
      split at hk
      · next hp => exact ⟨p.1, hp, Option.some.inj hk ▸ hl.1⟩
      · exact hout hk
  refine hfold m.toList ∅ (fun p hp => ?_) (fun hk => ?_) h
  · exact Std.ExtTreeMap.mem_toList_iff_getElem?_eq_some.1 hp
  · rw [Map.get?_empty] at hk
    cases hk

theorem Map.wire_eq (h : ∀ k ∈ m, toValidUTF8 k = k) : m.wire = m := by
  have hsame : m.wire = .ofList m.toList compare := by
    rw [Std.ExtTreeMap.ofList_eq_foldl, Map.wire]
    refine List.foldl_ext _ _ _ fun out p hp => ?_
    rw [h p.1 (Map.mem_of_get? (Std.ExtTreeMap.mem_toList_iff_getElem?_eq_some.1 hp))]
  rw [hsame]
  refine Map.ext_get? fun k => ?_
  cases hk : m[k]? with
  | some v =>
    exact Std.ExtTreeMap.getElem?_ofList_of_mem Std.ReflCmp.compare_self
      Std.ExtTreeMap.distinct_keys_toList (Std.ExtTreeMap.mem_toList_iff_getElem?_eq_some.2 hk)
  | none =>
    refine Std.ExtTreeMap.getElem?_ofList_of_contains_eq_false ?_
    rw [Std.ExtTreeMap.map_fst_toList_eq_keys, ← Bool.not_eq_true, List.contains_iff_mem]
    exact fun hin => Map.not_mem_iff.2 hk (Map.mem_keys.1 hin)

end Maps

/-! ## ASCII bytes among runes -/

/-- A rune of several bytes is its first byte and continuation bytes, whatever follows. -/
theorem decodeRune_split (a : UInt8) (s : Bytes) :
    decodeRune (a :: s) = (if a < 0x80 then a.toNat else 0xFFFD, 1) ∨
    ∃ t r, s = t ++ r ∧ (decodeRune (a :: s)).2 = t.length + 1 ∧ (∀ b ∈ t, isTail b = true) ∧
      ∀ r', decodeRune (a :: (t ++ r')) = decodeRune (a :: s) := by
  unfold decodeRune
  simp only
  by_cases h1 : a < 0x80
  · exact .inl (by simp only [if_pos h1])
  simp only [if_neg h1]
  by_cases h2 : (decide (0xC2 ≤ a) && decide (a ≤ 0xDF)) = true
  · simp only [if_pos h2]
    match s with
    | [] => exact .inl rfl
    | b :: s =>
      by_cases hb : isTail b = true
      · refine .inr ⟨[b], s, rfl, ?_, fun c hc => ?_, fun r' => ?_⟩
        · simp only [hb, if_true, List.length_singleton]
        · rw [List.mem_singleton.1 hc]
          exact hb
        · simp only [List.singleton_append, hb, if_true]
      · exact .inl (by simp only [hb, Bool.false_eq_true, if_false])
  simp only [if_neg h2]
  by_cases h3 : (decide (0xE0 ≤ a) && decide (a ≤ 0xEF)) = true
  · simp only [if_pos h3]
    match s with
    | [] => exact .inl rfl
    | [_] => exact .inl rfl
    | b :: c :: s =>
      by_cases hbc : (isTail b && isTail c && (a != 0xE0 || decide (0xA0 ≤ b)) &&
          (a != 0xED || decide (b ≤ 0x9F))) = true
      · have htails : isTail b = true ∧ isTail c = true := by
          simp only [Bool.and_eq_true] at hbc
          exact hbc.1.1
        refine .inr ⟨[b, c], s, rfl, ?_, ?_, fun r' => ?_⟩
        · simp only [hbc, if_true, List.length_cons, List.length_nil]
        · simpa using htails
        · simp only [List.cons_append, List.nil_append, hbc, if_true]
      · exact .inl (by simp only [hbc, Bool.false_eq_true, if_false])
  simp only [if_neg h3]
  by_cases h4 : (decide (0xF0 ≤ a) && decide (a ≤ 0xF4)) = true
  · simp only [if_pos h4]
    match s with
    | [] => exact .inl rfl
    | [_] => exact .inl rfl
    | [_, _] => exact .inl rfl
    | b :: c :: d :: s =>
      by_cases hbcd : (isTail b && isTail c && isTail d && (a != 0xF0 || decide (0x90 ≤ b)) &&
          (a != 0xF4 || decide (b ≤ 0x8F))) = true
      · have htails : (isTail b = true ∧ isTail c = true) ∧ isTail d = true := by
          simp only [Bool.and_eq_true] at hbcd
          exact hbcd.1.1
        refine .inr ⟨[b, c, d], s, rfl, ?_, ?_, fun r' => ?_⟩
        · simp only [hbcd, if_true, List.length_cons, List.length_nil]
        · simpa [and_assoc] using htails
        · simp only [List.cons_append, List.nil_append, hbcd, if_true]
      · exact .inl (by simp only [hbcd, Bool.false_eq_true, if_false])
  · exact .inl (if_neg h4)

theorem isTail_of_decodeRune {s : Bytes} (h : b ∈ s.take ((decodeRune (a :: s)).2 - 1)) :
    isTail b = true := by
  rcases decodeRune_split a s with hone | ⟨t, r, rfl, hwidth, htail, -⟩
  · rw [hone] at h
    simp at h
  · rw [hwidth, Nat.add_sub_cancel, List.take_left] at h
    exact htail b h

theorem mem_runesFrom (hc : c < 0x80) {skip : Nat} {s : Bytes}
    (hskip : ∀ b ∈ s.take skip, isTail b = true) (h : c ∈ s) : c.toNat ∈ runesFrom skip s := by
  induction s generalizing skip with
  | nil => cases h
  | cons a s ih =>
    cases skip with
    | succ skip =>
      rw [List.take_succ_cons, List.forall_mem_cons] at hskip
      rcases List.mem_cons.1 h with rfl | h
      · have htail := hskip.1
        rw [isTail, Bool.and_eq_true, decide_eq_true_eq] at htail
        exact absurd hc (UInt8.not_lt.2 htail.1)
      · exact ih hskip.2 h
    | zero =>
      rw [runesFrom]
      rcases List.mem_cons.1 h with rfl | h
      · rw [decodeRune_one (UInt8.lt_iff_toNat_lt.1 hc)]
        exact List.mem_cons_self
      · exact List.mem_cons_of_mem _ (ih (fun b hb => isTail_of_decodeRune hb) h)

end SuperDB.Go
