import SuperDB.Go.Sort

/-!
# Heaps

What the operations of `container/heap` keep up. A comparison need only order the elements of the
heap: the lemmas take that as a fact about the list, so that they apply where a comparison is no
order of all values. `heapUp` and `heapDown` start from a heap with one element out of place; what
they need of the other pairs of parent and child is `UpReady` and `DownReady`.
-/

namespace SuperDB.Go

section Orders

variable {α : Type} {less : α → α → Bool} {l l' : List α}

/-- A comparison orders the elements of a list: of two, at most one is before the other, and an
element that is not before a second, which is not before a third, is not before the third. -/
structure Orders (less : α → α → Bool) (l : List α) : Prop where
  asymm : ∀ a ∈ l, ∀ b ∈ l, less a b = true → less b a = false
  trans : ∀ a ∈ l, ∀ b ∈ l, ∀ c ∈ l, less a b = false → less b c = false → less a c = false

theorem Orders.mono (h : Orders less l) (hsub : l' ⊆ l) : Orders less l' :=
  ⟨fun a ha b hb => h.asymm a (hsub ha) b (hsub hb),
    fun a ha b hb c hc => h.trans a (hsub ha) b (hsub hb) c (hsub hc)⟩

theorem Orders.perm (h : Orders less l) (hperm : l'.Perm l) : Orders less l' :=
  h.mono hperm.subset

theorem Orders.reverse (h : Orders less l) : Orders (fun a b => less b a) l :=
  ⟨fun a ha b hb => h.asymm b hb a ha, fun a ha b hb c hc hab hbc => h.trans c hc b hb a ha hbc hab⟩

theorem Orders.irrefl (h : Orders less l) {a : α} (ha : a ∈ l) : less a a = false := by
  cases haa : less a a with
  | false => rfl
  | true => exact haa.symm.trans (h.asymm a ha a ha haa)

end Orders

def Sorter.Sorts (s : Sorter) : Prop :=
  ∀ {α : Type} (less : α → α → Bool) (l : List α), Orders less l →
    (s.sort less l).Pairwise fun a b => less b a = false

theorem Sorter.merge_sorts : Sorter.merge.Sorts := by
  intro α less l h
  let le : {a // a ∈ l} → {a // a ∈ l} → Bool := fun a b => !less b.1 a.1
  have hsort : l.mergeSort (fun a b => !less b a) = (l.attach.mergeSort le).map Subtype.val := by
    rw [List.map_mergeSort (s := fun a b => !less b a) fun a _ b _ => rfl,
      List.attach_map_subtype_val]
  have hsorted : (l.attach.mergeSort le).Pairwise fun a b => le a b = true := by
    refine List.pairwise_mergeSort (fun a b c hab hbc => ?_) (fun a b => ?_) _
    · rw [Bool.not_eq_true'] at hab hbc ⊢
      exact h.trans c.1 c.2 b.1 b.2 a.1 a.2 hbc hab
    · cases hab : less b.1 a.1 with
      | false => simp [le, hab]
      | true => simp [le, h.asymm b.1 b.2 a.1 a.2 hab]
  show (l.mergeSort _).Pairwise _
  rw [hsort, List.pairwise_map]
  exact hsorted.imp fun hab => by simpa [le] using hab

section Positions

variable {α : Type} {less : α → α → Bool} {h : List α} {i j k n : Nat}

theorem Orders.lessAt_asymm (ho : Orders less h) (hij : lessAt less h i j = true) :
    lessAt less h j i = false := by
  unfold lessAt at hij ⊢
  cases hi : h[i]? with
  | none => cases h[j]? <;> rfl
  | some a =>
    cases hj : h[j]? with
    | none => rfl
    | some b =>
      rw [hi, hj] at hij
      exact ho.asymm a (List.mem_of_getElem? hi) b (List.mem_of_getElem? hj) hij

theorem Orders.lessAt_irrefl (ho : Orders less h) (i : Nat) : lessAt less h i i = false := by
  cases hi : lessAt less h i i with
  | false => rfl
  | true => exact hi.symm.trans (ho.lessAt_asymm hi)

theorem Orders.lessAt_trans (ho : Orders less h) (hj : j < h.length)
    (hij : lessAt less h i j = false) (hjk : lessAt less h j k = false) :
    lessAt less h i k = false := by
  unfold lessAt at hij hjk ⊢
  cases hi : h[i]? with
  | none => rfl
  | some a =>
    cases hk : h[k]? with
    | none => rfl
    | some c =>
      rw [hi, List.getElem?_eq_getElem hj] at hij
      rw [hk, List.getElem?_eq_getElem hj] at hjk
      exact ho.trans a (List.mem_of_getElem? hi) h[j] (List.getElem_mem hj) c
        (List.mem_of_getElem? hk) hij hjk

theorem getElem?_swap (hi : i < h.length) (hj : j < h.length) (k : Nat) :
    (swap h i j)[k]? = h[Equiv.swap i j k]? := by
  unfold swap
  rw [List.getElem?_eq_getElem hi, List.getElem?_eq_getElem hj]
  simp only [List.getElem?_set, List.length_set, hi, hj, if_true]
  by_cases hkj : j = k
  · rw [if_pos hkj, ← hkj, Equiv.swap_apply_right, List.getElem?_eq_getElem hi]
  · rw [if_neg hkj]
    by_cases hki : i = k
    · rw [if_pos hki, ← hki, Equiv.swap_apply_left, List.getElem?_eq_getElem hj]
    · rw [if_neg hki, Equiv.swap_apply_of_ne_of_ne (Ne.symm hki) (Ne.symm hkj)]

theorem lessAt_swap (hi : i < h.length) (hj : j < h.length) (a b : Nat) :
    lessAt less (swap h i j) a b = lessAt less h (Equiv.swap i j a) (Equiv.swap i j b) := by
  simp only [lessAt, getElem?_swap hi hj]

theorem swap_perm (h : List α) (i j : Nat) : (swap h i j).Perm h := by
  unfold swap
  split
  · next a b hi hj =>
    obtain ⟨hilt, rfl⟩ := List.getElem?_eq_some_iff.1 hi
    obtain ⟨hjlt, rfl⟩ := List.getElem?_eq_some_iff.1 hj
    exact List.set_set_perm hilt hjlt
  · exact List.Perm.refl _

/-- No element of the first `n` is before its parent. -/
def IsHeap (less : α → α → Bool) (n : Nat) (h : List α) : Prop :=
  ∀ j, 0 < j → j < n → lessAt less h j ((j - 1) / 2) = false

/-! ## Up -/

/-- No element but that at `j` is before its parent, and the children of that are not before its
parent. -/
structure UpReady (less : α → α → Bool) (n j : Nat) (h : List α) : Prop where
  edges : ∀ i, 0 < i → i < n → i ≠ j → lessAt less h i ((i - 1) / 2) = false
  grand : ∀ c, 0 < c → c < n → (c - 1) / 2 = j → 0 < j → lessAt less h c ((j - 1) / 2) = false

theorem UpReady.swap (hu : UpReady less n j h) (ho : Orders less h) (hn : n ≤ h.length) (hj : j < n)
    (hpos : 0 < j) (hless : lessAt less h j ((j - 1) / 2) = true) :
    UpReady less n ((j - 1) / 2) (swap h ((j - 1) / 2) j) := by
  obtain ⟨p, hp⟩ : ∃ p, (j - 1) / 2 = p := ⟨_, rfl⟩
  have hpj : p < j := by omega
  have hback := ho.lessAt_asymm hless
  rw [hp] at hless hback ⊢
  constructor
  · intro i hi hin hip
    rw [lessAt_swap (by omega) (by omega)]
    by_cases hij : i = j
    · rw [hij, hp, Equiv.swap_apply_right, Equiv.swap_apply_left]
      exact hback
    · rw [Equiv.swap_apply_of_ne_of_ne hip hij]
      by_cases hchild : (i - 1) / 2 = j
      · rw [hchild, Equiv.swap_apply_right, ← hp]
        exact hu.grand i hi hin hchild hpos
      · have hedge := hu.edges i hi hin hij
        by_cases hsibling : (i - 1) / 2 = p
        · rw [hsibling, Equiv.swap_apply_left]
          rw [hsibling] at hedge
          exact ho.lessAt_trans (by omega) hedge hback
        · rwa [Equiv.swap_apply_of_ne_of_ne hsibling hchild]
  · intro c hc hcn hparent hp0
    have hup : lessAt less h p ((p - 1) / 2) = false := hu.edges p hp0 (by omega) (by omega)
    rw [lessAt_swap (by omega) (by omega),
      Equiv.swap_apply_of_ne_of_ne (show (p - 1) / 2 ≠ p by omega) (by omega)]
    by_cases hcj : c = j
    · rw [hcj, Equiv.swap_apply_right]
      exact hup
    · rw [Equiv.swap_apply_of_ne_of_ne (by omega) hcj]
      have hedge := hu.edges c hc hcn hcj
      rw [hparent] at hedge
      exact ho.lessAt_trans (by omega) hedge hup

theorem heapUp_perm (fuel j : Nat) (h : List α) : (heapUp less fuel j h).Perm h := by
  induction fuel generalizing j h with
  | zero => exact List.Perm.refl _
  | succ fuel ih =>
    simp only [heapUp]
    split
    · exact List.Perm.refl _
    · exact (ih _ _).trans (swap_perm h _ _)

theorem heapUp_isHeap {fuel : Nat} (hu : UpReady less n j h) (ho : Orders less h)
    (hn : n ≤ h.length) (hj : j < n) (hfuel : j ≤ fuel) : IsHeap less n (heapUp less fuel j h) := by
  induction fuel generalizing j h with
  | zero =>
    intro i hi hin
    exact hu.edges i hi hin (by omega)
  | succ fuel ih =>
    simp only [heapUp]
    split
    · next hstop =>
      intro i hi hin
      by_cases hij : i = j
      · rw [hij] at hi ⊢
        rcases hstop with hroot | hless
        · omega
        · simpa using hless
      · exact hu.edges i hi hin hij
    · next hgo =>
      simp only [not_or, Bool.not_eq_true', Bool.not_eq_false] at hgo
      obtain ⟨hne, hless⟩ := hgo
      refine ih (hu.swap ho hn hj (by omega) hless) (ho.perm (swap_perm h _ _)) ?_ (by omega)
        (by omega)
      rw [length_swap]
      exact hn

/-! ## Down -/

/-- No element with a parent other than that at `i` is before it, and the children of that at `i`
are not before its parent. -/
structure DownReady (less : α → α → Bool) (n i : Nat) (h : List α) : Prop where
  edges : ∀ c, 0 < c → c < n → (c - 1) / 2 ≠ i → lessAt less h c ((c - 1) / 2) = false
  grand : ∀ c, 0 < c → c < n → (c - 1) / 2 = i → 0 < i → lessAt less h c ((i - 1) / 2) = false

theorem heapChild_spec (ho : Orders less h) (hi : 2 * i + 1 < n) :
    heapChild less h n i < n ∧ 0 < heapChild less h n i ∧ (heapChild less h n i - 1) / 2 = i ∧
      ∀ c, 0 < c → c < n → (c - 1) / 2 = i → lessAt less h c (heapChild less h n i) = false := by
  unfold heapChild
  split
  · next hright =>
    refine ⟨hright.1, by omega, by omega, fun c hc hcn hparent => ?_⟩
    obtain rfl | rfl : c = 2 * i + 1 ∨ c = 2 * i + 2 := by omega
    · exact ho.lessAt_asymm hright.2
    · exact ho.lessAt_irrefl _
  · next hleft =>
    refine ⟨hi, by omega, by omega, fun c hc hcn hparent => ?_⟩
    obtain rfl | rfl : c = 2 * i + 1 ∨ c = 2 * i + 2 := by omega
    · exact ho.lessAt_irrefl _
    · rw [← Bool.not_eq_true]
      exact fun hless => hleft ⟨hcn, hless⟩

theorem DownReady.swap (hd : DownReady less n i h) (ho : Orders less h) (hn : n ≤ h.length)
    (hi : 2 * i + 1 < n) (hless : lessAt less h (heapChild less h n i) i = true) :
    DownReady less n (heapChild less h n i) (swap h i (heapChild less h n i)) := by
  obtain ⟨hjn, hj0, hparent, hmin⟩ := heapChild_spec ho hi
  generalize heapChild less h n i = j at hless hjn hj0 hparent hmin ⊢
  have hback := ho.lessAt_asymm hless
  constructor
  · intro c hc hcn hcj
    rw [lessAt_swap (by omega) (by omega)]
    by_cases hchild : c = j
    · rw [hchild, hparent, Equiv.swap_apply_right, Equiv.swap_apply_left]
      exact hback
    · by_cases hsibling : (c - 1) / 2 = i
      · rw [hsibling, Equiv.swap_apply_left, Equiv.swap_apply_of_ne_of_ne (by omega) hchild]
        exact hmin c hc hcn hsibling
      · rw [Equiv.swap_apply_of_ne_of_ne hsibling hcj]
        by_cases hself : c = i
        · rw [hself, Equiv.swap_apply_left]
          exact hd.grand j hj0 hjn hparent (by omega)
        · rw [Equiv.swap_apply_of_ne_of_ne hself hchild]
          exact hd.edges c hc hcn hsibling
  · intro c hc hcn hcj _
    rw [lessAt_swap (by omega) (by omega), hparent, Equiv.swap_apply_left,
      Equiv.swap_apply_of_ne_of_ne (by omega) (by omega), ← hcj]
    exact hd.edges c hc hcn (by omega)

theorem heapDown_perm (n fuel i : Nat) (h : List α) : (heapDown less n fuel i h).Perm h := by
  induction fuel generalizing i h with
  | zero => exact List.Perm.refl _
  | succ fuel ih =>
    simp only [heapDown]
    split
    · exact List.Perm.refl _
    · exact (ih _ _).trans (swap_perm h _ _)

theorem heapDown_isHeap {fuel : Nat} (hd : DownReady less n i h) (ho : Orders less h)
    (hn : n ≤ h.length) (hfuel : n ≤ fuel + i) : IsHeap less n (heapDown less n fuel i h) := by
  induction fuel generalizing i h with
  | zero =>
    intro c hc hcn
    exact hd.edges c hc hcn (by omega)
  | succ fuel ih =>
    simp only [heapDown]
    split
    · next hstop =>
      intro c hc hcn
      by_cases hchild : (c - 1) / 2 = i
      · have hi : 2 * i + 1 < n := by omega
        obtain ⟨hjn, -, -, hmin⟩ := heapChild_spec ho hi
        rcases hstop with hleaf | hless
        · omega
        · rw [hchild]
          exact ho.lessAt_trans (Nat.lt_of_lt_of_le hjn hn) (hmin c hc hcn hchild)
            (by simpa using hless)
      · exact hd.edges c hc hcn hchild
    · next hgo =>
      simp only [not_or, Bool.not_eq_true', Bool.not_eq_false, Nat.not_le] at hgo
      obtain ⟨hi, hless⟩ := hgo
      obtain ⟨-, hj0, hparent, -⟩ := heapChild_spec ho hi
      refine ih (hd.swap ho hn hi hless) (ho.perm (swap_perm h _ _)) ?_ (by omega)
      rw [length_swap]
      exact hn

theorem heapDown_getElem? {fuel : Nat} (ho : Orders less h) (hn : n ≤ h.length) (hk : n ≤ k) :
    (heapDown less n fuel i h)[k]? = h[k]? := by
  induction fuel generalizing i h with
  | zero => rfl
  | succ fuel ih =>
    simp only [heapDown]
    split
    · rfl
    · next hgo =>
      simp only [not_or, Nat.not_le] at hgo
      obtain ⟨hjn, -, -, -⟩ := heapChild_spec ho hgo.1
      rw [ih (ho.perm (swap_perm h _ _)) (by rw [length_swap]; exact hn),
        getElem?_swap (by omega) (by omega), Equiv.swap_apply_of_ne_of_ne (by omega) (by omega)]

end Positions

/-! ## Push and pop -/

section Operations

variable {α : Type} {less : α → α → Bool} {h : List α} {a root : α}

theorem heapPush_perm (h : List α) (a : α) : (heapPush less h a).Perm (a :: h) :=
  (heapUp_perm _ _ _).trans (List.perm_append_singleton a h)

theorem heapPush_isHeap (hh : IsHeap less h.length h) (ho : Orders less (a :: h)) :
    IsHeap less (heapPush less h a).length (heapPush less h a) := by
  have ho' : Orders less (h ++ [a]) := ho.perm (List.perm_append_singleton a h)
  rw [length_heapPush]
  refine heapUp_isHeap ⟨?_, ?_⟩ ho' (by simp) (by omega) (Nat.le_refl _)
  · intro i hi hin hne
    have hlt : i < h.length := by omega
    have hold := hh i hi hlt
    unfold lessAt at hold ⊢
    rwa [List.getElem?_append_left hlt, List.getElem?_append_left (by omega)]
  · intro c hc hcn hparent
    omega

theorem IsHeap.root_first (hh : IsHeap less h.length h) (ho : Orders less h)
    (hroot : h.head? = some root) (ha : a ∈ h) : less a root = false := by
  obtain ⟨i, hi, rfl⟩ := List.mem_iff_getElem.1 ha
  have hpos : ∀ i, i < h.length → lessAt less h i 0 = false := by
    intro i
    induction i using Nat.strongRecOn with
    | ind i ih =>
      intro hi
      by_cases hzero : i = 0
      · rw [hzero]
        exact ho.lessAt_irrefl 0
      · exact ho.lessAt_trans (by omega) (hh i (by omega) hi)
          (ih ((i - 1) / 2) (by omega) (by omega))
  have hless := hpos i hi
  rw [lessAt, List.getElem?_eq_getElem hi, ← List.head?_eq_getElem?, hroot] at hless
  exact hless

theorem heapPop_append (ho : Orders less h) (hroot : h.head? = some root) :
    heapPop less h ++
      [root] = heapDown less (h.length - 1) (h.length - 1) 0 (swap h 0 (h.length - 1)) := by
  have hpos : 0 < h.length := by
    cases h with
    | nil => cases hroot
    | cons a l => exact Nat.succ_pos _
  refine List.dropLast_append_getLast? root ?_
  rw [List.getLast?_eq_getElem?, length_heapDown, length_swap,
    heapDown_getElem? (ho.perm (swap_perm h _ _)) (by rw [length_swap]; omega) (Nat.le_refl _),
    getElem?_swap hpos (by omega), Equiv.swap_apply_right, ← List.head?_eq_getElem?, hroot]
  rfl

theorem heapPop_perm (ho : Orders less h) (hroot : h.head? = some root) :
    (root :: heapPop less h).Perm h := by
  have hall : (heapPop less h ++ [root]).Perm h := by
    rw [heapPop_append ho hroot]
    exact (heapDown_perm _ _ _ _).trans (swap_perm h _ _)
  exact (List.perm_append_singleton root _).symm.trans hall

theorem heapPop_isHeap (hh : IsHeap less h.length h) (ho : Orders less h)
    (hroot : h.head? = some root) : IsHeap less (heapPop less h).length (heapPop less h) := by
  have hpos : 0 < h.length := by
    cases h with
    | nil => cases hroot
    | cons a l => exact Nat.succ_pos _
  have hready : DownReady less (h.length - 1) 0 (swap h 0 (h.length - 1)) := by
    refine ⟨fun c hc hcn hparent => ?_, fun c _ _ _ hzero => absurd hzero (Nat.lt_irrefl 0)⟩
    rw [lessAt_swap hpos (by omega), Equiv.swap_apply_of_ne_of_ne (by omega) (by omega),
      Equiv.swap_apply_of_ne_of_ne hparent (by omega)]
    exact hh c hc (by omega)
  have hheap : IsHeap less (h.length - 1)
      (heapDown less (h.length - 1) (h.length - 1) 0 (swap h 0 (h.length - 1))) :=
    heapDown_isHeap hready (ho.perm (swap_perm h _ _)) (by rw [length_swap]; omega) (by omega)
  rw [← heapPop_append ho hroot] at hheap
  rw [length_heapPop]
  intro j hj hjn
  have hlt : j < (heapPop less h).length := by rw [length_heapPop]; exact hjn
  have hedge := hheap j hj hjn
  unfold lessAt at hedge ⊢
  rwa [List.getElem?_append_left hlt, List.getElem?_append_left (by omega)] at hedge

end Operations

end SuperDB.Go
