import SuperDB.Go.Heap
import SuperDB.Engine.Verify.RowCap

/-!
# The best rows under ORDER BY

`topKEntries` keeps the entries that a full sort puts first, if the comparison orders the entries.
NaN is neither before nor after any number, and with it in a column the comparison need not order
the entries.
-/

namespace SuperDB.Engine

open Go

/-! ## The comparison -/

theorem bytesLess_asymm {a b : Bytes} (h : bytesLess a b = true) : bytesLess b a = false := by
  have hswap : compare b a = (compare a b).swap := Std.OrientedCmp.eq_swap
  unfold bytesLess at h ⊢
  rw [hswap, beq_iff_eq.1 h]
  rfl

theorem floatLess_asymm {a b : Float64} (h : Float64.lt a b = true) : Float64.lt b a = false := by
  cases a <;> cases b <;> simp_all [Float64.lt]
  omega

theorem mixedLess_asymm {a b : Value}
    (h : (match numeric a, numeric b with
      | some x, some y => Float64.lt x y
      | _, _ => bytesLess (sprint a) (sprint b)) = true) :
    (match numeric b, numeric a with
      | some y, some x => Float64.lt y x
      | _, _ => bytesLess (sprint b) (sprint a)) = false := by
  cases ha : numeric a with
  | none =>
    rw [ha] at h
    cases numeric b <;> exact bytesLess_asymm h
  | some x =>
    rw [ha] at h
    cases hb : numeric b with
    | none =>
      rw [hb] at h
      exact bytesLess_asymm h
    | some y =>
      rw [hb] at h
      exact floatLess_asymm h

theorem valueLess_asymm {a b : Value} (h : valueLess a b = true) : valueLess b a = false := by
  unfold valueLess at h ⊢
  split at h
  · simp only [decide_eq_true_eq, decide_eq_false_iff_not] at h ⊢
    omega
  · exact bytesLess_asymm h
  · simp only [Bool.and_eq_true, Bool.not_eq_true'] at h
    simp [h.1, h.2]
  · exact floatLess_asymm h
  · next hint htext hbool hfloat =>
    split
    · exact absurd rfl (hint _ _ rfl)
    · exact absurd rfl (htext _ _ rfl)
    · exact absurd rfl (hbool _ _ rfl)
    · exact absurd rfl (hfloat _ _ rfl)
    · exact mixedLess_asymm h

theorem rankBefore_asymm {descending : Bool} {a b : OrderEntry}
    (h : rankBefore descending a b = true) :
    rankBefore descending b a = false := by
  unfold rankBefore at h ⊢
  cases hab : valueLess a.val b.val with
  | true =>
    rw [hab, if_pos rfl] at h
    rw [valueLess_asymm hab]
    simpa using h
  | false =>
    cases hba : valueLess b.val a.val with
    | true =>
      rw [hab, hba] at h
      simpa using h
    | false =>
      rw [hab, hba] at h
      simp only [Bool.false_eq_true, if_false, decide_eq_true_eq, decide_eq_false_iff_not] at h ⊢
      omega

theorem rankBefore_total {descending : Bool} {a b : OrderEntry}
    (hab : rankBefore descending a b = false) (hba : rankBefore descending b a = false) :
    a.seq = b.seq := by
  unfold rankBefore at hab hba
  cases h : valueLess a.val b.val with
  | true =>
    rw [h, valueLess_asymm h] at hba
    rw [h] at hab
    cases descending <;> simp at hab hba
  | false =>
    cases h' : valueLess b.val a.val with
    | true =>
      rw [h, h'] at hab
      rw [h'] at hba
      cases descending <;> simp at hab hba
    | false =>
      rw [h, h'] at hab
      rw [h, h'] at hba
      simp only [Bool.false_eq_true, if_false, decide_eq_false_iff_not] at hab hba
      omega

/-! ## The heap of the best entries -/

/-- The heap holds the best of the entries seen, as many as there are up to `k`; the others are
`out`. -/
structure Best (k : Nat) (descending : Bool) (seen h out : List OrderEntry) : Prop where
  perm : (h ++ out).Perm seen
  after : ∀ a ∈ h, ∀ b ∈ out, rankBefore descending b a = false
  heap : IsHeap (fun a b => rankBefore descending b a) h.length h
  small : h.length ≤ k
  full : out ≠ [] → h.length = k

section Best

variable {k : Nat} {descending : Bool} {seen h out : List OrderEntry} {e : OrderEntry}

theorem Best.step (hb : Best k descending seen h out) (hk : 0 < k)
    (ho : Orders (rankBefore descending) (e :: seen)) :
    ∃ h' out', topKStep k descending h e = .ok h' ∧ Best k descending (e :: seen) h' out' := by
  have hmem : ∀ a ∈ h, a ∈ e :: seen := fun a ha =>
    List.mem_cons_of_mem _ (hb.perm.subset (List.mem_append_left _ ha))
  have hout : ∀ b ∈ out, b ∈ e :: seen := fun b hb' =>
    List.mem_cons_of_mem _ (hb.perm.subset (List.mem_append_right _ hb'))
  have hordered : Orders (fun a b => rankBefore descending b a) h := (ho.mono hmem).reverse
  by_cases hroom : h.length < k
  · have hnone : out = [] := by
      by_contra hne
      have := hb.full hne
      omega
    subst hnone
    refine ⟨heapPush (fun a b => rankBefore descending b a) h e, [],
      if_pos hroom, ?_, ?_, ?_, ?_, ?_⟩
    · rw [List.append_nil]
      have hperm := hb.perm
      rw [List.append_nil] at hperm
      exact (heapPush_perm h e).trans (hperm.cons e)
    · exact fun a _ b hnil => by cases hnil
    · refine heapPush_isHeap hb.heap ((ho.mono ?_).reverse)
      exact List.cons_subset.2 ⟨List.mem_cons_self, hmem⟩
    · rw [length_heapPush]
      exact hroom
    · exact fun hne => absurd rfl hne
  · have hlen : h.length = k := by
      have := hb.small
      omega
    cases hh : h with
    | nil =>
      rw [hh] at hlen
      exact absurd hlen.symm (Nat.ne_of_gt hk)
    | cons root rest =>
      have hhead : h.head? = some root := by rw [hh]; rfl
      have hroot : root ∈ h := List.mem_of_mem_head? hhead
      have hlast : ∀ a ∈ h, rankBefore descending root a = false := fun a ha =>
        hb.heap.root_first hordered hhead ha
      have hstep : topKStep k descending h e =
          if rankBefore descending e root then
            .ok (heapPush (fun a b => rankBefore descending b a)
              (heapPop (fun a b => rankBefore descending b a) h) e)
          else .ok h := by
        unfold topKStep
        simp only
        rw [if_neg hroom, hh]
      rw [← hh, hstep]
      by_cases hbefore : rankBefore descending e root = true
      · rw [if_pos hbefore]
        have hpop := heapPop_perm hordered hhead
        have hsub : heapPop (fun a b => rankBefore descending b a) h ⊆ h := fun a ha =>
          hpop.subset (List.mem_cons_of_mem _ ha)
        refine ⟨_, root :: out, rfl, ?_, ?_, ?_, ?_, ?_⟩
        · refine ((heapPush_perm _ e).append_right (root :: out)).trans ?_
          rw [List.cons_append]
          refine List.Perm.cons e (List.perm_middle.trans ?_)
          exact (hpop.append_right out).trans hb.perm
        · intro a ha b hb'
          rw [(heapPush_perm _ e).mem_iff, List.mem_cons] at ha
          rw [List.mem_cons] at hb'
          have hback := rankBefore_asymm hbefore
          rcases ha with rfl | ha <;> rcases hb' with rfl | hb'
          · exact hback
          · exact ho.trans b (hout b hb') root (hmem root hroot) a List.mem_cons_self
              (hb.after root hroot b hb') hback
          · exact hlast a (hsub ha)
          · exact hb.after a (hsub ha) b hb'
        · refine heapPush_isHeap (heapPop_isHeap hb.heap hordered hhead) ((ho.mono ?_).reverse)
          exact List.cons_subset.2 ⟨List.mem_cons_self, fun a ha => hmem a (hsub ha)⟩
        · rw [length_heapPush, length_heapPop]
          omega
        · intro _
          rw [length_heapPush, length_heapPop]
          omega
      · rw [Bool.not_eq_true] at hbefore
        rw [hbefore, if_neg Bool.false_ne_true]
        refine ⟨h, e :: out, rfl, ?_, ?_, hb.heap, hb.small, fun _ => hlen⟩
        · exact List.perm_middle.trans (hb.perm.cons e)
        · intro a ha b hb'
          rcases List.mem_cons.1 hb' with rfl | hb'
          · exact ho.trans b List.mem_cons_self root (hmem root hroot) a (hmem a ha) hbefore
              (hlast a ha)
          · exact hb.after a ha b hb'

theorem Best.run (hb : Best k descending seen h out) (hk : 0 < k) (entries : List OrderEntry)
    (ho : Orders (rankBefore descending) (entries ++ seen)) :
    ∃ h' out' seen', entries.foldlM (topKStep k descending) h = .ok h' ∧
      seen'.Perm (entries ++ seen) ∧ Best k descending seen' h' out' := by
  induction entries generalizing seen h out with
  | nil => exact ⟨h, out, seen, rfl, List.Perm.refl _, hb⟩
  | cons e entries ih =>
    have hmiddle : (entries ++ e :: seen).Perm (e :: entries ++ seen) := List.perm_middle
    obtain ⟨h₁, out₁, hstep, hb₁⟩ := hb.step hk (ho.mono fun a ha => by
      rw [← hmiddle.mem_iff]
      exact List.mem_append_right _ ha)
    obtain ⟨h₂, out₂, seen₂, hrun, hseen, hb₂⟩ := ih hb₁ (ho.perm hmiddle)
    refine ⟨h₂, out₂, seen₂, ?_, hseen.trans hmiddle, hb₂⟩
    rw [List.foldlM_cons, hstep]
    exact hrun

/-- **The selection keeps the entries that rank first.** -/
theorem topKEntries_best {entries : List OrderEntry} (hk : 0 < k) (hlen : k ≤ entries.length)
    (ho : Orders (rankBefore descending) entries) :
    ∃ best out, topKEntries entries k descending = .ok best ∧ (best ++ out).Perm entries ∧
      best.length = k ∧ ∀ a ∈ best, ∀ b ∈ out, rankBefore descending b a = false := by
  have hstart : Best k descending [] [] [] :=
    ⟨List.Perm.refl _, fun a ha => (List.not_mem_nil ha).elim,
      fun j _ hj => absurd hj (Nat.not_lt_zero j), Nat.zero_le _, fun hne => absurd rfl hne⟩
  obtain ⟨best, out, seen, hrun, hseen, hb⟩ := hstart.run hk entries (by rwa [List.append_nil])
  rw [List.append_nil] at hseen
  refine ⟨best, out, hrun, hb.perm.trans hseen, ?_, hb.after⟩
  by_cases hnone : out = []
  · have hall := (hb.perm.trans hseen).length_eq
    rw [hnone, List.append_nil] at hall
    have := hb.small
    omega
  · exact hb.full hnone

end Best

/-! ## Sorting the best entries -/

def Placed (entries : List OrderEntry) : Prop :=
  ∀ a ∈ entries, ∀ b ∈ entries, a.seq = b.seq → a = b

/-- **Sorting the best entries gives the start of the sorted list of all.** -/
theorem sort_topKEntries {sorter : Sorter} (hs : sorter.Sorts) {entries : List OrderEntry} {k : Nat}
    {descending : Bool} (hplaced : Placed entries) (hk : 0 < k) (hlen : k ≤ entries.length)
    (ho : Orders (rankBefore descending) entries) :
    ∃ best, topKEntries entries k descending = .ok best ∧
      sorter.sort (rankBefore descending) best =
        (sorter.sort (rankBefore descending) entries).take k := by
  obtain ⟨best, out, hbest, hperm, hsize, hafter⟩ := topKEntries_best hk hlen ho
  refine ⟨best, hbest, ?_⟩
  have hbest' : best ⊆ entries := fun a ha => hperm.subset (List.mem_append_left _ ha)
  have hout' : out ⊆ entries := fun a ha => hperm.subset (List.mem_append_right _ ha)
  have hparts : sorter.sort (rankBefore descending) best ++
      sorter.sort (rankBefore descending) out = sorter.sort (rankBefore descending) entries := by
    refine List.Perm.eq_of_pairwise ?_ ?_ (hs _ _ ho) ?_
    · intro a b ha hb hba hab
      refine hplaced a ?_ b ((sorter.perm _ _).subset hb) (rankBefore_total hab hba)
      rcases List.mem_append.1 ha with ha | ha
      · exact hbest' ((sorter.perm _ _).subset ha)
      · exact hout' ((sorter.perm _ _).subset ha)
    · refine List.pairwise_append.2 ⟨hs _ _ (ho.mono hbest'), hs _ _ (ho.mono hout'), ?_⟩
      exact fun a ha b hb => hafter a ((sorter.perm _ _).subset ha) b ((sorter.perm _ _).subset hb)
    · exact ((sorter.perm _ _).append (sorter.perm _ _)).trans (hperm.trans (sorter.perm _ _).symm)
  rw [← hparts, List.take_left' ((sorter.perm _ _).length_eq.trans hsize)]

end SuperDB.Engine
