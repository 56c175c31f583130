import SuperDB.Cluster.Verify.Join

/-!
# What a range operation does

The effect of an operation on a directory. Every operation keeps the ranges
under their own numbers, below the next one to be handed out. An operation that takes effect has
passed its fences, and then a number that was in use is as the operation says, or as before.
-/

namespace SuperDB.Cluster

open Go

/-! ## Maps that are filled in a loop -/

section Fill

variable {V : Type}

theorem Map.get?_foldl_copy (source : Map V) (d : V) (keys : List Bytes) (m : Map V) (t : Bytes)
    (hkeys : ∀ k ∈ keys, k ∈ source) :
    (keys.foldl (fun m k => m.insert k (source.getD k d)) m)[t]? =
      if t ∈ keys then source[t]? else m[t]? := by
  induction keys generalizing m with
  | nil => simp
  | cons k keys ih =>
    rw [List.forall_mem_cons] at hkeys
    rw [List.foldl_cons, ih _ hkeys.2, Map.get?_insert]
    by_cases hmem : t ∈ keys
    · simp [hmem]
    · by_cases hk : k = t
      · subst hk
        have hsome : source[k]? = some (source.getD k d) := by
          rw [Std.ExtTreeMap.getD_eq_getD_getElem?]
          have hin := Std.ExtTreeMap.mem_iff_isSome_getElem?.1 hkeys.1
          obtain ⟨v, hv⟩ := Option.isSome_iff_exists.1 hin
          rw [hv]
          rfl
        simp [hmem, hsome]
      · simp [hmem, hk, Ne.symm hk]

theorem Map.get?_copy (source : Map V) (d : V) (m : Map V) (t : Bytes) :
    (source.keys.foldl (fun m k => m.insert k (source.getD k d)) m)[t]? =
      (source[t]?).or m[t]? := by
  rw [Map.get?_foldl_copy source d source.keys m t fun k hk => Std.ExtTreeMap.mem_keys.1 hk]
  cases hsource : source[t]? with
  | none =>
    have hnot : t ∉ source.keys := fun hk => by
      have hin := Std.ExtTreeMap.mem_iff_isSome_getElem?.1 (Std.ExtTreeMap.mem_keys.1 hk)
      rw [hsource] at hin
      cases hin
    rw [if_neg hnot]
    rfl
  | some v =>
    have hin : t ∈ source.keys := by
      rw [Std.ExtTreeMap.mem_keys, Std.ExtTreeMap.mem_iff_isSome_getElem?, hsource]
      rfl
    rw [if_pos hin]
    rfl

end Fill

namespace RangeStore

variable {s s' : RangeStore} {o : IdOrder} {op : RangeOp}

/-! ## The steps of an operation -/

theorem get?_foldl_erase (l : List Nat) (m : IdMap Range) (id : Nat) :
    (l.foldl (fun m id => m.erase id) m)[id]? = if id ∈ l then none else m[id]? := by
  induction l generalizing m with
  | nil => simp
  | cons a l ih =>
    rw [List.foldl_cons, ih, IdMap.get?_erase]
    by_cases hmem : id ∈ l
    · simp [hmem]
    · by_cases ha : a = id
      · simp [ha]
      · simp [hmem, ha, Ne.symm ha]

theorem nextID_install (s : RangeStore) (r : Range) : s.nextID ≤ (s.install r).nextID := by
  unfold install
  split
  · exact Nat.le_succ _
  · simp only
    split <;> omega

theorem nextID_foldl_install (l : List Range) : s.nextID ≤ (l.foldl install s).nextID := by
  induction l generalizing s with
  | nil => exact Nat.le_refl _
  | cons r l ih => exact (nextID_install s r).trans ih

theorem get?_foldl_install (l : List Range) {id : Nat} (hpos : 1 ≤ id) (hlt : id < s.nextID) :
    (∃ r ∈ l, r.id = id ∧ (l.foldl install s).ranges[id]? = some r) ∨
      (∀ r ∈ l, r.id ≠ id) ∧ (l.foldl install s).ranges[id]? = s.ranges[id]? := by
  induction l generalizing s with
  | nil => exact Or.inr ⟨fun r hr => absurd hr List.not_mem_nil, rfl⟩
  | cons r l ih =>
    have hget : (s.install r).ranges[id]? = if r.id = id then some r else s.ranges[id]? := by
      unfold install
      split
      · next hzero => rw [IdMap.get?_insert, if_neg (by omega), if_neg (by omega)]
      · rw [IdMap.get?_insert]
    rcases ih (s := s.install r) (Nat.lt_of_lt_of_le hlt (nextID_install s r)) with
      ⟨r', hr', hid, hfound⟩ | ⟨hnone, hsame⟩
    · exact Or.inl ⟨r', List.mem_cons_of_mem _ hr', hid, hfound⟩
    · rw [hget] at hsame
      by_cases hid : r.id = id
      · rw [if_pos hid] at hsame
        exact Or.inl ⟨r, List.mem_cons_self, hid, hsame⟩
      · rw [if_neg hid] at hsame
        exact Or.inr ⟨List.forall_mem_cons.2 ⟨hid, hnone⟩, hsame⟩

def installed (op : RangeOp) (s : RangeStore) : RangeStore :=
  op.ranges.foldl install { s with ranges := op.remove.foldl (fun m id => m.erase id) s.ranges }

theorem installed_assign (op : RangeOp) (s : RangeStore) : (s.installed op).assign = s.assign := by
  have hfold : ∀ (l : List Range) (s : RangeStore), (l.foldl install s).assign = s.assign := by
    intro l
    induction l with
    | nil => exact fun _ => rfl
    | cons r l ih =>
      intro s
      rw [List.foldl_cons, ih]
      unfold install
      split <;> rfl
  exact hfold _ _

/-- The base generations are current. -/
def Passes (s : RangeStore) (op : RangeOp) : Prop :=
  ∀ (id gen : Nat), op.baseGenerations[id]? = some gen →
    ∃ r : Range, s.ranges[id]? = some r ∧ r.generation = gen

theorem fence_eq_none {id gen : Nat} (h : op.baseGenerations[id]? = some gen) :
    s.fence op id = none ↔ ∃ r : Range, s.ranges[id]? = some r ∧ r.generation = gen := by
  have hgen : op.baseGenerations.getD id 0 = gen := by
    rw [Std.ExtTreeMap.getD_eq_getD_getElem?, h]
    rfl
  unfold fence
  cases hr : s.ranges[id]? with
  | none => simp
  | some r =>
    simp only [hgen]
    by_cases heq : r.generation = gen <;> simp [heq]

theorem fences_eq_none : (o.range op.baseGenerations).findSome? (s.fence op) = none ↔
    s.Passes op := by
  rw [List.findSome?_eq_none_iff]
  have hmem : ∀ id, id ∈ o.range op.baseGenerations ↔ ∃ gen, op.baseGenerations[id]? = some gen :=
    fun id => (o.perm_perm _).mem_iff.trans IdMap.mem_keys_iff
  constructor
  · intro h id gen hgen
    exact (fence_eq_none hgen).1 (h id ((hmem id).2 ⟨gen, hgen⟩))
  · intro h id hid
    obtain ⟨gen, hgen⟩ := (hmem id).1 hid
    exact (fence_eq_none hgen).2 (h id gen hgen)

def reassigned (op : RangeOp) (assign : Map Nat) : Map Nat :=
  op.unassign.foldl (fun m t => m.erase t)
    (op.assign.keys.foldl (fun m t => m.insert t (op.assign.getD t 0)) assign)

/-- **What an operation does**: nothing if a fence objects, and all of it otherwise. -/
theorem applied_eq (s : RangeStore) (e : IdOrder × RangeOp) [Decidable (s.Passes e.2)] :
    s.applied e =
      if s.Passes e.2 then
        { ranges := (s.installed e.2).ranges
          assign := reassigned e.2 s.assign
          nextID := (s.installed e.2).nextID }
      else s := by
  unfold applied applyOp
  by_cases h : s.Passes e.2
  · have hassign : reassigned e.2 s.assign = reassigned e.2 (s.installed e.2).assign := by
      rw [installed_assign]
    rw [if_pos h, fences_eq_none.2 h, hassign]
    rfl
  · rw [if_neg h]
    cases hf : (e.1.range e.2.baseGenerations).findSome? (s.fence e.2) with
    | none => exact absurd (fences_eq_none.1 hf) h
    | some err => rfl

/-- An operation takes effect exactly if its fences do not object. -/
theorem applyOp_ok_iff : (∃ s', s.applyOp o op = .ok s') ↔ s.Passes op := by
  unfold applyOp
  cases hf : (o.range op.baseGenerations).findSome? (s.fence op) with
  | none => exact iff_of_true ⟨_, rfl⟩ (fences_eq_none.1 hf)
  | some err =>
    refine iff_of_false (fun ⟨s', h⟩ => by cases h) fun h => ?_
    rw [fences_eq_none.2 h] at hf
    cases hf

theorem Numbered.applied (h : s.Numbered) (e : IdOrder × RangeOp) : (s.applied e).Numbered := by
  classical
  rw [applied_eq]
  split
  · have herased : Numbered { s with
        ranges := e.2.remove.foldl (fun m id => m.erase id) s.ranges } := by
      refine h.congr rfl fun id r hr => ?_
      rw [get?_foldl_erase] at hr
      split at hr
      · cases hr
      · exact hr
    exact (herased.foldl_install e.2.ranges).congr rfl fun id r hr => hr
  · exact h

theorem nextID_applied (e : IdOrder × RangeOp) : s.nextID ≤ (s.applied e).nextID := by
  classical
  rw [applied_eq]
  split
  · exact nextID_foldl_install (s := { s with
      ranges := e.2.remove.foldl (fun m id => m.erase id) s.ranges }) e.2.ranges
  · exact Nat.le_refl _

theorem get?_applied {e : IdOrder × RangeOp} (h : s.Passes e.2) {id : Nat} (hpos : 1 ≤ id)
    (hlt : id < s.nextID) :
    (∃ r ∈ e.2.ranges, r.id = id ∧ (s.applied e).ranges[id]? = some r) ∨
      (∀ r ∈ e.2.ranges, r.id ≠ id) ∧
        (s.applied e).ranges[id]? = if id ∈ e.2.remove then none else s.ranges[id]? := by
  classical
  rw [applied_eq, if_pos h, ← get?_foldl_erase]
  exact get?_foldl_install (s := { s with
    ranges := e.2.remove.foldl (fun m id => m.erase id) s.ranges }) e.2.ranges hpos hlt

end RangeStore

end SuperDB.Cluster
