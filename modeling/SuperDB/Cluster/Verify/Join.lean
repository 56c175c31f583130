import SuperDB.Cluster.Verify.Partition

/-!
# Joining a cluster

A node that joins copies the ranges of a member and then applies the log from its first entry. The
copy brings along every range that exists by then, and the log creates them once more. The node
ends up with the directory of the members exactly if there was nothing to copy but the first range,
which the first entry overwrites.
-/

namespace SuperDB.Cluster

open Go

namespace RangeStore

/-- A committed entry on any member; an operation that is rejected changes nothing. -/
def applied (s : RangeStore) (e : IdOrder × RangeOp) : RangeStore :=
  match s.applyOp e.1 e.2 with
  | .ok s' => s'
  | .error _ => s

/-- A log, each entry with the order in which the member iterates over maps. -/
def applyLog (s : RangeStore) (log : List (IdOrder × RangeOp)) : RangeStore := log.foldl applied s

/-- The log of a cluster: the first entry creates the first range. -/
def logOf (nodeID : Bytes) (ops : List RangeOp) : List RangeOp := (genesisOp nodeID).wire :: ops

/-- A member after the first `i` entries, if it iterates over maps in the orders `o`. -/
def memberAt (o : Nat → IdOrder) (log : List RangeOp) (i : Nat) : RangeStore :=
  applyLog {} ((log.take i).zipIdx.map fun p => (o p.2, p.1))

/-- The ranges of a directory, with the leaders that its node has seen since. -/
def withLeaders (leaders : Nat → Bytes) (s : RangeStore) : List Range :=
  s.all.map fun r => { r with leader := leaders r.id }

/-- A node that has joined with a copy of the ranges, after the first `i` entries. -/
def joinedAt (o : Nat → IdOrder) (copied : List Range) (log : List RangeOp) (i : Nat) :
    RangeStore :=
  applyLog (replaceBulk copied {}) ((log.take i).zipIdx.map fun p => (o p.2, p.1))

/-- Directories that agree, apart from the leaders. -/
structure Same (s s' : RangeStore) : Prop where
  ranges : ∀ id : Nat, (s.ranges[id]?).map (fun r => { r with leader := [] }) =
    (s'.ranges[id]?).map fun r => { r with leader := [] }
  assign : s.assign = s'.assign
  nextID : s.nextID = s'.nextID

section Order

variable {s : RangeStore}

theorem applied_order (o o' : IdOrder) (op : RangeOp) : s.applied (o, op) = s.applied (o', op) := by
  have hiff : ∀ o o' : IdOrder, (o.range op.baseGenerations).findSome? (s.fence op) = none →
      (o'.range op.baseGenerations).findSome? (s.fence op) = none := by
    intro o o' h
    rw [List.findSome?_eq_none_iff] at h ⊢
    intro id hid
    exact h id (((o.perm_perm _).trans (o'.perm_perm _).symm).mem_iff.2 hid)
  unfold applied applyOp
  simp only
  cases h : (o.range op.baseGenerations).findSome? (s.fence op) with
  | none => rw [hiff o o' h]
  | some e =>
    cases h' : (o'.range op.baseGenerations).findSome? (s.fence op) with
    | none =>
      rw [hiff o' o h'] at h
      cases h
    | some e' => rfl

theorem applyLog_order (o o' : Nat → IdOrder) (l : List (RangeOp × Nat)) :
    s.applyLog (l.map fun p => (o p.2, p.1)) = s.applyLog (l.map fun p => (o' p.2, p.1)) := by
  induction l generalizing s with
  | nil => rfl
  | cons p l ih =>
    simp only [applyLog, List.map_cons, List.foldl_cons] at ih ⊢
    rw [applied_order (o p.2) (o' p.2)]
    exact ih

end Order

/-! ## The copy -/

theorem applied_genesisOp (s : RangeStore) (o : IdOrder) (nodeID : Bytes) :
    s.applied (o, (genesisOp nodeID).wire) =
      { s with
        ranges := s.ranges.insert 1 (firstRange nodeID)
        nextID := if s.nextID ≤ 1 then 2 else s.nextID } := by
  have hnone : o.range (genesisOp nodeID).wire.baseGenerations = [] :=
    List.Perm.eq_nil (o.perm_perm _)
  unfold applied applyOp
  simp only [hnone, List.findSome?_nil]
  rfl

theorem applyLog_logOf (s : RangeStore) (o : Nat → IdOrder) (nodeID : Bytes) (ops : List RangeOp)
    (i : Nat) :
    s.applyLog (((logOf nodeID ops).take (i + 1)).zipIdx.map fun p => (o p.2, p.1)) =
      (s.applied (o 0, (genesisOp nodeID).wire)).applyLog
        (((ops.take i).zipIdx 1).map fun p => (o p.2, p.1)) := by
  simp only [logOf, List.take_succ_cons, List.zipIdx_cons, List.map_cons, applyLog,
    List.foldl_cons]

theorem get?_foldl_insert (l : List Range) (m : IdMap Range) (id : Nat) :
    (∃ r, (l.foldl (fun m r => m.insert r.id r) m)[id]? = some r) ↔
      (∃ r ∈ l, r.id = id) ∨ ∃ r, m[id]? = some r := by
  induction l generalizing m with
  | nil => simp
  | cons a l ih =>
    rw [List.foldl_cons, ih, IdMap.get?_insert]
    by_cases ha : a.id = id
    · simp [ha]
    · simp [ha]

theorem replaceBulk_first {copied : List Range} (h : ∀ r ∈ copied, r.id = 1) :
    (∀ id : Nat, id ≠ 1 → (replaceBulk copied {}).ranges[id]? = none) ∧
      (replaceBulk copied {}).nextID ≤ 2 := by
  refine ⟨fun id hid => ?_, ?_⟩
  · cases hget : (replaceBulk copied {}).ranges[id]? with
    | none => rfl
    | some r =>
      rcases (get?_foldl_insert copied ∅ id).1 ⟨r, hget⟩ with ⟨r', hr', hr''⟩ | ⟨r', hr'⟩
      · exact absurd (hr''.symm.trans (h r' hr')) hid
      · simp at hr'
  · have hmax : ∀ n, n ≤ 1 → copied.foldl (fun n r => max n r.id) n ≤ 1 := by
      induction copied with
      | nil => exact fun n hn => hn
      | cons a l ih =>
        rw [List.forall_mem_cons] at h
        intro n hn
        exact ih h.2 _ (by simp only [h.1]; omega)
    have := hmax 0 (Nat.zero_le _)
    simp only [replaceBulk]
    omega

/-- **When a node that joins converges.** It has the ranges, the assignment and the next number of
the members after every entry, exactly if the copied directory held no range but the first. -/
theorem join_converges_iff (nodeID : Bytes) (ops : List RangeOp) (o o' o'' : Nat → IdOrder)
    (leaders : Nat → Bytes) (k : Nat) :
    let log := logOf nodeID ops
    let copied := withLeaders leaders (memberAt o'' log k)
    (∀ i, 1 ≤ i → Same (joinedAt o' copied log i) (memberAt o log i)) ↔
      ∀ r ∈ copied, r.id = 1 := by
  intro log copied
  constructor
  · intro h r hr
    have hone := (h 1 (Nat.le_refl _)).ranges r.id
    by_contra hid
    have hmember : (memberAt o log 1).ranges[r.id]? = none := by
      rw [memberAt, applyLog_logOf, applied_genesisOp]
      simp [applyLog, Ne.symm hid]
    obtain ⟨r', hr'⟩ := (get?_foldl_insert copied ∅ r.id).2 (Or.inl ⟨r, hr, rfl⟩)
    have hjoined : (joinedAt o' copied log 1).ranges[r.id]? = some r' := by
      rw [joinedAt, applyLog_logOf, applied_genesisOp]
      simp only [List.take_zero, List.zipIdx_nil, List.map_nil, applyLog, List.foldl_nil]
      rw [IdMap.get?_insert, if_neg (Ne.symm hid)]
      exact hr'
    rw [hmember, hjoined] at hone
    cases hone
  · intro h i hi
    obtain ⟨i, rfl⟩ : ∃ j, i = j + 1 := ⟨i - 1, by omega⟩
    obtain ⟨hother, hnext⟩ := replaceBulk_first h
    -- after the first entry the directories are equal, and so they stay
    have hfirst : (replaceBulk copied {}).applied (o' 0, (genesisOp nodeID).wire) =
        applied {} (o 0, (genesisOp nodeID).wire) := by
      rw [applied_genesisOp, applied_genesisOp]
      have hranges : (replaceBulk copied {}).ranges.insert 1 (firstRange nodeID) =
          (∅ : IdMap Range).insert 1 (firstRange nodeID) := by
        apply Std.ExtTreeMap.ext_getElem?
        intro id
        rw [IdMap.get?_insert, IdMap.get?_insert]
        split
        · rfl
        · next hid =>
          rw [hother id (Ne.symm hid)]
          simp
      have hcounter : (if (replaceBulk copied {}).nextID ≤ 1 then 2
          else (replaceBulk copied {}).nextID) = 2 := by
        split <;> omega
      rw [hranges, hcounter]
      rfl
    have hsame : joinedAt o' copied log (i + 1) = memberAt o log (i + 1) := by
      rw [joinedAt, memberAt, applyLog_logOf, applyLog_logOf, hfirst]
      exact applyLog_order o' o _
    rw [hsame]
    exact ⟨fun _ => rfl, rfl, rfl⟩

/-- A node that joins after a split keeps the copied parts beside those that the log creates. -/
theorem join_converges_afterSplit :
    let log := logOf (str "n") [(splitOp (firstRange (str "n")) (str "m") 1).wire]
    let copied := withLeaders (fun _ => str "n") (memberAt (fun _ => .sorted) log 2)
    (memberAt (fun _ => .sorted) log 2).ranges.keys = [2, 3] ∧
      (joinedAt (fun _ => .sorted) copied log 2).ranges.keys = [2, 3, 4, 5] := by
  decide +kernel

end RangeStore

end SuperDB.Cluster
