import SuperDB.Cluster.Ranges
import SuperDB.Go.Span

/-!
# Ranges and the key space

Moves, assignments and rebalancing leave the bounds of all ranges as they are, and a split replaces
one range by two. The directory partitions the key space as long as every split key lies within
the range that is split, and no longer.
-/

namespace SuperDB.Cluster

open Go

variable {id : Nat}

/-! ## Maps with numbers as keys -/

section IdMap

variable {V : Type}

theorem IdMap.get?_insert (m : IdMap V) (k a : Nat) (v : V) :
    (m.insert k v)[a]? = if k = a then some v else m[a]? := by
  rw [Std.ExtTreeMap.getElem?_insert]
  simp only [Std.LawfulEqCmp.compare_eq_iff_eq]

theorem IdMap.get?_erase (m : IdMap V) (k a : Nat) :
    (m.erase k)[a]? = if k = a then none else m[a]? := by
  rw [Std.ExtTreeMap.getElem?_erase]
  simp only [Std.LawfulEqCmp.compare_eq_iff_eq]

theorem IdMap.mem_keys_iff {m : IdMap V} {k : Nat} : k ∈ m.keys ↔ ∃ v, m[k]? = some v := by
  rw [Std.ExtTreeMap.mem_keys, Std.ExtTreeMap.mem_iff_isSome_getElem?, Option.isSome_iff_exists]

end IdMap

/-! ## Spans -/

section Order

/-- Byte strings in the order of Go's comparison. -/
local instance bytesOrder : LinearOrder Bytes where
  le_refl := List.le_refl
  le_trans _ _ _ := List.le_trans
  lt_iff_le_not_ge a b := by
    rw [List.not_le]
    exact ⟨fun h => ⟨List.le_of_lt h, h⟩, fun h => h.2⟩
  le_antisymm _ _ := List.le_antisymm
  le_total := List.le_total
  toDecidableLE := inferInstance
  toDecidableLT := inferInstance
  compare a b := compareOfLessAndEq a b
  compare_eq_compareOfLessAndEq _ _ := rfl

local instance bytesBot : OrderBot Bytes where
  bot := []
  bot_le a := List.nil_le a

def Range.span (r : Range) : Span Bytes := ⟨r.startKey, r.endKey⟩

theorem Range.contains_iff (r : Range) (key : Bytes) : r.contains key = true ↔ r.span.Mem key := by
  unfold Range.contains Span.Mem Range.span
  split_ifs with hlow hhigh
  · simp [not_le.2 hlow]
  · simp only [false_iff, not_and, not_or]
    exact fun _ => ⟨hhigh.1, not_lt.2 hhigh.2⟩
  · simp only [true_iff]
    refine ⟨not_lt.1 hlow, ?_⟩
    by_cases hend : r.endKey = []
    · exact Or.inl hend
    · exact Or.inr (not_le.1 fun hle => hhigh ⟨hend, hle⟩)

def RangeStore.spans (s : RangeStore) (id : Nat) : Option (Span Bytes) :=
  (s.ranges[id]?).map Range.span

namespace RangeStore

variable {s s' : RangeStore}

/-! ## Numbers -/

/-- Ranges are stored under their numbers, which have been handed out. -/
structure Numbered (s : RangeStore) : Prop where
  next : 1 ≤ s.nextID
  number : ∀ (id : Nat) (r : Range), s.ranges[id]? = some r → r.id = id ∧ 1 ≤ id ∧ id < s.nextID

theorem numbered_empty : Numbered {} := ⟨Nat.le_refl _, fun id r h => by simp at h⟩

theorem Numbered.install (h : s.Numbered) (r : Range) : (s.install r).Numbered := by
  unfold RangeStore.install
  split
  · refine ⟨Nat.le_succ_of_le h.next, fun id r' hr' => ?_⟩
    rw [IdMap.get?_insert] at hr'
    split at hr'
    · next hid =>
      obtain rfl := Option.some.inj hr'
      exact ⟨hid, hid ▸ h.next, by simp only; omega⟩
    · obtain ⟨hnum, hpos, hlt⟩ := h.number id r' hr'
      exact ⟨hnum, hpos, Nat.lt_succ_of_lt hlt⟩
  · next hr =>
    refine ⟨?_, fun id r' hr' => ?_⟩
    · have := h.next
      simp only
      split <;> omega
    · rw [IdMap.get?_insert] at hr'
      split at hr'
      · next hid =>
        obtain rfl := Option.some.inj hr'
        refine ⟨hid, by omega, ?_⟩
        simp only
        split <;> omega
      · obtain ⟨hnum, hpos, hlt⟩ := h.number id r' hr'
        refine ⟨hnum, hpos, ?_⟩
        simp only
        split <;> omega

theorem Numbered.foldl_install (h : s.Numbered) (l : List Range) :
    (l.foldl RangeStore.install s).Numbered := by
  induction l generalizing s with
  | nil => exact h
  | cons r l ih => exact ih (h.install r)

theorem Numbered.congr (h : s.Numbered) (hnext : s'.nextID = s.nextID)
    (hsub : ∀ (id : Nat) (r : Range), s'.ranges[id]? = some r → s.ranges[id]? = some r) :
    s'.Numbered :=
  ⟨hnext ▸ h.next, fun id r hr => hnext ▸ h.number id r (hsub id r hr)⟩

/-- A directory as the operations leave it: ranges are numbered, and their bounds are text that JSON
leaves alone, and in order. -/
structure Wf (s : RangeStore) : Prop extends s.Numbered where
  text : ∀ (id : Nat) (r : Range), s.ranges[id]? = some r →
    toValidUTF8 r.startKey = r.startKey ∧ toValidUTF8 r.endKey = r.endKey
  proper : ∀ (id : Nat) (r : Range), s.ranges[id]? = some r → r.span.Proper

theorem mem_all {r : Range} : r ∈ s.all ↔ ∃ id : Nat, s.ranges[id]? = some r := by
  simp only [all, List.mem_filterMap, IdMap.mem_keys_iff]
  constructor
  · rintro ⟨id, -, hr⟩
    exact ⟨id, hr⟩
  · rintro ⟨id, hr⟩
    exact ⟨id, ⟨r, hr⟩, hr⟩

theorem Wf.congr (h : s.Wf) (hranges : s'.ranges = s.ranges) (hnext : s'.nextID = s.nextID) :
    s'.Wf where
  toNumbered := h.toNumbered.congr hnext fun id r hr => by rwa [hranges] at hr
  text := by rw [hranges]; exact h.text
  proper := by rw [hranges]; exact h.proper

/-! ## Ranges installed again -/

/-- `r` is a stored range with other replicas, leader and generation. -/
def Updates (s : RangeStore) (r : Range) : Prop :=
  ∃ r₀ : Range, s.ranges[r.id]? = some r₀ ∧ r.startKey = r₀.startKey ∧ r.endKey = r₀.endKey

theorem Updates.spans_install {r : Range} (hs : s.Wf) (h : s.Updates r) :
    (s.install r).spans = s.spans ∧ (s.install r).Wf := by
  obtain ⟨r₀, hr₀, hstart, hend⟩ := h
  obtain ⟨-, hpos, hlt⟩ := hs.number r.id r₀ hr₀
  have hspan : r.span = r₀.span := by rw [Range.span, hstart, hend]; rfl
  have hinstall : s.install r = { s with ranges := s.ranges.insert r.id r } := by
    unfold install
    rw [if_neg (by omega), if_neg (by omega)]
  have hget : ∀ id : Nat, (s.install r).ranges[id]? =
      if r.id = id then some r else s.ranges[id]? := fun id => by
    rw [hinstall]
    exact IdMap.get?_insert _ _ _ _
  have hcases : ∀ (id : Nat) (r' : Range), (s.install r).ranges[id]? = some r' →
      id = r.id ∧ r' = r ∨ s.ranges[id]? = some r' := fun id r' hr' => by
    rw [hget] at hr'
    split at hr'
    · next hid => exact Or.inl ⟨hid.symm, (Option.some.inj hr').symm⟩
    · exact Or.inr hr'
  refine ⟨funext fun id => ?_, ⟨hs.toNumbered.install r, ?_, ?_⟩⟩
  · rw [spans, spans, hget]
    split
    · next hid => rw [← hid, hr₀, Option.map_some, Option.map_some, hspan]
    · rfl
  · intro id r' hr'
    rcases hcases id r' hr' with ⟨rfl, rfl⟩ | hold
    · rw [hstart, hend]
      exact hs.text _ r₀ hr₀
    · exact hs.text id r' hold
  · intro id r' hr'
    rcases hcases id r' hr' with ⟨rfl, rfl⟩ | hold
    · rw [hspan]
      exact hs.proper _ r₀ hr₀
    · exact hs.proper id r' hold

theorem Updates.install {r r' : Range} (hs : s.Wf) (h : s.Updates r) (h' : s.Updates r') :
    (s.install r).Updates r' := by
  obtain ⟨hspans, -⟩ := h.spans_install hs
  obtain ⟨r₀, hr₀, hstart, hend⟩ := h'
  have hspan := congrFun hspans r'.id
  rw [spans, spans, hr₀, Option.map_some, Option.map_eq_some_iff] at hspan
  obtain ⟨r₁, hr₁, hsame⟩ := hspan
  simp only [Range.span, Span.mk.injEq] at hsame
  exact ⟨r₁, hr₁, hstart.trans hsame.1.symm, hend.trans hsame.2.symm⟩

theorem spans_foldl_install {l : List Range} (hs : s.Wf) (hl : ∀ r ∈ l, s.Updates r) :
    (l.foldl RangeStore.install s).spans = s.spans ∧ (l.foldl RangeStore.install s).Wf := by
  induction l generalizing s with
  | nil => exact ⟨rfl, hs⟩
  | cons r l ih =>
    rw [List.forall_mem_cons] at hl
    obtain ⟨hspans, hwf⟩ := hl.1.spans_install hs
    obtain ⟨hspans', hwf'⟩ := ih hwf fun r' hr' => hl.1.install hs (hl.2 r' hr')
    exact ⟨hspans'.trans hspans, hwf'⟩

theorem spans_proposeRange (o : IdOrder) (op : RangeOp) (hs : s.Wf) (hremove : op.remove = [])
    (hranges : ∀ r ∈ op.ranges, s.Updates r) :
    (s.proposeRange o op).2.spans = s.spans ∧ (s.proposeRange o op).2.Wf := by
  have hwire : ∀ r ∈ op.wire.ranges, s.Updates r := by
    intro r hr
    obtain ⟨r', hr', rfl⟩ := List.mem_map.1 hr
    obtain ⟨r₀, hr₀, hstart, hend⟩ := hranges r' hr'
    obtain ⟨htext, htext'⟩ := hs.text _ r₀ hr₀
    refine ⟨r₀, hr₀, ?_, ?_⟩
    · rw [← htext, ← hstart]
      rfl
    · rw [← htext', ← hend]
      rfl
  obtain ⟨hspans, hwf⟩ := spans_foldl_install hs hwire
  unfold proposeRange applyOp
  split
  · next s' happly =>
    split at happly
    · cases happly
    · obtain rfl := Except.ok.inj happly
      have hnothing : op.wire.remove.foldl (fun m id => m.erase id) s.ranges = s.ranges := by
        rw [show op.wire.remove = [] from hremove]
        rfl
      simp only [hnothing]
      exact ⟨hspans, hwf.congr rfl rfl⟩
  · exact ⟨rfl, hs⟩

/-! ## Splits -/

/-- The key, as it is sent, is within the bounds. -/
def SplitsAt (r : Range) (splitKey : Bytes) : Prop :=
  toValidUTF8 splitKey ≠ [] ∧ r.startKey ≤ toValidUTF8 splitKey ∧
    (r.endKey = [] ∨ toValidUTF8 splitKey ≤ r.endKey)

def leftPart (r : Range) (splitKey : Bytes) (id : Nat) : Range :=
  { r.wire with id, endKey := toValidUTF8 splitKey, generation := r.generation + 1 }

def rightPart (r : Range) (splitKey : Bytes) (id : Nat) : Range :=
  { r.wire with id, startKey := toValidUTF8 splitKey, generation := r.generation + 1 }

theorem fence_single {r : Range} (hr : s.ranges[id]? = some r) (o : IdOrder) (op : RangeOp)
    (hbase : op.baseGenerations = (∅ : IdMap Nat).insert id r.generation) :
    (o.range op.baseGenerations).findSome? (s.fence op) = none := by
  rw [List.findSome?_eq_none_iff]
  intro a ha
  have hkey : a ∈ op.baseGenerations.keys := (o.perm_perm _).mem_iff.1 ha
  obtain ⟨gen, hgen⟩ := IdMap.mem_keys_iff.1 hkey
  rw [hbase, IdMap.get?_insert] at hgen
  split at hgen
  · next hid =>
    subst hid
    have hget : op.baseGenerations.getD id 0 = r.generation := by
      rw [Std.ExtTreeMap.getD_eq_getD_getElem?, hbase, IdMap.get?_insert, if_pos rfl]
      rfl
    simp [fence, hr, hget]
  · simp at hgen

theorem proposeRange_splitOp {r : Range} (hr : s.ranges[id]? = some r) (o : IdOrder)
    (splitKey : Bytes) :
    s.proposeRange o (splitOp r splitKey id) =
      (.ok (),
        { ranges := ((s.ranges.erase id).insert s.nextID (leftPart r splitKey s.nextID)).insert
            (s.nextID + 1) (rightPart r splitKey (s.nextID + 1))
          assign := s.assign
          nextID := s.nextID + 2 }) := by
  have hfence := fence_single hr o (splitOp r splitKey id).wire rfl
  have hkeys : (splitOp r splitKey id).wire.assign.keys = [] := rfl
  unfold proposeRange applyOp
  rw [hfence]
  simp only [hkeys, List.foldl_nil]
  rfl

theorem cut_splitOp {r : Range} (hs : s.Wf) (hr : s.ranges[id]? = some r) (o : IdOrder)
    (splitKey : Bytes) :
    Span.Cut s.spans (s.proposeRange o (splitOp r splitKey id)).2.spans id s.nextID (s.nextID + 1)
      r.span (toValidUTF8 splitKey) := by
  obtain ⟨-, -, hlt⟩ := hs.number id r hr
  obtain ⟨hstart, hend⟩ := hs.text id r hr
  have hfree : ∀ n, s.nextID ≤ n → s.spans n = none := by
    intro n hn
    cases hget : s.ranges[n]? with
    | none => rw [spans, hget, Option.map_none]
    | some r' =>
      have := (hs.number n r' hget).2.2
      omega
  have hget : ∀ n, (s.proposeRange o (splitOp r splitKey id)).2.spans n =
      if s.nextID + 1 = n then some (r.span.right (toValidUTF8 splitKey))
      else if s.nextID = n then some (r.span.left (toValidUTF8 splitKey))
      else if id = n then none
      else s.spans n := by
    intro n
    rw [proposeRange_splitOp hr, spans, IdMap.get?_insert, IdMap.get?_insert, IdMap.get?_erase]
    split_ifs
    · simp [Range.span, Span.right, rightPart, Range.wire, hend]
    · simp [Range.span, Span.left, leftPart, Range.wire, hstart]
    · rfl
    · rfl
  refine ⟨by rw [spans, hr, Option.map_some], ?_, ?_, ?_, hfree _ (Nat.le_refl _),
    hfree _ (Nat.le_succ _), by omega, fun j hj hl hr => ?_⟩
  · rw [hget, if_neg (by omega), if_neg (by omega), if_pos rfl]
  · rw [hget, if_neg (by omega), if_pos rfl]
  · rw [hget, if_pos rfl]
  · rw [hget, if_neg (Ne.symm hr), if_neg (Ne.symm hl), if_neg (Ne.symm hj)]

theorem wf_splitOp {r : Range} (hs : s.Wf) (hr : s.ranges[id]? = some r) (o : IdOrder)
    {splitKey : Bytes} (hkey : SplitsAt r splitKey) :
    (s.proposeRange o (splitOp r splitKey id)).2.Wf := by
  obtain ⟨hstart, hend⟩ := hs.text id r hr
  have hnext := hs.next
  rw [proposeRange_splitOp hr]
  have hcases : ∀ (n : Nat) (r' : Range),
      (((s.ranges.erase id).insert s.nextID (leftPart r splitKey s.nextID)).insert (s.nextID + 1)
        (rightPart r splitKey (s.nextID + 1)))[n]? = some r' →
      n = s.nextID + 1 ∧ r' = rightPart r splitKey (s.nextID + 1) ∨
      n = s.nextID ∧ r' = leftPart r splitKey s.nextID ∨ s.ranges[n]? = some r' := by
    intro n r' hr'
    rw [IdMap.get?_insert, IdMap.get?_insert, IdMap.get?_erase] at hr'
    split_ifs at hr' with h1 h2
    · exact Or.inl ⟨h1.symm, (Option.some.inj hr').symm⟩
    · exact Or.inr (Or.inl ⟨h2.symm, (Option.some.inj hr').symm⟩)
    · exact Or.inr (Or.inr hr')
  refine ⟨⟨by simp only; omega, fun n r' hr' => ?_⟩, fun n r' hr' => ?_, fun n r' hr' => ?_⟩
  · rcases hcases n r' hr' with ⟨rfl, rfl⟩ | ⟨rfl, rfl⟩ | hold
    · exact ⟨rfl, by omega, Nat.lt_succ_self _⟩
    · exact ⟨rfl, hnext, by simp only; omega⟩
    · obtain ⟨hid, hpos, hlt⟩ := hs.number n r' hold
      exact ⟨hid, hpos, by simp only; omega⟩
  · rcases hcases n r' hr' with ⟨rfl, rfl⟩ | ⟨rfl, rfl⟩ | hold
    · exact ⟨toValidUTF8_idem _, toValidUTF8_idem _⟩
    · exact ⟨toValidUTF8_idem _, toValidUTF8_idem _⟩
    · exact hs.text n r' hold
  · rcases hcases n r' hr' with ⟨rfl, rfl⟩ | ⟨rfl, rfl⟩ | hold
    · have hproper := Span.Within.proper_right (s := r.span) hkey
      simpa [Range.span, Span.right, rightPart, Range.wire, hend] using hproper
    · have hproper := Span.Within.proper_left (s := r.span) hkey
      simpa [Range.span, Span.left, leftPart, Range.wire, hstart] using hproper
    · exact hs.proper n r' hold

theorem ranges_proposeRange (o : IdOrder) (op : RangeOp) (hremove : op.remove = [])
    (hranges : op.ranges = []) :
    (s.proposeRange o op).2.ranges = s.ranges ∧ (s.proposeRange o op).2.nextID = s.nextID := by
  have hremove' : op.wire.remove = [] := hremove
  have hranges' : op.wire.ranges = [] := by rw [RangeOp.wire, hranges, List.map_nil]
  unfold proposeRange applyOp
  rw [hremove', hranges']
  cases (o.range op.wire.baseGenerations).findSome? (s.fence op.wire) with
  | some e => exact ⟨rfl, rfl⟩
  | none => exact ⟨rfl, rfl⟩

theorem ranges_assignParts (o : IdOrder) (id : Nat) (splitKey : Bytes) (leftTables : List Bytes) :
    (s.assignParts o id splitKey leftTables).2.ranges = s.ranges ∧
      (s.assignParts o id splitKey leftTables).2.nextID = s.nextID := by
  unfold assignParts
  split
  · next left right _ =>
    have hsame :=
      ranges_proposeRange (s := s) o (partsOp leftTables (s.tablesOn id) left right) rfl rfl
    split
    · next heq =>
      rw [heq] at hsame
      exact hsame
    · next heq =>
      rw [heq] at hsame
      exact hsame
  · exact ⟨rfl, rfl⟩

theorem ranges_splitRange {r : Range} (hr : s.ranges[id]? = some r) (o : IdOrder)
    (splitKey : Bytes) (leftTables : List Bytes) :
    (s.splitRange o id splitKey leftTables).2.ranges =
        (s.proposeRange o (splitOp r splitKey id)).2.ranges ∧
      (s.splitRange o id splitKey leftTables).2.nextID =
        (s.proposeRange o (splitOp r splitKey id)).2.nextID := by
  have hid : s.byID id = .ok r := by rw [byID, hr]
  unfold splitRange
  rw [hid]
  simp only
  rw [proposeRange_splitOp hr]
  exact ranges_assignParts _ _ _ _

/-- **What a split does to the partition.** -/
theorem partitions_splitRange_iff {r : Range} (hs : s.Wf) (hpart : Span.Partitions s.spans)
    (hr : s.ranges[id]? = some r) (o : IdOrder) (splitKey : Bytes) (leftTables : List Bytes) :
    Span.Partitions (s.splitRange o id splitKey leftTables).2.spans ↔ SplitsAt r splitKey := by
  have hspans : (s.splitRange o id splitKey leftTables).2.spans =
      (s.proposeRange o (splitOp r splitKey id)).2.spans := by
    funext n
    rw [spans, spans, (ranges_splitRange hr o splitKey leftTables).1]
  rw [hspans]
  exact hpart.cut_iff (cut_splitOp hs hr o splitKey) (hs.proper id r hr)

/-! ## Runs -/

def Cuts (s : RangeStore) : Call → Prop
  | .split id splitKey _ => ∀ r : Range, s.ranges[id]? = some r → SplitsAt r splitKey
  | _ => True

def CutsAll : RangeStore → List (IdOrder × Call) → Prop
  | _, [] => True
  | s, c :: l => s.Cuts c.2 ∧ CutsAll (s.after c) l

theorem spans_moveRange (hs : s.Wf) (o : IdOrder) (id : Nat) (replicas : List Bytes) :
    (s.moveRange o id replicas).2.spans = s.spans ∧ (s.moveRange o id replicas).2.Wf := by
  unfold moveRange byID
  cases hr : s.ranges[id]? with
  | none => exact ⟨rfl, hs⟩
  | some r =>
    have hdone := spans_proposeRange o (moveOp r replicas id) hs rfl fun r' hr' => by
      obtain rfl := List.mem_singleton.1 hr'
      exact ⟨r, by rw [(hs.number id r hr).1, hr], rfl, rfl⟩
    simp only
    split
    · next heq =>
      rw [heq] at hdone
      exact hdone
    · next heq =>
      rw [heq] at hdone
      exact hdone

theorem spans_rebalance (hs : s.Wf) (o : IdOrder) (voters : List Bytes) (leader : Bytes) :
    (s.rebalance o voters leader).2.spans = s.spans ∧ (s.rebalance o voters leader).2.Wf := by
  unfold rebalance
  split
  · exact ⟨rfl, hs⟩
  · split
    · exact ⟨rfl, hs⟩
    · refine spans_proposeRange o _ hs rfl fun r' hr' => ?_
      obtain ⟨r, hr, rfl⟩ := List.mem_map.1 hr'
      obtain ⟨id, hid⟩ := mem_all.1 (List.mem_of_mem_filter hr)
      exact ⟨r, by rw [(hs.number id r hid).1, hid], rfl, rfl⟩

theorem ranges_assignTable (o : IdOrder) (table : Bytes) (id : Nat) :
    (s.assignTable o table id).2.ranges = s.ranges ∧
      (s.assignTable o table id).2.nextID = s.nextID := by
  unfold assignTable
  cases s.byID id with
  | error e => exact ⟨rfl, rfl⟩
  | ok r => exact ranges_proposeRange o _ rfl rfl

/-- One call keeps the partition exactly if it meets the condition, and then the directory is as it
should be. -/
theorem partitions_after_iff (hs : s.Wf) (hpart : Span.Partitions s.spans) (c : IdOrder × Call) :
    (Span.Partitions (s.after c).spans ↔ s.Cuts c.2) ∧ (s.Cuts c.2 → (s.after c).Wf) := by
  have hkeep : ∀ s' : RangeStore, s'.spans = s.spans ∧ s'.Wf →
      (Span.Partitions s'.spans ↔ True) ∧ (True → s'.Wf) := fun s' ⟨hspans, hwf⟩ => by
    rw [hspans]
    exact ⟨iff_of_true hpart trivial, fun _ => hwf⟩
  obtain ⟨o, call⟩ := c
  cases call with
  | split id splitKey leftTables =>
    cases hr : s.ranges[id]? with
    | none =>
      have hsame : (s.splitRange o id splitKey leftTables).2 = s := by
        rw [splitRange, byID, hr]
      simp only [after, Cuts, hsame, hr]
      exact ⟨iff_of_true hpart fun r h => (by cases h), fun _ => hs⟩
    | some r =>
      have hcuts : s.Cuts (.split id splitKey leftTables) ↔ SplitsAt r splitKey := by
        simp [Cuts, hr]
      simp only [after, hcuts]
      refine ⟨partitions_splitRange_iff hs hpart hr o splitKey leftTables, fun hkey => ?_⟩
      obtain ⟨hranges, hnext⟩ := ranges_splitRange hr o splitKey leftTables
      exact (wf_splitOp hs hr o hkey).congr hranges hnext
  | move id replicas => exact hkeep _ (spans_moveRange hs o id replicas)
  | assign table id =>
    obtain ⟨hranges, hnext⟩ := ranges_assignTable (s := s) o table id
    refine hkeep (s.assignTable o table id).2 ⟨funext fun n => ?_, hs.congr hranges hnext⟩
    rw [spans, spans, hranges]
  | rebalance voters leader => exact hkeep _ (spans_rebalance hs o voters leader)

theorem partitions_run_iff (hs : s.Wf) (hpart : Span.Partitions s.spans)
    (l : List (IdOrder × Call)) :
    (∀ n, Span.Partitions (s.afterAll (l.take n)).spans) ↔ s.CutsAll l := by
  induction l generalizing s with
  | nil => simpa [CutsAll, afterAll] using hpart
  | cons c l ih =>
    constructor
    · intro h
      have hstep : Span.Partitions (s.after c).spans := by simpa [afterAll] using h 1
      have hc := (partitions_after_iff hs hpart c).1.1 hstep
      have hwf := (partitions_after_iff hs hpart c).2 hc
      exact ⟨hc, (ih hwf hstep).1 fun n => by simpa [afterAll] using h (n + 1)⟩
    · rintro ⟨hc, hl⟩ n
      have hstep := (partitions_after_iff hs hpart c).1.2 hc
      have hwf := (partitions_after_iff hs hpart c).2 hc
      cases n with
      | zero => simpa [afterAll] using hpart
      | succ n => simpa [afterAll] using (ih hwf hstep).2 hl n

/-! ## Lookup -/

theorem lookup_of_unique {key : Bytes}
    (h : ∃! id : Nat, ∃ r : Range, s.ranges[id]? = some r ∧ r.contains key = true) :
    ∃ r : Range, r.contains key = true ∧ ∀ o, s.lookup o key = .ok r := by
  obtain ⟨id, ⟨r, hr, hkey⟩, hunique⟩ := h
  refine ⟨r, hkey, fun o => ?_⟩
  have hmem : id ∈ o.range s.ranges := (o.perm_perm _).mem_iff.2 (IdMap.mem_keys_iff.2 ⟨r, hr⟩)
  have hfind : (o.range s.ranges).findSome? (fun id => (s.ranges[id]?).filter (·.contains key)) =
      some r := by
    obtain ⟨r', hr'⟩ : ∃ r', (o.range s.ranges).findSome?
        (fun id => (s.ranges[id]?).filter (·.contains key)) = some r' := by
      rw [← Option.isSome_iff_exists, List.findSome?_isSome_iff]
      exact ⟨id, hmem, by simp [hr, hkey]⟩
    obtain ⟨id', -, hid'⟩ := List.exists_of_findSome?_eq_some hr'
    rw [Option.filter_eq_some_iff] at hid'
    obtain rfl := hunique id' ⟨r', hid'⟩
    rw [hr', ← hid'.1, hr]
  rw [lookup, hfind]

/-- Exactly one range has the key. -/
def Owned (s : RangeStore) (key : Bytes) : Prop :=
  ∃! id : Nat, ∃ r : Range, s.ranges[id]? = some r ∧ r.contains key = true

theorem partitions_iff : Span.Partitions s.spans ↔ ∀ key, s.Owned key := by
  refine forall_congr' fun key => ?_
  have hiff : ∀ id : Nat, (∃ span, s.spans id = some span ∧ span.Mem key) ↔
      ∃ r : Range, s.ranges[id]? = some r ∧ r.contains key = true := by
    intro id
    simp only [spans, Option.map_eq_some_iff, Range.contains_iff]
    constructor
    · rintro ⟨_, ⟨r, hr, rfl⟩, hmem⟩
      exact ⟨r, hr, hmem⟩
    · rintro ⟨r, hr, hmem⟩
      exact ⟨_, ⟨r, hr, rfl⟩, hmem⟩
  simp only [hiff]
  rfl

def firstRange (nodeID : Bytes) : Range :=
  { id := 1, replicas := [toValidUTF8 nodeID], leader := toValidUTF8 nodeID, generation := 1 }

theorem genesis_eq (nodeID : Bytes) :
    genesis nodeID =
      { ranges := (∅ : IdMap Range).insert 1 (firstRange nodeID), nextID := 2 } := rfl

theorem genesis_wf (nodeID : Bytes) :
    (genesis nodeID).Wf ∧ Span.Partitions (genesis nodeID).spans := by
  rw [genesis_eq]
  have hcases : ∀ (n : Nat) (r first : Range),
      ((∅ : IdMap Range).insert 1 first)[n]? = some r → n = 1 ∧ r = first := by
    intro n r first hr
    rw [IdMap.get?_insert] at hr
    split at hr
    · next h => exact ⟨h.symm, (Option.some.inj hr).symm⟩
    · simp at hr
  refine ⟨⟨⟨by simp, fun n r hr => ?_⟩, fun n r hr => ?_, fun n r hr => ?_⟩,
    Span.partitions_single (i := 1) ?_ fun n hn => ?_⟩
  · obtain ⟨rfl, rfl⟩ := hcases n r _ hr
    exact ⟨rfl, Nat.le_refl _, Nat.lt_succ_self _⟩
  · obtain ⟨rfl, rfl⟩ := hcases n r _ hr
    exact ⟨rfl, rfl⟩
  · obtain ⟨rfl, rfl⟩ := hcases n r _ hr
    exact Or.inl rfl
  · rw [spans, IdMap.get?_insert, if_pos rfl]
    rfl
  · rw [spans, IdMap.get?_insert, if_neg (Ne.symm hn)]
    simp

/-- **When ranges partition the key space.** In every directory that a sequence of calls passes
through each key has exactly one owner, which a lookup finds in whatever order it goes, exactly if
every split key lies within the range it splits. -/
theorem ranges_partition_iff (nodeID : Bytes) (l : List (IdOrder × Call)) :
    (∀ n key, ((genesis nodeID).afterAll (l.take n)).Owned key ∧
      ∃ r : Range, r.contains key = true ∧
        ∀ o, ((genesis nodeID).afterAll (l.take n)).lookup o key = .ok r) ↔
      (genesis nodeID).CutsAll l := by
  obtain ⟨hwf, hpart⟩ := genesis_wf nodeID
  rw [← partitions_run_iff hwf hpart]
  refine forall_congr' fun n => Iff.trans ?_ partitions_iff.symm
  exact forall_congr' fun key => ⟨fun h => h.1, fun h => ⟨h, lookup_of_unique h⟩⟩

def reversed : IdOrder := ⟨List.reverse, fun l => l.reverse_perm⟩

/-- The empty split key makes two ranges without upper end, and which one owns a key depends on the
order of a map. -/
theorem ranges_partition_emptyKey :
    let s := (genesis (str "n")).afterAll [(.sorted, .split 1 [] [])]
    s.lookup .sorted (str "k") ≠ s.lookup reversed (str "k") := by
  decide +kernel

end RangeStore

end Order

end SuperDB.Cluster
