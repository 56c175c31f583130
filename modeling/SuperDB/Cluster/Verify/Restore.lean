import SuperDB.Cluster.State
import SuperDB.Cluster.Verify.Directory
import SuperDB.Engine.Verify.Image

/-!
# Snapshots of the directory

A member that is restored from a snapshot goes on with the entries after it. Its directory is the
one that the snapshot was taken of, whatever it held before, and so later entries have the same
effect and the same outcome as on a member that has applied the whole log. The writes in the log do
not matter for that, nor does the engine that comes out of the snapshot.
-/

namespace SuperDB.Cluster

open Go Engine

theorem Range.wire_wire (r : Range) : r.wire.wire = r.wire := by
  simp [Range.wire, toValidUTF8_idem]

namespace Entry

def isRange : Entry → Bool
  | .range _ => true
  | _ => false

def indexAfter (idx : Nat) : Entry → Nat → Nat
  | .unknown, n => n
  | _, _ => idx

end Entry

namespace RangeStore

variable {s : RangeStore} {op : RangeOp}

/-! ## Text that has been through JSON -/

/-- Passing through JSON changes no text of the directory. -/
structure Textual (s : RangeStore) : Prop where
  ranges : ∀ (id : Nat) (r : Range), s.ranges[id]? = some r → r.wire = r
  tables : ∀ (t : Bytes) (id : Nat), s.assign[t]? = some id → toValidUTF8 t = t

theorem textual_empty : Textual {} :=
  ⟨fun id r h => by simp at h, fun t id h => by simp at h⟩

theorem Textual.install (h : s.Textual) {r : Range} (hr : r.wire = r) : (s.install r).Textual := by
  have hid : ∀ id, Range.wire { r with id } = { r with id } := fun id => by
    calc Range.wire { r with id } = { r.wire with id } := rfl
      _ = { r with id } := by rw [hr]
  unfold RangeStore.install
  split
  · refine ⟨fun id r' hr' => ?_, h.tables⟩
    rw [IdMap.get?_insert] at hr'
    split at hr'
    · exact Option.some.inj hr' ▸ hid _
    · exact h.ranges id r' hr'
  · refine ⟨fun id r' hr' => ?_, h.tables⟩
    rw [IdMap.get?_insert] at hr'
    split at hr'
    · exact Option.some.inj hr' ▸ hr
    · exact h.ranges id r' hr'

theorem Textual.foldl_install (h : s.Textual) {l : List Range} (hl : ∀ r ∈ l, r.wire = r) :
    (l.foldl RangeStore.install s).Textual := by
  induction l generalizing s with
  | nil => exact h
  | cons r l ih =>
    rw [List.forall_mem_cons] at hl
    exact ih (h.install hl.1) hl.2

theorem Textual.applied (h : s.Textual) (o : IdOrder) : (s.applied (o, op.wire)).Textual := by
  classical
  rw [applied_eq]
  split
  swap
  · exact h
  have herased : Textual { s with
      ranges := op.wire.remove.foldl (fun m id => m.erase id) s.ranges } := by
    refine ⟨fun id r hr => ?_, h.tables⟩
    rw [get?_foldl_erase] at hr
    split at hr
    · cases hr
    · exact h.ranges id r hr
  have hinstalled := herased.foldl_install (l := op.wire.ranges) fun r hr => by
    obtain ⟨r', -, rfl⟩ := List.mem_map.1 hr
    exact r'.wire_wire
  refine ⟨hinstalled.ranges, fun t id ht => ?_⟩
  have herase : ∀ (l : List Bytes) (m : Map Nat),
      (l.foldl (fun m t => m.erase t) m)[t]? = some id → m[t]? = some id := by
    intro l
    induction l with
    | nil => exact fun m hm => hm
    | cons a l ih =>
      intro m hm
      have hm' := ih _ hm
      rw [Map.get?_erase] at hm'
      split at hm'
      · cases hm'
      · exact hm'
  have hmerged := herase _ _ ht
  rw [Map.get?_copy] at hmerged
  cases hnew : op.wire.assign[t]? with
  | some id' =>
    obtain ⟨t', rfl, -⟩ := Map.get?_wire hnew
    exact toValidUTF8_idem t'
  | none =>
    rw [hnew] at hmerged
    exact h.tables t id hmerged

/-! ## A directory out of its image -/

theorem foldl_max_lt {l : List Range} {n m : Nat} (hn : n < m) (hl : ∀ r ∈ l, r.id < m) :
    l.foldl (fun n r => max n r.id) n < m := by
  induction l generalizing n with
  | nil => exact hn
  | cons r l ih =>
    rw [List.forall_mem_cons] at hl
    exact ih (Nat.max_lt.2 ⟨hn, hl.1⟩) hl.2

theorem get?_foldl_store {l : List Range} {r : Range} (hr : r ∈ l)
    (huniq : ∀ r' ∈ l, r'.id = r.id → r' = r) (m : IdMap Range) :
    (l.foldl (fun m r => m.insert r.id r) m)[r.id]? = some r := by
  have hgeneral : ∀ (l : List Range) (m : IdMap Range), (∀ r' ∈ l, r'.id = r.id → r' = r) →
      r ∈ l ∨ m[r.id]? = some r →
      (l.foldl (fun m r => m.insert r.id r) m)[r.id]? = some r := by
    intro l
    induction l with
    | nil => exact fun m _ h => h.resolve_left List.not_mem_nil
    | cons a l ih =>
      intro m huniq h
      rw [List.forall_mem_cons] at huniq
      rw [List.foldl_cons]
      refine ih _ huniq.2 ?_
      rw [IdMap.get?_insert]
      by_cases ha : a.id = r.id
      · rw [if_pos ha, huniq.1 ha]
        exact Or.inr rfl
      · rw [if_neg ha]
        exact h.imp_left fun hmem => (List.mem_cons.1 hmem).resolve_left fun he => ha (he ▸ rfl)
  exact hgeneral l m huniq (Or.inl hr)

theorem Numbered.foldl_store (h : s.Numbered) :
    s.all.foldl (fun m r => m.insert r.id r) ∅ = s.ranges := by
  apply Std.ExtTreeMap.ext_getElem?
  intro id
  cases hr : s.ranges[id]? with
  | some r =>
    have hid := (h.number id r hr).1
    rw [← hid] at hr ⊢
    refine get?_foldl_store (mem_all.2 ⟨r.id, hr⟩) (fun r' hr' heq => ?_) ∅
    obtain ⟨id', hid'⟩ := mem_all.1 hr'
    rw [← (h.number id' r' hid').1, heq, hr] at hid'
    exact (Option.some.inj hid').symm
  | none =>
    cases hget : (s.all.foldl (fun m r => m.insert r.id r) (∅ : IdMap Range))[id]? with
    | none => rfl
    | some r =>
      rcases (get?_foldl_insert s.all ∅ id).1 ⟨r, hget⟩ with ⟨r', hr', hid⟩ | ⟨r', hr'⟩
      · obtain ⟨id', hid'⟩ := mem_all.1 hr'
        rw [← (h.number id' r' hid').1, hid, hr] at hid'
        cases hid'
      · simp at hr'

theorem Textual.assign_wire (h : s.Textual) : s.assign.wire = s.assign := by
  refine Map.wire_eq fun t ht => ?_
  obtain ⟨id, hid⟩ := Map.mem_iff.1 ht
  exact h.tables t id hid

/-- **A directory survives its image**, for a directory that operations out of JSON have built. -/
theorem restoreLocked_image (hnum : s.Numbered) (htext : s.Textual) :
    restoreLocked (s.all.map Range.wire) s.assign.wire s.nextID = s := by
  have hall : s.all.map Range.wire = s.all := by
    conv_rhs => rw [← List.map_id s.all]
    refine List.map_congr_left fun r hr => ?_
    obtain ⟨id, hid⟩ := mem_all.1 hr
    exact htext.ranges id r hid
  have hassign : s.assign.keys.foldl (fun m t => m.insert t (s.assign.getD t 0)) ∅ = s.assign := by
    apply Map.ext_get?
    intro t
    rw [Map.get?_copy]
    simp
  have hmax : s.all.foldl (fun n r => max n r.id) 0 < s.nextID := by
    refine foldl_max_lt hnum.next fun r hr => ?_
    obtain ⟨id, hid⟩ := mem_all.1 hr
    obtain ⟨hrid, -, hlt⟩ := hnum.number id r hid
    omega
  have hnext := hnum.next
  rw [hall, htext.assign_wire]
  unfold restoreLocked
  simp only
  rw [hnum.foldl_store, hassign, if_neg (Nat.not_le.2 hmax), if_neg (Nat.ne_of_gt hnext)]

/-! ## What entries do to a directory -/

def outcome (o : IdOrder) (op : Option RangeOp) (s : RangeStore) : EntryResult :=
  (ReplicatedState.rangeLocked o (op.map RangeOp.wire) { ranges := s }).1

def entered (s : RangeStore) : Entry → RangeStore
  | .range (some op) => s.applied (.sorted, op.wire)
  | _ => s

def enteredAll (l : List (Nat × Entry)) (s : RangeStore) : RangeStore :=
  l.foldl (fun s e => s.entered e.2) s

def outcomes (order : Nat → IdOrder) : List (Nat × Entry) → RangeStore → List EntryResult
  | [], _ => []
  | (idx, .range op) :: l, s => s.outcome (order idx) op :: outcomes order l (s.entered (.range op))
  | (_, .exec ..) :: l, s => outcomes order l s
  | (_, .unknown) :: l, s => outcomes order l s

theorem enteredAll_induction {P : RangeStore → Prop} (h : P s)
    (hstep : ∀ (s : RangeStore) (op : RangeOp), P s → P (s.applied (.sorted, op.wire)))
    (l : List (Nat × Entry)) : P (s.enteredAll l) := by
  induction l generalizing s with
  | nil => exact h
  | cons e l ih =>
    obtain ⟨idx, e⟩ := e
    refine ih ?_
    cases e with
    | range op =>
      cases op with
      | none => exact h
      | some op => exact hstep s op h
    | exec sqls atomic id gen => exact h
    | unknown => exact h

theorem ok_outcome (o o' : IdOrder) (op : Option RangeOp) :
    (s.outcome o op).ok = (s.outcome o' op).ok := by
  cases op with
  | none => rfl
  | some op =>
    have hok : ∀ o : IdOrder, (s.outcome o (some op)).ok = true ↔ s.Passes op.wire := by
      intro o
      rw [← applyOp_ok_iff (o := o)]
      simp only [outcome, ReplicatedState.rangeLocked, Option.map_some]
      cases s.applyOp o op.wire with
      | ok s' => simp
      | error e => simp [refused]
    rw [Bool.eq_iff_iff, hok, hok]

theorem ok_outcomes (order order' : Nat → IdOrder) (l : List (Nat × Entry)) :
    (s.outcomes order l).map EntryResult.ok = (s.outcomes order' l).map EntryResult.ok := by
  induction l generalizing s with
  | nil => rfl
  | cons e l ih =>
    obtain ⟨idx, e⟩ := e
    cases e with
    | range op =>
      simp only [outcomes, List.map_cons, ih]
      rw [ok_outcome (order idx) (order' idx)]
    | exec sqls atomic id gen => exact ih
    | unknown => exact ih

theorem enteredAll_filter (l : List (Nat × Entry)) :
    s.enteredAll (l.filter (·.2.isRange)) = s.enteredAll l := by
  induction l generalizing s with
  | nil => rfl
  | cons e l ih =>
    obtain ⟨idx, e⟩ := e
    cases e with
    | range op => exact ih
    | exec sqls atomic id gen => exact ih
    | unknown => exact ih

theorem outcomes_filter (order : Nat → IdOrder) (l : List (Nat × Entry)) :
    s.outcomes order (l.filter (·.2.isRange)) = s.outcomes order l := by
  induction l generalizing s with
  | nil => rfl
  | cons e l ih =>
    obtain ⟨idx, e⟩ := e
    cases e with
    | range op => exact congrArg _ ih
    | exec sqls atomic id gen => exact ih
    | unknown => exact ih

end RangeStore

namespace ReplicatedState

variable {s s' : ReplicatedState} {choice : Nat → Choice} {l : List (Nat × Entry)}

def rangeResults : List (Nat × Entry) → List EntryResult → List EntryResult
  | (_, e) :: l, r :: results =>
    if e.isRange then r :: rangeResults l results else rangeResults l results
  | _, _ => []

def indexAfter (l : List (Nat × Entry)) (n : Nat) : Nat :=
  l.foldl (fun n e => e.2.indexAfter e.1 n) n

theorem ranges_execLocked {env : Nat → Env} {sqls : List Bytes} {atomic : Bool} {id gen : Nat}
    {r : EntryResult} (h : s.execLocked env sqls atomic id gen = some (r, s')) :
    s'.ranges = s.ranges := by
  unfold execLocked at h
  cases hrefused : s.refusal id gen with
  | some r' =>
    rw [hrefused] at h
    obtain ⟨-, rfl⟩ := Prod.mk.inj (Option.some.inj h)
    rfl
  | none =>
    rw [hrefused] at h
    simp only at h
    split at h
    · cases h
    · obtain ⟨-, rfl⟩ := Prod.mk.inj (Option.some.inj h)
      split <;> rfl
    · obtain ⟨-, rfl⟩ := Prod.mk.inj (Option.some.inj h)
      unfold appendWAL
      split <;> rfl

theorem apply_eq_some {c : Choice} {idx : Nat} {e : Entry} {r : EntryResult}
    (h : s.apply c idx (.ok e) = some (r, s')) :
    s'.ranges = s.ranges.entered e ∧ s'.index = e.indexAfter idx s.index ∧
      ∀ op, e = .range op → r = s.ranges.outcome c.order op := by
  cases e with
  | exec sqls atomic id gen =>
    obtain ⟨⟨r', s''⟩, hexec, heq⟩ := Option.map_eq_some_iff.1 h
    obtain ⟨rfl, rfl⟩ := Prod.mk.inj heq
    have hranges : s''.ranges = s.ranges := ranges_execLocked hexec
    exact ⟨hranges, rfl, fun op hop => by cases hop⟩
  | range op =>
    obtain ⟨rfl, rfl⟩ := Prod.mk.inj (Option.some.inj h)
    refine ⟨?_, rfl, ?_⟩
    · cases op with
      | none => rfl
      | some op =>
        simp only [Option.map_some, rangeLocked, RangeStore.entered]
        rw [RangeStore.applied_order .sorted c.order, RangeStore.applied]
        cases s.ranges.applyOp c.order op.wire with
        | ok ranges => rfl
        | error e => rfl
    · rintro op' ⟨⟩
      cases op with
      | none => rfl
      | some op =>
        simp only [RangeStore.outcome, Option.map_some, rangeLocked]
        cases s.ranges.applyOp c.order op.wire with
        | ok ranges => rfl
        | error e => rfl
  | unknown =>
    obtain ⟨rfl, rfl⟩ := Prod.mk.inj (Option.some.inj h)
    exact ⟨rfl, rfl, fun op hop => by cases hop⟩

theorem applyAll_eq_some {results : List EntryResult}
    (h : s.applyAll choice l = some (results, s')) :
    s'.ranges = s.ranges.enteredAll l ∧ s'.index = indexAfter l s.index ∧
      rangeResults l results = s.ranges.outcomes (fun i => (choice i).order) l := by
  induction l generalizing s results with
  | nil =>
    obtain ⟨rfl, rfl⟩ := Prod.mk.inj (Option.some.inj h)
    exact ⟨rfl, rfl, rfl⟩
  | cons e l ih =>
    obtain ⟨idx, e⟩ := e
    unfold applyAll at h
    cases hstep : s.apply (choice idx) idx (.ok e) with
    | none =>
      rw [hstep] at h
      cases h
    | some p =>
      obtain ⟨r, t⟩ := p
      rw [hstep] at h
      obtain ⟨⟨results, t'⟩, hrest, heq⟩ := Option.map_eq_some_iff.1 h
      obtain ⟨rfl, rfl⟩ := Prod.mk.inj heq
      obtain ⟨hranges, hindex, hresult⟩ := apply_eq_some hstep
      obtain ⟨hranges', hindex', hresults⟩ := ih hrest
      rw [hranges] at hranges' hresults
      rw [hindex] at hindex'
      refine ⟨hranges', hindex', ?_⟩
      cases e with
      | range op => simp only [rangeResults, Entry.isRange, if_true, hresults, hresult op rfl,
          RangeStore.outcomes]
      | exec sqls atomic id gen => exact hresults
      | unknown => exact hresults

theorem applyAll_isRange (choice : Nat → Choice) (s : ReplicatedState)
    (hl : ∀ e ∈ l, e.2.isRange = true) :
    ∃ results s', s.applyAll choice l = some (results, s') ∧ rangeResults l results = results := by
  induction l generalizing s with
  | nil => exact ⟨[], s, rfl, rfl⟩
  | cons e l ih =>
    rw [List.forall_mem_cons] at hl
    obtain ⟨idx, e⟩ := e
    cases e with
    | range op =>
      obtain ⟨r, t, hstep⟩ : ∃ r t, s.apply (choice idx) idx (.ok (.range op)) = some (r, t) :=
        ⟨_, _, rfl⟩
      obtain ⟨results, s', hrest, hresults⟩ := ih t hl.2
      refine ⟨r :: results, s', ?_, ?_⟩
      · simp only [applyAll, hstep, hrest, Option.map_some]
      · simp only [rangeResults, Entry.isRange, if_true, hresults]
    | exec sqls atomic id gen => cases hl.1
    | unknown => cases hl.1

theorem indexAfter_filter (n : Nat) (hlast : ∀ e ∈ l.getLast?, e.2.isRange = true) :
    indexAfter (l.filter (·.2.isRange)) n = indexAfter l n := by
  rcases List.eq_nil_or_concat l with rfl | ⟨l, e, rfl⟩
  · rfl
  · have he : e.2.isRange = true := hlast e (by simp)
    obtain ⟨idx, e⟩ := e
    cases e with
    | range op => simp [indexAfter, Entry.isRange, Entry.indexAfter]
    | exec sqls atomic id gen => cases he
    | unknown => cases he

theorem restore_snapshot (joiner : ReplicatedState) (env : Env) (hnum : s.ranges.Numbered)
    (htext : s.ranges.Textual)
    (hfinite : encodable s.db.tables = true) (hvalid : validTexts s.db.tables = true) :
    ∃ image, s.snapshot = .ok image ∧ (joiner.restore env image).ranges = s.ranges ∧
      (joiner.restore env image).index = s.index ∧ (joiner.restore env image).db =
        joiner.db.replaceFrom (Database.restored env s.db.tables) := by
  have hsnap : s.snapshot =
      .ok ⟨s.index, s.db.tables, s.ranges.all, s.ranges.assign, s.ranges.nextID⟩ := by
    simp [snapshot, hfinite]
  refine ⟨_, hsnap, RangeStore.restoreLocked_image hnum htext, rfl, ?_⟩
  simp only [restore, Image.wire, wireImage_eq hvalid]

/-- **The directory survives a snapshot** of tables that can be encoded: no FLOAT is NaN or
infinite, and the texts are UTF-8. A member that is restored from a snapshot taken after any entry
of a log has the tables, and when it applies the rest of the log, or only the range entries of it,
it has the ranges, the assignment, the next number and the index of the member that has applied the
whole log. The range entries succeed and fail as there, with the same messages for the same orders
of map iteration. -/
theorem restore_agrees (env : Env) (choice choice' : Nat → Choice) (joiner : ReplicatedState)
    {log : List (Nat × Entry)} {k : Nat} {start mid last : ReplicatedState}
    {results₁ results₂ : List EntryResult} (hstart : start.ranges = {})
    (hcut : start.applyAll choice (log.take k) = some (results₁, mid))
    (hrest : mid.applyAll choice (log.drop k) = some (results₂, last))
    (hfinite : encodable mid.db.tables = true) (hvalid : validTexts mid.db.tables = true) :
    let expected := rangeResults (log.drop k) results₂
    let Agrees := fun results : List EntryResult =>
      results.map EntryResult.ok = expected.map EntryResult.ok ∧
        ((∀ i, (choice' i).order = (choice i).order) → results = expected)
    ∃ image, mid.snapshot = .ok image ∧
      (joiner.restore env image).db =
        joiner.db.replaceFrom (Database.restored env mid.db.tables) ∧
      (∀ results s, (joiner.restore env image).applyAll choice' (log.drop k) = some (results, s) →
        s.ranges = last.ranges ∧ s.index = last.index ∧
          Agrees (rangeResults (log.drop k) results)) ∧
      ∃ results s, (joiner.restore env image).applyAll choice'
          ((log.drop k).filter (·.2.isRange)) = some (results, s) ∧
        s.ranges = last.ranges ∧ Agrees results ∧
        ((∀ e ∈ (log.drop k).getLast?, e.2.isRange = true) → s.index = last.index) := by
  intro expected Agrees
  have hmid := (applyAll_eq_some hcut).1
  rw [hstart] at hmid
  have hnum : mid.ranges.Numbered :=
    hmid ▸ RangeStore.enteredAll_induction RangeStore.numbered_empty (fun _ _ h => h.applied _) _
  have htext : mid.ranges.Textual :=
    hmid ▸ RangeStore.enteredAll_induction RangeStore.textual_empty (fun _ _ h => h.applied _) _
  obtain ⟨image, hsnap, hranges, hindex, hdb⟩ :=
    restore_snapshot joiner env hnum htext hfinite hvalid
  obtain ⟨hlast, hlastIndex, hexpected⟩ := applyAll_eq_some hrest
  have hagrees : ∀ results,
      results = mid.ranges.outcomes (fun i => (choice' i).order) (log.drop k) → Agrees results := by
    rintro results rfl
    refine ⟨?_, fun horder => ?_⟩
    · rw [show expected = _ from hexpected]
      exact RangeStore.ok_outcomes _ _ _
    · rw [show expected = _ from hexpected]
      simp only [horder]
  refine ⟨image, hsnap, hdb, fun results s hrun => ?_, ?_⟩
  · obtain ⟨hs, hsIndex, hresults⟩ := applyAll_eq_some hrun
    rw [hranges] at hs hresults
    rw [hindex] at hsIndex
    exact ⟨hs.trans hlast.symm, hsIndex.trans hlastIndex.symm, hagrees _ hresults⟩
  · obtain ⟨results, s, hrun, hall⟩ := applyAll_isRange choice' (joiner.restore env image)
      (l := (log.drop k).filter (·.2.isRange)) fun e he => (List.mem_filter.1 he).2
    obtain ⟨hs, hsIndex, hresults⟩ := applyAll_eq_some hrun
    rw [hranges, RangeStore.enteredAll_filter] at hs
    rw [hall, hranges, RangeStore.outcomes_filter] at hresults
    refine ⟨results, s, hrun, hs.trans hlast.symm, hagrees _ hresults, fun hlastRange => ?_⟩
    rw [hsIndex, hindex, indexAfter_filter _ hlastRange, hlastIndex]

/-- A log that creates a range and a table with a row, splits the range, has a write that is
refused, and assigns the table to a part. -/
def splitLog (value : String) : List (Nat × Entry) :=
  [(1, .range (some (RangeStore.genesisOp (str "n")))),
    (2, .exec [str "CREATE TABLE t (x FLOAT, s TEXT)",
      str "INSERT INTO t VALUES (" ++ str value ++ str ", 'a')"] false 0 0),
    (3, .range (some (RangeStore.splitOp (RangeStore.firstRange (str "n")) (str "m") 1))),
    (4, .exec [str "DROP TABLE t"] false 1 1),
    (5, .range (some { assign := (∅ : Map Nat).insert (str "t") 3 }))]

/-- What the encoder says after the row has been inserted. -/
def refusedSnapshot (value : String) : Option Bytes :=
  (applyAll (fun _ => {}) ((splitLog value).take 3) {}).bind fun p =>
    match p.2.snapshot with
    | .error e => some e
    | .ok _ => none

/-- A cell that has no text leaves the member without a snapshot. -/
theorem restore_agrees_refused : refusedSnapshot "NaN" =
    some (str ("json: error calling MarshalJSON for type json.RawMessage: invalid character '\x7d' " ++
      "after top-level value")) := by
  decide +kernel

/-- A snapshot after the split, restored on a node that has started a cluster of its own. -/
theorem restore_agrees_split : ∃ (mid last : ReplicatedState) (image : Image)
    (results₁ results₂ results : List EntryResult) (s : ReplicatedState),
    applyAll (fun _ => {}) ((splitLog "1.5").take 3) {} = some (results₁, mid) ∧
    applyAll (fun _ => {}) ((splitLog "1.5").drop 3) mid = some (results₂, last) ∧
    mid.db.rowCount = 1 ∧ mid.snapshot = .ok image ∧
    applyAll (fun _ => {}) (((splitLog "1.5").drop 3).filter (·.2.isRange))
      (restore {} image { ranges := RangeStore.genesis (str "x") }) = some (results, s) ∧
    s.ranges = last.ranges ∧ s.index = last.index := by
  have hruns : ((applyAll (fun _ => {}) ((splitLog "1.5").take 3) {}).bind fun p =>
      (applyAll (fun _ => {}) ((splitLog "1.5").drop 3) p.2).map fun _ =>
        (p.2.db.rowCount, encodable p.2.db.tables, validTexts p.2.db.tables)) =
      some (1, true, true) := by decide +kernel
  obtain ⟨⟨results₁, mid⟩, hcut, hrest⟩ := Option.bind_eq_some_iff.1 hruns
  obtain ⟨⟨results₂, last⟩, hrest, hmid⟩ := Option.map_eq_some_iff.1 hrest
  obtain ⟨hrows, hfinite, hvalid⟩ := by simpa using hmid
  obtain ⟨image, hsnap, -, -, results, s, hrun, hranges, -, hindex⟩ :=
    restore_agrees {} (fun _ => {}) (fun _ => {}) { ranges := RangeStore.genesis (str "x") }
      rfl hcut
      hrest hfinite hvalid
  exact ⟨mid, last, image, results₁, results₂, results, s, hcut, hrest, hrows, hsnap, hrun, hranges,
    hindex fun e he => by simp [splitLog] at he; simp [← he, Entry.isRange]⟩

end ReplicatedState

end SuperDB.Cluster
