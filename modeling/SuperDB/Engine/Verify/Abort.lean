import SuperDB.Engine.Verify.IndexExact
import SuperDB.Engine.Verify.FastInv

/-!
# Statements that are cancelled halfway

A statement that is cancelled while it scans has changed what it had changed by then. ALTER TABLE
changes the columns before it looks at the context; UPDATE and DELETE change rows as they scan, and
DELETE writes the keys it keeps over the front of the order list. `lateAbort` says when this
matters: a statement that fails leaves the database unchanged exactly if it is not aborted late.
-/

namespace SuperDB.Engine

open Go

variable {l : List Bytes} {column : Bytes}

/-- A table as statements that are not cancelled leave it. -/
structure Table.Consistent (t : Table) : Prop where
  wf : t.Wf
  indexes : t.IndexInv
  fast : t.FastInv

theorem Database.runAll_consistent {l : List (Env × Bytes)} (hl : Uncancelled l) :
    (Database.runAll {} l).All Table.Consistent := by
  intro name t ht
  have hindex := Database.runAll_indexInv hl name t ht
  exact ⟨hindex.1, hindex.2, (Database.runAll_fastInv hl name t ht).2⟩

theorem RowOk.insert_get {columns : List Column} {row : Row} (h : RowOk columns row) {c : Column}
    (hc : c ∈ columns) : row.insert c.name (row.get c.name) = row := by
  obtain ⟨v, hv⟩ := Map.mem_iff.1 ((h.dom c.name).2 (List.mem_map_of_mem hc))
  rw [Row.get_eq hv, Map.insert_get? hv]

namespace Table

/-- Scanning the keys `l`, an UPDATE has changed a row. -/
def updatesSome (column : Bytes) (v : Value) (w : Option MutationWhere) (expected : Expected)
    (t : Table) (l : List Bytes) : Bool :=
  l.any fun key => t.rows[key]?.any fun row =>
    mutationMatches w expected row && row.get column != v

/-- Scanning the front `l` of `order`, a DELETE has removed a row, or has moved a key that it keeps
over a stale one. -/
def deletesSome (w : Option MutationWhere) (expected : Expected) (t : Table) (l : List Bytes) :
    Bool :=
  l.any (t.doomed w expected) || (l.dropWhile (t.rows.contains ·)).any (t.rows.contains ·)

def updateAborts (env : Env) (column : Bytes) (v : Value) (w : Option MutationWhere)
    (expected : Expected) (t : Table) : Bool :=
  (t.onPrimaryKey w).isNone && !(column == t.primaryColumn && t.primaryColumn != []) &&
    (interruptedAt env.scanTick (env.order.range t.rows).length).any fun k =>
      t.updatesSome column v w expected ((env.order.range t.rows).take k)

/-- A DELETE that scans is cancelled after it has changed a row or the order list. -/
def deleteAborts (env : Env) (w : Option MutationWhere) (expected : Expected) (t : Table) : Bool :=
  (t.onPrimaryKey w).isNone &&
    (interruptedAt env.scanTick t.order.length).any fun k =>
      t.deletesSome w expected (t.order.take k)

end Table

/-- The operation is cancelled at a row by which it has changed the table. -/
def TableOp.lateAbort (env : Env) (t : Table) : TableOp → Bool
  | .update column v w expected => t.updateAborts env column v w expected
  | .delete w expected => t.deleteAborts env w expected
  | .addColumn name _ =>
    !hasColumn t.columns name &&
      (interruptedAt env.scanTick (env.order.range t.rows).length).isSome
  | .dropColumn column =>
    decide (1 < t.columns.length) && hasColumn t.columns column &&
      (interruptedAt env.scanTick (env.order.range t.rows).length).isSome
  | _ => false

namespace Table

variable {env : Env} {t : Table}

/-! ## UPDATE -/

section Update

variable {c : Column} {v : Value} {w : Option MutationWhere} {expected : Expected}

theorem Consistent.setCell_self (h : t.Consistent) (hc : c ∈ t.columns) {key : Bytes} {row : Row}
    (hrow : t.rows[key]? = some row) (hv : row.get c.name = v) : t.setCell key c.name v = t := by
  subst hv
  have hsame : row.insert c.name (row.get c.name) = row :=
    (h.wf.rows key row hrow).insert_get hc
  have hindexes : (t.changeIndex (fun index => addToIndex
      (removeFromIndex index (valueKey (row.get c.name)) key) (valueKey (row.get c.name)) key)
      c.name).indexes = t.indexes := by
    apply Map.ext_get?
    intro n
    rw [get?_changeIndex]
    split
    · next hn =>
      subst hn
      cases hindex : t.indexes[c.name]? with
      | none => rfl
      | some index =>
        -- both indexes are exact for the same cells
        have hexact := h.indexes.exact c.name index hindex
        have hcell := cellKey_some hrow c.name
        have hmoved := hexact.move hcell (valueKey (row.get c.name))
        rw [← hcell, Function.update_eq_self] at hmoved
        rw [Option.map_some, hmoved.unique hexact]
    · rfl
  have hchange : t.changeIndex (fun index => addToIndex
      (removeFromIndex index (valueKey (row.get c.name)) key) (valueKey (row.get c.name)) key)
      c.name = t := by
    rw [changeIndex_eq, hindexes]
  have hrows : ({ t with rows := t.rows.insert key row } : Table) = t := by
    rw [Map.insert_get? hrow]
  unfold setCell
  simp only [hrow, addIndexValue_eq, removeIndexValue_eq, changeIndex_changeIndex, hchange, hsame,
    hrows]
  unfold updateFastRowLocked
  split
  · rfl
  · next hne =>
    split
    · next j i hj hi =>
      rw [h.fast.columns hne] at hj
      obtain ⟨d, hd, hname⟩ := columnPositions_name hj
      obtain ⟨row', hrow', hentry⟩ := h.fast.entry key i hi
      cases hrow.symm.trans hrow'
      have hfast : (t.fast.modify i fun r => { r with values := r.values.set j (row.get c.name) }) =
          t.fast := by
        apply List.ext_getElem?
        intro k
        by_cases hk : i = k
        · subst hk
          rw [List.getElem?_modify_eq, hentry]
          simp only [Option.map_eq_map, Option.map_some]
          rw [← rowValues_insert h.wf.columns hd, hname, hsame]
        · rw [List.getElem?_modify_ne _ _ hk]
      rw [hfast]
    · rfl

theorem Consistent.foldl_updateRow_self (h : t.Consistent) (hc : c ∈ t.columns)
    (hl : ∀ key ∈ l, key ∈ t.rows) (hnone : t.updatesSome c.name v w expected l = false) (n : Nat) :
    (l.foldl (updateRow c.name v w expected) (t, n)).1 = t := by
  induction l generalizing n with
  | nil => rfl
  | cons key l ih =>
    simp only [updatesSome, List.any_cons, Bool.or_eq_false_iff] at hnone
    obtain ⟨row, hrow⟩ := Map.mem_iff.1 (hl key List.mem_cons_self)
    have hgetD : t.rows.getD key ∅ = row := by rw [Map.getD_eq, hrow]; rfl
    have hstep : (updateRow c.name v w expected (t, n) key).1 = t := by
      unfold updateRow
      rw [hgetD]
      split
      · next hmatch =>
        have hv : row.get c.name = v := by
          have hfirst := hnone.1
          simpa [hrow, hmatch] using hfirst
        exact h.setCell_self hc hrow hv
      · rfl
    rw [List.foldl_cons]
    obtain ⟨m, hm⟩ : ∃ m, updateRow c.name v w expected (t, n) key = (t, m) :=
      ⟨_, Prod.ext hstep rfl⟩
    rw [hm]
    exact ih (fun k hk => hl k (List.mem_cons_of_mem _ hk)) hnone.2 m

variable (c v w expected) in
theorem get?_foldl_updateRow {l : List Bytes} (hl : l.Nodup) (n : Nat) {key : Bytes} {row : Row}
    (hrow : t.rows[key]? = some row) :
    (l.foldl (updateRow c.name v w expected) (t, n)).1.rows[key]? =
      some (if key ∈ l ∧ mutationMatches w expected row = true then row.insert c.name v
        else row) := by
  induction l generalizing t n row with
  | nil => simp [hrow]
  | cons a l ih =>
    rw [List.nodup_cons] at hl
    rw [List.foldl_cons]
    have hgetD : ∀ {k : Bytes} {r : Row}, t.rows[k]? = some r → t.rows.getD k ∅ = r := by
      intro k r hk
      rw [Map.getD_eq, hk]
      rfl
    have hset : ∀ {k : Bytes} {r : Row}, t.rows[k]? = some r →
        (t.setCell k c.name v).rows = t.rows.insert k (r.insert c.name v) := by
      intro k r hk
      rw [← clearFast_rows, setCell_core t c.name v hk]
    by_cases ha : a = key
    · subst ha
      have hnot : ¬(a ∈ l ∧ mutationMatches w expected row = true) := fun hin => hl.1 hin.1
      by_cases hmatch : mutationMatches w expected row = true
      · have hstep : (updateRow c.name v w expected (t, n) a).1.rows[a]? =
            some (row.insert c.name v) := by
          simp only [updateRow, hgetD hrow, if_pos hmatch, hset hrow, Map.get?_insert_self]
        rw [ih hl.2 _ hstep]
        simp [hl.1, hmatch]
      · have hstep : (updateRow c.name v w expected (t, n) a).1.rows[a]? = some row := by
          simp only [updateRow, hgetD hrow, if_neg hmatch, hrow]
        rw [ih hl.2 _ hstep]
        simp [hmatch]
    · -- another row
      have hstep : (updateRow c.name v w expected (t, n) a).1.rows[key]? = some row := by
        unfold updateRow
        split
        · cases hra : t.rows[a]? with
          | none => simp only [setCell, hra, hrow]
          | some r => rw [hset hra, Map.get?_insert_of_ne ha, hrow]
        · exact hrow
      rw [ih hl.2 _ hstep]
      simp [Ne.symm ha]

theorem updateScan_interrupted (h : t.Consistent) (hc : c ∈ t.columns) :
    (∀ k, interruptedAt env.scanTick (env.order.range t.rows).length = some k →
      t.updatesSome c.name v w expected ((env.order.range t.rows).take k) = false) →
    (∃ f, (t.updateScan env c.name v w expected).1 = .error f) →
    (t.updateScan env c.name v w expected).2 = t := by
  intro hclean hfail
  unfold updateScan at hfail ⊢
  rw [rangeLoop_interruptedAt] at hfail ⊢
  cases hat : interruptedAt env.scanTick (env.order.range t.rows).length with
  | none =>
    rw [hat] at hfail
    obtain ⟨f, hf⟩ := hfail
    cases hf
  | some k =>
    obtain ⟨-, e, he⟩ := interruptedAt_some hat
    simp only [he]
    exact h.foldl_updateRow_self hc
      (fun key hkey => env.order.mem_range.1 (List.mem_of_mem_take hkey)) (hclean k hat) 0

theorem updateScan_late {k : Nat}
    (hat : interruptedAt env.scanTick (env.order.range t.rows).length = some k)
    (hsome : t.updatesSome c.name v w expected ((env.order.range t.rows).take k) = true) :
    (∃ f, (t.updateScan env c.name v w expected).1 = .error f) ∧
      (t.updateScan env c.name v w expected).2.rows ≠ t.rows := by
  obtain ⟨-, e, he⟩ := interruptedAt_some hat
  unfold updateScan
  rw [rangeLoop_interruptedAt, hat]
  simp only [he]
  refine ⟨⟨e, rfl⟩, fun hsame => ?_⟩
  obtain ⟨key, hkey, hrow⟩ := List.any_eq_true.1 hsome
  obtain ⟨row, hrow, hcond⟩ := (Option.any_eq_true _ _).1 hrow
  rw [Bool.and_eq_true, bne_iff_ne] at hcond
  have hnodup : ((env.order.range t.rows).take k).Nodup :=
    (env.order.nodup_range t.rows).sublist (List.take_sublist _ _)
  have hafter := get?_foldl_updateRow c v w expected hnodup 0 hrow
  rw [hsame, hrow, if_pos ⟨hkey, hcond.1⟩] at hafter
  apply hcond.2
  rw [Option.some.inj hafter, Row.get_insert, if_pos rfl]

theorem rekeyPrimary_error {key : Bytes} (hfail : ∃ f, (t.rekeyPrimaryLocked key v).1 = .error f) :
    (t.rekeyPrimaryLocked key v).2 = t := by
  obtain ⟨f, hf⟩ := hfail
  unfold rekeyPrimaryLocked at hf ⊢
  simp only at hf ⊢
  split at hf
  · cases hf
  · next hne =>
    split at hf
    · next hused => rw [if_neg hne, if_pos hused]
    · cases hf

theorem updatePrimaryMulti_error (hfail : ∃ f, (t.updatePrimaryMultiLocked env w expected v).1 =
    .error f) : (t.updatePrimaryMultiLocked env w expected v).2 = t := by
  unfold updatePrimaryMultiLocked at hfail ⊢
  cases hkeys : t.matchingKeys env w expected with
  | nil => rfl
  | cons key rest =>
    cases rest with
    | cons _ _ => rfl
    | nil =>
      simp only [hkeys] at hfail ⊢
      by_cases hused : valueKey v ∈ t.rows ∧ valueKey v ≠ key
      · rw [if_pos hused]
      · rw [if_neg hused] at hfail ⊢
        exact rekeyPrimary_error hfail

theorem update_late (h : t.Consistent) (hc : c ∈ t.columns) :
    (t.updateAborts env c.name v w expected = true →
      (∃ f, (t.update env c.name v w expected).1 = .error f) ∧
        (t.update env c.name v w expected).2.rows ≠ t.rows) ∧
    (t.updateAborts env c.name v w expected = false →
      (∃ f, (t.update env c.name v w expected).1 = .error f) →
        (t.update env c.name v w expected).2 = t) := by
  unfold update updateAborts
  cases hkey : t.onPrimaryKey w with
  | some key =>
    simp only [Option.isNone_some, Bool.false_and, Bool.false_eq_true, false_implies, true_and,
      forall_const]
    split
    · split
      · exact rekeyPrimary_error
      · rintro ⟨f, hf⟩
        cases hf
    · rintro ⟨f, hf⟩
      cases hf
  | none =>
    by_cases hpk : c.name = t.primaryColumn ∧ t.primaryColumn ≠ []
    · have hcond : (c.name == t.primaryColumn && t.primaryColumn != []) = true := by
        simpa using hpk
      simp only [hcond, if_pos hpk, Option.isNone_none, Bool.not_true, Bool.and_false,
        Bool.false_and, Bool.false_eq_true, false_implies, true_and, forall_const]
      exact updatePrimaryMulti_error
    · have hcond : (c.name == t.primaryColumn && t.primaryColumn != []) = false := by
        rw [← Bool.not_eq_true]
        simpa using hpk
      simp only [hcond, if_neg hpk, Option.isNone_none, Bool.not_false, Bool.true_and]
      constructor
      · intro hlate
        obtain ⟨k, hat, hsome⟩ := (Option.any_eq_true _ _).1 hlate
        exact updateScan_late hat hsome
      · intro hlate
        refine updateScan_interrupted h hc fun k hat => ?_
        rw [hat] at hlate
        exact hlate

end Update

/-! ## DELETE -/

section Delete

variable {w : Option MutationWhere} {expected : Expected}

variable (env) in
theorem foldl_deleteRow_self {l : List Bytes} (hnone : l.any (t.doomed w expected) = false) :
    (l.foldl (deleteRow env w expected) { table := t }).table = t := by
  induction l using List.reverseRecOn with
  | nil => rfl
  | append_singleton l key ih =>
    rw [List.any_append, Bool.or_eq_false_iff] at hnone
    have ih := ih hnone.1
    rw [List.foldl_concat]
    generalize l.foldl (deleteRow env w expected) { table := t } = s at ih
    unfold deleteRow
    rw [ih]
    cases hrow : t.rows[key]? with
    | none => exact ih
    | some row =>
      have hkeep : mutationMatches w expected row = false := by
        simpa [doomed, hrow] using hnone.2
      simp only [hkeep, Bool.false_eq_true, if_false]

theorem kept_eq_contains {key : Bytes} (h : t.doomed w expected key = false) :
    t.kept w expected key = t.rows.contains key := by
  rw [Std.ExtTreeMap.contains_eq_isSome_getElem?]
  unfold doomed at h
  unfold kept
  cases hrow : t.rows[key]? with
  | none => rfl
  | some row =>
    rw [hrow] at h
    simpa using h

theorem filter_eq_takeWhile {p : Bytes → Bool} (h : (l.dropWhile p).any p = false) :
    l.filter p = l.takeWhile p := by
  have hsplit : l.filter p = (l.takeWhile p).filter p ++ (l.dropWhile p).filter p := by
    rw [← List.filter_append, List.takeWhile_append_dropWhile]
  have hrest : (l.dropWhile p).filter p = [] := by
    rw [List.filter_eq_nil_iff]
    intro a ha hp
    exact Bool.false_ne_true (h.symm.trans (List.any_eq_true.2 ⟨a, ha, hp⟩))
  rw [hsplit, hrest, List.append_nil, List.filter_eq_self]
  exact fun a ha => List.mem_takeWhile_imp ha

theorem length_filter_gt {p : Bytes → Bool} (h : (l.dropWhile p).any p = true) :
    (l.takeWhile p).length < (l.filter p).length := by
  have hsplit : l.filter p = (l.takeWhile p).filter p ++ (l.dropWhile p).filter p := by
    rw [← List.filter_append, List.takeWhile_append_dropWhile]
  have hfront : (l.takeWhile p).filter p = l.takeWhile p :=
    List.filter_eq_self.2 fun a ha => List.mem_takeWhile_imp ha
  obtain ⟨a, ha, hp⟩ := List.any_eq_true.1 h
  have hpos : 0 < ((l.dropWhile p).filter p).length :=
    List.length_pos_of_mem (List.mem_filter.2 ⟨ha, hp⟩)
  rw [hsplit, hfront, List.length_append]
  omega

theorem deleteScan_interrupted :
    (∀ k, interruptedAt env.scanTick t.order.length = some k →
      t.deletesSome w expected (t.order.take k) = false) →
    (∃ f, (t.deleteScan env w expected).1 = .error f) → (t.deleteScan env w expected).2 = t := by
  intro hclean hfail
  unfold deleteScan at hfail ⊢
  rw [rangeLoop_interruptedAt] at hfail ⊢
  cases hat : interruptedAt env.scanTick t.order.length with
  | none =>
    rw [hat] at hfail
    obtain ⟨f, hf⟩ := hfail
    cases hf
  | some k =>
    obtain ⟨-, e, he⟩ := interruptedAt_some hat
    have hnone := hclean k hat
    rw [deletesSome, Bool.or_eq_false_iff] at hnone
    obtain ⟨gone, -, -, -, hremaining, -⟩ := foldl_deleteRow env t w expected (t.order.take k)
    have htable := foldl_deleteRow_self env hnone.1
    simp only [he]
    generalize (t.order.take k).foldl (deleteRow env w expected) { table := t } = s
      at htable hremaining
    have hlive : s.remaining = (t.order.take k).takeWhile (t.rows.contains ·) := by
      rw [hremaining, ← filter_eq_takeWhile hnone.2]
      refine List.filter_congr fun key hkey => kept_eq_contains ?_
      rw [← Bool.not_eq_true]
      exact fun hd => Bool.false_ne_true (hnone.1.symm.trans (List.any_eq_true.2 ⟨key, hkey, hd⟩))
    have hfront : s.remaining <+: t.order := by
      rw [hlive]
      exact (List.takeWhile_prefix _).trans (List.take_prefix _ _)
    have horder : s.remaining ++ t.order.drop s.remaining.length = t.order := by
      rw [List.prefix_iff_eq_take.1 hfront, List.length_take]
      conv_rhs => rw [← List.take_append_drop s.remaining.length t.order]
      rw [Nat.min_eq_left hfront.length_le]
    rw [htable, horder]

theorem deleteScan_late {k : Nat} (hat : interruptedAt env.scanTick t.order.length = some k)
    (hsome : t.deletesSome w expected (t.order.take k) = true) :
    (∃ f, (t.deleteScan env w expected).1 = .error f) ∧
      ((t.deleteScan env w expected).2.rows ≠ t.rows ∨
        (t.deleteScan env w expected).2.order ≠ t.order) := by
  obtain ⟨-, e, he⟩ := interruptedAt_some hat
  obtain ⟨gone, -, hgone, htable, hremaining, -⟩ :=
    foldl_deleteRow env t w expected (t.order.take k)
  unfold deleteScan
  rw [rangeLoop_interruptedAt, hat]
  simp only [he]
  refine ⟨⟨e, rfl⟩, ?_⟩
  cases hdoomed : (t.order.take k).any (t.doomed w expected) with
  | true =>
    -- a row is gone
    refine Or.inl fun hsame => ?_
    obtain ⟨key, hkey, hd⟩ := List.any_eq_true.1 hdoomed
    have hnone : (gone.foldl eraseRow t.clearFast).rows[key]? = none := by
      rw [get?_foldl_eraseRow, if_pos ((hgone key).2 ⟨hkey, hd⟩)]
    rw [← htable, clearFast_rows, hsame] at hnone
    simp [doomed, hnone] at hd
  | false =>
    -- a live key stands where a stale one was
    refine Or.inr fun hsame => ?_
    rw [deletesSome, hdoomed, Bool.false_or] at hsome
    have htable := foldl_deleteRow_self env hdoomed
    generalize (t.order.take k).foldl (deleteRow env w expected) { table := t } = s
      at htable hremaining hsame
    have hlive : s.remaining = (t.order.take k).filter (t.rows.contains ·) := by
      rw [hremaining]
      refine List.filter_congr fun key hkey => kept_eq_contains ?_
      rw [← Bool.not_eq_true]
      exact fun hd => Bool.false_ne_true (hdoomed.symm.trans (List.any_eq_true.2 ⟨key, hkey, hd⟩))
    have hfront : s.remaining <+: t.order.take k := by
      have hpre : s.remaining <+: t.order := ⟨_, by rw [htable] at hsame; exact hsame⟩
      refine List.prefix_of_prefix_length_le hpre (List.take_prefix _ _) ?_
      rw [hlive]
      exact List.length_filter_le _ _
    have hshort : s.remaining.length ≤ ((t.order.take k).takeWhile (t.rows.contains ·)).length := by
      have hall : ∀ a ∈ s.remaining, t.rows.contains a = true := fun a ha => by
        rw [hlive] at ha
        exact (List.mem_filter.1 ha).2
      obtain ⟨rest, hrest⟩ := hfront
      rw [← hrest, List.takeWhile_append_of_pos hall, List.length_append]
      exact Nat.le_add_right _ _
    have hlong := length_filter_gt hsome
    rw [← hlive] at hlong
    omega

theorem delete_late :
    (t.deleteAborts env w expected = true →
      (∃ f, (t.delete env w expected).1 = .error f) ∧
        ((t.delete env w expected).2.rows ≠ t.rows ∨ (t.delete env w expected).2.order ≠ t.order)) ∧
    (t.deleteAborts env w expected = false →
      (∃ f, (t.delete env w expected).1 = .error f) → (t.delete env w expected).2 = t) := by
  unfold delete deleteAborts
  cases hkey : t.onPrimaryKey w with
  | some key =>
    simp only [Option.isNone_some, Bool.false_and, Bool.false_eq_true, false_implies, true_and,
      forall_const]
    split <;> rintro ⟨f, hf⟩ <;> cases hf
  | none =>
    simp only [Option.isNone_none, Bool.true_and]
    constructor
    · intro hlate
      obtain ⟨k, hat, hsome⟩ := (Option.any_eq_true _ _).1 hlate
      exact deleteScan_late hat hsome
    · intro hlate
      refine deleteScan_interrupted fun k hat => ?_
      rw [hat] at hlate
      exact hlate

end Delete

/-! ## ALTER TABLE -/

variable (env t) in
theorem columns_changeRows (change : Row → Row) :
    (t.changeRows env change).1.columns = t.columns := by
  unfold changeRows
  exact rangeLoop_invariant env.scanTick (P := fun u : Table => u.columns = t.columns)
    (f := fun u key => { u with rows := u.rows.insert key (change (u.rows.getD key ∅)) })
    (fun u key _ hu => hu) rfl 0

variable (env t) in
theorem changeRows_error (change : Row → Row) :
    (t.changeRows env change).2.isSome =
      (interruptedAt env.scanTick (env.order.range t.rows).length).isSome := by
  unfold changeRows
  rw [rangeLoop_interruptedAt]
  cases hat : interruptedAt env.scanTick (env.order.range t.rows).length with
  | none => rfl
  | some k =>
    obtain ⟨-, e, he⟩ := interruptedAt_some hat
    simp [he]

theorem addColumn_late {name : Bytes} {type : ColType} :
    (TableOp.lateAbort env t (.addColumn name type) = true →
      (∃ f, (t.addColumn env name type).1 = .error f) ∧
        (t.addColumn env name type).2.columns ≠ t.columns) ∧
    (TableOp.lateAbort env t (.addColumn name type) = false →
      (∃ f, (t.addColumn env name type).1 = .error f) → (t.addColumn env name type).2 = t) := by
  simp only [TableOp.lateAbort]
  unfold addColumn
  cases hcol : hasColumn t.columns name with
  | true => simp
  | false =>
    have herror := changeRows_error env { t with columns := t.columns ++ [⟨name, type, false⟩] }
      fun row => row.insert name .null
    have hcolumns := columns_changeRows env { t with columns := t.columns ++ [⟨name, type, false⟩] }
      fun row => row.insert name .null
    simp only [Bool.not_false, Bool.true_and, Bool.false_eq_true, if_false] at herror ⊢
    rw [← herror]
    generalize changeRows env (fun row => row.insert name .null) _ = p at hcolumns
    obtain ⟨u, _ | f⟩ := p
    · simp
    · refine ⟨fun _ => ⟨⟨f, rfl⟩, fun hsame => ?_⟩, fun hfalse => by simp at hfalse⟩
      simpa using congrArg List.length (hcolumns.symm.trans hsame)

theorem dropColumn_late :
    (TableOp.lateAbort env t (.dropColumn column) = true →
      (∃ f, (t.dropColumn env column).1 = .error f) ∧
        (t.dropColumn env column).2.columns ≠ t.columns) ∧
    (TableOp.lateAbort env t (.dropColumn column) = false →
      (∃ f, (t.dropColumn env column).1 = .error f) → (t.dropColumn env column).2 = t) := by
  simp only [TableOp.lateAbort]
  unfold dropColumn
  by_cases hlen : t.columns.length ≤ 1
  · have hnot : ¬1 < t.columns.length := by omega
    simp [hlen, hnot]
  · have hlt : 1 < t.columns.length := by omega
    rw [if_neg hlen]
    cases hfind : t.columns.findIdx? (·.name == column) with
    | none =>
      have hcol : hasColumn t.columns column = false := by
        simpa [hasColumn, List.findIdx?_eq_none_iff] using hfind
      simp [hcol]
    | some i =>
      have hi : i < t.columns.length := (List.findIdx?_eq_some_iff_getElem.1 hfind).1
      have hcol : hasColumn t.columns column = true := by
        obtain ⟨hi, hname, -⟩ := List.findIdx?_eq_some_iff_getElem.1 hfind
        exact List.any_eq_true.2 ⟨_, List.getElem_mem hi, hname⟩
      have herror := changeRows_error env { t with columns := t.columns.eraseIdx i }
        fun row => row.erase column
      have hcolumns := columns_changeRows env { t with columns := t.columns.eraseIdx i }
        fun row => row.erase column
      simp only [hlt, hcol, decide_true, Bool.true_and] at herror ⊢
      rw [← herror]
      generalize changeRows env (fun row => row.erase column) _ = p at hcolumns
      obtain ⟨u, _ | f⟩ := p
      · simp
      · refine ⟨fun _ => ⟨⟨f, rfl⟩, fun hsame => ?_⟩, fun hfalse => by simp at hfalse⟩
        have hlength := congrArg List.length (hcolumns.symm.trans hsame)
        rw [List.length_eraseIdx_of_lt hi] at hlength
        omega

/-! ## Operations do not panic -/

theorem scan_ne_panic {σ α : Type} {f : σ → α → σ} {n : Nat} {l : List α} {s s' : σ} {e : Fault}
    (h : rangeLoop env.scanTick (fun s a => .next (f s a)) n l s = (s', some e)) : e ≠ .panic :=
  rangeLoop_error (fun _ _ => tick_ne_panic) (fun _ _ _ he => by cases he) (congrArg Prod.snd h)

theorem insert_ne_panic {rows : List InsertRow} {replace : Bool} :
    (t.applyInsertRows env rows replace).1 ≠ .error .panic := by
  unfold applyInsertRows
  cases hcheck : (if replace then none
      else (rangeLoop env.applyTick t.checkInsertRow 0 rows ∅).2) with
  | none => simp
  | some f =>
    simp only [ne_eq, Except.error.injEq]
    split at hcheck
    · cases hcheck
    · refine rangeLoop_error (fun _ _ => tick_ne_panic) (fun s a e he => ?_) hcheck
      simp only [checkInsertRow] at he
      split_ifs at he
      cases he
      simp [fault]

theorem rekeyPrimary_ne_panic {old : Bytes} {v : Value} :
    (t.rekeyPrimaryLocked old v).1 ≠ .error .panic := by
  unfold rekeyPrimaryLocked
  simp only
  split_ifs <;> simp [fault]

theorem update_ne_panic {v : Value} {w : Option MutationWhere} {expected : Expected} :
    (t.update env column v w expected).1 ≠ .error .panic := by
  unfold update
  cases t.onPrimaryKey w with
  | some key =>
    simp only
    split_ifs
    · exact rekeyPrimary_ne_panic
    all_goals simp
  | none =>
    simp only
    split_ifs
    · unfold updatePrimaryMultiLocked
      split
      · simp
      · split_ifs
        · simp [fault]
        · exact rekeyPrimary_ne_panic
      · simp [fault]
    · unfold updateScan
      split
      · next h => simpa using scan_ne_panic h
      · simp

theorem delete_ne_panic {w : Option MutationWhere} {expected : Expected} :
    (t.delete env w expected).1 ≠ .error .panic := by
  unfold delete
  cases t.onPrimaryKey w with
  | some key =>
    simp only
    split <;> simp
  | none =>
    simp only [deleteScan]
    split
    · next h => simpa using scan_ne_panic h
    · simp

theorem addColumn_ne_panic {name : Bytes} {type : ColType} :
    (t.addColumn env name type).1 ≠ .error .panic := by
  unfold addColumn changeRows
  split_ifs
  · simp [fault]
  · split
    · next h => simpa using scan_ne_panic h
    · simp

theorem dropColumn_ne_panic : (t.dropColumn env column).1 ≠ .error .panic := by
  unfold dropColumn changeRows
  split_ifs
  · simp [fault]
  · split
    · simp [faultWith]
    · split
      · next h => simpa using scan_ne_panic h
      · simp

theorem createIndex_ne_panic {indexName : Bytes} :
    (t.createIndex env indexName column).1 ≠ .error .panic := by
  unfold createIndex buildIndex
  split_ifs
  · simp [faultWith]
  · simp [fault]
  · simp [fault]
  · split
    · next h => simpa using scan_ne_panic h
    · simp

theorem dropIndex_ne_panic {indexName : Bytes} : (t.dropIndex indexName).1 ≠ .error .panic := by
  unfold dropIndex
  split
  · simp
  · split_ifs
    · simp
    · simp [faultWith]

end Table

/-! ## Operations and statements -/

section

variable {env : Env} {t : Table} {op : TableOp}

theorem TableOp.run_error_of_update
    (hupdate : ∀ column v w expected, op = .update column v w expected →
      (∃ f, (t.update env column v w expected).1 = .error f) →
        (t.update env column v w expected).2 = t)
    (hlate : op.lateAbort env t = false) (hfail : ∃ f, (op.run env t).1 = .error f) :
    (op.run env t).2 = t := by
  cases op with
  | insert rows replace =>
    simp only [TableOp.run, Table.applyInsertRows] at hfail ⊢
    split at hfail
    · rfl
    · obtain ⟨f, hf⟩ := hfail
      cases hf
  | update column v w expected => exact hupdate column v w expected rfl hfail
  | delete w expected => exact Table.delete_late.2 hlate hfail
  | addColumn name type => exact Table.addColumn_late.2 hlate hfail
  | dropColumn column => exact Table.dropColumn_late.2 hlate hfail
  | truncate =>
    obtain ⟨f, hf⟩ := hfail
    cases hf
  | createIndex indexName column =>
    obtain ⟨f, hf⟩ := hfail
    simp only [TableOp.run, Table.createIndex] at hf ⊢
    split_ifs at hf ⊢ <;> try rfl
    generalize Table.buildIndex env column t = p at hf ⊢
    obtain ⟨index, _ | e⟩ := p
    · cases hf
    · rfl
  | dropIndex indexName =>
    obtain ⟨f, hf⟩ := hfail
    simp only [TableOp.run, Table.dropIndex] at hf ⊢
    cases hname : t.indexNames[indexName]? with
    | some column =>
      rw [hname] at hf
      cases hf
    | none =>
      simp only [hname] at hf ⊢
      split_ifs at hf ⊢
      rfl

theorem TableOp.run_error (h : t.Consistent) (hop : OpOk t.columns op)
    (hlate : op.lateAbort env t = false) (hfail : ∃ f, (op.run env t).1 = .error f) :
    (op.run env t).2 = t := by
  refine TableOp.run_error_of_update (fun column v w expected he hf => ?_) hlate hfail
  subst he
  obtain ⟨c, hc, rfl, -⟩ := hop
  exact (Table.update_late h hc).2 hlate hf

variable (env t op) in
theorem TableOp.run_ne_panic : (op.run env t).1 ≠ .error .panic := by
  cases op with
  | insert rows replace => exact Table.insert_ne_panic
  | update column v w expected => exact Table.update_ne_panic
  | delete w expected => exact Table.delete_ne_panic
  | addColumn name type => exact Table.addColumn_ne_panic
  | dropColumn column => exact Table.dropColumn_ne_panic
  | truncate => simp [TableOp.run, Table.truncate]
  | createIndex indexName column => exact Table.createIndex_ne_panic
  | dropIndex indexName => exact Table.dropIndex_ne_panic

theorem TableOp.run_late (h : t.Consistent) (hop : OpOk t.columns op)
    (hlate : op.lateAbort env t = true) :
    (∃ f, (op.run env t).1 = .error f) ∧
      ((op.run env t).2.columns ≠ t.columns ∨ (op.run env t).2.rows ≠ t.rows ∨
        (op.run env t).2.order ≠ t.order) := by
  cases op with
  | update column v w expected =>
    obtain ⟨c, hc, rfl, -⟩ := hop
    exact ((Table.update_late h hc).1 hlate).imp_right fun hrows => Or.inr (Or.inl hrows)
  | delete w expected => exact (Table.delete_late.1 hlate).imp_right Or.inr
  | addColumn name type => exact (Table.addColumn_late.1 hlate).imp_right Or.inl
  | dropColumn column => exact (Table.dropColumn_late.1 hlate).imp_right Or.inl
  | _ => cases hlate

end

/-- The statement is cancelled at a row by which it has changed its table. -/
def Database.lateAbort (db : Database) (env : Env) (sql : Bytes) : Bool :=
  (env.ctx .entry).isNone && (env.ctx .locked).isNone &&
    match db.read env sql with
    | .ok (.table name op) => db.tables[name]?.any fun t => op.lateAbort env t
    | _ => false

/-- The same columns, rows, order lists and indexes, and the same answers to every SELECT. -/
def Database.Unchanged (db db' : Database) : Prop :=
  (∀ name : Bytes,
    db'.tables[name]?.map (fun t => (t.columns, t.rows, t.order, t.indexes)) =
      db.tables[name]?.map fun t => (t.columns, t.rows, t.order, t.indexes)) ∧
  ∀ (env : Env) (sql : Bytes), db'.selectRows env sql = db.selectRows env sql

theorem Database.Unchanged.of_tables {db db' : Database} (h : db'.tables = db.tables) :
    db.Unchanged db' := by
  refine ⟨fun name => by rw [h], fun env sql => ?_⟩
  simp only [Database.selectRows, Database.table, h]

section

variable {db : Database} {env : Env} {sql : Bytes}

theorem Database.tables_of_error (h : db.All Table.Consistent)
    (hlate : db.lateAbort env sql = false)
    {f : Fault} (hf : (db.execWithOptions env sql).1 = .error f) :
    (db.execWithOptions env sql).2.tables = db.tables := by
  have hcols : db.All fun t => ColumnsOk t.columns := fun name t ht => (h name t ht).wf.columns
  unfold Database.execWithOptions Database.lateAbort at *
  cases hentry : env.ctx .entry with
  | some e => rfl
  | none =>
    cases hlocked : env.ctx .locked with
    | some e => rfl
    | none =>
      simp only [hentry, hlocked, Option.isNone_none, Bool.true_and] at hlate hf ⊢
      rw [Database.tables_countWrite]
      unfold Database.exec at hf ⊢
      cases hread : db.read env sql with
      | error f => rfl
      | ok stmt =>
        have hok := Database.read_ok hcols hread
        rw [hread] at hlate hf
        cases stmt with
        | create name columns =>
          simp only [Stmt.run] at hf ⊢
          split_ifs at hf ⊢
          rfl
        | dropTable name ifExists =>
          simp only [Stmt.run] at hf ⊢
          split_ifs at hf ⊢
          rfl
        | reply r => rfl
        | table name op =>
          obtain ⟨t, ht, hop⟩ := hok
          simp only [ht, Option.any_some] at hlate
          simp only [Stmt.run, ht] at hf ⊢
          rw [TableOp.run_error (h name t ht) hop hlate ⟨f, hf⟩, Map.insert_get? ht]

theorem Database.lateAbort_changes (h : db.All Table.Consistent)
    (hlate : db.lateAbort env sql = true) :
    (∃ e, (db.execWithOptions env sql).1 = .error (.error e)) ∧
      ¬db.Unchanged (db.execWithOptions env sql).2 := by
  have hcols : db.All fun t => ColumnsOk t.columns := fun name t ht => (h name t ht).wf.columns
  unfold Database.lateAbort at hlate
  simp only [Bool.and_eq_true, Option.isNone_iff_eq_none] at hlate
  obtain ⟨⟨hentry, hlocked⟩, hlate⟩ := hlate
  unfold Database.execWithOptions Database.exec
  simp only [hentry, hlocked]
  cases hread : db.read env sql with
  | error f =>
    rw [hread] at hlate
    cases hlate
  | ok stmt =>
    have hok := Database.read_ok hcols hread
    rw [hread] at hlate
    cases stmt with
    | create name columns => cases hlate
    | dropTable name ifExists => cases hlate
    | reply r => cases hlate
    | table name op =>
      obtain ⟨t, ht, hop⟩ := hok
      simp only [ht, Option.any_some] at hlate
      obtain ⟨⟨f, hf⟩, hdiff⟩ := TableOp.run_late (h name t ht) hop hlate
      simp only [Stmt.run, ht]
      constructor
      · cases f with
        | error e => exact ⟨e, hf⟩
        | panic => exact absurd hf (TableOp.run_ne_panic env t op)
      · intro hsame
        have hcore := hsame.1 name
        rw [Database.tables_countWrite, Map.get?_insert_self, ht] at hcore
        simp only [Option.map_some, Option.some.injEq, Prod.mk.injEq] at hcore
        rcases hdiff with hd | hd | hd
        · exact hd hcore.1
        · exact hd hcore.2.1
        · exact hd hcore.2.2.1

end

/-- **A failed statement leaves the database unchanged exactly if it is not aborted late.** -/
theorem Database.failed_unchanged_iff {db : Database} (h : db.All Table.Consistent) (env : Env)
    (sql : Bytes) :
    ((∃ f, (db.execWithOptions env sql).1 = .error f) →
      db.Unchanged (db.execWithOptions env sql).2) ↔ db.lateAbort env sql = false := by
  constructor
  · intro hclaim
    rw [← Bool.not_eq_true]
    intro hlate
    obtain ⟨⟨e, he⟩, hchanged⟩ := Database.lateAbort_changes h hlate
    exact hchanged (hclaim ⟨.error e, he⟩)
  · rintro hlate ⟨f, hf⟩
    exact Database.Unchanged.of_tables (Database.tables_of_error h hlate hf)

/-- A context that is cancelled from the `n`-th row of a scan on. -/
def cancelledAtRow (n : Nat) : Env :=
  { ctx := fun p => match p with
      | .scan k => if n ≤ k then some .canceled else none
      | _ => none }

def sixtyFourRows : Database :=
  Database.runAll {} (script ["CREATE TABLE t (v INT)", "INSERT INTO t VALUES (1)",
    "INSERT INTO t SELECT v FROM t", "INSERT INTO t SELECT v FROM t",
    "INSERT INTO t SELECT v FROM t", "INSERT INTO t SELECT v FROM t",
    "INSERT INTO t SELECT v FROM t", "INSERT INTO t SELECT v FROM t"])

def alterAborted : Except Fault Result × Database :=
  sixtyFourRows.execWithOptions (cancelledAtRow 1) (str "ALTER TABLE t ADD COLUMN w INT")

def deleteAborted : Except Fault Result × Database :=
  sixtyFourRows.execWithOptions (cancelledAtRow 2) (str "DELETE FROM t WHERE v = 1")

/-- The one leaves the new column behind, the other has removed 63 rows. -/
theorem Database.failed_sixtyFourRows :
    (alterAborted.1 = .error (.error (.context .canceled)) ∧
      (alterAborted.2.exec {} (str "SELECT * FROM t LIMIT 1")).1 =
        .ok { columns := [str "v", str "w"], rows := [[.int 1, .null]] }) ∧
    (deleteAborted.1 = .error (.error (.context .canceled)) ∧
      (deleteAborted.2.exec {} (str "SELECT COUNT(*) FROM t")).1 =
        .ok { columns := [str "count(*)"], rows := [[.count 1]] }) := by
  decide +kernel

/-- Cancelled at the first row, a DELETE leaves the table as it was. -/
theorem Database.failed_unchanged_sixtyFourRows :
    sixtyFourRows.lateAbort (cancelledAtRow 1) (str "DELETE FROM t WHERE v = 1") = false ∧
    ((∃ f, (sixtyFourRows.execWithOptions (cancelledAtRow 1)
        (str "DELETE FROM t WHERE v = 1")).1 = .error f) →
      sixtyFourRows.Unchanged (sixtyFourRows.execWithOptions (cancelledAtRow 1)
        (str "DELETE FROM t WHERE v = 1")).2) := by
  have hlate : sixtyFourRows.lateAbort (cancelledAtRow 1) (str "DELETE FROM t WHERE v = 1") =
      false := by decide +kernel
  exact ⟨hlate, (Database.failed_unchanged_iff
    (Database.runAll_consistent (uncancelled_script _)) _ _).2 hlate⟩

end SuperDB.Engine
