import SuperDB.Engine.Verify.FastScan
import SuperDB.Engine.Verify.MaxRows
import SuperDB.Engine.Verify.TopK

/-!
# LIMIT and OFFSET

LIMIT and OFFSET show a part of the rows of a query. Two cases are different. With LIMIT 0 and no
OFFSET a scan of `order` is asked for no rows: the selection of the best rows for ORDER BY panics
then, and DISTINCT gets one row. And where the cells of the ORDER BY column are not ordered, which
takes a NaN among them, the best rows need not be the first rows of the sorted list.
-/

namespace SuperDB.Engine

open Go

variable {α : Type} {keys : List Bytes} {rows : List (List Value)} {m : Nat}
  {compiled : CompiledCondition}

namespace Table

/-! ## The part of the rows -/

theorem drop_takeUpTo {l : List α} (hsize : l.length < 2 ^ 63 - 1) (limit : Option Nat)
    (offset : Nat) :
    (takeUpTo (rowCap 0 limit offset) l).drop offset = takeUpTo limit (l.drop offset) := by
  cases limit with
  | none => rfl
  | some k =>
    show (l.take (satAdd k offset)).drop offset = (l.drop offset).take k
    unfold satAdd
    split
    · -- the end lies beyond every slice
      next hlarge =>
      rw [List.take_of_length_le (Nat.le_of_lt hsize), List.take_of_length_le]
      rw [List.length_drop]
      omega
    · rw [List.drop_take, Nat.add_sub_cancel]

section Arrange

variable {env : Env} {q : Query} {t : Table} {cap : Option Nat}

theorem placed_orderEntries (column : Bytes) (keys : List Bytes) :
    Placed (t.orderEntries column keys) := by
  intro a ha b hb hseq
  obtain ⟨⟨key, i⟩, hi, rfl⟩ := List.mem_map.1 ha
  obtain ⟨⟨key', j⟩, hj, rfl⟩ := List.mem_map.1 hb
  rw [List.mem_zipIdx_iff_getElem?] at hi hj
  simp only at hseq hi hj ⊢
  rw [hseq, hj] at hi
  rw [hseq, Option.some.inj hi]

/-- Where ORDER BY selects the best rows, their cells are ordered. -/
def Steady (env : Env) (q : Query) (cap : Option Nat) (keys : List Bytes) (t : Table) : Prop :=
  q.tail.orderColumn ≠ [] → q.distinct = false → (∃ c, cap = some c ∧ c < keys.length) →
    env.sorter.Sorts ∧
    Orders (rankBefore q.tail.descending) (t.orderEntries q.tail.orderColumn keys)

theorem orderKeys_steady (hcap : ∀ c, cap = some c → 0 < c)
    (hsteady : (∃ c, cap = some c ∧ c < keys.length) → env.sorter.Sorts ∧
      Orders (rankBefore q.tail.descending) (t.orderEntries q.tail.orderColumn keys)) :
    orderKeys env t keys q.tail.orderColumn q.tail.descending cap =
      .ok (takeUpTo cap (t.sortedKeys env q keys)) := by
  by_cases hfew : ∀ c, cap = some c → keys.length ≤ c
  · obtain ⟨best, hbest, -, hall⟩ := capEntries_total hcap q.tail.descending
      (t.orderEntries q.tail.orderColumn keys)
    rw [length_orderEntries] at hall
    have hsorted : (t.sortedKeys env q keys).length = keys.length := by
      rw [sortedKeys, List.length_map, (env.sorter.perm _ _).length_eq, length_orderEntries]
    rw [takeUpTo_of_le (by rwa [hsorted]), sortedKeys, ← hall hfew]
    exact ok_bind hbest rfl
  · rw [not_forall] at hfew
    obtain ⟨c, hfew⟩ := hfew
    rw [Classical.not_imp, Nat.not_le] at hfew
    obtain ⟨rfl, hlt⟩ := hfew
    obtain ⟨hsorts, horders⟩ := hsteady ⟨c, rfl, hlt⟩
    rw [← length_orderEntries (t := t) q.tail.orderColumn] at hlt
    obtain ⟨best, hbest, hsort⟩ := sort_topKEntries hsorts (placed_orderEntries _ _) (hcap c rfl)
      (Nat.le_of_lt hlt) horders
    have hentries : capEntries (t.orderEntries q.tail.orderColumn keys) (some c) q.tail.descending =
        .ok best := (if_pos hlt).trans hbest
    refine ok_bind hentries ?_
    rw [hsort]
    exact congrArg Except.ok List.map_take

theorem arrange_takeUpTo (henv : env.Live) (hcap : ∀ c, cap = some c → 0 < c) {found : List Bytes}
    (hfound : found = if q.tail.orderColumn = [] then takeUpTo cap keys else keys)
    (hsteady : t.Steady env q cap keys) :
    t.arrange env q cap found = .ok (takeUpTo cap (t.arranged env q keys)) := by
  have hlines : ∀ keys', t.materialize q cap (cutKeys q cap (takeUpTo cap keys')) =
      takeUpTo cap (keys'.map (t.lineOf q.names)) := materialize_takeUpTo hcap
  unfold arrange arranged
  by_cases horder : q.tail.orderColumn = []
  · rw [if_pos horder] at hfound
    rw [if_pos horder, orderedKeys, if_pos horder, hfound, ← hlines]
    rfl
  · rw [if_neg horder] at hfound
    rw [if_neg horder, hfound, ← hlines]
    cases hdistinct : q.distinct with
    | true =>
      -- DISTINCT orders all keys and cuts the lines
      have hkeys : t.orderedKeys env q cap keys = .ok (t.sortedKeys env q keys) := by
        rw [orderedKeys, if_neg horder, henv .sort, hdistinct]
        rfl
      refine ok_bind hkeys (congrArg Except.ok ?_)
      rw [hlines, materialize_cutKeys cap hcap]
      cases cap <;> rfl
    | false =>
      have hkeys : t.orderedKeys env q cap keys = .ok (takeUpTo cap (t.sortedKeys env q keys)) := by
        rw [orderedKeys, if_neg horder, henv .sort, hdistinct]
        exact orderKeys_steady hcap (hsteady horder hdistinct)
      exact ok_bind hkeys rfl

end Arrange

section Gather

variable {env : Env} {q : Query} {t : Table} {cap : Option Nat} {compiled : CompiledCondition}

/-- **Rows gathered under a cap are the first of all rows gathered.** -/
theorem gather_takeUpTo (henv : env.Live) (hlimit : q.tail.limit ≠ some 0)
    (hcap : ∀ c, cap = some c → 0 < c) {path : Path}
    (hfor : (∃ key, path = .key key) ∨ t.compileFor q (t.termFor q) = .ok compiled)
    (hbucket : ∀ column value, path ≠ .bucket column value)
    (hsteady : path = .order → t.Steady env q cap (t.candidates q compiled)) :
    t.gather env q cap path = .ok (takeUpTo cap (t.whole env q compiled path)) := by
  cases path with
  | key key =>
    obtain ⟨rows, hrows, -, hall⟩ := gather_live henv (Or.inl hlimit) hcap hfor
    have hfits : ∀ c, cap = some c → (t.whole env q compiled (.key key)).length ≤ c := fun c hc =>
      Nat.le_trans (length_keyRows_le key) (hcap c hc)
    rw [hrows, hall hfits, takeUpTo_of_le hfits]
  | bucket column value => exact absurd rfl (hbucket column value)
  | fast =>
    have hfor := hfor.resolve_left (by rintro ⟨_, h⟩; cases h)
    obtain ⟨c, hloop, hitems⟩ := rangeLoop_takeUpTo henv.scanTick
      (takeFast_grow (t := t) (q := q) (t.termFor q) compiled) 0 t.fast (s := {}) hcap
    refine ok_bind hfor ?_
    rw [if_neg hlimit, fastScanStep_eq, Collected.length_items, hloop, whole, ← hitems]
    rfl
  | order =>
    have hfor := hfor.resolve_left (by rintro ⟨_, h⟩; cases h)
    obtain ⟨c, hloop, hkeys⟩ := loop_orderStep_live (t := t) (q := q) henv hcap compiled
    exact ok_bind hfor (ok_bind hloop (arrange_takeUpTo henv hcap hkeys (hsteady rfl)))

theorem topKEntries_subset {k : Nat} {descending : Bool} {entries h best : List OrderEntry}
    (hrun : entries.foldlM (topKStep k descending) h = .ok best) : best ⊆ h ++ entries := by
  induction entries generalizing h with
  | nil =>
    cases hrun
    simp
  | cons e entries ih =>
    rw [List.foldlM_cons] at hrun
    obtain ⟨h', hstep, hrun⟩ := bind_ok hrun
    have hone : h' ⊆ e :: h := by
      unfold topKStep at hstep
      simp only at hstep
      split at hstep
      · cases hstep
        exact (heapPush_perm h e).subset
      · split at hstep
        · cases hstep
        · next root rest _ =>
          split at hstep
          · cases hstep
            refine List.Subset.trans (heapPush_perm _ e).subset (List.cons_subset_cons e ?_)
            exact List.Subset.trans (List.dropLast_subset _)
              (List.Subset.trans (heapDown_perm _ _ _ _).subset (swap_perm _ _ _).subset)
          · cases hstep
            exact List.subset_cons_self e _
    intro a ha
    have hmem := ih hrun ha
    rw [List.mem_append] at hmem ⊢
    rcases hmem with hmem | hmem
    · rcases List.mem_cons.1 (hone hmem) with rfl | hmem
      · exact Or.inr List.mem_cons_self
      · exact Or.inl hmem
    · exact Or.inr (List.mem_cons_of_mem _ hmem)

theorem arrange_lines (h : t.arrange env q cap keys = .ok rows) :
    ∀ row ∈ rows, ∃ key ∈ keys, row = t.lineOf q.names key := by
  obtain ⟨keys', hkeys, h⟩ := bind_ok h
  cases h
  have hsub : keys' ⊆ keys := by
    unfold orderedKeys at hkeys
    split at hkeys
    · cases hkeys
      exact List.Subset.refl _
    · split at hkeys
      · cases hkeys
      · obtain ⟨best, hbest, hkeys⟩ := bind_ok hkeys
        cases hkeys
        have hbest' : best ⊆ t.orderEntries q.tail.orderColumn keys := by
          unfold capEntries at hbest
          split at hbest
          · split at hbest
            · exact topKEntries_subset hbest
            · cases hbest
              exact List.Subset.refl _
          · cases hbest
            exact List.Subset.refl _
        intro key hkey
        obtain ⟨e, he, rfl⟩ := List.mem_map.1 hkey
        have hentry := hbest' ((env.sorter.perm _ _).subset he)
        obtain ⟨p, hp, rfl⟩ := List.mem_map.1 hentry
        exact List.fst_mem_of_mem_zipIdx hp
  intro row hrow
  have hline : row ∈ keys'.map (t.lineOf q.names) := by
    unfold materialize cutKeys at hrow
    cases cap with
    | none => exact hrow
    | some c =>
      have hrow := List.mem_of_mem_take hrow
      obtain ⟨key, hkey, rfl⟩ := List.mem_map.1 hrow
      simp only at hkey
      split at hkey
      · exact List.mem_map_of_mem hkey
      · exact List.mem_map_of_mem (List.mem_of_mem_take hkey)
  obtain ⟨key, hkey, rfl⟩ := List.mem_map.1 hline
  exact ⟨key, hsub hkey, rfl⟩

theorem gather_alike (henv : env.Live) (hcap : ∀ c, cap = some c → 0 < c)
    (hfor : t.compileFor q (t.termFor q) = .ok compiled) {line : List Value}
    (halike : ∀ key ∈ t.candidates q compiled, t.lineOf q.names key = line) :
    t.gather env q cap .order = .ok (takeUpTo cap (t.whole env q compiled .order)) := by
  obtain ⟨c, hloop, hkeys⟩ := loop_orderStep_live (t := t) (q := q) henv hcap compiled
  obtain ⟨rows, hrows, hlen, -⟩ := arrange_collected (t := t) henv hcap hkeys
  have hsame : ∀ row ∈ rows, row = line := by
    intro row hrow
    obtain ⟨key, hkey, rfl⟩ := arrange_lines hrows row hrow
    refine halike key ?_
    rw [hkeys] at hkey
    split at hkey
    · cases cap with
      | none => exact hkey
      | some c => exact List.mem_of_mem_take hkey
    · exact hkey
  have hwhole : ∀ row ∈ t.whole env q compiled .order, row = line := by
    intro row hrow
    obtain ⟨key, hkey, rfl⟩ := List.mem_map.1 hrow
    refine halike key ?_
    split at hkey
    · exact hkey
    · obtain ⟨e, he, rfl⟩ := List.mem_map.1 hkey
      obtain ⟨p, hp, rfl⟩ := List.mem_map.1 ((env.sorter.perm _ _).subset he)
      exact List.fst_mem_of_mem_zipIdx hp
  refine ok_bind hfor (ok_bind hloop ?_)
  rw [hrows]
  have hpart : ∀ row ∈ takeUpTo cap (t.whole env q compiled .order), row = line := by
    intro row hrow
    cases cap with
    | none => exact hwhole row hrow
    | some c => exact hwhole row (List.mem_of_mem_take hrow)
  rw [List.eq_replicate_of_mem hsame, List.eq_replicate_of_mem hpart]
  exact congrArg (fun n => Except.ok (List.replicate n line)) hlen

theorem orderStep_zero : t.orderStep q (some 0) compiled = t.orderStep q (some 1) compiled := by
  funext c key
  unfold orderStep
  cases t.rows[key]? with
  | none => rfl
  | some row =>
    simp only
    split
    · rfl
    · split
      · rfl
      · next hgrown =>
        have hpos : 1 ≤ (t.addKey q key c).items.length := by
          rcases Collected.add_cases q.distinct (rowProjectionKey (t.lineOf q.names key)) key
            c with h | h
          · exact absurd (congrArg (fun c => c.items.length) h) hgrown
          · have hitems : (t.addKey q key c).items = key :: c.items := h
            rw [hitems, List.length_cons]
            omega
        simp only [reached, Option.any_some, Nat.zero_le, hpos]

theorem gather_distinct_zero (hdistinct : q.distinct = true) :
    t.gather env q (some 0) .order = t.gather env q (some 1) .order := by
  have harrange : ∀ keys, t.arrange env q (some 0) keys = t.arrange env q (some 1) keys := by
    intro keys
    unfold arrange orderedKeys
    simp only [hdistinct, if_true]
    congr 1
    funext keys'
    simp only [cutKeys, hdistinct, if_true]
    rfl
  simp only [gather, orderStep_zero, harrange]

end Gather

end Table

/-! ## Plain queries -/

def SelectTail.cut (tail : SelectTail) (limit : Option Nat) (offset headEnd : Nat) : SelectTail :=
  { tail with limit, offset, headEnd }

def Query.cut (q : Query) (limit : Option Nat) (offset headEnd : Nat) : Query :=
  { q with tail := q.tail.cut limit offset headEnd }

def Result.cut (r : Result) (limit : Option Nat) (offset : Nat) : Result :=
  { r with rows := takeUpTo limit (r.rows.drop offset) }

namespace Table

section Plain

variable {env : Env} {q : Query} {t : Table} {r : Result}

theorem window_ok (h : window m q rows = .ok r) :
    r = { columns := q.names, rows := applyOffset q.tail.offset rows } := by
  unfold window capResultRows at h
  split at h
  · cases h
  · cases h
    rfl

theorem window_nil (h : rows.length ≤ q.tail.offset) :
    window m q rows = .ok { columns := q.names } := by
  have hnone : applyOffset q.tail.offset rows = [] := List.drop_eq_nil_of_le h
  rw [window, hnone]
  exact capResultRows_of_le (r := { columns := q.names }) (Nat.zero_le 1)

theorem compileFor_of_selectBy {path : Path} (h : t.selectBy env q path = .ok r) :
    (∃ key, path = .key key) ∨ ∃ compiled, t.compileFor q (t.termFor q) = .ok compiled := by
  by_cases hkey : ∃ key, path = .key key
  · exact Or.inl hkey
  · cases hfor : t.compileFor q (t.termFor q) with
    | ok compiled => exact Or.inr ⟨compiled, rfl⟩
    | error f =>
      rw [selectBy_gather, gather_invalid hfor fun key hk => hkey ⟨key, hk⟩] at h
      cases h

theorem whole_cut (compiled : CompiledCondition) (limit : Option Nat) (offset headEnd : Nat)
    (path : Path) :
    t.whole env (q.cut limit offset headEnd) compiled path = t.whole env q compiled path := by
  cases path <;> rfl

theorem selectBy_whole (henv : env.Live) (hnone : q.tail.limit = none)
    (hstart : q.tail.offset = 0) (hrows : env.maxRows = 0) {path : Path}
    (hfor : (∃ key, path = .key key) ∨ t.compileFor q (t.termFor q) = .ok compiled) :
    t.selectBy env q path = .ok { columns := q.names, rows := t.whole env q compiled path } := by
  have hlimit : q.tail.limit ≠ some 0 := by
    rw [hnone]
    exact fun h => nomatch h
  obtain ⟨rows, hgather, -, hall⟩ := gather_live henv (Or.inl hlimit)
    (fun c (hc : none = some c) => nomatch hc) hfor
  have hcap : rowCap env.maxRows q.tail.limit q.tail.offset = none := by
    rw [hrows, hnone]
    rfl
  rw [selectBy_gather, hcap, hgather, hrows]
  have hwhole : rows = t.whole env q compiled path := hall fun c hc => nomatch hc
  have hdrop : applyOffset q.tail.offset rows = rows := by
    rw [hstart]
    rfl
  refine (capResultRows_zero _).trans ?_
  rw [hdrop, hwhole]

variable {limit : Option Nat} {offset headEnd : Nat} {path : Path}

theorem selectBy_cut (henv : env.Live) (hrows : env.maxRows = 0) (hcount : t.Countable)
    (hnone : q.tail.limit = none) (hstart : q.tail.offset = 0)
    (hgather : ∀ compiled, (∃ key, path = .key key) ∨ t.compileFor q (t.termFor q) = .ok compiled →
      t.gather env (q.cut limit offset headEnd) (rowCap 0 limit offset) path =
        .ok (takeUpTo (rowCap 0 limit offset) (t.whole env q compiled path)))
    (h : t.selectBy env q path = .ok r) :
    t.selectBy env (q.cut limit offset headEnd) path = .ok (r.cut limit offset) := by
  have hanswer : ∀ compiled, (∃ key, path = .key key) ∨ t.compileFor q (t.termFor q) =
      .ok compiled →
      t.selectBy env (q.cut limit offset headEnd) path = .ok (r.cut limit offset) := by
    intro compiled hfor
    have hwhole := selectBy_whole henv hnone hstart hrows hfor
    rw [h] at hwhole
    cases hwhole
    rw [selectBy_gather, hrows]
    refine (congrArg (· >>= window 0 (q.cut limit offset headEnd)) (hgather compiled hfor)).trans ?_
    refine (capResultRows_zero _).trans ?_
    have hpart := drop_takeUpTo (hcount.length_whole_lt env q compiled path) limit offset
    show Except.ok _ = Except.ok _
    unfold Result.cut applyOffset
    simp only
    rw [← hpart]
    rfl
  rcases compileFor_of_selectBy h with hkey | ⟨compiled, hfor⟩
  · exact hanswer [] (Or.inl hkey)
  · exact hanswer compiled (Or.inr hfor)

theorem arrange_nil (henv : env.Live) (cap : Option Nat) : t.arrange env q cap [] = .ok [] := by
  have hsorted : ∀ cap', orderKeys env t [] q.tail.orderColumn q.tail.descending cap' = .ok [] := by
    intro cap'
    have hentries : capEntries [] cap' q.tail.descending = .ok [] := by
      cases cap' <;> rfl
    refine ok_bind hentries ?_
    rw [(env.sorter.perm _ _).eq_nil]
    rfl
  have hkeys : t.orderedKeys env q cap [] = .ok [] := by
    unfold orderedKeys
    split
    · rfl
    · rw [henv .sort]
      exact hsorted _
  refine ok_bind hkeys ?_
  cases cap with
  | none => rfl
  | some c => simp [cutKeys, materialize]

theorem selectBy_cut_zero (henv : env.Live) (hbucket : ∀ column value, path ≠ .bucket column value)
    (hfine : ∀ compiled, path = .order → offset = 0 → q.distinct = true ∨ q.tail.orderColumn ≠ [] →
      t.compileFor q (t.termFor q) = .ok compiled → t.candidates q compiled = [])
    (h : t.selectBy env q path = .ok r) :
    t.selectBy env (q.cut (some 0) offset headEnd) path = .ok (r.cut (some 0) offset) := by
  have hresult : r.cut (some 0) offset = { columns := (q.cut (some 0) offset headEnd).names } := by
    rw [selectBy_gather] at h
    obtain ⟨rows, -, h⟩ := bind_ok h
    rw [window_ok h]
    rfl
  obtain ⟨c, hc, hle⟩ := rowCap_zero env.maxRows offset
  have hcap : rowCap env.maxRows (q.cut (some 0) offset headEnd).tail.limit
      (q.cut (some 0) offset headEnd).tail.offset = some c := hc
  rw [hresult, selectBy_gather, hcap]
  cases path with
  | key key => exact window_nil (Nat.zero_le _)
  | bucket column value => exact absurd rfl (hbucket column value)
  | fast =>
    obtain ⟨compiled, hfor⟩ := (compileFor_of_selectBy h).resolve_left fun ⟨_, hk⟩ => by cases hk
    have hgather : t.gather env (q.cut (some 0) offset headEnd) (some c) .fast = .ok [] :=
      ok_bind hfor rfl
    rw [hgather]
    exact window_nil (Nat.zero_le _)
  | order =>
    obtain ⟨compiled, hfor⟩ := (compileFor_of_selectBy h).resolve_left fun ⟨_, hk⟩ => by cases hk
    have hfor' :
        t.compileFor (q.cut (some 0) offset headEnd) (t.termFor (q.cut (some 0) offset headEnd)) =
        .ok compiled := hfor
    have hgather : ∃ rows, t.gather env (q.cut (some 0) offset headEnd) (some c) .order = .ok rows ∧
        rows.length ≤ offset := by
      by_cases hpos : 0 < c
      · have hcap' : ∀ d, some c = some d → 0 < d := fun d hd => by cases hd; exact hpos
        obtain ⟨rows, hrows, hlen, -⟩ := gather_live henv (Or.inr Path.collects_order) hcap'
          (Or.inr hfor')
        refine ⟨rows, hrows, Nat.le_trans ?_ hle⟩
        rw [hlen]
        exact List.length_take_le _ _
      · obtain rfl : c = 0 := by omega
        refine ⟨[], ok_bind hfor' ?_, Nat.zero_le _⟩
        obtain ⟨c, hloop, hkeys⟩ :=
          loop_orderStep_live (t := t) (q := q.cut (some 0) offset headEnd) henv
          (fun d (hd : some 1 = some d) => by cases hd; exact Nat.one_pos) compiled
        rw [← orderStep_zero] at hloop
        refine ok_bind hloop ?_
        by_cases hplain : q.distinct = true ∨ q.tail.orderColumn ≠ []
        · have hoffset : offset = 0 := by
            by_contra hne
            exact absurd (rowCap_pos (fun hboth => hne hboth.2) 0 hc) (Nat.lt_irrefl 0)
          have hempty : t.candidates (q.cut (some 0) offset headEnd) compiled = [] :=
            hfine compiled rfl hoffset hplain hfor
          have hlisted : c.listed = [] := by
            rw [hkeys, hempty]
            split <;> rfl
          rw [hlisted]
          exact arrange_nil henv _
        · rw [not_or, Bool.not_eq_true, not_not] at hplain
          have hordered : t.orderedKeys env (q.cut (some 0) offset headEnd) (some 0) c.listed =
              .ok c.listed := if_pos hplain.2
          have hcut : cutKeys (q.cut (some 0) offset headEnd) (some 0) c.listed = [] :=
            (if_neg (by rw [Query.cut, hplain.1]; exact Bool.false_ne_true)).trans List.take_zero
          refine ok_bind hordered ?_
          rw [hcut]
          rfl
    obtain ⟨rows, hrows, hlen⟩ := hgather
    rw [hrows]
    exact window_nil hlen

end Plain

end Table

/-! ## Groups and aggregates -/

namespace Table

section Others

variable {env : Env} {t : Table} {r : Result} {selectExpr : Bytes} {tail : SelectTail}
  {distinct : Bool}

theorem capResultRows_shorter {r' : Result} (h : capResultRows m r' = .ok r) (r₁ : Result)
    (hle : r₁.rows.length ≤ r'.rows.length) : capResultRows m r₁ = .ok r₁ := by
  unfold capResultRows at h
  split at h
  · cases h
  · next hfits => exact if_neg fun hlarge => hfits ⟨hlarge.1, Nat.lt_of_lt_of_le hlarge.2 hle⟩

theorem length_cut_le (r : Result) (limit : Option Nat) (offset : Nat) :
    (r.cut limit offset).rows.length ≤ r.rows.length := by
  cases limit with
  | none => exact List.length_drop.le.trans (Nat.sub_le _ _)
  | some k => exact (List.length_take_le' _ _).trans (List.length_drop.le.trans (Nat.sub_le _ _))

theorem groupedLines_cut {items : List GroupItem} {columns : List Column} {groups : Groups}
    (hnone : tail.limit = none) (hstart : tail.offset = 0) (limit : Option Nat)
    (offset headEnd : Nat) (h : groupedLines env tail distinct items columns groups = .ok r) :
    groupedLines env (tail.cut limit offset headEnd) distinct items columns groups =
      .ok (r.cut limit offset) := by
  obtain ⟨having, hhaving, h⟩ := bind_ok h
  obtain ⟨sorted, hsorted, h⟩ := bind_ok h
  simp only [hnone, hstart, applyOffset, List.drop_zero] at h
  have hr := capResultRows_shorter h (r.cut limit offset)
  have hresult := h
  unfold capResultRows at hresult
  split at hresult
  · cases hresult
  · cases hresult
    refine ok_bind hhaving (ok_bind hsorted ?_)
    refine Eq.trans ?_ (hr (length_cut_le _ limit offset))
    cases limit <;> rfl

theorem groupedResult_cut (hnone : tail.limit = none) (hstart : tail.offset = 0)
    (limit : Option Nat)
    (offset headEnd : Nat) (h : t.groupedResult env selectExpr tail distinct = .ok r) :
    t.groupedResult env selectExpr (tail.cut limit offset headEnd) distinct =
      .ok (r.cut limit offset) := by
  obtain ⟨gIdx, hidx, h⟩ := bind_ok h
  obtain ⟨items, hitems, h⟩ := bind_ok h
  refine ok_bind hidx (ok_bind hitems ?_)
  have hcond : (tail.cut limit offset headEnd).cond = tail.cond := rfl
  rw [hcond]
  cases hc : compileCondition tail.cond t.columns with
  | none =>
    rw [hc] at h
    cases h
  | some compiled =>
    rw [hc] at h
    obtain ⟨groups, hgroups, h⟩ := bind_ok h
    exact ok_bind hgroups (groupedLines_cut hnone hstart limit offset headEnd h)

theorem cut_one (hone : r.rows.length = 1) (limit : Option Nat) (offset : Nat) :
    (if limit = some 0 ∨ 0 < offset then { r with rows := [] } else r) = r.cut limit offset := by
  obtain ⟨columns, rows, affected, message⟩ := r
  obtain ⟨row, rfl⟩ := List.length_eq_one_iff.1 hone
  unfold Result.cut
  cases offset with
  | succ m =>
    rw [if_pos (Or.inr (Nat.succ_pos m))]
    cases limit <;> simp [takeUpTo]
  | zero =>
    cases limit with
    | none => simp [takeUpTo]
    | some k => cases k <;> simp [takeUpTo]

end Others

/-! ## Queries -/

/-- The keys that a plain query collects if it scans `order`. -/
def scanned (selectExpr : Bytes) (distinct : Bool) (tail : SelectTail) (t : Table) : List Bytes :=
  let q : Query := ⟨t.selectNames selectExpr, distinct, tail⟩
  if tail.groupBy = [] ∧ aggregateKind selectExpr = none ∧
      (∀ name ∈ t.selectNames selectExpr, hasColumn t.columns name = true) ∧ t.badOrder tail =
        false then
    match t.path q, t.compileFor q (t.termFor q) with
    | .order, .ok compiled => t.candidates q compiled
    | _, _ => []
  else []

/-- A scan of `order` for DISTINCT or ordered rows that finds one and is asked for none. -/
def AsksForNone (selectExpr : Bytes) (distinct : Bool) (tail : SelectTail) (t : Table) : Prop :=
  tail.limit = some 0 ∧ tail.offset = 0 ∧ (distinct = true ∨ tail.orderColumn ≠ []) ∧
    t.scanned selectExpr distinct tail ≠ []

/-- ORDER BY selects the best of rows that are not all alike and whose cells are not ordered. -/
def SelectsUnordered (selectExpr : Bytes) (distinct : Bool) (tail : SelectTail) (t : Table) :
    Prop :=
  tail.orderColumn ≠ [] ∧ distinct = false ∧
    (∃ k, tail.limit = some k ∧ 0 < k ∧
      k + tail.offset < (t.scanned selectExpr distinct tail).length) ∧
    ¬Orders (rankBefore tail.descending)
      (t.orderEntries tail.orderColumn (t.scanned selectExpr distinct tail)) ∧
    ∃ a ∈ t.scanned selectExpr distinct tail, ∃ b ∈ t.scanned selectExpr distinct tail,
      t.lineOf (t.selectNames selectExpr) a ≠ t.lineOf (t.selectNames selectExpr) b

section Queries

variable {env : Env} {t : Table} {r : Result} {selectExpr : Bytes} {tail : SelectTail}
  {distinct : Bool}
  {limit : Option Nat} {offset headEnd : Nat}

theorem scanned_eq (hprojects : t.Projects selectExpr tail) (hbad : t.badOrder tail = false)
    (hpath : t.path ⟨t.selectNames selectExpr, distinct, tail⟩ = .order)
    (hfor : t.compileFor ⟨t.selectNames selectExpr, distinct, tail⟩
      (t.termFor ⟨t.selectNames selectExpr, distinct, tail⟩) = .ok compiled) :
    t.scanned selectExpr distinct tail = t.candidates ⟨t.selectNames selectExpr, distinct, tail⟩
      compiled := by
  unfold scanned
  rw [if_pos ⟨hprojects.1, hprojects.2.1, hprojects.2.2, hbad⟩, hpath, hfor]

theorem scanned_ne_nil (h : t.scanned selectExpr distinct tail ≠ []) :
    t.Projects selectExpr tail ∧ t.badOrder tail = false ∧
      t.path ⟨t.selectNames selectExpr, distinct, tail⟩ = .order ∧
      ∃ compiled, t.compileFor ⟨t.selectNames selectExpr, distinct, tail⟩
        (t.termFor ⟨t.selectNames selectExpr, distinct, tail⟩) = .ok compiled := by
  unfold scanned at h
  simp only at h
  split at h
  · next hplain =>
    refine ⟨⟨hplain.1, hplain.2.1, hplain.2.2.1⟩, hplain.2.2.2, ?_⟩
    split at h
    · next compiled hpath hfor => exact ⟨hpath, compiled, hfor⟩
    · exact absurd rfl h
  · exact absurd rfl h

theorem length_candidates_lt (hcount : t.Countable) (q : Query) (compiled : CompiledCondition) :
    (t.candidates q compiled).length < 2 ^ 63 - 1 := by
  have hle := length_listed_le
    (fun c key => (takeKey_grow (t := t) (q := q) compiled c key).imp_right And.right) t.order {}
  exact Nat.lt_of_le_of_lt hle (by simpa [Collected.listed] using hcount.fits.1)

/-- The selection of the best candidates for LIMIT is one of rows that are alike, if it is one by
cells that are not ordered. -/
def BestAlike (q : Query) (limit : Option Nat) (offset : Nat) (keys : List Bytes) (t : Table) :
    Prop :=
  q.tail.orderColumn ≠ [] → q.distinct = false →
    (∃ k, limit = some k ∧ 0 < k ∧ k + offset < keys.length) →
    ¬Orders (rankBefore q.tail.descending) (t.orderEntries q.tail.orderColumn keys) →
    ∀ a ∈ keys, ∀ b ∈ keys, t.lineOf q.names a = t.lineOf q.names b

theorem gather_order_cut {q : Query} (henv : env.Live) (hsorts : env.sorter.Sorts)
    (hcount : t.Countable) (hlimit : limit ≠ some 0)
    (hfor : t.compileFor q (t.termFor q) = .ok compiled)
    (hbest : t.BestAlike q limit offset (t.candidates q compiled)) :
    t.gather env (q.cut limit offset headEnd) (rowCap 0 limit offset) .order =
      .ok (takeUpTo (rowCap 0 limit offset) (t.whole env q compiled .order)) := by
  have hcap : ∀ c, rowCap 0 limit offset = some c → 0 < c := rowCap_pos fun hboth => hlimit hboth.1
  have hwhole : t.whole env (q.cut limit offset headEnd) compiled .order =
      t.whole env q compiled .order :=
    whole_cut compiled limit offset headEnd .order
  rw [← hwhole]
  by_cases hsteady : t.Steady env (q.cut limit offset headEnd) (rowCap 0 limit offset)
      (t.candidates q compiled)
  · exact gather_takeUpTo henv hlimit hcap (Or.inr hfor) (fun _ _ h => nomatch h) fun _ => hsteady
  · -- the best rows are selected by cells that are not ordered, so all rows are alike
    simp only [Steady, Classical.not_imp, not_and] at hsteady
    obtain ⟨horder, hdistinct, ⟨c, hc, hlt⟩, hnot⟩ := hsteady
    have hsize := length_candidates_lt hcount q compiled
    have hk : ∃ k, limit = some k ∧ 0 < k ∧ k + offset < (t.candidates q compiled).length := by
      cases limit with
      | none => cases hc
      | some k =>
        have hsat : satAdd k offset = c := Option.some.inj hc
        have hpos : 0 < k := Nat.pos_of_ne_zero fun hzero => hlimit (congrArg some hzero)
        refine ⟨k, rfl, hpos, ?_⟩
        unfold satAdd at hsat
        split at hsat <;> omega
    have halike := hbest horder hdistinct hk (hnot hsorts)
    obtain ⟨key, hkey⟩ := List.exists_mem_of_length_pos (Nat.lt_of_le_of_lt (Nat.zero_le c) hlt)
    exact gather_alike henv hcap hfor fun a ha => halike a ha key hkey

theorem selectPlain_cut {q : Query} (henv : env.Live) (hsorts : env.sorter.Sorts)
    (hcount : t.Countable) (hnone : q.tail.limit = none) (hstart : q.tail.offset = 0)
    (hbucket : ∀ column value, t.path q ≠ .bucket column value)
    (hzero : ∀ compiled, t.path q = .order → t.compileFor q (t.termFor q) = .ok compiled →
      limit = some 0 → offset = 0 → q.distinct = true ∨ q.tail.orderColumn ≠ [] →
      t.candidates q compiled = [])
    (hbest : ∀ compiled, t.path q = .order → t.compileFor q (t.termFor q) = .ok compiled →
      t.BestAlike q limit offset (t.candidates q compiled))
    (h : t.selectPlain env q = .ok r) :
    t.selectPlain env (q.cut limit offset headEnd) = .ok (r.cut limit offset) := by
  have hpath : t.path (q.cut limit offset headEnd) = t.path q := rfl
  rw [selectPlain_eq] at h
  rw [selectPlain_eq, hpath]
  by_cases hlimit : limit = some 0
  · subst hlimit
    exact selectBy_cut_zero henv hbucket
      (fun compiled horder hoffset hwhy hfor => hzero compiled horder hfor rfl hoffset hwhy) h
  · have huncapped : ∀ env : Env, env.Live → env.sorter.Sorts → env.maxRows = 0 →
        t.selectBy env q (t.path q) = .ok r →
        t.selectBy env (q.cut limit offset headEnd) (t.path q) = .ok (r.cut limit offset) := by
      intro env henv hsorts hrows h
      refine selectBy_cut henv hrows hcount hnone hstart (fun compiled hfor => ?_) h
      by_cases horder : t.path q = .order
      · have hfor := hfor.resolve_left fun ⟨_, hk⟩ => by rw [horder] at hk; cases hk
        rw [horder]
        exact gather_order_cut henv hsorts hcount hlimit hfor (hbest compiled horder hfor)
      · rw [← whole_cut compiled limit offset headEnd]
        exact gather_takeUpTo henv hlimit (rowCap_pos fun hboth => hlimit hboth.1) hfor hbucket
          fun hcontra => absurd hcontra horder
    cases hm : env.maxRows with
    | zero => exact huncapped env henv hsorts hm h
    | succ m =>
      -- what is shown of a result that the row cap permits, it permits
      have henv' : ({ env with maxRows := m + 1 } : Env) = env := by rw [← hm]
      have hpos := Nat.succ_pos m
      have hcaps : ∀ q, CapsTo (m + 1) _ _ := fun q' => selectBy_capsTo (q := q') henv hpos
        fun compiled => hcount.length_whole_lt env q' compiled (t.path q)
      rw [henv'] at hcaps
      obtain ⟨hok, hle⟩ := (hcaps q).of_ok h
      exact (hcaps (q.cut limit offset headEnd)).fits _
        (huncapped { env with maxRows := 0 } henv hsorts rfl hok)
        (Nat.le_trans (length_cut_le r limit offset) hle)

theorem projects_of_ok (hgroup : tail.groupBy = []) (hagg : aggregateKind selectExpr = none)
    (h : t.selectTable env selectExpr distinct tail = .ok r) :
    t.Projects selectExpr tail ∧ t.badOrder tail = false := by
  unfold selectTable at h
  rw [if_neg (not_not.2 hgroup)] at h
  split at h
  · cases h
  · next horder =>
    rw [hagg] at h
    simp only at h
    split at h
    · cases h
    · next hnames =>
      refine ⟨⟨hgroup, hagg, fun name hname => ?_⟩, ?_⟩
      · simpa using List.find?_eq_none.1 hnames name hname
      · cases hbad : t.badOrder tail with
        | false => rfl
        | true =>
          unfold badOrder at hbad
          rw [Bool.and_eq_true, decide_eq_true_eq] at hbad
          exact absurd hbad horder

/-- **LIMIT and OFFSET cut the result of a query.** -/
theorem selectTable_cut (henv : env.Live) (hsorts : env.sorter.Sorts) (hcount : t.Countable)
    (hnone : tail.limit = none) (hstart : tail.offset = 0)
    (hindex : t.servedByIndex selectExpr tail = false)
    (hzero : ¬t.AsksForNone selectExpr distinct (tail.cut limit offset headEnd))
    (hbest : ¬t.SelectsUnordered selectExpr distinct (tail.cut limit offset headEnd))
    (h : t.selectTable env selectExpr distinct tail = .ok r) :
    t.selectTable env selectExpr distinct (tail.cut limit offset headEnd) =
      .ok (r.cut limit offset) := by
  by_cases hgroup : tail.groupBy = []
  · cases hagg : aggregateKind selectExpr with
    | none =>
      obtain ⟨hprojects, hbad⟩ := projects_of_ok hgroup hagg h
      have hprojects' : t.Projects selectExpr (tail.cut limit offset headEnd) := hprojects
      rw [selectTable_projects hprojects hbad] at h
      rw [selectTable_projects hprojects' hbad]
      have hscanned : ∀ compiled, t.path ⟨t.selectNames selectExpr, distinct, tail⟩ = .order →
          t.compileFor ⟨t.selectNames selectExpr, distinct, tail⟩
            (t.termFor ⟨t.selectNames selectExpr, distinct, tail⟩) = .ok compiled →
          t.scanned selectExpr distinct (tail.cut limit offset headEnd) =
            t.candidates ⟨t.selectNames selectExpr, distinct, tail⟩ compiled :=
        fun compiled hpath hfor => scanned_eq hprojects' hbad hpath hfor
      refine selectPlain_cut henv hsorts hcount hnone hstart ?_ ?_ ?_ h
      · intro column value hpath
        have hbucket : t.path ⟨[], false, tail⟩ = .bucket column value := hpath
        unfold servedByIndex at hindex
        rw [if_neg (not_not.2 hgroup), hagg] at hindex
        simp only [hbucket] at hindex
        cases hindex
      · intro compiled hpath hfor hlimit hoffset hwhy
        by_contra hsome
        exact hzero ⟨hlimit, hoffset, hwhy, by rwa [hscanned compiled hpath hfor]⟩
      · intro compiled hpath hfor horder hdistinct hk hnot a ha b hb
        by_contra hne
        rw [← hscanned compiled hpath hfor] at hk hnot ha hb
        exact hbest ⟨horder, hdistinct, hk, hnot, a, ha, b, hb, hne⟩
    | some kind =>
      unfold selectTable at h ⊢
      rw [if_neg (not_not.2 hgroup)] at h
      refine (if_neg (not_not.2 hgroup)).trans ?_
      split at h
      · cases h
      · next horder =>
        refine (if_neg horder).trans ?_
        rw [hagg] at h ⊢
        obtain ⟨r', hr, h⟩ := bind_ok h
        have hone := aggregateResult_rows hr
        have hsame : r' = r := by
          rw [hnone, hstart] at h
          exact Except.ok.inj h
        subst hsame
        exact ok_bind hr (congrArg Except.ok (cut_one hone limit offset))
  · unfold selectTable at h ⊢
    rw [if_pos hgroup] at h
    exact (if_pos hgroup).trans (groupedResult_cut hnone hstart limit offset headEnd h)

end Queries

/-! ## Where LIMIT does not cut the result -/

section Failures

variable {env : Env} {q : Query} {t : Table} {compiled : CompiledCondition}

theorem orderKeys_none (hkeys : keys ≠ []) (column : Bytes) (descending : Bool) :
    orderKeys env t keys column descending (some 0) = .error .panic := by
  obtain ⟨key, keys, rfl⟩ := List.exists_cons_of_ne_nil hkeys
  rfl

theorem gather_none (henv : env.Live) (hfor : t.compileFor q (t.termFor q) = .ok compiled)
    (hwhy : q.distinct = true ∨ q.tail.orderColumn ≠ []) (hsome : t.candidates q compiled ≠ []) :
    t.gather env q (some 0) .order = .error .panic ∨
      ∃ rows, t.gather env q (some 0) .order = .ok rows ∧ rows.length = 1 := by
  cases hdistinct : q.distinct with
  | true =>
    right
    rw [gather_distinct_zero hdistinct]
    obtain ⟨rows, hrows, hlen, -⟩ := gather_live henv (Or.inr Path.collects_order)
      (fun c (hc : some 1 = some c) => by cases hc; exact Nat.one_pos) (Or.inr hfor)
    refine ⟨rows, hrows, ?_⟩
    have hpos : 0 < (t.whole env q compiled .order).length := by
      rw [whole, length_arranged]
      exact List.length_pos_iff.2 hsome
    rw [hlen, takeUpTo, Option.elim_some, List.length_take]
    omega
  | false =>
    left
    rw [hdistinct] at hwhy
    have horder := hwhy.resolve_left Bool.false_ne_true
    obtain ⟨c, hloop, hkeys⟩ := loop_orderStep_ordered (t := t) henv (some 0) horder compiled
    have hpanic : t.orderedKeys env q (some 0) c.listed = .error .panic := by
      rw [orderedKeys, if_neg horder, henv .sort, hdistinct]
      exact orderKeys_none (by rwa [hkeys]) _ _
    rw [gather, hfor]
    show loopResult _ >>= _ = _
    rw [hloop]
    show t.orderedKeys env q (some 0) c.listed >>= _ = _
    rw [hpanic]
    rfl

open Classical in
/-- A sorter that exchanges two elements of the lists of one length that the comparison does not
order. -/
noncomputable def exchanging (n i j : Nat) : Sorter where
  sort less l :=
    if Orders less l then Sorter.merge.sort less l else if l.length = n then swap l i j else l
  perm less l := by
    split
    · exact Sorter.merge.perm less l
    · split
      · exact swap_perm l i j
      · exact List.Perm.refl l

theorem exchanging_sorts (n i j : Nat) : (exchanging n i j).Sorts := by
  intro α less l h
  unfold exchanging
  simp only [if_pos h]
  exact Sorter.merge_sorts less l h

theorem exchanging_of_length {n : Nat} (less : α → α → Bool) {l : List α} (h : l.length ≠ n)
    (i j i' j' : Nat) : (exchanging n i j).sort less l = (exchanging n i' j').sort less l := by
  unfold exchanging
  simp only [if_neg h]

theorem exchanging_unordered {less : α → α → Bool} {l : List α} (h : ¬Orders less l) (i j : Nat) :
    (exchanging l.length i j).sort less l = swap l i j := by
  unfold exchanging
  simp only [if_neg h, if_true]

theorem gather_exchanging {c n : Nat} (hfor : t.compileFor q (t.termFor q) = .ok compiled)
    (horder : q.tail.orderColumn ≠ []) (hdistinct : q.distinct = false) (hpos : 0 < c)
    (hlt : c < n) (hn : n = (t.candidates q compiled).length) (i j i' j' : Nat) :
    t.gather { sorter := exchanging n i j } q (some c) .order =
      t.gather { sorter := exchanging n i' j' } q (some c) .order := by
  have hlive : ∀ sorter : Sorter, ({ sorter := sorter } : Env).Live := fun _ _ => rfl
  have hcap : ∀ d, some c = some d → 0 < d := fun d hd => by cases hd; exact hpos
  obtain ⟨best, hbest, hlen, -⟩ := capEntries_total hcap q.tail.descending
    (t.orderEntries q.tail.orderColumn (t.candidates q compiled))
  have hshort : best.length ≠ n := by
    rw [hlen, takeUpTo, Option.elim_some, List.length_take]
    omega
  have hgather : ∀ sorter : Sorter, t.gather { sorter := sorter } q (some c) .order =
      .ok (t.materialize q (some c) (cutKeys q (some c)
        ((sorter.sort (rankBefore q.tail.descending) best).map (·.key)))) := by
    intro sorter
    obtain ⟨found, hloop, hkeys⟩ :=
      loop_orderStep_ordered (t := t) (hlive sorter) (some c) horder compiled
    have hordered : t.orderedKeys { sorter := sorter } q (some c) found.listed =
        .ok ((sorter.sort (rankBefore q.tail.descending) best).map (·.key)) := by
      rw [orderedKeys, if_neg horder, hkeys, hdistinct]
      exact ok_bind hbest rfl
    exact ok_bind hfor (ok_bind hloop (ok_bind hordered rfl))
  rw [hgather, hgather, exchanging_of_length _ hshort i j i' j']

theorem whole_exchanging (hnot : ¬Orders (rankBefore q.tail.descending)
      (t.orderEntries q.tail.orderColumn (t.candidates q compiled)))
    (horder : q.tail.orderColumn ≠ []) {i j : Nat} {key : Bytes}
    (hi : (t.candidates q compiled)[i]? = some key) (hj : j < (t.candidates q compiled).length) :
    (t.whole { sorter := exchanging (t.candidates q compiled).length i j } q compiled .order)[j]? =
      some (t.lineOf q.names key) := by
  have hlen := length_orderEntries (t := t) q.tail.orderColumn (t.candidates q compiled)
  have hlt : i < (t.candidates q compiled).length := (List.getElem?_eq_some_iff.1 hi).1
  have hsort := exchanging_unordered hnot i j
  rw [hlen] at hsort
  have hplace : (swap (t.orderEntries q.tail.orderColumn (t.candidates q compiled)) i j)[j]? =
      (t.orderEntries q.tail.orderColumn (t.candidates q compiled))[i]? := by
    rw [getElem?_swap (by rw [hlen]; exact hlt) (by rw [hlen]; exact hj), Equiv.swap_apply_right]
  have hentry : (t.orderEntries q.tail.orderColumn (t.candidates q compiled))[i]? =
      some ⟨key, t.orderValue q.tail.orderColumn key, i⟩ := by
    rw [orderEntries, List.getElem?_map, List.getElem?_zipIdx, hi]
    simp
  rw [whole, arranged, if_neg horder, sortedKeys, List.getElem?_map, List.getElem?_map,
    hsort, hplace, hentry]
  rfl

/-- Where the cells are not ordered and two rows differ, some sorter puts another row first than
LIMIT shows first. -/
theorem exists_exchanging {k offset : Nat} (headEnd : Nat)
    (hfor : t.compileFor q (t.termFor q) = .ok compiled)
    (horder : q.tail.orderColumn ≠ []) (hdistinct : q.distinct = false) (hpos : 0 < k)
    (hlt : k + offset < (t.candidates q compiled).length)
    (hnot : ¬Orders (rankBefore q.tail.descending)
      (t.orderEntries q.tail.orderColumn (t.candidates q compiled)))
    {a b : Bytes} (ha : a ∈ t.candidates q compiled) (hb : b ∈ t.candidates q compiled)
    (hne : t.lineOf q.names a ≠ t.lineOf q.names b) :
    ∃ sorter rows, sorter.Sorts ∧
      t.gather { sorter } (q.cut (some k) offset headEnd) (some (k + offset)) .order = .ok rows ∧
      rows[offset]? ≠ (t.whole { sorter } q compiled .order)[offset]? := by
  have hcap : ∀ c, some (k + offset) = some c → 0 < c := fun c hc => by cases hc; omega
  have hlive : ({ sorter := exchanging (t.candidates q compiled).length 0 0 } : Env).Live :=
    fun _ => rfl
  obtain ⟨rows, hrows, hlen, -⟩ := gather_live (t := t) (q := q.cut (some k) offset headEnd) hlive
    (Or.inr Path.collects_order) hcap (Or.inr hfor)
  have hlong : offset < rows.length := by
    rw [hlen, whole_cut, takeUpTo, Option.elim_some, List.length_take, whole, length_arranged]
    omega
  have hother : ∃ key ∈ t.candidates q compiled, t.lineOf q.names key ≠ rows[offset] := by
    by_cases heq : t.lineOf q.names a = rows[offset]
    · exact ⟨b, hb, fun heq' => hne (heq.trans heq'.symm)⟩
    · exact ⟨a, ha, heq⟩
  obtain ⟨key, hkey, hdiffers⟩ := hother
  obtain ⟨i, hi⟩ := List.mem_iff_getElem?.1 hkey
  refine ⟨exchanging (t.candidates q compiled).length i offset, rows,
    exchanging_sorts _ _ _, ?_, ?_⟩
  · rw [← hrows]
    exact gather_exchanging (q := q.cut (some k) offset headEnd) hfor horder hdistinct
      (hcap _ rfl) hlt rfl i offset 0 0
  · rw [whole_exchanging hnot horder hi (by omega), List.getElem?_eq_getElem hlong]
    exact fun heq => hdiffers (Option.some.inj heq).symm

end Failures

section Queries

variable {t : Table} {selectExpr : Bytes} {tail : SelectTail} {distinct : Bool} {limit : Option Nat}
  {offset headEnd : Nat}

theorem selectTable_scanned {env : Env} (henv : env.Live) (hrows : env.maxRows = 0)
    (hnone : tail.limit = none) (hstart : tail.offset = 0)
    (hsome : t.scanned selectExpr distinct (tail.cut limit offset headEnd) ≠ []) :
    ∃ compiled, t.compileFor ⟨t.selectNames selectExpr, distinct, tail⟩
        (t.termFor ⟨t.selectNames selectExpr, distinct, tail⟩) = .ok compiled ∧
      t.scanned selectExpr distinct (tail.cut limit offset headEnd) =
        t.candidates ⟨t.selectNames selectExpr, distinct, tail⟩ compiled ∧
      t.selectTable env selectExpr distinct tail = .ok
        { columns := t.selectNames selectExpr
          rows := t.whole env ⟨t.selectNames selectExpr, distinct, tail⟩ compiled .order } ∧
      t.selectTable env selectExpr distinct (tail.cut limit offset headEnd) =
        t.gather env (Query.cut ⟨t.selectNames selectExpr, distinct, tail⟩ limit offset headEnd)
          (rowCap 0 limit offset) .order >>=
        window 0 (Query.cut ⟨t.selectNames selectExpr, distinct, tail⟩ limit offset headEnd) := by
  obtain ⟨hprojects', hbad', hpath', compiled, hfor'⟩ := scanned_ne_nil hsome
  have hprojects : t.Projects selectExpr tail := hprojects'
  have hbad : t.badOrder tail = false := hbad'
  have hpath : t.path ⟨t.selectNames selectExpr, distinct, tail⟩ = .order := hpath'
  refine ⟨compiled, hfor', scanned_eq hprojects' hbad' hpath' hfor', ?_, ?_⟩
  · rw [selectTable_projects hprojects hbad, selectPlain_eq, hpath]
    exact selectBy_whole henv hnone hstart hrows (Or.inr hfor')
  · rw [selectTable_projects hprojects' hbad', selectPlain_eq, hpath', selectBy_gather, hrows]
    rfl

theorem cut_ne_of_asksForNone (hnone : tail.limit = none) (hstart : tail.offset = 0)
    (h : t.AsksForNone selectExpr distinct (tail.cut limit offset headEnd)) :
    ∃ r, t.selectTable {} selectExpr distinct tail = .ok r ∧
      t.selectTable {} selectExpr distinct (tail.cut limit offset headEnd) ≠ .ok
        (r.cut limit offset) := by
  obtain ⟨hlimit, hoffset, hwhy, hsome⟩ := h
  have hlimit : limit = some 0 := hlimit
  have hoffset : offset = 0 := hoffset
  subst hlimit hoffset
  have hlive : ({} : Env).Live := fun _ => rfl
  obtain ⟨compiled, hfor, hscanned, hall, hcut⟩ := selectTable_scanned hlive rfl hnone hstart hsome
  refine ⟨_, hall, ?_⟩
  rw [hcut]
  rw [hscanned] at hsome
  have hcap : rowCap 0 (some 0) 0 = some 0 := rfl
  rw [hcap]
  rcases gather_none (q := Query.cut ⟨t.selectNames selectExpr, distinct, tail⟩ (some 0) 0 headEnd)
    hlive hfor hwhy hsome with hpanic | ⟨rows, hrows, hone⟩
  · rw [hpanic]
    exact fun hcontra => nomatch hcontra
  · rw [hrows]
    intro hcontra
    have hwindow : window 0 _ rows = .ok _ := hcontra
    have hresult := congrArg (fun r => r.rows.length) (window_ok hwindow)
    obtain ⟨row, rfl⟩ := List.length_eq_one_iff.1 hone
    cases hresult

theorem cut_ne_of_selectsUnordered (hnone : tail.limit = none) (hstart : tail.offset = 0)
    (hcount : t.Countable)
    (h : t.SelectsUnordered selectExpr distinct (tail.cut limit offset headEnd)) :
    ∃ env : Env, env.Live ∧ env.sorter.Sorts ∧ ∃ r, t.selectTable env selectExpr distinct tail =
      .ok r ∧ t.selectTable env selectExpr distinct (tail.cut limit offset headEnd) ≠ .ok
        (r.cut limit offset) := by
  obtain ⟨horder, hdistinct, ⟨k, hlimit, hpos, hlt⟩, hnot, a, ha, b, hb, hne⟩ := h
  have hlimit : limit = some k := hlimit
  have hlt : k + offset < (t.scanned selectExpr distinct (tail.cut limit offset headEnd)).length :=
    hlt
  subst hlimit
  have hsome : t.scanned selectExpr distinct (tail.cut (some k) offset headEnd) ≠ [] :=
    List.ne_nil_of_mem ha
  have hlive : ∀ sorter : Sorter, ({ sorter := sorter } : Env).Live := fun _ _ => rfl
  obtain ⟨compiled, hfor, hscanned, -, -⟩ :=
    selectTable_scanned (hlive Sorter.merge) rfl hnone hstart hsome
  rw [hscanned] at hlt hnot ha hb
  have hsize := length_candidates_lt hcount ⟨t.selectNames selectExpr, distinct, tail⟩ compiled
  have hcap : rowCap 0 (some k) offset = some (k + offset) := by
    show some (satAdd k offset) = _
    unfold satAdd
    rw [if_neg (by omega)]
  obtain ⟨sorter, rows, hsorts, hgather, hfirst⟩ :=
    exists_exchanging headEnd hfor horder hdistinct hpos hlt hnot ha hb hne
  obtain ⟨compiled', hfor', -, hall, hcut⟩ :=
    selectTable_scanned (hlive sorter) rfl hnone hstart hsome
  obtain rfl : compiled = compiled' := Except.ok.inj (hfor.symm.trans hfor')
  refine ⟨{ sorter }, hlive sorter, hsorts, _, hall, ?_⟩
  rw [hcut, hcap, hgather]
  intro hcontra
  have hwindow : window 0 _ rows = .ok _ := hcontra
  have hrow := congrArg (fun r => r.rows[0]?) (window_ok hwindow)
  refine hfirst ?_
  calc rows[offset]? = (rows.drop offset)[0]? := by rw [List.getElem?_drop, Nat.add_zero]
    _ = ((List.drop offset _).take k)[0]? := hrow.symm
    _ = _ := by rw [List.getElem?_take, if_pos hpos, List.getElem?_drop, Nat.add_zero]

end Queries

end Table

/-- LIMIT and OFFSET show the part of the rows of a query, whatever the sorter, except where a scan
of `order` for DISTINCT or ordered rows is asked for none, and where ORDER BY selects the best rows
by cells that are not ordered. -/
theorem limit_offset_iff {db : Database} {s s' : Bytes} {t : Table} {selectExpr : Bytes}
    {distinct : Bool} {tail : SelectTail} {limit : Option Nat} {offset headEnd : Nat}
    (hread : db.Reads s t selectExpr distinct tail)
    (hread' : db.Reads s' t selectExpr distinct (tail.cut limit offset headEnd))
    (hnone : tail.limit = none) (hstart : tail.offset = 0) (hcount : t.Countable)
    (hindex : t.servedByIndex selectExpr tail = false) :
    (∀ env : Env, env.Live → env.sorter.Sorts → ∀ r, db.selectRows env s = .ok r →
      db.selectRows env s' = .ok { r with rows := takeUpTo limit (r.rows.drop offset) }) ↔
    ¬t.AsksForNone selectExpr distinct (tail.cut limit offset headEnd) ∧
      ¬t.SelectsUnordered selectExpr distinct (tail.cut limit offset headEnd) := by
  simp only [hread.selectRows, hread'.selectRows]
  constructor
  · intro hall
    refine ⟨fun hzero => ?_, fun hbest => ?_⟩
    · obtain ⟨r, hr, hne⟩ := Table.cut_ne_of_asksForNone hnone hstart hzero
      exact hne (hall {} (fun _ => rfl) Sorter.merge_sorts r hr)
    · obtain ⟨env, henv, hsorts, r, hr, hne⟩ :=
        Table.cut_ne_of_selectsUnordered hnone hstart hcount hbest
      exact hne (hall env henv hsorts r hr)
  · rintro ⟨hzero, hbest⟩ env henv hsorts r hr
    exact Table.selectTable_cut henv hsorts hcount hnone hstart hindex hzero hbest hr

/-- Asked for no rows, ORDER BY panics and DISTINCT shows one. -/
theorem limit_zero_fails :
    twoRows.selectRows {} (str "SELECT v FROM t ORDER BY v LIMIT 0") = .error .panic ∧
    twoRows.selectRows {} (str "SELECT DISTINCT v FROM t") =
      .ok { columns := [str "v"], rows := [[.int 5], [.int 6]] } ∧
    twoRows.selectRows {} (str "SELECT DISTINCT v FROM t LIMIT 0") =
      .ok { columns := [str "v"], rows := [[.int 5]] } := by
  decide +kernel

theorem limit_one_offset_one : ∃ t e d tail limit offset headEnd,
    twoRows.Reads (str "SELECT v FROM t") t e d tail ∧
    twoRows.Reads (str "SELECT v FROM t LIMIT 1 OFFSET 1") t e d (tail.cut limit offset headEnd) ∧
    limit = some 1 ∧ offset = 1 ∧ t.Countable ∧ t.servedByIndex e tail = false ∧
    twoRows.selectRows {} (str "SELECT v FROM t LIMIT 1 OFFSET 1") =
      .ok { columns := [str "v"], rows := [[.int 6]] } := by
  obtain ⟨t, ht, hindex, hfrom, hfrom', hok⟩ : ∃ t, twoRows.table (str "t") = .ok t ∧
      t.servedByIndex (str "v") { headEnd := 1 } = false ∧
      twoRows.readsFrom (str "SELECT v FROM t") (str "t") (str "v") false { headEnd := 1 } ∧
      twoRows.readsFrom (str "SELECT v FROM t LIMIT 1 OFFSET 1") (str "t") (str "v") false
        (SelectTail.cut { headEnd := 1 } (some 1) 1 2) ∧
      twoRows.selectRows {} (str "SELECT v FROM t") =
        .ok { columns := [str "v"], rows := [[.int 5], [.int 6]] } := by
    decide +kernel
  have hreads := Database.reads_of_table ht hfrom
  have hreads' := Database.reads_of_table ht hfrom'
  have hcount := twoRows_countable ht
  have hcut := (limit_offset_iff hreads hreads' rfl rfl hcount hindex).2
    ⟨fun h => (nomatch h.1), fun h => h.1 rfl⟩ {} (fun _ => rfl) Sorter.merge_sorts _ hok
  exact ⟨t, _, _, _, some 1, 1, 2, hreads, hreads', rfl, rfl, hcount, hindex, hcut⟩

end SuperDB.Engine
