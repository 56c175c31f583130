import SuperDB.Engine.Verify.FastRows
import SuperDB.Engine.Verify.Uncancelled

/-!
# The rows that a query gathers

A plain query gathers rows up to a cap, drops those of OFFSET and holds the rest against the row
cap. What it gathers under a cap are as many of the rows that it gathers without one as the cap
admits, and all of them if the cap admits that many.
-/

namespace SuperDB.Engine

open Go

namespace Table

/-! ## Gathering -/

def keyRows (q : Query) (key : Bytes) (t : Table) : List (List Value) :=
  match t.fastPos[key]? with
  | some i =>
    match t.fast[i]? with
    | some r => if r.key = [] then [] else [selectedFastValues r.values q.names t.fastColumns]
    | none => []
  | none =>
    match t.rows[key]? with
    | some row => [selectedValues row q.names]
    | none => []

def arrange (env : Env) (q : Query) (cap : Option Nat) (keys : List Bytes) (t : Table) :
    Except Fault (List (List Value)) := do
  let keys ← t.orderedKeys env q cap keys
  .ok (t.materialize q cap (cutKeys q cap keys))

/-- The rows that a plain query gathers under a cap, those of OFFSET included. -/
def gather (env : Env) (q : Query) (cap : Option Nat) (t : Table) :
    Path → Except Fault (List (List Value))
  | .key key => .ok (if q.tail.limit = some 0 then [] else t.keyRows q key)
  | .bucket column value => do
    let compiled ← t.compileFor q (t.termFor q)
    let c ← loopResult (rangeLoop env.scanTick (t.bucketStep q cap column (t.termFor q) compiled) 0
      (t.bucket env column value) {})
    t.arrange env q cap c.listed
  | .fast => do
    let compiled ← t.compileFor q (t.termFor q)
    if q.tail.limit = some 0 then .ok []
    else
      let c ← loopResult
        (rangeLoop env.scanTick (t.fastScanStep q cap (t.termFor q) compiled) 0 t.fast {})
      .ok c.listed
  | .order => do
    let compiled ← t.compileFor q (t.termFor q)
    let c ← loopResult (rangeLoop env.scanTick (t.orderStep q cap compiled) 0 t.order {})
    t.arrange env q cap c.listed

def window (maxRows : Nat) (q : Query) (rows : List (List Value)) : Except Fault Result :=
  capResultRows maxRows { columns := q.names, rows := applyOffset q.tail.offset rows }

section Gather

variable {env : Env} {q : Query} {t : Table} {cap : Option Nat}

theorem capResultRows_of_le {maxRows : Nat} {r : Result} (h : r.rows.length ≤ 1) :
    capResultRows maxRows r = .ok r := by
  refine if_neg ?_
  rintro ⟨hpos, hlarge⟩
  omega

theorem length_keyRows_le (key : Bytes) : (t.keyRows q key).length ≤ 1 := by
  unfold keyRows
  split
  · split
    · split_ifs <;> simp
    · simp
  · split <;> simp

theorem finishKeys_arrange (keys : List Bytes) :
    t.finishKeys env q cap keys = t.arrange env q cap keys >>= window env.maxRows q := by
  rw [finishKeys_eq, arrange, bind_assoc]
  rfl

theorem selectBy_gather (env : Env) (q : Query) (path : Path) :
    t.selectBy env q path =
      t.gather env q (rowCap env.maxRows q.tail.limit q.tail.offset) path >>=
        window env.maxRows q := by
  cases path with
  | key key =>
    have hle : (applyOffset q.tail.offset
        (if q.tail.limit = some 0 then [] else t.keyRows q key)).length ≤ 1 := by
      refine Nat.le_trans (List.length_drop.le.trans (Nat.sub_le _ _)) ?_
      split
      · exact Nat.zero_le 1
      · exact length_keyRows_le key
    exact (capResultRows_of_le
      (r := { columns := q.names, rows := applyOffset q.tail.offset _ }) hle).symm
  | bucket column value =>
    simp only [selectBy, gather, selectBucket, finishKeys_arrange, bind_assoc]
    rfl
  | fast =>
    simp only [selectBy, gather, selectFast, bind_assoc]
    congr 1
    funext compiled
    split
    · show _ = window env.maxRows q []
      have hnone : applyOffset q.tail.offset ([] : List (List Value)) = [] := List.drop_nil
      rw [window, hnone]
      exact (capResultRows_of_le (r := { columns := q.names }) (Nat.zero_le 1)).symm
    · rw [bind_assoc]
      rfl
  | order =>
    simp only [selectBy, gather, selectOrder, finishKeys_arrange, bind_assoc]
    rfl

end Gather

/-! ## What is gathered without a cap -/

def orderEntries (column : Bytes) (keys : List Bytes) (t : Table) : List OrderEntry :=
  keys.zipIdx.map fun p => ⟨p.1, t.orderValue column p.1, p.2⟩

def sortedKeys (env : Env) (q : Query) (keys : List Bytes) (t : Table) : List Bytes :=
  (env.sorter.sort (rankBefore q.tail.descending) (t.orderEntries q.tail.orderColumn keys)).map
    (·.key)

def arranged (env : Env) (q : Query) (keys : List Bytes) (t : Table) : List (List Value) :=
  (if q.tail.orderColumn = [] then keys else t.sortedKeys env q keys).map (t.lineOf q.names)

/-- Collects a candidate of an index bucket that meets the condition. -/
def takeCandidate (q : Query) (column : Bytes) (term : Option FastTerm)
    (compiled : CompiledCondition)
    (t : Table) (c : Collected Bytes) (key : Bytes) : Collected Bytes :=
  if t.bucketMatches column term compiled key then t.addKey q key c else c

def bucketCandidates (env : Env) (q : Query) (column value : Bytes) (compiled : CompiledCondition)
    (t : Table) : List Bytes :=
  ((t.bucket env column value).foldl (t.takeCandidate q column (t.termFor q) compiled) {}).listed

def whole (env : Env) (q : Query) (compiled : CompiledCondition) (t : Table) : Path →
    List (List Value)
  | .key key => t.keyRows q key
  | .bucket column value => t.arranged env q (t.bucketCandidates env q column value compiled)
  | .fast => (t.fast.foldl (t.takeFast q (t.termFor q) compiled) {}).listed
  | .order => t.arranged env q (t.candidates q compiled)

section Live

variable {env : Env} {q : Query} {t : Table} {cap : Option Nat} (henv : env.Live)

theorem length_takeUpTo_congr {α β : Type} {l : List α} {l' : List β} (h : l.length = l'.length)
    (cap : Option Nat) : (takeUpTo cap l).length = (takeUpTo cap l').length := by
  cases cap with
  | none => exact h
  | some c => simp only [takeUpTo, Option.elim_some, List.length_take, h]

theorem takeUpTo_of_le {α : Type} {l : List α} (h : ∀ c, cap = some c → l.length ≤ c) :
    takeUpTo cap l = l := by
  cases cap with
  | none => rfl
  | some c => exact List.take_of_length_le (h c rfl)

theorem takeCandidate_grow (column : Bytes) (term : Option FastTerm) (compiled : CompiledCondition)
    (c : Collected Bytes) (key : Bytes) :
    (t.takeCandidate q column term compiled c key).listed = c.listed ∨
      ∃ key', (t.takeCandidate q column term compiled c key).listed = c.listed ++ [key'] := by
  unfold takeCandidate
  split
  · rcases Collected.listed_add q.distinct (rowProjectionKey (t.lineOf q.names key)) key
      c with h | h
    · exact Or.inl h
    · exact Or.inr ⟨key, h⟩
  · exact Or.inl rfl

theorem bucketStep_eq (horder : q.tail.orderColumn = []) (column : Bytes) (term : Option FastTerm)
    (compiled : CompiledCondition) :
    t.bucketStep q cap column term compiled = fun c key =>
      if cap.any (· ≤ c.listed.length) then .stop c
      else .next (t.takeCandidate q column term compiled c key) := by
  funext c key
  have hlen : c.listed.length = c.items.length := List.length_reverse
  unfold bucketStep takeCandidate reached
  simp only [horder, true_and, hlen]
  split
  · rfl
  · split <;> rfl

theorem bucketStep_ordered (horder : q.tail.orderColumn ≠ []) (column : Bytes)
    (term : Option FastTerm) (compiled : CompiledCondition) :
    t.bucketStep q cap column term compiled = fun c key =>
      .next (t.takeCandidate q column term compiled c key) := by
  funext c key
  unfold bucketStep takeCandidate
  simp only [horder, false_and, if_false]
  split <;> rfl

include henv

theorem loop_bucketStep (cap : Option Nat) (column value : Bytes) (compiled : CompiledCondition) :
    ∃ c, loopResult (rangeLoop env.scanTick (t.bucketStep q cap column (t.termFor q) compiled) 0
        (t.bucket env column value) {}) = .ok c ∧
      c.listed = if q.tail.orderColumn = [] then
          takeUpTo cap (t.bucketCandidates env q column value compiled)
        else t.bucketCandidates env q column value compiled := by
  by_cases horder : q.tail.orderColumn = []
  · obtain ⟨c, hloop, hkeys⟩ := rangeLoop_takeUpTo_before henv.scanTick
      (takeCandidate_grow (t := t) (q := q) column (t.termFor q) compiled) 0
        (t.bucket env column value)
      (s := {}) fun c (_ : cap = some c) => Nat.zero_le c
    rw [if_pos horder, bucketStep_eq horder, hloop]
    exact ⟨c, rfl, hkeys⟩
  · rw [if_neg horder, bucketStep_ordered horder, rangeLoop_eq_foldl henv.scanTick]
    exact ⟨_, rfl, rfl⟩

theorem loop_orderStep_ordered (cap : Option Nat) (horder : q.tail.orderColumn ≠ [])
    (compiled : CompiledCondition) :
    ∃ c, loopResult (rangeLoop env.scanTick (t.orderStep q cap compiled) 0 t.order {}) = .ok c ∧
      c.listed = t.candidates q compiled := by
  rw [orderStep_ordered horder]
  have hnext : cappedRound (fun _ _ => false) (t.takeKey q compiled) (fun c => c.items.length)
      none = fun c key => (.next (t.takeKey q compiled c key) : Ctl (Collected Bytes) Fault) := rfl
  rw [hnext, rangeLoop_eq_foldl henv.scanTick]
  exact ⟨_, rfl, rfl⟩

end Live

/-! ## Arranging under a cap -/

section Arrange

variable {env : Env} {q : Query} {t : Table} {cap : Option Nat} {descending : Bool}

theorem length_orderEntries (column : Bytes) (keys : List Bytes) :
    (t.orderEntries column keys).length = keys.length := by
  rw [orderEntries, List.length_map, List.length_zipIdx]

theorem topKEntries_total {k : Nat} (hk : 0 < k) (entries : List OrderEntry) (h : List OrderEntry) :
    ∃ best, entries.foldlM (topKStep k descending) h = .ok best := by
  induction entries generalizing h with
  | nil => exact ⟨h, rfl⟩
  | cons e entries ih =>
    have hstep : ∃ h', topKStep k descending h e = .ok h' := by
      unfold topKStep
      simp only
      split_ifs with hroom
      · exact ⟨_, rfl⟩
      · cases h with
        | nil => exact absurd hk hroom
        | cons root rest =>
          simp only
          split_ifs
          · exact ⟨_, rfl⟩
          · exact ⟨_, rfl⟩
    obtain ⟨h', hstep⟩ := hstep
    rw [List.foldlM_cons, hstep]
    exact ih h'

theorem capEntries_total (hcap : ∀ c, cap = some c → 0 < c) (descending : Bool)
    (entries : List OrderEntry) :
    ∃ best, capEntries entries cap descending = .ok best ∧
      best.length = (takeUpTo cap entries).length ∧
      ((∀ c, cap = some c → entries.length ≤ c) → best = entries) := by
  cases cap with
  | none => exact ⟨entries, rfl, rfl, fun _ => rfl⟩
  | some k =>
    have hok : ∃ best, capEntries entries (some k) descending = .ok best := by
      unfold capEntries
      simp only
      split_ifs
      · exact topKEntries_total (hcap k rfl) entries []
      · exact ⟨_, rfl⟩
    obtain ⟨best, hbest⟩ := hok
    obtain ⟨hlen, hall⟩ := capEntries_ok hbest
    refine ⟨best, hbest, ?_, fun h => hall (h k rfl)⟩
    rw [hlen, takeUpTo, Option.elim_some, List.length_take, Nat.min_comm]

theorem orderedKeys_live (henv : env.Live) (horder : q.tail.orderColumn ≠ [])
    (hcap : ∀ c, cap = some c → 0 < c) (keys : List Bytes) :
    ∃ keys', t.orderedKeys env q cap keys = .ok keys' ∧
      (takeUpTo cap keys').length = (takeUpTo cap keys).length ∧
      ((q.distinct = true ∨ ∀ c, cap = some c → keys.length ≤ c) →
        keys' = t.sortedKeys env q keys) := by
  have hpos : ∀ c, (if q.distinct then none else cap) = some c → 0 < c := by
    intro c hc
    split at hc
    · cases hc
    · exact hcap c hc
  obtain ⟨best, hbest, hlen, hall⟩ := capEntries_total hpos q.tail.descending
    (t.orderEntries q.tail.orderColumn keys)
  refine ⟨(env.sorter.sort (rankBefore q.tail.descending) best).map (·.key), ?_, ?_, fun hwhy => ?_⟩
  · unfold orderedKeys
    rw [if_neg horder, henv .sort]
    exact ok_bind hbest rfl
  · have hsize : (takeUpTo cap best).length = (takeUpTo cap keys).length := by
      split at hlen
      · exact length_takeUpTo_congr (hlen.trans (length_orderEntries _ keys)) cap
      · rw [length_takeUpTo_congr hlen, takeUpTo_takeUpTo]
        exact length_takeUpTo_congr (length_orderEntries _ keys) cap
    rw [← hsize]
    refine length_takeUpTo_congr ?_ cap
    rw [List.length_map, (env.sorter.perm _ _).length_eq]
  · rw [sortedKeys, hall]
    intro c hc
    rw [length_orderEntries]
    split at hc
    · cases hc
    · next hdistinct => exact hwhy.resolve_left hdistinct c hc

/-- **As many rows are arranged as the cap admits, and all of them if it admits that many.** -/
theorem arrange_live (henv : env.Live) (hcap : ∀ c, cap = some c → 0 < c) (keys : List Bytes) :
    ∃ rows, t.arrange env q cap keys = .ok rows ∧ rows.length = (takeUpTo cap keys).length ∧
      ((∀ c, cap = some c → keys.length ≤ c) → rows = t.arranged env q keys) := by
  have hlines : ∀ keys', t.materialize q cap (cutKeys q cap keys') =
      takeUpTo cap (keys'.map (t.lineOf q.names)) := by
    intro keys'
    rw [materialize_cutKeys cap hcap]
    cases cap <;> rfl
  unfold arrange arranged
  by_cases horder : q.tail.orderColumn = []
  · refine ⟨takeUpTo cap (keys.map (t.lineOf q.names)), ?_, ?_, fun hfits => ?_⟩
    · rw [orderedKeys, if_pos horder, ← hlines]
      rfl
    · exact length_takeUpTo_congr (List.length_map _) cap
    · rw [if_pos horder, takeUpTo_of_le]
      simpa using hfits
  · obtain ⟨keys', hkeys, hlen, hall⟩ := orderedKeys_live (t := t) henv horder hcap keys
    refine ⟨takeUpTo cap (keys'.map (t.lineOf q.names)), ?_, ?_, fun hfits => ?_⟩
    · rw [← hlines]
      exact ok_bind hkeys rfl
    · rw [← hlen]
      exact length_takeUpTo_congr (List.length_map _) cap
    · have hsorted := hall (Or.inr hfits)
      have hsize : keys'.length = keys.length := by
        rw [hsorted, sortedKeys, List.length_map, (env.sorter.perm _ _).length_eq,
          length_orderEntries]
      rw [if_neg horder, ← hsorted, takeUpTo_of_le]
      intro c hc
      rw [List.length_map, hsize]
      exact hfits c hc

end Arrange

/-! ## Gathering under a cap -/

section Capped

variable {env : Env} {q : Query} {t : Table} {cap : Option Nat} {compiled : CompiledCondition}

theorem length_arranged (keys : List Bytes) : (t.arranged env q keys).length = keys.length := by
  rw [arranged, List.length_map]
  split
  · rfl
  · rw [sortedKeys, List.length_map, (env.sorter.perm _ _).length_eq, length_orderEntries]

theorem arrange_collected (henv : env.Live) (hcap : ∀ c, cap = some c → 0 < c)
    {found keys : List Bytes}
    (hfound : found = if q.tail.orderColumn = [] then takeUpTo cap keys else keys) :
    ∃ rows, t.arrange env q cap found = .ok rows ∧
      rows.length = (takeUpTo cap (t.arranged env q keys)).length ∧
      ((∀ c, cap = some c → (t.arranged env q keys).length ≤ c) →
        rows = t.arranged env q keys) := by
  obtain ⟨rows, hrows, hlen, hall⟩ := arrange_live (t := t) (q := q) henv hcap found
  have hsize : (takeUpTo cap found).length = (takeUpTo cap keys).length := by
    rw [hfound]
    split
    · rw [takeUpTo_takeUpTo]
    · rfl
  refine ⟨rows, hrows, ?_, fun hfits => ?_⟩
  · rw [hlen, hsize]
    exact length_takeUpTo_congr (length_arranged keys).symm cap
  · rw [length_arranged] at hfits
    have hsame : found = keys := by
      rw [hfound]
      split
      · exact takeUpTo_of_le hfits
      · rfl
    rw [← hsame] at hfits ⊢
    exact hall hfits

theorem loop_orderStep_live (henv : env.Live) (hcap : ∀ c, cap = some c → 0 < c)
    (compiled : CompiledCondition) :
    ∃ c, loopResult (rangeLoop env.scanTick (t.orderStep q cap compiled) 0 t.order {}) = .ok c ∧
      c.listed = if q.tail.orderColumn = [] then takeUpTo cap (t.candidates q compiled)
        else t.candidates q compiled := by
  by_cases horder : q.tail.orderColumn = []
  · rw [if_pos horder]
    exact loop_orderStep henv horder hcap compiled
  · rw [if_neg horder]
    exact loop_orderStep_ordered henv cap horder compiled

/-- The paths that collect keys, also for LIMIT 0. -/
def Path.collects : Path → Bool
  | .key _ | .fast => false
  | .bucket _ _ | .order => true

theorem Path.collects_order : Path.order.collects = true := rfl

/-- **As many rows are gathered as the cap admits, and all of them if it admits that many.** -/
theorem gather_live (henv : env.Live) {path : Path}
    (hlimit : q.tail.limit ≠ some 0 ∨ path.collects = true)
    (hcap : ∀ c, cap = some c → 0 < c)
    (hfor : (∃ key, path = .key key) ∨ t.compileFor q (t.termFor q) = .ok compiled) :
    ∃ rows, t.gather env q cap path = .ok rows ∧
      rows.length = (takeUpTo cap (t.whole env q compiled path)).length ∧
      ((∀ c, cap = some c → (t.whole env q compiled path).length ≤ c) →
        rows = t.whole env q compiled path) := by
  cases path with
  | key key =>
    have hlimit := hlimit.resolve_right Bool.false_ne_true
    refine ⟨t.keyRows q key, congrArg Except.ok (if_neg hlimit), ?_, fun _ => rfl⟩
    rw [whole, takeUpTo_of_le]
    intro c hc
    have hle := length_keyRows_le (t := t) (q := q) key
    have hpos := hcap c hc
    omega
  | bucket column value =>
    have hfor := hfor.resolve_left fun ⟨_, h⟩ => by cases h
    obtain ⟨c, hloop, hkeys⟩ := loop_bucketStep (t := t) (q := q) henv cap column value compiled
    obtain ⟨rows, hrows, hspec⟩ := arrange_collected (t := t) henv hcap hkeys
    exact ⟨rows, ok_bind hfor (ok_bind hloop hrows), hspec⟩
  | fast =>
    have hlimit := hlimit.resolve_right Bool.false_ne_true
    have hfor := hfor.resolve_left fun ⟨_, h⟩ => by cases h
    obtain ⟨c, hloop, hitems⟩ := rangeLoop_takeUpTo henv.scanTick
      (takeFast_grow (t := t) (q := q) (t.termFor q) compiled) 0 t.fast (s := {}) hcap
    refine ⟨c.listed, ok_bind hfor ?_, congrArg List.length hitems, fun hfits => ?_⟩
    · rw [if_neg hlimit, fastScanStep_eq, Collected.length_items, hloop]
      rfl
    · rw [hitems]
      exact takeUpTo_of_le hfits
  | order =>
    have hfor := hfor.resolve_left fun ⟨_, h⟩ => by cases h
    obtain ⟨c, hloop, hkeys⟩ := loop_orderStep_live (t := t) (q := q) henv hcap compiled
    obtain ⟨rows, hrows, hspec⟩ := arrange_collected (t := t) henv hcap hkeys
    exact ⟨rows, ok_bind hfor (ok_bind hloop hrows), hspec⟩

theorem gather_invalid {f : Fault} (hfor : t.compileFor q (t.termFor q) = .error f) {path : Path}
    (hkey : ∀ key, path ≠ .key key) : t.gather env q cap path = .error f := by
  cases path with
  | key key => exact absurd rfl (hkey key)
  | bucket column value =>
    rw [gather, hfor]
    rfl
  | fast =>
    rw [gather, hfor]
    rfl
  | order =>
    rw [gather, hfor]
    rfl

end Capped

end Table

end SuperDB.Engine
