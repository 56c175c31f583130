import SuperDB.Engine.Verify.Reread

/-!
# The row cap

A server may cap the rows of a result, and LIMIT caps what a query collects. A scan collects row by
row and ends once it has as many as the cap; the best rows under ORDER BY are as many as the cap
admits.
-/

namespace SuperDB.Engine

open Go

variable {maxRows k : Nat} {descending : Bool}

/-! ## The cap -/

def emitCap (maxRows offset : Nat) : Nat := satAdd (satAdd maxRows offset) 1

theorem emitCap_cases (maxRows offset : Nat) :
    emitCap maxRows offset = maxRows + offset + 1 ∨ emitCap maxRows offset = 2 ^ 63 - 1 := by
  unfold emitCap satAdd
  split_ifs <;> omega

theorem rowCap_cases (h : 0 < maxRows) (limit : Option Nat) (offset : Nat) :
    rowCap maxRows limit offset = rowCap 0 limit offset ∨
      rowCap maxRows limit offset = some (emitCap maxRows offset) ∧
        ∀ c, rowCap 0 limit offset = some c → emitCap maxRows offset ≤ c := by
  unfold rowCap emitCap
  simp only [if_pos h, Nat.lt_irrefl, if_false]
  cases hl : limit.map (satAdd · offset) with
  | none => exact Or.inr ⟨rfl, fun c hc => by cases hc⟩
  | some c =>
    simp only
    split_ifs with hc
    · refine Or.inr ⟨rfl, fun d hd => ?_⟩
      cases hd
      omega
    · exact Or.inl rfl

theorem capResultRows_zero (r : Result) : capResultRows 0 r = .ok r :=
  if_neg fun h => absurd h.1 (Nat.lt_irrefl 0)

/-! ## The best rows under ORDER BY -/

theorem topKStep_length {h h' : List OrderEntry} {e : OrderEntry} (hk : h.length ≤ k)
    (hstep : topKStep k descending h e = .ok h') : h'.length = min (h.length + 1) k := by
  unfold topKStep at hstep
  simp only at hstep
  split_ifs at hstep with hlt
  · cases hstep
    rw [length_heapPush]
    omega
  · cases h with
    | nil => cases hstep
    | cons root l =>
      simp only [List.length_cons] at hk hlt ⊢
      simp only at hstep
      split_ifs at hstep
      · cases hstep
        rw [length_heapPush, length_heapPop, List.length_cons]
        omega
      · cases hstep
        rw [List.length_cons]
        omega

theorem topKEntries_length {entries h h' : List OrderEntry} (hk : h.length ≤ k)
    (hfold : entries.foldlM (topKStep k descending) h = .ok h') :
    h'.length = min (h.length + entries.length) k := by
  induction entries generalizing h with
  | nil =>
    cases hfold
    simp only [List.length_nil]
    omega
  | cons e entries ih =>
    rw [List.foldlM_cons] at hfold
    obtain ⟨h₁, hstep, hrest⟩ := bind_ok hfold
    have hlen := topKStep_length hk hstep
    rw [ih (by omega) hrest, hlen, List.length_cons]
    omega

theorem capEntries_ok {entries entries' : List OrderEntry}
    (h : capEntries entries (some k) descending = .ok entries') :
    entries'.length = min entries.length k ∧ (entries.length ≤ k → entries' = entries) := by
  unfold capEntries at h
  simp only at h
  split_ifs at h with hlt
  · have hlen := topKEntries_length (h := []) (Nat.zero_le k) h
    simp only [List.length_nil, Nat.zero_add] at hlen
    exact ⟨hlen, fun hle => by omega⟩
  · cases h
    exact ⟨by omega, fun _ => rfl⟩

/-- A computation whose steps succeed succeeds. -/
theorem ok_bind {ε α β : Type} {x : Except ε α} {f : α → Except ε β} {a : α} {b : β}
    (hx : x = .ok a) (hf : f a = .ok b) : x >>= f = .ok b := by
  rw [hx]
  exact hf

namespace Table

/-! ## Ordering and projecting the collected keys -/

section Finish

variable {env : Env} {q : Query} {t : Table} {keys : List Bytes}

def cutKeys (q : Query) (cap : Option Nat) (keys : List Bytes) : List Bytes :=
  match cap with
  | some c => if q.distinct then keys else keys.take c
  | none => keys

theorem finishKeys_eq (cap : Option Nat) :
    t.finishKeys env q cap keys = (t.orderedKeys env q cap keys >>= fun keys =>
      capResultRows env.maxRows
        { columns := q.names
          rows := applyOffset q.tail.offset (t.materialize q cap (cutKeys q cap keys)) }) := by
  cases cap <;> rfl

theorem materialize_cutKeys (cap : Option Nat) (hcap : ∀ c, cap = some c → 1 ≤ c) :
    t.materialize q cap (cutKeys q cap keys) =
      match cap with
      | some c => (keys.map fun key => t.lineOf q.names key).take c
      | none => keys.map fun key => t.lineOf q.names key := by
  cases cap with
  | none => rfl
  | some c =>
    have hc := hcap c rfl
    simp only [materialize, cutKeys, Nat.max_eq_left hc]
    split
    · rfl
    · rw [List.map_take, List.take_take, Nat.min_self]

end Finish

/-! ## The scans -/

section Scan

variable {q : Query} {t : Table}

/-- Whether a scan of the fast array takes a row, and what it has collected then. -/
def takesFast (q : Query) (term : Option FastTerm) (compiled : CompiledCondition) (t : Table)
    (row : FastRow) : Bool :=
  row.key ≠ [] && t.fastMatches q term compiled row.values

def takeFast (q : Query) (term : Option FastTerm) (compiled : CompiledCondition) (t : Table)
    (c : Collected (List Value)) (row : FastRow) : Collected (List Value) :=
  let line := selectedFastValues row.values q.names t.fastColumns
  if t.takesFast q term compiled row then c.add q.distinct (rowProjectionKey line) line else c

theorem fastScanStep_eq (cap : Option Nat) (term : Option FastTerm)
    (compiled : CompiledCondition) :
    t.fastScanStep q cap term compiled =
      cappedRound (fun _ row => t.takesFast q term compiled row) (t.takeFast q term compiled)
        (fun c => c.items.length) cap := by
  funext c row
  unfold fastScanStep cappedRound takeFast
  by_cases hkey : row.key = []
  · simp [takesFast, hkey]
  · by_cases hm : t.fastMatches q term compiled row.values = true
    · have htakes : t.takesFast q term compiled row = true := by simp [takesFast, hkey, hm]
      simp only [if_neg hkey, hm, htakes, Bool.not_true, Bool.false_eq_true, if_false, if_true,
        Bool.true_and]
      rfl
    · simp [takesFast, hkey, hm]

/-- Whether a scan of `order` takes a key, and what it has collected then. -/
def takesKey (q : Query) (compiled : CompiledCondition) (t : Table) (c : Collected Bytes)
    (key : Bytes) : Bool :=
  (t.rows[key]?).any fun row => (q.tail.cond = [] || compiled.matchesMap row) &&
    (t.addKey q key c).items.length ≠ c.items.length

def takeKey (q : Query) (compiled : CompiledCondition) (t : Table) (c : Collected Bytes)
    (key : Bytes) : Collected Bytes :=
  if t.takesKey q compiled c key then t.addKey q key c else c

theorem orderStep_eq (horder : q.tail.orderColumn = []) (cap : Option Nat)
    (compiled : CompiledCondition) :
    t.orderStep q cap compiled =
      cappedRound (t.takesKey q compiled) (t.takeKey q compiled) (fun c => c.items.length) cap := by
  funext c key
  unfold orderStep cappedRound takeKey
  cases hrow : t.rows[key]? with
  | none => simp [takesKey, hrow]
  | some row =>
    by_cases hm : q.tail.cond ≠ [] ∧ (!compiled.matchesMap row) = true
    · have htakes : t.takesKey q compiled c key = false := by
        simp only [ne_eq, Bool.not_eq_true'] at hm
        simp [takesKey, hrow, hm.1, hm.2]
      simp [hm, htakes]
    · by_cases hsame : (t.addKey q key c).items.length = c.items.length
      · have htakes : t.takesKey q compiled c key = false := by simp [takesKey, hrow, hsame]
        simp [hsame, htakes]
      · have htakes : t.takesKey q compiled c key = true := by
          simp only [ne_eq, Bool.not_eq_true', not_and, Bool.not_eq_false] at hm
          by_cases hc : q.tail.cond = []
          · simp [takesKey, hrow, hsame, hc]
          · simp [takesKey, hrow, hsame, hm hc]
        simp only [if_neg hm, if_neg hsame, horder, htakes, true_and, if_true, Bool.true_and]
        rfl

theorem orderStep_ordered (horder : q.tail.orderColumn ≠ []) (cap : Option Nat)
    (compiled : CompiledCondition) :
    t.orderStep q cap compiled =
      cappedRound (fun _ _ => false) (t.takeKey q compiled) (fun c => c.items.length) none := by
  funext c key
  unfold orderStep cappedRound takeKey
  cases hrow : t.rows[key]? with
  | none => simp [takesKey, hrow]
  | some row =>
    by_cases hc : q.tail.cond = [] <;> by_cases hm : compiled.matchesMap row = true <;>
      by_cases hsame : (t.addKey q key c).items.length = c.items.length <;>
      simp [takesKey, hrow, hc, hm, hsame, horder]

theorem loopResult_ok {σ ε : Type} {p : σ × Option ε} {s : σ} (h : loopResult p = .ok s) :
    p = (s, none) := by
  obtain ⟨s', e⟩ := p
  cases e with
  | none =>
    cases h
    rfl
  | some e => cases h

end Scan

/-! ## Queries -/

/-- A table whose slices a Go `int` can index with one to spare. -/
def Fits (t : Table) : Prop := t.order.length < 2 ^ 63 - 1 ∧ t.fast.length < 2 ^ 63 - 1

end Table

end SuperDB.Engine
