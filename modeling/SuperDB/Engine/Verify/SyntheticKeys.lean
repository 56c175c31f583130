import SuperDB.Engine.Verify.Insertion

/-!
# Synthetic keys

`nextSyntheticKeyLocked` counts up from `autoKey` until it meets a key that no row has. The counter
is a `uint64` that wraps around, it is not stored in a snapshot, and users may have rows under `#0`,
`#1`, … of their own from before the primary key was dropped. The loop still ends at a new key,
because a table has fewer than `2 ^ 64` rows. Elsewhere the counter is a natural number; the last
section shows that this makes no difference as long as it stays below `2 ^ 64`.
-/

namespace SuperDB.Engine

open Go

variable {fuel : Nat} {item : InsertRow}

/-! ## The loop -/

/-- The loop of `nextSyntheticKeyLocked` from a value of the counter, for at most `fuel` passes. -/
def syntheticLoop (rows : Map Row) : Nat → UInt64 → Option (Bytes × UInt64)
  | 0, _ => none
  | fuel + 1, n =>
    if syntheticKey n.toNat ∈ rows then syntheticLoop rows fuel (n + 1)
    else some (syntheticKey n.toNat, n + 1)

section Loop

variable {rows : Map Row} {fuel : Nat} {n n' : UInt64} {key : Bytes}

theorem syntheticLoop_some (h : syntheticLoop rows fuel n = some (key, n')) :
    key ∉ rows ∧ key ≠ [] := by
  induction fuel generalizing n with
  | zero => cases h
  | succ fuel ih =>
    simp only [syntheticLoop] at h
    split at h
    · exact ih h
    · next hnew =>
      cases h
      exact ⟨hnew, syntheticKey_ne_nil _⟩

theorem syntheticLoop_mono {fuel' : Nat} (hle : fuel ≤ fuel')
    (h : syntheticLoop rows fuel n = some (key, n')) :
    syntheticLoop rows fuel' n = some (key, n') := by
  induction fuel generalizing n fuel' with
  | zero => cases h
  | succ fuel ih =>
    cases fuel' with
    | zero => exact absurd hle (Nat.not_succ_le_zero fuel)
    | succ fuel' =>
      simp only [syntheticLoop] at h ⊢
      split at h
      · next htaken =>
        rw [if_pos htaken]
        exact ih (Nat.le_of_succ_le_succ hle) h
      · next hnew =>
        rw [if_neg hnew]
        exact h

theorem mem_of_syntheticLoop_none (h : syntheticLoop rows fuel n = none) {i : Nat} (hi : i < fuel) :
    syntheticKey (n + UInt64.ofNat i).toNat ∈ rows := by
  induction fuel generalizing n i with
  | zero => exact absurd hi (Nat.not_lt_zero i)
  | succ fuel ih =>
    simp only [syntheticLoop] at h
    split at h
    · next htaken =>
      cases i with
      | zero => simpa using htaken
      | succ i =>
        have := ih h (Nat.lt_of_succ_lt_succ hi)
        rwa [add_assoc, add_comm 1, ← UInt64.ofNat_one, ← UInt64.ofNat_add] at this
    · cases h

theorem syntheticLoop_ends (hsize : rows.size < 2 ^ 64) (n : UInt64) :
    ∃ key n', syntheticLoop rows (rows.size + 1) n = some (key, n') := by
  cases h : syntheticLoop rows (rows.size + 1) n with
  | some p => exact ⟨p.1, p.2, rfl⟩
  | none =>
    have hnodup : ((List.range (rows.size + 1)).map fun i =>
        syntheticKey (n + UInt64.ofNat i).toNat).Nodup := by
      refine List.Nodup.map_on (fun i hi j hj e => ?_) List.nodup_range
      have hij := add_left_cancel (UInt64.toNat_inj.1 (syntheticKey_injective e))
      have hsmall : ∀ a ∈ List.range (rows.size + 1), (UInt64.ofNat a).toNat = a := fun a ha =>
        UInt64.toNat_ofNat_of_lt' (Nat.lt_of_lt_of_le (List.mem_range.1 ha) hsize)
      rw [← hsmall i hi, hij, hsmall j hj]
    have hle := length_le_size hnodup fun k hk => by
      obtain ⟨i, hi, rfl⟩ := List.mem_map.1 hk
      exact mem_of_syntheticLoop_none h (List.mem_range.1 hi)
    simp at hle

end Loop

/-! ## INSERT -/

namespace Table

/-- `nextSyntheticKeyLocked` with a counter of 64 bits. -/
def nextSyntheticKey64 (fuel : Nat) (t : Table) : Option (Bytes × Table) :=
  (syntheticLoop t.rows fuel (UInt64.ofNat t.autoKey)).map fun p =>
    (p.1, { t with autoKey := p.2.toNat })

def storeRow (env : Env) (replace : Bool) (row : Row) (key : Bytes) (t : Table) : Table :=
  match (if replace then t.rows[key]? else none) with
  | some old => t.replaceRow key old row
  | none => t.appendRow env key row

def applyInsertRow64 (env : Env) (replace : Bool) (fuel : Nat) (t : Table) (item : InsertRow) :
    Option Table := do
  let p ← if item.key = [] then t.nextSyntheticKey64 fuel else some (item.key, t)
  some (p.2.storeRow env replace item.row p.1)

/-- `applyInsertRows` with a counter of 64 bits; each search for a key makes at most `fuel`
passes. -/
def applyInsertRows64 (env : Env) (rows : List InsertRow) (replace : Bool) (fuel : Nat)
    (t : Table) :
    Option (Except Fault Result × Table) :=
  match (if replace then none else (rangeLoop env.applyTick t.checkInsertRow 0 rows ∅).2) with
  | some f => some (.error f, t)
  | none =>
    let t := if 0 < t.dead then t.reclaimOrder env else t
    (rows.foldlM (applyInsertRow64 env replace fuel) t).map fun t =>
      (.ok { affected := rows.length }, t)

/-- Each row is stored under a key of its own that no row had, and every other row is as it was. -/
def Adds (rows : Map Row) (items : List InsertRow) (rows' : Map Row) : Prop :=
  ∃ keys : List Bytes, keys.Nodup ∧ (∀ k ∈ keys, k ∉ rows) ∧
    List.Forall₂ (fun k item => rows'[k]? = some item.row) keys items ∧
    ∀ k, k ∉ keys → rows'[k]? = rows[k]?

section Insert

variable {env : Env} {replace : Bool} {t : Table} {item : InsertRow} {items : List InsertRow}

theorem Adds.nil (rows : Map Row) : Adds rows [] rows :=
  ⟨[], List.nodup_nil, by simp, .nil, fun _ _ => rfl⟩

theorem Adds.cons {rows rows' : Map Row} {key : Bytes} (hnew : key ∉ rows)
    (h : Adds (rows.insert key item.row) items rows') : Adds rows (item :: items) rows' := by
  obtain ⟨keys, hnodup, hfresh, hstored, hothers⟩ := h
  simp only [Map.mem_insert, not_or] at hfresh
  have hkey : key ∉ keys := fun hk => (hfresh key hk).1 rfl
  refine ⟨key :: keys, List.nodup_cons.2 ⟨hkey, hnodup⟩, ?_, .cons ?_ hstored, fun k hk => ?_⟩
  · intro k hk
    rcases List.mem_cons.1 hk with rfl | hk
    · exact hnew
    · exact (hfresh k hk).2
  · rw [hothers key hkey, Map.get?_insert_self]
  · rw [List.mem_cons, not_or] at hk
    rw [hothers k hk.2, Map.get?_insert_of_ne (Ne.symm hk.1)]

theorem storeRow_rows (env : Env) (replace : Bool) (row : Row) (key : Bytes) (t : Table) :
    (t.storeRow env replace row key).rows = t.rows.insert key row := by
  unfold storeRow
  split
  · exact congrArg Table.rows (replaceRow_core t key _ row)
  · exact congrArg Table.rows (appendRow_core env t key row)

theorem applyInsertRow64_adds (env : Env) (replace : Bool) (hkey : item.key = [])
    (hsize : t.rows.size < 2 ^ 64) : ∃ key t', key ∉ t.rows ∧ t'.rows = t.rows.insert key item.row ∧
      ∀ fuel, t.rows.size < fuel → applyInsertRow64 env replace fuel t item = some t' := by
  obtain ⟨key, n, hloop⟩ := syntheticLoop_ends hsize (UInt64.ofNat t.autoKey)
  refine ⟨key, ({ t with autoKey := n.toNat } : Table).storeRow env replace item.row key,
    (syntheticLoop_some hloop).1, storeRow_rows .., fun fuel hfuel => ?_⟩
  have hnext : t.nextSyntheticKey64 fuel = some (key, { t with autoKey := n.toNat }) := by
    rw [nextSyntheticKey64, syntheticLoop_mono hfuel hloop]
    rfl
  rw [applyInsertRow64, if_pos hkey, hnext]
  rfl

theorem foldlM_applyInsertRow64_adds (env : Env) (replace : Bool)
    (hkeys : ∀ item ∈ items, item.key = [])
    (hsize : t.rows.size + items.length ≤ 2 ^ 64) : ∃ t', Adds t.rows items t'.rows ∧
      ∀ fuel, t.rows.size + items.length ≤ fuel →
        items.foldlM (applyInsertRow64 env replace fuel) t = some t' := by
  induction items generalizing t with
  | nil => exact ⟨t, .nil _, fun _ _ => rfl⟩
  | cons item items ih =>
    rw [List.length_cons] at hsize
    obtain ⟨key, u, hnew, hrows, hstep⟩ :=
      applyInsertRow64_adds env replace (hkeys item List.mem_cons_self)
        (by omega : t.rows.size < 2 ^ 64)
    have hgrown : u.rows.size = t.rows.size + 1 := by
      rw [hrows, Std.ExtTreeMap.size_insert, if_neg (by simpa using hnew)]
    obtain ⟨t', hadds, hrest⟩ := ih (fun i hi => hkeys i (List.mem_cons_of_mem _ hi))
      (by omega : u.rows.size + items.length ≤ 2 ^ 64)
    refine ⟨t', Adds.cons hnew (hrows ▸ hadds), fun fuel hfuel => ?_⟩
    rw [List.length_cons] at hfuel
    rw [List.foldlM_cons, hstep fuel (by omega)]
    exact hrest fuel (by omega)

theorem reclaimed_rows (env : Env) (t : Table) :
    (if 0 < t.dead then t.reclaimOrder env else t).rows = t.rows := by
  split
  · rw [← clearFast_rows, reclaimOrder_core]
    rfl
  · rfl

/-- **Synthetic keys are new.** The search for a key ends in any table, wherever its counter stands,
at a key that no row has. An INSERT into a table without a primary key is refused and leaves the
table alone, or stores each of its rows under a key of its own that no row had and leaves the other
rows alone; with a live context it is not refused. -/
theorem applyInsertRows_adds (t : Table) :
    (t.rows.size < 2 ^ 64 → ∃ key t', key ∉ t.rows ∧
      ∀ fuel, t.rows.size < fuel → t.nextSyntheticKey64 fuel = some (key, t')) ∧
    ∀ (env : Env) (items : List InsertRow) (replace : Bool), hasPrimaryColumn t.columns = false →
      (∀ item ∈ items, KeyedFor t.columns item) → t.rows.size + items.length ≤ 2 ^ 64 →
        ∃ r t', (∀ fuel, t.rows.size + items.length ≤ fuel →
            t.applyInsertRows64 env items replace fuel = some (r, t')) ∧
          ((∃ f, r = .error f) ∧ t' = t ∨
            r = .ok { affected := items.length } ∧ Adds t.rows items t'.rows) ∧
          (env.Live → ∃ result, r = .ok result) := by
  refine ⟨fun hsize => ?_, fun env items replace hkeyless hkeyed hsize => ?_⟩
  · obtain ⟨key, n, hloop⟩ := syntheticLoop_ends hsize (UInt64.ofNat t.autoKey)
    refine ⟨key, { t with autoKey := n.toNat }, (syntheticLoop_some hloop).1, fun fuel hfuel => ?_⟩
    rw [nextSyntheticKey64, syntheticLoop_mono hfuel hloop]
    rfl
  · have hnil : ∀ item ∈ items, item.key = [] := fun item hitem => (hkeyed item hitem).2 hkeyless
    have hrows := reclaimed_rows env t
    unfold applyInsertRows64
    cases hcheck : (if replace then none
        else (rangeLoop env.applyTick t.checkInsertRow 0 items ∅).2) with
    | some f =>
      refine ⟨.error f, t, fun _ _ => rfl, .inl ⟨⟨f, rfl⟩, rfl⟩, fun henv => ?_⟩
      -- rows without keys are no duplicates, so only the context can refuse them
      have hfresh : FreshKeys t.rows items :=
        ⟨fun item hitem hne => absurd (hnil item hitem) hne,
          List.pairwise_of_forall_mem_list fun a ha _ _ hne => absurd (hnil a ha) hne⟩
      have hpass : (rangeLoop env.applyTick t.checkInsertRow 0 items ∅).2 = none :=
        rangeLoop_checkInsertRow henv hfresh fun item hitem hne => absurd (hnil item hitem) hne
      rw [hpass, ite_self] at hcheck
      cases hcheck
    | none =>
      simp only
      generalize (if 0 < t.dead then t.reclaimOrder env else t) = u at hrows ⊢
      obtain ⟨t', hadds, hrun⟩ := foldlM_applyInsertRow64_adds env replace hnil (hrows ▸ hsize)
      refine ⟨_, t', fun fuel hfuel => ?_, .inr ⟨rfl, hrows ▸ hadds⟩, fun _ => ⟨_, rfl⟩⟩
      rw [hrun fuel (hrows ▸ hfuel)]
      rfl

/-- A table that lost its primary key and has a row under `#0`, where the counter stands. -/
def keyDropped : Database :=
  Database.runAll {} (script ["CREATE TABLE t (id TEXT PRIMARY KEY, v INT)",
    "INSERT INTO t VALUES ('#0', 1)", "ALTER TABLE t DROP COLUMN id"])

theorem applyInsertRows_adds_keyDropped : ∃ t, keyDropped.tables.get? (str "t") = some t ∧
    t.autoKey = 0 ∧ syntheticKey 0 ∈ t.rows ∧
    (∃ key t', key ∉ t.rows ∧ t.nextSyntheticKey64 2 = some (key, t')) ∧
    ∃ t', t.applyInsertRows64 {} [⟨[], ∅⟩, ⟨[], ∅⟩] false 3 = some (.ok { affected := 2 }, t') ∧
      Adds t.rows [⟨[], ∅⟩, ⟨[], ∅⟩] t'.rows := by
  have hvals : (keyDropped.tables.get? (str "t")).map (fun t => (t.autoKey,
      decide (syntheticKey 0 ∈ t.rows), t.rows.size, hasPrimaryColumn t.columns)) =
      some (0, true, 1, false) := by
    decide +kernel
  obtain ⟨t, ht, hvals⟩ := Option.map_eq_some_iff.1 hvals
  simp only [Prod.mk.injEq, decide_eq_true_eq] at hvals
  obtain ⟨hcounter, hzero, hsize, hkeyless⟩ := hvals
  have h := applyInsertRows_adds t
  obtain ⟨key, u, hnew, hnext⟩ := h.1 (by omega)
  obtain ⟨r, t', hrun, hcases, hlive⟩ := h.2 {} [⟨[], ∅⟩, ⟨[], ∅⟩] false hkeyless
    (by simp [KeyedFor, hkeyless]) (by rw [hsize]; decide)
  obtain ⟨result, rfl⟩ := hlive fun _ => rfl
  obtain ⟨hr, hadds⟩ := hcases.resolve_left fun ⟨⟨f, hf⟩, _⟩ => nomatch hf
  refine ⟨t, ht, hcounter, hzero, ⟨key, u, hnew, hnext 2 (by omega)⟩, t', ?_, hadds⟩
  rw [hrun 3 (by rw [hsize]; decide), hr]
  rfl

end Insert

/-! ## The counter as a natural number -/

section Counter

variable {env : Env} {replace : Bool} {t : Table}

theorem le_nextSyntheticFrom (rows : Map Row) (fuel n : Nat) :
    n ≤ nextSyntheticFrom rows fuel n := by
  induction fuel generalizing n with
  | zero => exact Nat.le_refl n
  | succ fuel ih =>
    simp only [nextSyntheticFrom]
    split
    · exact (Nat.le_succ n).trans (ih (n + 1))
    · exact Nat.le_refl n

theorem syntheticLoop_eq {rows : Map Row} {n : Nat}
    (hnew : syntheticKey (nextSyntheticFrom rows fuel n) ∉ rows)
    (hlt : nextSyntheticFrom rows fuel n + 1 < 2 ^ 64) :
    syntheticLoop rows (fuel + 1) (UInt64.ofNat n) =
      some (syntheticKey (nextSyntheticFrom rows fuel n),
        UInt64.ofNat (nextSyntheticFrom rows fuel n + 1)) := by
  induction fuel generalizing n with
  | zero =>
    have hn : (UInt64.ofNat n).toNat = n := UInt64.toNat_ofNat_of_lt' (Nat.lt_of_succ_lt hlt)
    simp only [nextSyntheticFrom] at hnew ⊢
    rw [syntheticLoop, hn, if_neg hnew, UInt64.ofNat_add]
    rfl
  | succ fuel ih =>
    have hle := le_nextSyntheticFrom rows (fuel + 1) n
    have hn : (UInt64.ofNat n).toNat = n :=
      UInt64.toNat_ofNat_of_lt' (Nat.lt_of_le_of_lt hle (Nat.lt_of_succ_lt hlt))
    rw [syntheticLoop, hn]
    simp only [nextSyntheticFrom] at hnew hlt ⊢
    split
    · next htaken =>
      rw [if_pos htaken] at hnew hlt
      rw [← UInt64.ofNat_one, ← UInt64.ofNat_add]
      exact ih hnew hlt
    · rw [UInt64.ofNat_add]
      rfl

theorem nextSyntheticKey64_eq (hlt : t.nextSyntheticKeyLocked.2.autoKey < 2 ^ 64)
    (hfuel : t.rows.size < fuel) : t.nextSyntheticKey64 fuel = some t.nextSyntheticKeyLocked := by
  have hloop := syntheticLoop_eq t.nextSyntheticKey_not_mem hlt
  have hcounter : (UInt64.ofNat t.nextSyntheticKeyLocked.2.autoKey).toNat =
      t.nextSyntheticKeyLocked.2.autoKey := UInt64.toNat_ofNat_of_lt' hlt
  rw [nextSyntheticKey64, syntheticLoop_mono hfuel hloop]
  show some (t.nextSyntheticKeyLocked.1, ({ t with
    autoKey := (UInt64.ofNat t.nextSyntheticKeyLocked.2.autoKey).toNat } : Table)) = _
  rw [hcounter]
  rfl

theorem storeRow_autoKey (env : Env) (replace : Bool) (row : Row) (key : Bytes) (t : Table) :
    (t.storeRow env replace row key).autoKey = t.autoKey := by
  rw [← clearFast_autoKey]
  unfold storeRow
  split
  · rw [replaceRow_core]
    rfl
  · rw [appendRow_core]
    rfl

theorem applyInsertRow_keyless (hkey : item.key = []) :
    applyInsertRow env replace t item =
      t.nextSyntheticKeyLocked.2.storeRow env replace item.row t.nextSyntheticKeyLocked.1 := by
  simp only [applyInsertRow, if_pos hkey]
  rfl

theorem applyInsertRow_keyed (hkey : item.key ≠ []) :
    applyInsertRow env replace t item = t.storeRow env replace item.row item.key := by
  simp only [applyInsertRow, if_neg hkey]
  rfl

theorem applyInsertRow_grows (env : Env) (replace : Bool) (t : Table) (item : InsertRow) :
    t.autoKey ≤ (applyInsertRow env replace t item).autoKey ∧
      (applyInsertRow env replace t item).rows.size ≤ t.rows.size + 1 := by
  by_cases hkey : item.key = []
  · rw [applyInsertRow_keyless hkey, storeRow_autoKey, storeRow_rows]
    exact ⟨(le_nextSyntheticFrom _ _ _).trans (Nat.le_succ _), Std.ExtTreeMap.size_insert_le⟩
  · rw [applyInsertRow_keyed hkey, storeRow_autoKey, storeRow_rows]
    exact ⟨Nat.le_refl _, Std.ExtTreeMap.size_insert_le⟩

theorem autoKey_le_foldl (env : Env) (replace : Bool) (t : Table) (items : List InsertRow) :
    t.autoKey ≤ (items.foldl (applyInsertRow env replace) t).autoKey := by
  induction items generalizing t with
  | nil => exact Nat.le_refl _
  | cons item items ih => exact (applyInsertRow_grows env replace t item).1.trans (ih _)

theorem applyInsertRow64_eq (hlt : (applyInsertRow env replace t item).autoKey < 2 ^ 64)
    (hfuel : t.rows.size < fuel) :
    applyInsertRow64 env replace fuel t item = some (applyInsertRow env replace t item) := by
  unfold applyInsertRow64
  by_cases hkey : item.key = []
  · rw [applyInsertRow_keyless hkey] at hlt ⊢
    rw [storeRow_autoKey] at hlt
    rw [if_pos hkey, nextSyntheticKey64_eq hlt hfuel]
    rfl
  · rw [applyInsertRow_keyed hkey, if_neg hkey]
    rfl

theorem foldlM_applyInsertRow64_eq {items : List InsertRow}
    (hlt : (items.foldl (applyInsertRow env replace) t).autoKey < 2 ^ 64)
    (hfuel : t.rows.size + items.length ≤ fuel) :
    items.foldlM (applyInsertRow64 env replace fuel) t =
      some (items.foldl (applyInsertRow env replace) t) := by
  induction items generalizing t with
  | nil => rfl
  | cons item items ih =>
    rw [List.length_cons] at hfuel
    have hsize := (applyInsertRow_grows env replace t item).2
    have hstep := Nat.lt_of_le_of_lt (autoKey_le_foldl env replace _ items) hlt
    rw [List.foldlM_cons, applyInsertRow64_eq hstep (by omega)]
    exact ih hlt (by omega)

theorem applyInsertRows64_eq {items : List InsertRow}
    (hlt : (t.applyInsertRows env items replace).2.autoKey < 2 ^ 64)
    (hfuel : t.rows.size + items.length ≤ fuel) :
    t.applyInsertRows64 env items replace fuel = some (t.applyInsertRows env items replace) := by
  unfold applyInsertRows at hlt ⊢
  unfold applyInsertRows64
  cases hcheck : (if replace then none
      else (rangeLoop env.applyTick t.checkInsertRow 0 items ∅).2) with
  | some f => rfl
  | none =>
    rw [hcheck] at hlt
    have hrows := reclaimed_rows env t
    generalize (if 0 < t.dead then t.reclaimOrder env else t) = u at hrows hlt ⊢
    simp only [foldlM_applyInsertRow64_eq hlt (hrows ▸ hfuel), Option.map_some]

/-- A table without a primary key whose second synthetic key is free again. -/
def keyless : Table :=
  ((Database.runAll {} (script ["CREATE TABLE t (v INT, s TEXT)",
    "INSERT INTO t VALUES (1, 'a'), (2, 'b'), (3, 'c')", "DELETE FROM t WHERE v = 2"])).tables[
      str "t"]?).getD { name := [], columns := [] }

def twoMore : List InsertRow :=
  [⟨[], ((∅ : Row).insert (str "v") (.int 4)).insert (str "s") (.text (str "d"))⟩,
    ⟨[], ((∅ : Row).insert (str "v") .null).insert (str "s") .null⟩]

theorem applyInsertRows64_eq_keyless : keyless.rows.size = 2 ∧
    (keyless.applyInsertRows {} twoMore false).2.autoKey = 5 ∧
    keyless.applyInsertRows64 {} twoMore false 4 =
      some (keyless.applyInsertRows {} twoMore false) := by
  have h : keyless.rows.size = 2 ∧ (keyless.applyInsertRows {} twoMore false).2.autoKey = 5 := by
    decide +kernel
  exact ⟨h.1, h.2, applyInsertRows64_eq (by rw [h.2]; decide) (by rw [h.1]; decide)⟩

end Counter

end Table

end SuperDB.Engine
