import SuperDB.Cluster.State
import SuperDB.Cluster.Verify.Directory

/-!
# Stale proposals

A node computes an operation from the directory that it has at the time, which may be behind the
log; the operation is committed later, between those of other nodes. The generations that it was
computed from fence it: an operation that has been overtaken is rejected as a whole. Numbers of
removed ranges are not used again. The two entries of a split are fenced one by one, though, and
between them the tables of the range that was split are assigned to a range that is gone.
-/

namespace SuperDB.Cluster

open Go Engine

variable {r : Range} {id : Nat}

theorem IdMap.get?_map {V W : Type} (f : Nat → V → W) (m : IdMap V) (id : Nat) :
    (m.map f)[id]? = (m[id]?).map (f id) := by
  rw [Std.ExtTreeMap.getElem?_map]

namespace RangeStore

variable {s s' s'' read : RangeStore} {op : RangeOp}

/-! ## Proposals -/

def seen (leaders : Nat → Bytes) (s : RangeStore) : RangeStore :=
  { s with ranges := s.ranges.map fun id r => { r with leader := leaders id } }

/-- The operations that the calls of a node propose if it reads this directory. The second operation
of a split assigns the tables that a later reading finds on the range, whatever these are. -/
inductive Proposes (s : RangeStore) : RangeOp → Prop
  | split (id : Nat) (r : Range) (splitKey : Bytes) : s.ranges[id]? = some r →
    Proposes s (splitOp r splitKey id)
  | parts (splitKey : Bytes) (left right : Range) (leftTables onParent : List Bytes) :
    s.childrenOf splitKey = [left, right] → Proposes s (partsOp leftTables onParent left right)
  | move (id : Nat) (r : Range) (replicas : List Bytes) : s.ranges[id]? = some r →
    Proposes s (moveOp r replicas id)
  | assign (table : Bytes) (id : Nat) (r : Range) : s.ranges[id]? = some r →
    Proposes s (assignOp r table id)
  | rebalance (voters : List Bytes) (leader : Bytes) : leader ≠ [] →
    s.unbalanced voters leader ≠ [] → Proposes s (rebalanceOp voters leader s)

/-- A log entry, with the directory that its proposer has read and the order in which the member
iterates over maps when it applies the entry. -/
structure Logged where
  order : IdOrder
  read : RangeStore
  op : RangeOp

def directory (log : List Logged) : RangeStore :=
  applyLog {} (log.map fun e => (e.order, e.op.wire))

/-- The logs of a cluster: the first entry creates the first range, and every other one is proposed
by a node that has applied the log up to some entry. -/
inductive Built (nodeID : Bytes) : List Logged → Prop
  | genesis (o : IdOrder) : Built nodeID [⟨o, {}, genesisOp nodeID⟩]
  | entry {log log₀ : List Logged} {op : RangeOp} (o : IdOrder) (leaders : Nat → Bytes) :
    Built nodeID log → log₀ <+: log → Proposes ((directory log₀).seen leaders) op →
    Built nodeID (log ++ [⟨o, (directory log₀).seen leaders, op⟩])

/-- The entry is not refused. -/
def Logged.Effective (e : Logged) (s : RangeStore) : Prop :=
  ∃ s', s.applyOp e.order e.op.wire = .ok s'

/-- The operation writes the range. -/
def Rewrites (op : RangeOp) (id : Nat) : Prop :=
  ∃ r ∈ op.ranges, r.id = id

/-- The operation removes or rewrites the range. -/
def Touches (op : RangeOp) (id : Nat) : Prop := id ∈ op.remove ∨ Rewrites op id

/-! ## How proposals are fenced -/

/-- What an operation changes is fenced with the generation that was read. -/
structure Guarded (read : RangeStore) (op : RangeOp) : Prop where
  rewrites : ∀ r ∈ op.ranges, r.id ≠ 0 → ∃ r₀ : Range, read.ranges[r.id]? = some r₀ ∧
    op.baseGenerations[r.id]? = some r₀.generation ∧ r.generation = r₀.generation + 1
  removes : ∀ id ∈ op.remove, ∃ r₀ : Range, read.ranges[id]? = some r₀ ∧
    op.baseGenerations[id]? = some r₀.generation
  assigns : ∀ (t : Bytes) (id : Nat), op.assign[t]? = some id →
    ∃ gen, op.baseGenerations[id]? = some gen
  splits : op.remove ≠ [] → op.assign = ∅ ∧ ∀ r ∈ op.ranges, r.id = 0
  unassigns : op.unassign = []

section Values

variable {P : Nat → Prop} {m : Map Nat}

def Values (P : Nat → Prop) (m : Map Nat) : Prop := ∀ (t : Bytes) (v : Nat), m[t]? = some v → P v

theorem values_empty : Values P ∅ := fun t v h => by simp at h

theorem Values.insert (h : Values P m) (k : Bytes) {v : Nat} (hv : P v) :
    Values P (m.insert k v) := by
  intro t w hw
  rw [Map.get?_insert] at hw
  split at hw
  · exact Option.some.inj hw ▸ hv
  · exact h t w hw

theorem Values.foldl {α : Type} {f : Map Nat → α → Map Nat} {l : List α} (h : Values P m)
    (hf : ∀ m, Values P m → ∀ a ∈ l, Values P (f m a)) : Values P (l.foldl f m) := by
  induction l generalizing m with
  | nil => exact h
  | cons a l ih =>
    exact ih (hf m h a List.mem_cons_self) fun m hm b hb => hf m hm b (List.mem_cons_of_mem _ hb)

theorem values_splitAssign (leftTables onParent : List Bytes) (left right : Range) :
    Values (fun id => id = left.id ∨ id = right.id)
      (splitAssign leftTables onParent left right) := by
  unfold splitAssign
  simp only
  refine Values.foldl (Values.foldl values_empty fun m hm t _ => hm.insert _ (Or.inl rfl))
    fun m hm t _ => ?_
  split
  · exact hm
  · exact hm.insert _ (Or.inr rfl)

theorem values_wire (h : Values P op.assign) : Values P op.wire.assign := by
  intro t v hv
  obtain ⟨t', -, ht'⟩ := Map.get?_wire hv
  exact h t' v ht'

end Values

theorem Guarded.wire (h : Guarded read op) : Guarded read op.wire where
  rewrites := by
    intro r hr hid
    obtain ⟨r', hr', rfl⟩ := List.mem_map.1 hr
    exact h.rewrites r' hr' hid
  removes := h.removes
  assigns := values_wire h.assigns
  splits := by
    intro hremove
    obtain ⟨hassign, hids⟩ := h.splits hremove
    refine ⟨?_, fun r hr => ?_⟩
    · unfold RangeOp.wire
      rw [hassign]
      rfl
    · obtain ⟨r', hr', rfl⟩ := List.mem_map.1 hr
      exact hids r' hr'
  unassigns := by
    unfold RangeOp.wire
    rw [h.unassigns]
    rfl

theorem get?_foldl_generations {l : List Range} (gen : Nat → Nat)
    (hl : ∀ r ∈ l, r.generation = gen r.id) (m : IdMap Nat) (id : Nat) (hid : ∃ r ∈ l, r.id = id) :
    (l.foldl (fun m r => m.insert r.id r.generation) m)[id]? = some (gen id) := by
  have hgeneral : ∀ (l : List Range) (m : IdMap Nat), (∀ r ∈ l, r.generation = gen r.id) →
      (∃ r ∈ l, r.id = id) ∨ m[id]? = some (gen id) →
      (l.foldl (fun m r => m.insert r.id r.generation) m)[id]? = some (gen id) := by
    intro l
    induction l with
    | nil =>
      rintro m - (⟨r, hr, -⟩ | hm)
      · exact absurd hr List.not_mem_nil
      · exact hm
    | cons a l ih =>
      intro m hl h
      rw [List.forall_mem_cons] at hl
      rw [List.foldl_cons]
      refine ih _ hl.2 ?_
      rw [IdMap.get?_insert]
      by_cases ha : a.id = id
      · rw [if_pos ha, hl.1, ha]
        exact Or.inr rfl
      · rw [if_neg ha]
        rcases h with ⟨r, hr, hrid⟩ | hm
        · rcases List.mem_cons.1 hr with rfl | hr
          · exact absurd hrid ha
          · exact Or.inl ⟨r, hr, hrid⟩
        · exact Or.inr hm
  exact hgeneral l m hl (Or.inl hid)

theorem Numbered.get?_of_mem (h : s.Numbered) (hr : r ∈ s.all) : s.ranges[r.id]? = some r := by
  obtain ⟨id, hid⟩ := RangeStore.mem_all.1 hr
  rw [(h.number id r hid).1, hid]

theorem Numbered.seen (h : s.Numbered) (leaders : Nat → Bytes) : (s.seen leaders).Numbered := by
  refine ⟨h.next, fun id r hr => ?_⟩
  rw [RangeStore.seen, IdMap.get?_map] at hr
  obtain ⟨r₀, hr₀, rfl⟩ := Option.map_eq_some_iff.1 hr
  exact h.number id r₀ hr₀

theorem Proposes.guarded (hs : s.Numbered) (h : s.Proposes op) : Guarded s op := by
  cases h with
  | split id r splitKey hr =>
    refine ⟨fun r' hr' hid => ?_, fun a ha => ?_, values_empty, fun _ => ⟨rfl, fun r' hr' => ?_⟩,
      rfl⟩
    · rcases List.mem_cons.1 hr' with rfl | hr'
      · exact absurd rfl hid
      · obtain rfl := List.mem_singleton.1 hr'
        exact absurd rfl hid
    · obtain rfl := List.mem_singleton.1 ha
      exact ⟨r, hr, by rw [splitOp, IdMap.get?_insert, if_pos rfl]⟩
    · rcases List.mem_cons.1 hr' with rfl | hr'
      · rfl
      · obtain rfl := List.mem_singleton.1 hr'
        rfl
  | parts splitKey left right leftTables onParent hchildren =>
    refine ⟨fun r hr => absurd hr List.not_mem_nil, fun a ha => absurd ha List.not_mem_nil,
      fun t id ht => ?_, fun hne => absurd rfl hne, rfl⟩
    rw [partsOp]
    simp only [IdMap.get?_insert]
    rcases values_splitAssign leftTables onParent left right t id ht with rfl | rfl
    · split
      · exact ⟨_, rfl⟩
      · exact ⟨_, if_pos rfl⟩
    · exact ⟨_, if_pos rfl⟩
  | move id r replicas hr =>
    have hid := (hs.number id r hr).1
    refine ⟨fun r' hr' _ => ?_, fun a ha => absurd ha List.not_mem_nil, values_empty,
      fun hne => absurd rfl hne, rfl⟩
    obtain rfl := List.mem_singleton.1 hr'
    refine ⟨r, by rw [hid, hr], ?_, rfl⟩
    rw [moveOp, IdMap.get?_insert, if_pos hid.symm]
  | assign table id r hr =>
    refine ⟨fun r hr => absurd hr List.not_mem_nil, fun a ha => absurd ha List.not_mem_nil,
      values_empty.insert _ ?_, fun hne => absurd rfl hne, rfl⟩
    exact ⟨_, by rw [assignOp, IdMap.get?_insert, if_pos rfl]⟩
  | rebalance voters leader _ _ =>
    refine ⟨fun r' hr' _ => ?_, fun a ha => absurd ha List.not_mem_nil, values_empty,
      fun hne => absurd rfl hne, rfl⟩
    obtain ⟨r, hr, rfl⟩ := List.mem_map.1 hr'
    have hstored := hs.get?_of_mem (List.mem_of_mem_filter hr)
    have hbase := get?_foldl_generations (l := s.unbalanced voters leader)
      (fun id => ((s.ranges[id]?).map Range.generation).getD 0)
      (fun r' hr' => by rw [hs.get?_of_mem (List.mem_of_mem_filter hr')]; rfl) ∅ r.id ⟨r, hr, rfl⟩
    rw [hstored] at hbase
    exact ⟨r, hstored, hbase, rfl⟩

/-! ## Steps -/

/-- A later directory: numbers that were handed out are not used again, and a range that is kept is
the same or has a higher generation. -/
structure Newer (s s' : RangeStore) : Prop where
  next : s.nextID ≤ s'.nextID
  kept : ∀ (id : Nat) (r' : Range), id < s.nextID → s'.ranges[id]? = some r' →
    ∃ r : Range, s.ranges[id]? = some r ∧ (r' = r ∨ r.generation < r'.generation)

theorem Newer.refl (s : RangeStore) : Newer s s :=
  ⟨Nat.le_refl _, fun _ r' _ hr' => ⟨r', hr', Or.inl rfl⟩⟩

theorem Newer.trans (h : Newer s s') (h' : Newer s' s'') : Newer s s'' := by
  refine ⟨h.next.trans h'.next, fun id r'' hlt hr'' => ?_⟩
  obtain ⟨r', hr', hgen'⟩ := h'.kept id r'' (Nat.lt_of_lt_of_le hlt h.next) hr''
  obtain ⟨r, hr, hgen⟩ := h.kept id r' hlt hr'
  refine ⟨r, hr, ?_⟩
  rcases hgen' with rfl | hgen'
  · exact hgen
  · rcases hgen with rfl | hgen
    · exact Or.inr hgen'
    · exact Or.inr (hgen.trans hgen')

theorem newer_empty (h : s.Numbered) : Newer {} s := by
  refine ⟨h.next, fun id r' hlt hr' => ?_⟩
  have := (h.number id r' hr').2.1
  exact absurd hlt (by simp only; omega)

section Step

variable {o : IdOrder}

theorem Guarded.touched (hs : s.Numbered) (hop : Guarded read op) (hpass : s.Passes op)
    (hid : id ≠ 0) (ht : Touches op id) :
    ∃ r₀ r : Range, read.ranges[id]? = some r₀ ∧ s.ranges[id]? = some r ∧
      r.generation = r₀.generation ∧
      ∀ r' : Range, (s.applied (o, op)).ranges[id]? = some r' → r.generation < r'.generation := by
  have hbase : ∃ r₀ : Range, read.ranges[id]? = some r₀ ∧
      op.baseGenerations[id]? = some r₀.generation := by
    rcases ht with hmem | ⟨r, hr, rfl⟩
    · exact hop.removes id hmem
    · obtain ⟨r₀, hread, hgen, -⟩ := hop.rewrites r hr hid
      exact ⟨r₀, hread, hgen⟩
  obtain ⟨r₀, hread, hgen⟩ := hbase
  obtain ⟨r, hr, hsame⟩ := hpass id r₀.generation hgen
  obtain ⟨-, hpos, hlt⟩ := hs.number id r hr
  refine ⟨r₀, r, hread, hr, hsame, fun r' hr' => ?_⟩
  rcases get?_applied (e := (o, op)) hpass hpos hlt with ⟨q, hq, rfl, hfound⟩ | ⟨hnone, hfound⟩
  · obtain rfl := Option.some.inj (hfound.symm.trans hr')
    obtain ⟨r₁, hread₁, -, hnew⟩ := hop.rewrites q hq hid
    obtain rfl := Option.some.inj (hread₁.symm.trans hread)
    omega
  · rcases ht with hmem | ⟨q, hq, hqid⟩
    · rw [if_pos hmem, hr'] at hfound
      cases hfound
    · exact absurd hqid (hnone q hq)

theorem Guarded.untouched (hpass : s.Passes op) (hpos : 1 ≤ id) (hlt : id < s.nextID)
    (ht : ¬Touches op id) : (s.applied (o, op)).ranges[id]? = s.ranges[id]? := by
  rcases get?_applied (e := (o, op)) hpass hpos hlt with ⟨q, hq, hqid, -⟩ | ⟨-, hfound⟩
  · exact absurd (Or.inr ⟨q, hq, hqid⟩) ht
  · rw [hfound, if_neg fun hmem => ht (Or.inl hmem)]

theorem applied_of_not_passes (hpass : ¬s.Passes op) : s.applied (o, op) = s := by
  classical
  rw [applied_eq, if_neg hpass]

theorem Guarded.newer (hs : s.Numbered) (hop : Guarded read op) :
    Newer s (s.applied (o, op)) := by
  by_cases hpass : s.Passes op
  swap
  · rw [applied_of_not_passes hpass]
    exact Newer.refl s
  refine ⟨nextID_applied _, fun id r' hlt hr' => ?_⟩
  have hpos := ((hs.applied (o, op)).number id r' hr').2.1
  by_cases ht : Touches op id
  · obtain ⟨-, r, -, hr, -, hgrown⟩ := hop.touched (o := o) hs hpass (by omega) ht
    exact ⟨r, hr, Or.inr (hgrown r' hr')⟩
  · rw [Guarded.untouched hpass hpos hlt ht] at hr'
    exact ⟨r', hr', Or.inl rfl⟩

end Step

/-! ## Logs -/

section Logs

variable {nodeID : Bytes} {log l₁ l₂ l₃ : List Logged} {e : Logged}

theorem directory_concat (log : List Logged) (e : Logged) :
    directory (log ++ [e]) = (directory log).applied (e.order, e.op.wire) := by
  rw [directory, List.map_append, applyLog, List.foldl_append]
  rfl

theorem numbered_directory (log : List Logged) : (directory log).Numbered := by
  induction log using List.reverseRecOn with
  | nil => exact numbered_empty
  | append_singleton log e ih =>
    rw [directory_concat]
    exact ih.applied _

theorem effective_iff : e.Effective s ↔ s.Passes e.op.wire := applyOp_ok_iff

theorem Built.guarded (h : Built nodeID log) (hlog : log = l₁ ++ e :: l₂) :
    e.read.Numbered ∧
      (l₁ = [] ∧ e.read = {} ∧ e.op = genesisOp nodeID ∨ Guarded e.read e.op.wire) := by
  induction h generalizing l₂ with
  | genesis o =>
    rw [List.singleton_eq_append_iff] at hlog
    rcases hlog with ⟨rfl, hlog⟩ | ⟨-, hlog⟩
    · obtain ⟨rfl, -⟩ := List.cons.inj hlog
      exact ⟨numbered_empty, Or.inl ⟨rfl, rfl, rfl⟩⟩
    · cases hlog
  | @entry log log₀ op o leaders _ hle hop ih =>
    rcases List.eq_nil_or_concat l₂ with rfl | ⟨l₂, e', rfl⟩
    · obtain ⟨-, hlast⟩ := List.append_inj' hlog rfl
      obtain ⟨rfl, -⟩ := List.cons.inj hlast
      have hread := (numbered_directory log₀).seen leaders
      exact ⟨hread, Or.inr (hop.guarded hread).wire⟩
    · rw [List.concat_eq_append, ← List.cons_append, ← List.append_assoc] at hlog
      exact ih (List.append_inj' hlog rfl).1

theorem Built.newer_step (h : Built nodeID log) (hlog : log = l₁ ++ e :: l₂) :
    Newer (directory l₁) (directory (l₁ ++ [e])) := by
  rcases (h.guarded hlog).2 with ⟨rfl, -⟩ | hop
  · exact newer_empty (numbered_directory _)
  · rw [directory_concat]
    exact hop.newer (numbered_directory l₁)

/-- A run only leads to later directories. -/
theorem Built.newer (h : Built nodeID log) (h₁₂ : l₁ <+: l₂) (hlog : l₂ <+: log) :
    Newer (directory l₁) (directory l₂) := by
  obtain ⟨t, rfl⟩ := h₁₂
  induction t generalizing l₁ with
  | nil =>
    rw [List.append_nil]
    exact Newer.refl _
  | cons e t ih =>
    obtain ⟨t', rfl⟩ := hlog
    have hlog : l₁ ++ e :: t ++ t' = l₁ ++ e :: (t ++ t') := by simp
    refine (h.newer_step hlog).trans ?_
    have hrest : Newer (directory (l₁ ++ [e])) (directory (l₁ ++ [e] ++ t)) := ih ⟨t', by simp⟩
    rwa [List.append_assoc] at hrest

theorem Built.generation_lt (h : Built nodeID log) (hlog : log = l₁ ++ e :: l₂) {r' : Range}
    (hr : (directory l₁).ranges[id]? = some r)
    (hr' : (directory (l₁ ++ [e])).ranges[id]? = some r')
    (hchange : r' ≠ r ∨ e.Effective (directory l₁) ∧ Rewrites e.op id) :
    r.generation < r'.generation := by
  obtain ⟨-, hpos, hlt⟩ := (numbered_directory l₁).number id r hr
  rcases hchange with hne | ⟨heff, q, hq, hqid⟩
  · obtain ⟨r₁, hr₁, hgen⟩ := (h.newer_step hlog).kept id r' hlt hr'
    obtain rfl := Option.some.inj (hr.symm.trans hr₁)
    exact hgen.resolve_left hne
  · rcases (h.guarded hlog).2 with ⟨rfl, -⟩ | hop
    · simp [directory, applyLog] at hr
    · have ht : Touches e.op.wire id := Or.inr ⟨q.wire, List.mem_map_of_mem hq, hqid⟩
      obtain ⟨-, r₁, -, hr₁, -, hgrown⟩ :=
        hop.touched (o := e.order) (numbered_directory l₁) (effective_iff.1 heff) (by omega) ht
      obtain rfl := Option.some.inj (hr.symm.trans hr₁)
      rw [directory_concat] at hr'
      exact hgrown r' hr'

theorem Built.overtaken (h : Built nodeID log) {e' : Logged}
    (hlog : log = l₁ ++ e :: (l₂ ++ e' :: l₃)) {r' : Range} (ht : Touches e.op id)
    (ht' : Touches e'.op id) (hread : e.read.ranges[id]? = some r)
    (hread' : e'.read.ranges[id]? = some r') (hgen : r.generation = r'.generation) :
    ¬(e.Effective (directory l₁) ∧ e'.Effective (directory (l₁ ++ e :: l₂))) := by
  rintro ⟨heff, heff'⟩
  have hwire : ∀ {op : RangeOp}, Touches op id → Touches op.wire id := by
    rintro op (hmem | ⟨q, hq, hqid⟩)
    · exact Or.inl hmem
    · exact Or.inr ⟨q.wire, List.mem_map_of_mem hq, hqid⟩
  obtain ⟨hnum, hfirst⟩ := h.guarded hlog
  have hop := hfirst.resolve_left fun hempty => by
    rw [hempty.2.1] at hread
    simp at hread
  have hpos := (hnum.number id r hread).2.1
  obtain ⟨r₀, r₁, hr₀, hr₁, hsame, hgrown⟩ := hop.touched (o := e.order) (numbered_directory l₁)
    (effective_iff.1 heff) (by omega) (hwire ht)
  obtain rfl := Option.some.inj (hr₀.symm.trans hread)
  -- the second entry finds the generation that it was computed from, which is gone
  have hlog' : log = (l₁ ++ e :: l₂) ++ e' :: l₃ := by simp [hlog]
  have hop' := (h.guarded hlog').2.resolve_left (by simp)
  obtain ⟨r₀', r₂, hr₀', hr₂, hsame', -⟩ := hop'.touched (o := e'.order)
    (numbered_directory (l₁ ++ e :: l₂)) (effective_iff.1 heff') (by omega) (hwire ht')
  obtain rfl := Option.some.inj (hr₀'.symm.trans hread')
  have hnewer : Newer (directory (l₁ ++ [e])) (directory (l₁ ++ e :: l₂)) :=
    h.newer ⟨l₂, by simp⟩ ⟨e' :: l₃, hlog'.symm⟩
  have hlt : id < (directory (l₁ ++ [e])).nextID :=
    Nat.lt_of_lt_of_le ((numbered_directory l₁).number id r₁ hr₁).2.2 (h.newer_step hlog).next
  obtain ⟨r₃, hr₃, hgen₃⟩ := hnewer.kept id r₂ hlt hr₂
  rw [directory_concat] at hr₃
  have hlater := hgrown r₃ hr₃
  rcases hgen₃ with rfl | hgen₃ <;> omega

/-- **Generations fence stale proposals.** In every log whose entries have been computed from
directories reached earlier in it, an entry that is rejected changes nothing, a range is rewritten
with a higher generation only, a range that has been removed does not come back, and of the entries
that rewrite or remove a range and were computed from one generation of it at most one takes effect.
A write that is bound to a generation of a range is executed only if the range has it. -/
theorem generations_fence (h : Built nodeID log) :
    (∀ l₁ e l₂, log = l₁ ++ e :: l₂ →
      (¬e.Effective (directory l₁) → directory (l₁ ++ [e]) = directory l₁) ∧
      ∀ (id : Nat) (r r' : Range), (directory l₁).ranges[id]? = some r →
        (directory (l₁ ++ [e])).ranges[id]? = some r' →
        r' ≠ r ∨ e.Effective (directory l₁) ∧ Rewrites e.op id → r.generation < r'.generation) ∧
    (∀ (l₁ l₂ l₃ : List Logged) (id : Nat), l₁ <+: l₂ → l₂ <+: l₃ → l₃ <+: log →
      (directory l₁).ranges[id]? ≠ none → (directory l₂).ranges[id]? = none →
      (directory l₃).ranges[id]? = none) ∧
    (∀ (l₁ l₂ l₃ : List Logged) (e e' : Logged) (id : Nat) (r r' : Range),
      log = l₁ ++ e :: (l₂ ++ e' :: l₃) → Touches e.op id → Touches e'.op id →
      e.read.ranges[id]? = some r → e'.read.ranges[id]? = some r' →
      r.generation = r'.generation →
      ¬(e.Effective (directory l₁) ∧ e'.Effective (directory (l₁ ++ e :: l₂)))) ∧
    ∀ (s : ReplicatedState) (choice : Choice) (idx rangeID generation : Nat) (sqls : List Bytes)
      (atomic : Bool), rangeID ≠ 0 → generation ≠ 0 →
      (∀ r : Range, s.ranges.ranges[rangeID]? = some r → r.generation ≠ generation) →
      ∃ res, s.applyCommitted choice idx (.exec sqls atomic rangeID generation) =
        some (res, { s with index := idx }) ∧ res.ok = false := by
  refine ⟨fun l₁ e l₂ hlog => ⟨fun hno => ?_, fun id r r' => h.generation_lt hlog⟩,
    fun l₁ l₂ l₃ id h₁₂ h₂₃ hlog hin hout => ?_,
    fun l₁ l₂ l₃ e e' id r r' hlog => h.overtaken hlog,
    fun s choice idx rangeID generation sqls atomic hrange hgen hstale => ?_⟩
  · rw [directory_concat]
    exact applied_of_not_passes fun hpass => hno (effective_iff.2 hpass)
  · obtain ⟨r, hr⟩ := Option.ne_none_iff_exists'.1 hin
    cases hback : (directory l₃).ranges[id]? with
    | none => rfl
    | some r₃ =>
      have hlt : id < (directory l₂).nextID :=
        Nat.lt_of_lt_of_le ((numbered_directory l₁).number id r hr).2.2
          (h.newer h₁₂ (h₂₃.trans hlog)).next
      obtain ⟨r₂, hr₂, -⟩ := (h.newer h₂₃ hlog).kept id r₃ hlt hback
      rw [hout] at hr₂
      cases hr₂
  · have hrefused : ∃ text, s.refusal rangeID generation = some (refused text) := by
      unfold ReplicatedState.refusal byID
      rw [if_neg hrange]
      cases hr : s.ranges.ranges[rangeID]? with
      | none => exact ⟨_, rfl⟩
      | some r =>
        simp only
        rw [if_pos ⟨hgen, Ne.symm (hstale r hr)⟩]
        exact ⟨_, rfl⟩
    obtain ⟨text, htext⟩ := hrefused
    refine ⟨refused text, ?_, rfl⟩
    simp only [ReplicatedState.applyCommitted, ReplicatedState.execLocked, htext, Option.map_some]

/-- The first entry of the cluster that the node `n` starts. -/
def firstEntry : Logged := ⟨.sorted, {}, genesisOp (str "n")⟩

def firstRead : RangeStore := (directory [firstEntry]).seen fun _ => str "n"

/-- A move of the first range that was computed from the directory of the first entry. -/
def firstMove (replica : Bytes) : Logged :=
  ⟨.sorted, firstRead, moveOp (firstRange (str "n")) [replica] 1⟩

theorem firstRead_one : firstRead.ranges[1]? = some (firstRange (str "n")) := by decide +kernel

theorem built_concat (h : Built (str "n") log) (hlog : [firstEntry] <+: log)
    (hop : firstRead.Proposes op) : Built (str "n") (log ++ [⟨.sorted, firstRead, op⟩]) :=
  Built.entry .sorted (fun _ => str "n") h hlog hop

/-- Of two moves of one range that were computed from the same directory, the second is rejected. -/
theorem generations_fence_moves :
    Built (str "n") [firstEntry, firstMove (str "a"), firstMove (str "b")] ∧
      (firstMove (str "a")).Effective (directory [firstEntry]) ∧
      ¬(firstMove (str "b")).Effective (directory [firstEntry, firstMove (str "a")]) := by
  have hfirstMove := built_concat (Built.genesis .sorted) (List.prefix_refl _)
    (Proposes.move 1 _ [str "a"] firstRead_one)
  have hbuilt : Built (str "n") [firstEntry, firstMove (str "a"), firstMove (str "b")] :=
    built_concat hfirstMove ⟨[firstMove (str "a")], rfl⟩
      (Proposes.move 1 _ [str "b"] firstRead_one)
  have htouch : ∀ replica, Touches (firstMove replica).op 1 := fun replica =>
    Or.inr ⟨_, List.mem_singleton.2 rfl, rfl⟩
  have hfirst : (firstMove (str "a")).Effective (directory [firstEntry]) := by
    refine effective_iff.2 fun id gen hgen => ?_
    have hbase : ((∅ : IdMap Nat).insert 1 1)[id]? = some gen := hgen
    rw [IdMap.get?_insert] at hbase
    split at hbase
    · next hid =>
      obtain rfl := Option.some.inj hbase
      exact ⟨firstRange (str "n"), by rw [← hid]; decide +kernel, rfl⟩
    · simp at hbase
  refine ⟨hbuilt, hfirst, fun hsecond => ?_⟩
  exact (generations_fence hbuilt).2.2.1 [firstEntry] [] [] _ _ 1 _ _ rfl (htouch _) (htouch _)
    firstRead_one firstRead_one rfl ⟨hfirst, hsecond⟩

/-! ## Tables of a range that is split -/

/-- Every table is on a range of the directory. -/
def Assigned (s : RangeStore) : Prop :=
  ∀ (t : Bytes) (id : Nat), s.assign[t]? = some id → ∃ r : Range, s.ranges[id]? = some r

/-- No table is on a range that the operation removes. -/
def Vacates (s : RangeStore) (op : RangeOp) : Prop :=
  ∀ id ∈ op.remove, ∀ t : Bytes, s.assign[t]? ≠ some id

theorem Guarded.assign_applied {o : IdOrder} (hop : Guarded read op) (hpass : s.Passes op)
    (t : Bytes) : (s.applied (o, op)).assign[t]? = (op.assign[t]?).or s.assign[t]? := by
  classical
  rw [applied_eq, if_pos hpass]
  simp only [reassigned, hop.unassigns, List.foldl_nil]
  exact Map.get?_copy op.assign 0 s.assign t

/-- A fenced operation keeps every table on a range exactly if it removes no range with tables. -/
theorem Guarded.assigned_iff {o : IdOrder} (hs : s.Numbered) (h : s.Assigned)
    (hop : Guarded read op) (hpass : s.Passes op) :
    (s.applied (o, op)).Assigned ↔ s.Vacates op := by
  constructor
  · intro hkept id hid t ht
    obtain ⟨hassign, hnew⟩ := hop.splits (List.ne_nil_of_mem hid)
    obtain ⟨r, hr⟩ := h t id ht
    obtain ⟨-, hpos, hlt⟩ := hs.number id r hr
    have ht' : (s.applied (o, op)).assign[t]? = some id := by
      rw [hop.assign_applied hpass, hassign, ht]
      simp
    obtain ⟨r', hr'⟩ := hkept t id ht'
    rcases get?_applied (e := (o, op)) hpass hpos hlt with ⟨q, hq, hqid, -⟩ | ⟨-, hfound⟩
    · have := hnew q hq
      omega
    · rw [if_pos hid, hr'] at hfound
      cases hfound
  · intro hvacates t id ht
    rw [hop.assign_applied hpass] at ht
    have hstays : ∀ r : Range, s.ranges[id]? = some r → id ∉ op.remove →
        ∃ r' : Range, (s.applied (o, op)).ranges[id]? = some r' := by
      intro r hr hid
      obtain ⟨-, hpos, hlt⟩ := hs.number id r hr
      rcases get?_applied (e := (o, op)) hpass hpos hlt with ⟨q, -, -, hfound⟩ | ⟨-, hfound⟩
      · exact ⟨q, hfound⟩
      · exact ⟨r, by rw [hfound, if_neg hid, hr]⟩
    cases hnew : op.assign[t]? with
    | some id' =>
      -- an operation that assigns tables removes nothing
      rw [hnew] at ht
      obtain rfl := Option.some.inj ht
      obtain ⟨gen, hgen⟩ := hop.assigns t id' hnew
      obtain ⟨r, hr, -⟩ := hpass id' gen hgen
      refine hstays r hr fun hid => ?_
      rw [(hop.splits (List.ne_nil_of_mem hid)).1] at hnew
      simp at hnew
    | none =>
      rw [hnew] at ht
      obtain ⟨r, hr⟩ := h t id ht
      exact hstays r hr fun hid => hvacates id hid t ht

theorem Built.assigned_step (h : Built nodeID log) (hlog : log = l₁ ++ e :: l₂)
    (hassigned : (directory l₁).Assigned) :
    (directory (l₁ ++ [e])).Assigned ↔
      (e.Effective (directory l₁) → (directory l₁).Vacates e.op) := by
  rw [directory_concat]
  by_cases heff : e.Effective (directory l₁)
  swap
  · rw [applied_of_not_passes fun hpass => heff (effective_iff.2 hpass)]
    exact iff_of_true hassigned fun hyes => absurd hyes heff
  rcases (h.guarded hlog).2 with ⟨rfl, -, hop⟩ | hop
  · rw [hop, applied_genesisOp]
    exact iff_of_true (fun t id ht => by simp [directory, applyLog] at ht)
      fun _ id hid => absurd hid List.not_mem_nil
  · rw [hop.assigned_iff (numbered_directory l₁) hassigned (effective_iff.1 heff)]
    exact ⟨fun hv _ => hv, fun hv => hv heff⟩

/-- **Tables lose their range in a split.** Along a log every table is assigned to a range of the
directory exactly if no entry that takes effect removes a range with tables; a split does, and its
second entry comes later, if it comes at all. -/
theorem assigned_iff_vacates (h : Built nodeID log) :
    (∀ l, l <+: log → (directory l).Assigned) ↔
      ∀ l₁ e l₂, log = l₁ ++ e :: l₂ → e.Effective (directory l₁) →
        (directory l₁).Vacates e.op := by
  constructor
  · intro hall l₁ e l₂ hlog
    refine (h.assigned_step hlog (hall l₁ ⟨e :: l₂, hlog.symm⟩)).1 (hall _ ⟨l₂, ?_⟩)
    simp [hlog]
  · intro hall l hl
    induction l using List.reverseRecOn with
    | nil => exact fun t id ht => by simp [directory, applyLog] at ht
    | append_singleton l e ih =>
      obtain ⟨t, ht⟩ := hl
      have hlog : log = l ++ e :: t := by simp [← ht]
      exact (h.assigned_step hlog (ih ⟨e :: t, hlog.symm⟩)).2 (hall l e t hlog)

def firstAssign : Logged := ⟨.sorted, firstRead, assignOp (firstRange (str "n")) (str "t") 1⟩

def firstSplit : Logged := ⟨.sorted, firstRead, splitOp (firstRange (str "n")) (str "m") 1⟩

/-- A table is assigned to the first range, which is then split: the table is left behind. -/
theorem assigned_iff_vacates_split :
    Built (str "n") [firstEntry, firstAssign, firstSplit] ∧
      (directory [firstEntry, firstAssign, firstSplit]).assign[str "t"]? = some 1 ∧
      (directory [firstEntry, firstAssign, firstSplit]).ranges.keys = [2, 3] := by
  refine ⟨?_, by decide +kernel, by decide +kernel⟩
  have hassign := built_concat (Built.genesis .sorted) (List.prefix_refl _)
    (Proposes.assign (str "t") 1 _ firstRead_one)
  exact built_concat hassign ⟨[firstAssign], rfl⟩ (Proposes.split 1 _ (str "m") firstRead_one)

def splitRead : RangeStore := (directory [firstEntry, firstSplit]).seen fun _ => str "n"

def firstPart : Range := (splitRead.ranges[2]?).getD {}

/-- A table is assigned to a part of the split range. -/
def partAssign : Logged := ⟨.sorted, splitRead, assignOp firstPart (str "t") 2⟩

/-- The first range is split before a table is assigned, and the table goes to a range that
stays. -/
theorem assigned_iff_vacates_free :
    Built (str "n") [firstEntry, firstSplit, partAssign] ∧
      (directory [firstEntry, firstSplit, partAssign]).assign[str "t"]? = some 2 ∧
      ∀ l, l <+: [firstEntry, firstSplit, partAssign] → (directory l).Assigned := by
  have hsplit : Built (str "n") [firstEntry, firstSplit] :=
    built_concat (Built.genesis .sorted) (List.prefix_refl _)
      (Proposes.split 1 _ (str "m") firstRead_one)
  have hpart : splitRead.ranges[2]? = some firstPart := by decide +kernel
  have hbuilt : Built (str "n") [firstEntry, firstSplit, partAssign] :=
    Built.entry .sorted _ hsplit (List.prefix_refl _) (Proposes.assign (str "t") 2 _ hpart)
  have hfree : (directory [firstEntry]).assign = ∅ := by
    rw [show [firstEntry] = [] ++ [firstEntry] from rfl, directory_concat, firstEntry,
      applied_genesisOp]
    rfl
  refine ⟨hbuilt, by decide +kernel,
    (assigned_iff_vacates hbuilt).2 fun l₁ e l₂ hlog _ id hid t ht => ?_⟩
  match l₁, hlog with
  | [], _ => simp [directory, applyLog] at ht
  | [_], rfl => simp [hfree] at ht
  | [_, _], rfl => cases hid
  | _ :: _ :: _ :: l₁, hlog => simp at hlog

end Logs

end RangeStore

end SuperDB.Cluster
