import SuperDB.Engine.Verify.FastInv
import SuperDB.Engine.Verify.Gather

/-!
# The row cap is exact

A query under a row cap is refused exactly if its result without the cap has more rows, and
otherwise gives that result. The cap ends a collection one row after the last that it permits,
OFFSET included, so what is left out cannot decide between the two.
-/

namespace SuperDB.Engine

open Go

variable {r : Result} {q : Query} {cap : Option Nat}

/-- The limit fails longer results only. -/
structure CapsTo (maxRows : Nat) (uncapped capped : Except Fault Result) : Prop where
  error : ∀ f, uncapped = .error f → capped = .error f
  fits : ∀ r, uncapped = .ok r → r.rows.length ≤ maxRows → capped = .ok r
  exceeds : ∀ r, uncapped = .ok r → maxRows < r.rows.length →
    ∃ n, capped = .error (.error (.resultTooLarge n maxRows))

section CapsTo

variable {m : Nat} {x : Except Fault Result}

theorem capResultRows_fits (h : r.rows.length ≤ m) : capResultRows m r = .ok r :=
  if_neg fun hlarge => Nat.not_lt.2 h hlarge.2

theorem capResultRows_exceeds (hpos : 0 < m) (h : m < r.rows.length) :
    capResultRows m r = .error (.error (.resultTooLarge r.rows.length m)) :=
  if_pos ⟨hpos, h⟩

theorem CapsTo.of_ok {y : Except Fault Result} (h : CapsTo m x y) (hy : y = .ok r) :
    x = .ok r ∧ r.rows.length ≤ m := by
  cases hx : x with
  | error f =>
    rw [h.error f hx] at hy
    cases hy
  | ok r' =>
    by_cases hle : r'.rows.length ≤ m
    · rw [h.fits r' hx hle] at hy
      cases hy
      exact ⟨rfl, hle⟩
    · obtain ⟨n, hn⟩ := h.exceeds r' hx (Nat.lt_of_not_le hle)
      rw [hn] at hy
      cases hy

theorem CapsTo.bind (hpos : 0 < m) : CapsTo m x (x >>= capResultRows m) := by
  refine ⟨?_, ?_, ?_⟩
  · rintro f rfl
    rfl
  · rintro r rfl hle
    exact capResultRows_fits hle
  · rintro r rfl hlt
    exact ⟨_, capResultRows_exceeds hpos hlt⟩

theorem CapsTo.fault (f : Fault) : CapsTo m (.error f) (.error f) :=
  ⟨fun _ h => h, fun _ h _ => (nomatch h), fun _ h _ => (nomatch h)⟩

theorem CapsTo.refl_of_le_one (hpos : 0 < m) (h : ∀ r, x = .ok r → r.rows.length ≤ 1) :
    CapsTo m x x := by
  refine ⟨fun f hf => hf, fun r hr _ => hr, fun r hr hlt => ?_⟩
  have hle := h r hr
  omega

end CapsTo

namespace Table

variable {env : Env} {t : Table} {m : Nat}

/-! ## Plain queries -/

theorem window_capsTo (hpos : 0 < m) (hcap : ∀ c, cap = some c → emitCap m q.tail.offset ≤ c)
    {all rows rows' : List (List Value)} (hsize : all.length < 2 ^ 63 - 1)
    (hrows : rows.length = (takeUpTo cap all).length)
    (hall : (∀ c, cap = some c → all.length ≤ c) → rows = all)
    (hrows' : rows'.length = (takeUpTo (some (emitCap m q.tail.offset)) all).length)
    (hall' : (∀ c, some (emitCap m q.tail.offset) = some c → all.length ≤ c) → rows' = all) :
    CapsTo m (window 0 q rows) (window m q rows') := by
  have huncapped : window 0 q rows =
      .ok { columns := q.names, rows := applyOffset q.tail.offset rows } := capResultRows_zero _
  rw [huncapped]
  by_cases hfew : all.length ≤ emitCap m q.tail.offset
  · rw [hall fun c hc => Nat.le_trans hfew (hcap c hc), hall' fun c hc => by cases hc; exact hfew]
    exact CapsTo.bind hpos
  · -- the rest is longer than the cap permits, with and without it
    have hlarge : ∀ rows₁ : List (List Value), emitCap m q.tail.offset ≤ rows₁.length →
        m < (applyOffset q.tail.offset rows₁).length := by
      intro rows₁ hle
      rw [applyOffset, List.length_drop]
      rcases emitCap_cases m q.tail.offset with e | e <;> omega
    have hlong : emitCap m q.tail.offset ≤ rows.length := by
      rw [hrows]
      cases cap with
      | none => exact Nat.le_of_not_le hfew
      | some c =>
        have hc := hcap c rfl
        rw [takeUpTo, Option.elim_some, List.length_take]
        omega
    have hlong' : emitCap m q.tail.offset ≤ rows'.length := by
      rw [hrows', takeUpTo, Option.elim_some, List.length_take]
      omega
    refine ⟨?_, ?_, ?_⟩
    · rintro f h
      cases h
    · rintro r h hle
      cases h
      exact absurd (hlarge rows hlong) (Nat.not_lt.2 hle)
    · rintro r h -
      exact ⟨_, capResultRows_exceeds hpos (hlarge rows' hlong')⟩

/-- A table whose slices and buckets a Go `int` can count with one to spare. -/
structure Countable (t : Table) : Prop where
  fits : t.Fits
  buckets : ∀ column value, ((t.indexes.getD column ∅).getD value ∅).size < 2 ^ 63 - 1

theorem length_listed_le {α β : Type} {f : Collected β → α → Collected β}
    (hf : ∀ c a, (f c a).listed = c.listed ∨ ∃ b, (f c a).listed = c.listed ++ [b]) (l : List α)
    (c : Collected β) : (l.foldl f c).listed.length ≤ c.listed.length + l.length := by
  induction l generalizing c with
  | nil => exact Nat.le_refl _
  | cons a l ih =>
    have hrest := ih (f c a)
    rw [List.foldl_cons, List.length_cons]
    rcases hf c a with h | ⟨b, h⟩
    · rw [h] at hrest
      omega
    · rw [h, List.length_append, List.length_singleton] at hrest
      omega

theorem length_whole_lt (hfits : t.Fits) (env : Env) (q : Query) (compiled : CompiledCondition)
    {path : Path} (hbucket : ∀ column value, path = .bucket column value →
      ((t.indexes.getD column ∅).getD value ∅).size < 2 ^ 63 - 1) :
    (t.whole env q compiled path).length < 2 ^ 63 - 1 := by
  cases path with
  | key key =>
    have hle := length_keyRows_le (t := t) (q := q) key
    rw [whole]
    omega
  | bucket column value =>
    have hle := length_listed_le
      (takeCandidate_grow (t := t) (q := q) column (t.termFor q) compiled)
      (t.bucket env column value) {}
    have hsize : (t.bucket env column value).length < 2 ^ 63 - 1 := by
      rw [bucket, (env.order.range_perm _).length_eq, Std.ExtTreeMap.length_keys]
      exact hbucket column value rfl
    rw [whole, length_arranged, bucketCandidates]
    exact Nat.lt_of_le_of_lt hle (by simpa [Collected.listed] using hsize)
  | fast =>
    have hle := length_listed_le
      (fun c row => (takeFast_grow (t := t) (q := q) (t.termFor q) compiled c row).imp_right
        And.right)
      t.fast {}
    rw [whole]
    exact Nat.lt_of_le_of_lt hle (by simpa [Collected.listed] using hfits.2)
  | order =>
    have hle := length_listed_le
      (fun c key => (takeKey_grow (t := t) (q := q) compiled c key).imp_right And.right) t.order {}
    rw [whole, length_arranged, candidates]
    exact Nat.lt_of_le_of_lt hle (by simpa [Collected.listed] using hfits.1)

theorem Countable.length_whole_lt (h : t.Countable) (env : Env) (q : Query)
    (compiled : CompiledCondition) (path : Path) :
    (t.whole env q compiled path).length < 2 ^ 63 - 1 :=
  Table.length_whole_lt h.fits env q compiled fun column value _ => h.buckets column value

theorem gather_maxRows (env : Env) (q : Query) (cap : Option Nat) (path : Path) :
    t.gather { env with maxRows := m } q cap path = t.gather env q cap path := by
  cases path <;> rfl

/-- With LIMIT 0 a path that collects no keys gathers nothing, whatever the cap. -/
theorem gather_zero {path : Path} (hlimit : q.tail.limit = some 0) (hpath : path.collects ≠ true)
    (cap cap' : Option Nat) : t.gather env q cap path = t.gather env q cap' path := by
  cases path with
  | key key => rfl
  | fast => simp only [gather, if_pos hlimit]
  | bucket column value => exact absurd rfl hpath
  | order => exact absurd rfl hpath

theorem selectBy_capsTo (henv : env.Live) (hpos : 0 < m) {path : Path}
    (hsize : ∀ compiled, (t.whole env q compiled path).length < 2 ^ 63 - 1) :
    CapsTo m (t.selectBy { env with maxRows := 0 } q path)
      (t.selectBy { env with maxRows := m } q path) := by
  rw [selectBy_gather, selectBy_gather, gather_maxRows (m := 0), gather_maxRows (m := m)]
  simp only
  have hwindow : ∀ cap, CapsTo m (t.gather env q cap path >>= window 0 q)
      (t.gather env q cap path >>= window m q) := by
    intro cap
    have hbind : t.gather env q cap path >>= window m q =
        (t.gather env q cap path >>= window 0 q) >>= capResultRows m := by
      rw [bind_assoc]
      rfl
    rw [hbind]
    exact CapsTo.bind hpos
  rcases rowCap_cases hpos q.tail.limit q.tail.offset with hsame | ⟨hcapped, hcap⟩
  · rw [hsame]
    exact hwindow _
  · rw [hcapped]
    by_cases hlimit : q.tail.limit ≠ some 0 ∨ path.collects = true
    swap
    · rw [not_or, not_not] at hlimit
      rw [gather_zero hlimit.1 hlimit.2 (some _) (rowCap 0 q.tail.limit q.tail.offset)]
      exact hwindow _
    have hemit : 0 < emitCap m q.tail.offset := by
      rcases emitCap_cases m q.tail.offset with e | e <;> omega
    have hanswer : ∀ compiled, (∃ key, path = .key key) ∨ t.compileFor q (t.termFor q) =
        .ok compiled →
        CapsTo m (t.gather env q (rowCap 0 q.tail.limit q.tail.offset) path >>= window 0 q)
          (t.gather env q (some (emitCap m q.tail.offset)) path >>= window m q) := by
      intro compiled hfor
      obtain ⟨rows, hrows, hlen, hall⟩ := gather_live henv hlimit
        (fun c hc => Nat.lt_of_lt_of_le hemit (hcap c hc)) hfor
      obtain ⟨rows', hrows', hlen', hall'⟩ := gather_live henv hlimit
        (fun c hc => Option.some.inj hc ▸ hemit) hfor
      rw [hrows, hrows']
      exact window_capsTo hpos hcap (hsize compiled) hlen hall hlen' hall'
    cases hfor : t.compileFor q (t.termFor q) with
    | ok compiled => exact hanswer compiled (Or.inr hfor)
    | error f =>
      by_cases hkey : ∃ key, path = .key key
      · exact hanswer [] (Or.inl hkey)
      · have hpath : ∀ key, path ≠ .key key := fun key h => hkey ⟨key, h⟩
        rw [gather_invalid hfor hpath, gather_invalid hfor hpath]
        exact CapsTo.fault f

/-! ## Groups and aggregates -/

theorem groupedResult_maxRows (env : Env) (selectExpr : Bytes) (tail : SelectTail)
    (distinct : Bool) :
    t.groupedResult { env with maxRows := m } selectExpr tail distinct =
      t.groupedResult { env with maxRows := 0 } selectExpr tail distinct >>= capResultRows m := by
  unfold groupedResult
  simp only [bind_assoc]
  congr 1
  funext gIdx
  congr 1
  funext items
  cases compileCondition tail.cond t.columns with
  | none => rfl
  | some compiled =>
    simp only [bind_assoc]
    congr 1
    funext groups
    unfold groupedLines
    simp only [bind_assoc]
    rfl

theorem aggregateResult_rows {kind : AggKind} {expression cond : Bytes}
    (h : t.aggregateResult env kind expression cond = .ok r) : r.rows.length = 1 := by
  rw [aggregateResult_eq] at h
  cases hplan : t.aggregatePlan kind expression cond with
  | fail f =>
    rw [hplan] at h
    cases h
  | cell v =>
    rw [hplan] at h
    cases h
    rfl
  | bucket column value compiled =>
    rw [hplan] at h
    obtain ⟨n, -, h⟩ := bind_ok h
    cases h
    rfl
  | scan star column compiled =>
    rw [hplan] at h
    obtain ⟨c, -, h⟩ := bind_ok h
    cases h
    rfl

/-- **What a row cap makes of a query.** -/
theorem selectTable_capsTo (henv : env.Live) (hpos : 0 < m) (selectExpr : Bytes) (distinct : Bool)
    {tail : SelectTail} (hsize : tail.groupBy = [] → aggregateKind selectExpr = none →
      ∀ names compiled, (t.whole env ⟨names, distinct, tail⟩ compiled
        (t.path ⟨names, distinct, tail⟩)).length < 2 ^ 63 - 1) :
    CapsTo m (t.selectTable { env with maxRows := 0 } selectExpr distinct tail)
      (t.selectTable { env with maxRows := m } selectExpr distinct tail) := by
  unfold selectTable
  split
  · rw [groupedResult_maxRows (m := m)]
    exact CapsTo.bind hpos
  · next hgroup =>
    split
    · exact CapsTo.fault _
    · cases hagg : aggregateKind selectExpr with
      | some kind =>
        refine CapsTo.refl_of_le_one hpos fun r hr => ?_
        obtain ⟨r', hr', hr⟩ := bind_ok hr
        have hone := aggregateResult_rows hr'
        cases hr
        split
        · exact Nat.zero_le 1
        · exact hone.le
      | none =>
        simp only
        split
        · exact CapsTo.fault _
        · rw [selectPlain_eq, selectPlain_eq]
          exact selectBy_capsTo henv hpos (hsize (not_not.1 hgroup) hagg _)

theorem Countable.selectTable_capsTo (h : t.Countable) (henv : env.Live) (hpos : 0 < m)
    (selectExpr : Bytes) (distinct : Bool) (tail : SelectTail) :
    CapsTo m (t.selectTable { env with maxRows := 0 } selectExpr distinct tail)
      (t.selectTable { env with maxRows := m } selectExpr distinct tail) :=
  Table.selectTable_capsTo henv hpos selectExpr distinct fun _ _ _ compiled =>
    h.length_whole_lt env _ compiled _

/-- **A query that succeeds under a row cap gives the same result without one.** -/
theorem selectTable_uncapped {selectExpr : Bytes} {distinct : Bool} {tail : SelectTail}
    (henv : env.Live) (hpos : 0 < env.maxRows) (hfits : t.Fits)
    (hscattered : t.scattered selectExpr tail = false)
    (h : t.selectTable env selectExpr distinct tail = .ok r) :
    t.selectTable { env with maxRows := 0 } selectExpr distinct tail = .ok r := by
  refine ((selectTable_capsTo henv hpos _ _ fun hgroup hagg names compiled => ?_).of_ok h).1
  refine length_whole_lt hfits _ _ _ fun column value hpath => ?_
  rw [← servingBucket_of_path hpath]
  simp only [scattered, hgroup, hagg, decide_true, Bool.true_and, decide_eq_false_iff_not,
    if_true] at hscattered
  exact Nat.lt_of_le_of_lt (Nat.not_lt.1 hscattered) (by decide)

/-! ## Contexts that are cancelled -/

theorem reached_mono {cap' : Option Nat} (hcap : ∀ c, cap' = some c → ∃ d, cap = some d ∧ d ≤ c)
    {n : Nat} (h : reached cap' n = true) : reached cap n = true := by
  cases cap' with
  | none => cases h
  | some c =>
    obtain ⟨d, rfl, hle⟩ := hcap c rfl
    simp only [reached, Option.any_some, decide_eq_true_eq] at h ⊢
    omega

section Sooner

variable {q : Query} {cap cap' : Option Nat} (hcap : ∀ c, cap' = some c → ∃ d, cap = some d ∧ d ≤ c)
include hcap

theorem fastScanStep_sooner (term : Option FastTerm) (compiled : CompiledCondition)
    (c : Collected (List Value)) (row : FastRow) :
    t.fastScanStep q cap term compiled c row = t.fastScanStep q cap' term compiled c row ∨
      ∃ c', t.fastScanStep q cap term compiled c row = .stop c' := by
  unfold fastScanStep
  simp only
  split_ifs with hkey hmatch hstop hstop' hstop'
  · exact Or.inl rfl
  · exact Or.inl rfl
  · exact Or.inr ⟨_, rfl⟩
  · exact Or.inr ⟨_, rfl⟩
  · exact absurd (reached_mono hcap hstop') hstop
  · exact Or.inl rfl

theorem bucketStep_sooner (column : Bytes) (term : Option FastTerm) (compiled : CompiledCondition)
    (c : Collected Bytes) (key : Bytes) :
    t.bucketStep q cap column term compiled c key = t.bucketStep q cap' column term compiled c key ∨
      ∃ c', t.bucketStep q cap column term compiled c key = .stop c' := by
  unfold bucketStep
  by_cases hstop : q.tail.orderColumn = [] ∧ reached cap c.items.length = true
  · rw [if_pos hstop]
    exact Or.inr ⟨_, rfl⟩
  · have hgo : ¬(q.tail.orderColumn = [] ∧ reached cap' c.items.length = true) := fun h =>
      hstop ⟨h.1, reached_mono hcap h.2⟩
    rw [if_neg hstop, if_neg hgo]
    exact Or.inl rfl

theorem orderStep_sooner (compiled : CompiledCondition) (c : Collected Bytes) (key : Bytes) :
    t.orderStep q cap compiled c key = t.orderStep q cap' compiled c key ∨
      ∃ c', t.orderStep q cap compiled c key = .stop c' := by
  unfold orderStep
  cases t.rows[key]? with
  | none => exact Or.inl rfl
  | some row =>
    simp only
    split_ifs with hmatch hseen hstop hstop' hstop'
    · exact Or.inl rfl
    · exact Or.inl rfl
    · exact Or.inr ⟨_, rfl⟩
    · exact Or.inr ⟨_, rfl⟩
    · exact absurd ⟨hstop'.1, reached_mono hcap hstop'.2⟩ hstop
    · exact Or.inl rfl

theorem gather_sooner {path : Path} {rows : List (List Value)}
    (h : t.gather env q cap' path = .ok rows) :
    t.gather env q cap path = t.gather env.uncancelled q cap path := by
  have hlive := env.uncancelled_live.scanTick
  have harrange : ∀ keys keys' rows, t.arrange env q cap' keys' = .ok rows →
      t.arrange env q cap keys = t.arrange env.uncancelled q cap keys := by
    intro keys keys' rows hok
    obtain ⟨sorted, hsorted, -⟩ := bind_ok hok
    unfold arrange orderedKeys at *
    by_cases horder : q.tail.orderColumn = []
    · rw [if_pos horder, if_pos horder]
    · rw [if_neg horder] at hsorted
      rw [if_neg horder, if_neg horder]
      cases hsort : env.ctx .sort with
      | some e =>
        rw [hsort] at hsorted
        cases hsorted
      | none => rfl
  cases path with
  | key key => rfl
  | bucket column value =>
    obtain ⟨compiled, hfor, h⟩ := bind_ok h
    obtain ⟨c, hloop, h⟩ := bind_ok h
    have hsame := rangeLoop_sooner hlive
      (bucketStep_sooner (t := t) hcap column (t.termFor q) compiled) (loopResult_ok hloop)
    rw [gather, gather, hfor]
    show loopResult _ >>= _ = loopResult _ >>= _
    exact congrArg₂ bind (congrArg loopResult hsame) (funext fun c => harrange c.listed _ _ h)
  | fast =>
    obtain ⟨compiled, hfor, h⟩ := bind_ok h
    rw [gather, gather, hfor]
    show (if _ then _ else _) = if _ then _ else _
    split at h
    · next hzero => rw [if_pos hzero, if_pos hzero]
    · next hzero =>
      obtain ⟨c, hloop, h⟩ := bind_ok h
      have hsame := rangeLoop_sooner hlive
        (fastScanStep_sooner (t := t) hcap (t.termFor q) compiled) (loopResult_ok hloop)
      rw [if_neg hzero, if_neg hzero]
      exact congrArg₂ bind (congrArg loopResult hsame) rfl
  | order =>
    obtain ⟨compiled, hfor, h⟩ := bind_ok h
    obtain ⟨c, hloop, h⟩ := bind_ok h
    have hsame :=
      rangeLoop_sooner hlive (orderStep_sooner (t := t) hcap compiled) (loopResult_ok hloop)
    rw [gather, gather, hfor]
    show loopResult _ >>= _ = loopResult _ >>= _
    exact congrArg₂ bind (congrArg loopResult hsame) (funext fun c => harrange c.listed _ _ h)

end Sooner

theorem rowCap_sooner (hpos : 0 < m) (limit : Option Nat) (offset : Nat) :
    ∀ c, rowCap 0 limit offset = some c → ∃ d, rowCap m limit offset = some d ∧ d ≤ c := by
  intro c hc
  rcases rowCap_cases hpos limit offset with hsame | ⟨hcapped, hcap⟩
  · exact ⟨c, hsame.trans hc, Nat.le_refl c⟩
  · exact ⟨_, hcapped, hcap c hc⟩

theorem selectTable_sooner (hpos : 0 < m) {selectExpr : Bytes} {distinct : Bool}
    {tail : SelectTail}
    (h : t.selectTable { env with maxRows := 0 } selectExpr distinct tail = .ok r) :
    t.selectTable { env with maxRows := m } selectExpr distinct tail =
      t.selectTable { env.uncancelled with maxRows := m } selectExpr distinct tail := by
  unfold selectTable at h ⊢
  split at h
  · next hgroup =>
    have hfree := groupedResult_uncancelled h
    rw [if_pos hgroup, if_pos hgroup, groupedResult_maxRows env,
      groupedResult_maxRows env.uncancelled, h]
    exact (congrArg (· >>= capResultRows m) hfree).symm
  · next hgroup =>
    rw [if_neg hgroup, if_neg hgroup]
    split at h
    · cases h
    · next horder =>
      rw [if_neg horder, if_neg horder]
      cases hagg : aggregateKind selectExpr with
      | some kind =>
        rw [hagg] at h
        obtain ⟨r', hr, h⟩ := bind_ok h
        have hfree := aggregateResult_uncancelled hr
        exact congrArg (· >>= _) (hr.trans hfree.symm)
      | none =>
        rw [hagg] at h
        simp only at h ⊢
        split at h
        · cases h
        · rw [selectPlain_eq, selectBy_gather, gather_maxRows (m := 0)] at h
          obtain ⟨rows, hrows, -⟩ := bind_ok h
          rw [selectPlain_eq, selectPlain_eq, selectBy_gather, selectBy_gather,
            gather_maxRows (m := m), gather_maxRows (m := m)]
          exact congrArg (· >>= _) (gather_sooner (rowCap_sooner hpos _ _) hrows)

end Table

/-! ## Queries without a cap -/

/-- Not a failure of the limit. -/
def Uncapped {α : Type} (x : Except Fault α) : Prop :=
  ∀ n m, x ≠ .error (.error (.resultTooLarge n m))

section Uncapped

variable {α β : Type}

theorem Uncapped.ok (a : α) : Uncapped (.ok a : Except Fault α) := fun _ _ h => nomatch h

theorem Uncapped.text (message : Bytes) :
    Uncapped (.error (.error (.text message)) : Except Fault α) :=
  fun _ _ h => nomatch h

theorem Uncapped.bind {x : Except Fault α} {f : α → Except Fault β} (hx : Uncapped x)
    (hf : ∀ a, Uncapped (f a)) : Uncapped (x >>= f) := by
  cases x with
  | error e =>
    intro n m h
    cases h
    exact hx n m rfl
  | ok a => exact hf a

theorem Uncapped.mapM {f : α → Except Fault β} (hf : ∀ a, Uncapped (f a)) (l : List α) :
    Uncapped (l.mapM f) := by
  induction l with
  | nil => exact Uncapped.ok _
  | cons a l ih =>
    rw [List.mapM_cons]
    exact (hf a).bind fun b => ih.bind fun l' => Uncapped.ok _

theorem Uncapped.loop {σ : Type} (env : Env) {body : σ → α → Ctl σ Fault}
    (hbody : ∀ s a n m, body s a ≠ .fail (.error (.resultTooLarge n m))) (l : List α) (s : σ) :
    Uncapped (loopResult (rangeLoop env.scanTick body 0 l s)) := by
  intro n m h
  have herror : (rangeLoop env.scanTick body 0 l s).2 = some (.error (.resultTooLarge n m)) := by
    revert h
    generalize rangeLoop env.scanTick body 0 l s = p
    obtain ⟨s', e⟩ := p
    cases e with
    | none => exact fun h => nomatch h
    | some e =>
      intro h
      cases h
      rfl
  refine rangeLoop_error (P := fun f => f ≠ .error (.resultTooLarge n m)) ?_ ?_ herror rfl
  · rintro i f hf rfl
    unfold Env.scanTick tick at hf
    split at hf
    · obtain ⟨e, -, he⟩ := Option.map_eq_some_iff.1 hf
      cases he
    · cases hf
  · rintro s a f hf rfl
    exact hbody s a n m hf

theorem AggCell.step_uncapped (kind : AggKind) (star : Bool) (name : Bytes) (v : Value)
    (c : AggCell) :
    Uncapped (c.step kind star name v) := by
  unfold AggCell.step
  split
  · exact Uncapped.ok _
  · split
    · exact Uncapped.ok _
    · cases kind with
      | count => exact Uncapped.ok _
      | min => exact Uncapped.ok _
      | max => exact Uncapped.ok _
      | sum =>
        simp only
        split
        · exact Uncapped.text _
        · exact Uncapped.ok _
      | avg =>
        simp only
        split
        · exact Uncapped.text _
        · exact Uncapped.ok _

theorem aggregateStep_uncapped (kind : AggKind) (star : Bool) (name : Bytes) (matched : Bool)
    (v : Value) (c : AggCell) (n m : Nat) :
    Table.aggregateStep kind star name matched v c ≠ .fail (.error (.resultTooLarge n m)) := by
  unfold Table.aggregateStep
  split
  · exact fun h => nomatch h
  · have hstep := AggCell.step_uncapped kind star name v c
    cases hx : c.step kind star name v with
    | ok c' => exact fun h => nomatch h
    | error f =>
      intro h
      cases h
      exact hstep n m hx

theorem groupStep_uncapped (aggs : List GroupAgg) (matched : Bool) (gvals : List Value)
    (val : Nat → Value) (g : Groups) (n m : Nat) :
    groupStep aggs matched gvals val g ≠ .fail (.error (.resultTooLarge n m)) := by
  unfold groupStep
  split
  · exact fun h => nomatch h
  · have hstep : Uncapped (g.accumulate aggs gvals val) :=
      (Uncapped.mapM (fun p => AggCell.step_uncapped _ _ _ _ _) _).bind fun cells => Uncapped.ok _
    cases hx : g.accumulate aggs gvals val with
    | ok g' => exact fun h => nomatch h
    | error f =>
      intro h
      cases h
      exact hstep n m hx

end Uncapped

namespace Table

variable {env : Env} {t : Table}

theorem aggregateScan_uncapped (kind : AggKind) (star : Bool) (name column cond : Bytes)
    (compiled : CompiledCondition) :
    Uncapped (t.aggregateScan env kind star name column cond compiled) := by
  unfold aggregateScan
  split
  · split
    · exact Uncapped.text _
    · refine Uncapped.loop env (fun c row n m => ?_) _ _
      split
      · exact fun h => nomatch h
      · exact aggregateStep_uncapped _ _ _ _ _ _ n m
  · refine Uncapped.loop env (fun c key n m => ?_) _ _
    split
    · exact fun h => nomatch h
    · exact aggregateStep_uncapped _ _ _ _ _ _ n m

theorem countPlan_ne_fail (cond : Bytes) (compiled : CompiledCondition) (f : Fault) :
    t.countPlan cond compiled ≠ .fail f := by
  unfold countPlan
  split
  · exact fun h => nomatch h
  · split
    · exact fun h => nomatch h
    · split_ifs <;> exact fun h => nomatch h

theorem aggregatePlan_fail {kind : AggKind} {expression cond : Bytes} {f : Fault}
    (h : t.aggregatePlan kind expression cond = .fail f) : ∃ message, f =
      .error (.text message) := by
  unfold aggregatePlan at h
  split at h
  · cases hc : compileCondition cond t.columns with
    | none =>
      rw [hc] at h
      simp only at h
      split_ifs at h <;> cases h <;> exact ⟨_, rfl⟩
    | some compiled =>
      rw [hc] at h
      simp only at h
      split_ifs at h
      · cases h
        exact ⟨_, rfl⟩
      · cases h
        exact ⟨_, rfl⟩
      · cases h
        exact ⟨_, rfl⟩
      · exact absurd h (countPlan_ne_fail cond compiled f)
  · cases h
    exact ⟨_, rfl⟩

theorem aggregateResult_uncapped (kind : AggKind) (expression cond : Bytes) :
    Uncapped (t.aggregateResult env kind expression cond) := by
  rw [aggregateResult_eq]
  cases hplan : t.aggregatePlan kind expression cond with
  | fail f =>
    obtain ⟨message, rfl⟩ := aggregatePlan_fail hplan
    exact Uncapped.text message
  | cell v => exact Uncapped.ok _
  | bucket column value compiled =>
    exact (Uncapped.loop env (fun n key _ _ h => by cases h) _ _).bind fun n => Uncapped.ok _
  | scan star column compiled =>
    exact (aggregateScan_uncapped _ _ _ _ _ _).bind fun c => Uncapped.ok _

theorem groupScan_uncapped (groupBy : List Bytes) (gIdx : List Nat) (aggs : List GroupAgg)
    (cond : Bytes) (compiled : CompiledCondition) :
      Uncapped (t.groupScan env groupBy gIdx aggs cond compiled) := by
  unfold groupScan
  split
  · refine Uncapped.loop env (fun g row n m => ?_) _ _
    split
    · exact fun h => nomatch h
    · exact groupStep_uncapped _ _ _ _ _ n m
  · refine Uncapped.loop env (fun g key n m => ?_) _ _
    split
    · exact fun h => nomatch h
    · exact groupStep_uncapped _ _ _ _ _ n m

theorem parseGroupItem_uncapped (colIndex : Map Nat) (groupBy : List Bytes) (part : Bytes) :
    Uncapped (parseGroupItem colIndex groupBy part) := by
  unfold parseGroupItem
  simp only
  split
  · exact Uncapped.text _
  · split
    · split
      · exact Uncapped.ok _
      · split
        · exact Uncapped.ok _
        · exact Uncapped.text _
    · split
      · exact Uncapped.ok _
      · exact Uncapped.text _

theorem groupedLines_uncapped (hrows : env.maxRows = 0) (tail : SelectTail) (distinct : Bool)
    (items : List GroupItem) (columns : List Column) (groups : Groups) :
    Uncapped (groupedLines env tail distinct items columns groups) := by
  unfold groupedLines
  refine Uncapped.bind ?_ fun having => Uncapped.bind ?_ fun sorted => ?_
  · unfold compileHaving
    split
    · exact Uncapped.ok _
    · split
      · exact Uncapped.ok _
      · exact Uncapped.text _
  · unfold orderGroups
    split
    · exact Uncapped.ok _
    · split
      · exact Uncapped.text _
      · exact Uncapped.ok _
  · rw [hrows, capResultRows_zero]
    exact Uncapped.ok _

theorem groupedResult_uncapped_never (hrows : env.maxRows = 0) (selectExpr : Bytes)
    (tail : SelectTail)
    (distinct : Bool) : Uncapped (t.groupedResult env selectExpr tail distinct) := by
  unfold groupedResult
  refine Uncapped.bind (Uncapped.mapM (fun g => ?_) _) fun gIdx =>
    (Uncapped.mapM (parseGroupItem_uncapped _ _) _).bind fun items => ?_
  · split
    · exact Uncapped.ok _
    · exact Uncapped.text _
  · split
    · exact Uncapped.text _
    · exact (groupScan_uncapped _ _ _ _ _).bind fun groups => groupedLines_uncapped hrows _ _ _ _ _

theorem compileFor_uncapped (q : Query) (term : Option FastTerm) :
    Uncapped (t.compileFor q term) := by
  unfold compileFor
  split
  · split
    · exact Uncapped.ok _
    · exact Uncapped.text _
  · exact Uncapped.ok _

theorem gather_uncapped (henv : env.Live) (hlimit : q.tail.limit ≠ some 0)
    (hcap : ∀ c, cap = some c → 0 < c) (path : Path) : Uncapped (t.gather env q cap path) := by
  have hanswer : ∀ compiled, (∃ key, path = .key key) ∨ t.compileFor q (t.termFor q) =
      .ok compiled → Uncapped (t.gather env q cap path) := by
    intro compiled hfor
    obtain ⟨rows, hrows, -⟩ := gather_live henv (Or.inl hlimit) hcap hfor
    rw [hrows]
    exact Uncapped.ok _
  by_cases hkey : ∃ key, path = .key key
  · exact hanswer [] (Or.inl hkey)
  · cases hfor : t.compileFor q (t.termFor q) with
    | ok compiled => exact hanswer compiled (Or.inr hfor)
    | error f =>
      rw [gather_invalid hfor fun key h => hkey ⟨key, h⟩]
      intro n m h
      cases h
      exact compileFor_uncapped q _ n m hfor

theorem selectTable_uncapped_never (henv : env.Live) (hrows : env.maxRows = 0) (selectExpr : Bytes)
    (distinct : Bool) {tail : SelectTail} (hlimit : tail.limit ≠ some 0) :
    Uncapped (t.selectTable env selectExpr distinct tail) := by
  unfold selectTable
  split
  · exact groupedResult_uncapped_never hrows selectExpr tail distinct
  · split
    · exact Uncapped.text _
    · cases aggregateKind selectExpr with
      | some kind =>
        exact (aggregateResult_uncapped kind selectExpr tail.cond).bind fun r => Uncapped.ok _
      | none =>
        simp only
        split
        · exact Uncapped.text _
        · rw [selectPlain_eq, selectBy_gather, hrows]
          refine Uncapped.bind ?_ fun rows => ?_
          · exact gather_uncapped henv hlimit (rowCap_pos fun hboth => hlimit hboth.1) _
          · rw [window, capResultRows_zero]
            exact Uncapped.ok _

end Table

/-- On a table whose fast array is in step, so that no cell is read past the end of a row, a SELECT
under a row cap is refused exactly if its result without the cap has more rows, and otherwise has
the same outcome; in a context that may be cancelled, this holds of a query that is answered without
the cap. -/
theorem max_rows_exact {db : Database} {s : Bytes} {t : Table} {selectExpr : Bytes}
    {distinct : Bool}
    {tail : SelectTail} (hread : db.Reads s t selectExpr distinct tail) (hstep : t.InStep)
    (hcount : t.Countable) (hlimit : tail.limit ≠ some 0) (env : Env) {m : Nat} (hpos : 0 < m) :
    t.InRange ∧
    (env.Live →
      ((∃ n, db.selectRows { env with maxRows := m } s = .error (.error (.resultTooLarge n m))) ↔
        ∃ r, db.selectRows { env with maxRows := 0 } s = .ok r ∧ m < r.rows.length) ∧
      ((¬∃ r, db.selectRows { env with maxRows := 0 } s = .ok r ∧ m < r.rows.length) →
        db.selectRows { env with maxRows := m } s = db.selectRows { env with maxRows := 0 } s)) ∧
    (∀ r, db.selectRows { env with maxRows := 0 } s = .ok r →
      (m < r.rows.length → ∃ n, db.selectRows { env with maxRows := m } s =
        .error (.error (.resultTooLarge n m))) ∧
      (r.rows.length ≤ m → db.selectRows { env with maxRows := m } s = .ok r)) := by
  rw [hread.selectRows, hread.selectRows]
  refine ⟨hstep.inRange, fun henv => ?_, fun r hr => ?_⟩
  · have hcaps := hcount.selectTable_capsTo henv hpos selectExpr distinct tail
    have hlive : ({ env with maxRows := 0 } : Env).Live := henv
    have hnever := Table.selectTable_uncapped_never (t := t) hlive rfl selectExpr distinct hlimit
    have hsame : (¬∃ r, t.selectTable { env with maxRows := 0 } selectExpr distinct tail = .ok r ∧
        m < r.rows.length) → t.selectTable { env with maxRows := m } selectExpr distinct tail =
          t.selectTable { env with maxRows := 0 } selectExpr distinct tail := by
      intro hfew
      cases hx : t.selectTable { env with maxRows := 0 } selectExpr distinct tail with
      | error f => exact hcaps.error f hx
      | ok r => exact hcaps.fits r hx (Nat.not_lt.1 fun hlt => hfew ⟨r, hx, hlt⟩)
    refine ⟨⟨?_, ?_⟩, hsame⟩
    · rintro ⟨n, hn⟩
      by_contra hfew
      rw [hsame hfew] at hn
      exact hnever n m hn
    · rintro ⟨r, hr, hlt⟩
      exact hcaps.exceeds r hr hlt
  · have hcaps := hcount.selectTable_capsTo env.uncancelled_live hpos selectExpr distinct tail
    rw [Table.selectTable_sooner hpos hr]
    have hfree := Table.selectTable_uncancelled hr
    exact ⟨hcaps.exceeds r hfree, hcaps.fits r hfree⟩

def twoRows : Database :=
  Database.runAll {} (script ["CREATE TABLE t (v INT)", "INSERT INTO t VALUES (5), (6)"])

theorem twoRows_countable {t : Table} (h : twoRows.table (str "t") = .ok t) : t.Countable := by
  obtain ⟨u, hu, hfits, hnone⟩ : ∃ t, twoRows.table (str "t") = .ok t ∧
      (t.order.length < 2 ^ 63 - 1 ∧ t.fast.length < 2 ^ 63 - 1) ∧ t.indexes.isEmpty = true := by
    decide +kernel
  obtain rfl : u = t := Except.ok.inj (hu.symm.trans h)
  refine ⟨hfits, fun column value => ?_⟩
  rw [Std.ExtTreeMap.isEmpty_iff.1 hnone]
  exact Nat.lt_of_le_of_lt (Nat.le_of_eq Std.ExtTreeMap.size_empty) (by decide)

theorem max_rows_one : ∃ t e d tail, twoRows.Reads (str "SELECT v FROM t") t e d tail ∧ t.InStep ∧
    t.Countable ∧ tail.limit ≠ some 0 ∧
    (∃ n, twoRows.selectRows { maxRows := 1 } (str "SELECT v FROM t") =
      .error (.error (.resultTooLarge n 1))) ∧
    twoRows.selectRows { maxRows := 2 } (str "SELECT v FROM t") =
      twoRows.selectRows {} (str "SELECT v FROM t") := by
  obtain ⟨t, ht, hfrom, hok⟩ : ∃ t, twoRows.table (str "t") = .ok t ∧
      twoRows.readsFrom (str "SELECT v FROM t") (str "t") (str "v") false { headEnd := 1 } ∧
      twoRows.selectRows {} (str "SELECT v FROM t") =
        .ok { columns := [str "v"], rows := [[.int 5], [.int 6]] } := by
    decide +kernel
  have hreads := Database.reads_of_table ht hfrom
  have hcount := twoRows_countable ht
  have hstep := (Database.runAll_inStep (uncancelled_script _) _ t (Database.table_ok ht)).2
  have hexact := @max_rows_exact _ _ _ _ _ _ hreads hstep hcount (fun h => nomatch h) {}
  refine ⟨t, _, _, _, hreads, hstep, hcount, (fun h => nomatch h), ?_, ?_⟩
  · exact ((hexact Nat.one_pos).2.2 _ hok).1 (by decide)
  · rw [hok]
    exact ((hexact Nat.two_pos).2.2 _ hok).2 (by decide)

end SuperDB.Engine
