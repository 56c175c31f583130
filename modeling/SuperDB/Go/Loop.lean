import SuperDB.Go.Map

/-!
# Loops that can be interrupted

A `for ... range` loop over a slice whose body may go on, break out or return an error, and which
polls a context before every round. `rangeLoop` returns the state the loop leaves behind, also
when it is left early: code that changes shared state in the loop body leaves its partial changes.
-/

namespace SuperDB.Go

/-- A computation that succeeds succeeds step by step. -/
theorem bind_ok {ε α β : Type} {x : Except ε α} {f : α → Except ε β} {b : β}
    (h : x >>= f = .ok b) : ∃ a, x = .ok a ∧ f a = .ok b := by
  cases x with
  | error e => cases h
  | ok a => exact ⟨a, rfl, h⟩

theorem toOption_eq_some {ε α : Type} {x : Except ε α} {a : α} (h : x.toOption = some a) :
    x = .ok a := by
  cases x with
  | error e => cases h
  | ok b => exact congrArg Except.ok (Option.some.inj h)

/-- How a round of a loop ends. -/
inductive Ctl (σ ε : Type) where
  | next (s : σ)
  | stop (s : σ)
  | fail (e : ε)

/-- Runs the body over the elements; round `n + 1` first polls for an interruption. -/
def rangeLoop {σ α ε : Type} (poll : Nat → Option ε) (body : σ → α → Ctl σ ε) :
    Nat → List α → σ → σ × Option ε
  | _, [], s => (s, none)
  | n, a :: l, s =>
    match poll (n + 1) with
    | some e => (s, some e)
    | none =>
      match body s a with
      | .next s' => rangeLoop poll body (n + 1) l s'
      | .stop s' => (s', none)
      | .fail e => (s, some e)

section

variable {σ α ε : Type} {poll : Nat → Option ε}

theorem rangeLoop_eq_foldl (hpoll : ∀ n, poll n = none) (f : σ → α → σ) (n : Nat) (l : List α)
    (s : σ) : rangeLoop poll (fun s a => .next (f s a)) n l s = (l.foldl f s, none) := by
  induction l generalizing n s with
  | nil => rfl
  | cons a l ih =>
    simp only [rangeLoop, hpoll, List.foldl_cons]
    exact ih (n + 1) (f s a)

/-- What every round preserves holds when the loop is left, however it is left. -/
theorem rangeLoop_invariant (poll : Nat → Option ε) {P : σ → Prop} {f : σ → α → σ}
    {l : List α} {s : σ} (hf : ∀ s, ∀ a ∈ l, P s → P (f s a)) (hs : P s) (n : Nat) :
    P (rangeLoop poll (fun s a => .next (f s a)) n l s).1 := by
  induction l generalizing n s with
  | nil => exact hs
  | cons a l ih =>
    simp only [rangeLoop]
    cases poll (n + 1) with
    | some e => exact hs
    | none =>
      exact ih (fun s b hb => hf s b (List.mem_cons_of_mem _ hb)) (hf s a List.mem_cons_self hs)
        (n + 1)

theorem rangeLoop_map {τ : Type} (poll : Nat → Option ε) (φ : σ → τ) {f : σ → α → σ} {g : τ → α → τ}
    (hφ : ∀ s a, φ (f s a) = g (φ s) a) (n : Nat) (l : List α) (s : σ) :
    rangeLoop poll (fun s a => .next (g s a)) n l (φ s) =
      Prod.map φ id (rangeLoop poll (fun s a => .next (f s a)) n l s) := by
  induction l generalizing n s with
  | nil => rfl
  | cons a l ih =>
    simp only [rangeLoop]
    cases poll (n + 1) with
    | some e => rfl
    | none =>
      simp only
      rw [← hφ]
      exact ih (n + 1) (f s a)

/-- A loop without early exits runs to the end or stops at the first poll that reports an
error, having processed the elements before it. -/
theorem rangeLoop_foldl (poll : Nat → Option ε) (f : σ → α → σ) (n : Nat) (l : List α) (s : σ) :
    (rangeLoop poll (fun s a => .next (f s a)) n l s = (l.foldl f s, none) ∧
      ∀ i, i < l.length → poll (n + i + 1) = none) ∨
    ∃ k e, k < l.length ∧ poll (n + k + 1) = some e ∧ (∀ i, i < k → poll (n + i + 1) = none) ∧
      rangeLoop poll (fun s a => .next (f s a)) n l s = ((l.take k).foldl f s, some e) := by
  induction l generalizing n s with
  | nil => exact Or.inl ⟨rfl, fun i hi => absurd hi (Nat.not_lt_zero i)⟩
  | cons a l ih =>
    cases hp : poll (n + 1) with
    | some e =>
      refine Or.inr ⟨0, e, Nat.succ_pos _, hp, fun i hi => absurd hi (Nat.not_lt_zero i), ?_⟩
      simp only [rangeLoop, hp, List.take_zero, List.foldl_nil]
    | none =>
      have hloop : rangeLoop poll (fun s a => .next (f s a)) n (a :: l) s =
          rangeLoop poll (fun s a => .next (f s a)) (n + 1) l (f s a) := by
        simp only [rangeLoop, hp]
      have hshift : ∀ i, n + 1 + i + 1 = n + (i + 1) + 1 := fun i => by omega
      rw [hloop]
      rcases ih (n + 1) (f s a) with ⟨hrun, hnone⟩ | ⟨k, e, hk, he, hbefore, hrun⟩
      · refine Or.inl ⟨hrun, fun i hi => ?_⟩
        cases i with
        | zero => exact hp
        | succ i =>
          rw [← hshift]
          exact hnone i (Nat.lt_of_succ_lt_succ hi)
      · refine Or.inr ⟨k + 1, e, Nat.succ_lt_succ hk, ?_, fun i hi => ?_, hrun⟩
        · rw [← hshift]
          exact he
        · cases i with
          | zero => exact hp
          | succ i =>
            rw [← hshift]
            exact hbefore i (Nat.lt_of_succ_lt_succ hi)

theorem rangeLoop_error {body : σ → α → Ctl σ ε} {P : ε → Prop}
    (hpoll : ∀ n e, poll n = some e → P e) (hbody : ∀ s a e, body s a = .fail e → P e)
    {n : Nat} {l : List α} {s : σ} {e : ε} (h : (rangeLoop poll body n l s).2 = some e) : P e := by
  induction l generalizing n s with
  | nil => cases h
  | cons a l ih =>
    simp only [rangeLoop] at h
    cases hp : poll (n + 1) with
    | some e' =>
      rw [hp] at h
      cases h
      exact hpoll _ _ hp
    | none =>
      simp only [hp] at h
      cases hb : body s a with
      | next s' =>
        simp only [hb] at h
        exact ih h
      | stop s' =>
        simp only [hb] at h
        cases h
      | fail e' =>
        simp only [hb] at h
        cases h
        exact hbody _ _ _ hb

theorem rangeLoop_filterMap {β : Type} (hpoll : ∀ n, poll n = none) {g : α → Option β}
    {body : σ → α → Ctl σ ε} {body' : σ → β → Ctl σ ε} {l : List α}
    (hskip : ∀ s, ∀ a ∈ l, g a = none → body s a = .next s)
    (hbody : ∀ s, ∀ a ∈ l, ∀ b, g a = some b → body s a = body' s b) (n m : Nat) (s : σ) :
    rangeLoop poll body n l s = rangeLoop poll body' m (l.filterMap g) s := by
  induction l generalizing n m s with
  | nil => rfl
  | cons a l ih =>
    have hrest := ih (fun s a ha => hskip s a (List.mem_cons_of_mem _ ha))
      (fun s a ha => hbody s a (List.mem_cons_of_mem _ ha))
    cases hg : g a with
    | none =>
      rw [List.filterMap_cons_none hg, rangeLoop, hpoll]
      simp only [hskip s a List.mem_cons_self hg]
      exact hrest (n + 1) m s
    | some b =>
      rw [List.filterMap_cons_some hg, rangeLoop, rangeLoop, hpoll, hpoll]
      simp only [hbody s a List.mem_cons_self b hg]
      cases body' s b with
      | next s' => exact hrest (n + 1) (m + 1) s'
      | stop s' => rfl
      | fail e => rfl

/-- The number of rounds that a loop over `n` elements completes before a poll interrupts it. -/
def interruptedAt (poll : Nat → Option ε) (n : Nat) : Option Nat :=
  (List.range n).find? fun k => (poll (k + 1)).isSome

theorem rangeLoop_interruptedAt (poll : Nat → Option ε) (f : σ → α → σ) (l : List α) (s : σ) :
    rangeLoop poll (fun s a => .next (f s a)) 0 l s =
      match interruptedAt poll l.length with
      | none => (l.foldl f s, none)
      | some k => ((l.take k).foldl f s, poll (k + 1)) := by
  rcases rangeLoop_foldl poll f 0 l s with ⟨hrun, hnone⟩ | ⟨k, e, hk, he, hbefore, hrun⟩
  · have hfind : interruptedAt poll l.length = none := by
      refine List.find?_eq_none.2 fun i hi => ?_
      have hpoll := hnone i (List.mem_range.1 hi)
      rw [Nat.zero_add] at hpoll
      simp [hpoll]
    rw [hrun, hfind]
  · rw [Nat.zero_add] at he
    have hfind : interruptedAt poll l.length = some k := by
      unfold interruptedAt
      rw [List.find?_range_eq_some]
      refine ⟨by simp [he], List.mem_range.2 hk, fun i hi => ?_⟩
      have hpoll := hbefore i hi
      rw [Nat.zero_add] at hpoll
      simp [hpoll]
    simp only [hrun, hfind, he]

theorem interruptedAt_some {poll : Nat → Option ε} {n k : Nat}
    (h : interruptedAt poll n = some k) : k < n ∧ ∃ e, poll (k + 1) = some e := by
  have hmem := List.mem_of_find?_eq_some h
  have hsome := List.find?_some h
  exact ⟨List.mem_range.1 hmem, Option.isSome_iff_exists.1 hsome⟩

end

/-! ## Loops with a cap -/

section Cap

variable {σ α ε : Type}

def cappedRound (looks : σ → α → Bool) (f : σ → α → σ) (size : σ → Nat) (cap : Option Nat)
    (s : σ) (a : α) : Ctl σ ε :=
  if looks s a && cap.any (· ≤ size (f s a)) then .stop (f s a) else .next (f s a)

variable {poll : Nat → Option ε} {looks : σ → α → Bool} {f : σ → α → σ} {size : σ → Nat}

/-- The first `c` elements of a list, if there is a cap. -/
def takeUpTo {β : Type} (cap : Option Nat) (l : List β) : List β := cap.elim l (l.take ·)

theorem foldl_start {β : Type} {out : σ → List β} (hgrow : ∀ s a, out s <+: out (f s a))
    (l : List α) (s : σ) : out s <+: out (l.foldl f s) := by
  induction l generalizing s with
  | nil => exact List.prefix_refl _
  | cons a l ih => exact (hgrow s a).trans (ih (f s a))

/-- A loop that is never interrupted, puts out at most one item a round and looks at its cap
whenever it does, puts out the first items of what it would put out without the cap. -/
theorem rangeLoop_takeUpTo {β : Type} (hpoll : ∀ n, poll n = none) {out : σ → List β}
    (hgrow : ∀ s a, out (f s a) = out s ∨ looks s a = true ∧ ∃ b, out (f s a) = out s ++ [b])
    {cap : Option Nat} (n : Nat) (l : List α) {s : σ}
    (hcap : ∀ c, cap = some c → (out s).length < c) :
    ∃ s', rangeLoop poll (cappedRound looks f (fun s => (out s).length) cap) n l s = (s', none) ∧
      out s' = takeUpTo cap (out (l.foldl f s)) := by
  have hstart : ∀ s a, out s <+: out (f s a) := by
    intro s a
    rcases hgrow s a with h | ⟨-, b, h⟩
    · rw [h]
    · rw [h]
      exact List.prefix_append _ _
  induction l generalizing n s with
  | nil =>
    refine ⟨s, rfl, ?_⟩
    cases cap with
    | none => rfl
    | some c => exact (List.take_of_length_le (Nat.le_of_lt (hcap c rfl))).symm
  | cons a l ih =>
    rw [rangeLoop, hpoll]
    simp only [cappedRound, List.foldl_cons]
    by_cases hstop : (looks s a && cap.any (· ≤ (out (f s a)).length)) = true
    · rw [if_pos hstop]
      refine ⟨f s a, rfl, ?_⟩
      rw [Bool.and_eq_true] at hstop
      obtain ⟨-, hreached⟩ := hstop
      cases cap with
      | none => cases hreached
      | some c =>
        -- The round that reaches the cap puts out the last item.
        rw [Option.any_some, decide_eq_true_eq] at hreached
        have hlt := hcap c rfl
        have hlen : (out (f s a)).length = c := by
          rcases hgrow s a with h | ⟨-, b, h⟩
          · rw [h] at hreached
            omega
          · rw [h, List.length_append, List.length_singleton] at hreached ⊢
            omega
        have hprefix := List.prefix_iff_eq_take.1 (foldl_start hstart l (f s a))
        rw [hlen] at hprefix
        exact hprefix
    · rw [if_neg hstop]
      refine ih (n + 1) fun c hc => ?_
      have hlt := hcap c hc
      rcases hgrow s a with h | ⟨hlooks, b, h⟩
      · rwa [h]
      · rw [hlooks, hc, Bool.true_and, Option.any_some, decide_eq_true_eq] at hstop
        omega

theorem rangeLoop_takeUpTo_before {β : Type} (hpoll : ∀ n, poll n = none) {out : σ → List β}
    (hgrow : ∀ s a, out (f s a) = out s ∨ ∃ b, out (f s a) = out s ++ [b]) {cap : Option Nat}
    (n : Nat) (l : List α) {s : σ} (hcap : ∀ c, cap = some c → (out s).length ≤ c) :
    ∃ s', rangeLoop poll (fun s a => if cap.any (· ≤ (out s).length) then .stop s
      else .next (f s a))
        n l s = (s', none) ∧ out s' = takeUpTo cap (out (l.foldl f s)) := by
  have hstart : ∀ s a, out s <+: out (f s a) := by
    intro s a
    rcases hgrow s a with h | ⟨b, h⟩
    · rw [h]
    · rw [h]
      exact List.prefix_append _ _
  induction l generalizing n s with
  | nil =>
    refine ⟨s, rfl, ?_⟩
    cases cap with
    | none => rfl
    | some c => exact (List.take_of_length_le (hcap c rfl)).symm
  | cons a l ih =>
    rw [rangeLoop, hpoll]
    simp only
    by_cases hstop : cap.any (· ≤ (out s).length) = true
    · rw [if_pos hstop]
      refine ⟨s, rfl, ?_⟩
      cases cap with
      | none => cases hstop
      | some c =>
        rw [Option.any_some, decide_eq_true_eq] at hstop
        have hlen : (out s).length = c := Nat.le_antisymm (hcap c rfl) hstop
        have hprefix := List.prefix_iff_eq_take.1 (foldl_start hstart (a :: l) s)
        rw [hlen] at hprefix
        exact hprefix
    · rw [if_neg hstop]
      refine ih (n + 1) fun c hc => ?_
      rw [hc, Option.any_some, decide_eq_true_eq] at hstop
      rcases hgrow s a with h | ⟨b, h⟩
      · rw [h]
        omega
      · rw [h, List.length_append, List.length_singleton]
        omega

theorem rangeLoop_sooner {poll' : Nat → Option ε} (hpoll : ∀ n, poll' n = none)
    {body body' : σ → α → Ctl σ ε}
    (hbody : ∀ s a, body' s a = body s a ∨ ∃ s', body' s a = .stop s')
    {n : Nat} {l : List α} {s s' : σ} (h : rangeLoop poll body n l s = (s', none)) :
    rangeLoop poll body' n l s = rangeLoop poll' body' n l s := by
  induction l generalizing n s with
  | nil => rfl
  | cons a l ih =>
    rw [rangeLoop] at h
    cases hp : poll (n + 1) with
    | some e =>
      rw [hp] at h
      cases h
    | none =>
      rw [hp] at h
      rw [rangeLoop, rangeLoop, hp, hpoll]
      simp only at h ⊢
      rcases hbody s a with hsame | ⟨s₁, hstop⟩
      · rw [hsame]
        cases hb : body s a with
        | next s₁ =>
          rw [hb] at h
          exact ih h
        | stop s₁ => rfl
        | fail e => rfl
      · rw [hstop]

end Cap

end SuperDB.Go
