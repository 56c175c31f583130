import Mathlib.Logic.Function.Basic
import Mathlib.Data.Option.Basic

/-!
# Goroutines over a shared state

A goroutine is a tree of atomic actions: it returns, it panics and takes the process down, or it
performs an action on the shared state and goes on with the answer. It can be run alone, or as one
of the connections of a server, whose actions interleave in any order.

What a goroutine does is specified in the rely-guarantee style: between two of its actions the
others may move the state along `rely`, and each of its own actions moves it along `guar`. If what
one connection guarantees is what the others rely on, all of them keep their specification in
every interleaving.
-/

namespace SuperDB.Go

universe u v w

/-- A goroutine that performs actions `A`, the action `a` being answered by an `R a`. -/
inductive Proc (A : Type u) (R : A → Type) (α : Type) where
  | ret (a : α)
  | crash
  | act (a : A) (k : R a → Proc A R α)

namespace Proc

variable {A : Type u} {R : A → Type} {α β : Type} {σ : Type v}

def bind (p : Proc A R α) (f : α → Proc A R β) : Proc A R β :=
  match p with
  | .ret a => f a
  | .crash => .crash
  | .act a k => .act a fun r => (k r).bind f

instance : Monad (Proc A R) where
  pure := .ret
  bind := bind

/-- The goroutine run alone; it has no result if it crashes. -/
def run (handle : (a : A) → σ → R a × σ) : Proc A R α → σ → Option α × σ
  | .ret a, s => (some a, s)
  | .crash, s => (none, s)
  | .act a k, s => run handle (k (handle a s).1) (handle a s).2

@[simp] theorem ret_bind (a : α) (f : α → Proc A R β) : (ret a : Proc A R α) >>= f = f a := rfl

@[simp] theorem crash_bind (f : α → Proc A R β) : (crash : Proc A R α) >>= f = crash := rfl

@[simp] theorem act_bind (a : A) (k : R a → Proc A R α) (f : α → Proc A R β) :
    act a k >>= f = act a fun r => k r >>= f := rfl

theorem run_bind (handle : (a : A) → σ → R a × σ) (p : Proc A R α) (f : α → Proc A R β) (s : σ) :
    (p >>= f).run handle s =
      match p.run handle s with
      | (some a, s') => (f a).run handle s'
      | (none, s') => (none, s') := by
  induction p generalizing s with
  | ret a => rfl
  | crash => rfl
  | act a k ih => exact ih _ _

end Proc

/-! ## Agreement -/

namespace Proc

variable {A : Type u} {R : A → Type} {α β γ δ : Type} {σ : Type v}

/-- The goroutine with a panic recovered: it returns `b` instead. -/
def recover (b : α) : Proc A R α → Proc A R α
  | .ret a => .ret a
  | .crash => .ret b
  | .act a k => .act a fun r => (k r).recover b

/-- Two goroutines that perform the same actions, whatever the answers are, and return related
results. -/
inductive Agree (rel : α → β → Prop) : Proc A R α → Proc A R β → Prop where
  | ret {a : α} {b : β} (h : rel a b) : Agree rel (.ret a) (.ret b)
  | crash : Agree rel .crash .crash
  | act (a : A) {k : R a → Proc A R α} {l : R a → Proc A R β} (h : ∀ r, Agree rel (k r) (l r)) :
      Agree rel (.act a k) (.act a l)

theorem Agree.bind {rel : α → β → Prop} {rel' : γ → δ → Prop} {p : Proc A R α} {q : Proc A R β}
    {f : α → Proc A R γ} {g : β → Proc A R δ} (h : Agree rel p q)
    (hf : ∀ a b, rel a b → Agree rel' (f a) (g b)) : Agree rel' (p >>= f) (q >>= g) := by
  induction h with
  | ret h => exact hf _ _ h
  | crash => exact .crash
  | act a _ ih => exact .act a ih

theorem Agree.refl (p : Proc A R α) : Agree (· = ·) p p := by
  induction p with
  | ret a => exact .ret rfl
  | crash => exact .crash
  | act a k ih => exact .act a ih

theorem Agree.run {rel : α → β → Prop} {p : Proc A R α} {q : Proc A R β} (h : Agree rel p q)
    (handle : (a : A) → σ → R a × σ) (s : σ) :
    (p.run handle s).2 = (q.run handle s).2 ∧
      Option.Rel rel (p.run handle s).1 (q.run handle s).1 := by
  induction h generalizing s with
  | ret h => exact ⟨rfl, .some h⟩
  | crash => exact ⟨rfl, .none⟩
  | act a _ ih => exact ih _ _

end Proc

/-! ## Histories -/

namespace Proc

variable {A : Type u} {R : A → Type} {α β : Type} (possible : (a : A) → R a → Prop)

/-- Whatever the answers are, a result satisfies `Q`. -/
def Yields (Q : α → Prop) : Proc A R α → Prop
  | .ret a => Q a
  | .crash => True
  | .act _ k => ∀ r, Yields Q (k r)

theorem Yields.bind {Q : β → Prop} {p : Proc A R α} {f : α → Proc A R β}
    (hf : ∀ a, Yields Q (f a)) : Yields Q (p >>= f) := by
  induction p with
  | ret a => exact hf a
  | crash => trivial
  | act a k ih => exact fun r => ih r

/-- What a goroutine may have done so far: its actions, with the answers they got. -/
inductive History : Proc A R α → List (Sigma R) → Prop where
  | nil (p : Proc A R α) : History p []
  | act (a : A) {k : R a → Proc A R α} {r : R a} {l : List (Sigma R)} (hr : possible a r)
      (h : History (k r) l) : History (.act a k) (⟨a, r⟩ :: l)

/-- Whatever the goroutine does is allowed after what has been done before, and `post` holds where
it returns, with its result, or panics. -/
def Obeys (ok : List (Sigma R) → A → Prop) (post : Option α → List (Sigma R) → Prop) :
    Proc A R α → List (Sigma R) → Prop
  | .ret a, past => post (some a) past
  | .crash, past => post none past
  | .act a k, past =>
    ok past a ∧ ∀ r, possible a r → Obeys ok post (k r) (past ++ [⟨a, r⟩])

variable {possible} {ok : List (Sigma R) → A → Prop} {post : Option α → List (Sigma R) → Prop}

theorem History.answered {p : Proc A R α} {l : List (Sigma R)}
    (h : History possible p l) {e : Sigma R} (he : e ∈ l) : possible e.1 e.2 := by
  induction h with
  | nil p => cases he
  | act a hr _ ih =>
    rcases List.mem_cons.1 he with rfl | he
    · exact hr
    · exact ih he

theorem Obeys.bind {post' : Option β → List (Sigma R) → Prop} {p : Proc A R α}
    {f : α → Proc A R β} {past : List (Sigma R)} (h : Obeys possible ok post p past)
    (hf : ∀ a past', post (some a) past' → Obeys possible ok post' (f a) past')
    (hcrash : ∀ past', post none past' → post' none past') :
    Obeys possible ok post' (p >>= f) past := by
  induction p generalizing past with
  | ret a => exact hf a past h
  | crash => exact hcrash past h
  | act a k ih => exact ⟨h.1, fun r hr => ih r (h.2 r hr)⟩

theorem Obeys.recover {b : α} {p : Proc A R α} {past : List (Sigma R)}
    (h : Obeys possible ok post p past)
    (hcrash : ∀ past', post none past' → post (some b) past') :
    Obeys possible ok post (p.recover b) past := by
  induction p generalizing past with
  | ret a => exact h
  | crash => exact hcrash past h
  | act a k ih => exact ⟨h.1, fun r hr => ih r (h.2 r hr)⟩

theorem Obeys.history {p : Proc A R α} {past : List (Sigma R)} (h : Obeys possible ok post p past)
    {l l₁ l₂ : List (Sigma R)} {e : Sigma R} (hl : History possible p l)
    (hsplit : l = l₁ ++ e :: l₂) : ok (past ++ l₁) e.1 := by
  induction hl generalizing past l₁ with
  | nil p => cases l₁ <;> cases hsplit
  | act a hr hl ih =>
    cases l₁ with
    | nil =>
      cases hsplit
      simpa using h.1
    | cons e' l₁ =>
      cases hsplit
      simpa using ih (h.2 _ hr) rfl

end Proc

/-! ## Specifications -/

/-- The rules under which a goroutine runs: what its actions do, what may be assumed when one of
them is performed, what the others may do in between, and what it may do itself. -/
structure Rules (A : Type u) (R : A → Type) (σ : Type v) where
  handle : (a : A) → σ → R a × σ
  pre : A → σ → Prop
  rely : σ → σ → Prop
  guar : σ → σ → Prop
  rely_refl : ∀ s, rely s s
  rely_trans : ∀ {s₁ s₂ s₃}, rely s₁ s₂ → rely s₂ s₃ → rely s₁ s₃

namespace Proc

variable {A : Type u} {R : A → Type} {α β : Type} {σ : Type v} (rules : Rules A R σ)

/-- Under its rules, started at the given state, the goroutine keeps its guarantee and returns
only where `post` holds. -/
def Spec (post : α → σ → Prop) : Proc A R α → σ → Prop
  | .ret a, s => ∀ s', rules.rely s s' → post a s'
  | .crash, _ => True
  | .act a k, s => ∀ s', rules.rely s s' → rules.pre a s' →
      rules.guar s' (rules.handle a s').2 ∧
      Spec post (k (rules.handle a s').1) (rules.handle a s').2

variable {rules} {post : α → σ → Prop}

theorem Spec.of_rely {p : Proc A R α} {s s' : σ} (h : Spec rules post p s)
    (hrely : rules.rely s s') : Spec rules post p s' := by
  cases p with
  | ret a => exact fun s'' hs => h s'' (rules.rely_trans hrely hs)
  | crash => trivial
  | act a k => exact fun s'' hs => h s'' (rules.rely_trans hrely hs)

theorem Spec.bind {post' : β → σ → Prop} {p : Proc A R α} {f : α → Proc A R β} {s : σ}
    (h : Spec rules post p s) (hf : ∀ a s', post a s' → Spec rules post' (f a) s') :
    Spec rules post' (p >>= f) s := by
  induction p generalizing s with
  | ret a => exact hf a s (h s (rules.rely_refl s))
  | crash => trivial
  | act a k ih =>
    intro s' hs hpre
    obtain ⟨hguar, hk⟩ := h s' hs hpre
    exact ⟨hguar, ih _ hk⟩

theorem Spec.mono {post' : α → σ → Prop} {p : Proc A R α} {s : σ} (h : Spec rules post p s)
    (hpost : ∀ a s', post a s' → post' a s') : Spec rules post' p s := by
  induction p generalizing s with
  | ret a => exact fun s' hs => hpost a s' (h s' hs)
  | crash => trivial
  | act a k ih =>
    intro s' hs hpre
    obtain ⟨hguar, hk⟩ := h s' hs hpre
    exact ⟨hguar, ih _ hk⟩

end Proc

/-! ## Servers -/

/-- A server: what the actions of a connection do to the shared state, and the goroutine that
answers a request of a connection in a given local state. -/
structure Server (ι : Type) (A : Type u) (R : A → Type) (σ : Type v) (S : Type) (Q : Type w)
    (O : Type) where
  handle : ι → (a : A) → σ → R a × σ
  serve : Q → S → Proc A R (O × S)

/-- A connection waits for its next request or is answering one. -/
inductive Conn (A : Type u) (R : A → Type) (S O : Type) where
  | idle (s : S)
  | running (p : Proc A R (O × S))

def Conn.isIdle {A : Type u} {R : A → Type} {S O : Type} : Conn A R S O → Bool
  | .idle _ => true
  | .running _ => false

theorem Conn.exists_idle {A : Type u} {R : A → Type} {S O : Type} {c : Conn A R S O}
    (h : c.isIdle = true) : ∃ s, c = .idle s := by
  cases c with
  | idle s => exact ⟨s, rfl⟩
  | running p => cases h

/-- A server process: the shared state, the connections and the replies sent so far. -/
structure World (ι : Type) (A : Type u) (R : A → Type) (σ : Type v) (S O : Type) where
  shared : σ
  conn : ι → Conn A R S O
  replies : List (ι × O) := []
  crashed : Bool := false

/-- A connection receives a request, or performs the next action of the one it is answering. -/
inductive Move (ι : Type) (Q : Type w) where
  | send (i : ι) (q : Q)
  | act (i : ι)

def Move.conn {ι : Type} {Q : Type w} : Move ι Q → ι
  | .send i _ => i
  | .act i => i

namespace World

variable {ι : Type} {A : Type u} {R : A → Type} {σ : Type v} {S : Type} {Q : Type w} {O : Type}
  [DecidableEq ι]

/-- Goes on with a goroutine: a reply is sent at once, a panic ends the process. -/
def continueWith (w : World ι A R σ S O) (i : ι) : Proc A R (O × S) → World ι A R σ S O
  | .ret (o, s) =>
    { w with conn := Function.update w.conn i (.idle s), replies := w.replies ++ [(i, o)] }
  | .crash => { w with crashed := true }
  | .act a k => { w with conn := Function.update w.conn i (.running (.act a k)) }

/-- A request arrives; a connection that is answering one does not read it. -/
def receive (srv : Server ι A R σ S Q O) (w : World ι A R σ S O) (i : ι) (q : Q) :
    World ι A R σ S O :=
  match w.conn i with
  | .idle s => w.continueWith i (srv.serve q s)
  | .running _ => w

def perform (srv : Server ι A R σ S Q O) (w : World ι A R σ S O) (i : ι) : World ι A R σ S O :=
  match w.conn i with
  | .running (.act a k) =>
    ({ w with shared := (srv.handle i a w.shared).2 }).continueWith i
      (k (srv.handle i a w.shared).1)
  | _ => w

def step (srv : Server ι A R σ S Q O) (w : World ι A R σ S O) (m : Move ι Q) : World ι A R σ S O :=
  if w.crashed then w
  else
    match m with
    | .send i q => w.receive srv i q
    | .act i => w.perform srv i

theorem step_cases (srv : Server ι A R σ S Q O) (w : World ι A R σ S O) (m : Move ι Q) :
    w.step srv m = w ∨
    (∃ i q s, m = .send i q ∧ w.crashed = false ∧ w.conn i = .idle s ∧
      w.step srv m = w.continueWith i (srv.serve q s)) ∨
    ∃ i a k, m = .act i ∧ w.crashed = false ∧ w.conn i = .running (.act a k) ∧
      w.step srv m = ({ w with shared := (srv.handle i a w.shared).2 }).continueWith i
        (k (srv.handle i a w.shared).1) := by
  unfold step
  by_cases hdown : w.crashed = true
  · rw [if_pos hdown]
    exact Or.inl rfl
  · have hup : w.crashed = false := Bool.eq_false_iff.2 hdown
    rw [if_neg hdown]
    cases m with
    | send i q =>
      simp only [receive]
      cases hc : w.conn i with
      | idle s => exact Or.inr (Or.inl ⟨i, q, s, rfl, hup, hc, rfl⟩)
      | running p => exact Or.inl rfl
    | act i =>
      simp only [perform]
      cases hc : w.conn i with
      | idle s => exact Or.inl rfl
      | running p =>
        cases p with
        | ret r => exact Or.inl rfl
        | crash => exact Or.inl rfl
        | act a k => exact Or.inr (Or.inr ⟨i, a, k, rfl, hup, hc, rfl⟩)

def run (srv : Server ι A R σ S Q O) (w : World ι A R σ S O) (l : List (Move ι Q)) :
    World ι A R σ S O :=
  l.foldl (step srv) w

theorem shared_continueWith (w : World ι A R σ S O) (i : ι) (p : Proc A R (O × S)) :
    (w.continueWith i p).shared = w.shared := by
  cases p <;> rfl

/-- What every action preserves holds of the shared state after every run. -/
theorem shared_run {P : σ → Prop} {srv : Server ι A R σ S Q O} {w : World ι A R σ S O}
    (hP : ∀ i a s, P s → P (srv.handle i a s).2) (h : P w.shared) (l : List (Move ι Q)) :
    P (w.run srv l).shared := by
  induction l generalizing w with
  | nil => exact h
  | cons m l ih =>
    refine ih ?_
    rcases step_cases srv w m with hsame | ⟨i, q, s, -, -, -, hstep⟩ | ⟨i, a, k, -, -, -, hstep⟩
    · rwa [hsame]
    · rwa [hstep, shared_continueWith]
    · rw [hstep, shared_continueWith]
      exact hP i a w.shared h

theorem conn_continueWith (w : World ι A R σ S O) {i j : ι} (h : i ≠ j) (p : Proc A R (O × S)) :
    (w.continueWith i p).conn j = w.conn j := by
  cases p with
  | ret r => exact Function.update_of_ne h.symm _ _
  | crash => rfl
  | act a k => exact Function.update_of_ne h.symm _ _

theorem conn_run {srv : Server ι A R σ S Q O} {w : World ι A R σ S O} {l : List (Move ι Q)} {j : ι}
    (h : ∀ m ∈ l, m.conn ≠ j) : (w.run srv l).conn j = w.conn j := by
  induction l generalizing w with
  | nil => rfl
  | cons m l ih =>
    have hm := h m List.mem_cons_self
    have hstep : (w.step srv m).conn j = w.conn j := by
      rcases step_cases srv w m with hsame | ⟨i, q, s, rfl, -, -, hstep⟩ |
        ⟨i, a, k, rfl, -, -, hstep⟩
      · rw [hsame]
      · rw [hstep]
        exact conn_continueWith _ hm _
      · rw [hstep]
        exact conn_continueWith _ hm _
    exact (ih fun m' hm' => h m' (List.mem_cons_of_mem _ hm')).trans hstep

/-- A move is allowed if the request that arrives or the action that is performed meets a
condition. -/
def Allows (ok : Q → Prop) (pre : ι → A → σ → Prop) (w : World ι A R σ S O) : Move ι Q → Prop
  | .send _ q => ok q
  | .act i =>
    match w.conn i with
    | .running (.act a _) => pre i a w.shared
    | _ => True

omit [DecidableEq ι] in
theorem Allows.mono {ok : Q → Prop} {pre pre' : ι → A → σ → Prop} {w : World ι A R σ S O}
    {m : Move ι Q} (h : w.Allows ok pre m)
    (hpre : ∀ a, pre m.conn a w.shared → pre' m.conn a w.shared) : w.Allows ok pre' m := by
  cases m with
  | send i q => exact h
  | act i =>
    simp only [Allows] at h ⊢
    split at h
    · exact hpre _ h
    · trivial

def Runs (srv : Server ι A R σ S Q O) (ok : Q → Prop) (pre : ι → A → σ → Prop) :
    World ι A R σ S O → List (Move ι Q) → Prop
  | _, [] => True
  | w, m :: l => w.Allows ok pre m ∧ Runs srv ok pre (w.step srv m) l

instance Allows.decidable {ok : Q → Prop} {pre : ι → A → σ → Prop} [∀ q, Decidable (ok q)]
    [∀ i a s, Decidable (pre i a s)] (w : World ι A R σ S O) (m : Move ι Q) :
    Decidable (w.Allows ok pre m) :=
  match m with
  | .send _ q => inferInstanceAs (Decidable (ok q))
  | .act i =>
    match h : w.conn i with
    | .running (.act a _) => decidable_of_iff (pre i a w.shared) (by simp only [Allows, h])
    | .running (.ret _) => .isTrue (by simp only [Allows, h])
    | .running .crash => .isTrue (by simp only [Allows, h])
    | .idle _ => .isTrue (by simp only [Allows, h])

instance Runs.decidable {srv : Server ι A R σ S Q O} {ok : Q → Prop} {pre : ι → A → σ → Prop}
    [∀ q, Decidable (ok q)] [∀ i a s, Decidable (pre i a s)] :
    (w : World ι A R σ S O) → (l : List (Move ι Q)) → Decidable (w.Runs srv ok pre l)
  | _, [] => .isTrue trivial
  | w, m :: l => @instDecidableAnd _ _ _ (Runs.decidable (w.step srv m) l)

theorem Runs.append {srv : Server ι A R σ S Q O} {ok : Q → Prop} {pre : ι → A → σ → Prop}
    {w : World ι A R σ S O} {l l' : List (Move ι Q)} (h : w.Runs srv ok pre (l ++ l')) :
    w.Runs srv ok pre l ∧ (w.run srv l).Runs srv ok pre l' := by
  induction l generalizing w with
  | nil => exact ⟨trivial, h⟩
  | cons m l ih =>
    obtain ⟨hm, h⟩ := h
    obtain ⟨hl, hl'⟩ := ih h
    exact ⟨⟨hm, hl⟩, hl'⟩

/-- A run whose requests and actions are allowed. -/
theorem Runs.of_actions {srv : Server ι A R σ S Q O} {ok : Q → Prop} {pre : ι → A → σ → Prop}
    {w : World ι A R σ S O} {l : List (Move ι Q)} (h : w.Runs srv (fun _ => True) pre l)
    (hl : ∀ i q, Move.send i q ∈ l → ok q) : w.Runs srv ok pre l := by
  induction l generalizing w with
  | nil => trivial
  | cons m l ih =>
    obtain ⟨hm, h⟩ := h
    refine ⟨?_, ih h fun i q hq => hl i q (List.mem_cons_of_mem _ hq)⟩
    cases m with
    | send i q => exact hl i q List.mem_cons_self
    | act i => exact hm

theorem Runs.of_requests {srv : Server ι A R σ S Q O} {ok : Q → Prop} {pre : ι → A → σ → Prop}
    (hpre : ∀ i a s, pre i a s) {w : World ι A R σ S O} {l : List (Move ι Q)}
    (hl : ∀ i q, Move.send i q ∈ l → ok q) : w.Runs srv ok pre l := by
  refine Runs.of_actions ?_ hl
  induction l generalizing w with
  | nil => trivial
  | cons m l ih =>
    refine ⟨?_, ih fun i q hq => hl i q (List.mem_cons_of_mem _ hq)⟩
    cases m with
    | send i q => trivial
    | act i =>
      simp only [Allows]
      split
      · exact hpre _ _ _
      · trivial

end World

/-! ## The invariant rule -/

section Invariant

variable {ι : Type} {A : Type u} {R : A → Type} {σ : Type v} {S : Type} {Q : Type w} {O : Type}
  [DecidableEq ι]

/-- A connection keeps its specification: between requests its local state satisfies `inv`. Of a
request that a panic has cut short nothing is said. -/
def Conn.Holds (rules : Rules A R σ) (inv : S → σ → Prop) (g : σ) (crashed : Bool) :
    Conn A R S O → Prop
  | .idle s => ∀ g', rules.rely g g' → inv s g'
  | .running p => crashed = false → p.Spec rules (fun r => inv r.2) g

theorem Conn.Holds.of_rely {rules : Rules A R σ} {inv : S → σ → Prop} {g g' : σ} {crashed : Bool}
    {c : Conn A R S O} (h : c.Holds rules inv g crashed) (hrely : rules.rely g g') :
    c.Holds rules inv g' crashed := by
  cases c with
  | idle s => exact fun g'' hg => h g'' (rules.rely_trans hrely hg)
  | running p => exact fun hup => Proc.Spec.of_rely (h hup) hrely

theorem Conn.Holds.crash {rules : Rules A R σ} {inv : S → σ → Prop} {g : σ} {crashed : Bool}
    {c : Conn A R S O} (h : c.Holds rules inv g crashed) : c.Holds rules inv g true := by
  cases c with
  | idle s => exact h
  | running p => exact fun hup => by cases hup

variable (rules : ι → Rules A R σ) (inv : ι → S → σ → Prop)

def World.Holds (w : World ι A R σ S O) : Prop :=
  ∀ i, (w.conn i).Holds (rules i) (inv i) w.shared w.crashed

variable {rules inv}

omit [DecidableEq ι] in
theorem World.Holds.idle {w : World ι A R σ S O} (h : w.Holds rules inv) {i : ι} {s : S}
    (hi : w.conn i = .idle s) : inv i s w.shared := by
  have hconn := h i
  rw [hi] at hconn
  exact hconn _ ((rules i).rely_refl _)

theorem World.Holds.continueWith {w : World ι A R σ S O} {i : ι} {p : Proc A R (O × S)}
    (h : ∀ j, j ≠ i → (w.conn j).Holds (rules j) (inv j) w.shared w.crashed)
    (hi : (w.conn i).Holds (rules i) (inv i) w.shared true)
    (hp : p.Spec (rules i) (fun r => inv i r.2) w.shared) :
    (w.continueWith i p).Holds rules inv := by
  have hconn : ∀ c : Conn A R S O, c.Holds (rules i) (inv i) w.shared w.crashed →
      ∀ j, (Function.update w.conn i c j).Holds (rules j) (inv j) w.shared w.crashed := by
    intro c hc j
    by_cases hj : j = i
    · subst hj
      rwa [Function.update_self]
    · rw [Function.update_of_ne hj]
      exact h j hj
  cases p with
  | ret r => exact hconn (.idle r.2) hp
  | crash =>
    intro j
    by_cases hj : j = i
    · subst hj
      exact hi
    · exact (h j hj).crash
  | act a k => exact hconn (.running (.act a k)) fun _ => hp

variable {srv : Server ι A R σ S Q O} {ok : Q → Prop} {pre : ι → A → σ → Prop} {P : σ → Prop}

/-- One move keeps the specifications of all connections and every property of the shared state
that the guarantees preserve; the actions may assume the property besides the condition on the
run. -/
theorem World.Holds.step (hhandle : ∀ i, (rules i).handle = srv.handle i)
    (hguar : ∀ i j s s', j ≠ i → (rules i).guar s s' → (rules j).rely s s')
    (hserve : ∀ i q s g, ok q → inv i s g → (srv.serve q s).Spec (rules i) (fun r => inv i r.2) g)
    (hpre : ∀ i a s, P s → pre i a s → (rules i).pre a s)
    (hP : ∀ i s s', (rules i).guar s s' → P s → P s')
    {w : World ι A R σ S O} {m : Move ι Q} (h : w.Holds rules inv)
    (hw : P w.shared) (hm : w.Allows ok pre m) :
    (w.step srv m).Holds rules inv ∧ P (w.step srv m).shared := by
  rcases World.step_cases srv w m with hsame | ⟨i, q, s, rfl, -, hc, hstep⟩ |
    ⟨i, a, k, rfl, hup, hc, hstep⟩
  · rw [hsame]
    exact ⟨h, hw⟩
  · rw [hstep, World.shared_continueWith]
    exact ⟨World.Holds.continueWith (fun j _ => h j) (h i).crash (hserve i q s _ hm (h.idle hc)),
      hw⟩
  · have hs := h i
    simp only [World.Allows, hc] at hs hm
    obtain ⟨hg, hk⟩ := hs hup _ ((rules i).rely_refl _) (hpre i a _ hw hm)
    rw [hhandle] at hg hk
    rw [hstep, World.shared_continueWith]
    refine ⟨World.Holds.continueWith (fun j hj => (h j).of_rely (hguar i j _ _ hj hg)) ?_ hk,
      hP i _ _ hg hw⟩
    simp only [hc]
    exact fun hfalse => by cases hfalse

/-- **Parallel composition.** In every run whose moves are allowed, all connections keep their
specification, and so holds what their guarantees preserve. -/
theorem World.Holds.run (hhandle : ∀ i, (rules i).handle = srv.handle i)
    (hguar : ∀ i j s s', j ≠ i → (rules i).guar s s' → (rules j).rely s s')
    (hserve : ∀ i q s g, ok q → inv i s g → (srv.serve q s).Spec (rules i) (fun r => inv i r.2) g)
    (hpre : ∀ i a s, P s → pre i a s → (rules i).pre a s)
    (hP : ∀ i s s', (rules i).guar s s' → P s → P s')
    {w : World ι A R σ S O} {l : List (Move ι Q)} (h : w.Holds rules inv)
    (hw : P w.shared) (hl : w.Runs srv ok pre l) :
    (w.run srv l).Holds rules inv ∧ P (w.run srv l).shared := by
  induction l generalizing w with
  | nil => exact ⟨h, hw⟩
  | cons m l ih =>
    obtain ⟨hm, hl⟩ := hl
    obtain ⟨hstep, hshared⟩ := World.Holds.step hhandle hguar hserve hpre hP h hw hm
    exact ih hstep hshared hl

end Invariant

end SuperDB.Go
