import SuperDB.Cluster.Membership

/-!
# Removed members

A removed member stays removed under gossip that does not call it alive at its version or a later
one. A descriptor of the same version that does, or a health check that was under way when the
member was removed, brings it back.
-/

namespace SuperDB.Cluster

open Go

namespace Membership

variable {m : Membership} {id : Bytes} {v : Nat}

/-! ## Steps under the lock -/

/-- What a step does under one hold of the registry's lock: a member list is entered one descriptor
at a time, and other goroutines see the registry in between. -/
def Step.atoms (self : Bytes) : Int × Step → List (Int × Step)
  | (now, .mergeBulk remote) =>
    (remote.filter fun r => r.id ≠ self).map fun r => (now, .upsertMember r)
  | s => [s]

@[simp] theorem put_self (mb : Member) : (m.put mb).self = m.self := rfl

@[simp] theorem bump_self : m.bump.self = m.self := rfl

@[simp] theorem bump_members : m.bump.members = m.members := rfl

theorem get?_put (mb : Member) (k : Bytes) :
    (m.put mb).members[k]? = if mb.id = k then some mb else m.members[k]? :=
  Map.get?_insert _ _ _ _

theorem upsertMember_self (now : Int) (r : Member) : (m.upsertMember now r).self = m.self := by
  unfold upsertMember
  split
  · rfl
  · split
    · rfl
    · split
      · rfl
      · simp only
        split <;> rfl

theorem mergeBulk_self (now : Int) (remote : List Member) :
    (m.mergeBulk now remote).self = m.self := by
  unfold mergeBulk
  induction remote generalizing m with
  | nil => rfl
  | cons r remote ih =>
    rw [List.foldl_cons, ih]
    split
    · rfl
    · exact upsertMember_self now r

theorem step_self (s : Int × Step) : (m.step s).self = m.self := by
  obtain ⟨now, s⟩ := s
  cases s with
  | mergeBulk remote => exact mergeBulk_self now remote
  | upsert id addr state version => exact upsertMember_self now _
  | upsertMember r => exact upsertMember_self now r
  | markSuspect id =>
    simp only [step, markSuspect]
    split
    · split <;> rfl
    · rfl
  | sweepSuspects after => rfl
  | markAlive id =>
    simp only [step, markAlive]
    split <;> rfl

theorem mergeBulk_eq_run (now : Int) (remote : List Member) :
    m.mergeBulk now remote = m.run (Step.atoms m.self (now, .mergeBulk remote)) := by
  simp only [mergeBulk, run, Step.atoms]
  induction remote generalizing m with
  | nil => rfl
  | cons r remote ih =>
    rw [List.foldl_cons, ih]
    by_cases hself : r.id = m.self
    · rw [if_pos hself, List.filter_cons_of_neg (by simpa using hself)]
    · rw [if_neg hself, upsertMember_self, List.filter_cons_of_pos (by simpa using hself)]
      rfl

theorem step_eq_run (s : Int × Step) : m.step s = m.run (Step.atoms m.self s) := by
  obtain ⟨now, s⟩ := s
  cases s with
  | mergeBulk remote => exact mergeBulk_eq_run now remote
  | _ => rfl

/-- A run passes through what its steps do under the lock. -/
theorem run_atoms (l : List (Int × Step)) : m.run (l.flatMap (Step.atoms m.self)) = m.run l := by
  induction l generalizing m with
  | nil => rfl
  | cons s l ih =>
    have htail := ih (m := m.step s)
    rw [step_self] at htail
    rw [List.flatMap_cons]
    calc m.run (Step.atoms m.self s ++ l.flatMap (Step.atoms m.self))
        = (m.run (Step.atoms m.self s)).run (l.flatMap (Step.atoms m.self)) := List.foldl_append
      _ = (m.step s).run (l.flatMap (Step.atoms m.self)) := by rw [← step_eq_run]
      _ = m.run (s :: l) := htail

/-! ## Bringing a member back -/

/-- The descriptor calls the member alive, at version `v` or later. -/
def Wakes (id : Bytes) (v : Nat) (r : Member) : Prop :=
  r.id = id ∧ r.id ≠ [] ∧ r.addr ≠ [] ∧ r.state = .alive ∧ v ≤ r.version

instance (id : Bytes) (v : Nat) (r : Member) : Decidable (Wakes id v r) :=
  inferInstanceAs (Decidable (_ ∧ _ ∧ _ ∧ _ ∧ _))

/-- The step brings a member of version `v` back that has been removed. -/
def Revives (self id : Bytes) (v : Nat) : Step → Prop
  | .mergeBulk remote => ∃ r ∈ remote, r.id ≠ self ∧ Wakes id v r
  | .upsert i addr state version => Wakes id v { id := i, addr, state, version }
  | .upsertMember r => Wakes id v r
  | .markSuspect _ => False
  | .sweepSuspects _ => False
  | .markAlive i => i = id

instance (self id : Bytes) (v : Nat) : (s : Step) → Decidable (Revives self id v s)
  | .mergeBulk remote => inferInstanceAs (Decidable (∃ r ∈ remote, r.id ≠ self ∧ Wakes id v r))
  | .upsert i addr state version =>
    inferInstanceAs (Decidable (Wakes id v { id := i, addr, state, version }))
  | .upsertMember r => inferInstanceAs (Decidable (Wakes id v r))
  | .markSuspect _ => .isFalse fun h => h
  | .sweepSuspects _ => .isFalse fun h => h
  | .markAlive i => inferInstanceAs (Decidable (i = id))

/-- The member is in the registry, removed at version `v`. -/
def Gone (m : Membership) (id : Bytes) (v : Nat) : Prop :=
  ∃ mb : Member, m.members[id]? = some mb ∧ mb.state = .removed ∧ mb.version = v

theorem Gone.congr {m' : Membership} (h : m.Gone id v)
    (hsame : m'.members[id]? = m.members[id]?) : m'.Gone id v := by
  obtain ⟨mb, hmb, hstate⟩ := h
  exact ⟨mb, hsame.trans hmb, hstate⟩

theorem Gone.upsertMember (h : m.Gone id v) (now : Int) {r : Member} (hr : ¬Wakes id v r) :
    (m.upsertMember now r).Gone id v := by
  obtain ⟨mb, hmb, hstate, hversion⟩ := h
  have hgone : m.Gone id v := ⟨mb, hmb, hstate, hversion⟩
  by_cases hid : r.id = id
  · subst hid
    unfold Membership.upsertMember
    rw [hmb]
    split
    · exact hgone
    · next hplace =>
      rw [not_or] at hplace
      by_cases halive : r.state = .alive
      · -- the descriptor is older than the removed member, and only its region is taken over
        have hold : ¬mb.version ≤ r.version := fun hle =>
          hr ⟨rfl, hplace.1, hplace.2, halive, hversion ▸ hle⟩
        simp only [halive, ne_eq, not_true_eq_false, and_false, if_false, if_neg hold]
        exact ⟨_, (get?_put _ _).trans (if_pos (m.keyed _ mb hmb)), hstate, hversion⟩
      · simp only [hstate, ne_eq, halive, not_false_eq_true, and_self, if_true]
        exact hgone
  · refine hgone.congr ?_
    unfold Membership.upsertMember
    split
    · rfl
    · split
      · rw [bump_members, get?_put, if_neg hid]
      · next existing hexisting =>
        have hne : existing.id ≠ id := by rwa [m.keyed _ existing hexisting]
        split
        · rfl
        · simp only
          split
          · rw [bump_members, get?_put, if_neg hne]
          · rw [get?_put, if_neg hne]

theorem Wakes.upsertMember {r : Member} (hr : Wakes id v r) (h : m.Gone id v) (now : Int) :
    ¬∃ mb : Member, (m.upsertMember now r).members[id]? = some mb ∧ mb.state = .removed := by
  obtain ⟨mb, hmb, hstate, hversion⟩ := h
  obtain ⟨rfl, hid, haddr, halive, hle⟩ := hr
  rintro ⟨mb', hmb', hstate'⟩
  unfold Membership.upsertMember at hmb'
  rw [hmb, if_neg (not_or.2 ⟨hid, haddr⟩)] at hmb'
  simp only [halive, ne_eq, not_true_eq_false, and_false, if_false, hversion, if_pos hle,
    bump_members] at hmb'
  rw [get?_put, if_pos (m.keyed _ mb hmb)] at hmb'
  cases hmb'
  cases hstate'

/-- A step under the lock keeps a removed member removed unless it revives it. -/
theorem Gone.atom (h : m.Gone id v) {a : Int × Step} (hatom : ∀ remote, a.2 ≠ .mergeBulk remote) :
    (¬Revives m.self id v a.2 → (m.step a).Gone id v) ∧
      (Revives m.self id v a.2 →
        ¬∃ mb : Member, (m.step a).members[id]? = some mb ∧ mb.state = .removed) := by
  obtain ⟨now, a⟩ := a
  cases a with
  | mergeBulk remote => exact absurd rfl (hatom remote)
  | upsert i addr state version =>
    exact ⟨fun hr => h.upsertMember now hr, fun hr => hr.upsertMember h now⟩
  | upsertMember r => exact ⟨fun hr => h.upsertMember now hr, fun hr => hr.upsertMember h now⟩
  | markSuspect i =>
    refine ⟨fun _ => h.congr ?_, False.elim⟩
    simp only [step, markSuspect]
    split
    · next mb hmb =>
      split
      · next halive =>
        rw [get?_put]
        split
        · next hid =>
          -- the removed member is not alive
          obtain ⟨mb', hmb', hstate, -⟩ := h
          simp only [m.keyed _ mb hmb] at hid
          subst hid
          cases hmb.symm.trans hmb'
          rw [hstate] at halive
          cases halive
        · rfl
      · rfl
    · rfl
  | sweepSuspects after =>
    refine ⟨fun _ => ?_, False.elim⟩
    obtain ⟨mb, hmb, hstate, hversion⟩ := h
    have hsweep : sweep after now m.self mb = mb := by
      unfold sweep
      rw [if_pos (Or.inr (by simp [hstate]))]
    refine ⟨mb, ?_, hstate, hversion⟩
    simp only [step, sweepSuspects]
    rw [Map.get?_map, hmb, Option.map_some, hsweep]
  | markAlive i =>
    obtain ⟨mb, hmb, hstate, hversion⟩ := h
    simp only [step, markAlive, Revives]
    constructor
    · intro hid
      refine Gone.congr ⟨mb, hmb, hstate, hversion⟩ ?_
      split
      · next mb' hmb' => rw [get?_put, if_neg (by rwa [m.keyed _ mb' hmb'])]
      · rfl
    · rintro rfl ⟨mb', hmb', hstate'⟩
      rw [hmb] at hmb'
      simp only at hmb'
      rw [get?_put, if_pos (m.keyed _ mb hmb)] at hmb'
      cases hmb'
      cases hstate'

/-! ## Runs -/

theorem Step.atom_of_mem {self : Bytes} {s a : Int × Step} (h : a ∈ Step.atoms self s)
    (remote : List Member) : a.2 ≠ .mergeBulk remote := by
  obtain ⟨now, s⟩ := s
  cases s with
  | mergeBulk l =>
    obtain ⟨r, -, rfl⟩ := List.mem_map.1 h
    simp
  | _ =>
    obtain rfl := List.mem_singleton.1 h
    simp

theorem Step.revives_iff_atoms {self : Bytes} (s : Int × Step) :
    (∀ a ∈ Step.atoms self s, ¬Revives self id v a.2) ↔ ¬Revives self id v s.2 := by
  obtain ⟨now, s⟩ := s
  cases s with
  | mergeBulk remote =>
    simp only [atoms, Revives, List.forall_mem_map, List.mem_filter, decide_eq_true_eq]
    push Not
    exact ⟨fun h r hr hself => h r ⟨hr, hself⟩, fun h r hr => h r hr.1 hr.2⟩
  | _ => simp [atoms]

/-- A run under the lock passes through states in which the member is removed exactly if none of its
steps revives it. -/
theorem Gone.run_iff (h : m.Gone id v) {l : List (Int × Step)}
    (hatoms : ∀ a ∈ l, ∀ remote, a.2 ≠ .mergeBulk remote) :
    (∀ l₁, l₁ <+: l → ∃ mb : Member, (m.run l₁).members[id]? = some mb ∧ mb.state = .removed) ↔
      ∀ a ∈ l, ¬Revives m.self id v a.2 := by
  induction l generalizing m with
  | nil =>
    refine ⟨fun _ a ha => absurd ha List.not_mem_nil, fun _ l₁ hl₁ => ?_⟩
    obtain ⟨mb, hmb, hstate, -⟩ := h
    exact ⟨mb, by rw [List.prefix_nil.1 hl₁]; exact hmb, hstate⟩
  | cons a l ih =>
    rw [List.forall_mem_cons] at hatoms
    obtain ⟨hkeep, hrevive⟩ := h.atom hatoms.1
    constructor
    · intro hall
      have ha : ¬Revives m.self id v a.2 := fun hr => hrevive hr (hall [a] ⟨l, rfl⟩)
      rw [List.forall_mem_cons]
      refine ⟨ha, ?_⟩
      have hrest := (ih (hkeep ha) hatoms.2).1 fun l₁ hl₁ =>
        hall (a :: l₁) (List.cons_prefix_cons.2 ⟨rfl, hl₁⟩)
      rwa [step_self] at hrest
    · intro hall l₁ hl₁
      rw [List.forall_mem_cons] at hall
      cases l₁ with
      | nil =>
        obtain ⟨mb, hmb, hstate, -⟩ := h
        exact ⟨mb, hmb, hstate⟩
      | cons b l₁ =>
        obtain ⟨rfl, htail⟩ := List.cons_prefix_cons.1 hl₁
        refine (ih (hkeep hall.1) hatoms.2).2 ?_ l₁ htail
        rw [step_self]
        exact hall.2

theorem hidden_of_removed {mb : Member} (h : m.members[id]? = some mb)
    (hstate : mb.state = .removed) :
    m.addrOf id = none ∧ ∀ o, ∀ r ∈ m.list o, r.id ≠ id := by
  refine ⟨by simp only [addrOf, h, hstate, if_true], fun o r hr hid => ?_⟩
  obtain ⟨k, -, hk⟩ := List.mem_filterMap.1 hr
  obtain ⟨hget, hlive⟩ := Option.filter_eq_some_iff.1 hk
  have hkey : k = id := (m.keyed k r hget).symm.trans hid
  rw [hkey, h] at hget
  cases hget
  simp [hstate] at hlive

/-- **When a removed member stays removed.** After the removal of a member of version `v`, the
member is removed in every state that a sequence of steps passes through, and neither listed nor
found, exactly if no step is a health check of it that succeeds or carries a descriptor that calls
it alive at a version from `v` on. -/
theorem removed_stays_iff {mb : Member} (h : m.members[id]? = some mb) (l : List (Int × Step)) :
    (∀ l₁, l₁ <+: l.flatMap (Step.atoms m.self) →
      (∃ mb', ((m.remove id).run l₁).members[id]? = some mb' ∧ mb'.state = .removed) ∧
        ((m.remove id).run l₁).addrOf id = none ∧
        ∀ o, ∀ r ∈ ((m.remove id).run l₁).list o, r.id ≠ id) ↔
      ∀ s ∈ l, ¬Revives m.self id mb.version s.2 := by
  have hgone : (m.remove id).Gone id mb.version := by
    refine ⟨{ mb with state := .removed }, ?_, rfl, rfl⟩
    simp only [remove, h, bump_members]
    rw [get?_put, if_pos (m.keyed id mb h)]
  have hself : (m.remove id).self = m.self := by simp only [remove, h, bump_self, put_self]
  have hatoms : ∀ a ∈ l.flatMap (Step.atoms m.self), ∀ remote, a.2 ≠ .mergeBulk remote := by
    intro a ha
    obtain ⟨s, -, hs⟩ := List.mem_flatMap.1 ha
    exact Step.atom_of_mem hs
  have hrun := hgone.run_iff hatoms
  rw [hself] at hrun
  have hsteps : (∀ a ∈ l.flatMap (Step.atoms m.self), ¬Revives m.self id mb.version a.2) ↔
      ∀ s ∈ l, ¬Revives m.self id mb.version s.2 := by
    rw [List.forall_mem_flatMap]
    exact forall₂_congr fun s _ => Step.revives_iff_atoms s
  rw [← hsteps, ← hrun]
  refine forall₂_congr fun l₁ _ => ⟨fun hall => hall.1, ?_⟩
  rintro ⟨mb', hmb', hstate⟩
  exact ⟨⟨mb', hmb', hstate⟩, hidden_of_removed hmb' hstate⟩

def twoNodes : Membership :=
  (new 0 (str "a") (str "a:1")).upsert 0 (str "b") (str "b:1") .alive 1

/-- A heartbeat reply that was under way when `b` was removed lists it as alive at its version. -/
theorem removed_stays_staleGossip :
    (((twoNodes.remove (str "b")).run
      [(1, .mergeBulk
        [{ id := str "b", addr := str "b:1", state := .alive, version := 1 }])]).addrOf
          (str "b") = some (str "b:1")) ∧
      ((twoNodes.remove (str "b")).run [(1, .markAlive (str "b"))]).addrOf (str "b") =
        some (str "b:1") := by
  decide +kernel

/-- Gossip of an earlier version, or that calls the member suspect, does not bring it back. -/
theorem removed_stays_olderGossip :
    ∃ mb, twoNodes.members[str "b"]? = some mb ∧
      ((twoNodes.remove (str "b")).run
        [(1, .mergeBulk [{ id := str "b", addr := str "b:1", state := .alive, version := 0 }]),
          (2, .upsert (str "b") (str "b:1") .suspect 1), (3, .sweepSuspects 1)]).addrOf (str "b") =
        none := by
  have hsome : twoNodes.members[str "b"]? =
      some { id := str "b", addr := str "b:1", state := .alive, version := 1 } := by decide +kernel
  refine ⟨_, hsome, ?_⟩
  have hall := (removed_stays_iff hsome
    [(1, .mergeBulk [{ id := str "b", addr := str "b:1", state := .alive, version := 0 }]),
      (2, .upsert (str "b") (str "b:1") .suspect 1), (3, .sweepSuspects 1)]).2 (by decide +kernel)
  have hself : (twoNodes.remove (str "b")).self = twoNodes.self := by decide +kernel
  have hend := (hall _ (List.prefix_refl _)).2.1
  rwa [← hself, run_atoms] at hend

end Membership

end SuperDB.Cluster
