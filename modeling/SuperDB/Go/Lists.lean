import SuperDB.Go.Map

/-!
# Elements of lists

Replacing an element, counting one that a list holds exactly once, and listing the first occurrences
of some elements.
-/

namespace SuperDB.Go

variable {α : Type} [BEq α] [LawfulBEq α] {l : List α} {a : α}

theorem replace_of_count_one (h : l.count a = 1) (b : α) :
    ∃ l₁ l₂, l = l₁ ++ a :: l₂ ∧ l.replace a b = l₁ ++ b :: l₂ ∧ a ∉ l₁ ∧ a ∉ l₂ := by
  induction l with
  | nil => simp at h
  | cons c l ih =>
    by_cases hc : c = a
    · subst hc
      rw [List.count_cons_self] at h
      exact ⟨[], l, rfl, by simp, by simp, List.count_eq_zero.1 (by omega)⟩
    · rw [List.count_cons_of_ne hc] at h
      obtain ⟨l₁, l₂, rfl, hreplace, h₁, h₂⟩ := ih h
      refine ⟨c :: l₁, l₂, rfl, ?_, by simp [h₁, Ne.symm hc], h₂⟩
      have hbeq : (a == c) = false := by simpa using Ne.symm hc
      rw [List.replace_cons, hbeq, hreplace]
      rfl

theorem mem_replace {b c : α} (ha : a ∈ l) (hc : c = b ∨ c ∈ l ∧ c ≠ a) : c ∈ l.replace a b := by
  induction l with
  | nil => simp at ha
  | cons d l ih =>
    rw [List.replace_cons]
    by_cases hd : a = d
    · subst hd
      rw [beq_self_eq_true]
      rcases hc with rfl | ⟨hc, hne⟩
      · exact List.mem_cons_self
      · exact List.mem_cons_of_mem _ ((List.mem_cons.1 hc).resolve_left hne)
    · rw [beq_eq_false_iff_ne.2 hd]
      have ha' : a ∈ l := (List.mem_cons.1 ha).resolve_left hd
      rcases hc with rfl | ⟨hc, hne⟩
      · exact List.mem_cons_of_mem _ (ih ha' (Or.inl rfl))
      · rcases List.mem_cons.1 hc with rfl | hc
        · exact List.mem_cons_self
        · exact List.mem_cons_of_mem _ (ih ha' (Or.inr ⟨hc, hne⟩))

theorem count_replace_of_ne {b : α} (h : l.count a = 1) (hne : a ≠ b) :
    (l.replace a b).count b = l.count b + 1 := by
  obtain ⟨l₁, l₂, rfl, hreplace, -, -⟩ := replace_of_count_one h b
  rw [hreplace, List.count_append, List.count_append, List.count_cons_self,
    List.count_cons_of_ne hne]
  omega

theorem countP_or_of_count_one {p : α → Bool} (hp : p a = false) (h : l.count a = 1) :
    (l.countP fun x => p x || x == a) = l.countP p + 1 := by
  obtain ⟨l₁, l₂, rfl, -, h₁, h₂⟩ := replace_of_count_one h a
  have hsame : ∀ l' : List α, a ∉ l' → (l'.countP fun x => p x || x == a) = l'.countP p := by
    intro l' hl'
    refine List.countP_congr fun x hx => ?_
    have hne : (x == a) = false := by
      rw [beq_eq_false_iff_ne]
      exact fun e => hl' (e ▸ hx)
    simp [hne]
  simp only [List.countP_append, List.countP_cons, hsame _ h₁, hsame _ h₂, hp, BEq.rfl]
  simp
  omega

theorem countP_le_of_before {α : Type*} {q : α → Bool} {n : Nat} {l : List α}
    (h : ∀ l₁ a l₂, l = l₁ ++ a :: l₂ → q a = true → l₁.countP q < n) : l.countP q ≤ n := by
  induction l using List.reverseRecOn with
  | nil => exact Nat.zero_le n
  | append_singleton l a ih =>
    rw [List.countP_append]
    cases ha : q a with
    | true =>
      have hlt := h l a [] rfl ha
      simpa [ha] using hlt
    | false =>
      have hle : l.countP q ≤ n := ih fun l₁ b l₂ hl hb => h l₁ b (l₂ ++ [a]) (by simp [hl]) hb
      simpa [ha] using hle

/-! ## First occurrences -/

/-- Appends an element that is live and has not been met before. -/
def relistBy (live : α → Bool) (order : List α) (a : α) : List α :=
  if live a && !order.contains a then order ++ [a] else order

theorem nodup_eraseDups (l : List α) : l.eraseDups.Nodup := by
  induction hn : l.length using Nat.strong_induction_on generalizing l with
  | _ n ih =>
    subst hn
    cases l with
    | nil => simp
    | cons a l =>
      rw [List.eraseDups_cons, List.nodup_cons]
      have hlen : (l.filter fun b => !b == a).length < (a :: l).length :=
        Nat.lt_succ_of_le (List.length_filter_le _ l)
      exact ⟨by simp, ih _ hlen _ rfl⟩

theorem foldl_relistBy (live : α → Bool) (l order : List α) :
    l.foldl (relistBy live) order =
      order ++ (l.filter fun a => live a && !order.contains a).eraseDups := by
  induction l generalizing order with
  | nil => simp
  | cons a l ih =>
    rw [List.foldl_cons, ih]
    unfold relistBy
    by_cases ha : (live a && !order.contains a) = true
    · have hrest : (l.filter fun b => live b && !(order ++ [a]).contains b) =
          (l.filter fun b => live b && !order.contains b).filter fun b => !b == a := by
        rw [List.filter_filter]
        refine List.filter_congr fun b _ => ?_
        simp only [List.contains_eq_mem, List.mem_append, List.mem_singleton]
        by_cases hb : b = a <;> simp [hb]
      rw [if_pos ha, hrest, List.filter_cons, if_pos ha, List.eraseDups_cons, List.append_assoc]
      rfl
    · rw [if_neg ha, List.filter_cons, if_neg ha]

theorem nodup_foldl_relistBy (live : α → Bool) (l : List α) :
    (l.foldl (relistBy live) []).Nodup := by
  rw [foldl_relistBy, List.nil_append]
  exact nodup_eraseDups _

theorem mem_foldl_relistBy {live : α → Bool} {l : List α} :
    a ∈ l.foldl (relistBy live) [] ↔ a ∈ l ∧ live a = true := by
  simp [foldl_relistBy]

/-! ## Lists that correspond -/

theorem exists_of_forall₂ {α β : Type} {R : α → β → Prop} {l : List α} {l' : List β}
    (h : List.Forall₂ R l l') :
    (∀ a ∈ l, ∃ b ∈ l', R a b) ∧ ∀ b ∈ l', ∃ a ∈ l, R a b := by
  induction h with
  | nil => exact ⟨fun a ha => (List.not_mem_nil ha).elim, fun b hb => (List.not_mem_nil hb).elim⟩
  | @cons a b l l' hab _ ih =>
    refine ⟨fun x hx => ?_, fun y hy => ?_⟩
    · rcases List.mem_cons.1 hx with rfl | hx
      · exact ⟨b, List.mem_cons_self, hab⟩
      · obtain ⟨y, hy, hR⟩ := ih.1 x hx
        exact ⟨y, List.mem_cons_of_mem _ hy, hR⟩
    · rcases List.mem_cons.1 hy with rfl | hy
      · exact ⟨a, List.mem_cons_self, hab⟩
      · obtain ⟨x, hx, hR⟩ := ih.2 y hy
        exact ⟨x, List.mem_cons_of_mem _ hx, hR⟩

theorem getElem?_of_forall₂ {α β : Type} {R : α → β → Prop} {l : List α} {l' : List β}
    (h : List.Forall₂ R l l')
    {j : Nat} {a : α} (ha : l[j]? = some a) : ∃ b, l'[j]? = some b ∧ R a b := by
  induction h generalizing j with
  | nil => cases ha
  | cons hab _ ih =>
    cases j with
    | zero =>
      cases ha
      exact ⟨_, rfl, hab⟩
    | succ j => exact ih ha

end SuperDB.Go
