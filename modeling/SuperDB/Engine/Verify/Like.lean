import SuperDB.Engine.Parser

/-!
# LIKE

The matcher walks the pattern and the value with one point to return to, the last `%` it has passed.
It compares a rune of the pattern with the rune of the value before it looks whether the former is
`%`, so a `%` of the pattern that meets a `%` of the value matches that rune alone. What it accepts
is `Taken`; that it need not return to an earlier `%` is `Taken.resume`.
-/

namespace SuperDB.Engine

open Go

/-! ## Two meanings of a pattern -/

/-- A value matches a pattern: `%` (37) matches any run of runes, `_` (95) exactly one rune, and
every other rune itself. -/
inductive Like : List Nat → List Nat → Prop where
  | nil : Like [] []
  | run {p v : List Nat} (r : List Nat) (h : Like p v) : Like (37 :: p) (r ++ v)
  | one {p v : List Nat} (c : Nat) (h : Like p v) : Like (95 :: p) (c :: v)
  | same {p v : List Nat} {a : Nat} (hrun : a ≠ 37) (hone : a ≠ 95) (h : Like p v) :
    Like (a :: p) (a :: v)

/-- A value matches a pattern so that each `%` of the pattern that meets a `%` of the value matches
that rune and no more. -/
inductive Taken : List Nat → List Nat → Prop where
  | nil : Taken [] []
  | run {p v : List Nat} (r : List Nat) (hstart : (r ++ v).head? ≠ some 37) (h : Taken p v) :
    Taken (37 :: p) (r ++ v)
  | percent {p v : List Nat} (h : Taken p v) : Taken (37 :: p) (37 :: v)
  | one {p v : List Nat} (c : Nat) (h : Taken p v) : Taken (95 :: p) (c :: v)
  | same {p v : List Nat} {a : Nat} (hrun : a ≠ 37) (hone : a ≠ 95) (h : Taken p v) :
    Taken (a :: p) (a :: v)

theorem Taken.like {p v : List Nat} (h : Taken p v) : Like p v := by
  induction h with
  | nil => exact .nil
  | run r _ _ ih => exact .run r ih
  | percent _ ih => exact .run [37] ih
  | one c _ ih => exact .one c ih
  | same hrun hone _ ih => exact .same hrun hone ih

theorem Like.taken {p v : List Nat} (h : Like p v) (hv : 37 ∉ v) : Taken p v := by
  induction h with
  | nil => exact .nil
  | run r _ ih =>
    rw [List.mem_append, not_or] at hv
    refine .run r ?_ (ih hv.2)
    intro hhead
    have hmem := List.mem_of_mem_head? hhead
    rw [List.mem_append] at hmem
    exact hmem.elim hv.1 hv.2
  | one c _ ih => exact .one c (ih fun hmem => hv (List.mem_cons_of_mem _ hmem))
  | same hrun hone _ ih => exact .same hrun hone (ih fun hmem => hv (List.mem_cons_of_mem _ hmem))

/-! ## One rune of the pattern -/

section Rune

variable {a c : Nat} {p v : List Nat}

theorem taken_nil_iff : Taken p [] ↔ p.all (· == 37) = true := by
  induction p with
  | nil => exact ⟨fun _ => rfl, fun _ => .nil⟩
  | cons a p ih =>
    rw [List.all_cons, Bool.and_eq_true, beq_iff_eq, ← ih]
    constructor
    · intro h
      generalize hw : ([] : List Nat) = w at h
      cases h with
      | run r hstart h =>
        rw [← hw]
        exact ⟨rfl, (List.append_eq_nil_iff.1 hw.symm).2 ▸ h⟩
      | percent h => cases hw
      | one c h => cases hw
      | same hrun hone h => cases hw
    · rintro ⟨rfl, h⟩
      exact .run [] (by simp) h

theorem taken_pair_iff (hpair : a = 95 ∨ a = c) : Taken (a :: p) (c :: v) ↔ Taken p v := by
  constructor
  · intro h
    generalize hw : c :: v = w at h
    cases h with
    | run r hstart h =>
      rw [← hw] at hstart
      rcases hpair with hone | hsame
      · cases hone
      · exact absurd (by rw [← hsame]; rfl) hstart
    | percent h =>
      cases hw
      exact h
    | one c h =>
      cases hw
      exact h
    | same hrun hone h =>
      cases hw
      exact h
  · intro h
    rcases hpair with rfl | rfl
    · exact .one c h
    · by_cases hrun : a = 37
      · subst hrun
        exact .percent h
      · by_cases hone : a = 95
        · subst hone
          exact .one 95 h
        · exact .same hrun hone h

theorem taken_run_iff (hc : c ≠ 37) :
    Taken (37 :: p) (c :: v) ↔ ∃ r w, c :: v = r ++ w ∧ Taken p w := by
  constructor
  · intro h
    generalize hw : c :: v = w at h
    cases h with
    | run r hstart h => exact ⟨r, _, rfl, h⟩
    | percent h =>
      cases hw
      exact absurd rfl hc
    | same hrun hone h => exact absurd rfl hrun
  · rintro ⟨r, w, hw, h⟩
    rw [hw]
    refine .run r ?_ h
    rw [← hw]
    simpa using hc

theorem not_taken_other (hrun : a ≠ 37) (hone : a ≠ 95) (hne : a ≠ c) :
    ¬Taken (a :: p) (c :: v) := by
  intro h
  generalize hw : c :: v = w at h
  cases h with
  | run r hstart h => exact hrun rfl
  | percent h => exact hrun rfl
  | one c h => exact hone rfl
  | same hrun' hone' h =>
    cases hw
    exact hne rfl

end Rune

/-! ## The point to return to -/

/-- The runes of the pattern and of the value that were compared since the last `%`. -/
def RunesCompared (ps vs : List Nat) : Prop := List.Forall₂ (fun a c => a = 95 ∨ a = c) ps vs

/-- A match of the pattern from a later place of the value passes the place that has been reached:
no rune of the pattern that has been compared can do with less than one rune before it. -/
theorem Taken.resume {ps vs p v w : List Nat} (hpairs : RunesCompared ps vs) (h : Taken (ps ++ p) w)
    (hw : w <:+ vs ++ v) : ∃ w', w' <:+ v ∧ Taken p w' := by
  induction hpairs generalizing w with
  | nil => exact ⟨w, hw, h⟩
  | @cons a c ps vs hpair hpairs ih =>
    rw [List.cons_append] at h hw
    have htail : ∀ {d w'}, d :: w' <:+ c :: (vs ++ v) → w' <:+ vs ++ v := by
      intro d w' hsuffix
      rcases List.suffix_cons_iff.1 hsuffix with heq | hlater
      · cases heq
        exact List.suffix_refl _
      · exact (List.suffix_cons d w').trans hlater
    cases h with
    | run r hstart h =>
      refine ih h ?_
      rcases List.suffix_cons_iff.1 hw with heq | hlater
      · -- here the `%` was compared with a `%`, which it would match alone
        rcases hpair with hone | hsame
        · cases hone
        · rw [heq, ← hsame] at hstart
          exact absurd rfl hstart
      · exact (List.suffix_append _ _).trans hlater
    | percent h => exact ih h (htail hw)
    | one c h => exact ih h (htail hw)
    | same hrun hone h => exact ih h (htail hw)

/-- The pattern after the last `%` matches from a later place than it has been tried from. -/
def LaterMatch (star : Option (List Nat × List Nat)) : Prop :=
  ∃ sp sv, star = some (sp, sv) ∧ ∃ r w, r ≠ [] ∧ sv = r ++ w ∧ Taken sp w

/-- What has been compared leads from the point to return to to the place that has been reached. -/
def ReachedFrom (p v : List Nat) (star : Option (List Nat × List Nat)) : Prop :=
  ∀ sp sv, star = some (sp, sv) → ∃ ps vs, RunesCompared ps vs ∧ sp = ps ++ p ∧ sv = vs ++ v

section Loop

variable {p v : List Nat} {star : Option (List Nat × List Nat)}

theorem LaterMatch.resume (h : LaterMatch star) (hreached : ReachedFrom p v star) :
    ∃ w, w <:+ v ∧ Taken p w := by
  obtain ⟨sp, sv, hstar, r, w, -, hsv, h⟩ := h
  obtain ⟨ps, vs, hpairs, rfl, hsv'⟩ := hreached sp sv hstar
  refine h.resume hpairs ?_
  rw [← hsv', hsv]
  exact List.suffix_append _ _

theorem later_some_iff {sp sv : List Nat} {c : Nat} :
    LaterMatch (some (sp, c :: sv)) ↔ Taken sp sv ∨ LaterMatch (some (sp, sv)) := by
  constructor
  · rintro ⟨_, _, hstar, r, w, hr, hsv, h⟩
    cases hstar
    cases r with
    | nil => exact absurd rfl hr
    | cons d r =>
      obtain ⟨rfl, rfl⟩ := List.cons.inj hsv
      cases r with
      | nil => exact Or.inl h
      | cons e r => exact Or.inr ⟨sp, _, rfl, e :: r, w, by simp, rfl, h⟩
  · rintro (h | ⟨_, _, hstar, r, w, hr, hsv, h⟩)
    · exact ⟨sp, _, rfl, [c], sv, by simp, rfl, h⟩
    · cases hstar
      exact ⟨sp, _, rfl, c :: r, w, by simp, by rw [hsv]; rfl, h⟩

/-- A run of the loop that has ended, with the answer whether `P` holds. -/
def Answers (r : Option Bool) (P : Prop) : Prop := ∃ b, r = some b ∧ (b = true ↔ P)

theorem Answers.congr {r : Option Bool} {P Q : Prop} (h : Answers r P) (hiff : P ↔ Q) :
    Answers r Q := by
  obtain ⟨b, hr, hb⟩ := h
  exact ⟨b, hr, hb.trans hiff⟩

/-- How many places of the value the loop can still return to. -/
def placesLeft (n : Nat) : Option (List Nat × List Nat) → Nat
  | some (_, sv) => sv.length
  | none => n

/-- The round that returns to the last `%`. -/
def likeRetry (fuel : Nat) (star : Option (List Nat × List Nat)) : Option Bool :=
  match star with
  | some (sp, _ :: sv) => likeLoop fuel sp sv (some (sp, sv))
  | _ => some false

theorem likeLoop_nil (fuel c : Nat) (v : List Nat) (star : Option (List Nat × List Nat)) :
    likeLoop (fuel + 1) [] (c :: v) star = likeRetry fuel star := by
  unfold likeLoop likeRetry
  rfl

theorem likeLoop_cons (fuel a c : Nat) (p v : List Nat) (star : Option (List Nat × List Nat)) :
    likeLoop (fuel + 1) (a :: p) (c :: v) star =
      if a = 95 ∨ a = c then likeLoop fuel p v star
      else if a = 37 then likeLoop fuel p (c :: v) (some (p, c :: v))
      else likeRetry fuel star := by
  have hround : likeLoop (fuel + 1) (a :: p) (c :: v) star =
      if (a == 95 || a == c) = true then likeLoop fuel p v star
      else if (a == 37) = true then likeLoop fuel p (c :: v) (some (p, c :: v))
      else likeRetry fuel star := by
    conv_lhs => unfold likeLoop
    rfl
  rw [hround]
  simp only [Bool.or_eq_true, beq_iff_eq]

theorem likeRetry_answers {fuel : Nat}
    (h : ∀ sp c sv, star = some (sp, c :: sv) →
      Answers (likeLoop fuel sp sv (some (sp, sv))) (Taken sp sv ∨ LaterMatch (some (sp, sv)))) :
    Answers (likeRetry fuel star) (LaterMatch star) := by
  cases hstar : star with
  | none =>
    refine ⟨false, rfl, fun hfalse => (Bool.false_ne_true hfalse).elim, ?_⟩
    rintro ⟨sp, sv, hsome, -⟩
    cases hsome
  | some s =>
    obtain ⟨sp, sv⟩ := s
    cases sv with
    | nil =>
      refine ⟨false, rfl, fun hfalse => (Bool.false_ne_true hfalse).elim, ?_⟩
      rintro ⟨_, _, hsome, r, w, hr, hsv, -⟩
      cases hsome
      exact absurd (List.append_eq_nil_iff.1 hsv.symm).1 hr
    | cons c sv => exact (h sp c sv hstar).congr later_some_iff.symm

theorem taken_run_or_later {c : Nat} (hc : c ≠ 37)
    (hreached : ReachedFrom (37 :: p) (c :: v) star) :
    Taken (37 :: p) (c :: v) ∨ LaterMatch star ↔ Taken p (c :: v) ∨
    LaterMatch (some (p, c :: v)) := by
  have hplaces : (∃ r w, c :: v = r ++ w ∧ Taken p w) ↔
      Taken p (c :: v) ∨ LaterMatch (some (p, c :: v)) := by
    constructor
    · rintro ⟨r, w, hw, h⟩
      by_cases hr : r = []
      · rw [hr, List.nil_append] at hw
        exact Or.inl (hw ▸ h)
      · exact Or.inr ⟨p, _, rfl, r, w, hr, hw, h⟩
    · rintro (h | ⟨_, _, hsome, r, w, -, hw, h⟩)
      · exact ⟨[], _, rfl, h⟩
      · cases hsome
        exact ⟨r, w, hw, h⟩
  rw [← hplaces, ← taken_run_iff hc]
  refine ⟨fun h => h.elim id fun hlater => ?_, Or.inl⟩
  obtain ⟨w, ⟨r, hw⟩, h⟩ := hlater.resume hreached
  rw [taken_run_iff hc]
  cases h with
  | run r' hstart h => exact ⟨r ++ r', _, by rw [List.append_assoc, hw], h⟩
  | percent h => exact ⟨r ++ [37], _, by rw [List.append_assoc]; exact hw.symm, h⟩
  | same hrun hone h => exact absurd rfl hrun

/-- **The loop ends and accepts what is `Taken`, from here or from a later place**, if it may run
long enough: each round passes a rune of the pattern or gives up a place to return to. -/
theorem likeLoop_answers {b n fuel : Nat} (hreached : ReachedFrom p v star) (hp : p.length < b)
    (hsp : ∀ sp sv, star = some (sp, sv) → sp.length < b) (hleft : v.length ≤ placesLeft n star)
    (hfuel : placesLeft n star * b + p.length < fuel) :
    Answers (likeLoop fuel p v star) (Taken p v ∨ LaterMatch star) := by
  induction fuel generalizing p v star with
  | zero => exact absurd hfuel (Nat.not_lt_zero _)
  | succ fuel ih =>
    have hstart : ∀ sp sv : List Nat, ReachedFrom sp sv (some (sp, sv)) := by
      rintro sp sv _ _ hsome
      cases hsome
      exact ⟨[], [], .nil, rfl, rfl⟩
    have hretry : Answers (likeRetry fuel star) (LaterMatch star) := by
      refine likeRetry_answers fun sp c sv hstar => ?_
      have hlen := hsp sp _ hstar
      have hplaces : placesLeft n star = sv.length + 1 := by rw [hstar]; rfl
      rw [hplaces, Nat.add_mul, Nat.one_mul] at hfuel
      refine ih (hstart sp sv) hlen ?_ (Nat.le_refl _) ?_
      · rintro _ _ hsome
        cases hsome
        exact hlen
      · show sv.length * b + sp.length < fuel
        omega
    cases v with
    | nil =>
      refine ⟨p.all (· == 37), rfl, ?_⟩
      rw [← taken_nil_iff]
      refine ⟨Or.inl, fun h => h.elim id fun hlater => ?_⟩
      obtain ⟨w, hw, h⟩ := hlater.resume hreached
      rwa [List.suffix_nil.1 hw] at h
    | cons c v =>
      cases p with
      | nil =>
        rw [likeLoop_nil]
        refine hretry.congr ⟨Or.inr, fun h => h.elim (fun hnone => ?_) id⟩
        cases hnone
      | cons a p =>
        rw [List.length_cons] at hp hleft hfuel
        rw [likeLoop_cons]
        by_cases hpair : a = 95 ∨ a = c
        · rw [if_pos hpair, taken_pair_iff hpair]
          refine ih ?_ (by omega) hsp (by omega) (by omega)
          intro sp sv hstar
          obtain ⟨ps, vs, hpairs, hps, hvs⟩ := hreached sp sv hstar
          refine ⟨ps ++ [a], vs ++ [c], List.rel_append hpairs (.cons hpair .nil), ?_, ?_⟩
          · rw [hps, List.append_assoc]
            rfl
          · rw [hvs, List.append_assoc]
            rfl
        · rw [if_neg hpair]
          obtain ⟨hone, hne⟩ := not_or.1 hpair
          by_cases hrun : a = 37
          · subst hrun
            rw [if_pos rfl, taken_run_or_later (Ne.symm hne) hreached]
            refine ih (hstart p (c :: v)) (by omega) ?_ (Nat.le_refl _) ?_
            · rintro _ _ hsome
              cases hsome
              omega
            · have hmul := Nat.mul_le_mul_right b hleft
              show (v.length + 1) * b + p.length < fuel
              omega
          · rw [if_neg hrun]
            refine hretry.congr ⟨Or.inr, fun h => h.elim (fun hother => ?_) id⟩
            exact absurd hother (not_taken_other hrun hone hne)

end Loop

/-- With the rounds `likeMatch` allows, or more, the loop ends with the answer of `likeMatch`. -/
theorem likeLoop_eq {pattern value : Bytes} {fuel : Nat}
    (hfuel : ((runes value).length + 2) * ((runes pattern).length + (runes value).length + 2) ≤
      fuel) :
    Answers (likeLoop fuel (runes pattern) (runes value) none)
      (Taken (runes pattern) (runes value)) := by
  generalize runes pattern = p at hfuel ⊢
  generalize runes value = v at hfuel ⊢
  have hnone : ReachedFrom p v none := by
    intro sp sv hsome
    cases hsome
  have henough : placesLeft (v.length + 1) none * (p.length + v.length + 2) + p.length < fuel := by
    show (v.length + 1) * (p.length + v.length + 2) + p.length < fuel
    rw [Nat.add_mul v.length 2, Nat.two_mul] at hfuel
    rw [Nat.add_mul, Nat.one_mul]
    omega
  refine (likeLoop_answers hnone (by omega) (fun sp sv hsome => by cases hsome)
    (Nat.le_succ _) henough).congr ⟨fun h => h.elim id fun hlater => ?_, Or.inl⟩
  obtain ⟨sp, sv, hsome, -⟩ := hlater
  cases hsome

/-- `likeMatch` ends: with the rounds it allows, or more, its loop returns its answer. It has the
defining meaning of LIKE exactly if a value that matches the pattern also matches it with each `%`
that meets a `%` of the value matching that rune alone. -/
theorem like_match_iff (pattern value : Bytes) :
    (∀ fuel, ((runes value).length + 2) * ((runes pattern).length + (runes value).length + 2) ≤
      fuel → likeLoop fuel (runes pattern) (runes value) none = some (likeMatch pattern value)) ∧
    ((likeMatch pattern value = true ↔ Like (runes pattern) (runes value)) ↔
      (Like (runes pattern) (runes value) → Taken (runes pattern) (runes value))) := by
  obtain ⟨answer, hanswer, hmatch⟩ := @likeLoop_eq pattern value _ (Nat.le_refl _)
  have hlike : likeMatch pattern value = answer := by
    simp only [likeMatch, hanswer, Option.getD_some]
  rw [hlike]
  refine ⟨fun fuel hfuel => ?_, ?_⟩
  · obtain ⟨b, hb, hsame⟩ := likeLoop_eq hfuel
    rw [hb, Bool.eq_iff_iff.2 (hsame.trans hmatch.symm)]
  · rw [hmatch]
    exact ⟨fun h => h.2, fun h => ⟨Taken.like, h⟩⟩

/-- The pattern `%` does not match the text `%a`. -/
theorem like_match_percent : likeMatch (str "%") (str "%a") = false ∧
    Like (runes (str "%")) (runes (str "%a")) := by
  refine ⟨by decide +kernel, ?_⟩
  have hpattern : runes (str "%") = [37] := by decide +kernel
  have hvalue : runes (str "%a") = [37, 97] ++ [] := by decide +kernel
  rw [hpattern, hvalue]
  exact .run [37, 97] .nil

theorem like_match_run : (37 ∉ runes (str "ab") ∧
      likeLoop 100 (runes (str "_%")) (runes (str "ab")) none =
        some (likeMatch (str "_%") (str "ab"))) ∧
    (likeMatch (str "_%") (str "ab") = true ↔ Like (runes (str "_%")) (runes (str "ab"))) := by
  have hplain : 37 ∉ runes (str "ab") := by decide +kernel
  exact ⟨⟨hplain, (like_match_iff (str "_%") (str "ab")).1 100 (by decide +kernel)⟩,
    (like_match_iff (str "_%") (str "ab")).2.2 fun h => h.taken hplain⟩

end SuperDB.Engine
