import SuperDB.Go.Map

/-!
# Indexes of buckets

An index maps a value to the set of the keys that have it. It indexes a partial function `f` from
keys to values if a key is in the bucket of exactly its value, and no bucket is empty. Such an index
is determined by `f`, and adding or removing one key follows a change of `f` at that key.
-/

namespace SuperDB.Go

def addToIndex (index : Map StrSet) (value key : Bytes) : Map StrSet :=
  index.insert value ((index.getD value ∅).insert key ())

def removeFromIndex (index : Map StrSet) (value key : Bytes) : Map StrSet :=
  let bucket := (index.getD value ∅).erase key
  if bucket.isEmpty then index.erase value else index.insert value bucket

/-- `index` is the index of `f`. -/
structure Indexes (index : Map StrSet) (f : Bytes → Option Bytes) : Prop where
  mem : ∀ value key, key ∈ index.getD value ∅ ↔ f key = some value
  nonempty : ∀ (value : Bytes) (bucket : StrSet), index[value]? = some bucket →
    bucket.isEmpty = false

namespace Indexes

variable {index index' : Map StrSet} {f : Bytes → Option Bytes} {key value : Bytes}

theorem congr {g : Bytes → Option Bytes} (h : Indexes index f) (hfg : ∀ k, f k = g k) :
    Indexes index g :=
  ⟨fun v k => by rw [h.mem, hfg], h.nonempty⟩

theorem empty : Indexes ∅ fun _ => none where
  mem v k := by simp
  nonempty v b hb := by simp at hb

theorem getD_add (value' : Bytes) :
    (addToIndex index value key).getD value' ∅ =
      if value = value' then (index.getD value ∅).insert key () else index.getD value' ∅ := by
  unfold addToIndex
  rw [Map.getD_eq, Map.get?_insert]
  split
  · rfl
  · rw [Map.getD_eq]

theorem getD_remove (value' : Bytes) :
    (removeFromIndex index value key).getD value' ∅ =
      if value = value' then (index.getD value ∅).erase key else index.getD value' ∅ := by
  unfold removeFromIndex
  simp only
  split
  · next hempty =>
    rw [Map.getD_eq, Map.get?_erase]
    split
    · exact (Std.ExtTreeMap.isEmpty_iff.1 hempty).symm
    · rw [Map.getD_eq]
  · rw [Map.getD_eq, Map.get?_insert]
    split
    · rfl
    · rw [Map.getD_eq]

theorem add (h : Indexes index f) (value : Bytes) (hkey : f key = none) :
    Indexes (addToIndex index value key) (Function.update f key (some value)) where
  mem v k := by
    rw [getD_add]
    have hmem := h.mem v k
    by_cases hk : k = key
    · subst hk
      rw [Function.update_self]
      split
      · next hv => simp [hv]
      · next hv => simp [hmem, hkey, hv]
    · rw [Function.update_of_ne hk]
      split
      · next hv =>
        subst hv
        rw [Map.mem_insert, hmem]
        simp [Ne.symm hk]
      · exact hmem
  nonempty v b hb := by
    unfold addToIndex at hb
    rw [Map.get?_insert] at hb
    split at hb
    · cases hb
      simp
    · exact h.nonempty v b hb

theorem remove (h : Indexes index f) (hkey : f key = some value) :
    Indexes (removeFromIndex index value key) (Function.update f key none) where
  mem v k := by
    rw [getD_remove]
    have hmem := h.mem v k
    by_cases hk : k = key
    · subst hk
      rw [Function.update_self]
      split
      · simp
      · next hv => simp [hmem, hkey, hv]
    · rw [Function.update_of_ne hk]
      split
      · next hv =>
        subst hv
        rw [Map.mem_erase, hmem]
        simp [Ne.symm hk]
      · exact hmem
  nonempty v b hb := by
    unfold removeFromIndex at hb
    simp only at hb
    split at hb
    · rw [Map.get?_erase] at hb
      split at hb
      · cases hb
      · exact h.nonempty v b hb
    · next hne =>
      rw [Map.get?_insert] at hb
      split at hb
      · cases hb
        simpa using hne
      · exact h.nonempty v b hb

theorem move (h : Indexes index f) (hkey : f key = some value) (value' : Bytes) :
    Indexes (addToIndex (removeFromIndex index value key) value' key)
      (Function.update f key (some value')) := by
  have hnone : Function.update f key none key = none := Function.update_self key none f
  have hadded := (h.remove hkey).add value' hnone
  rwa [Function.update_idem] at hadded

theorem foldl_add {l : List Bytes} (hl : l.Nodup) (value : Bytes → Bytes) (h : Indexes index f)
    (hf : ∀ k ∈ l, f k = none) :
    Indexes (l.foldl (fun index k => addToIndex index (value k) k) index)
      fun k => if k ∈ l then some (value k) else f k := by
  induction l generalizing index f with
  | nil => exact h.congr fun k => by simp
  | cons a l ih =>
    rw [List.nodup_cons] at hl
    have hadd := h.add (value a) (hf a List.mem_cons_self)
    rw [List.foldl_cons]
    refine (ih hl.2 hadd fun k hk => ?_).congr fun k => ?_
    · have hne : k ≠ a := fun e => hl.1 (e ▸ hk)
      rw [Function.update_of_ne hne]
      exact hf k (List.mem_cons_of_mem _ hk)
    · by_cases hka : k = a
      · subst hka
        simp [hl.1]
      · simp [hka]

theorem unique (h : Indexes index f) (h' : Indexes index' f) : index = index' := by
  have hsome : ∀ {i j : Map StrSet}, Indexes i f → Indexes j f →
      ∀ (v : Bytes) (b : StrSet), i[v]? = some b → j[v]? = some b := by
    intro i j hi hj v b hb
    have hgetD : i.getD v ∅ = b := by rw [Map.getD_eq, hb]; rfl
    have hsame : j.getD v ∅ = b := by
      apply Map.ext_get?
      intro k
      have hiff : k ∈ j.getD v ∅ ↔ k ∈ b := by rw [hj.mem, ← hi.mem, hgetD]
      rw [Map.mem_iff, Map.mem_iff] at hiff
      cases hjk : (j.getD v ∅)[k]? <;> cases hbk : b[k]? <;> simp_all
    rw [Map.getD_eq] at hsame
    cases hjv : j[v]? with
    | some b' => rw [hjv] at hsame; exact congrArg some hsame
    | none =>
      rw [hjv] at hsame
      have hempty : b.isEmpty = false := hi.nonempty v b hb
      rw [← hsame] at hempty
      simp at hempty
  apply Map.ext_get?
  intro v
  cases hi : index[v]? with
  | some b => exact (hsome h h' v b hi).symm
  | none =>
    cases hj : index'[v]? with
    | none => rfl
    | some b => rw [hsome h' h v b hj] at hi; cases hi

end Indexes

/-! ## Commuting changes

Changes at different keys can be made in any order, whatever the index is. -/

section Commuting

theorem get?_addToIndex (index : Map StrSet) (value key a : Bytes) :
    (addToIndex index value key)[a]? =
      if value = a then some ((index.getD a ∅).insert key ()) else index[a]? := by
  unfold addToIndex
  rw [Map.get?_insert]
  split
  · next h => rw [h]
  · rfl

theorem get?_removeFromIndex (index : Map StrSet) (value key a : Bytes) :
    (removeFromIndex index value key)[a]? =
      if value = a then
        if ((index.getD a ∅).erase key).isEmpty then none else some ((index.getD a ∅).erase key)
      else index[a]? := by
  unfold removeFromIndex
  simp only
  by_cases h : value = a
  · subst h
    rw [if_pos rfl]
    split
    · rw [Map.get?_erase_self]
    · rw [Map.get?_insert_self]
  · rw [if_neg h]
    split
    · rw [Map.get?_erase_of_ne h]
    · rw [Map.get?_insert_of_ne h]

variable {index : Map StrSet} {v v' k k' : Bytes}

theorem erase_comm (m : StrSet) : (m.erase k).erase k' = (m.erase k').erase k := by
  apply Map.ext_get?
  intro a
  simp only [Map.get?_erase]
  split <;> split <;> rfl

theorem erase_insert_comm (m : StrSet) (h : k ≠ k') :
    (m.erase k).insert k' () = (m.insert k' ()).erase k := by
  apply Map.ext_get?
  intro a
  simp only [Map.get?_erase, Map.get?_insert]
  grind

theorem addToIndex_comm :
    addToIndex (addToIndex index v k) v' k' = addToIndex (addToIndex index v' k') v k := by
  apply Map.ext_get?
  intro a
  simp only [get?_addToIndex, Indexes.getD_add]
  by_cases h : v = a <;> by_cases h' : v' = a
  · subst h h'
    simp only [if_true]
    by_cases hk : k = k'
    · rw [hk]
    · rw [Map.insert_comm _ _ _ hk]
  all_goals simp [h, h']

theorem removeFromIndex_comm :
    removeFromIndex (removeFromIndex index v k) v' k' =
      removeFromIndex (removeFromIndex index v' k') v k := by
  apply Map.ext_get?
  intro a
  simp only [get?_removeFromIndex, Indexes.getD_remove]
  by_cases h : v = a <;> by_cases h' : v' = a
  · subst h h'
    simp only [if_true, erase_comm]
  all_goals simp [h, h']

theorem removeFromIndex_addToIndex_comm (hk : k ≠ k') :
    addToIndex (removeFromIndex index v k) v' k' =
      removeFromIndex (addToIndex index v' k') v k := by
  apply Map.ext_get?
  intro a
  simp only [get?_removeFromIndex, get?_addToIndex, Indexes.getD_remove, Indexes.getD_add]
  by_cases h : v = a <;> by_cases h' : v' = a
  · subst h h'
    have hne : (((index.getD v' ∅).insert k' ()).erase k).isEmpty = false := by
      rw [← erase_insert_comm _ hk]
      simp
    simp only [if_true, erase_insert_comm _ hk, hne, Bool.false_eq_true, if_false]
  all_goals simp [h, h']

end Commuting

end SuperDB.Go
