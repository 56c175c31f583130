import SuperDB.Go.Map

/-!
# Position maps

The map from the keys of the elements of a list to their positions, as a loop over the list builds
it: where a key occurs twice, the later position wins.
-/

namespace SuperDB.Go

variable {α : Type} {f : α → Bytes} {l : List α}

def positions (f : α → Bytes) (l : List α) : Map Nat :=
  l.zipIdx.foldl (fun m p => m.insert (f p.1) p.2) ∅

theorem positions_concat (l : List α) (a : α) :
    positions f (l ++ [a]) = (positions f l).insert (f a) l.length := by
  simp [positions, List.zipIdx_append]

theorem get?_positions {k : Bytes} {i : Nat} (h : (positions f l)[k]? = some i) :
    ∃ a, l[i]? = some a ∧ f a = k := by
  induction l using List.reverseRecOn generalizing i with
  | nil => simp [positions] at h
  | append_singleton l a ih =>
    rw [positions_concat, Map.get?_insert] at h
    split at h
    · next hk =>
      cases h
      exact ⟨a, by simp, hk⟩
    · obtain ⟨b, hb, hk⟩ := ih h
      have hlt : i < l.length := (List.getElem?_eq_some_iff.1 hb).1
      exact ⟨b, by rw [List.getElem?_append_left hlt, hb], hk⟩

theorem mem_positions {k : Bytes} : k ∈ positions f l ↔ ∃ a ∈ l, f a = k := by
  induction l using List.reverseRecOn with
  | nil => simp [positions]
  | append_singleton l a ih =>
    rw [positions_concat, Map.mem_insert, ih]
    constructor
    · rintro (hk | ⟨b, hb, hk⟩)
      · exact ⟨a, by simp, hk⟩
      · exact ⟨b, by simp [hb], hk⟩
    · rintro ⟨b, hb, hk⟩
      rcases List.mem_append.1 hb with hb | hb
      · exact Or.inr ⟨b, hb, hk⟩
      · rw [List.mem_singleton.1 hb] at hk
        exact Or.inl hk

theorem get?_positions_of_nodup (hnodup : (l.map f).Nodup) {a : α} {i : Nat}
    (h : l[i]? = some a) : (positions f l)[f a]? = some i := by
  obtain ⟨j, hj⟩ := Map.mem_iff.1 ((mem_positions (f := f)).2 ⟨a, List.mem_of_getElem? h, rfl⟩)
  obtain ⟨b, hb, hkey⟩ := get?_positions hj
  have hi : (l.map f)[i]? = some (f a) := by rw [List.getElem?_map, h]; rfl
  have hj' : (l.map f)[j]? = some (f a) := by
    rw [List.getElem?_map, hb, Option.map_some, hkey]
  have hlt : i < (l.map f).length := (List.getElem?_eq_some_iff.1 hi).1
  rw [hj, (List.getElem?_inj hlt hnodup).1 (hi.trans hj'.symm)]

end SuperDB.Go
