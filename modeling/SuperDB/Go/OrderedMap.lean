import SuperDB.Go.Map

/-!
# Maps with an order

A list of keys and a map are together a map with an order: its entries are those of the map, in the
order in which the list names them. Keys of the list without an entry do not count. Seen as a list
of entries, a value that is put under a new key comes last, and one that is put under a key that is
there takes the place of the old one.
-/

namespace SuperDB.Go

variable {V : Type}

def entries (order : List Bytes) (m : Map V) : List (Bytes × V) :=
  order.filterMap fun k => (m[k]?).map (k, ·)

/-- Puts a value in the place of the old one, or last. -/
def upsert {K : Type} [DecidableEq K] (l : List (K × V)) (k : K) (v : V) : List (K × V) :=
  if k ∈ l.map Prod.fst then l.map fun p => if p.1 = k then (k, v) else p else l ++ [(k, v)]

variable {order : List Bytes} {m : Map V} {k : Bytes} {v : V} {l : List (Bytes × V)}

theorem keys_entries : (entries order m).map Prod.fst = order.filter (m.contains ·) := by
  induction order with
  | nil => rfl
  | cons a order ih =>
    rw [entries, List.filterMap_cons, List.filter_cons]
    cases ha : m[a]? with
    | none =>
      have : m.contains a = false := Bool.eq_false_iff.2 fun h => Map.not_mem_iff.2 ha h
      simpa [this, entries] using ih
    | some w =>
      have : m.contains a = true := Map.mem_of_get? ha
      simpa [this, entries] using ih

theorem mem_keys_entries : k ∈ (entries order m).map Prod.fst ↔ k ∈ order ∧ k ∈ m := by
  rw [keys_entries, List.mem_filter, Std.ExtTreeMap.mem_iff_contains]

theorem entries_filter : entries (order.filter (m.contains ·)) m = entries order m := by
  rw [entries, entries, List.filterMap_filter]
  refine List.filterMap_congr fun a _ => ?_
  split
  · rfl
  · next ha =>
    rw [Map.not_mem_iff.1 (by simpa using ha)]
    rfl

theorem entries_filterBy {m' : Map V} {f : Bytes → V → Bool}
    (h : ∀ a ∈ order, m'[a]? = m[a]?.filter (f a)) :
    entries order m' = (entries order m).filter fun p => f p.1 p.2 := by
  rw [entries, entries, List.filter_filterMap]
  refine List.filterMap_congr fun a ha => ?_
  rw [h a ha]
  cases m[a]? with
  | none => rfl
  | some v => cases hf : f a v <;> simp [Option.filter, hf]

theorem entries_mapBy {m' : Map V} {g : Bytes → V → V} (h : ∀ a ∈ order, m'[a]? = m[a]?.map (g a)) :
    entries order m' = (entries order m).map fun p => (p.1, g p.1 p.2) := by
  rw [entries, entries, List.map_filterMap]
  refine List.filterMap_congr fun a ha => ?_
  rw [h a ha]
  cases m[a]? <;> rfl

theorem entries_concat (hk : k ∉ order) :
    entries (order ++ [k]) (m.insert k v) = entries order m ++ [(k, v)] := by
  have hsame : order.filterMap (fun a => ((m.insert k v)[a]?).map (a, ·)) = entries order m := by
    refine List.filterMap_congr fun a ha => ?_
    rw [Map.get?_insert_of_ne (by rintro rfl; exact hk ha)]
  rw [entries, List.filterMap_append, hsame]
  simp

theorem entries_replace (hk : k ∈ m) :
    entries order (m.insert k v) = (entries order m).map fun p => if p.1 = k then (k, v)
      else p := by
  rw [entries, entries, List.map_filterMap]
  refine List.filterMap_congr fun a _ => ?_
  rw [Map.get?_insert]
  by_cases ha : k = a
  · subst ha
    obtain ⟨w, hw⟩ := Map.mem_iff.1 hk
    simp [hw]
  · cases m[a]? with
    | none => simp [ha]
    | some w => simp [ha, Ne.symm ha]

theorem upsert_of_not_mem (h : k ∉ l.map Prod.fst) : upsert l k v = l ++ [(k, v)] := if_neg h

theorem foldl_upsert_new {news : List (Bytes × V)} (hnodup : (news.map Prod.fst).Nodup)
    (hnew : ∀ k ∈ news.map Prod.fst, k ∉ l.map Prod.fst) :
    news.foldl (fun l p => upsert l p.1 p.2) l = l ++ news := by
  induction news generalizing l with
  | nil => simp
  | cons p news ih =>
    rw [List.map_cons, List.nodup_cons] at hnodup
    rw [List.foldl_cons, upsert_of_not_mem (hnew p.1 (by simp)), ih hnodup.2 ?_]
    · simp
    · intro k hk hmem
      rw [List.map_append, List.mem_append] at hmem
      rcases hmem with hmem | hmem
      · exact hnew k (List.mem_cons_of_mem _ hk) hmem
      · obtain rfl : k = p.1 := by simpa using hmem
        exact hnodup.1 hk

end SuperDB.Go
