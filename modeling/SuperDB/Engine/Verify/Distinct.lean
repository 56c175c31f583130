import SuperDB.Engine.Verify.Counting
import SuperDB.Engine.Verify.Projection

/-!
# DISTINCT

What a query collects depends on the lines of what it meets: without DISTINCT all of them, with
DISTINCT each line once. So the order in which rows are met does not matter for the rows that are
returned.
-/

namespace SuperDB.Engine

open Go

def keepLine (distinct : Bool) (c : Collected (List Value)) (line : List Value) :
    Collected (List Value) :=
  c.add distinct (rowProjectionKey line) line

def keptLines (distinct : Bool) (lines : List (List Value)) : List (List Value) :=
  (lines.foldl (keepLine distinct) {}).listed

theorem Collected.map_add {α β : Type} {c : Collected α} {d : Collected β} {f : α → β}
    (hitems : c.items.map f = d.items) (hseen : c.seen = d.seen) (distinct : Bool) (key : Bytes)
    (a : α) :
    (c.add distinct key a).items.map f = (d.add distinct key (f a)).items ∧
      (c.add distinct key a).seen = (d.add distinct key (f a)).seen := by
  unfold Collected.add
  rw [hseen]
  split
  · split
    · exact ⟨hitems, hseen⟩
    · exact ⟨by rw [List.map_cons, hitems], rfl⟩
  · exact ⟨by rw [List.map_cons, hitems], rfl⟩

theorem map_foldl_add {α β : Type} (p : α → Bool) (line : α → List Value) (item : α → β)
    (view : β → List Value) (hview : ∀ a, view (item a) = line a) (distinct : Bool) (l : List α) :
    (l.foldl (fun (c : Collected β) a =>
      if p a then c.add distinct (rowProjectionKey (line a)) (item a) else c)
      {}).listed.map view = keptLines distinct ((l.filter p).map line) := by
  have hfold : ∀ (l : List α) (c : Collected β) (d : Collected (List Value)), c.items.map view =
      d.items → c.seen = d.seen →
      (l.foldl (fun (c : Collected β) a =>
        if p a then c.add distinct (rowProjectionKey (line a)) (item a) else c) c).items.map view =
        (((l.filter p).map line).foldl (keepLine distinct) d).items := by
    intro l
    induction l with
    | nil => exact fun c d hitems _ => hitems
    | cons a l ih =>
      intro c d hitems hseen
      rw [List.foldl_cons]
      by_cases hp : p a = true
      · rw [if_pos hp, List.filter_cons_of_pos hp, List.map_cons, List.foldl_cons]
        obtain ⟨hitems', hseen'⟩ :=
          Collected.map_add hitems hseen distinct (rowProjectionKey (line a)) (item a)
        rw [hview] at hitems' hseen'
        exact ih _ _ hitems' hseen'
      · rw [if_neg hp, List.filter_cons_of_neg hp]
        exact ih _ _ hitems hseen
  unfold keptLines Collected.listed
  rw [List.map_reverse, hfold l {} {} rfl rfl]

theorem keptLines_false (lines : List (List Value)) : keptLines false lines = lines := by
  have hall := foldl_add_eq_filter (fun _ => true) rowProjectionKey id lines {}
  rw [List.filter_true, List.map_id] at hall
  exact hall

/-- The lines that DISTINCT has seen are those it has kept, each once. -/
structure Collected.Kept (c : Collected (List Value)) : Prop where
  seen : ∀ line, rowProjectionKey line ∈ c.seen ↔ line ∈ c.items
  nodup : c.items.Nodup

theorem Collected.Kept.add {c : Collected (List Value)} (h : c.Kept) (line : List Value) :
    (keepLine true c line).Kept ∧ ∀ x, x ∈ (keepLine true c line).items ↔ x ∈ c.items ∨
    x = line := by
  unfold keepLine Collected.add
  rw [if_pos rfl]
  split
  · next hseen =>
    refine ⟨h, fun x => (or_iff_left_of_imp ?_).symm⟩
    rintro rfl
    exact (h.seen x).1 hseen
  · next hnew =>
    have hmem : ∀ x, x ∈ line :: c.items ↔ x ∈ c.items ∨ x = line := by
      intro x
      rw [List.mem_cons, or_comm]
    refine ⟨⟨fun x => ?_, ?_⟩, hmem⟩
    · rw [hmem, Map.mem_insert, h.seen, or_comm]
      refine or_congr_right ⟨fun hkey => (rowProjectionKey_injective hkey).symm, ?_⟩
      rintro rfl
      rfl
    · exact List.nodup_cons.2 ⟨fun hin => hnew ((h.seen line).2 hin), h.nodup⟩

theorem keptLines_true (lines : List (List Value)) :
    (keptLines true lines).Nodup ∧ ∀ x, x ∈ keptLines true lines ↔ x ∈ lines := by
  have hfold : ∀ (lines : List (List Value)) (c : Collected (List Value)), c.Kept →
      (lines.foldl (keepLine true) c).Kept ∧
        ∀ x, x ∈ (lines.foldl (keepLine true) c).items ↔
          x ∈ c.items ∨ x ∈ lines := by
    intro lines
    induction lines with
    | nil => exact fun c hc => ⟨hc, fun x => by simp⟩
    | cons line lines ih =>
      intro c hc
      obtain ⟨hadd, hmem⟩ := hc.add line
      obtain ⟨hkept, hall⟩ := ih _ hadd
      refine ⟨hkept, fun x => ?_⟩
      rw [List.foldl_cons, hall, hmem, List.mem_cons, or_assoc]
  obtain ⟨hkept, hmem⟩ := hfold lines {} ⟨fun x => by simp, List.nodup_nil⟩
  unfold keptLines Collected.listed
  refine ⟨List.nodup_reverse.2 hkept.nodup, fun x => ?_⟩
  rw [List.mem_reverse, hmem]
  exact or_iff_right List.not_mem_nil

theorem keptLines_perm {distinct : Bool} {l l' : List (List Value)} (h : l.Perm l') :
    (keptLines distinct l).Perm (keptLines distinct l') := by
  cases distinct with
  | false => rwa [keptLines_false, keptLines_false]
  | true =>
    refine (List.perm_ext_iff_of_nodup (keptLines_true l).1 (keptLines_true l').1).2 fun x => ?_
    rw [(keptLines_true l).2, (keptLines_true l').2, h.mem_iff]

end SuperDB.Engine
