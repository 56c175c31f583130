import Mathlib

/-!
# Byte strings and string-keyed maps

A Go `string` is a sequence of bytes with no promise about its encoding, so it is modelled by
`Bytes`. A Go `map[string]V` is modelled by `Map V`, the extensional tree map keyed by byte
strings: two maps with the same entries are equal. `range` over a Go map visits the entries in an
unspecified order, which a `MapOrder` makes explicit: it permutes the list of keys.
-/

namespace SuperDB.Go

/-- A Go string. -/
abbrev Bytes := List UInt8

def str (s : String) : Bytes := s.toUTF8.toList

/-- The byte of an ASCII character literal. -/
def ch (c : Char) : UInt8 := UInt8.ofNat c.toNat

/-- The single quote, which delimits SQL literals. -/
def quote : UInt8 := 39

theorem toList_loop (b : ByteArray) (i : Nat) (out : Bytes) :
    ByteArray.toList.loop b i out = out.reverse ++ b.data.toList.drop i := by
  fun_induction ByteArray.toList.loop b i out with
  | case1 i out h ih =>
    have hi : i < b.data.toList.length := h
    have hget : b.get! i = b.data.toList[i] := getElem!_pos b.data i h
    rw [ih, List.drop_eq_getElem_cons hi, hget, List.reverse_cons, List.append_assoc,
      List.singleton_append]
  | case2 i out h =>
    rw [List.drop_eq_nil_of_le (Nat.le_of_not_lt h), List.append_nil]

/-- The bytes of a literal, one character after the other. -/
theorem str_ofList (l : List Char) : str (String.ofList l) = l.flatMap String.utf8EncodeChar := by
  rw [str, ByteArray.toList, toList_loop, String.toUTF8_eq_toByteArray, String.toByteArray_ofList]
  simp [List.utf8Encode]

/-- `map[string]V`; a nil map reads like an empty one. -/
abbrev Map (V : Type) := Std.ExtTreeMap Bytes V compare

/-- `map[string]struct{}`. -/
abbrev StrSet := Map Unit

namespace Map

variable {V W : Type}

theorem get?_insert (m : Map V) (k a : Bytes) (v : V) :
    (m.insert k v)[a]? = if k = a then some v else m[a]? := by
  rw [Std.ExtTreeMap.getElem?_insert]
  simp only [Std.LawfulEqCmp.compare_eq_iff_eq]

@[simp] theorem get?_insert_self (m : Map V) (k : Bytes) (v : V) : (m.insert k v)[k]? = some v := by
  rw [get?_insert, if_pos rfl]

theorem get?_insert_of_ne {m : Map V} {k a : Bytes} {v : V} (h : k ≠ a) :
    (m.insert k v)[a]? = m[a]? := by
  rw [get?_insert, if_neg h]

theorem get?_erase (m : Map V) (k a : Bytes) :
    (m.erase k)[a]? = if k = a then none else m[a]? := by
  rw [Std.ExtTreeMap.getElem?_erase]
  simp only [Std.LawfulEqCmp.compare_eq_iff_eq]

@[simp] theorem get?_erase_self (m : Map V) (k : Bytes) : (m.erase k)[k]? = none := by
  rw [get?_erase, if_pos rfl]

theorem get?_erase_of_ne {m : Map V} {k a : Bytes} (h : k ≠ a) : (m.erase k)[a]? = m[a]? := by
  rw [get?_erase, if_neg h]

@[simp] theorem get?_empty (a : Bytes) : (∅ : Map V)[a]? = none :=
  Std.ExtTreeMap.getElem?_empty

theorem mem_iff {m : Map V} {k : Bytes} : k ∈ m ↔ ∃ v, m[k]? = some v := by
  rw [Std.ExtTreeMap.mem_iff_isSome_getElem?, Option.isSome_iff_exists]

theorem not_mem_iff {m : Map V} {k : Bytes} : k ∉ m ↔ m[k]? = none := by
  rw [Std.ExtTreeMap.mem_iff_isSome_getElem?]
  cases m[k]? <;> simp

theorem mem_of_get? {m : Map V} {k : Bytes} {v : V} (h : m[k]? = some v) : k ∈ m :=
  mem_iff.2 ⟨v, h⟩

theorem ext_get? {m m' : Map V} (h : ∀ k : Bytes, m[k]? = m'[k]?) : m = m' :=
  Std.ExtTreeMap.ext_getElem? h

theorem mem_insert {m : Map V} {k a : Bytes} {v : V} : a ∈ m.insert k v ↔ k = a ∨ a ∈ m := by
  rw [Std.ExtTreeMap.mem_insert]
  simp only [Std.LawfulEqCmp.compare_eq_iff_eq]

theorem mem_erase {m : Map V} {k a : Bytes} : a ∈ m.erase k ↔ k ≠ a ∧ a ∈ m := by
  rw [Std.ExtTreeMap.mem_erase]
  simp only [ne_eq, Std.LawfulEqCmp.compare_eq_iff_eq]

theorem get?_map (f : Bytes → V → W) (m : Map V) (k : Bytes) :
    (m.map f)[k]? = m[k]?.map (f k) :=
  Std.ExtTreeMap.getElem?_map

theorem get?_filter (f : Bytes → V → Bool) (m : Map V) (k : Bytes) :
    (m.filter f)[k]? = m[k]?.filter (f k) :=
  Std.ExtTreeMap.getElem?_filter'

theorem nodup_keys (m : Map V) : m.keys.Nodup := by
  refine (Std.ExtTreeMap.distinct_keys (t := m)).imp ?_
  intro a b h e
  exact h (Std.LawfulEqCmp.compare_eq_iff_eq.2 e)

theorem mem_keys {m : Map V} {k : Bytes} : k ∈ m.keys ↔ k ∈ m :=
  Std.ExtTreeMap.mem_keys

/-- A property of all entries of a map can be decided. -/
instance decidableForall {m : Map V} {P : Bytes → V → Prop} [∀ k v, Decidable (P k v)] :
    Decidable (∀ (k : Bytes) (v : V), m[k]? = some v → P k v) :=
  decidable_of_iff (∀ k ∈ m.keys, ∀ v ∈ m[k]?, P k v)
    ⟨fun h k v hv => h k (mem_keys.2 (mem_of_get? hv)) v hv, fun h k _ v hv => h k v hv⟩

instance decidableForallMem {m : Map V} {P : Bytes → Prop} [DecidablePred P] :
    Decidable (∀ k ∈ m, P k) :=
  decidable_of_iff (∀ k ∈ m.keys, P k) (forall_congr' fun _ => by rw [mem_keys])

theorem getD_eq (m : Map V) (k : Bytes) (d : V) : m.getD k d = m[k]?.getD d :=
  Std.ExtTreeMap.getD_eq_getD_getElem?

theorem insert_get? {m : Map V} {k : Bytes} {v : V} (h : m[k]? = some v) : m.insert k v = m := by
  apply ext_get?
  intro a
  rw [get?_insert]
  split
  · next e => rw [← e, h]
  · rfl

theorem insert_comm (m : Map V) {k k' : Bytes} (v v' : V) (h : k ≠ k') :
    (m.insert k v).insert k' v' = (m.insert k' v').insert k v := by
  apply ext_get?
  intro a
  simp only [get?_insert]
  grind

theorem insert_insert (m : Map V) (k : Bytes) (v v' : V) :
    (m.insert k v).insert k v' = m.insert k v' := by
  apply ext_get?
  intro a
  simp only [get?_insert]
  split <;> rfl

theorem foldlM_insert {ε : Type} {f : Bytes → Except ε V} {l : List Bytes} {m m' : Map V}
    (h : l.foldlM (fun m k => (f k).map fun v => m.insert k v) m = .ok m') (k : Bytes) :
    (k ∈ l → ∃ v, f k = .ok v ∧ m'[k]? = some v) ∧ (k ∉ l → m'[k]? = m[k]?) := by
  induction l generalizing m with
  | nil =>
    cases h
    exact ⟨fun hk => (List.not_mem_nil hk).elim, fun _ => rfl⟩
  | cons a l ih =>
    rw [List.foldlM_cons] at h
    cases hf : f a with
    | error e =>
      rw [hf] at h
      cases h
    | ok v =>
      rw [hf] at h
      obtain ⟨hin, hout⟩ := ih h
      refine ⟨fun hk => ?_, fun hk => ?_⟩
      · by_cases hkl : k ∈ l
        · exact hin hkl
        · obtain rfl : k = a := (List.mem_cons.1 hk).resolve_right hkl
          exact ⟨v, hf, by rw [hout hkl, get?_insert_self]⟩
      · obtain ⟨hka, hkl⟩ := not_or.1 (mt List.mem_cons.2 hk)
        rw [hout hkl, get?_insert_of_ne (Ne.symm hka)]

end Map

/-- An order in which `range` visits the keys of a map. -/
structure MapOrder where
  perm : List Bytes → List Bytes
  perm_perm : ∀ l, (perm l).Perm l

/-- The keys of a map in the order of a `range` loop. -/
def MapOrder.range {V : Type} (o : MapOrder) (m : Map V) : List Bytes := o.perm m.keys

def MapOrder.sorted : MapOrder := ⟨id, fun l => List.Perm.refl l⟩

namespace MapOrder

variable {V : Type} (o : MapOrder)

theorem range_perm (m : Map V) : (o.range m).Perm m.keys := o.perm_perm _

theorem mem_range {m : Map V} {k : Bytes} : k ∈ o.range m ↔ k ∈ m :=
  (o.range_perm m).mem_iff.trans Map.mem_keys

theorem nodup_range (m : Map V) : (o.range m).Nodup :=
  (o.range_perm m).nodup_iff.2 m.nodup_keys

end MapOrder

end SuperDB.Go
