import SuperDB.Go.FloatText
import SuperDB.Engine.Query

/-!
# Projection keys

DISTINCT and GROUP BY remember a row by the text of its cells. The text gives each cell's kind and
the length of its rendering, so different rows have different keys.
-/

namespace SuperDB.Engine

open Go

theorem formatInt_toInt_injective {m n : Int64} (h : formatInt m.toInt = formatInt n.toInt) :
    m = n := by
  have hread : ∀ k : Int64, parseInt (formatInt k.toInt) = .ok k := by
    intro k
    rw [parseInt_formatInt (Int64.le_toInt k) (Int64.toInt_lt k), Int64.ofInt_toInt]
  have hm := hread m
  rw [h, hread n] at hm
  exact (Except.ok.inj hm).symm

theorem eq_of_valueTag_valueKey {v w : Value} (htag : valueTag v = valueTag w)
    (hkey : valueKey v = valueKey w) : v = w := by
  have hnull : ∀ n, str "NULL" ≠ decimal n := by
    intro n h
    have hdigit : ∀ a ∈ str "NULL", isDigit a = true := fun a ha => isDigit_of_mem_decimal (h ▸ ha)
    exact absurd hdigit (by decide +kernel)
  cases v with
  | int m =>
    cases w with
    | int n => rw [formatInt_toInt_injective hkey]
    | _ =>
      dsimp only [valueTag] at htag
      exact absurd htag (by decide)
  | float x =>
    cases w with
    | float y => rw [formatFloat_injective hkey]
    | _ =>
      dsimp only [valueTag] at htag
      exact absurd htag (by decide)
  | text s =>
    cases w with
    | text t => rw [show s = t from hkey]
    | _ =>
      dsimp only [valueTag] at htag
      exact absurd htag (by decide)
  | bool a =>
    cases w with
    | bool b =>
      have hbool : ∀ a b : Bool, valueKey (.bool a) = valueKey (.bool b) →
          a = b := by decide +kernel
      rw [hbool a b hkey]
    | _ =>
      dsimp only [valueTag] at htag
      exact absurd htag (by decide)
  | null =>
    cases w with
    | null => rfl
    | count n => exact absurd hkey (hnull n)
    | _ =>
      dsimp only [valueTag] at htag
      exact absurd htag (by decide)
  | count m =>
    cases w with
    | null => exact absurd hkey.symm (hnull m)
    | count n => rw [decimal_injective hkey]
    | _ =>
      dsimp only [valueTag] at htag
      exact absurd htag (by decide)

def cellText (v : Value) : Bytes := valueTag v :: decimal (valueKey v).length ++ ch ':' ::
    valueKey v

theorem rowProjectionKey_cons (v : Value) (row : List Value) :
    rowProjectionKey (v :: row) = cellText v ++ rowProjectionKey row := rfl

theorem cellText_append_inj {v w : Value} {r s : Bytes} (h : cellText v ++ r = cellText w ++ s) :
    v = w ∧ r = s := by
  have hcolon : ∀ n, ch ':' ∉ decimal n := by
    intro n hmem
    exact absurd (isDigit_of_mem_decimal hmem) (by decide)
  unfold cellText at h
  rw [List.cons_append, List.cons_append, List.cons_append, List.cons_append, List.append_assoc,
    List.append_assoc] at h
  obtain ⟨htag, h⟩ := List.cons.inj h
  -- the length of the rendering ends at the colon
  rw [List.cons_append, List.cons_append] at h
  have hlength := congrArg (List.takeWhile (· ≠ ch ':')) h
  have hrest := congrArg (List.dropWhile (· ≠ ch ':')) h
  rw [(takeWhile_ne_append (hcolon _) _).1, (takeWhile_ne_append (hcolon _) _).1] at hlength
  rw [(takeWhile_ne_append (hcolon _) _).2, (takeWhile_ne_append (hcolon _) _).2] at hrest
  obtain ⟨hkey, hrest⟩ := List.append_inj (List.cons.inj hrest).2 (decimal_injective hlength)
  exact ⟨eq_of_valueTag_valueKey htag hkey, hrest⟩

theorem rowProjectionKey_eq_nil {row : List Value} (h : rowProjectionKey row = []) : row = [] := by
  cases row with
  | nil => rfl
  | cons v row => cases h

theorem eq_append_of_rowProjectionKey {row row' : List Value} {r : Bytes}
    (h : rowProjectionKey row ++ r = rowProjectionKey row') :
    ∃ rest, row' = row ++ rest ∧ r = rowProjectionKey rest := by
  induction row generalizing row' with
  | nil => exact ⟨row', rfl, h⟩
  | cons v row ih =>
    cases row' with
    | nil => cases h
    | cons w row' =>
      rw [rowProjectionKey_cons, rowProjectionKey_cons, List.append_assoc] at h
      obtain ⟨rfl, hrest⟩ := cellText_append_inj h
      obtain ⟨rest, rfl, hr⟩ := ih hrest
      exact ⟨rest, rfl, hr⟩

theorem rowProjectionKey_injective : Function.Injective rowProjectionKey := by
  intro row row' h
  obtain ⟨rest, rfl, hrest⟩ := eq_append_of_rowProjectionKey ((List.append_nil _).trans h)
  rw [rowProjectionKey_eq_nil hrest.symm, List.append_nil]

/-- **Rows have the same key just when they are equal, and one key starts another just when its row
starts the other row.** So no text within a cell reads as the boundary of a cell. -/
theorem rowProjectionKey_eq_iff (row row' : List Value) :
    (rowProjectionKey row = rowProjectionKey row' ↔ row = row') ∧
      (rowProjectionKey row <+: rowProjectionKey row' ↔ row <+: row') := by
  refine ⟨rowProjectionKey_injective.eq_iff, ?_, ?_⟩
  · rintro ⟨r, h⟩
    obtain ⟨rest, hrow, -⟩ := eq_append_of_rowProjectionKey h
    exact ⟨rest, hrow.symm⟩
  · rintro ⟨rest, rfl⟩
    exact ⟨rowProjectionKey rest, List.flatMap_append.symm⟩

example : rowProjectionKey [.text (str "1s1:2")] = str "s5:1s1:2" ∧
    rowProjectionKey [.text (str "1"), .text (str "2")] = str "s1:1s1:2" := by decide +kernel

end SuperDB.Engine
