/-
# What a buffer holds

A buffer is looked at one place at a time: `b[k]?` is its byte at `k`, or `none` behind its end.
Windows, held bytes and overwrites are described by these places alone, so nothing that follows
has to open their definitions again: `grind` knows the table, and the sizes that go with it.

| operation | at place `k` |
| --- | --- |
| `window b o n` | `b[o + k]?` for `k < n` |
| `overwrite b o w` | `w[k - o]?` from `o` up to `o + w.length`, `b[k]?` elsewhere |
-/

import BinaryPatch.Bytes

namespace BinaryPatch
namespace Bytes

/-! ## Places -/

theorem getElem?_eq_data (b : ByteArray) (k : Nat) : b[k]? = b.data[k]? := by
  by_cases h : k < b.size
  · rw [getElem?_pos b k h, ByteArray.getElem_eq_getElem_data]
    exact (Array.getElem?_eq_getElem h).symm
  · rw [getElem?_neg b k h]
    exact (Array.getElem?_eq_none (Nat.le_of_not_lt h)).symm

/-- Buffers that agree at every place are equal. -/
theorem ext_getElem? {a b : ByteArray} (h : ∀ k : Nat, a[k]? = b[k]?) : a = b := by
  apply ByteArray.ext
  apply Array.ext_getElem?
  intro k
  rw [← getElem?_eq_data, ← getElem?_eq_data, h k]

/-! ## Windows and held bytes -/

@[grind =]
theorem getElem?_window (b : ByteArray) (o n k : Nat) :
    (window b o n)[k]? = if k < n then b[o + k]? else none := by
  unfold window
  rw [Array.getElem?_toList, ByteArray.data_extract, Array.getElem?_extract, getElem?_eq_data]
  by_cases hk : k < n
  · by_cases hb : o + k < b.size
    · rw [if_pos (by change k < min (o + n) b.size - o; omega), if_pos hk]
    · rw [if_neg (by change ¬ k < min (o + n) b.size - o; omega), if_pos hk]
      exact (Array.getElem?_eq_none (Nat.le_of_not_lt hb)).symm
  · rw [if_neg (by change ¬ k < min (o + n) b.size - o; omega), if_neg hk]

@[simp, grind =]
theorem length_window {b : ByteArray} {o n : Nat} (h : o + n ≤ b.size) :
    (window b o n).length = n := by
  unfold window
  rw [Array.length_toList, ByteArray.data_extract, Array.size_extract]
  change min (o + n) b.size - o = n
  omega

/-- **Bytes are held where every one of them stands at its place.** -/
@[grind =]
theorem holdsAt_iff (b : ByteArray) (o : Nat) (w : List UInt8) :
    holdsAt b o w = true ↔ o + w.length ≤ b.size ∧ ∀ k < w.length, b[o + k]? = w[k]? := by
  induction w generalizing o with
  | nil => simp [holdsAt]
  | cons c rest ih =>
    unfold holdsAt
    by_cases ho : o < b.size
    · rw [dif_pos ho, Bool.and_eq_true, beq_iff_eq, ih (o + 1)]
      constructor
      · rintro ⟨hc, hsize, hrest⟩
        refine ⟨by simp only [List.length_cons]; omega, fun k hk => ?_⟩
        cases k with
        | zero => simp [ho, hc]
        | succ k =>
          rw [List.getElem?_cons_succ, ← hrest k (by simpa using hk)]
          congr 1
          omega
      · rintro ⟨hsize, hall⟩
        refine ⟨?_, by simp only [List.length_cons] at hsize; omega, fun k hk => ?_⟩
        · simpa [ho] using hall 0 (by simp)
        · have := hall (k + 1) (by simpa using hk)
          rw [List.getElem?_cons_succ] at this
          rw [← this]
          congr 1
          omega
    · rw [dif_neg ho]
      simp only [List.length_cons, Bool.false_eq_true, false_iff]
      omega

/-- Held bytes only depend on the places they stand at. -/
theorem holdsAt_congr {a b : ByteArray} {o : Nat} {w : List UInt8} (hsize : a.size = b.size)
    (h : ∀ k, o ≤ k → k < o + w.length → a[k]? = b[k]?) : holdsAt a o w = holdsAt b o w := by
  rw [Bool.eq_iff_iff]
  grind

theorem fits_of_holdsAt {b : ByteArray} {o : Nat} {w : List UInt8} (h : holdsAt b o w = true) :
    o + w.length ≤ b.size := ((holdsAt_iff b o w).1 h).1

/-- A window that lies inside the buffer starts with the bytes that the buffer holds there. -/
theorem isPrefixOf_window_iff {b : ByteArray} {o n : Nat} {w : List UInt8} (hn : w.length ≤ n)
    (hb : o + n ≤ b.size) : w.isPrefixOf (window b o n) = true ↔ holdsAt b o w = true := by
  rw [List.isPrefixOf_iff_prefix, List.prefix_iff_getElem?]
  grind

/-! ## Overwriting -/

@[simp, grind =]
theorem size_overwrite {b : ByteArray} {o : Nat} {w : List UInt8} (h : o + w.length ≤ b.size) :
    (overwrite b o w).size = b.size := by
  change (b.data.extract 0 o ++ w.toArray.extract 0 (0 + w.length) ++
    b.data.extract (o + min w.length (w.toArray.size - 0)) b.data.size).size = b.data.size
  change o + w.length ≤ b.data.size at h
  simp only [Array.size_append, Array.size_extract, List.size_toArray]
  omega

/-- **An overwrite changes its own places and no other.** -/
@[grind =]
theorem getElem?_overwrite {b : ByteArray} {o : Nat} {w : List UInt8}
    (h : o + w.length ≤ b.size) (k : Nat) :
    (overwrite b o w)[k]? = if o ≤ k ∧ k < o + w.length then w[k - o]? else b[k]? := by
  rw [getElem?_eq_data, getElem?_eq_data]
  change o + w.length ≤ b.data.size at h
  change (b.data.extract 0 o ++ w.toArray.extract 0 (0 + w.length) ++
    b.data.extract (o + min w.length (w.toArray.size - 0)) b.data.size)[k]? = _
  have hbefore : (b.data.extract 0 o).size = o := by rw [Array.size_extract]; omega
  have hown : w.toArray.extract 0 (0 + w.length) = w.toArray := by simp
  have hafter : o + min w.length (w.toArray.size - 0) = o + w.length := by simp
  rw [hown, hafter, Array.append_assoc, Array.getElem?_append, hbefore]
  by_cases h₁ : k < o
  · rw [if_pos h₁, if_neg (by omega), Array.getElem?_extract, if_pos (by omega), Nat.zero_add]
  · rw [if_neg h₁, Array.getElem?_append, List.size_toArray]
    by_cases h₂ : k - o < w.length
    · rw [if_pos h₂, if_pos (by omega), List.getElem?_toArray]
    · rw [if_neg h₂, if_neg (by omega), Array.getElem?_extract,
        show o + w.length + (k - o - w.length) = k by omega]
      split
      · rfl
      · exact (Array.getElem?_eq_none (by omega)).symm

/-- Writing what is held already changes nothing. -/
theorem overwrite_of_holdsAt {b : ByteArray} {o : Nat} {w : List UInt8}
    (h : holdsAt b o w = true) : overwrite b o w = b := by
  apply ext_getElem?
  grind

end Bytes
end BinaryPatch
