/-
# What a pattern describes once its site is written

A pattern describes a site before it is patched. Laid over with the cells that a patch writes, it
describes the site afterwards (`Pattern.overlay_describes`):

| the site | is matched by |
| --- | --- |
| before | the pattern |
| after, with the cells written | the overlaid pattern |
| after, with the overlaid literals put back | the pattern |

A literal under a written cell becomes this cell, whether it is a byte or unknown, and every other
cell stays (`Pattern.getElem?_layOver`). There is no overlay exactly where no literal changes
(`Pattern.overlay_eq_none_iff`), and the pattern itself then still describes the site.
-/

import BinaryPatch.Proofs.Search
import Mathlib.Data.List.Forall2

namespace BinaryPatch
namespace Pattern

/-! ## Cells -/

@[simp, grind =]
theorem length_layOver (p : Pattern) (anchor : Nat) (written : List Cell) :
    (p.layOver anchor written).length = p.length := by
  fun_induction layOver p anchor written <;> simp_all

/-- **A cell under a written one changes if it is a literal**, and every other stays. -/
theorem getElem?_layOver (p : Pattern) (anchor : Nat) (written : List Cell) (k : Nat) :
    (p.layOver anchor written)[k]? = p[k]?.map fun c =>
      if anchor ≤ k then (written[k - anchor]?).elim c fun w => Cell.under w c else c := by
  fun_induction layOver p anchor written generalizing k with
  | case1 => simp
  | case2 p anchor => simp
  | case3 c rest w written ih =>
    cases k with
    | zero => simp
    | succ k => simpa using ih k
  | case4 c rest anchor written _ ih =>
    cases k with
    | zero => simp
    | succ k => simpa using ih k

section LayOver

variable {p : Pattern} {anchor k : Nat} {written : List Cell}

/-- Outside the written cells the cells are the same. -/
theorem getElem?_layOver_of_outside (h : k < anchor ∨ anchor + written.length ≤ k) :
    (p.layOver anchor written)[k]? = p[k]? := by
  rw [getElem?_layOver]
  by_cases hle : anchor ≤ k
  · have hnone : written[k - anchor]? = none := List.getElem?_eq_none (by omega)
    simp [hle, hnone]
  · simp [hle]

/-- Under a written cell a literal becomes this cell. -/
theorem getElem?_layOver_of_inside {w : Cell} (hle : anchor ≤ k)
    (hw : written[k - anchor]? = some w) :
    (p.layOver anchor written)[k]? = p[k]?.map (Cell.under w) := by
  rw [getElem?_layOver]
  simp [hle, hw]

/-- A literal of the pattern that is written over with something else. -/
def Overlaid (p : Pattern) (anchor : Nat) (written : List Cell) (i : Nat) : Prop :=
  anchor ≤ i ∧ ∃ literal w, p[i]? = some (some literal) ∧ written[i - anchor]? = some w ∧
    w ≠ some literal

/-- Every other cell stays as it is. -/
theorem getElem?_layOver_of_not_overlaid (h : ¬ p.Overlaid anchor written k) :
    (p.layOver anchor written)[k]? = p[k]? := by
  by_cases hin : anchor ≤ k ∧ k < anchor + written.length
  · have hw : written[k - anchor]? = some written[k - anchor] :=
      List.getElem?_eq_getElem (by omega)
    rw [getElem?_layOver_of_inside hin.1 hw]
    cases hc : p[k]? with
    | none => rfl
    | some c =>
      cases c with
      | none => rfl
      | some literal =>
        have hsame : written[k - anchor] = some literal := by
          by_contra hne
          exact h ⟨hin.1, literal, _, hc, hw, hne⟩
        simp [Cell.under, hsame]
  · exact getElem?_layOver_of_outside (by omega)

theorem layOver_eq_self_iff :
    p.layOver anchor written = p ↔ ∀ i, ¬ p.Overlaid anchor written i := by
  constructor
  · rintro hsame i ⟨hle, literal, w, hc, hw, hne⟩
    have hcell : (p.layOver anchor written)[i]? = p[i]?.map (Cell.under w) :=
      getElem?_layOver_of_inside hle hw
    rw [hsame, hc] at hcell
    exact hne (Option.some.inj hcell).symm
  · exact fun h => List.ext_getElem? fun k => getElem?_layOver_of_not_overlaid (h k)

/-! ## Overlays -/

/-- **There is no overlay exactly where no literal changes.** -/
theorem overlay_eq_none_iff :
    p.overlay anchor written = none ↔ ∀ i, ¬ p.Overlaid anchor written i := by
  rw [← layOver_eq_self_iff]
  unfold overlay
  dsimp only
  split
  · rename_i hsame
    exact iff_of_true rfl hsame
  · rename_i hchanged
    exact iff_of_false nofun hchanged

theorem overlay_eq_some_iff {q : Pattern} :
    p.overlay anchor written = some q ↔ q ≠ p ∧ q = p.layOver anchor written := by
  unfold overlay
  dsimp only
  split
  · rename_i hsame
    exact iff_of_false nofun fun h => h.1 (h.2.trans hsame)
  · rename_i hchanged
    rw [Option.some_inj]
    exact ⟨fun h => ⟨h ▸ hchanged, h.symm⟩, fun h => h.2.symm⟩

/-- With or without an overlay, it is the pattern laid over with the cells. -/
theorem overlay_getD (p : Pattern) (anchor : Nat) (written : List Cell) :
    (p.overlay anchor written).getD p = p.layOver anchor written := by
  cases h : p.overlay anchor written with
  | none => exact (layOver_eq_self_iff.2 (overlay_eq_none_iff.1 h)).symm
  | some q => exact (overlay_eq_some_iff.1 h).2

theorem length_of_overlay {q : Pattern} (h : p.overlay anchor written = some q) :
    q.length = p.length := by
  rw [(overlay_eq_some_iff.1 h).2]
  exact length_layOver p anchor written

end LayOver
end Pattern

/-! ## Written sites -/

namespace Bytes

/-- The second buffer is the first with cells written at a place: it holds the bytes that are known
of them, as far as it reaches, and agrees with the first everywhere else. -/
structure WrittenAt (b b' : ByteArray) (o : Nat) (written : List Cell) : Prop where
  size : b.size = b'.size
  outside : ∀ k, k < o ∨ o + written.length ≤ k → b[k]? = b'[k]?
  inside : ∀ (i : Nat) (w byte : UInt8), written[i]? = some (some w) →
    b'[o + i]? = some byte → byte = w

/-- Writing bytes writes every row of cells that accepts them. -/
theorem writtenAt_overwrite {b : ByteArray} {o : Nat} {bytes : List UInt8} {written : List Cell}
    (hfit : o + bytes.length ≤ b.size)
    (h : List.Forall₂ (fun c byte => Cell.accepts c byte = true) written bytes) :
    WrittenAt b (overwrite b o bytes) o written where
  size := by simp [hfit]
  outside k hk := by
    rw [h.length_eq] at hk
    grind
  inside i w byte hw hbyte := by
    obtain ⟨hlength, haccepts⟩ := List.forall₂_iff_get.1 h
    obtain ⟨hi, hcell⟩ := List.getElem?_eq_some_iff.1 hw
    have hacc := haccepts i hi (hlength ▸ hi)
    rw [getElem?_overwrite hfit, if_pos (by omega), Nat.add_sub_cancel_left,
      List.getElem?_eq_getElem (hlength ▸ hi), Option.some_inj] at hbyte
    rw [List.get_eq_getElem, List.get_eq_getElem, hcell, hbyte] at hacc
    exact (beq_iff_eq.1 hacc).symm

end Bytes

namespace Cell

@[simp]
theorem accepts_getD (c : Cell) (byte : UInt8) : c.accepts (c.getD byte) = true := by
  cases c <;> simp [accepts]

theorem getD_of_accepts {c : Cell} {byte : UInt8} (h : c.accepts byte = true) :
    c.getD byte = byte := by
  cases c with
  | none => rfl
  | some literal => simpa [accepts] using h

end Cell

namespace Pattern

/-- Bytes with the literals of a pattern put in their places. -/
def fill (p : Pattern) (bytes : List UInt8) : List UInt8 :=
  List.zipWith (fun c byte => c.getD byte) p bytes

/-- A buffer with the literals of a pattern put in their places. -/
def restore (p : Pattern) (b : ByteArray) (s : Nat) : ByteArray :=
  Bytes.overwrite b s (p.fill (Bytes.window b s p.length))

section Sites

variable {p : Pattern} {anchor s : Nat} {written : List Cell} {b b' : ByteArray}

/-- **The overlaid pattern matches the written site** where the pattern matched it before. -/
theorem matchesAt_layOver (hwritten : Bytes.WrittenAt b b' (s + anchor) written)
    (h : p.matchesAt b s = true) : (p.layOver anchor written).matchesAt b' s = true := by
  obtain ⟨hsize, hcells⟩ := (matchesAt_iff b s p).1 h
  rw [hwritten.size] at hsize
  refine (matchesAt_iff _ _ _).2 ⟨by simpa using hsize, fun k c hc => ?_⟩
  by_cases hin : anchor ≤ k ∧ k < anchor + written.length
  · have hw : written[k - anchor]? = some written[k - anchor] := List.getElem?_eq_getElem (by omega)
    rw [getElem?_layOver_of_inside hin.1 hw] at hc
    obtain ⟨d, hd, rfl⟩ := Option.map_eq_some_iff.1 hc
    have hk := (List.getElem?_eq_some_iff.1 hd).1
    obtain ⟨byte, hbyte⟩ : ∃ byte, b'[s + k]? = some byte :=
      ⟨_, getElem?_pos b' (s + k) (by omega)⟩
    refine ⟨byte, hbyte, ?_⟩
    -- a known byte stands under the literal, and all else accepts every byte
    cases d with
    | none => rfl
    | some literal =>
      cases hcell : written[k - anchor] with
      | none => rfl
      | some w =>
        rw [show s + k = s + anchor + (k - anchor) by omega] at hbyte
        obtain rfl := hwritten.inside (k - anchor) w byte (hcell ▸ hw) hbyte
        simp [Cell.under, Cell.accepts]
  · rw [getElem?_layOver_of_outside (by omega)] at hc
    rw [← hwritten.outside (s + k) (by omega)]
    exact hcells k c hc

section Restore

variable (hfit : s + p.length ≤ b.size)
include hfit

@[simp, grind =]
theorem length_fill_window : (p.fill (Bytes.window b s p.length)).length = p.length := by
  simp [fill, hfit]

@[simp, grind =]
theorem size_restore : (p.restore b s).size = b.size :=
  Bytes.size_overwrite (by simp [hfit])

theorem getElem?_restore_of_outside {k : Nat} (h : k < s ∨ s + p.length ≤ k) :
    (p.restore b s)[k]? = b[k]? := by
  unfold restore
  grind

theorem getElem?_restore_of_inside {k : Nat} {c : Cell} {byte : UInt8} (hc : p[k]? = some c)
    (hbyte : b[s + k]? = some byte) : (p.restore b s)[s + k]? = some (c.getD byte) := by
  have hk := (List.getElem?_eq_some_iff.1 hc).1
  have hfilled : (p.fill (Bytes.window b s p.length))[k]? = some (c.getD byte) := by
    rw [fill, List.getElem?_zipWith, hc, Bytes.getElem?_window, if_pos hk, hbyte]
  unfold restore
  grind

/-- **With its literals put back the pattern matches.** -/
theorem matchesAt_restore : p.matchesAt (p.restore b s) s = true := by
  refine (matchesAt_iff _ _ _).2 ⟨by simp [hfit], fun k c hc => ?_⟩
  have hk := (List.getElem?_eq_some_iff.1 hc).1
  have hbyte : b[s + k]? = some b[s + k] := getElem?_pos b (s + k) (by omega)
  exact ⟨_, getElem?_restore_of_inside hfit hc hbyte, c.accepts_getD _⟩

end Restore

/-- **Where the overlaid pattern matches, only overlaid literals have to be put back.** -/
theorem overlaid_of_getElem?_restore_ne (h : (p.layOver anchor written).matchesAt b s = true)
    {k : Nat} (hne : (p.restore b s)[k]? ≠ b[k]?) :
    ∃ i, k = s + i ∧ p.Overlaid anchor written i := by
  obtain ⟨hfit, hcells⟩ := (matchesAt_iff _ _ _).1 h
  simp only [length_layOver] at hfit
  have hin : s ≤ k ∧ k < s + p.length := by
    by_contra hout
    exact hne (getElem?_restore_of_outside hfit (by omega))
  obtain ⟨i, rfl⟩ := Nat.exists_eq_add_of_le hin.1
  refine ⟨i, rfl, ?_⟩
  by_contra hkept
  -- a literal that is not overlaid still matches
  have hc : p[i]? = some p[i] := List.getElem?_eq_getElem (by omega)
  obtain ⟨byte, hbyte, hacc⟩ :=
    hcells i p[i] ((getElem?_layOver_of_not_overlaid hkept).trans hc)
  rw [getElem?_restore_of_inside hfit hc hbyte, hbyte, Cell.getD_of_accepts hacc] at hne
  exact hne rfl

/-- **The overlay describes the written site.** Where a pattern matched, its overlay matches once the
cells are written, or there is none and the pattern matches still. And where the overlay matches,
the pattern does with nothing changed but overlaid literals. -/
theorem overlay_describes (p : Pattern) (anchor : Nat) (written : List Cell) (s : Nat) :
    (∀ b b' : ByteArray, Bytes.WrittenAt b b' (s + anchor) written → p.matchesAt b s = true →
      (∃ q, p.overlay anchor written = some q ∧ q.matchesAt b' s = true) ∨
        (p.overlay anchor written = none ∧ p.matchesAt b' s = true)) ∧
    ∀ b' : ByteArray, ((p.overlay anchor written).getD p).matchesAt b' s = true →
      ∃ b : ByteArray, b.size = b'.size ∧
        (∀ k : Nat, b[k]? ≠ b'[k]? → ∃ i, k = s + i ∧ p.Overlaid anchor written i) ∧
          p.matchesAt b s = true := by
  refine ⟨fun b b' hwritten h => ?_, fun b' h => ?_⟩
  · have hmatch := matchesAt_layOver hwritten h
    rw [← overlay_getD] at hmatch
    cases hoverlay : p.overlay anchor written with
    | none => exact .inr ⟨rfl, by rwa [hoverlay] at hmatch⟩
    | some q => exact .inl ⟨q, rfl, by rwa [hoverlay] at hmatch⟩
  · rw [overlay_getD] at h
    have hfit := fits_of_matchesAt h
    rw [length_layOver] at hfit
    exact ⟨p.restore b' s, size_restore hfit, fun k => overlaid_of_getElem?_restore_ne h,
      matchesAt_restore hfit⟩

end Sites

/-- Two literals, a wildcard and a literal. -/
def sitePattern : Pattern := [some 0xAA, some 0xBB, none, some 0xCC]

/-- Four cells of which two are known; from the second cell of the pattern on they reach past its
end. -/
def siteCells : List Cell := [some 0xDD, none, none, some 0x01]

/-- Six bytes that the pattern matches at the second. -/
def siteBytes : ByteArray := ⟨#[0x00, 0xAA, 0xBB, 0x05, 0xCC, 0x07]⟩

/-- Once the cells are written, the overlay matches there and the pattern could have matched, by
`overlay_describes`. -/
theorem overlay_describes_site :
    ∃ q b, sitePattern.overlay 1 siteCells = some q ∧
      q.matchesAt (Bytes.overwrite siteBytes 2 [0xDD, 0x06, 0x02, 0x01]) 1 = true ∧
        sitePattern.matchesAt b 1 = true ∧ b.size = 6 := by
  have hwritten : Bytes.WrittenAt siteBytes
      (Bytes.overwrite siteBytes 2 [0xDD, 0x06, 0x02, 0x01]) 2 siteCells :=
    Bytes.writtenAt_overwrite (by decide) (by decide)
  obtain ⟨hafter, hbefore⟩ := overlay_describes sitePattern 1 siteCells 1
  rcases hafter _ _ hwritten (by decide +kernel) with ⟨q, hq, hmatch⟩ | ⟨hnone, -⟩
  · obtain ⟨b, hsize, -, hb⟩ := hbefore _ (by rw [hq]; exact hmatch)
    exact ⟨q, b, hq, hmatch, hb, hsize⟩
  · exact absurd hnone (by decide)

end Pattern
end BinaryPatch
