/-
# How a body fills its slot

Padding is chosen place by place: behind the body, each place of the slot has the byte that would
stand there if the slot were filled with the no-operation instruction from its start. With an
instruction of `w` bytes and a body of `n`,

| places of the slot | hold |
| --- | --- |
| `0` to `n` | the body |
| `n` to the next multiple of `w` | the end of an instruction |
| each group of `w` from there that fits | one instruction |
| what is left | the beginning of one |

So wide instructions keep their alignment whatever the lengths are (`Body.Fills`), and a body is
accepted exactly when there is one that fits (`Body.spliceInto_fills`).
-/

import BinaryPatch.Proofs.Building
import BinaryPatch.Proofs.Inspection

namespace BinaryPatch
namespace Body

variable {b : Body} {slot : Nat} {arch : Arch} {content : List UInt8}

/-- A body is accepted when there is no reason to refuse it. -/
theorem exists_spliceInto_iff (b : Body) (slot : Nat) (arch : Arch) :
    (∃ content, b.spliceInto slot arch = .ok content) ↔
      b.code ≠ [] ∧ b.code.length ≤ min b.maxLength slot := by
  have hok : (∃ content, b.spliceInto slot arch = .ok content) ↔
      ∀ fault, b.spliceInto slot arch ≠ .error fault := by
    cases b.spliceInto slot arch <;> simp
  rw [hok]
  simp only [ne_eq, spliceInto_eq_error_iff]
  constructor
  · intro h
    have hcode : b.code ≠ [] := fun hnil => h _ (.inl ⟨hnil, rfl⟩)
    exact ⟨hcode, Nat.le_of_not_lt fun hlong => h _ (.inr ⟨hcode, hlong, rfl⟩)⟩
  · rintro ⟨hcode, hfits⟩ fault (⟨hnil, -⟩ | ⟨-, hlong, -⟩)
    · exact hcode hnil
    · omega

theorem nop_length_pos (arch : Arch) : 0 < arch.nop.length := by
  cases arch <;> decide

/-- Padding at a place is the byte of the instruction that stands there. -/
theorem getElem?_nop (arch : Arch) (k : Nat) :
    arch.nop[k % arch.nop.length]? = some (padding arch k) := by
  have hk := Nat.mod_lt k (nop_length_pos arch)
  rw [padding, List.getD_eq_getElem?_getD, List.getElem?_eq_getElem hk, Option.getD_some]

/-- **Behind the body** every place holds padding. -/
theorem getElem?_of_spliceInto (h : b.spliceInto slot arch = .ok content) {k : Nat}
    (hcode : b.code.length ≤ k) (hslot : k < slot) :
    content[k]? = arch.nop[k % arch.nop.length]? := by
  obtain ⟨-, rfl⟩ := eq_of_spliceInto h
  have hk : k - b.code.length < slot - b.code.length := by omega
  rw [List.getElem?_append_right hcode, paddingFrom, List.getElem?_map,
    List.getElem?_range' hk, Option.map_some, getElem?_nop]
  congr 2
  omega

/-- What a slot holds once a body has been written to it. -/
structure Fills (b : Body) (slot : Nat) (arch : Arch) (content : List UInt8) : Prop where
  length : content.length = slot
  code : b.code <+: content
  /-- Each place behind the body has the byte of the instruction that would stand there. -/
  tail : ∀ k, b.code.length ≤ k → k < slot → content[k]? = arch.nop[k % arch.nop.length]?
  /-- Each aligned group that lies behind the body and inside the slot is an instruction. -/
  nops : ∀ group, b.code.length ≤ group * arch.nop.length →
    (group + 1) * arch.nop.length ≤ slot →
      (content.drop (group * arch.nop.length)).take arch.nop.length = arch.nop
  padded : b.code.length < slot → isPadded content arch = true

theorem fills_of_spliceInto (h : b.spliceInto slot arch = .ok content) :
    b.Fills slot arch content where
  length := length_of_spliceInto h
  code := (eq_of_spliceInto h).2 ▸ List.prefix_append ..
  tail _ := getElem?_of_spliceInto h
  nops group hcode hslot := by
    rw [Nat.succ_mul] at hslot
    apply List.ext_getElem?
    intro j
    rw [List.getElem?_take]
    split
    · rename_i hj
      rw [List.getElem?_drop, getElem?_of_spliceInto h (by omega) (by omega),
        Nat.add_comm, Nat.add_mul_mod_self_right, Nat.mod_eq_of_lt hj]
    · exact (List.getElem?_eq_none (by omega)).symm
  padded hlt := (isPadded_of_spliceInto h).2 (.inl hlt)

/-- **A body fills its slot exactly.** It is accepted exactly when there is one, and it is longer
neither than it may be nor than the slot; then the slot holds it, and instructions that do nothing
behind it. -/
theorem spliceInto_fills (b : Body) (slot : Nat) (arch : Arch) :
    ((∃ content, b.spliceInto slot arch = .ok content) ↔
      b.code ≠ [] ∧ b.code.length ≤ min b.maxLength slot) ∧
    ∀ content, b.spliceInto slot arch = .ok content → b.Fills slot arch content :=
  ⟨exists_spliceInto_iff b slot arch, fun _ => fills_of_spliceInto⟩

/-- Five bytes in a slot of fourteen, where neither end of the padding is aligned. -/
theorem spliceInto_fills_unaligned :
    ∃ content, spliceInto ⟨"A", [1, 2, 3, 4, 5], 20, none⟩ 14 .arm64 = .ok content ∧
      content.length = 14 ∧ (content.drop 8).take 4 = [0x1F, 0x20, 0x03, 0xD5] ∧
        content[5]? = some 0x20 ∧ content[13]? = some 0x20 ∧ isPadded content .arm64 = true := by
  obtain ⟨haccepted, hfills⟩ := spliceInto_fills ⟨"A", [1, 2, 3, 4, 5], 20, none⟩ 14 .arm64
  obtain ⟨content, hcontent⟩ := haccepted.2 ⟨nofun, by decide⟩
  have h := hfills content hcontent
  exact ⟨content, hcontent, h.length, h.nops 2 (by decide) (by decide),
    h.tail 5 (by decide) (by decide), h.tail 13 (by decide) (by decide), h.padded (by decide)⟩

end Body
end BinaryPatch
