/-
# The slices of a universal file

A universal file lists its architectures, and a slice is made of the first entry of each that is
looked for (`Header.chosen`). The entry says which architecture it is for and where the slice lies;
which platform the slice belongs to is read from the Mach-O header at its start. The CPU type stands
in both places, and the two are never compared:

| taken from | of the slice |
| --- | --- |
| the entry | range, addressing, and whether it must start at `0x4000` |
| the header of the slice | platform |

So the slices belong to the platforms that the file lists exactly when every header names the CPU
type of its entry (`Container.faithful_iff`). Otherwise a slice for x86-64 can lie anywhere, and two
slices can belong to one platform.
-/

import BinaryPatch.Image.Container
import BinaryPatch.Proofs.Outcome

namespace BinaryPatch

namespace Header

/-- The architectures that a universal file lists. -/
def listed (b : ByteArray) : Except ContainerFault (List Architecture) :=
  architectures b 8 (number .big (Bytes.window b 4 4))

/-- Those of the listed architectures that are looked for, the first entry of each. -/
def chosenFrom (listed : List Architecture) (cpus : List CpuType) :
    List (CpuType × Architecture) :=
  cpus.filterMap fun cpu => (listed.find? fun arch => arch.cpuType = cpu.code).map (cpu, ·)

/-- The entries that the slices of a universal file are taken from. -/
def chosen (listed : List Architecture) : List (CpuType × Architecture) :=
  chosenFrom listed [.x86_64, .arm64]

/-- The order of the fields behind a Mach-O magic number, which is read as a little-endian one. -/
def magicOrder? (magic : Nat) : Option ByteOrder :=
  if magic = 0xFEEDFACF ∨ magic = 0xFEEDFACE then some .little
  else if magic = 0xCFFAEDFE ∨ magic = 0xCEFAEDFE then some .big
  else none

/-- The Mach-O header at `base` names this CPU type. -/
def Names (b : ByteArray) (base : Nat) (cpu : CpuType) : Prop :=
  ∃ magic order, field b base 4 .little = .ok magic ∧ magicOrder? magic = some order ∧
    field b (base + 4) 4 order = .ok cpu.code

/-- What a slice has from its entry, and what from the header at its start. -/
structure TakenFrom (b : ByteArray) (entry : CpuType × Architecture) (s : Slice) : Prop where
  declared : entry.2.cpuType = entry.1.code
  addressing : s.addressing = .sliceRelative entry.2.offset
  range : s.range = ⟨entry.2.offset, entry.2.offset + entry.2.size⟩
  inside : s.range.stop ≤ b.size
  placed : entry.1 = .x86_64 → entry.2.offset = x86SliceStart
  platform : ∃ cpu, Names b entry.2.offset cpu ∧ s.platform = cpu.platform

variable {b : ByteArray}

theorem code_injective {cpu cpu' : CpuType} (h : cpu.code = cpu'.code) : cpu = cpu' := by
  cases cpu <;> cases cpu' <;> simp_all [CpuType.code]

theorem platform_injective {cpu cpu' : CpuType} (h : cpu.platform = cpu'.platform) :
    cpu = cpu' := by
  cases cpu <;> cases cpu' <;> simp_all [CpuType.platform]

theorem eq_code_of_ofCode? {code : Nat} {cpu : CpuType} (h : CpuType.ofCode? code = some cpu) :
    code = cpu.code := by
  unfold CpuType.ofCode? at h
  split at h
  · rename_i heq
    cases h
    exact heq
  · split at h
    · rename_i heq
      cases h
      exact heq
    · cases h

/-- A header names one CPU type. -/
theorem Names.unique {base : Nat} {cpu cpu' : CpuType} (h : Names b base cpu)
    (h' : Names b base cpu') : cpu = cpu' := by
  obtain ⟨magic, order, hmagic, horder, hcode⟩ := h
  obtain ⟨magic', order', hmagic', horder', hcode'⟩ := h'
  obtain rfl := Except.ok.inj (hmagic.symm.trans hmagic')
  obtain rfl := Option.some.inj (horder.symm.trans horder')
  exact code_injective (Except.ok.inj (hcode.symm.trans hcode'))

/-- The platform of a Mach-O header is that of the CPU type it names. -/
theorem exists_of_machOPlatform {base : Nat} {order : ByteOrder} {p : Platform}
    (h : machOPlatform b base order = .ok p) :
    ∃ cpu : CpuType, field b (base + 4) 4 order = .ok cpu.code ∧ p = cpu.platform := by
  unfold machOPlatform at h
  obtain ⟨code, hcode, h⟩ := exists_of_bind_eq_ok h
  cases hcpu : CpuType.ofCode? code with
  | none =>
    rw [hcpu] at h
    cases h
  | some cpu =>
    rw [hcpu] at h
    obtain ⟨fileType, -, h⟩ := exists_of_bind_eq_ok h
    split at h
    · cases h
      exact ⟨cpu, hcode.trans (congrArg Except.ok (eq_code_of_ofCode? hcpu)), rfl⟩
    · cases h

/-- **What a slice rests on.** -/
theorem takenFrom_of_archSlice {cpu : CpuType} {arch : Architecture} {s : Slice}
    (hcode : arch.cpuType = cpu.code) (h : archSlice b cpu arch = .ok s) :
    TakenFrom b (cpu, arch) s := by
  unfold archSlice at h
  split at h
  · cases h
  · rename_i hplaced
    split at h
    · cases h
    · rename_i hinside
      obtain ⟨magic, hmagic, h⟩ := exists_of_bind_eq_ok h
      obtain ⟨order, horder, h⟩ : ∃ order, magicOrder? magic = some order ∧
          (machOPlatform b arch.offset order >>= fun p => .ok
            ⟨p, .sliceRelative arch.offset, ⟨arch.offset, arch.offset + arch.size⟩⟩) = .ok s := by
        unfold magicOrder?
        dsimp only at h
        split at h
        · rename_i hlittle
          exact ⟨.little, if_pos hlittle, h⟩
        · rename_i hlittle
          split at h
          · rename_i hbig
            exact ⟨.big, by rw [if_neg hlittle, if_pos hbig], h⟩
          · cases h
      obtain ⟨p, hp, h⟩ := exists_of_bind_eq_ok h
      cases h
      obtain ⟨named, hnamed, rfl⟩ := exists_of_machOPlatform hp
      exact ⟨hcode, rfl, rfl, Nat.le_of_not_lt hinside, fun hcpu => not_not.1 fun hne =>
        hplaced ⟨hcpu, hne⟩, named, ⟨magic, order, hmagic, horder, hnamed⟩, rfl⟩

theorem forall₂_archSlices {listed : List Architecture} {cpus : List CpuType} {slices : List Slice}
    (h : archSlices b listed cpus = .ok slices) :
    List.Forall₂ (TakenFrom b) (chosenFrom listed cpus) slices := by
  induction cpus generalizing slices with
  | nil =>
    cases h
    exact .nil
  | cons cpu rest ih =>
    unfold archSlices at h
    unfold chosenFrom
    rw [List.filterMap_cons]
    cases hfind : listed.find? fun arch => arch.cpuType = cpu.code with
    | none =>
      rw [hfind] at h
      exact ih h
    | some arch =>
      rw [hfind] at h
      obtain ⟨s, hs, h⟩ := exists_of_bind_eq_ok h
      obtain ⟨others, hothers, h⟩ := exists_of_bind_eq_ok h
      cases h
      exact .cons (takenFrom_of_archSlice (by simpa using List.find?_some hfind) hs) (ih hothers)

end Header

namespace Container

open Header

variable {b : ByteArray} {c : Container}

/-- A PE file is one slice. -/
theorem exists_of_ofPe (h : ofPe b = .ok c) : ∃ base,
    c = ⟨.pe, base, .whole .windows (.headerAdjusted peTextAdjustment) b.size, []⟩ := by
  unfold ofPe at h
  obtain ⟨start, -, h⟩ := exists_of_bind_eq_ok h
  obtain ⟨signature, -, h⟩ := exists_of_bind_eq_ok h
  split at h
  · cases h
  · obtain ⟨magic, -, h⟩ := exists_of_bind_eq_ok h
    obtain ⟨base, h⟩ : ∃ base, Except.ok
        ⟨.pe, base, .whole .windows (.headerAdjusted peTextAdjustment) b.size, []⟩ =
          (Except.ok c : Except ContainerFault Container) := by
      dsimp only at h
      split at h
      · obtain ⟨base, -, h⟩ := exists_of_bind_eq_ok h
        exact ⟨base, h⟩
      · split at h
        · obtain ⟨base, -, h⟩ := exists_of_bind_eq_ok h
          exact ⟨base, h⟩
        · cases h
    exact ⟨base, (Except.ok.inj h).symm⟩

/-- An ELF file is one slice. -/
theorem eq_of_ofElf {order : ByteOrder} (h : ofElf b order = .ok c) :
    c = ⟨.elf, 0, .whole .linux .identity b.size, []⟩ := by
  unfold ofElf at h
  obtain ⟨type, -, h⟩ := exists_of_bind_eq_ok h
  split at h
  · cases h
  · exact (Except.ok.inj h).symm

/-- A Mach-O file for one architecture is one slice. -/
theorem exists_of_ofMachO {order : ByteOrder} (h : ofMachO b order = .ok c) :
    ∃ platform, c = ⟨.machO, 0, .whole platform .identity b.size, []⟩ := by
  obtain ⟨platform, -, h⟩ := exists_of_bind_eq_ok h
  exact ⟨platform, (Except.ok.inj h).symm⟩

/-- Only what announces a universal file is read as one. -/
theorem ofUniversal_of_detect (h : detect b = .ok c) (hformat : c.format = .universal) :
    ofUniversal b = .ok c := by
  unfold detect at h
  split at h
  · cases h
  · split at h
    · obtain ⟨base, rfl⟩ := exists_of_ofPe h
      cases hformat
    · obtain rfl := eq_of_ofElf h
      cases hformat
    · obtain ⟨platform, rfl⟩ := exists_of_ofMachO h
      cases hformat
    · exact h
    · cases h

/-- A universal file has a slice for each architecture that is looked for and listed. -/
theorem exists_of_ofUniversal (h : ofUniversal b = .ok c) : c.format = .universal ∧
    ∃ entries, listed b = .ok entries ∧ archSlices b entries [.x86_64, .arm64] = .ok c.slices := by
  unfold ofUniversal at h
  dsimp only at h
  split at h
  · cases h
  · obtain ⟨entries, hentries, h⟩ := exists_of_bind_eq_ok h
    obtain ⟨slices, hslices, h⟩ := exists_of_bind_eq_ok h
    split at h
    · cases h
    · cases h
      exact ⟨rfl, entries, hentries, hslices⟩

/-- The slices of a universal file are taken from the entries that are looked for. -/
theorem forall₂_slices (h : detect b = .ok c) (hformat : c.format = .universal) :
    ∃ entries, listed b = .ok entries ∧ List.Forall₂ (TakenFrom b) (chosen entries) c.slices := by
  obtain ⟨-, entries, hentries, hslices⟩ :=
    exists_of_ofUniversal (ofUniversal_of_detect h hformat)
  exact ⟨entries, hentries, forall₂_archSlices hslices⟩

/-- The slices of a universal file belong to the platforms that the file lists: no two to one, and a
slice for x86-64 comes first and lies where it must. -/
structure Faithful (c : Container) (entries : List Architecture) : Prop where
  declared : List.Forall₂ (fun entry s => s.platform = entry.1.platform) (chosen entries) c.slices
  distinct : (c.slices.map Slice.platform).Nodup
  macosFirst : ∀ s ∈ c.slices, s.platform = .macos → s = c.primary ∧ s.range.start = x86SliceStart

/-- Slices belong to the platforms of their entries exactly when their headers say so. -/
theorem declared_iff {entries : List (CpuType × Architecture)} {slices : List Slice}
    (h : List.Forall₂ (TakenFrom b) entries slices) :
    List.Forall₂ (fun entry s => s.platform = entry.1.platform) entries slices ↔
      ∀ entry ∈ entries, Names b entry.2.offset entry.1 := by
  induction h with
  | nil => simp
  | cons htaken _ ih =>
    rw [List.forall₂_cons, List.forall_mem_cons, ih]
    refine and_congr_left fun _ => ?_
    obtain ⟨cpu, hnames, hplatform⟩ := htaken.platform
    rw [hplatform]
    constructor
    · intro heq
      exact platform_injective heq ▸ hnames
    · intro hentry
      rw [hnames.unique hentry]

/-- The entries that are looked for come in the order in which they are looked for. -/
theorem map_fst_chosen_sublist (entries : List Architecture) :
    ((chosen entries).map Prod.fst).Sublist [.x86_64, .arm64] := by
  unfold chosen chosenFrom
  simp only [List.filterMap_cons, List.filterMap_nil]
  cases entries.find? fun arch => arch.cpuType = CpuType.x86_64.code <;>
    cases entries.find? fun arch => arch.cpuType = CpuType.arm64.code <;>
      simp

theorem faithful_of_declared {entries : List Architecture}
    (h : List.Forall₂ (TakenFrom b) (chosen entries) c.slices)
    (hdeclared : List.Forall₂ (fun entry s => s.platform = entry.1.platform)
      (chosen entries) c.slices) : c.Faithful entries := by
  have hplatforms : c.slices.map Slice.platform =
      ((chosen entries).map Prod.fst).map CpuType.platform := by
    rw [List.map_map, ← List.forall₂_eq_eq_eq, List.forall₂_map_left_iff,
      List.forall₂_map_right_iff]
    exact hdeclared.flip
  have hsub : (c.slices.map Slice.platform).Sublist [.macos, .macosArm64] :=
    hplatforms ▸ (map_fst_chosen_sublist entries).map CpuType.platform
  refine ⟨hdeclared, hsub.nodup (by decide), fun s hs hmacos => ?_⟩
  have hprimary : s = c.primary := by
    refine (List.mem_cons.1 hs).resolve_right fun hother => ?_
    -- nothing stands before macOS
    have hmem : .macos ∈ c.others.map Slice.platform := hmacos ▸ List.mem_map_of_mem hother
    have hpair := ((List.singleton_sublist.2 hmem).cons_cons c.primary.platform).trans hsub
    revert hpair
    cases c.primary.platform <;> decide
  subst hprimary
  refine ⟨rfl, ?_⟩
  unfold slices at h hdeclared
  generalize chosen entries = chosenEntries at h hdeclared
  cases h with
  | cons htaken _ =>
    obtain ⟨hplatform, -⟩ := List.forall₂_cons.1 hdeclared
    have hx86 : c.primary.platform = CpuType.x86_64.platform := hmacos
    have hcpu := platform_injective (hplatform.symm.trans hx86)
    rw [htaken.range]
    exact htaken.placed hcpu

/-- **When a universal file is taken for what it lists.** Its slices are taken from the entries that
are looked for. They belong to the platforms of these exactly when the Mach-O header of each slice
names the CPU type of its entry; then no two belong to one platform, and a slice for x86-64 comes
first and starts at `0x4000`. -/
theorem faithful_iff (h : detect b = .ok c) (hformat : c.format = .universal) :
    ∃ entries, listed b = .ok entries ∧
      List.Forall₂ (TakenFrom b) (chosen entries) c.slices ∧
      (c.Faithful entries ↔ ∀ entry ∈ chosen entries, Names b entry.2.offset entry.1) := by
  obtain ⟨entries, hentries, htaken⟩ := forall₂_slices h hformat
  refine ⟨entries, hentries, htaken, fun hfaithful => ?_, fun hnames => ?_⟩
  · exact (declared_iff htaken).1 hfaithful.declared
  · exact faithful_of_declared htaken ((declared_iff htaken).2 hnames)

/-- A universal file of 48 bytes that lists one architecture, arm64. The header of its slice, at 28,
names the CPU type that ends with this byte. -/
def oneSlice (code : UInt8) : ByteArray :=
  ⟨#[0xCA, 0xFE, 0xBA, 0xBE, 0, 0, 0, 1, 0x01, 0, 0, 0x0C, 0, 0, 0, 0, 0, 0, 0, 28, 0, 0, 0, 20,
    0, 0, 0, 0, 0xCF, 0xFA, 0xED, 0xFE, code, 0, 0, 0x01, 0, 0, 0, 0, 8, 0, 0, 0, 0, 0, 0, 0]⟩

/-- Where the header names arm64, too, the file is taken for what it lists. -/
theorem faithful_oneSlice :
    ∃ c entries, detect (oneSlice 0x0C) = .ok c ∧ listed (oneSlice 0x0C) = .ok entries ∧
      c.Faithful entries ∧ c.slices.map Slice.platform = [.macosArm64] := by
  have hdetect : detect (oneSlice 0x0C) =
      .ok ⟨.universal, 0, ⟨.macosArm64, .sliceRelative 28, ⟨28, 48⟩⟩, []⟩ := by decide +kernel
  have hlisted : listed (oneSlice 0x0C) = .ok [⟨CpuType.arm64.code, 28, 20⟩] := by decide +kernel
  obtain ⟨entries, hentries, -, hiff⟩ := faithful_iff hdetect rfl
  obtain rfl := Except.ok.inj (hlisted.symm.trans hentries)
  have hchosen : chosen [⟨CpuType.arm64.code, 28, 20⟩] =
      [(.arm64, ⟨CpuType.arm64.code, 28, 20⟩)] := by decide
  refine ⟨_, _, hdetect, hlisted, hiff.2 fun entry hentry => ?_, rfl⟩
  rw [hchosen, List.mem_singleton] at hentry
  subst hentry
  exact ⟨0xFEEDFACF, .little, by decide +kernel, rfl, by decide +kernel⟩

/-- **A universal file need not be taken for what it lists.** Where it lists arm64, and the header
of the slice names x86-64, the slice counts as one for x86-64, although it starts at 28. -/
theorem not_faithful :
    ¬ ∀ (b : ByteArray) (c : Container) (entries : List Architecture), detect b = .ok c →
      c.format = .universal → listed b = .ok entries → c.Faithful entries := by
  intro hall
  have hfaithful := hall (oneSlice 0x07)
    ⟨.universal, 0, ⟨.macos, .sliceRelative 28, ⟨28, 48⟩⟩, []⟩ [⟨CpuType.arm64.code, 28, 20⟩]
    (by decide +kernel) rfl (by decide +kernel)
  have hstart := (hfaithful.macosFirst _ List.mem_cons_self rfl).2
  exact absurd hstart (by decide)

end Container
end BinaryPatch
