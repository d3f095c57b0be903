/-
# Rounds of cross-checking in any order

What is known of the targets is a map, and a round goes through its entries in whatever order they
come: it first collects the targets whose source has no offset, and then withdraws these one by
one (`Findings.Round`). Rounds are made until none is found (`Findings.Settles`).

Every order of the entries gives the same round (`Findings.Round.eq_withdrawOrphans`). So rounds
come to an end, and what they end with depends on no order (`Findings.settles_iff`). A report then
holds what was found less what is lost, and nothing else (`Resolution.resolveSlice_crossChecked`).
-/

import BinaryPatch.Proofs.Report

namespace BinaryPatch
namespace Findings

/-- Every target has one entry. -/
def Keyed (fs : Findings) : Prop := (fs.map Prod.fst).Nodup

/-- The entries at a target are the one it has. -/
theorem Keyed.filter_eq {fs : Findings} (h : fs.Keyed) {id : String} {f : Finding}
    (hmem : (id, f) ∈ fs) : (fs.filter fun entry => entry.1 == id) = [(id, f)] := by
  unfold Keyed at h
  induction fs with
  | nil => cases hmem
  | cons entry rest ih =>
    rw [List.map_cons, List.nodup_cons] at h
    rcases List.mem_cons.1 hmem with rfl | hmem
    · rw [List.filter_cons_of_pos (by simp), List.filter_eq_nil_iff.2]
      intro entry hentry hid
      exact h.1 (List.mem_map.2 ⟨entry, hentry, beq_iff_eq.1 hid⟩)
    · have hne : entry.1 ≠ id := fun heq => h.1 (heq ▸ List.mem_map_of_mem hmem)
      rw [List.filter_cons_of_neg (by simpa using hne), ih h.2 hmem]

theorem Keyed.put {fs : Findings} (h : fs.Keyed) (id : String) (f : Finding) :
    (fs.put id f).Keyed := by
  unfold Findings.put Keyed
  rw [List.map_cons, List.nodup_cons]
  refine ⟨fun hmem => ?_, h.sublist (List.filter_sublist.map _)⟩
  obtain ⟨entry, hentry, hid⟩ := List.mem_map.1 hmem
  exact absurd hid (by simpa using (List.mem_filter.1 hentry).2)

theorem map_fst_withdraw (fs : Findings) (id : String) (reason : Obstacle) :
    (fs.withdraw id reason).map Prod.fst = fs.map Prod.fst := by
  unfold withdraw
  rw [List.map_map]
  rfl

theorem map_fst_withdrawOrphans (fs : Findings) :
    fs.withdrawOrphans.map Prod.fst = fs.map Prod.fst := by
  unfold withdrawOrphans
  rw [List.map_map]
  rfl

theorem Keyed.withdrawOrphans {fs : Findings} (h : fs.Keyed) : fs.withdrawOrphans.Keyed := by
  unfold Keyed
  rwa [map_fst_withdrawOrphans]

theorem Keyed.withdrawViolated {fs : Findings} (h : fs.Keyed) (rules : List Rule) :
    (fs.withdrawViolated rules).Keyed := by
  rw [withdrawViolated_eq]
  generalize (rules.filterMap fun r => (fs.violation? r).map (r, ·)) = violations
  induction violations generalizing fs with
  | nil => exact h
  | cons v rest ih =>
    refine ih ?_
    unfold withdrawEnds Keyed
    rwa [map_fst_withdraw, map_fst_withdraw]

/-! ## One round -/

/-- The targets among some entries whose source has no offset, each with its source. -/
def orphans (fs entries : Findings) : List (String × String) :=
  entries.filterMap fun entry => (fs.lostSource? entry.2).map (entry.1, ·)

/-- Withdraw the offset of a target for want of its source. -/
def withdrawOrphan (fs : Findings) (o : String × String) : Findings :=
  fs.withdraw o.1 (.sourceUnresolved o.2)

/-- **One round**, which goes through the entries in some order and finds orphans. -/
def Round (fs gs : Findings) : Prop :=
  ∃ entries : Findings, entries.Perm fs ∧ fs.orphans entries ≠ [] ∧
    gs = (fs.orphans entries).foldl withdrawOrphan fs

/-- Withdrawals one by one change each entry for its own reasons. -/
theorem foldl_withdrawOrphan (os : List (String × String)) (fs : Findings) :
    os.foldl withdrawOrphan fs = fs.map fun entry =>
      (entry.1, withdrawFor entry.2
        ((os.filter fun o => o.1 == entry.1).map fun o => .sourceUnresolved o.2)) := by
  induction os generalizing fs with
  | nil => exact (List.map_id fs).symm
  | cons o rest ih =>
    rw [List.foldl_cons, ih]
    unfold withdrawOrphan withdraw
    rw [List.map_map]
    refine List.map_congr_left fun entry _ => ?_
    by_cases h : o.1 = entry.1
    · simp [h, withdrawFor]
    · simp [h, Ne.symm h]

theorem filter_orphans (fs entries : Findings) (id : String) :
    ((fs.orphans entries).filter fun o => o.1 == id) =
      fs.orphans (entries.filter fun entry => entry.1 == id) := by
  unfold orphans
  induction entries with
  | nil => rfl
  | cons entry rest ih =>
    cases hlost : fs.lostSource? entry.2 <;> by_cases hid : entry.1 = id <;>
      simp [hlost, hid, ih]

/-- **In whatever order a round goes through the entries, it withdraws the same orphans.** -/
theorem Round.eq_withdrawOrphans {fs gs : Findings} (hkeyed : fs.Keyed) (h : fs.Round gs) :
    gs = fs.withdrawOrphans := by
  obtain ⟨entries, hperm, -, rfl⟩ := h
  rw [foldl_withdrawOrphan]
  refine List.map_congr_left fun entry hentry => Prod.ext rfl ?_
  obtain ⟨id, f⟩ := entry
  -- the traversal meets the target at its one entry
  have hsingle := hperm.filter fun entry => entry.1 == id
  rw [hkeyed.filter_eq hentry] at hsingle
  dsimp only
  rw [filter_orphans, List.perm_singleton.1 hsingle]
  cases hlost : fs.lostSource? f <;> simp [orphans, hlost, withdrawFor]

theorem orphans_ne_nil_iff {fs entries : Findings} (h : entries.Perm fs) :
    fs.orphans entries ≠ [] ↔
      (fs.any fun entry => (fs.lostSource? entry.2).isSome) = true := by
  unfold orphans
  rw [ne_eq, List.filterMap_eq_nil_iff, List.any_eq_true]
  simp only [Option.map_eq_none_iff, ← h.mem_iff, not_forall, exists_prop,
    Option.isSome_iff_ne_none]

/-! ## All rounds -/

/-- **What rounds end with**: they are made until a traversal finds no orphan. -/
inductive Settles : Findings → Findings → Prop
  | done {fs entries : Findings} : entries.Perm fs → fs.orphans entries = [] → Settles fs fs
  | round {fs gs hs : Findings} : Round fs gs → Settles gs hs → Settles fs hs

/-- **Rounds come to an end**, whatever their orders. -/
theorem acc_round {fs : Findings} (h : fs.Keyed) :
    Acc (fun after before => Round before after) fs := by
  induction hn : fs.foundCount using Nat.strongRecOn generalizing fs with
  | ind n ih =>
    refine Acc.intro fs fun gs hround => ?_
    obtain rfl := hround.eq_withdrawOrphans h
    obtain ⟨entries, hperm, hne, -⟩ := hround
    have hlt := foundCount_withdrawOrphans_lt ((orphans_ne_nil_iff hperm).1 hne)
    exact ih _ (hn ▸ hlt) h.withdrawOrphans rfl

/-- **What rounds end with does not depend on their orders.** -/
theorem settles_iff {fs out : Findings} (h : fs.Keyed) : Settles fs out ↔ out = fs.settle := by
  constructor
  · intro hsettles
    induction hsettles with
    | @done fs entries hperm hnil =>
      have hnone := mt (orphans_ne_nil_iff hperm).2 (not_not_intro hnil)
      rw [settle, dif_neg hnone]
    | @round fs gs out hround _ ih =>
      obtain rfl := hround.eq_withdrawOrphans h
      obtain ⟨entries, hperm, hne, -⟩ := hround
      rw [ih h.withdrawOrphans, settle.eq_def fs, dif_pos ((orphans_ne_nil_iff hperm).1 hne)]
  · rintro rfl
    fun_induction settle fs with
    | case1 fs hany ih =>
      have hround : Round fs _ := ⟨fs, List.Perm.refl fs,
        (orphans_ne_nil_iff (List.Perm.refl fs)).2 hany, rfl⟩
      have heq := hround.eq_withdrawOrphans h
      rw [heq] at hround
      exact .round hround (ih h.withdrawOrphans)
    | case2 fs hnone =>
      refine .done (List.Perm.refl fs) ?_
      by_contra hne
      exact hnone ((orphans_ne_nil_iff (List.Perm.refl fs)).1 hne)

end Findings

namespace Resolution

/-- Each target is looked for once. -/
theorem keyed_of_locateAll {s : Survey} {rules : List Rule} {ts : List Target}
    {fs out : Findings} (h : locateAll s rules fs ts = .ok out) (hkeyed : fs.Keyed) :
    out.Keyed := by
  induction ts generalizing fs with
  | nil =>
    cases h
    exact hkeyed
  | cons t rest ih =>
    unfold locateAll at h
    split at h
    · exact ih h hkeyed
    · split at h
      · cases h
      · exact ih h (hkeyed.put _ _)

/-- The sites of a report are the offsets that were found and are not lost. -/
theorem Resolved.mem_located_iff_not_lost {s : Survey} {c : Catalog} {fs : Findings} {r : Report}
    (h : Resolved s c fs r) {x : Located} :
    x ∈ r.located ↔ ∃ id found, fs.found? id = some found ∧
      ¬ fs.Lost (c.rulesFor s.slice.platform) id ∧ x = site s.slice id found := by
  rw [h.mem_located_iff]
  constructor
  · rintro ⟨t, -, found, hfound, hx⟩
    obtain ⟨hfound, hlost⟩ := (Findings.found?_crossCheck_iff h.rules_ne h.solves.rooted).1 hfound
    exact ⟨t.id, found, hfound, hlost, hx⟩
  · rintro ⟨id, found, hfound, hlost, hx⟩
    obtain ⟨t, ht, rfl⟩ := h.exists_target hfound
    exact ⟨t, ht, found,
      (Findings.found?_crossCheck_iff h.rules_ne h.solves.rooted).2 ⟨hfound, hlost⟩, hx⟩

/-- **A report holds what was found less what is lost.** With the offsets found for the targets one
after another, the sites of the report are those of the targets that are not lost, as they were
found. The rounds of cross-checking come to an end, and the report is the same whatever the
orders in which they go through what is known. There is a report unless a target leaves no room. -/
theorem resolveSlice_crossChecked {c : Catalog} (h : c.validate = .ok ()) (image : Image)
    (slice : Slice) (limits : Limits) :
    (∃ order fs r, c.derivationOrder slice.platform = .ok order ∧
      locateAll ⟨image.buffer, slice, limits⟩ (c.rulesFor slice.platform) [] order = .ok fs ∧
      resolveSlice image slice c limits = .ok r ∧
      (∀ x, x ∈ r.located ↔ ∃ id found, fs.found? id = some found ∧
        ¬ fs.Lost (c.rulesFor slice.platform) id ∧ x = site slice id found) ∧
      Acc (fun after before => Findings.Round before after)
        (fs.withdrawViolated (c.rulesFor slice.platform)) ∧
      (∃ out, Findings.Settles (fs.withdrawViolated (c.rulesFor slice.platform)) out) ∧
      ∀ out, Findings.Settles (fs.withdrawViolated (c.rulesFor slice.platform)) out →
        r.verdicts = verdicts slice out (c.targetsFor slice.platform)) ∨
      BreaksOff image slice c limits := by
  have hsound := Catalog.sound_of_validate h
  refine or_breaksOff hsound fun hroom => ?_
  obtain ⟨order, fs, r, horder, hfs, hr, hresolved⟩ := exists_resolved hsound image hroom limits
  have hkeyed := (keyed_of_locateAll hfs List.nodup_nil).withdrawViolated
    (c.rulesFor slice.platform)
  refine ⟨order, fs, r, horder, hfs, hr, fun x => hresolved.mem_located_iff_not_lost,
    Findings.acc_round hkeyed, ⟨_, (Findings.settles_iff hkeyed).2 rfl⟩, fun out hout => ?_⟩
  obtain rfl := (Findings.settles_iff hkeyed).1 hout
  exact congrArg Report.verdicts (Except.ok.inj (hr.symm.trans (resolveSlice_eq horder hfs)))

/-- Five targets. Two rules lead to the fourth, from which the fifth is derived; a rule between the
third and the first puts the first where it is not. -/
def fork : Catalog where
  version := "1"
  targets := [
    { id := "A"
      category := .stereo
      variants := {
        linux := some {
          expected := [0xAA]
          signature := some { pattern := "AA" }
          payload := .bytes [0x1A] } } },
    { id := "B"
      category := .stereo
      variants := {
        linux := some {
          expected := [0xBB]
          signature := some { pattern := "BB" }
          payload := .bytes [0x1B] } } },
    { id := "C"
      category := .stereo
      variants := {
        linux := some {
          expected := [0xCC]
          signature := some { pattern := "CC" }
          payload := .bytes [0x1C] } } },
    { id := "D"
      category := .stereo
      variants := { linux := some { expected := [0xDD], payload := .bytes [0x1D] } } },
    { id := "E"
      category := .stereo
      variants := { linux := some { expected := [0xEE], payload := .bytes [0x1E] } } }]
  rules := [
    { platform := .linux, source := "A", dest := "D", delta := 3 },
    { platform := .linux, source := "B", dest := "D", delta := 2 },
    { platform := .linux, source := "C", dest := "A", delta := 5 },
    { platform := .linux, source := "D", dest := "E", delta := 1 }]

/-- A file of 25 bytes that holds the five targets one after another from 20 on. -/
def forkImage : Image where
  store.bytes := ⟨#[0x7F, 0x45, 0x4C, 0x46, 2, 1, 1, 0, 0, 0, 0, 0, 0, 0, 0, 0, 3, 0, 0, 0,
    0xAA, 0xBB, 0xCC, 0xDD, 0xEE]⟩
  buffer := ⟨#[0x7F, 0x45, 0x4C, 0x46, 2, 1, 1, 0, 0, 0, 0, 0, 0, 0, 0, 0, 3, 0, 0, 0,
    0xAA, 0xBB, 0xCC, 0xDD, 0xEE]⟩
  container := ⟨.elf, 0, .whole .linux .identity 25, []⟩

/-- The file is one that can be loaded. -/
example : Image.load forkImage.store = .ok forkImage := rfl

theorem validate_fork : fork.validate = .ok () :=
  Catalog.validate_eq_ok_iff.2 (by decide +kernel)

theorem hasRoom_fork : fork.HasRoom forkImage.primary.platform := by decide

/-- The last target of this catalog is found and lost again, two steps from the violated rule, by
`resolveSlice_crossChecked`. -/
theorem resolveSlice_fork_crossChecked :
    ∃ (fs : Findings) (r : Report), resolveSlice forkImage forkImage.primary fork {} = .ok r ∧
      r.located = [⟨"B", 21, .directSignature, none, some 21⟩] ∧
        fs.found? "E" = some ⟨24, .derived, some "D"⟩ ∧ fs.Lost (fork.rulesFor .linux) "E" := by
  obtain ⟨order, fs, r, horder, hfs, hr, hlocated, -⟩ :=
    (resolveSlice_crossChecked validate_fork forkImage forkImage.primary {}).resolve_right
      fun h => h.narrow hasRoom_fork
  obtain ⟨order', horder', hfound⟩ := exists_ok_of_toOption_map
    (show (fork.derivationOrder .linux).toOption.map (fun order =>
      (locateAll ⟨forkImage.buffer, forkImage.primary, {}⟩ (fork.rulesFor .linux) [] order
        ).toOption.map fun fs => fs.found? "E") = some (some (some ⟨24, .derived, some "D"⟩)) by
      decide +kernel)
  obtain rfl := Except.ok.inj (horder.symm.trans horder')
  obtain ⟨fs', hfs', hE⟩ := exists_ok_of_toOption_map hfound
  obtain rfl := Except.ok.inj (hfs.symm.trans hfs')
  obtain ⟨r', hr', hsites⟩ := exists_ok_of_toOption_map
    (show (resolveSlice forkImage forkImage.primary fork {}).toOption.map Report.located =
      some [⟨"B", 21, .directSignature, none, some 21⟩] by decide +kernel)
  obtain rfl := Except.ok.inj (hr.symm.trans hr')
  refine ⟨fs, r, hr, hsites, hE, ?_⟩
  by_contra hlost
  have hmem := (hlocated _).2 ⟨"E", _, hE, hlost, rfl⟩
  rw [hsites] at hmem
  exact absurd (List.mem_singleton.1 hmem) (by decide)

end Resolution
end BinaryPatch
