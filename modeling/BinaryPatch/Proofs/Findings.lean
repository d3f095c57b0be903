/-
# What cross-checking leaves

Cross-checking only withdraws: a target keeps the offset it had, or has none any more
(`Findings.WithdrawnFrom`). What it leaves is consistent (`Findings.Consistent`): every rule whose
two ends have an offset holds, and the source of every derived offset has an offset itself. The
first comes from the one pass over the rules and survives further withdrawals; the second is
what the rounds that follow end with.
-/

import BinaryPatch.Resolution.CrossCheck
import Mathlib.Data.List.Basic

namespace BinaryPatch
namespace Findings

/-! ## One target at a time -/

@[simp, grind =]
theorem get?_nil (id : String) : get? [] id = none := rfl

@[simp, grind =]
theorem get?_cons (name : String) (f : Finding) (fs : Findings) (id : String) :
    get? ((name, f) :: fs) id = if id = name then some f else fs.get? id := by
  unfold get?
  rw [List.lookup_cons]
  by_cases h : id = name
  · simp [h]
  · simp [h, beq_false_of_ne h]

/-- Leaving out one target leaves the others. -/
theorem get?_filter_of_ne {id name : String} (h : id ≠ name) (fs : Findings) :
    get? (fs.filter fun entry => entry.1 != name) id = fs.get? id := by
  induction fs with
  | nil => rfl
  | cons entry rest ih =>
    obtain ⟨other, f⟩ := entry
    rw [List.filter_cons, get?_cons]
    by_cases hother : other = name
    · rw [if_neg (by simp [hother]), ih, if_neg (hother ▸ h)]
    · rw [if_pos (by simp [hother]), get?_cons, ih]

@[simp, grind =]
theorem get?_put (fs : Findings) (name : String) (f : Finding) (id : String) :
    (fs.put name f).get? id = if id = name then some f else fs.get? id := by
  unfold put
  rw [get?_cons]
  split
  · rfl
  · rename_i h
    exact get?_filter_of_ne h fs

/-- A change to each target's own entry. -/
theorem get?_map (g : String → Finding → Finding) (fs : Findings) (id : String) :
    get? (fs.map fun entry => (entry.1, g entry.1 entry.2)) id = (fs.get? id).map (g id) := by
  induction fs with
  | nil => rfl
  | cons entry rest ih =>
    obtain ⟨name, f⟩ := entry
    by_cases h : id = name
    · simp [h]
    · simp [h, ih]

@[simp, grind =]
theorem get?_withdraw (fs : Findings) (name : String) (reason : Obstacle) (id : String) :
    (fs.withdraw name reason).get? id =
      (fs.get? id).map fun f => if id = name then f.withdraw reason else f :=
  get?_map (fun other f => if other = name then f.withdraw reason else f) fs id

theorem get?_withdrawOrphans (fs : Findings) (id : String) :
    fs.withdrawOrphans.get? id = (fs.get? id).map fun f =>
      match fs.lostSource? f with
      | some source => f.withdraw (.sourceUnresolved source)
      | none => f :=
  get?_map (fun _ f => match fs.lostSource? f with
    | some source => f.withdraw (.sourceUnresolved source)
    | none => f) fs id

theorem mem_of_get? {fs : Findings} {id : String} {f : Finding} (h : fs.get? id = some f) :
    (id, f) ∈ fs := by
  induction fs with
  | nil => cases h
  | cons entry rest ih =>
    obtain ⟨name, g⟩ := entry
    rw [get?_cons] at h
    split at h
    · rename_i heq
      cases h
      rw [heq]
      exact List.mem_cons_self
    · exact List.mem_cons_of_mem _ (ih h)

/-- The offset of a target is the one in its entry. -/
theorem found?_of_get? {fs : Findings} {id : String} {f : Finding} (h : fs.get? id = some f) :
    fs.found? id = f.found := by
  rw [found?, h, Option.bind_some]

theorem exists_of_found? {fs : Findings} {id : String} {found : Found}
    (h : fs.found? id = some found) : ∃ f, fs.get? id = some f ∧ f.found = some found :=
  Option.bind_eq_some_iff.1 h

/-! ## Withdrawals -/

/-- The same targets are known, and each has kept its offset or lost it. -/
structure WithdrawnFrom (after before : Findings) : Prop where
  known : ∀ id, (after.get? id).isSome = (before.get? id).isSome
  found : ∀ id found, after.found? id = some found → before.found? id = some found

/-- Every rule whose two ends have an offset holds. -/
def Satisfies (fs : Findings) (rules : List Rule) : Prop :=
  ∀ r ∈ rules, ∀ source dest, fs.found? r.source = some source → fs.found? r.dest = some dest →
    (dest.offset : Int) - source.offset = r.delta.toInt

/-- The rules hold, and what offsets were derived from has an offset. -/
structure Consistent (fs : Findings) (rules : List Rule) : Prop where
  rules : fs.Satisfies rules
  sources : ∀ id found source, fs.found? id = some found → found.source = some source →
    ∃ origin, fs.found? source = some origin

namespace WithdrawnFrom

theorem refl (fs : Findings) : fs.WithdrawnFrom fs := ⟨fun _ => rfl, fun _ _ h => h⟩

theorem trans {a b c : Findings} (h₁ : a.WithdrawnFrom b) (h₂ : b.WithdrawnFrom c) :
    a.WithdrawnFrom c :=
  ⟨fun id => (h₁.known id).trans (h₂.known id), fun id found h =>
    h₂.found id found (h₁.found id found h)⟩

/-- Withdrawals break no rule. -/
theorem satisfies {after before : Findings} (h : after.WithdrawnFrom before) {rules : List Rule}
    (hrules : before.Satisfies rules) : after.Satisfies rules := fun r hr source dest hs hd =>
  hrules r hr source dest (h.found _ _ hs) (h.found _ _ hd)

/-- A change that leaves each entry alone or takes its offset. -/
theorem of_map {g : Finding → Finding} {after before : Findings} {id : String}
    (h : after.get? id = (before.get? id).map g)
    (hg : ∀ f, g f = f ∨ (g f).found = none) :
    (after.get? id).isSome = (before.get? id).isSome ∧
      ∀ found, after.found? id = some found → before.found? id = some found := by
  unfold found?
  rw [h]
  cases before.get? id with
  | none => exact ⟨rfl, fun found hf => hf⟩
  | some f =>
    refine ⟨rfl, fun found hf => ?_⟩
    rw [Option.map_some, Option.bind_some] at hf
    rcases hg f with heq | hnone
    · exact heq ▸ hf
    · rw [hnone] at hf
      cases hf

end WithdrawnFrom

theorem withdrawnFrom_withdraw (fs : Findings) (name : String) (reason : Obstacle) :
    (fs.withdraw name reason).WithdrawnFrom fs := by
  have h := fun id => WithdrawnFrom.of_map (get?_withdraw fs name reason id) fun f => by
    by_cases heq : id = name
    · exact .inr (by rw [if_pos heq]; rfl)
    · exact .inl (if_neg heq)
  exact ⟨fun id => (h id).1, fun id => (h id).2⟩

theorem withdrawnFrom_withdrawOrphans (fs : Findings) : fs.withdrawOrphans.WithdrawnFrom fs := by
  have h := fun id => WithdrawnFrom.of_map (get?_withdrawOrphans fs id) fun f => by
    cases fs.lostSource? f with
    | none => exact .inl rfl
    | some source => exact .inr rfl
  exact ⟨fun id => (h id).1, fun id => (h id).2⟩

/-- A target that is withdrawn has no offset. -/
@[simp]
theorem found?_withdraw_self (fs : Findings) (id : String) (reason : Obstacle) :
    (fs.withdraw id reason).found? id = none := by
  cases h : fs.get? id with
  | none => simp [found?, h]
  | some f => simp [found?, h, Finding.withdraw]

/-! ## Violated rules -/

/-- Withdraw both ends of a violated rule. -/
def withdrawEnds (fs : Findings) (v : Rule × Obstacle) : Findings :=
  (fs.withdraw v.1.source v.2).withdraw v.1.dest v.2

theorem withdrawViolated_eq (fs : Findings) (rules : List Rule) :
    fs.withdrawViolated rules =
      (rules.filterMap fun r => (fs.violation? r).map (r, ·)).foldl withdrawEnds fs := rfl

theorem withdrawnFrom_withdrawEnds (fs : Findings) (v : Rule × Obstacle) :
    (fs.withdrawEnds v).WithdrawnFrom fs :=
  (withdrawnFrom_withdraw _ _ _).trans (withdrawnFrom_withdraw _ _ _)

/-- The source of a violated rule has no offset any more. -/
@[simp]
theorem found?_withdrawEnds_source (fs : Findings) (v : Rule × Obstacle) :
    (fs.withdrawEnds v).found? v.1.source = none := by
  refine Option.eq_none_iff_forall_ne_some.2 fun found hfound => ?_
  have hbefore := (withdrawnFrom_withdraw _ _ _).found _ _ hfound
  simp at hbefore

theorem withdrawnFrom_foldl_withdrawEnds (violations : List (Rule × Obstacle)) (fs : Findings) :
    (violations.foldl withdrawEnds fs).WithdrawnFrom fs := by
  induction violations generalizing fs with
  | nil => exact WithdrawnFrom.refl fs
  | cons v rest ih => exact (ih (fs.withdrawEnds v)).trans (withdrawnFrom_withdrawEnds fs v)

/-- Once all violated rules have been gone through, their sources have no offset. -/
theorem found?_foldl_withdrawEnds_source {violations : List (Rule × Obstacle)}
    {v : Rule × Obstacle} (hv : v ∈ violations) (fs : Findings) :
    (violations.foldl withdrawEnds fs).found? v.1.source = none := by
  induction violations generalizing fs with
  | nil => exact absurd hv List.not_mem_nil
  | cons w rest ih =>
    rcases List.mem_cons.1 hv with rfl | hv
    · -- an offset that is there at the end was there after the source had been withdrawn
      refine Option.eq_none_iff_forall_ne_some.2 fun found hfound => ?_
      have hbefore := (withdrawnFrom_foldl_withdrawEnds rest _).found _ _ hfound
      simp at hbefore
    · exact ih hv (fs.withdrawEnds w)

theorem violation?_eq_none {fs : Findings} {r : Rule} (h : fs.violation? r = none)
    {source dest : Found} (hs : fs.found? r.source = some source)
    (hd : fs.found? r.dest = some dest) :
    (dest.offset : Int) - source.offset = r.delta.toInt := by
  unfold violation? at h
  rw [hs, hd] at h
  by_contra hne
  simp [hne] at h

theorem withdrawnFrom_withdrawViolated (fs : Findings) (rules : List Rule) :
    (fs.withdrawViolated rules).WithdrawnFrom fs := withdrawnFrom_foldl_withdrawEnds _ fs

/-- **Once both ends of every violated rule are withdrawn, the rules hold.** -/
theorem satisfies_withdrawViolated (fs : Findings) (rules : List Rule) :
    (fs.withdrawViolated rules).Satisfies rules := by
  intro r hr source dest hs hd
  have hkept := withdrawnFrom_withdrawViolated fs rules
  cases hv : fs.violation? r with
  | none => exact violation?_eq_none hv (hkept.found _ _ hs) (hkept.found _ _ hd)
  | some reason =>
    have hmem : (r, reason) ∈ rules.filterMap fun r => (fs.violation? r).map (r, ·) :=
      List.mem_filterMap.2 ⟨r, hr, by rw [hv]; rfl⟩
    have hlost := found?_foldl_withdrawEnds_source hmem fs
    rw [← withdrawViolated_eq, hs] at hlost
    cases hlost

/-! ## Orphans -/

theorem withdrawnFrom_settle (fs : Findings) : fs.settle.WithdrawnFrom fs := by
  fun_induction settle fs with
  | case1 fs _ ih => exact ih.trans (withdrawnFrom_withdrawOrphans fs)
  | case2 fs _ => exact WithdrawnFrom.refl fs

/-- **What has settled holds no orphan.** -/
theorem found?_source_of_settle (fs : Findings) :
    ∀ id found source, fs.settle.found? id = some found → found.source = some source →
      ∃ origin, fs.settle.found? source = some origin := by
  fun_induction settle fs with
  | case1 fs _ ih => exact ih
  | case2 fs hnone =>
    intro id found source hfound hsource
    obtain ⟨f, hf, hfound⟩ := exists_of_found? hfound
    by_contra hlost
    refine hnone (List.any_eq_true.2 ⟨(id, f), mem_of_get? hf, ?_⟩)
    have : (fs.found? source).isSome = false := by
      rw [Option.isSome_eq_false_iff, Option.isNone_iff_eq_none]
      exact Option.eq_none_iff_forall_ne_some.2 fun origin h => hlost ⟨origin, h⟩
    simp [lostSource?, hfound, hsource, this]

/-! ## Cross-checking -/

/-- **Cross-checking only withdraws.** -/
theorem withdrawnFrom_crossCheck (fs : Findings) (rules : List Rule) :
    (fs.crossCheck rules).WithdrawnFrom fs :=
  (withdrawnFrom_settle _).trans (withdrawnFrom_withdrawViolated fs rules)

/-- **Cross-checking leaves what is consistent.** -/
theorem consistent_crossCheck (fs : Findings) (rules : List Rule) :
    (fs.crossCheck rules).Consistent rules where
  rules := (withdrawnFrom_settle _).satisfies (satisfies_withdrawViolated fs rules)
  sources := found?_source_of_settle _

end Findings
end BinaryPatch
