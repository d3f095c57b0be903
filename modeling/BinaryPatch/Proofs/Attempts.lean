/-
# What the attempts of a target account for

A report gives every target without an offset its attempts. They say what became of it
(`Resolution.Account`):

| the target | its attempts |
| --- | --- |
| was found nowhere | one for each of the three phases, in their order |
| was found, and is an end of violated rules | the phases that failed before, then one for each of these rules |
| was found, and its source is without an offset | the phases that failed before, then one that names the source |

What a search records is one lemma (`Survey.recorded_locate`), and what cross-checking adds to it
another (`Findings.exists_reasons`). Put together they are the account of every target
(`Resolution.resolveSlice_accounted`), however many rounds withdraw it.
-/

import BinaryPatch.Proofs.Rounds
import Mathlib.Data.List.Forall2

namespace BinaryPatch

/-! ## What a search records -/

/-- The phases in which a target is looked for, in their order. -/
def Phase.searches : List Phase := [.directSignature, .derivation, .fuzzyWindow]

namespace Method

/-- The phase that finds offsets by a method. -/
def phase : Method → Phase
  | directSignature => .directSignature
  | derived => .derivation
  | fuzzySearch => .fuzzyWindow

/-- The phases that come before it. -/
def earlier (m : Method) : List Phase := Phase.searches.takeWhile fun p => p ≠ m.phase

theorem length_earlier_lt (m : Method) : m.earlier.length < 3 := by
  cases m <;> decide

end Method

/-- Every phase failed. The third was left out exactly when the first was ambiguous. -/
def Exhausted (attempts : List Attempt) : Prop :=
  ∃ first second third,
    attempts = [⟨.directSignature, first⟩, ⟨.derivation, second⟩, ⟨.fuzzyWindow, third⟩] ∧
      (third = .skippedAfterAmbiguity ↔ ∃ offsets, first = .ambiguous offsets)

/-- The attempts of a search are the phases that failed before one succeeded, or all of them. -/
structure Finding.Recorded (f : Finding) : Prop where
  found : ∀ found, f.found = some found → f.attempts.map Attempt.phase = found.method.earlier
  exhausted : f.found = none → Exhausted f.attempts

theorem Finding.Recorded.length_lt {f : Finding} (h : f.Recorded) {found : Found}
    (hfound : f.found = some found) : f.attempts.length < 3 := by
  rw [← List.length_map Attempt.phase, h.found found hfound]
  exact found.method.length_earlier_lt

namespace Survey

variable {s : Survey} {v : Variant} {derived : List Candidate}

theorem searchAround_ne_skipped (centres : List Nat) :
    s.searchAround v centres ≠ .error .skippedAfterAmbiguity := by
  induction centres with
  | nil => exact nofun
  | cons centre rest ih =>
    unfold searchAround
    split
    · exact ih
    · exact nofun
    · exact nofun

/-- A third phase that is made is not reported as left out. -/
theorem fuzzy_ne_skipped : s.fuzzy v derived ≠ .error .skippedAfterAmbiguity := by
  unfold fuzzy
  split
  · exact nofun
  · exact searchAround_ne_skipped _

/-- **The third phase is left out exactly when the signature was ambiguous.** -/
theorem fuzzyUnless_skipped_iff {first third : Obstacle}
    (h : s.fuzzyUnless v derived first = .error third) :
    third = .skippedAfterAmbiguity ↔ ∃ offsets, first = .ambiguous offsets := by
  unfold fuzzyUnless at h
  split at h
  · rename_i offsets
    cases h
    exact iff_of_true rfl ⟨offsets, rfl⟩
  · rename_i hfirst
    refine iff_of_false ?_ fun hambiguous => hambiguous.elim hfirst
    rintro rfl
    exact fuzzy_ne_skipped h

/-- **A search records every phase that failed before it ended.** -/
theorem recorded_locate (s : Survey) (v : Variant) (scanner : Option Scanner)
    (derived : List Candidate) : (s.locate v scanner derived).Recorded := by
  unfold locate
  split
  · exact ⟨fun found hfound => Option.some.inj hfound ▸ rfl, nofun⟩
  · rename_i first _
    split
    · exact ⟨fun found hfound => Option.some.inj hfound ▸ rfl, nofun⟩
    · rename_i second _
      split
      · exact ⟨fun found hfound => Option.some.inj hfound ▸ rfl, nofun⟩
      · rename_i third hthird
        exact ⟨nofun, fun _ => ⟨first, second, third, rfl, fuzzyUnless_skipped_iff hthird⟩⟩

end Survey

/-! ## What cross-checking adds -/

namespace Findings

variable {fs : Findings}

instance : DecidablePred fs.Violated := fun _ => decidable_of_iff _ isSome_violation?_iff

/-- The violated rules at a target, in their order. -/
def violatedAt (fs : Findings) (rules : List Rule) (id : String) : List Rule :=
  (rules.filter fun r => r.touches id).filter fun r => fs.Violated r

/-- The obstacle names the rule, the distance that it asks for and the one that was found. -/
def Breach (fs : Findings) (r : Rule) (reason : Obstacle) : Prop :=
  ∃ source dest, fs.found? r.source = some source ∧ fs.found? r.dest = some dest ∧
    (dest.offset : Int) - source.offset ≠ r.delta.toInt ∧
      reason = .deltaViolation r.source r.dest r.delta.toInt (dest.offset - source.offset)

theorem breach_of_violation? {r : Rule} {reason : Obstacle}
    (h : fs.violation? r = some reason) : fs.Breach r reason := by
  unfold violation? at h
  obtain ⟨source, hsource, h⟩ := Option.bind_eq_some_iff.1 h
  obtain ⟨dest, hdest, h⟩ := Option.bind_eq_some_iff.1 h
  dsimp only at h
  split at h
  · cases h
  · rename_i hne
    exact ⟨source, dest, hsource, hdest, hne, (Option.some.inj h).symm⟩

/-- **There is one breach for each violated rule**, in the order of the rules. -/
theorem forall₂_breaches (fs : Findings) (rules : List Rule) (id : String) :
    List.Forall₂ fs.Breach (fs.violatedAt rules id) (fs.breaches rules id) := by
  unfold violatedAt breaches
  induction rules.filter fun r => r.touches id with
  | nil => exact .nil
  | cons r rest ih =>
    cases hviolation : fs.violation? r with
    | none =>
      have hkept : ¬ fs.Violated r := by
        rw [← isSome_violation?_iff, hviolation]
        exact Bool.false_ne_true
      rw [List.filter_cons_of_neg (by simpa using hkept), List.filterMap_cons_none hviolation]
      exact ih
    | some reason =>
      have hviolated : fs.Violated r := by
        rw [← isSome_violation?_iff, hviolation]
        rfl
      rw [List.filter_cons_of_pos (by simpa using hviolated),
        List.filterMap_cons_some hviolation]
      exact .cons (breach_of_violation? hviolation) ih

end Findings

namespace Resolution

/-! ## The account of a target -/

/-- **What the attempts of a target in a report account for**, given what was found of the targets
before cross-checking. -/
inductive Account (fs : Findings) (rules : List Rule) (r : Report) (u : Unresolved) : Prop
  /-- It was found nowhere. -/
  | exhausted : fs.found? u.targetId = none → Exhausted u.attempts → Account fs rules r u
  /-- It was found, but rules at it are violated. -/
  | breached {found : Found} {failed : List Attempt} {reasons : List Obstacle} :
      fs.found? u.targetId = some found →
      u.attempts = failed ++ reasons.map (fun reason => ⟨.crossValidation, reason⟩) →
      failed.length < 3 → failed.map Attempt.phase = found.method.earlier → reasons ≠ [] →
      List.Forall₂ fs.Breach (fs.violatedAt rules u.targetId) reasons → Account fs rules r u
  /-- It was found, but what it was derived from is without an offset itself. -/
  | orphaned {found : Found} {failed : List Attempt} {source : Unresolved} :
      fs.found? u.targetId = some found →
      u.attempts = failed ++ [⟨.crossValidation, .sourceUnresolved source.targetId⟩] →
      failed.length < 3 → failed.map Attempt.phase = found.method.earlier →
      found.source = some source.targetId → source ∈ r.unresolved → Account fs rules r u

namespace Resolved

variable {s : Survey} {c : Catalog} {fs : Findings} {r : Report} (h : Resolved s c fs r)
include h

/-- What is known of a target records its search. -/
theorem recorded {id : String} {f : Finding} (hf : fs.get? id = some f) : f.Recorded := by
  obtain ⟨t, ht, rfl⟩ := List.mem_map.1 ((h.solves.known id).1 (by rw [hf]; rfl))
  obtain ⟨v, scanner, -, -, -, -, hget⟩ := h.exists_locate ht
  obtain rfl := Option.some.inj (hf.symm.trans hget)
  exact s.recorded_locate v scanner _

/-- **A target that is lost is reported as unresolved.** -/
theorem exists_unresolved_of_lost {id : String}
    (hlost : fs.Lost (c.rulesFor s.slice.platform) id) : ∃ u ∈ r.unresolved, u.targetId = id := by
  have hnone := Findings.found?_crossCheck_of_lost h.rules_ne h.solves.rooted hlost
  obtain ⟨found, hfound⟩ := hlost.exists_found
  obtain ⟨t, ht, rfl⟩ := h.exists_target hfound
  obtain ⟨g, hg, -⟩ := Findings.exists_of_found? hfound
  have hknown := (Findings.withdrawnFrom_crossCheck fs (c.rulesFor s.slice.platform)).known t.id
  rw [hg] at hknown
  obtain ⟨f, hf⟩ := Option.isSome_iff_exists.1 hknown
  rw [Findings.found?_of_get? hf] at hnone
  exact ⟨⟨t.id, f.attempts⟩, h.mem_unresolved_iff.2 ⟨t, ht, f, hf, hnone, rfl⟩, rfl⟩

/-- **Every target without an offset is accounted for.** -/
theorem account {u : Unresolved} (hu : u ∈ r.unresolved) :
    Account fs (c.rulesFor s.slice.platform) r u := by
  obtain ⟨t, ht, f, hf, hnone, rfl⟩ := h.mem_unresolved_iff.1 hu
  obtain ⟨g, reasons, hg, rfl, hreasons⟩ :=
    Findings.exists_reasons h.rules_ne h.solves.rooted hf
  have hrecorded := h.recorded hg
  have hget := Findings.found?_of_get? hg
  cases hreasons with
  | kept _ => exact .exhausted (hget.trans hnone) (hrecorded.exhausted hnone)
  | breached hne =>
    obtain ⟨found, hfound⟩ := (Findings.lost_of_breaches_ne_nil hne).exists_found
    have hbefore := hget.symm.trans hfound
    exact .breached hfound (Findings.attempts_withdrawFor g _) (hrecorded.length_lt hbefore)
      (hrecorded.found found hbefore) hne (fs.forall₂_breaches _ t.id)
  | orphaned hfound hsource hlost =>
    have hbefore := hget.symm.trans hfound
    obtain ⟨v, hv, rfl⟩ := h.exists_unresolved_of_lost hlost
    exact .orphaned hfound (Findings.attempts_withdrawFor g _) (hrecorded.length_lt hbefore)
      (hrecorded.found _ hbefore) hsource hv

end Resolved

/-- **The attempts of every target without an offset account for it.** Either all three phases
failed, the third being left out exactly when the first was ambiguous; or some failed before one
succeeded, and what follows them is one breach for each violated rule at the target, in the order
of the rules, or the one source that is without an offset as well. There is a report unless a target
leaves no room. -/
theorem resolveSlice_accounted {c : Catalog} (h : c.validate = .ok ()) (image : Image)
    (slice : Slice) (limits : Limits) :
    (∃ order fs r, c.derivationOrder slice.platform = .ok order ∧
      locateAll ⟨image.buffer, slice, limits⟩ (c.rulesFor slice.platform) [] order = .ok fs ∧
      resolveSlice image slice c limits = .ok r ∧
      ∀ u ∈ r.unresolved, Account fs (c.rulesFor slice.platform) r u) ∨
        BreaksOff image slice c limits := by
  have hsound := Catalog.sound_of_validate h
  refine or_breaksOff hsound fun hroom => ?_
  obtain ⟨order, fs, r, horder, hfs, hr, hresolved⟩ := exists_resolved hsound image hroom limits
  exact ⟨order, fs, r, horder, hfs, hr, fun u hu => hresolved.account hu⟩

/-- The targets of `fork` without an offset in its file: the first and the third are ends of a
violated rule, and take the fourth and the fifth with them, which have no signature. -/
def forkUnresolved : List Unresolved := [
  ⟨"A", [⟨.crossValidation, .deltaViolation "C" "A" 5 (-2)⟩]⟩,
  ⟨"C", [⟨.crossValidation, .deltaViolation "C" "A" 5 (-2)⟩]⟩,
  ⟨"D", [⟨.directSignature, .noSignature⟩, ⟨.crossValidation, .sourceUnresolved "A"⟩]⟩,
  ⟨"E", [⟨.directSignature, .noSignature⟩, ⟨.crossValidation, .sourceUnresolved "D"⟩]⟩]

/-- Each of them is accounted for, by `resolveSlice_accounted`. -/
theorem resolveSlice_fork_accounted :
    ∃ fs r, resolveSlice forkImage forkImage.primary fork {} = .ok r ∧
      r.unresolved = forkUnresolved ∧
        ∀ u ∈ forkUnresolved, Account fs (fork.rulesFor .linux) r u := by
  obtain ⟨_, fs, r, -, -, hr, haccount⟩ :=
    (resolveSlice_accounted validate_fork forkImage forkImage.primary {}).resolve_right
      fun h => h.narrow hasRoom_fork
  obtain ⟨r', hr', hunresolved⟩ := exists_ok_of_toOption_map
    (show (resolveSlice forkImage forkImage.primary fork {}).toOption.map Report.unresolved =
      some forkUnresolved by decide +kernel)
  obtain rfl := Except.ok.inj (hr.symm.trans hr')
  exact ⟨fs, r, hr, hunresolved, hunresolved ▸ haccount⟩

end Resolution
end BinaryPatch
