/-
# Which offsets cross-checking withdraws

The offsets that are lost form the least set that holds both ends of every violated rule, and
every target whose offset was derived from a lost one (`Findings.Lost`). Cross-checking withdraws
these and no others (`Findings.found?_crossCheck_iff`), whatever the number of rounds it takes.

What becomes of one target is known in full:

| the target | attempts added to it |
| --- | --- |
| an end of violated rules | one for each of them, in the order of the rules |
| otherwise lost | that its source is unresolved |
| not lost | none, and its offset is kept |
-/

import BinaryPatch.Proofs.Findings

namespace BinaryPatch

namespace Rule

/-- Whether a target is an end of the rule. -/
def touches (r : Rule) (id : String) : Bool := r.source == id || r.dest == id

theorem touches_iff {r : Rule} {id : String} :
    r.touches id = true ↔ r.source = id ∨ r.dest = id := by
  simp [touches]

end Rule

namespace Findings

/-! ## Ends of violated rules -/

/-- Both ends of the rule have an offset, and these do not lie as far apart as it says. -/
def Violated (fs : Findings) (r : Rule) : Prop :=
  ∃ source dest, fs.found? r.source = some source ∧ fs.found? r.dest = some dest ∧
    (dest.offset : Int) - source.offset ≠ r.delta.toInt

theorem isSome_violation?_iff {fs : Findings} {r : Rule} :
    (fs.violation? r).isSome = true ↔ fs.Violated r := by
  unfold violation? Violated
  cases hs : fs.found? r.source with
  | none => simp
  | some source =>
    cases hd : fs.found? r.dest with
    | none => simp
    | some dest =>
      by_cases h : (dest.offset : Int) - source.offset = r.delta.toInt <;> simp [h]

/-- How the rules at a target are violated, in the order of the rules. -/
def breaches (fs : Findings) (rules : List Rule) (id : String) : List Obstacle :=
  (rules.filter fun r => r.touches id).filterMap fs.violation?

theorem breaches_eq_nil_iff {fs : Findings} {rules : List Rule} {id : String} :
    fs.breaches rules id = [] ↔ ∀ r ∈ rules, r.touches id = true → ¬ fs.Violated r := by
  unfold breaches
  rw [List.filterMap_eq_nil_iff]
  constructor
  · intro h r hr htouches hviolated
    have hnone := h r (List.mem_filter.2 ⟨hr, htouches⟩)
    rw [← isSome_violation?_iff, hnone] at hviolated
    cases hviolated
  · intro h r hr
    obtain ⟨hr, htouches⟩ := List.mem_filter.1 hr
    have hnot := h r hr htouches
    rwa [← isSome_violation?_iff, Bool.not_eq_true, Option.isSome_eq_false_iff,
      Option.isNone_iff_eq_none] at hnot

/-- Withdraw an offset for several reasons. -/
def withdrawFor (f : Finding) (reasons : List Obstacle) : Finding :=
  reasons.foldl Finding.withdraw f

theorem found_withdrawFor {f : Finding} {reasons : List Obstacle} (h : reasons ≠ []) :
    (withdrawFor f reasons).found = none := by
  obtain ⟨init, last, rfl⟩ := (List.eq_nil_or_concat reasons).resolve_left h
  unfold withdrawFor
  rw [List.concat_eq_append, List.foldl_concat]
  rfl

/-- Each reason leaves an attempt behind. -/
theorem attempts_withdrawFor (f : Finding) (reasons : List Obstacle) :
    (withdrawFor f reasons).attempts =
      f.attempts ++ reasons.map fun reason => ⟨.crossValidation, reason⟩ := by
  induction reasons generalizing f with
  | nil => exact (List.append_nil _).symm
  | cons reason rest ih =>
    change (withdrawFor (f.withdraw reason) rest).attempts = _
    rw [ih]
    simp [Finding.withdraw]

theorem get?_withdrawEnds (fs : Findings) {v : Rule × Obstacle} (h : v.1.source ≠ v.1.dest)
    (id : String) :
    (fs.withdrawEnds v).get? id =
      (fs.get? id).map fun f => if v.1.touches id then f.withdraw v.2 else f := by
  unfold withdrawEnds
  rw [get?_withdraw, get?_withdraw, Option.map_map]
  refine congrArg (fun g => (fs.get? id).map g) (funext fun f => ?_)
  by_cases hs : id = v.1.source
  · have hd : id ≠ v.1.dest := fun hd => h (hs.symm.trans hd)
    simp [Rule.touches, ← hs, hd]
  · by_cases hd : id = v.1.dest
    · simp [Rule.touches, ← hd, hs]
    · simp [Rule.touches, hs, hd, Ne.symm hs, Ne.symm hd]

/-- Of the violated rules only those at a target change what is known of it. -/
theorem get?_foldl_withdrawEnds {violations : List (Rule × Obstacle)}
    (h : ∀ v ∈ violations, v.1.source ≠ v.1.dest) (fs : Findings) (id : String) :
    (violations.foldl withdrawEnds fs).get? id = (fs.get? id).map fun f =>
      withdrawFor f ((violations.filter fun v => v.1.touches id).map Prod.snd) := by
  induction violations generalizing fs with
  | nil => simp [withdrawFor]
  | cons v rest ih =>
    rw [List.foldl_cons, ih (fun w hw => h w (List.mem_cons_of_mem v hw)),
      get?_withdrawEnds fs (h v List.mem_cons_self), Option.map_map]
    refine congrArg (fun g => (fs.get? id).map g) (funext fun f => ?_)
    by_cases ht : v.1.touches id = true
    · simp [ht, withdrawFor]
    · simp [ht]

theorem breaches_eq_map (fs : Findings) (rules : List Rule) (id : String) :
    fs.breaches rules id =
      ((rules.filterMap fun r => (fs.violation? r).map (r, ·)).filter fun v =>
        v.1.touches id).map Prod.snd := by
  unfold breaches
  induction rules with
  | nil => rfl
  | cons r rest ih =>
    cases hv : fs.violation? r <;> by_cases ht : r.touches id = true <;>
      simp [hv, ht, ih]

/-- **Going through the violated rules takes its offset from each of their ends.** -/
theorem get?_withdrawViolated {rules : List Rule} (h : ∀ r ∈ rules, r.source ≠ r.dest)
    (fs : Findings) (id : String) :
    (fs.withdrawViolated rules).get? id =
      (fs.get? id).map fun f => withdrawFor f (fs.breaches rules id) := by
  rw [withdrawViolated_eq, breaches_eq_map]
  refine get?_foldl_withdrawEnds (fun v hv => ?_) fs id
  obtain ⟨r, hr, hv⟩ := List.mem_filterMap.1 hv
  obtain ⟨reason, -, rfl⟩ := Option.map_eq_some_iff.1 hv
  exact h r hr

section Orphans

variable {fs : Findings} {id : String}

/-! ## Orphans -/

/-- The offset was derived from one that is not there, or from that of an orphan. -/
inductive Orphaned (fs : Findings) : String → Prop
  | lost {id : String} {found : Found} {source : String} : fs.found? id = some found →
      found.source = some source → fs.found? source = none → Orphaned fs id
  | derived {id : String} {found : Found} {source : String} : fs.found? id = some found →
      found.source = some source → Orphaned fs source → Orphaned fs id

/-- Only what has an offset is an orphan. -/
theorem Orphaned.exists_source (h : fs.Orphaned id) :
    ∃ f found source, fs.get? id = some f ∧ f.found = some found ∧
      found.source = some source := by
  cases h with
  | lost hfound hsource | derived hfound hsource =>
    obtain ⟨f, hf, hfound⟩ := exists_of_found? hfound
    exact ⟨f, _, _, hf, hfound, hsource⟩

theorem lostSource?_eq_some_iff {f : Finding} {source : String} :
    fs.lostSource? f = some source ↔
      ∃ found, f.found = some found ∧ found.source = some source ∧
        fs.found? source = none := by
  unfold lostSource?
  cases f.found with
  | none => simp
  | some found =>
    cases hsource : found.source with
    | none => simp [hsource]
    | some other =>
      cases h : fs.found? other with
      | none =>
        simp only [Option.bind_eq_bind, Option.bind_some, hsource, h, Option.isSome_none,
          Bool.false_eq_true, ↓reduceIte, Option.some.injEq, exists_eq_left']
        exact ⟨fun heq => ⟨heq, heq ▸ h⟩, fun heq => heq.1⟩
      | some origin =>
        simp only [Option.bind_eq_bind, Option.bind_some, hsource, h, Option.isSome_some,
          ↓reduceIte, reduceCtorEq, Option.some.injEq, exists_eq_left', false_iff, not_and]
        rintro rfl hnone
        rw [h] at hnone
        cases hnone

/-- What is known of a target that keeps its source through a round. -/
theorem get?_withdrawOrphans_of_lostSource?_eq_none {f : Finding} (hf : fs.get? id = some f)
    (h : fs.lostSource? f = none) : fs.withdrawOrphans.get? id = some f := by
  rw [get?_withdrawOrphans, hf, Option.map_some, h]

theorem get?_withdrawOrphans_of_lostSource?_eq_some {f : Finding} {source : String}
    (hf : fs.get? id = some f) (h : fs.lostSource? f = some source) :
    fs.withdrawOrphans.get? id = some (f.withdraw (.sourceUnresolved source)) := by
  rw [get?_withdrawOrphans, hf, Option.map_some, h]

/-- A round makes no orphans of others than those whose source it finds missing, or will. -/
theorem Orphaned.of_withdrawOrphans (h : fs.withdrawOrphans.Orphaned id) : fs.Orphaned id := by
  have hkept := (withdrawnFrom_withdrawOrphans fs).found
  induction h with
  | @lost id found source hfound hsource hnone =>
    cases horigin : fs.found? source with
    | none => exact .lost (hkept _ _ hfound) hsource horigin
    | some origin =>
      -- the round has withdrawn the source, so the source of the source was missing
      obtain ⟨f, hf, hforigin⟩ := exists_of_found? horigin
      cases hlost : fs.lostSource? f with
      | none =>
        have hkeeps := get?_withdrawOrphans_of_lostSource?_eq_none hf hlost
        rw [found?_of_get? hkeeps, hforigin] at hnone
        cases hnone
      | some first =>
        obtain ⟨origin', horigin', hfirst, hmissing⟩ := lostSource?_eq_some_iff.1 hlost
        obtain rfl := Option.some.inj (hforigin.symm.trans horigin')
        exact .derived (hkept _ _ hfound) hsource (.lost horigin hfirst hmissing)
  | derived hfound hsource _ ih => exact .derived (hkept _ _ hfound) hsource ih

/-- An orphan whose own source is still there is an orphan after the round. -/
theorem Orphaned.withdrawOrphans {f : Finding} (h : fs.Orphaned id) (hf : fs.get? id = some f)
    (hkept : fs.lostSource? f = none) : fs.withdrawOrphans.Orphaned id := by
  induction h generalizing f with
  | @lost id found source hfound hsource hnone =>
    rw [found?_of_get? hf] at hfound
    rw [lostSource?_eq_some_iff.2 ⟨found, hfound, hsource, hnone⟩] at hkept
    cases hkept
  | @derived id found source hfound hsource horphan ih =>
    have hfound' : fs.withdrawOrphans.found? id = some found := by
      rw [found?_of_get? (get?_withdrawOrphans_of_lostSource?_eq_none hf hkept)]
      rwa [found?_of_get? hf] at hfound
    obtain ⟨g, -, -, hg, -, -⟩ := horphan.exists_source
    cases hlost : fs.lostSource? g with
    | none => exact .derived hfound' hsource (ih hg hlost)
    | some first =>
      refine .lost hfound' hsource ?_
      exact found?_of_get? (get?_withdrawOrphans_of_lostSource?_eq_some hg hlost)

/-- No orphan is left where every source is there. -/
theorem not_orphaned_of_any_eq_false
    (h : ¬ (fs.any fun entry => (fs.lostSource? entry.2).isSome) = true) : ¬ fs.Orphaned id := by
  intro horphan
  induction horphan with
  | lost hfound hsource hnone =>
    obtain ⟨f, hf, hfound⟩ := exists_of_found? hfound
    refine h (List.any_eq_true.2 ⟨_, mem_of_get? hf, ?_⟩)
    rw [lostSource?_eq_some_iff.2 ⟨_, hfound, hsource, hnone⟩]
    rfl
  | derived _ _ _ ih => exact ih

/-- **The rounds leave alone what is no orphan.** -/
theorem get?_settle_of_not_orphaned (h : ¬ fs.Orphaned id) : fs.settle.get? id = fs.get? id := by
  fun_induction settle fs with
  | case1 fs _ ih =>
    rw [ih fun horphan => h horphan.of_withdrawOrphans]
    cases hf : fs.get? id with
    | none => rw [get?_withdrawOrphans, hf, Option.map_none]
    | some f =>
      cases hlost : fs.lostSource? f with
      | none => exact get?_withdrawOrphans_of_lostSource?_eq_none hf hlost
      | some source =>
        obtain ⟨found, hfound, hsource, hnone⟩ := lostSource?_eq_some_iff.1 hlost
        exact absurd (.lost ((found?_of_get? hf).trans hfound) hsource hnone) h
  | case2 fs _ => rfl

/-- **The rounds withdraw every orphan once, for want of its source.** -/
theorem get?_settle_of_orphaned (h : fs.Orphaned id) :
    ∃ f found source, fs.get? id = some f ∧ f.found = some found ∧ found.source = some source ∧
      fs.settle.get? id = some (f.withdraw (.sourceUnresolved source)) := by
  fun_induction settle fs with
  | case1 fs _ ih =>
    obtain ⟨f, found, source, hf, hfound, hsource⟩ := h.exists_source
    cases hlost : fs.lostSource? f with
    | none =>
      have hround := get?_withdrawOrphans_of_lostSource?_eq_none hf hlost
      obtain ⟨f', rest⟩ := ih (h.withdrawOrphans hf hlost)
      rw [hround] at rest
      obtain ⟨found', source', ⟨⟩, hrest⟩ := rest
      exact ⟨f, found', source', hf, hrest⟩
    | some missing =>
      have hround := get?_withdrawOrphans_of_lostSource?_eq_some hf hlost
      obtain ⟨found', hfound', hmissing, -⟩ := lostSource?_eq_some_iff.1 hlost
      refine ⟨f, found', missing, hf, hfound', hmissing, ?_⟩
      -- it has no offset after the round, so later rounds leave it alone
      rw [get?_settle_of_not_orphaned, hround]
      intro horphan
      obtain ⟨g, _, _, hg, hgfound, -⟩ := horphan.exists_source
      rw [hround] at hg
      cases hg
      cases hgfound
  | case2 fs hnone => exact absurd h (not_orphaned_of_any_eq_false hnone)

end Orphans

/-! ## What is lost -/

/-- **The targets that lose their offset**: the ends of violated rules, and what was derived from a
target that loses its own. -/
inductive Lost (fs : Findings) (rules : List Rule) : String → Prop
  | source {r : Rule} : r ∈ rules → fs.Violated r → Lost fs rules r.source
  | dest {r : Rule} : r ∈ rules → fs.Violated r → Lost fs rules r.dest
  | derived {id : String} {found : Found} {source : String} : fs.found? id = some found →
      found.source = some source → Lost fs rules source → Lost fs rules id

/-- A target is lost as an end of a violated rule, or with its source. -/
theorem lost_iff_breaches_or {fs : Findings} {rules : List Rule} {id : String} :
    fs.Lost rules id ↔ fs.breaches rules id ≠ [] ∨ ∃ found source, fs.found? id = some found ∧
      found.source = some source ∧ fs.Lost rules source := by
  constructor
  · intro h
    cases h with
    | source hr hviolated | dest hr hviolated =>
      exact .inl fun hnil => breaches_eq_nil_iff.1 hnil _ hr (by simp [Rule.touches]) hviolated
    | derived hfound hsource hlost => exact .inr ⟨_, _, hfound, hsource, hlost⟩
  · rintro (hne | ⟨found, source, hfound, hsource, hlost⟩)
    · by_contra hkept
      refine hne (breaches_eq_nil_iff.2 fun r hr htouches hviolated => hkept ?_)
      rcases Rule.touches_iff.1 htouches with rfl | rfl
      · exact .source hr hviolated
      · exact .dest hr hviolated
    · exact .derived hfound hsource hlost

/-- Only an offset that was found can be lost. -/
theorem Lost.exists_found {fs : Findings} {rules : List Rule} {id : String}
    (h : fs.Lost rules id) : ∃ found, fs.found? id = some found := by
  cases h with
  | source _ hviolated =>
    obtain ⟨source, _, hsource, -, -⟩ := hviolated
    exact ⟨source, hsource⟩
  | dest _ hviolated =>
    obtain ⟨_, dest, -, hdest, -⟩ := hviolated
    exact ⟨dest, hdest⟩
  | derived hfound => exact ⟨_, hfound⟩

/-- Where all rules hold, nothing is lost. -/
theorem not_lost_of_satisfies {fs : Findings} {rules : List Rule} (h : fs.Satisfies rules)
    (id : String) : ¬ fs.Lost rules id := by
  intro hlost
  induction hlost with
  | source hr hviolated | dest hr hviolated =>
    obtain ⟨source, dest, hsource, hdest, hne⟩ := hviolated
    exact hne (h _ hr source dest hsource hdest)
  | derived _ _ _ ih => exact ih

/-- Every derived offset has a source with an offset. -/
def Rooted (fs : Findings) : Prop :=
  ∀ id found source, fs.found? id = some found → found.source = some source →
    ∃ origin, fs.found? source = some origin

section CrossCheck

variable {fs : Findings} {rules : List Rule} {id : String}

theorem lost_of_breaches_ne_nil (h : fs.breaches rules id ≠ []) : fs.Lost rules id :=
  lost_iff_breaches_or.2 (.inl h)

variable (hrules : ∀ r ∈ rules, r.source ≠ r.dest)
include hrules

theorem get?_withdrawViolated_of_breaches_eq_nil (h : fs.breaches rules id = []) :
    (fs.withdrawViolated rules).get? id = fs.get? id := by
  rw [get?_withdrawViolated hrules, h]
  exact Option.map_id'

theorem found?_withdrawViolated_of_breaches_ne_nil (h : fs.breaches rules id ≠ []) :
    (fs.withdrawViolated rules).found? id = none := by
  rw [found?, get?_withdrawViolated hrules]
  cases fs.get? id with
  | none => rfl
  | some f => exact found_withdrawFor h

/-- **Lost are the ends of violated rules, and the orphans that their withdrawal leaves.** -/
theorem lost_iff (hrooted : fs.Rooted) :
    fs.Lost rules id ↔ fs.breaches rules id ≠ [] ∨ (fs.withdrawViolated rules).Orphaned id := by
  have hkept := (withdrawnFrom_withdrawViolated fs rules).found
  constructor
  · intro h
    induction h with
    | source hr hviolated | dest hr hviolated =>
      exact .inl fun hnil => breaches_eq_nil_iff.1 hnil _ hr (by simp [Rule.touches]) hviolated
    | @derived id found source hfound hsource _ ih =>
      by_cases hbreaches : fs.breaches rules id = []
      · have hfound' : (fs.withdrawViolated rules).found? id = some found := by
          rwa [found?, get?_withdrawViolated_of_breaches_eq_nil hrules hbreaches]
        rcases ih with hend | horphan
        · exact .inr (.lost hfound' hsource
            (found?_withdrawViolated_of_breaches_ne_nil hrules hend))
        · exact .inr (.derived hfound' hsource horphan)
      · exact .inl hbreaches
  · rintro (hbreaches | horphan)
    · exact lost_of_breaches_ne_nil hbreaches
    · induction horphan with
      | @lost id found source hfound hsource hnone =>
        refine .derived (hkept _ _ hfound) hsource (lost_of_breaches_ne_nil fun hnil => ?_)
        obtain ⟨origin, horigin⟩ := hrooted _ _ _ (hkept _ _ hfound) hsource
        rw [found?, get?_withdrawViolated_of_breaches_eq_nil hrules hnil] at hnone
        rw [found?, hnone] at horigin
        cases horigin
      | derived hfound hsource _ ih => exact .derived (hkept _ _ hfound) hsource ih

/-- What is not lost is left alone. -/
theorem get?_crossCheck_of_not_lost (hrooted : fs.Rooted) (h : ¬ fs.Lost rules id) :
    (fs.crossCheck rules).get? id = fs.get? id := by
  rw [lost_iff hrules hrooted, not_or, not_not] at h
  rw [crossCheck, get?_settle_of_not_orphaned h.2,
    get?_withdrawViolated_of_breaches_eq_nil hrules h.1]

/-- An end of violated rules is withdrawn once for each of them. -/
theorem get?_crossCheck_of_breaches_ne_nil (h : fs.breaches rules id ≠ []) :
    (fs.crossCheck rules).get? id =
      (fs.get? id).map fun f => withdrawFor f (fs.breaches rules id) := by
  rw [crossCheck, get?_settle_of_not_orphaned, get?_withdrawViolated hrules]
  intro horphan
  obtain ⟨f, found, -, hf, hfound, -⟩ := horphan.exists_source
  have := found?_withdrawViolated_of_breaches_ne_nil hrules h
  rw [found?_of_get? hf, hfound] at this
  cases this

/-- What is lost with its source is withdrawn once. -/
theorem get?_crossCheck_of_lost (hrooted : fs.Rooted) (h : fs.Lost rules id)
    (hbreaches : fs.breaches rules id = []) :
    ∃ f found source, fs.get? id = some f ∧ f.found = some found ∧ found.source = some source ∧
      (fs.crossCheck rules).get? id = some (f.withdraw (.sourceUnresolved source)) := by
  have horphan := ((lost_iff hrules hrooted).1 h).resolve_left fun hne => hne hbreaches
  obtain ⟨f, rest⟩ := get?_settle_of_orphaned horphan
  rw [get?_withdrawViolated_of_breaches_eq_nil hrules hbreaches] at rest
  exact ⟨f, rest⟩

theorem found?_crossCheck_of_not_lost (hrooted : fs.Rooted) (h : ¬ fs.Lost rules id) :
    (fs.crossCheck rules).found? id = fs.found? id := by
  rw [found?, get?_crossCheck_of_not_lost hrules hrooted h]
  rfl

/-- What is lost has no offset any more. -/
theorem found?_crossCheck_of_lost (hrooted : fs.Rooted) (h : fs.Lost rules id) :
    (fs.crossCheck rules).found? id = none := by
  by_cases hbreaches : fs.breaches rules id = []
  · obtain ⟨f, _, _, -, -, -, hf⟩ := get?_crossCheck_of_lost hrules hrooted h hbreaches
    exact found?_of_get? hf
  · rw [found?, get?_crossCheck_of_breaches_ne_nil hrules hbreaches]
    cases fs.get? id with
    | none => rfl
    | some f => exact found_withdrawFor hbreaches

/-- **Cross-checking withdraws what is lost and nothing else.** -/
theorem found?_crossCheck_iff (hrooted : fs.Rooted) {found : Found} :
    (fs.crossCheck rules).found? id = some found ↔
      fs.found? id = some found ∧ ¬ fs.Lost rules id := by
  by_cases hlost : fs.Lost rules id
  · rw [found?_crossCheck_of_lost hrules hrooted hlost]
    exact iff_of_false nofun fun h => h.2 hlost
  · rw [found?_crossCheck_of_not_lost hrules hrooted hlost]
    exact ⟨fun h => ⟨h, hlost⟩, fun h => h.1⟩

/-- Why cross-checking withdraws a target: for every rule at it that is violated; else, if its
source is lost, for want of that; else for nothing. -/
inductive Reasons (fs : Findings) (rules : List Rule) (id : String) : List Obstacle → Prop
  | kept : ¬ fs.Lost rules id → Reasons fs rules id []
  | breached : fs.breaches rules id ≠ [] → Reasons fs rules id (fs.breaches rules id)
  | orphaned {found : Found} {source : String} : fs.found? id = some found →
      found.source = some source → fs.Lost rules source →
        Reasons fs rules id [.sourceUnresolved source]

/-- **Whatever cross-checking leaves of a target was withdrawn for these reasons.** -/
theorem exists_reasons (hrooted : fs.Rooted) {f : Finding}
    (hf : (fs.crossCheck rules).get? id = some f) :
    ∃ g reasons, fs.get? id = some g ∧ f = withdrawFor g reasons ∧ fs.Reasons rules id reasons := by
  by_cases hlost : fs.Lost rules id
  · by_cases hnil : fs.breaches rules id = []
    · obtain ⟨g, found, source, hg, hfound, hsource, hout⟩ :=
        get?_crossCheck_of_lost hrules hrooted hlost hnil
      obtain rfl := Option.some.inj (hout.symm.trans hf)
      have hid : fs.found? id = some found := (found?_of_get? hg).trans hfound
      refine ⟨g, [.sourceUnresolved source], hg, rfl, .orphaned hid hsource ?_⟩
      -- a target that is no end of a violated rule is lost with its source
      obtain ⟨found', source', hid', hsource', hlost'⟩ :=
        (lost_iff_breaches_or.1 hlost).resolve_left (not_not_intro hnil)
      obtain rfl := Option.some.inj (hid.symm.trans hid')
      obtain rfl := Option.some.inj (hsource.symm.trans hsource')
      exact hlost'
    · rw [get?_crossCheck_of_breaches_ne_nil hrules hnil] at hf
      obtain ⟨g, hg, rfl⟩ := Option.map_eq_some_iff.1 hf
      exact ⟨g, _, hg, rfl, .breached hnil⟩
  · rw [get?_crossCheck_of_not_lost hrules hrooted hlost] at hf
    exact ⟨f, [], hf, rfl, .kept hlost⟩

/-- **What becomes of a target depends on what is known of it, how the rules at it are violated, and
whether it is lost.** -/
theorem get?_crossCheck_congr (hrooted : fs.Rooted) {gs : Findings} {rules' : List Rule}
    (hrules' : ∀ r ∈ rules', r.source ≠ r.dest) (hrooted' : gs.Rooted)
    (hget : gs.get? id = fs.get? id) (hbreaches : gs.breaches rules' id = fs.breaches rules id)
    (hlost : gs.Lost rules' id ↔ fs.Lost rules id) :
    (gs.crossCheck rules').get? id = (fs.crossCheck rules).get? id := by
  by_cases hkept : fs.Lost rules id
  · by_cases hnil : fs.breaches rules id = []
    · -- both have lost the source that is recorded in the entry
      obtain ⟨f, found, source, hf, hfound, hsource, hout⟩ :=
        get?_crossCheck_of_lost hrules hrooted hkept hnil
      obtain ⟨g, found', source', hg, hfound', hsource', hout'⟩ :=
        get?_crossCheck_of_lost hrules' hrooted' (hlost.2 hkept) (hbreaches.trans hnil)
      obtain rfl := Option.some.inj (hg.symm.trans (hget.trans hf))
      obtain rfl := Option.some.inj (hfound.symm.trans hfound')
      obtain rfl := Option.some.inj (hsource.symm.trans hsource')
      exact hout'.trans hout.symm
    · rw [get?_crossCheck_of_breaches_ne_nil hrules hnil,
        get?_crossCheck_of_breaches_ne_nil hrules' (hbreaches ▸ hnil), hget, hbreaches]
  · rw [get?_crossCheck_of_not_lost hrules hrooted hkept,
      get?_crossCheck_of_not_lost hrules' hrooted' (mt hlost.1 hkept), hget]

end CrossCheck

end Findings
end BinaryPatch
