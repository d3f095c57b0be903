/-
# What a dry run foretells

A plan goes as far as a validated transaction; a run goes on and commits it. Neither looks at the
store before the commit, and a commit of what has been validated can only fail when the store
refuses (`Transaction.commit_of_validate`): its reads, its writes and the restoring of the buffer
stay inside an image of the validated size. So a plan foretells the run (`Engine.plan_foretells`):

| plan | run |
| --- | --- |
| succeeds | succeeds with the same reports and entries, unless the store refuses |
| fails | fails likewise, whatever the store does |
-/

import BinaryPatch.Proofs.Apply

namespace BinaryPatch

/-! ## Committing what has been validated -/

namespace Transaction

/-- **A commit of a validated transaction fails only when the store refuses.** It succeeds if there
is nothing to write or the store takes the buffer. The image need not be the one that was validated,
as long as it has its size. -/
theorem commit_of_validate {t t' : Transaction} {i j : Image} (now : Timestamp)
    (h : t.validate i = (t', .ok ())) (hsize : j.size = i.size) :
    (t'.commit now j).2.2 =
      if t'.patches = [] then .ok ()
      else
        match j.store.fault with
        | none => .ok ()
        | some cause => .error (.storage cause) := by
  rw [commit_eq_of_validate now h hsize]
  split
  · rfl
  · cases j.store.fault <;> rfl

end Transaction

/-! ## The store -/

theorem Resolution.resolveSlices_setFault (i : Image) (c : Catalog) (limits : Limits)
    (refusal : Option StorageFault) (slices : List Slice) :
    resolveSlices (i.setFault refusal) c limits slices = resolveSlices i c limits slices := by
  induction slices with
  | nil => rfl
  | cons slice rest ih =>
    have hslice : resolveSlice (i.setFault refusal) slice c limits =
        resolveSlice i slice c limits := rfl
    rw [resolveSlices, resolveSlices, hslice, ih]

namespace Engine

variable (e : Engine) (now : Timestamp) (i : Image) (bodies : List Body)

/-- Resolving an image does not look at its store. -/
theorem resolve_setFault (refusal : Option StorageFault) :
    e.resolve (i.setFault refusal) = e.resolve i :=
  Resolution.resolveSlices_setFault i e.catalog e.limits refusal i.slices

/-- Validating does not, either. -/
theorem prepare_setFault (refusal : Option StorageFault) (reports : List Report) :
    e.prepare (i.setFault refusal) reports bodies = e.prepare i reports bodies := rfl

/-- A plan that fails has failed in what a run does first. -/
theorem apply_of_plan_error {fault : Fault} (h : e.plan i bodies = .error fault)
    (refusal : Option StorageFault) :
    e.apply now (i.setFault refusal) bodies = (i.setFault refusal, .error fault) := by
  unfold plan at h
  unfold apply
  rw [resolve_setFault]
  cases hreports : e.resolve i with
  | error fault' =>
    rw [hreports] at h
    cases h
    rfl
  | ok reports =>
    rw [hreports] at h
    dsimp only at h ⊢
    unfold applyReports
    rw [prepare_setFault]
    cases hprepare : e.prepare i reports bodies with
    | error fault' =>
      rw [hprepare] at h
      cases h
      rfl
    | ok t =>
      rw [hprepare] at h
      cases h

/-- **A plan that succeeds leaves only the commit to do.** -/
theorem apply_of_plan_ok {o : Outcome} (h : e.plan i bodies = .ok o)
    (refusal : Option StorageFault) :
    (e.apply now (i.setFault refusal) bodies).2 =
      if o.transaction.patches = [] then
        .ok ⟨o.reports, o.transaction.applied now []⟩
      else
        match refusal with
        | none => .ok ⟨o.reports, o.transaction.applied now
            (Bytes.captured i.buffer o.transaction.patches)⟩
        | some cause => .error (.storage cause) := by
  unfold plan at h
  cases hreports : e.resolve i with
  | error fault =>
    rw [hreports] at h
    cases h
  | ok reports =>
    rw [hreports] at h
    dsimp only at h
    cases hprepare : e.prepare i reports bodies with
    | error fault =>
      rw [hprepare] at h
      cases h
    | ok t =>
      rw [hprepare] at h
      cases h
      obtain ⟨hready, -⟩ := ready_of_prepare hprepare
      unfold apply
      rw [resolve_setFault, hreports]
      dsimp only
      unfold applyReports
      rw [prepare_setFault, hprepare]
      dsimp only
      rw [Transaction.commit_eq (i := i.setFault refusal) now hready.progress hready.fileLength
        hready.fits]
      by_cases hnil : t.patches = []
      · rw [if_pos hnil, if_pos hnil]
      · rw [if_neg hnil, if_neg hnil]
        cases refusal <;> rfl

/-- A run whose plan is known: what it comes to with a store that works, and with one that may not
work. -/
structure Foretold (e : Engine) (now : Timestamp) (i : Image) (bodies : List Body) : Prop where
  /-- The plan succeeds exactly when the run does, if the store works. -/
  isOk_iff : (∃ o, e.plan i bodies = .ok o) ↔ ∃ o, (e.apply now (i.setFault none) bodies).2 = .ok o
  /-- They find the same, and the sites are in the same states: the run only adds what it has
  overwritten, and when. -/
  agree : ∀ o o', e.plan i bodies = .ok o → (e.apply now (i.setFault none) bodies).2 = .ok o' →
    o'.reports = o.reports ∧ o'.transaction.entries = o.transaction.entries ∧
      ∃ captured, o'.transaction = o.transaction.applied now captured
  /-- If the plan fails, the run fails in the same way, and leaves the image alone. -/
  fault : ∀ fault, e.plan i bodies = .error fault → ∀ refusal,
    e.apply now (i.setFault refusal) bodies = (i.setFault refusal, .error fault)
  /-- If the plan succeeds and the run does not, the store has refused. -/
  refusal : ∀ o refusal fault, e.plan i bodies = .ok o →
    (e.apply now (i.setFault refusal) bodies).2 = .error fault →
      ∃ cause, refusal = some cause ∧ fault = .storage cause

theorem foretold : e.Foretold now i bodies := by
  cases hplan : e.plan i bodies with
  | error fault =>
    have hrun := e.apply_of_plan_error now i bodies hplan
    have hnone : ∀ o, e.plan i bodies ≠ .ok o := fun o h => by
      rw [hplan] at h
      cases h
    refine ⟨iff_of_false (fun ⟨o, h⟩ => hnone o h) fun ⟨o, h⟩ => ?_,
      fun o _ h => absurd h (hnone o), fun fault' h => ?_, fun o _ _ h => absurd h (hnone o)⟩
    · rw [hrun none] at h
      cases h
    · obtain rfl := Except.error.inj (hplan.symm.trans h)
      exact hrun
  | ok o =>
    have hrun := e.apply_of_plan_ok now i bodies hplan
    obtain ⟨captured, hworks⟩ : ∃ captured, (e.apply now (i.setFault none) bodies).2 =
        .ok ⟨o.reports, o.transaction.applied now captured⟩ := by
      rw [hrun none]
      split
      · exact ⟨_, rfl⟩
      · exact ⟨_, rfl⟩
    refine ⟨iff_of_true ⟨o, hplan⟩ ⟨_, hworks⟩, fun o₁ o' h₁ h' => ?_, fun fault h => ?_,
      fun o₁ refusal fault h₁ hfault => ?_⟩
    · obtain rfl := Except.ok.inj (hplan.symm.trans h₁)
      obtain rfl := Except.ok.inj (hworks.symm.trans h')
      exact ⟨rfl, rfl, captured, rfl⟩
    · rw [hplan] at h
      cases h
    · rw [hrun refusal] at hfault
      split at hfault
      · cases hfault
      · cases refusal with
        | none => cases hfault
        | some cause =>
          cases hfault
          exact ⟨cause, rfl, rfl⟩

/-- **A plan foretells the run**, and a validation foretells the commit: on an image of the size
that was validated, a commit only fails when the store refuses. -/
theorem plan_foretells (e : Engine) (now : Timestamp) (i : Image) (bodies : List Body) :
    e.Foretold now i bodies ∧
      ∀ (t t' : Transaction) (j : Image), t.validate i = (t', .ok ()) → j.size = i.size →
        ∀ fault, (t'.commit now j).2.2 = .error fault →
          ∃ cause, j.store.fault = some cause ∧ fault = .storage cause := by
  refine ⟨e.foretold now i bodies, fun t t' j hvalid hsize fault hfault => ?_⟩
  rw [Transaction.commit_of_validate now hvalid hsize] at hfault
  split at hfault
  · cases hfault
  · cases hstore : j.store.fault with
    | none =>
      rw [hstore] at hfault
      cases hfault
    | some cause =>
      rw [hstore] at hfault
      cases hfault
      exact ⟨cause, rfl, rfl⟩

/-- The plan for a file with one target. -/
def relapsingPlan : Outcome where
  reports := [⟨"1", .linux, .elf, [.located ⟨"A", 20, .fuzzySearch, none, some 20⟩]⟩]
  transaction := {
    catalogVersion := "1"
    platforms := [.linux]
    entries := [⟨"A", .linux, 20, [0xAA], [0xBB, 0xAA], some [0xAA, 0], some .unpatched⟩]
    progress := .validated
    fileLength := 24 }

theorem plan_relapsing : relapsing.plan relapsingImage [] = .ok relapsingPlan := by
  decide +kernel

/-- With a store that works the run has the same entry, and with one that refuses both the run and
the commit fail by that. -/
theorem plan_foretells_relapsing :
    (∃ o, (relapsing.apply ⟨0, 0⟩ (relapsingImage.setFault none) []).2 = .ok o ∧
      o.transaction.entries = relapsingPlan.transaction.entries) ∧
    (relapsing.apply ⟨0, 0⟩ (relapsingImage.setFault (some .disabled)) []).2 =
      .error (.storage .disabled) ∧
    (relapsingPlan.transaction.commit ⟨0, 0⟩ (relapsingImage.setFault (some .disabled))).2.2 =
      .error (.storage .disabled) := by
  obtain ⟨hforetold, hcommit⟩ := plan_foretells relapsing ⟨0, 0⟩ relapsingImage []
  have hvalid : relapsingPlan.transaction.validate relapsingImage =
      (relapsingPlan.transaction, .ok ()) := by decide +kernel
  have hfails : ∀ {α : Type} (x : Except Fault α), x.isOk = false → ∃ fault, x = .error fault :=
    fun x hx => by
      cases x with
      | ok a => cases hx
      | error fault => exact ⟨fault, rfl⟩
  obtain ⟨o, hrun⟩ := hforetold.isOk_iff.1 ⟨_, plan_relapsing⟩
  obtain ⟨fault, hfault⟩ := hfails (relapsing.apply ⟨0, 0⟩
    (relapsingImage.setFault (some .disabled)) []).2 (by decide +kernel)
  obtain ⟨fault', hfault'⟩ := hfails (relapsingPlan.transaction.commit ⟨0, 0⟩
    (relapsingImage.setFault (some .disabled))).2.2 (by decide +kernel)
  obtain ⟨cause, hcause, rfl⟩ := hforetold.refusal _ _ _ plan_relapsing hfault
  obtain ⟨cause', hcause', rfl⟩ :=
    hcommit _ _ (relapsingImage.setFault (some .disabled)) hvalid rfl _ hfault'
  cases hcause
  cases hcause'
  exact ⟨⟨o, hrun, (hforetold.agree _ _ plan_relapsing hrun).2.1⟩, hfault, hfault'⟩

end Engine
end BinaryPatch
