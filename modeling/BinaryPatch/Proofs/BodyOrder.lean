/-
# The order of the bodies

A slot is filled with the first body that is meant for it. A body without a platform is meant for
every slice, so a list in which no two bodies have the same target and platform may still hold two
for one slot, a general one and one for the platform, and the one that stands first is taken.

| bodies for a slot | another order of the list |
| --- | --- |
| none, or one | fills it alike |
| a general one and one for the platform | fills it alike exactly when the same one comes first, or either would fill it alike |

So building comes to the same in any order that leaves no slot to be filled otherwise, and what was
built is built again in no other order (`Transaction.build_perm`).
-/

import BinaryPatch.Proofs.Building

namespace BinaryPatch

/-- What tells a body from the others of a list. -/
def Body.key (b : Body) : String × Option Platform := (b.targetId, b.platform)

/-! ## The first of two -/

section First

variable {α : Type} {l : List α}

/-- Without duplicates, two elements stand in one order only. -/
theorem not_sublist_swap (hnodup : l.Nodup) {x y : α} (h : [x, y].Sublist l) :
    ¬ [y, x].Sublist l := by
  induction l with
  | nil => cases h
  | cons z rest ih =>
    obtain ⟨hz, hrest⟩ := List.nodup_cons.1 hnodup
    intro h'
    cases h with
    | cons _ h =>
      cases h' with
      | cons _ h' => exact ih hrest h h'
      | cons_cons _ _ => exact hz (h.subset (by simp))
    | cons_cons _ h =>
      cases h' with
      | cons _ h' => exact hz (h'.subset (by simp))
      | cons_cons _ _ => exact hz (h.subset (by simp))

variable {p : α → Bool}

/-- The first element stands before every other. -/
theorem sublist_of_find?_eq_some {x y : α} (h : l.find? p = some x) (hy : y ∈ l) (hpy : p y = true)
    (hne : x ≠ y) : [x, y].Sublist l := by
  obtain ⟨-, before, after, rfl, hbefore⟩ := List.find?_eq_some_iff_append.1 h
  have hafter : y ∈ after := by
    rcases List.mem_append.1 hy with hy | hy
    · simpa [hpy] using hbefore y hy
    · exact (List.mem_cons.1 hy).resolve_left hne.symm
  exact ((List.singleton_sublist.2 hafter).cons_cons x).trans (List.sublist_append_right before _)

/-- Where all elements that are looked for are one, every order gives it. -/
theorem find?_perm {l' : List α} (hperm : l'.Perm l)
    (h : ∀ x ∈ l, ∀ y ∈ l, p x = true → p y = true → x = y) : l'.find? p = l.find? p := by
  cases hfound : l'.find? p with
  | none =>
    refine (List.find?_eq_none.2 fun x hx => ?_).symm
    exact List.find?_eq_none.1 hfound x (hperm.mem_iff.2 hx)
  | some x =>
    have hx : x ∈ l := hperm.mem_iff.1 (List.mem_of_find?_eq_some hfound)
    have hpx : p x = true := List.find?_some hfound
    obtain ⟨y, hy⟩ := Option.isSome_iff_exists.1 (List.find?_isSome.2 ⟨x, hx, hpx⟩)
    rw [hy, h x hx y (List.mem_of_find?_eq_some hy) hpx (List.find?_some hy)]

end First

namespace Transaction

/-! ## One slot -/

/-- Two bodies of a list are meant for one slot: one for every platform, the other for this one. -/
structure Rivals (bodies : List Body) (id : String) (p : Platform) (g b : Body) : Prop where
  mem : g ∈ bodies ∧ b ∈ bodies
  targetId : g.targetId = id ∧ b.targetId = id
  platform : g.platform = none ∧ b.platform = some p

namespace Rivals

variable {bodies : List Body} {id : String} {p : Platform} {g b : Body}
  (h : Rivals bodies id p g b)
include h

theorem fits : g.fits id p = true ∧ b.fits id p = true :=
  ⟨Body.fits_iff.2 ⟨h.targetId.1, .inl h.platform.1⟩,
    Body.fits_iff.2 ⟨h.targetId.2, .inr h.platform.2⟩⟩

theorem ne : g ≠ b := by
  rintro rfl
  exact nomatch h.platform.1.symm.trans h.platform.2

theorem perm {bodies' : List Body} (hperm : bodies'.Perm bodies) : Rivals bodies' id p g b :=
  ⟨h.mem.imp hperm.mem_iff.2 hperm.mem_iff.2, h.targetId, h.platform⟩

end Rivals

/-- Two lists fill a slot alike: of two bodies for it the same comes first, or it does not matter
which does. -/
def FillAlike (bodies bodies' : List Body) (id : String) (p : Platform) (slot : Nat) : Prop :=
  ∀ g b, Rivals bodies id p g b →
    ([g, b].Sublist bodies' ↔ [g, b].Sublist bodies) ∨
      g.spliceInto slot p.arch = b.spliceInto slot p.arch

section Unique

variable {bodies : List Body} (hunique : (bodies.map Body.key).Nodup)
include hunique

theorem eq_of_key {x y : Body} (hx : x ∈ bodies) (hy : y ∈ bodies)
    (hid : x.targetId = y.targetId) (hp : x.platform = y.platform) : x = y :=
  List.inj_on_of_nodup_map hunique hx hy (Prod.ext hid hp)

/-- A slot has two bodies at most. -/
theorem Rivals.unique {id : String} {p : Platform} {g g' b b' : Body}
    (h : Rivals bodies id p g b) (h' : Rivals bodies id p g' b') : g' = g ∧ b' = b :=
  ⟨eq_of_key hunique h'.mem.1 h.mem.1 (h'.targetId.1.trans h.targetId.1.symm)
      (h'.platform.1.trans h.platform.1.symm),
    eq_of_key hunique h'.mem.2 h.mem.2 (h'.targetId.2.trans h.targetId.2.symm)
      (h'.platform.2.trans h.platform.2.symm)⟩

/-- **Of two bodies for a slot, the one that stands first is taken.** -/
theorem Rivals.find?_cases {id : String} {p : Platform} {g b : Body}
    (h : Rivals bodies id p g b) :
    ((bodies.find? fun b => b.fits id p) = some g ∧ [g, b].Sublist bodies) ∨
      ((bodies.find? fun b => b.fits id p) = some b ∧ ¬ [g, b].Sublist bodies) := by
  obtain ⟨hg, hb⟩ := h.mem
  obtain ⟨hfg, hfb⟩ := h.fits
  obtain ⟨z, hz⟩ := Option.isSome_iff_exists.1
    (List.find?_isSome (p := fun b : Body => b.fits id p).2 ⟨g, hg, hfg⟩)
  have hmem : z ∈ bodies := List.mem_of_find?_eq_some hz
  have hid : z.targetId = id := Body.targetId_eq hz
  rcases (Body.fits_iff.1 (List.find?_some (p := fun b : Body => b.fits id p) hz)).2 with hp | hp
  · obtain rfl : z = g := eq_of_key hunique hmem hg (hid.trans h.targetId.1.symm)
      (hp.trans h.platform.1.symm)
    exact .inl ⟨hz, sublist_of_find?_eq_some hz hb hfb h.ne⟩
  · obtain rfl : z = b := eq_of_key hunique hmem hb (hid.trans h.targetId.2.symm)
      (hp.trans h.platform.2.symm)
    have hfirst := sublist_of_find?_eq_some hz hg hfg h.ne.symm
    exact .inr ⟨hz, not_sublist_swap (List.Nodup.of_map _ hunique) hfirst⟩

/-- Where no two bodies are meant for a slot, at most one is. -/
theorem eq_of_forall_not_rivals {id : String} {p : Platform}
    (hnone : ∀ g b, ¬ Rivals bodies id p g b) {x y : Body} (hx : x ∈ bodies) (hy : y ∈ bodies)
    (hfx : x.fits id p = true) (hfy : y.fits id p = true) : x = y := by
  obtain ⟨hxid, hxp⟩ := Body.fits_iff.1 hfx
  obtain ⟨hyid, hyp⟩ := Body.fits_iff.1 hfy
  refine eq_of_key hunique hx hy (hxid.trans hyid.symm) ?_
  rcases hxp with hxp | hxp <;> rcases hyp with hyp | hyp
  · rw [hxp, hyp]
  · exact absurd ⟨⟨hx, hy⟩, ⟨hxid, hyid⟩, hxp, hyp⟩ (hnone x y)
  · exact absurd ⟨⟨hy, hx⟩, ⟨hyid, hxid⟩, hyp, hxp⟩ (hnone y x)
  · rw [hxp, hyp]

variable {bodies' : List Body} (hperm : bodies'.Perm bodies)
include hperm

/-- **Another order fills a slot alike exactly when it leaves the choice as it was,** or the choice
does not matter. -/
theorem newBytes_perm_iff {id : String} {p : Platform} {length : UInt64} :
    newBytes id p bodies' (.slot length) = newBytes id p bodies (.slot length) ↔
      FillAlike bodies bodies' id p length.toNat := by
  have hunique' : (bodies'.map Body.key).Nodup := (hperm.map Body.key).nodup_iff.2 hunique
  by_cases htwo : ∃ g b, Rivals bodies id p g b
  · obtain ⟨g, b, hrivals⟩ := htwo
    have hpair : FillAlike bodies bodies' id p length.toNat ↔
        ([g, b].Sublist bodies' ↔ [g, b].Sublist bodies) ∨
          g.spliceInto length.toNat p.arch = b.spliceInto length.toNat p.arch := by
      refine ⟨fun h => h g b hrivals, fun h g' b' hrivals' => ?_⟩
      obtain ⟨rfl, rfl⟩ := hrivals.unique hunique hrivals'
      exact h
    rw [hpair]
    rcases (hrivals.perm hperm).find?_cases hunique' with ⟨hfind', hfirst'⟩ | ⟨hfind', hfirst'⟩ <;>
      rcases hrivals.find?_cases hunique with ⟨hfind, hfirst⟩ | ⟨hfind, hfirst⟩ <;>
      rw [newBytes_of_find? hfind', newBytes_of_find? hfind] <;> simp [hfirst, hfirst', eq_comm]
  · have hnone : ∀ g b, ¬ Rivals bodies id p g b := by simpa using htwo
    refine iff_of_true ?_ fun g b hrivals => absurd hrivals (hnone g b)
    have hfind : (bodies'.find? fun b => b.fits id p) = bodies.find? fun b => b.fits id p :=
      find?_perm hperm fun x hx y hy => eq_of_forall_not_rivals hunique hnone hx hy
    unfold newBytes
    rw [hfind]

end Unique

/-! ## Building -/

/-- Two lists fill every slot of some reports alike. -/
def AllFillAlike (c : Catalog) (reports : List Report) (bodies bodies' : List Body) : Prop :=
  ∀ s ∈ sitesOf reports, ∀ v length, c.variant? s.2.targetId s.1 = some v →
    v.payload = .slot length → FillAlike bodies bodies' s.2.targetId s.1 length.toNat

theorem newBytes_of_entry_eq_ok {p : Platform} {c : Catalog} {bodies : List Body} {site : Located}
    {v : Variant} (hv : c.variant? site.targetId p = some v) {x : Entry}
    (h : entry p c bodies site = .ok x) :
    newBytes site.targetId p bodies v.payload = .ok x.newBytes := by
  obtain ⟨⟨w, hw, -, hbytes⟩, hid, hp, -⟩ := newBytes_of_entry h
  rw [hid, hp] at hw hbytes
  obtain rfl : v = w := Option.some.inj (hv.symm.trans hw)
  exact hbytes

/-- A list of bodies matters to an entry by what it writes to the site alone. -/
theorem entry_congr {p : Platform} {c : Catalog} {bodies bodies' : List Body} {site : Located}
    (h : ∀ v, c.variant? site.targetId p = some v →
      newBytes site.targetId p bodies' v.payload = newBytes site.targetId p bodies v.payload) :
    entry p c bodies' site = entry p c bodies site := by
  cases hv : c.variant? site.targetId p with
  | some v => rw [entry_eq hv, entry_eq hv, h v hv]
  | none =>
    unfold entry
    cases ht : c.target? site.targetId with
    | none => rfl
    | some t =>
      have hget : t.variants.get? p = none := by
        rw [Catalog.variant?, ht] at hv
        exact hv
      dsimp only
      rw [hget]

theorem entriesOf_congr {reports : List Report} {c : Catalog} {bodies bodies' : List Body}
    (h : ∀ s ∈ sitesOf reports, entry s.1 c bodies' s.2 = entry s.1 c bodies s.2) :
    entriesOf c bodies' reports = entriesOf c bodies reports := by
  rw [entriesOf_eq_mapM, entriesOf_eq_mapM]
  generalize sitesOf reports = sites at h
  induction sites with
  | nil => rfl
  | cons s rest ih =>
    rw [List.mapM_cons, List.mapM_cons, h s List.mem_cons_self,
      ih fun q hq => h q (List.mem_cons_of_mem s hq)]

/-- **The order of the bodies matters only where it decides between two for one slot.** Two lists
of which each is a reordering of the other, and of which no two bodies have the same target and
platform, make building come to the same if they fill every slot alike. If it succeeds, they have
to. -/
theorem build_perm {bodies bodies' : List Body} (hperm : bodies'.Perm bodies)
    (hunique : (bodies.map Body.key).Nodup) (reports : List Report) (c : Catalog) :
    (AllFillAlike c reports bodies bodies' →
        build reports c bodies' = build reports c bodies) ∧
      ∀ t, build reports c bodies = .ok t → build reports c bodies' = .ok t →
        AllFillAlike c reports bodies bodies' := by
  constructor
  · intro halike
    have hentries : entriesOf c bodies' reports = entriesOf c bodies reports := by
      refine entriesOf_congr fun s hs => entry_congr fun v hv => ?_
      cases hpayload : v.payload with
      | bytes fixed => rfl
      | slot length => exact (newBytes_perm_iff hunique hperm).2 (halike s hs v length hv hpayload)
    unfold build
    rw [hentries]
  · intro t h h' s hs v length hv hpayload
    obtain ⟨-, hentries, -⟩ := entriesOf_of_build h
    obtain ⟨-, hentries', -⟩ := entriesOf_of_build h'
    -- the entry of a site stands at one place of either list
    obtain ⟨k, hk, rfl⟩ := List.mem_iff_getElem.1 hs
    have hall := forall₂_entriesOf hentries
    have hk' : k < t.entries.length := hall.length_eq ▸ hk
    refine (newBytes_perm_iff hunique hperm).1 ?_
    rw [← hpayload, newBytes_of_entry_eq_ok hv ((forall₂_entriesOf hentries').get hk hk'),
      newBytes_of_entry_eq_ok hv (hall.get hk hk')]

/-! ### A general body and one for a platform -/

section

open Engine (slotted slottedReport)

/-- A body for the slot on another platform. -/
def foreignBody : Body := ⟨"A", [0xCC], 2, some .windows⟩

/-- A body for the slot on the platform of the report. -/
def specialBody : Body := ⟨"A", [0xCC], 2, some .linux⟩

/-- **The order of the bodies may decide what is written.** Two bodies are meant for the slot, and
the one that stands first fills it. -/
theorem not_build_perm :
    ¬ ∀ (reports : List Report) (c : Catalog) (bodies bodies' : List Body),
      c.validate = .ok () → bodies'.Perm bodies → (bodies.map Body.key).Nodup →
        build reports c bodies' = build reports c bodies := by
  intro hall
  have hsame := hall [slottedReport] slotted.catalog [slottedBody, specialBody]
    [specialBody, slottedBody] slotted.sound (List.Perm.swap _ _ _) (by decide)
  revert hsame
  decide +kernel

/-- A body for another platform may stand before the general one or behind it, by `build_perm`. -/
theorem build_foreign_perm :
    build [slottedReport] slotted.catalog [foreignBody, slottedBody] =
      build [slottedReport] slotted.catalog [slottedBody, foreignBody] := by
  refine (build_perm (List.Perm.swap _ _ _) (by decide) [slottedReport] slotted.catalog).1 ?_
  intro s hs v length hv hpayload g b hrivals
  obtain rfl : s = slottedSite := List.mem_singleton.1 hs
  have hlinux : b.platform = some .linux := hrivals.platform.2
  rcases List.mem_pair.1 hrivals.mem.2 with rfl | rfl <;> cases hlinux

end

end Transaction
end BinaryPatch
