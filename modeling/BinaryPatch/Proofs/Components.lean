/-
# Targets that no rule connects

A catalog can be cut along ids that no rule of a platform connects with the others: what is cut out
holds the targets of these ids, in any order, and the rules between them in the order they had
(`Catalog.Part`). The two catalogs are searched in different orders, and cross-checked apart. Yet
what is found of a target of the part, which targets are lost, and for what reasons, is the same
in both, as each of these depends on targets of the part alone. So its targets have the same
verdicts in both reports, with all attempts (`Resolution.resolveSlice_part`).
-/

import BinaryPatch.Proofs.Rounds

namespace BinaryPatch
namespace Catalog

/-- **A part of a catalog that no rule of the platform connects with the rest**: the targets of some
ids in any order, and the rules between them. -/
structure Part (c part : Catalog) (p : Platform) (ids : List String) : Prop where
  closed : ∀ r ∈ c.rules, r.platform = p → (r.source ∈ ids ↔ r.dest ∈ ids)
  targets : part.targets.Perm (c.targets.filter fun t => t.id ∈ ids)
  rules : part.rules = c.rules.filter fun r => r.source ∈ ids ∧ r.dest ∈ ids

namespace Part

variable {c part : Catalog} {p : Platform} {ids : List String} (hpart : Part c part p ids)
include hpart

theorem mem_targets_iff {t : Target} : t ∈ part.targets ↔ t ∈ c.targets ∧ t.id ∈ ids := by
  rw [hpart.targets.mem_iff, List.mem_filter, decide_eq_true_eq]

/-- A part leaves room where the whole does. -/
theorem hasRoom {q : Platform} (hroom : c.HasRoom q) : part.HasRoom q :=
  fun t ht => hroom t (hpart.mem_targets_iff.1 ht).1

theorem mem_targetsFor_iff {q : Platform} {t : Target} :
    t ∈ part.targetsFor q ↔ t ∈ c.targetsFor q ∧ t.id ∈ ids := by
  rw [Sound.mem_targetsFor_iff, Sound.mem_targetsFor_iff, hpart.mem_targets_iff, and_right_comm]

theorem mem_targetIds {q : Platform} {id : String} (hid : id ∈ ids)
    (h : id ∈ (c.targetsFor q).map Target.id) : id ∈ (part.targetsFor q).map Target.id := by
  obtain ⟨t, ht, rfl⟩ := List.mem_map.1 h
  exact List.mem_map_of_mem (hpart.mem_targetsFor_iff.2 ⟨ht, hid⟩)

theorem mem_ids_of_mem_rulesFor {q : Platform} {r : Rule} (hr : r ∈ part.rulesFor q) :
    r.source ∈ ids ∧ r.dest ∈ ids := by
  obtain ⟨hr, -⟩ := List.mem_filter.1 hr
  rw [hpart.rules, List.mem_filter, decide_eq_true_eq] at hr
  exact hr.2

variable (h : c.Sound)
include h

theorem nodup : (part.targets.map Target.id).Nodup :=
  (hpart.targets.map Target.id).nodup_iff.2 (h.nodup.sublist (List.filter_sublist.map _))

/-- A target of the part is the one that the catalog has. -/
theorem target?_eq {id : String} (hid : id ∈ ids) : part.target? id = c.target? id := by
  refine Option.ext fun t => ?_
  rw [target?_eq_some_iff (hpart.nodup h), target?_eq_some_iff h.nodup, hpart.mem_targets_iff]
  constructor
  · exact fun ⟨⟨ht, _⟩, heq⟩ => ⟨ht, heq⟩
  · exact fun ⟨ht, heq⟩ => ⟨⟨ht, heq ▸ hid⟩, heq⟩

theorem hasVariant_eq {id : String} (hid : id ∈ ids) (q : Platform) :
    part.hasVariant id q = c.hasVariant id q := by
  unfold hasVariant variant?
  rw [hpart.target?_eq h hid]

/-- The rules of the part on any platform are those of the catalog between its ids. -/
theorem rulesFor_eq (q : Platform) :
    part.rulesFor q = (c.rulesFor q).filter fun r => r.source ∈ ids ∧ r.dest ∈ ids := by
  unfold rulesFor
  rw [hpart.rules, List.filter_filter, List.filter_filter]
  refine List.filter_congr fun r _ => ?_
  by_cases hr : r.source ∈ ids ∧ r.dest ∈ ids
  · rw [hpart.hasVariant_eq h hr.1, hpart.hasVariant_eq h hr.2, Bool.and_comm]
  · rw [decide_eq_false hr, Bool.and_false, Bool.false_and]

/-- **On the platform nothing is missing among the rules at the ids.** -/
theorem filter_rulesFor_eq {q : Rule → Bool}
    (hq : ∀ r ∈ c.rulesFor p, q r = true → r.source ∈ ids ∨ r.dest ∈ ids) :
    (part.rulesFor p).filter q = (c.rulesFor p).filter q := by
  rw [hpart.rulesFor_eq h, List.filter_filter]
  refine List.filter_congr fun r hr => ?_
  cases hqr : q r with
  | false => exact Bool.false_and _
  | true =>
    obtain ⟨hmem, hplatform⟩ := h.mem_rulesFor_iff.1 hr
    have hboth := hpart.closed r hmem hplatform
    have hends := hq r hr hqr
    rw [Bool.true_and, decide_eq_true_eq]
    tauto

/-- **The part is sound.** The order of derivation of the catalog, with the other targets left out,
puts its targets behind their sources. -/
theorem sound : part.Sound where
  nodup := hpart.nodup h
  variants t ht := h.variants t (hpart.mem_targets_iff.1 ht).1
  rules r hr := by
    rw [hpart.rules, List.mem_filter, decide_eq_true_eq] at hr
    obtain ⟨hr, hsource, hdest⟩ := hr
    rw [hpart.hasVariant_eq h hsource, hpart.hasVariant_eq h hdest]
    exact h.rules r hr
  order q := by
    obtain ⟨order, -, hperm, hordered⟩ := h.exists_order q
    have htargets : (order.filter fun t => t.id ∈ ids).Perm (part.targetsFor q) := by
      have hfilter := hpart.targets.filter fun t => t.variants.has q
      rw [List.filter_comm] at hfilter
      exact (hperm.filter _).trans hfilter.symm
    have hrules : ∀ r ∈ part.rulesFor q, r ∈ c.rulesFor q := by
      intro r hr
      rw [hpart.rulesFor_eq h] at hr
      exact (List.mem_filter.1 hr).1
    exact exists_place q htargets ((hordered.sublist List.filter_sublist).of_subset hrules)
      fun r hr _ => .inr (Sound.mem_ids_of_mem_rulesFor hr).1

end Part
end Catalog

namespace Resolution

section Part

variable {s : Survey} {c part : Catalog} {ids : List String} {fs gs : Findings}
  (hpart : Catalog.Part c part s.slice.platform ids) (hc : c.Sound)
  (h : Solves s (c.rulesFor s.slice.platform) (c.targetsFor s.slice.platform) fs)
  (h' : Solves s (part.rulesFor s.slice.platform) (part.targetsFor s.slice.platform) gs)
include hpart hc h h'

/-- **The same becomes known of the targets of the part.** -/
theorem get?_eq_of_part {id : String} (hid : id ∈ ids) : gs.get? id = fs.get? id := by
  by_cases hmem : id ∈ (part.targetsFor s.slice.platform).map Target.id
  · obtain ⟨t, ht, rfl⟩ := List.mem_map.1 hmem
    refine (hpart.sound hc).induction s.slice.platform
      (P := fun id => gs.get? id = fs.get? id) (fun t ht ih => ?_) t ht
    obtain ⟨ht', hid⟩ := hpart.mem_targetsFor_iff.1 ht
    obtain ⟨v, scanner, -, -, hget, hget'⟩ := h.exists_search h' ht' ht
    have hrules : rulesTo (part.rulesFor s.slice.platform) t.id =
        rulesTo (c.rulesFor s.slice.platform) t.id := by
      refine hpart.filter_rulesFor_eq hc fun r _ hdest => .inr ?_
      rwa [beq_iff_eq.1 hdest]
    rw [hget, hget', candidates_congr ih, candidates_eq_of_rulesTo_eq hrules]
  · rw [h.get?_eq_none (mt (hpart.mem_targetIds hid) hmem), h'.get?_eq_none hmem]

theorem violation?_eq_of_part {r : Rule} (hsource : r.source ∈ ids) (hdest : r.dest ∈ ids) :
    gs.violation? r = fs.violation? r := by
  unfold Findings.violation? Findings.found?
  rw [get?_eq_of_part hpart hc h h' hsource, get?_eq_of_part hpart hc h h' hdest]

/-- **The rules at a target of the part are violated in the same ways.** -/
theorem breaches_eq_of_part {id : String} (hid : id ∈ ids) :
    gs.breaches (part.rulesFor s.slice.platform) id =
      fs.breaches (c.rulesFor s.slice.platform) id := by
  have hrules : ((part.rulesFor s.slice.platform).filter fun r => r.touches id) =
      (c.rulesFor s.slice.platform).filter fun r => r.touches id := by
    refine hpart.filter_rulesFor_eq hc fun r _ htouches => ?_
    rcases Rule.touches_iff.1 htouches with rfl | rfl
    · exact .inl hid
    · exact .inr hid
  unfold Findings.breaches
  rw [← hrules]
  refine List.filterMap_congr fun r hr => ?_
  obtain ⟨hsource, hdest⟩ := hpart.mem_ids_of_mem_rulesFor (List.mem_filter.1 hr).1
  exact violation?_eq_of_part hpart hc h h' hsource hdest

/-- **The same targets of the part are lost**: a chain of sources that starts in it never leaves
it. -/
theorem lost_iff_of_part {t : Target} (ht : t ∈ part.targetsFor s.slice.platform) :
    gs.Lost (part.rulesFor s.slice.platform) t.id ↔
      fs.Lost (c.rulesFor s.slice.platform) t.id := by
  refine (hpart.sound hc).induction s.slice.platform (P := fun id =>
    gs.Lost (part.rulesFor s.slice.platform) id ↔ fs.Lost (c.rulesFor s.slice.platform) id)
    (fun t ht ih => ?_) t ht
  have hid := (hpart.mem_targetsFor_iff.1 ht).2
  have hget := get?_eq_of_part hpart hc h h' hid
  rw [Findings.lost_iff_breaches_or, @Findings.lost_iff_breaches_or fs,
    breaches_eq_of_part hpart hc h h' hid, Findings.found?, Findings.found?, hget]
  refine or_congr Iff.rfl (exists_congr fun found => exists_congr fun source => ?_)
  refine and_congr_right fun hfound => and_congr_right fun hsource => ?_
  rw [← hget] at hfound
  obtain ⟨r, hr, hdest, rfl, -⟩ := h'.exists_rule hfound hsource
  exact ih r hr hdest

end Part

/-- **The two reports have the same entries for the targets of the part.** -/
theorem Resolved.get?_part {s : Survey} {c part : Catalog} {fs gs : Findings}
    {r r' : Report} (h : Resolved s c fs r) (h' : Resolved s part gs r') {ids : List String}
    (hpart : Catalog.Part c part s.slice.platform ids) {id : String} (hid : id ∈ ids) :
    r'.get? id = r.get? id := by
  by_cases hmem : id ∈ (part.targetsFor s.slice.platform).map Target.id
  · obtain ⟨t, ht, rfl⟩ := List.mem_map.1 hmem
    have hget := get?_eq_of_part hpart h.sound h.solves h'.solves hid
    have hbreaches := breaches_eq_of_part hpart h.sound h.solves h'.solves hid
    have hlost := lost_iff_of_part hpart h.sound h.solves h'.solves ht
    rw [h.get?_eq, h'.get?_eq, Findings.get?_crossCheck_congr h.rules_ne h.solves.rooted h'.rules_ne
      h'.solves.rooted hget hbreaches hlost]
  · rw [h.get?_eq_none (mt (hpart.mem_targetIds hid) hmem), h'.get?_eq_none hmem]

/-- The five targets in two components. The rule between the second and the third puts the third
where it is not. -/
def islands : Catalog :=
  { fork with
    rules := [
      { platform := .linux, source := "A", dest := "D", delta := 3 },
      { platform := .linux, source := "B", dest := "C", delta := 5 },
      { platform := .linux, source := "C", dest := "E", delta := 2 }] }

/-- One of the components, turned round. -/
def island : Catalog where
  version := islands.version
  targets := islands.targets.reverse.filter fun t => t.id ∈ ["B", "C", "E"]
  rules := islands.rules.filter fun r => r.source ∈ ["B", "C", "E"] ∧ r.dest ∈ ["B", "C", "E"]

end Resolution
end BinaryPatch
