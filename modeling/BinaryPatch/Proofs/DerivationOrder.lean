/-
# The order of derivation among all orders

An order of derivation is built one target at a time (`Placing.Step`): of the targets still pending,
the first whose sources have all been placed comes next. Every step leaves one target less, so the
loop stops whatever the rules are (`Placing.wellFounded_step`), and the order is what it has placed
by then (`Placing.exists_run`).

| about the order | what it rests on |
| --- | --- |
| there is one unless rules run in a circle | of some targets one has none of them as a source (`Acyclic.exists_first`) |
| there is none where rules run in a circle | in an order no target leads back to itself (`Ordered.acyclic`) |
| no other order comes before it | what another order goes on with is ready, and the loop takes the first that is (`lex_of_place`) |

`derivationOrder_stable` says all of this of the targets and rules of a platform.
-/

import BinaryPatch.Proofs.Rounds
import Mathlib.Data.Fintype.Card
import Mathlib.Data.Fintype.EquivFin
import Mathlib.Data.Fintype.Sets
import Mathlib.Order.WellFounded

namespace BinaryPatch
namespace Catalog

/-! ## Circles of rules -/

/-- A rule leads from one target to the other. -/
def Leads (rules : List Rule) (source dest : String) : Prop :=
  ∃ r ∈ rules, r.source = source ∧ r.dest = dest

/-- No rules run in a circle. -/
def Acyclic (rules : List Rule) : Prop := ∀ id, ¬ Relation.TransGen (Leads rules) id id

/-- **Of some targets one has none of them as a source**, where no rules run in a circle. -/
theorem Acyclic.exists_first {rules : List Rule} (h : Acyclic rules) {ids : List String}
    (hne : ids ≠ []) : ∃ id ∈ ids, ∀ r ∈ rules, r.dest = id → r.source ∉ ids := by
  let Before (a b : { id // id ∈ ids }) : Prop := Relation.TransGen (Leads rules) a b
  have : IsTrans { id // id ∈ ids } Before := ⟨fun _ _ _ => Relation.TransGen.trans⟩
  have : Std.Irrefl Before := ⟨fun a => h a⟩
  -- the targets are finitely many, so one of them comes before all that lead to it
  obtain ⟨first, -, hfirst⟩ := (Finite.wellFounded_of_trans_of_irrefl Before).has_min Set.univ
    ⟨⟨ids.head hne, List.head_mem hne⟩, trivial⟩
  refine ⟨first, first.2, fun r hr hdest hmem => ?_⟩
  exact hfirst ⟨r.source, hmem⟩ trivial (.single ⟨r, hr, rfl, hdest⟩)

/-- **In an order no target leads back to itself.** -/
theorem Ordered.acyclic {rules : List Rule} {ts : List Target} (h : Ordered rules ts)
    (hends : ∀ r ∈ rules, r.source ∈ ts.map Target.id ∧ r.dest ∈ ts.map Target.id) :
    Acyclic rules := by
  have hacc : ∀ t ∈ ts, Acc (Leads rules) t.id :=
    h.induction (fun r hr _ hsource => absurd (hends r hr).1 hsource) fun t _ hsources =>
      Acc.intro t.id fun _ ⟨r, hr, hsource, hdest⟩ => hsource ▸ hsources r hr hdest
  intro id hcircle
  obtain ⟨_, -, r, hr, -, hdest⟩ := Relation.TransGen.tail'_iff.1 hcircle
  obtain ⟨t, ht, hid⟩ := List.mem_map.1 (hends r hr).2
  have hroot : Acc (Relation.TransGen (Leads rules)) id := (hdest ▸ hid ▸ hacc t ht).transGen
  clear hid hdest
  induction hroot with
  | intro id _ ih => exact ih id hcircle hcircle

/-! ## Sources before destinations -/

/-- The source of every rule stands before its destination. -/
def SourcesFirst (rules : List Rule) (order : List Target) : Prop :=
  ∀ r ∈ rules, [r.source, r.dest].Sublist (order.map Target.id)

theorem Ordered.sourcesFirst {rules : List Rule} {ts : List Target} (h : Ordered rules ts)
    (hends : ∀ r ∈ rules, r.source ∈ ts.map Target.id ∧ r.dest ∈ ts.map Target.id) :
    SourcesFirst rules ts := by
  intro r hr
  obtain ⟨hsource, hdest⟩ := hends r hr
  clear hends
  induction ts with
  | nil => cases hsource
  | cons t rest ih =>
    rw [List.map_cons] at hsource hdest ⊢
    rcases List.mem_cons.1 hdest with hfirst | hdest
    · exact absurd hsource (h.1 r hr hfirst)
    · rcases List.mem_cons.1 hsource with hfirst | hsource
      · rw [hfirst]
        exact (List.singleton_sublist.2 hdest).cons_cons t.id
      · exact (ih h.2 hsource hdest).cons t.id

/-- Where every target comes once, an order that puts sources first puts no target before a source
of its own. -/
theorem ordered_of_sublist {rules : List Rule} {ts : List Target}
    (hnodup : (ts.map Target.id).Nodup)
    (h : ∀ r ∈ rules, r.source ∈ ts.map Target.id → r.dest ∈ ts.map Target.id →
      [r.source, r.dest].Sublist (ts.map Target.id)) : Ordered rules ts := by
  induction ts with
  | nil => exact trivial
  | cons t rest ih =>
    rw [List.map_cons] at hnodup h
    obtain ⟨ht, hrest⟩ := List.nodup_cons.1 hnodup
    refine ⟨fun r hr hdest hsource => ?_, ih hrest fun r hr hsource hdest => ?_⟩
    · -- behind the source there would be a second place for the target
      have hsub := h r hr hsource (hdest ▸ List.mem_cons_self)
      rw [hdest] at hsub
      generalize r.source = source at hsub
      cases hsub with
      | cons _ hsub => exact ht (hsub.subset (List.mem_cons_of_mem _ List.mem_cons_self))
      | cons_cons _ hsub => exact ht (hsub.subset List.mem_cons_self)
    · have hsub := h r hr (List.mem_cons_of_mem _ hsource) (List.mem_cons_of_mem _ hdest)
      generalize r.source = source at hsub hsource ⊢
      cases hsub with
      | cons _ hsub => exact hsub
      | cons_cons _ _ => exact absurd hsource ht

/-! ## The loop -/

/-- A state of the loop: the targets placed so far, in their order, and those still pending. -/
structure Placing where
  placed : List Target
  pending : List Target

namespace Placing

/-- The first pending target that is ready is placed behind the others. -/
inductive Step (rules : List Rule) : Placing → Placing → Prop
  | place {placed before after : List Target} {t : Target} :
      (∀ u ∈ before, ready rules (placed.map Target.id) u = false) →
        ready rules (placed.map Target.id) t = true →
          Step rules ⟨placed, before ++ t :: after⟩ ⟨placed ++ [t], before ++ after⟩

/-- What the loop answers where it stops. -/
def outcome (platform : Platform) (s : Placing) : Except CatalogFault (List Target) :=
  if s.pending.isEmpty then .ok s.placed else .error (.cycle platform (s.pending.map Target.id))

/-- **The loop stops**, as every step leaves one pending target less. -/
theorem wellFounded_step (rules : List Rule) :
    WellFounded fun after before => Step rules before after := by
  refine Subrelation.wf ?_ (measure fun s : Placing => s.pending.length).wf
  rintro _ _ ⟨-, -⟩
  change List.length _ < List.length _
  simp only [List.length_append, List.length_cons]
  omega

/-- Whether a target is ready depends on which targets have been placed alone. -/
theorem ready_congr {rules : List Rule} {placed placed' : List String}
    (h : ∀ id, id ∈ placed ↔ id ∈ placed') (t : Target) :
    ready rules placed t = ready rules placed' t := by
  rw [Bool.eq_iff_iff, ready_iff, ready_iff]
  simp only [h]

/-- **The loop goes on as long as a step is possible, and the order is what it has placed then.** -/
theorem exists_run (platform : Platform) (rules : List Rule) {placed : List String}
    {pending done : List Target} (hplaced : ∀ id, id ∈ placed ↔ id ∈ done.map Target.id) :
    ∃ stop, Relation.ReflTransGen (Step rules) ⟨done, pending⟩ stop ∧
      (∀ next, ¬ Step rules stop next) ∧
      (place platform rules placed pending).map (done ++ ·) = stop.outcome platform := by
  fun_induction place platform rules placed pending generalizing done with
  | case1 placed pending hnil =>
    obtain rfl := List.isEmpty_iff.1 hnil
    refine ⟨⟨done, []⟩, .refl, fun next hstep => ?_, ?_⟩
    · generalize hs : (⟨done, []⟩ : Placing) = s at hstep
      cases hstep
      have := congrArg Placing.pending hs
      simp at this
    · simp [outcome, Except.map]
  | case2 placed pending hne hnone =>
    refine ⟨⟨done, pending⟩, .refl, fun next hstep => ?_, ?_⟩
    · cases hstep with
      | place _ hready =>
        obtain ⟨u, others, htake⟩ :=
          exists_takeReady (List.mem_append_right _ List.mem_cons_self)
            ((ready_congr hplaced _).trans hready)
        rw [hnone] at htake
        cases htake
    · rw [outcome, if_neg hne]
      rfl
  | case3 placed pending hne t others htake ih =>
    obtain ⟨before, after, rfl, rfl, hready, hbefore⟩ := split_of_takeReady htake
    have hplaced' : ∀ id, id ∈ t.id :: placed ↔ id ∈ (done ++ [t]).map Target.id := by
      intro id
      rw [List.map_append, List.mem_append, List.mem_cons, hplaced id, or_comm]
      simp
    obtain ⟨stop, hrun, hlast, houtcome⟩ := ih hplaced'
    have hstep : Step rules ⟨done, before ++ t :: after⟩ ⟨done ++ [t], before ++ after⟩ :=
      .place (fun u hu => (ready_congr hplaced u).symm.trans (hbefore u hu))
        ((ready_congr hplaced t).symm.trans hready)
    refine ⟨stop, .head hstep hrun, hlast, ?_⟩
    rw [← houtcome]
    cases place platform rules (t.id :: placed) (before ++ after) with
    | error fault => rfl
    | ok rest => simp [Except.map]

end Placing

/-! ## Other orders -/

/-- Where a target stands in the catalog. -/
def position (c : Catalog) (t : Target) : Nat := (c.targets.map Target.id).idxOf t.id

/-- With ids of their own, targets of a platform are listed as they stand in the catalog. -/
theorem pairwise_position {c : Catalog} (hnodup : (c.targets.map Target.id).Nodup) (p : Platform) :
    (c.targetsFor p).Pairwise fun t u => c.position t < c.position u := by
  refine List.Pairwise.sublist List.filter_sublist (List.pairwise_iff_getElem.2 ?_)
  intro i j hi hj hlt
  have hidx : ∀ k (hk : k < c.targets.length), c.position c.targets[k] = k := by
    intro k hk
    have := hnodup.idxOf_getElem k (by rwa [List.length_map])
    rwa [List.getElem_map] at this
  rwa [hidx, hidx]

section OtherOrders

variable {rules : List Rule} {placed : List String} {pending others : List Target} {t : Target}
  {position : Target → Nat}

/-- What another order goes on with is ready, as no source of its own is pending. -/
theorem ready_of_perm_cons {u : Target} {tail : List Target}
    (hsources : ∀ r ∈ rules, r.dest ∈ pending.map Target.id →
      r.source ∈ placed ∨ r.source ∈ pending.map Target.id)
    (hperm : (u :: tail).Perm pending) (hordered : Ordered rules (u :: tail)) :
    ready rules placed u = true := by
  have hids := hperm.map Target.id
  refine ready_iff.2 fun r hr hdest => (hsources r hr ?_).resolve_right fun hmem => ?_
  · exact hdest ▸ hids.mem_iff.1 List.mem_cons_self
  · exact hordered.1 r hr hdest (hids.mem_iff.2 hmem)

theorem sublist_of_takeReady (h : takeReady rules placed pending = some (t, others)) :
    others.Sublist pending := by
  obtain ⟨before, after, rfl, rfl, -⟩ := split_of_takeReady h
  exact (List.sublist_cons_self t after).append_left before

/-- **The loop takes the first target that is ready.** -/
theorem eq_or_lt_of_takeReady (h : takeReady rules placed pending = some (t, others))
    (hposition : pending.Pairwise fun t u => position t < position u) {u : Target}
    (hu : u ∈ pending) (hready : ready rules placed u = true) :
    u = t ∨ position t < position u := by
  obtain ⟨before, after, rfl, -, -, hbefore⟩ := split_of_takeReady h
  rcases List.mem_append.1 hu with hu | hu
  · rw [hbefore u hu] at hready
    cases hready
  · exact (List.mem_cons.1 hu).imp_right
      (List.rel_of_pairwise_cons (List.pairwise_append.1 hposition).2.1)

/-- **Any other order comes later.** Where two orders part, the other goes on with a target that is
ready too, and the loop has taken the first of those. -/
theorem lex_of_place {platform : Platform} {order other : List Target}
    (h : place platform rules placed pending = .ok order)
    (hposition : pending.Pairwise fun t u => position t < position u)
    (hsources : ∀ r ∈ rules, r.dest ∈ pending.map Target.id →
      r.source ∈ placed ∨ r.source ∈ pending.map Target.id)
    (hperm : other.Perm pending) (hordered : Ordered rules other) (hne : other ≠ order) :
    List.Lex (· < ·) (order.map position) (other.map position) := by
  fun_induction place platform rules placed pending generalizing order other with
  | case1 placed pending hnil =>
    cases h
    obtain rfl := List.isEmpty_iff.1 hnil
    exact absurd hperm.eq_nil hne
  | case2 placed pending _ hnone => cases h
  | case3 placed pending hnil t others htake ih =>
    obtain ⟨rest, hplace, rfl⟩ := exists_of_map_eq_ok h
    cases other with
    | nil => exact absurd (List.isEmpty_iff.2 hperm.nil_eq.symm) hnil
    | cons u tail =>
      have hready := ready_of_perm_cons hsources hperm hordered
      have hfirst :=
        eq_or_lt_of_takeReady htake hposition (hperm.mem_iff.1 List.mem_cons_self) hready
      rw [List.map_cons, List.map_cons]
      rcases hfirst with rfl | hlater
      · have htail : tail.Perm others := (hperm.trans (of_takeReady htake).2.symm).cons_inv
        exact .cons (ih hplace (hposition.sublist (sublist_of_takeReady htake))
          (sources_of_takeReady htake hsources) htail hordered.2 fun heq => hne (heq ▸ rfl))
      · exact .rel hlater

end OtherOrders

/-! ## The order of a platform -/

/-- The targets of a platform, each once, and every source before its destination. -/
structure Arranges (c : Catalog) (p : Platform) (order : List Target) : Prop where
  perm : order.Perm (c.targetsFor p)
  sourcesFirst : SourcesFirst (c.rulesFor p) order

section Platform

variable {c : Catalog} {p : Platform} {order other : List Target}

theorem mem_ids_of_perm (hperm : order.Perm (c.targetsFor p)) :
    ∀ r ∈ c.rulesFor p, r.source ∈ order.map Target.id ∧ r.dest ∈ order.map Target.id := by
  intro r hr
  rw [(hperm.map Target.id).mem_iff, (hperm.map Target.id).mem_iff]
  exact Sound.mem_ids_of_mem_rulesFor hr

/-- No source of a rule is missing among the targets of the platform. -/
theorem source_placed_or_pending : ∀ r ∈ c.rulesFor p, r.dest ∈ (c.targetsFor p).map Target.id →
    r.source ∈ ([] : List String) ∨ r.source ∈ (c.targetsFor p).map Target.id :=
  fun _ hr _ => .inr (Sound.mem_ids_of_mem_rulesFor hr).1

/-- **Without a circle of rules there is an order.** -/
theorem exists_derivationOrder (h : Acyclic (c.rulesFor p)) :
    ∃ order, c.derivationOrder p = .ok order := by
  refine exists_place_of_free p (fun ts _ hne => ?_) source_placed_or_pending
  have hids : ts.map Target.id ≠ [] := by simpa using hne
  obtain ⟨id, hid, hfirst⟩ := h.exists_first hids
  obtain ⟨t, ht, rfl⟩ := List.mem_map.1 hid
  exact ⟨t, ht, hfirst⟩

/-- The order is what the loop has placed when it stops, and the circle is what is pending then. -/
theorem exists_run_derivationOrder (c : Catalog) (p : Platform) :
    ∃ stop, Relation.ReflTransGen (Placing.Step (c.rulesFor p)) ⟨[], c.targetsFor p⟩ stop ∧
      (∀ next, ¬ Placing.Step (c.rulesFor p) stop next) ∧
      c.derivationOrder p = stop.outcome p := by
  have hplaced : ∀ id, id ∈ ([] : List String) ↔ id ∈ ([] : List Target).map Target.id := by simp
  obtain ⟨stop, hrun, hlast, houtcome⟩ := Placing.exists_run p (c.rulesFor p) hplaced
  refine ⟨stop, hrun, hlast, ?_⟩
  rw [← houtcome, derivationOrder]
  cases place p (c.rulesFor p) [] (c.targetsFor p) <;> rfl

variable (hnodup : (c.targets.map Target.id).Nodup)
include hnodup

theorem nodup_ids_of_perm (hperm : order.Perm (c.targetsFor p)) :
    (order.map Target.id).Nodup :=
  (hperm.map Target.id).nodup_iff.2 (hnodup.sublist (List.filter_sublist.map _))

theorem ordered_of_derivationOrder (h : c.derivationOrder p = .ok order) :
    Ordered (c.rulesFor p) order :=
  ordered_of_place h (nodup_ids_of_perm hnodup (List.Perm.refl _)) fun _ _ => List.not_mem_nil

/-- **The order puts every source before its destination.** -/
theorem arranges_of_derivationOrder (h : c.derivationOrder p = .ok order) :
    c.Arranges p order where
  perm := perm_of_place h
  sourcesFirst :=
    (ordered_of_derivationOrder hnodup h).sourcesFirst (mem_ids_of_perm (perm_of_place h))

/-- **Any other order comes after the one that is built.** -/
theorem Arranges.lex (h : c.derivationOrder p = .ok order) (hother : c.Arranges p other)
    (hne : other ≠ order) :
    List.Lex (· < ·) (order.map c.position) (other.map c.position) :=
  lex_of_place h (pairwise_position hnodup p) source_placed_or_pending hother.perm
    (ordered_of_sublist (nodup_ids_of_perm hnodup hother.perm)
      fun r hr _ _ => hother.sourcesFirst r hr) hne

end Platform

/-- **The order of derivation is a stable topological sort.** The loop that builds it stops, whatever
the rules are. It builds an order exactly when the rules of the platform do not run in a circle; this
order holds the targets of the platform, every source before its destination; and any other that does
comes later, by the places of the targets in the catalog. -/
theorem derivationOrder_stable {c : Catalog} (hnodup : (c.targets.map Target.id).Nodup)
    (p : Platform) :
    (∀ rules, WellFounded fun after before => Placing.Step rules before after) ∧
      (∃ stop, Relation.ReflTransGen (Placing.Step (c.rulesFor p)) ⟨[], c.targetsFor p⟩ stop ∧
        (∀ next, ¬ Placing.Step (c.rulesFor p) stop next) ∧
        c.derivationOrder p = stop.outcome p) ∧
      ((∃ order, c.derivationOrder p = .ok order) ↔ Acyclic (c.rulesFor p)) ∧
      ∀ order, c.derivationOrder p = .ok order →
        c.Arranges p order ∧ ∀ other, c.Arranges p other → other ≠ order →
          List.Lex (· < ·) (order.map c.position) (other.map c.position) := by
  refine ⟨Placing.wellFounded_step, exists_run_derivationOrder c p,
    ⟨?_, exists_derivationOrder⟩, fun order h => ?_⟩
  · rintro ⟨order, h⟩
    exact (ordered_of_derivationOrder hnodup h).acyclic (mem_ids_of_perm (perm_of_place h))
  · exact ⟨arranges_of_derivationOrder hnodup h, fun other => Arranges.lex hnodup h⟩

/-- In the catalog with a fork the first target has to wait for the third, and no other, by
`derivationOrder_stable`. -/
theorem derivationOrder_fork_stable :
    (Resolution.fork.targets.map Target.id).Nodup ∧
      ∃ order, Resolution.fork.derivationOrder .linux = .ok order ∧
        order.map Target.id = ["B", "C", "A", "D", "E"] ∧
          Acyclic (Resolution.fork.rulesFor .linux) ∧
            ∀ other, Resolution.fork.Arranges .linux other → other ≠ order →
              List.Lex (· < ·) [1, 2, 0, 3, 4] (other.map Resolution.fork.position) := by
  have hnodup : (Resolution.fork.targets.map Target.id).Nodup := by decide
  obtain ⟨-, -, hexists, hfirst⟩ := derivationOrder_stable hnodup .linux
  obtain ⟨order, horder, hids⟩ := Resolution.exists_ok_of_toOption_map
    (show (Resolution.fork.derivationOrder .linux).toOption.map (fun order =>
      (order.map Target.id, order.map Resolution.fork.position)) =
        some (["B", "C", "A", "D", "E"], [1, 2, 0, 3, 4]) by decide +kernel)
  obtain ⟨hnames, hpositions⟩ := Prod.mk.inj hids
  refine ⟨hnodup, order, horder, hnames, hexists.1 ⟨order, horder⟩, fun other hother hne => ?_⟩
  rw [← hpositions]
  exact (hfirst order horder).2 other hother hne

end Catalog
end BinaryPatch
