/-
# What a sound catalog promises

A catalog that is accepted has targets with distinct ids (`Catalog.Sound`): the target of an id is
the one that carries it, on every platform on which it has a variant. The signature of a variant
reads as a pattern that reaches at least to its anchor. Both ends of a rule exist on the platform
of the rule, and the targets of a platform have an order of derivation.

In this order every target comes once, and behind all targets from which it may be derived
(`Catalog.Ordered`).
-/

import BinaryPatch.Catalog.Validate
import BinaryPatch.Proofs.Outcome
import Mathlib.Data.List.Nodup
import Mathlib.Data.List.Perm.Basic

namespace BinaryPatch

theorem PerPlatform.mem_toList_iff {α : Type} {t : PerPlatform α} {p : Platform} {a : α} :
    (p, a) ∈ t.toList ↔ t.get? p = some a := by
  unfold PerPlatform.toList
  rw [List.mem_filterMap]
  constructor
  · rintro ⟨q, -, hq⟩
    obtain ⟨b, hb, heq⟩ := Option.map_eq_some_iff.1 hq
    cases heq
    exact hb
  · intro h
    exact ⟨p, by cases p <;> decide, by rw [h]; rfl⟩

/-! ## The order of derivation -/

namespace Catalog

/-- No target stands before one from which it may be derived, or is derived from itself. -/
def Ordered (rules : List Rule) : List Target → Prop
  | [] => True
  | t :: rest =>
    (∀ r ∈ rules, r.dest = t.id → r.source ∉ (t :: rest).map Target.id) ∧ Ordered rules rest

theorem ready_iff {rules : List Rule} {placed : List String} {t : Target} :
    ready rules placed t = true ↔ ∀ r ∈ rules, r.dest = t.id → r.source ∈ placed := by
  unfold ready
  rw [List.all_eq_true]
  refine forall₂_congr fun r _ => ?_
  rw [Bool.or_eq_true, bne_iff_ne, List.contains_iff_mem]
  exact ⟨fun h hd => h.resolve_left fun hne => hne hd, fun h => or_iff_not_imp_left.2 fun hd =>
    h (not_not.1 hd)⟩

/-- What is taken is ready, and nothing before it is. -/
theorem split_of_takeReady {rules : List Rule} {placed : List String} {pending : List Target}
    {t : Target} {others : List Target} (h : takeReady rules placed pending = some (t, others)) :
    ∃ before after, pending = before ++ t :: after ∧ others = before ++ after ∧
      ready rules placed t = true ∧ ∀ u ∈ before, ready rules placed u = false := by
  induction pending generalizing others with
  | nil => cases h
  | cons u rest ih =>
    unfold takeReady at h
    split at h
    · rename_i hready
      cases h
      exact ⟨[], rest, rfl, rfl, hready, fun v hv => absurd hv List.not_mem_nil⟩
    · rename_i hnot
      obtain ⟨⟨found, remaining⟩, hrest, heq⟩ := Option.map_eq_some_iff.1 h
      cases heq
      obtain ⟨before, after, rfl, rfl, hready, hbefore⟩ := ih hrest
      refine ⟨u :: before, after, rfl, rfl, hready, ?_⟩
      exact List.forall_mem_cons.2 ⟨Bool.eq_false_iff.2 hnot, hbefore⟩

/-- What is taken is ready, and nothing is lost. -/
theorem of_takeReady {rules : List Rule} {placed : List String} {pending : List Target}
    {t : Target} {others : List Target} (h : takeReady rules placed pending = some (t, others)) :
    ready rules placed t = true ∧ (t :: others).Perm pending := by
  obtain ⟨before, after, rfl, rfl, hready, -⟩ := split_of_takeReady h
  exact ⟨hready, List.perm_middle.symm⟩

/-- With a target placed, the sources of the others are still placed or pending. -/
theorem sources_of_takeReady {rules : List Rule} {placed : List String} {pending : List Target}
    {t : Target} {others : List Target} (h : takeReady rules placed pending = some (t, others))
    (hsources : ∀ r ∈ rules, r.dest ∈ pending.map Target.id →
      r.source ∈ placed ∨ r.source ∈ pending.map Target.id) :
    ∀ r ∈ rules, r.dest ∈ others.map Target.id →
      r.source ∈ t.id :: placed ∨ r.source ∈ others.map Target.id := by
  intro r hr hdest
  have hids := (of_takeReady h).2.map Target.id
  have hmem := hsources r hr (hids.mem_iff.1 (List.mem_cons_of_mem _ hdest))
  rw [← hids.mem_iff, List.map_cons, List.mem_cons] at hmem
  rw [List.mem_cons]
  tauto

/-- Where a pending target is ready, one is taken. -/
theorem exists_takeReady {rules : List Rule} {placed : List String} {pending : List Target}
    {t : Target} (ht : t ∈ pending) (hready : ready rules placed t = true) :
    ∃ u others, takeReady rules placed pending = some (u, others) := by
  induction pending with
  | nil => cases ht
  | cons u rest ih =>
    by_cases hu : ready rules placed u = true
    · exact ⟨u, rest, by rw [takeReady, if_pos hu]⟩
    · have hrest : t ∈ rest := (List.mem_cons.1 ht).resolve_left fun heq => hu (heq ▸ hready)
      obtain ⟨v, others, htake⟩ := ih hrest
      exact ⟨v, u :: others, by rw [takeReady, if_neg hu, htake]; rfl⟩

/-- **The order holds every pending target once.** -/
theorem perm_of_place {platform : Platform} {rules : List Rule} {placed : List String}
    {pending order : List Target} (h : place platform rules placed pending = .ok order) :
    order.Perm pending := by
  fun_induction place platform rules placed pending generalizing order with
  | case1 placed pending hnil =>
    cases h
    rw [List.isEmpty_iff.1 hnil]
  | case2 placed pending hne hnone => cases h
  | case3 placed pending hne t others htake ih =>
    obtain ⟨rest, hrest, rfl⟩ := exists_of_map_eq_ok h
    exact ((ih hrest).cons t).trans (of_takeReady htake).2

/-- **The order puts every target behind its sources.** -/
theorem ordered_of_place {platform : Platform} {rules : List Rule} {placed : List String}
    {pending order : List Target} (h : place platform rules placed pending = .ok order)
    (hnodup : (pending.map Target.id).Nodup) (hplaced : ∀ t ∈ pending, t.id ∉ placed) :
    Ordered rules order := by
  fun_induction place platform rules placed pending generalizing order with
  | case1 placed pending hnil =>
    cases h
    exact trivial
  | case2 placed pending hne hnone => cases h
  | case3 placed pending hne t others htake ih =>
    obtain ⟨rest, hrest, rfl⟩ := exists_of_map_eq_ok h
    obtain ⟨hready, hperm⟩ := of_takeReady htake
    have hids := (hperm.map Target.id).nodup_iff.2 hnodup
    rw [List.map_cons, List.nodup_cons] at hids
    refine ⟨fun r hr hdest hmem => ?_, ih hrest hids.2 fun u hu => ?_⟩
    · -- the source has been placed, so it is not among those still pending
      have hsource := ready_iff.1 hready r hr hdest
      have hpending := (((perm_of_place hrest).cons t).trans hperm).map Target.id
      obtain ⟨u, hu, hid⟩ := List.mem_map.1 (hpending.mem_iff.1 hmem)
      exact hplaced u hu (hid ▸ hsource)
    · rw [List.mem_cons, not_or]
      refine ⟨fun heq => hids.1 (heq ▸ List.mem_map_of_mem hu), ?_⟩
      exact hplaced u (hperm.mem_iff.1 (List.mem_cons_of_mem t hu))

/-- **Induction along an order**: what passes from its sources to a target holds of all targets, if
it holds of the sources outside. -/
theorem Ordered.induction {rules : List Rule} {ts : List Target} {P : String → Prop}
    (h : Ordered rules ts)
    (outside : ∀ r ∈ rules, r.dest ∈ ts.map Target.id → r.source ∉ ts.map Target.id → P r.source)
    (step : ∀ t ∈ ts, (∀ r ∈ rules, r.dest = t.id → P r.source) → P t.id) :
    ∀ t ∈ ts, P t.id := by
  induction ts with
  | nil => exact fun t ht => absurd ht List.not_mem_nil
  | cons t rest ih =>
    have hfirst : P t.id := step t List.mem_cons_self fun r hr hdest =>
      outside r hr (hdest ▸ List.mem_cons_self) (h.1 r hr hdest)
    refine List.forall_mem_cons.2 ⟨hfirst, ih h.2 (fun r hr hdest hsource => ?_)
      fun u hu => step u (List.mem_cons_of_mem t hu)⟩
    by_cases hid : r.source = t.id
    · exact hid ▸ hfirst
    · refine outside r hr (List.mem_cons_of_mem _ hdest) fun hmem => ?_
      exact hsource ((List.mem_cons.1 hmem).resolve_left hid)

theorem Ordered.sublist {rules : List Rule} {ts us : List Target} (h : Ordered rules ts)
    (hsub : us.Sublist ts) : Ordered rules us := by
  induction hsub with
  | slnil => exact trivial
  | cons t _ ih => exact ih h.2
  | cons_cons t hsub ih =>
    refine ⟨fun r hr hdest hmem => h.1 r hr hdest ?_, ih h.2⟩
    exact ((hsub.cons_cons t).map Target.id).subset hmem

theorem Ordered.of_subset {rules rules' : List Rule} {ts : List Target} (h : Ordered rules ts)
    (hsub : ∀ r ∈ rules', r ∈ rules) : Ordered rules' ts := by
  induction ts with
  | nil => exact trivial
  | cons t rest ih => exact ⟨fun r hr => h.1 r (hsub r hr), ih h.2⟩

/-- Without rules any order will do. -/
theorem ordered_of_no_rules (ts : List Target) : Ordered [] ts := by
  induction ts with
  | nil => exact trivial
  | cons t rest ih => exact ⟨fun r hr => absurd hr List.not_mem_nil, ih⟩

/-- Of targets that stand in an order, the first has none of them as a source. -/
theorem Ordered.exists_free {rules : List Rule} {order ts : List Target}
    (h : Ordered rules order) (hsub : ∀ t ∈ ts, t ∈ order) (hne : ts ≠ []) :
    ∃ t ∈ ts, ∀ r ∈ rules, r.dest = t.id → r.source ∉ ts.map Target.id := by
  induction order with
  | nil => exact absurd (hsub _ (List.head_mem hne)) List.not_mem_nil
  | cons u rest ih =>
    by_cases hu : u ∈ ts
    · refine ⟨u, hu, fun r hr hdest hmem => h.1 r hr hdest ?_⟩
      obtain ⟨w, hw, hid⟩ := List.mem_map.1 hmem
      exact hid ▸ List.mem_map_of_mem (hsub w hw)
    · refine ih h.2 fun t ht => (List.mem_cons.1 (hsub t ht)).resolve_left ?_
      rintro rfl
      exact hu ht

/-- **Nothing gets stuck where of any pending targets one has none of them as a source.** The source
of a rule to a pending target is placed, or it is pending too. -/
theorem exists_place_of_free (platform : Platform) {rules : List Rule} {placed : List String}
    {pending : List Target}
    (hfree : ∀ ts : List Target, (∀ t ∈ ts, t ∈ pending) → ts ≠ [] →
      ∃ t ∈ ts, ∀ r ∈ rules, r.dest = t.id → r.source ∉ ts.map Target.id)
    (hsources : ∀ r ∈ rules, r.dest ∈ pending.map Target.id →
      r.source ∈ placed ∨ r.source ∈ pending.map Target.id) :
    ∃ out, place platform rules placed pending = .ok out := by
  fun_induction place platform rules placed pending with
  | case1 placed pending hnil => exact ⟨[], rfl⟩
  | case2 placed pending hne hnone =>
    -- one of the pending targets is ready, as none of its sources is pending
    obtain ⟨t, ht, hnot⟩ := hfree pending (fun _ => id) fun hnil => hne (List.isEmpty_iff.2 hnil)
    have hready : ready rules placed t = true := ready_iff.2 fun r hr hdest =>
      (hsources r hr (hdest ▸ List.mem_map_of_mem ht)).resolve_right (hnot r hr hdest)
    obtain ⟨u, others, htake⟩ := exists_takeReady ht hready
    rw [hnone] at htake
    cases htake
  | case3 placed pending hne t others htake ih =>
    obtain ⟨-, hothers⟩ := of_takeReady htake
    obtain ⟨rest, hplace⟩ := ih
      (fun ts hts => hfree ts fun u hu => hothers.mem_iff.1 (List.mem_cons_of_mem t (hts u hu)))
      (sources_of_takeReady htake hsources)
    exact ⟨t :: rest, by rw [hplace]; rfl⟩

/-- **Nothing gets stuck where some order puts every target behind its sources.** -/
theorem exists_place (platform : Platform) {rules : List Rule} {placed : List String}
    {pending order : List Target} (hperm : order.Perm pending) (hordered : Ordered rules order)
    (hsources : ∀ r ∈ rules, r.dest ∈ pending.map Target.id →
      r.source ∈ placed ∨ r.source ∈ pending.map Target.id) :
    ∃ out, place platform rules placed pending = .ok out :=
  exists_place_of_free platform
    (fun _ hts => hordered.exists_free fun u hu => hperm.mem_iff.2 (hts u hu)) hsources

end Catalog

/-! ## Soundness -/

/-- A payload that can be told apart from the bytes it replaces, or that has room for them. -/
def Payload.Sound (expected : List UInt8) : Payload → Prop
  | .bytes written => written ≠ [] ∧ written ≠ expected
  | .slot length => expected.length ≤ length.toNat

/-- A variant that can be told apart from what is written over it, and that can be looked for. -/
structure Variant.Sound (v : Variant) : Prop where
  expected_ne_nil : v.expected ≠ []
  payload : v.payload.Sound v.expected
  signature : ∀ s, v.signature = some s →
    ∃ p, Pattern.parse s.pattern = .ok p ∧ s.anchor.toNat ≤ p.length

/-- A catalog that is accepted. -/
structure Catalog.Sound (c : Catalog) : Prop where
  nodup : (c.targets.map Target.id).Nodup
  variants : ∀ t ∈ c.targets, ∀ p v, t.variants.get? p = some v → v.Sound
  rules : ∀ r ∈ c.rules, c.hasVariant r.source r.platform = true ∧
    c.hasVariant r.dest r.platform = true ∧ r.source ≠ r.dest
  order : ∀ p, ∃ order, c.derivationOrder p = .ok order

theorem Payload.sound_of_fault? {id : String} {p : Platform} {expected : List UInt8}
    {payload : Payload} (h : payload.fault? id p expected = none) : payload.Sound expected := by
  cases payload with
  | bytes written =>
    rw [Payload.fault?] at h
    split at h
    · cases h
    · rename_i hne
      split at h
      · cases h
      · rename_i hdiff
        exact ⟨fun hnil => hne (List.isEmpty_iff.2 hnil), hdiff⟩
  | slot length =>
    rw [Payload.fault?] at h
    split at h
    · cases h
    · rename_i hlen
      exact Nat.le_of_not_lt hlen

/-- A signature that can be looked for reads as a pattern that reaches to the anchor. -/
theorem Signature.exists_parse_of_fault? {id : String} {p : Platform} {s : Signature}
    (h : s.fault? id p = none) :
    ∃ q, Pattern.parse s.pattern = .ok q ∧ s.anchor.toNat ≤ q.length := by
  unfold Signature.fault? at h
  split at h
  · cases h
  · rename_i q hq
    split at h
    · cases h
    · rename_i hanchor
      exact ⟨q, hq, Nat.le_of_not_lt hanchor⟩

theorem Variant.sound_of_fault? {id : String} {p : Platform} {v : Variant}
    (h : v.fault? id p = none) : v.Sound := by
  unfold Variant.fault? at h
  split at h
  · cases h
  · rename_i hexp
    obtain ⟨hpayload, hsignature⟩ := Option.or_eq_none_iff.1 h
    refine ⟨fun hnil => hexp (List.isEmpty_iff.2 hnil),
      Payload.sound_of_fault? (Option.map_eq_none_iff.1 hpayload), fun s hs => ?_⟩
    rw [hs, Option.bind_some] at hsignature
    exact Signature.exists_parse_of_fault? hsignature

namespace Catalog

/-- Targets without a fault have ids of their own and sound variants. -/
theorem of_targetFault? {seen : List String} {ts : List Target}
    (h : targetFault? seen ts = none) :
    (ts.map Target.id).Nodup ∧ (∀ t ∈ ts, t.id ∉ seen) ∧
      ∀ t ∈ ts, ∀ p v, t.variants.get? p = some v → v.Sound := by
  induction ts generalizing seen with
  | nil => simp
  | cons t rest ih =>
    unfold targetFault? at h
    split at h
    · cases h
    · rename_i hseen
      obtain ⟨hfault, hrest⟩ := Option.or_eq_none_iff.1 h
      obtain ⟨hnodup, hfresh, hsound⟩ := ih hrest
      refine ⟨?_, ?_, ?_⟩
      · rw [List.map_cons, List.nodup_cons]
        refine ⟨fun hmem => ?_, hnodup⟩
        obtain ⟨u, hu, hid⟩ := List.mem_map.1 hmem
        exact hfresh u hu (hid ▸ List.mem_cons_self)
      · intro u hu
        rcases List.mem_cons.1 hu with rfl | hu
        · simpa using hseen
        · exact fun hmem => hfresh u hu (List.mem_cons_of_mem _ hmem)
      · intro u hu p v hv
        rcases List.mem_cons.1 hu with rfl | hu
        · unfold Target.fault? at hfault
          split at hfault
          · cases hfault
          · rw [List.findSome?_eq_none_iff] at hfault
            exact Variant.sound_of_fault? (hfault (p, v) (PerPlatform.mem_toList_iff.2 hv))
        · exact hsound u hu p v hv

theorem of_ruleFault? {c : Catalog} {r : Rule} (h : c.ruleFault? r = none) :
    c.hasVariant r.source r.platform = true ∧ c.hasVariant r.dest r.platform = true ∧
      r.source ≠ r.dest := by
  unfold ruleFault? at h
  split at h
  · cases h
  · rename_i hsource
    split at h
    · cases h
    · rename_i hdest
      split at h
      · cases h
      · rename_i hne
        exact ⟨by simpa using hsource, by simpa using hdest, hne⟩

/-- An order of derivation exists where no circle was found, and where there are no rules. -/
theorem exists_order_of_cycleFault? {c : Catalog} {p : Platform} (h : c.cycleFault? p = none) :
    ∃ order, c.derivationOrder p = .ok order := by
  unfold cycleFault? at h
  split at h
  · split at h
    · cases h
    · rename_i order horder
      exact ⟨order, horder⟩
  · rename_i hany
    have hnil : c.rulesFor p = [] := by
      refine List.filter_eq_nil_iff.2 fun r hr hrule => hany ?_
      simp only [Bool.and_eq_true] at hrule
      exact List.any_eq_true.2 ⟨r, hr, hrule.1.1⟩
    unfold derivationOrder
    rw [hnil]
    exact exists_place p (List.Perm.refl _) (ordered_of_no_rules _) fun r hr =>
      absurd hr List.not_mem_nil

theorem validate_eq_ok_iff {c : Catalog} : c.validate = .ok () ↔ c.fault? = none := by
  unfold validate
  cases c.fault? with
  | none => exact iff_of_true rfl rfl
  | some fault => exact iff_of_false (fun h => by cases h) fun h => by cases h

/-- **A catalog that is accepted is sound.** -/
theorem sound_of_validate {c : Catalog} (h : c.validate = .ok ()) : c.Sound := by
  have hnone := validate_eq_ok_iff.1 h
  unfold fault? at hnone
  split at hnone
  · cases hnone
  · obtain ⟨htargets, hrest⟩ := Option.or_eq_none_iff.1 hnone
    rw [Option.map_eq_none_iff, Option.or_eq_none_iff] at hrest
    obtain ⟨hrules, hcycles⟩ := hrest
    rw [List.findSome?_eq_none_iff] at hrules hcycles
    obtain ⟨hnodup, -, hsound⟩ := of_targetFault? htargets
    refine ⟨hnodup, hsound, fun r hr => of_ruleFault? (hrules r hr), fun p => ?_⟩
    exact exists_order_of_cycleFault? (hcycles p (by cases p <;> decide))

/-! ## Looking up -/

/-- With ids of their own, the target of an id is the one that carries it. -/
theorem target?_eq_some_iff {c : Catalog} (hnodup : (c.targets.map Target.id).Nodup) {id : String}
    {t : Target} : c.target? id = some t ↔ t ∈ c.targets ∧ t.id = id := by
  constructor
  · intro hfind
    exact ⟨List.mem_of_find?_eq_some hfind, by simpa using List.find?_some hfind⟩
  · rintro ⟨ht, rfl⟩
    cases hfind : c.target? t.id with
    | none =>
      have := List.find?_eq_none.1 hfind t ht
      simp at this
    | some u =>
      have hu := List.mem_of_find?_eq_some hfind
      have hid : u.id = t.id := by simpa using List.find?_some hfind
      exact congrArg some (List.inj_on_of_nodup_map hnodup hu ht hid)

namespace Sound

variable {c : Catalog} (h : c.Sound)
include h

theorem variant?_eq {t : Target} (ht : t ∈ c.targets) (p : Platform) :
    c.variant? t.id p = t.variants.get? p := by
  rw [variant?, (target?_eq_some_iff h.nodup).2 ⟨ht, rfl⟩]
  rfl

theorem sound_of_variant? {id : String} {p : Platform} {v : Variant}
    (hv : c.variant? id p = some v) : v.Sound := by
  obtain ⟨t, ht, hget⟩ := Option.bind_eq_some_iff.1 hv
  exact h.variants t (List.mem_of_find?_eq_some ht) p v hget

omit h in
theorem mem_targetsFor_iff {p : Platform} {t : Target} :
    t ∈ c.targetsFor p ↔ t ∈ c.targets ∧ (t.variants.get? p).isSome = true := by
  unfold targetsFor PerPlatform.has
  exact List.mem_filter

theorem nodup_targetsFor (p : Platform) : ((c.targetsFor p).map Target.id).Nodup :=
  h.nodup.sublist (List.filter_sublist.map _)

/-- Every rule of a platform has both its ends there. -/
theorem mem_rulesFor_iff {p : Platform} {r : Rule} :
    r ∈ c.rulesFor p ↔ r ∈ c.rules ∧ r.platform = p := by
  unfold rulesFor
  rw [List.mem_filter]
  refine and_congr_right fun hr => ?_
  obtain ⟨hsource, hdest, -⟩ := h.rules r hr
  constructor
  · intro hall
    simp only [Bool.and_eq_true, decide_eq_true_eq] at hall
    exact hall.1.1
  · rintro rfl
    simp [hsource, hdest]

/-- **The order of derivation holds the targets of the platform, each behind its sources.** -/
theorem exists_order (p : Platform) :
    ∃ order, c.derivationOrder p = .ok order ∧ order.Perm (c.targetsFor p) ∧
      Ordered (c.rulesFor p) order := by
  obtain ⟨order, horder⟩ := h.order p
  exact ⟨order, horder, perm_of_place horder,
    ordered_of_place horder (h.nodup_targetsFor p) fun _ _ => List.not_mem_nil⟩

omit h in
/-- The ends of a rule of a platform are targets of the platform. -/
theorem mem_ids_of_mem_rulesFor {p : Platform} {r : Rule} (hr : r ∈ c.rulesFor p) :
    r.source ∈ (c.targetsFor p).map Target.id ∧ r.dest ∈ (c.targetsFor p).map Target.id := by
  have hends : ∀ id, c.hasVariant id p = true → id ∈ (c.targetsFor p).map Target.id := by
    intro id hid
    obtain ⟨v, hv⟩ := Option.isSome_iff_exists.1 hid
    obtain ⟨t, ht, hvariant⟩ := Option.bind_eq_some_iff.1 hv
    obtain rfl : t.id = id := by simpa using List.find?_some ht
    refine List.mem_map_of_mem (mem_targetsFor_iff.2 ⟨List.mem_of_find?_eq_some ht, ?_⟩)
    rw [hvariant]
    rfl
  obtain ⟨-, hall⟩ := List.mem_filter.1 hr
  simp only [Bool.and_eq_true] at hall
  exact ⟨hends _ hall.1.2, hends _ hall.2⟩

/-- **Induction along the rules of a platform**: what passes from its sources to a target holds of
all targets. -/
theorem induction (p : Platform) {P : String → Prop}
    (step : ∀ t ∈ c.targetsFor p, (∀ r ∈ c.rulesFor p, r.dest = t.id → P r.source) → P t.id) :
    ∀ t ∈ c.targetsFor p, P t.id := by
  obtain ⟨order, -, hperm, hordered⟩ := h.exists_order p
  intro t ht
  refine hordered.induction (fun r hr _ hsource => ?_)
    (fun u hu => step u (hperm.mem_iff.1 hu)) t (hperm.mem_iff.2 ht)
  exact absurd ((hperm.map Target.id).mem_iff.2 (mem_ids_of_mem_rulesFor hr).1) hsource

end Sound
end Catalog
end BinaryPatch
