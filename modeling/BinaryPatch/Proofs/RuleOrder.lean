/-
# The order of the rules

Rules are tried in the order of the catalog, and the order can decide what a report says. It does
so in two ways:

| where several rules lead to one target | their order decides |
| --- | --- |
| to the place at which it is derived | which source is recorded, and so with which it is lost |
| to places whose windows hold different hits | which window is searched first |

Elsewhere it decides nothing. Two reports on catalogs that differ in the order of their rules alone
give every target the same verdict, as long as, for each target, the rules that lead to it stay in
order, or neither of the two is the case (`Resolution.Undisputed`,
`Resolution.resolveSlice_perm_rules`).
-/

import BinaryPatch.Proofs.Rounds

namespace BinaryPatch

namespace Found

/-- An offset with the method it was found by. -/
def place (f : Found) : Nat × Method := (f.offset, f.method)

end Found

namespace Verdict

/-- The offset of a target with the method it was found by, if it has one. -/
def place? (v : Verdict) : Option (Nat × Method) := v.located?.map fun x => (x.offset, x.method)

end Verdict

namespace Survey

variable {s : Survey} {v : Variant} {scanner : Option Scanner} {derived derived' : List Candidate}

/-! ## Candidates in another order -/

/-- **A place is derived where candidates that look like the target lie there and nowhere else.** -/
theorem derive_offset_iff {offset : Nat} :
    (∃ c, s.derive v scanner derived = .ok c ∧ c.offset = offset) ↔
      (∃ c ∈ derived, c.offset = offset ∧ s.looksLike v scanner c.offset = true) ∧
        ∀ c ∈ derived, s.looksLike v scanner c.offset = true → c.offset = offset := by
  have hmem : ∀ c, c ∈ derived.filter (fun c => s.looksLike v scanner c.offset) ↔
      c ∈ derived ∧ s.looksLike v scanner c.offset = true := fun c => List.mem_filter
  unfold derive
  split
  · rename_i hnil
    rw [List.isEmpty_iff.1 hnil]
    simp
  · cases hfilter : derived.filter fun c => s.looksLike v scanner c.offset with
    | nil =>
      simp only [hfilter, List.not_mem_nil, false_iff] at hmem
      refine iff_of_false (fun ⟨_, h, _⟩ => by cases h) ?_
      rintro ⟨⟨c, hc, -, hlooks⟩, -⟩
      exact hmem c ⟨hc, hlooks⟩
    | cons first rest =>
      rw [hfilter] at hmem
      have hfirst := (hmem first).1 List.mem_cons_self
      dsimp only
      split
      · rename_i hall
        simp only [List.all_eq_true, decide_eq_true_eq] at hall
        constructor
        · rintro ⟨_, ⟨⟩, rfl⟩
          refine ⟨⟨first, hfirst.1, rfl, hfirst.2⟩, fun c hc hlooks => ?_⟩
          rcases List.mem_cons.1 ((hmem c).2 ⟨hc, hlooks⟩) with rfl | hrest
          · rfl
          · exact hall c hrest
        · exact fun h => ⟨first, rfl, h.2 first hfirst.1 hfirst.2⟩
      · rename_i hall
        refine iff_of_false (fun ⟨_, h, _⟩ => by cases h) fun h => hall ?_
        simp only [List.all_eq_true, decide_eq_true_eq]
        intro c hc
        obtain ⟨hmemc, hlooks⟩ := (hmem c).1 (List.mem_cons_of_mem first hc)
        rw [h.2 c hmemc hlooks, h.2 first hfirst.1 hfirst.2]

/-- The third phase is entered: neither of the others yields an offset, nor rules it out. -/
def ReachesWindows (s : Survey) (v : Variant) (scanner : Option Scanner)
    (derived : List Candidate) : Prop :=
  ∃ first second, s.direct v scanner = .error first ∧ (∀ offsets, first ≠ .ambiguous offsets) ∧
    s.derive v scanner derived = .error second

/-- What the first two phases find does not reach the third. -/
theorem not_reachesWindows {found : Found} (h : (s.locate v scanner derived).found = some found)
    (hmethod : found.method ≠ .fuzzySearch) : ¬ s.ReachesWindows v scanner derived := by
  rintro ⟨first, second, hdirect, -, hderive⟩
  unfold locate at h
  rw [hdirect, hderive] at h
  dsimp only at h
  split at h
  · cases h
    exact hmethod rfl
  · cases h

/-- Of the windows around candidates in which anything is found, all have the same only hit, or
none has one only. -/
def WindowsAgree (s : Survey) (v : Variant) (derived : List Candidate) : Prop :=
  ∀ a ∈ derived, ∀ b ∈ derived, s.nearby v a.offset ≠ [] → s.nearby v b.offset ≠ [] →
    ∀ hit, s.nearby v a.offset = [hit] → s.nearby v b.offset = [hit]

/-- **Where windows agree, it does not matter which candidate comes first.** -/
theorem fuzzy_perm (hperm : derived.Perm derived') (h : s.WindowsAgree v derived) {hit : Nat}
    (hhit : s.fuzzy v derived = .ok hit) : s.fuzzy v derived' = .ok hit := by
  obtain ⟨centre, hfind, hhits⟩ := fuzzy_eq_ok_iff.1 hhit
  refine fuzzy_eq_ok_iff.2 ?_
  rw [List.find?_append, Option.or_eq_some_iff] at hfind
  rw [List.find?_append]
  rcases hfind with hfind | ⟨hnone, hlast⟩
  · obtain ⟨a, ha, rfl⟩ := List.mem_map.1 (List.mem_of_find?_eq_some hfind)
    have hne : s.nearby v a.offset ≠ [] := by rw [hhits]; exact List.cons_ne_nil _ _
    cases hfind' : (derived'.map Candidate.offset).find? fun c => !(s.nearby v c).isEmpty with
    | none =>
      have := List.find?_eq_none.1 hfind' a.offset (List.mem_map_of_mem (hperm.mem_iff.1 ha))
      exact absurd this (by simpa using hne)
    | some centre' =>
      obtain ⟨b, hb, rfl⟩ := List.mem_map.1 (List.mem_of_find?_eq_some hfind')
      have hne' : s.nearby v b.offset ≠ [] := by simpa using List.find?_some hfind'
      exact ⟨b.offset, rfl, h a ha b (hperm.mem_iff.2 hb) hne hne' hit hhits⟩
  · refine ⟨centre, ?_, hhits⟩
    rw [List.find?_eq_none.2, Option.none_or, hlast]
    intro c hc
    obtain ⟨b, hb, rfl⟩ := List.mem_map.1 hc
    exact List.find?_eq_none.1 hnone _ (List.mem_map_of_mem (hperm.mem_iff.2 hb))

theorem WindowsAgree.perm (hperm : derived.Perm derived') (h : s.WindowsAgree v derived) :
    s.WindowsAgree v derived' := fun a ha b hb =>
  h a (hperm.mem_iff.2 ha) b (hperm.mem_iff.2 hb)

theorem fuzzyUnless_of_fuzzy {first : Obstacle} (hfirst : ∀ offsets, first ≠ .ambiguous offsets)
    {hit : Nat} (h : s.fuzzy v derived = .ok hit) : s.fuzzyUnless v derived first = .ok hit := by
  unfold fuzzyUnless
  split
  · exact absurd rfl (hfirst _)
  · exact h

theorem derive_perm (hperm : derived.Perm derived') {c : Candidate}
    (h : s.derive v scanner derived = .ok c) :
    ∃ c', s.derive v scanner derived' = .ok c' ∧ c'.offset = c.offset := by
  have hplace := derive_offset_iff.1 ⟨c, h, rfl⟩
  simp only [hperm.mem_iff] at hplace
  exact derive_offset_iff.2 hplace

/-- **A search gives the same place whatever the order of its candidates**, if the windows that are
searched agree. -/
theorem place_locate_perm (hperm : derived.Perm derived')
    (h : s.ReachesWindows v scanner derived → s.WindowsAgree v derived) :
    (s.locate v scanner derived').found.map Found.place =
      (s.locate v scanner derived).found.map Found.place := by
  unfold locate
  cases hdirect : s.direct v scanner with
  | ok site => rfl
  | error first =>
    cases hderive : s.derive v scanner derived with
    | ok c =>
      obtain ⟨c', hderive', hoffset⟩ := derive_perm hperm hderive
      simp [hderive', Found.place, hoffset]
    | error second =>
      cases hderive' : s.derive v scanner derived' with
      | ok c' =>
        obtain ⟨c, hderived, -⟩ := derive_perm hperm.symm hderive'
        rw [hderive] at hderived
        cases hderived
      | error second' =>
        have hagree : (∀ offsets, first ≠ .ambiguous offsets) → s.WindowsAgree v derived :=
          fun hfirst => h ⟨first, second, hdirect, hfirst, hderive⟩
        cases hfuzzy : s.fuzzyUnless v derived first with
        | ok hit =>
          obtain ⟨hfirst, hhit⟩ := of_fuzzyUnless hfuzzy
          simp [hfuzzy, fuzzyUnless_of_fuzzy hfirst (fuzzy_perm hperm (hagree hfirst) hhit)]
        | error third =>
          cases hfuzzy' : s.fuzzyUnless v derived' first with
          | error third' => simp [hfuzzy, hfuzzy']
          | ok hit =>
            obtain ⟨hfirst, hhit⟩ := of_fuzzyUnless hfuzzy'
            have hback := fuzzy_perm hperm.symm ((hagree hfirst).perm hperm) hhit
            rw [fuzzyUnless_of_fuzzy hfirst hback] at hfuzzy
            cases hfuzzy

end Survey

namespace Resolution

/-! ## Rules in another order -/

/-- Candidates depend on the places of their sources alone. -/
theorem candidates_congr_of_place {rules : List Rule} {fs gs : Findings} {id : String}
    (h : ∀ r ∈ rules, r.dest = id →
      (fs.found? r.source).map Found.place = (gs.found? r.source).map Found.place) :
    candidates rules fs id = candidates rules gs id := by
  unfold candidates
  refine List.filterMap_congr fun r hr => ?_
  obtain ⟨hr, hdest⟩ := List.mem_filter.1 hr
  have hplace := h r hr (by simpa using hdest)
  cases hf : fs.found? r.source <;> cases hg : gs.found? r.source <;>
    simp_all [Found.place]

theorem candidates_perm {rules rules' : List Rule} (h : rules.Perm rules') (fs : Findings)
    (id : String) : (candidates rules fs id).Perm (candidates rules' fs id) :=
  (h.filter _).filterMap _

/-- Two searches that found the same places. -/
def SamePlaces (fs fs' : Findings) : Prop :=
  ∀ id, (fs'.found? id).map Found.place = (fs.found? id).map Found.place

namespace SamePlaces

variable {fs fs' : Findings}

theorem symm (h : SamePlaces fs fs') : SamePlaces fs' fs := fun id => (h id).symm

theorem exists_found (h : SamePlaces fs fs') {id : String} {found : Found}
    (hfound : fs.found? id = some found) :
    ∃ found', fs'.found? id = some found' ∧ found'.offset = found.offset ∧
      found'.method = found.method := by
  have hplace := h id
  rw [hfound] at hplace
  obtain ⟨found', hfound', heq⟩ := Option.map_eq_some_iff.1 hplace
  obtain ⟨hoffset, hmethod⟩ := Prod.mk.inj heq
  exact ⟨found', hfound', hoffset, hmethod⟩

theorem violated (h : SamePlaces fs fs') {r : Rule} (hr : fs.Violated r) : fs'.Violated r := by
  obtain ⟨source, dest, hsource, hdest, hne⟩ := hr
  obtain ⟨source', hsource', hs, -⟩ := h.exists_found hsource
  obtain ⟨dest', hdest', hd, -⟩ := h.exists_found hdest
  exact ⟨source', dest', hsource', hdest', by rwa [hs, hd]⟩

/-- Which targets are ends of violated rules depends neither on sources nor on the order. -/
theorem breaches_eq_nil_iff (h : SamePlaces fs fs') {rules rules' : List Rule}
    (hperm : rules'.Perm rules) (id : String) :
    fs'.breaches rules' id = [] ↔ fs.breaches rules id = [] := by
  rw [Findings.breaches_eq_nil_iff, Findings.breaches_eq_nil_iff]
  simp only [hperm.mem_iff]
  exact forall₃_congr fun r _ _ => not_congr ⟨h.symm.violated, h.violated⟩

end SamePlaces

/-- **The order of the rules that lead to a target decides nothing about it**: if it is searched for
in windows, these agree, and if it is derived and is no end of a violated rule itself, the sources
that lead to its place are lost or kept together. -/
structure Undisputed (s : Survey) (rules : List Rule) (fs : Findings) (id : String) (v : Variant)
    (scanner : Option Scanner) : Prop where
  windows : s.ReachesWindows v scanner (candidates rules fs id) →
    s.WindowsAgree v (candidates rules fs id)
  sources : fs.breaches rules id = [] → ∀ found source, fs.found? id = some found →
    found.source = some source → ∀ c ∈ candidates rules fs id, c.offset = found.offset →
      (fs.Lost rules c.source ↔ fs.Lost rules source)

/-- Where one search recorded a source, so did the other. -/
theorem SamePlaces.exists_source {fs fs' : Findings} (hplaces : SamePlaces fs fs') {s : Survey}
    {rules rules' : List Rule} {ts : List Target} (h : Solves s rules ts fs)
    (h' : Solves s rules' ts fs') {id : String} {found : Found} {source : String}
    (hfound : fs.found? id = some found) (hsource : found.source = some source) :
    ∃ found' source', fs'.found? id = some found' ∧ found'.source = some source' := by
  obtain ⟨found', hfound', -, hmethod⟩ := hplaces.exists_found hfound
  obtain ⟨_, _, hjust⟩ := h.exists_justifies hfound
  obtain ⟨_, _, hjust'⟩ := h'.exists_justifies hfound'
  obtain ⟨c, -, -, hsource', -⟩ := hjust'.derived
    (hmethod.trans (hjust.exists_candidate hsource).1)
  exact ⟨found', c.source, hfound', hsource'⟩

/-- For each target, the rules that lead to it stand in one order, or their order decides
nothing. -/
def OrderIrrelevant (s : Survey) (c : Catalog) (rules' : List Rule) (fs : Findings) : Prop :=
  ∀ t ∈ c.targetsFor s.slice.platform,
    rulesTo rules' t.id = rulesTo (c.rulesFor s.slice.platform) t.id ∨
      ∀ v scanner, t.variants.get? s.slice.platform = some v → v.scanner? = .ok scanner →
        Undisputed s (c.rulesFor s.slice.platform) fs t.id v scanner

/-- **Where all rules hold, their order decides nothing** about targets that are found without a
window. -/
theorem orderIrrelevant_of_satisfies {s : Survey} {c : Catalog} {fs : Findings}
    (h : Solves s (c.rulesFor s.slice.platform) (c.targetsFor s.slice.platform) fs)
    (hrules : fs.Satisfies (c.rulesFor s.slice.platform))
    (hfound : ∀ t ∈ c.targetsFor s.slice.platform, ∃ found, fs.found? t.id = some found ∧
      found.method ≠ .fuzzySearch) (rules' : List Rule) : OrderIrrelevant s c rules' fs := by
  intro t ht
  have hkept := Findings.not_lost_of_satisfies hrules
  refine .inr fun v scanner hv hscanner => ⟨fun hreaches => ?_, fun _ _ source _ _ c _ _ =>
    iff_of_false (hkept c.source) (hkept source)⟩
  obtain ⟨found, hfind, hmethod⟩ := hfound t ht
  rw [Findings.found?_of_get? (h.get?_eq_locate ht hv hscanner)] at hfind
  exact absurd hreaches (Survey.not_reachesWindows hfind hmethod)

section Permuted

variable {s : Survey} {rules rules' : List Rule} {ts : List Target} {fs fs' : Findings}
  (h : Solves s rules ts fs) (h' : Solves s rules' ts fs') {t : Target} (ht : t ∈ ts)
include h h' ht

variable (hsources : ∀ r ∈ rules', r.dest = t.id →
  (fs'.found? r.source).map Found.place = (fs.found? r.source).map Found.place)
include hsources

/-- Where the rules that lead to a target stand in one order, the same becomes known of it. -/
theorem get?_eq_of_rulesTo_eq (horder : rulesTo rules' t.id = rulesTo rules t.id) :
    fs'.get? t.id = fs.get? t.id := by
  obtain ⟨v, scanner, -, -, hget, hget'⟩ := h.exists_search h' ht ht
  rw [hget, hget', candidates_congr_of_place hsources, candidates_eq_of_rulesTo_eq horder]

/-- Where the order of the rules decides nothing, the same place is found. -/
theorem place_eq_of_undisputed (hperm : rules'.Perm rules)
    (hundisputed : ∀ v scanner, t.variants.get? s.slice.platform = some v →
      v.scanner? = .ok scanner → Undisputed s rules fs t.id v scanner) :
    (fs'.found? t.id).map Found.place = (fs.found? t.id).map Found.place := by
  obtain ⟨v, scanner, hv, hscanner, hget, hget'⟩ := h.exists_search h' ht ht
  rw [Findings.found?_of_get? hget', Findings.found?_of_get? hget,
    candidates_congr_of_place hsources]
  exact Survey.place_locate_perm (candidates_perm hperm.symm fs t.id)
    (hundisputed v scanner hv hscanner).windows

end Permuted

section Permuted

variable {s : Survey} {c : Catalog} {rules' : List Rule} {fs fs' : Findings} (hc : c.Sound)
  (hperm : rules'.Perm (c.rulesFor s.slice.platform))
  (h : Solves s (c.rulesFor s.slice.platform) (c.targetsFor s.slice.platform) fs)
  (h' : Solves s rules' (c.targetsFor s.slice.platform) fs')
  (hirrelevant : OrderIrrelevant s c rules' fs)
include hc hperm h h' hirrelevant

/-- **The same places are found.** -/
theorem samePlaces_of_perm : SamePlaces fs fs' := by
  intro id
  by_cases hid : id ∈ (c.targetsFor s.slice.platform).map Target.id
  · obtain ⟨t, ht, rfl⟩ := List.mem_map.1 hid
    refine hc.induction s.slice.platform (P := fun id =>
      (fs'.found? id).map Found.place = (fs.found? id).map Found.place) (fun t ht ih => ?_) t ht
    have hsources := fun r hr hdest => ih r (hperm.mem_iff.1 hr) hdest
    rcases hirrelevant t ht with horder | hundisputed
    · rw [Findings.found?, Findings.found?, get?_eq_of_rulesTo_eq h h' ht hsources horder]
    · exact place_eq_of_undisputed h h' ht hsources hperm hundisputed
  · rw [h.found?_eq_none hid, h'.found?_eq_none hid]

/-- The sources that the two searches recorded for a target are lost or kept together, if the sources
of the rules that lead to it are lost in both or in neither. -/
theorem source_lost_iff_of_perm {t : Target} (ht : t ∈ c.targetsFor s.slice.platform)
    (hnil : fs.breaches (c.rulesFor s.slice.platform) t.id = [])
    (ih : ∀ r ∈ c.rulesFor s.slice.platform, r.dest = t.id →
      (fs'.Lost rules' r.source ↔ fs.Lost (c.rulesFor s.slice.platform) r.source))
    {found found' : Found} {source source' : String} (hfound : fs.found? t.id = some found)
    (hsource : found.source = some source) (hfound' : fs'.found? t.id = some found')
    (hsource' : found'.source = some source') :
    fs'.Lost rules' source' ↔ fs.Lost (c.rulesFor s.slice.platform) source := by
  have hplaces := samePlaces_of_perm hc hperm h h' hirrelevant
  obtain ⟨_, _, hjust'⟩ := h'.exists_justifies hfound'
  obtain ⟨-, cand, hcand, hoffset, rfl⟩ := hjust'.exists_candidate hsource'
  obtain ⟨r, hr, hdest, hname, -⟩ := of_mem_candidates hcand
  rw [← hname, ih r (hperm.mem_iff.1 hr) hdest, hname]
  rcases hirrelevant t ht with horder | hundisputed
  · -- the same source is recorded
    have hget := get?_eq_of_rulesTo_eq h h' ht (fun r _ _ => hplaces r.source) horder
    rw [Findings.found?, hget] at hfound'
    obtain rfl := Option.some.inj (hfound.symm.trans hfound')
    obtain rfl := Option.some.inj (hsource.symm.trans hsource')
    rfl
  · -- another rule to the same place may have come first
    obtain ⟨v, scanner, hv, hscanner, -, -⟩ := h.exists_search h' ht ht
    obtain ⟨found'', hfound'', heq, -⟩ := hplaces.exists_found hfound
    obtain rfl := Option.some.inj (hfound'.symm.trans hfound'')
    have hmem : cand ∈ candidates (c.rulesFor s.slice.platform) fs t.id := by
      rw [candidates_congr_of_place fun r _ _ => hplaces r.source] at hcand
      exact (candidates_perm hperm fs t.id).mem_iff.1 hcand
    exact (hundisputed v scanner hv hscanner).sources hnil found source hfound hsource cand hmem
      (hoffset.trans heq)

/-- **The same targets are lost.** A derived target may have another source recorded, but one that
is lost or kept like the first. -/
theorem lost_iff_of_perm {t : Target} (ht : t ∈ c.targetsFor s.slice.platform) :
    fs'.Lost rules' t.id ↔ fs.Lost (c.rulesFor s.slice.platform) t.id := by
  have hplaces := samePlaces_of_perm hc hperm h h' hirrelevant
  refine hc.induction s.slice.platform (P := fun id =>
    fs'.Lost rules' id ↔ fs.Lost (c.rulesFor s.slice.platform) id) (fun t ht ih => ?_) t ht
  have hbreaches := hplaces.breaches_eq_nil_iff hperm t.id
  rw [Findings.lost_iff_breaches_or, @Findings.lost_iff_breaches_or fs]
  by_cases hnil : fs.breaches (c.rulesFor s.slice.platform) t.id = []
  · rw [hbreaches.2 hnil, hnil]
    refine or_congr Iff.rfl ⟨?_, ?_⟩
    · rintro ⟨found', source', hfound', hsource', hlost⟩
      obtain ⟨found, source, hfound, hsource⟩ :=
        hplaces.symm.exists_source h' h hfound' hsource'
      have hfate := source_lost_iff_of_perm hc hperm h h' hirrelevant ht hnil ih hfound hsource
        hfound' hsource'
      exact ⟨found, source, hfound, hsource, hfate.1 hlost⟩
    · rintro ⟨found, source, hfound, hsource, hlost⟩
      obtain ⟨found', source', hfound', hsource'⟩ := hplaces.exists_source h h' hfound hsource
      have hfate := source_lost_iff_of_perm hc hperm h h' hirrelevant ht hnil ih hfound hsource
        hfound' hsource'
      exact ⟨found', source', hfound', hsource', hfate.2 hlost⟩
  · exact iff_of_true (.inl (mt hbreaches.1 hnil)) (.inl hnil)

end Permuted

/-! ## Reports -/

theorem place?_verdict (slice : Slice) (id : String) (f : Finding) :
    (verdict slice id f).place? = f.found.map Found.place := by
  unfold verdict
  cases f.found <;> rfl

/-- Reports give the same verdicts where the same places are found and the same targets lost. -/
theorem SamePlaces.place?_eq {s : Survey} {c c' : Catalog} {fs fs' : Findings} {r r' : Report}
    (hplaces : SamePlaces fs fs') (h : Resolved s c fs r) (h' : Resolved s c' fs' r') {id : String}
    (hknown : (fs'.get? id).isSome = (fs.get? id).isSome)
    (hlost : fs'.Lost (c'.rulesFor s.slice.platform) id ↔
      fs.Lost (c.rulesFor s.slice.platform) id) :
    (r'.get? id).map Verdict.place? = (r.get? id).map Verdict.place? := by
  have hplace : ((fs'.crossCheck (c'.rulesFor s.slice.platform)).found? id).map Found.place =
      ((fs.crossCheck (c.rulesFor s.slice.platform)).found? id).map Found.place := by
    by_cases hid : fs.Lost (c.rulesFor s.slice.platform) id
    · rw [Findings.found?_crossCheck_of_lost h.rules_ne h.solves.rooted hid,
        Findings.found?_crossCheck_of_lost h'.rules_ne h'.solves.rooted (hlost.2 hid)]
    · rw [Findings.found?_crossCheck_of_not_lost h.rules_ne h.solves.rooted hid,
        Findings.found?_crossCheck_of_not_lost h'.rules_ne h'.solves.rooted (mt hlost.1 hid)]
      exact hplaces id
  rw [← (Findings.withdrawnFrom_crossCheck fs' (c'.rulesFor s.slice.platform)).known,
    ← (Findings.withdrawnFrom_crossCheck fs (c.rulesFor s.slice.platform)).known] at hknown
  rw [h.get?_eq, h'.get?_eq]
  unfold Findings.found? at hplace
  cases hget : (fs.crossCheck (c.rulesFor s.slice.platform)).get? id <;>
    cases hget' : (fs'.crossCheck (c'.rulesFor s.slice.platform)).get? id <;>
      simp_all [place?_verdict]

/-- The catalog with other rules. -/
def withRules (c : Catalog) (rules : List Rule) : Catalog := { c with rules }

/-- **The order of the rules only matters where it decides between rules to one target.** Two
accepted catalogs that differ in the order of their rules have reports in which every target has
the same verdict, provided that for each target the rules that lead to it stand in one order, or
their order decides nothing about it. Where a target leaves no room, neither has a report. -/
theorem resolveSlice_perm_rules {c : Catalog} (h : c.validate = .ok ()) {rules : List Rule}
    (hperm : rules.Perm c.rules) (h' : (withRules c rules).validate = .ok ()) (image : Image)
    (slice : Slice) (limits : Limits) :
    (∃ order fs r r', c.derivationOrder slice.platform = .ok order ∧
      locateAll ⟨image.buffer, slice, limits⟩ (c.rulesFor slice.platform) [] order = .ok fs ∧
      resolveSlice image slice c limits = .ok r ∧
      resolveSlice image slice (withRules c rules) limits = .ok r' ∧
      (OrderIrrelevant ⟨image.buffer, slice, limits⟩ c
          ((withRules c rules).rulesFor slice.platform) fs →
        ∀ id, (r'.get? id).map Verdict.place? = (r.get? id).map Verdict.place?)) ∨
      BreaksOff image slice c limits ∧ BreaksOff image slice (withRules c rules) limits := by
  have hsound := Catalog.sound_of_validate h
  have hsound' := Catalog.sound_of_validate h'
  refine (or_breaksOff hsound fun hroom => ?_).imp_right
    fun h => ⟨h, breaksOff hsound' h.narrow⟩
  obtain ⟨order, fs, r, horder, hfs, hr, hresolved⟩ := exists_resolved hsound image hroom limits
  obtain ⟨-, fs', r', -, -, hr', hresolved'⟩ := exists_resolved hsound' image hroom limits
  refine ⟨order, fs, r, r', horder, hfs, hr, hr', fun hirrelevant id => ?_⟩
  have hrules : ((withRules c rules).rulesFor slice.platform).Perm (c.rulesFor slice.platform) :=
    hperm.filter _
  have hsolves' : Solves ⟨image.buffer, slice, limits⟩
      ((withRules c rules).rulesFor slice.platform) (c.targetsFor slice.platform) fs' :=
    hresolved'.solves
  have hplaces := samePlaces_of_perm hsound hrules hresolved.solves hsolves' hirrelevant
  have hknown : (fs'.get? id).isSome = (fs.get? id).isSome := by
    rw [Bool.eq_iff_iff, hsolves'.known, hresolved.solves.known]
  by_cases hid : id ∈ (c.targetsFor slice.platform).map Target.id
  · obtain ⟨t, ht, rfl⟩ := List.mem_map.1 hid
    exact hplaces.place?_eq hresolved hresolved' hknown
      (lost_iff_of_perm hsound hrules hresolved.solves hsolves' hirrelevant ht)
  · rw [hresolved.get?_eq_none hid, hresolved'.get?_eq_none hid]

/-- The five targets with a rule between the third and the first that holds. -/
def tree : Catalog := withRules fork [
  { platform := .linux, source := "A", dest := "D", delta := 3 },
  { platform := .linux, source := "B", dest := "D", delta := 2 },
  { platform := .linux, source := "C", dest := "A", delta := -2 },
  { platform := .linux, source := "D", dest := "E", delta := 1 }]

/-- What is found of them, the last target first. -/
def treeFindings : Findings := [
  ("E", ⟨some ⟨24, .derived, some "D"⟩, [⟨.directSignature, .noSignature⟩]⟩),
  ("D", ⟨some ⟨23, .derived, some "A"⟩, [⟨.directSignature, .noSignature⟩]⟩),
  ("A", ⟨some ⟨20, .directSignature, none⟩, []⟩),
  ("C", ⟨some ⟨22, .directSignature, none⟩, []⟩),
  ("B", ⟨some ⟨21, .directSignature, none⟩, []⟩)]

theorem locateAll_tree :
    ∃ order, tree.derivationOrder .linux = .ok order ∧
      locateAll ⟨forkImage.buffer, forkImage.primary, {}⟩ (tree.rulesFor .linux) [] order =
        .ok treeFindings := by
  obtain ⟨order, horder, hfs⟩ := exists_ok_of_toOption_map
    (show (tree.derivationOrder .linux).toOption.map (fun order =>
      (locateAll ⟨forkImage.buffer, forkImage.primary, {}⟩ (tree.rulesFor .linux) [] order
        ).toOption.map id) = some (some treeFindings) by decide +kernel)
  obtain ⟨_, hfs, rfl⟩ := exists_ok_of_toOption_map hfs
  exact ⟨order, horder, hfs⟩

/-- With its rules turned round, the fourth target is derived from another source, but has the
same verdict. -/
theorem resolveSlice_reverse_tree :
    ∃ r r', resolveSlice forkImage forkImage.primary tree {} = .ok r ∧
      resolveSlice forkImage forkImage.primary (withRules tree tree.rules.reverse) {} = .ok r' ∧
      (r.get? "D").bind Verdict.located? = some ⟨"D", 23, .derived, some "A", some 23⟩ ∧
      (r'.get? "D").bind Verdict.located? = some ⟨"D", 23, .derived, some "B", some 23⟩ ∧
      ∀ id, (r'.get? id).map Verdict.place? = (r.get? id).map Verdict.place? := by
  have hvalid : tree.validate = .ok () := Catalog.validate_eq_ok_iff.2 (by decide +kernel)
  have hvalid' : (withRules tree tree.rules.reverse).validate = .ok () :=
    Catalog.validate_eq_ok_iff.2 (by decide +kernel)
  obtain ⟨order, fs, r, r', horder, hfs, hr, hr', hsame⟩ := (resolveSlice_perm_rules hvalid
    (List.reverse_perm tree.rules) hvalid' forkImage forkImage.primary {}).resolve_right
      fun h => h.1.narrow hasRoom_fork
  -- what the theorem found is what was computed, and solves the equations of the targets
  obtain ⟨order', horder', hfs'⟩ := locateAll_tree
  obtain rfl := Except.ok.inj (horder.symm.trans horder')
  obtain rfl := Except.ok.inj (hfs.symm.trans hfs')
  obtain ⟨order', fs', horder', hfs', hsolves⟩ :=
    exists_findings (Catalog.sound_of_validate hvalid) ⟨forkImage.buffer, forkImage.primary, {}⟩
      hasRoom_fork
  obtain rfl := Except.ok.inj (horder.symm.trans horder')
  obtain rfl := Except.ok.inj (hfs.symm.trans hfs')
  have hrules : treeFindings.Satisfies (tree.rulesFor .linux) := by
    have hnone : ∀ r ∈ tree.rulesFor .linux, treeFindings.violation? r = none := by decide +kernel
    exact fun r hr source dest hs hd => Findings.violation?_eq_none (hnone r hr) hs hd
  have hfound : ∀ t ∈ tree.targetsFor .linux, ∃ found, treeFindings.found? t.id = some found ∧
      found.method ≠ .fuzzySearch := by
    have hall : ∀ t ∈ tree.targetsFor .linux,
        (treeFindings.found? t.id).any (fun found => found.method != .fuzzySearch) = true := by
      decide +kernel
    intro t ht
    obtain ⟨found, hfind, hmethod⟩ := (Option.any_eq_true _ _).1 (hall t ht)
    exact ⟨found, hfind, by simpa using hmethod⟩
  have hD : (resolveSlice forkImage forkImage.primary tree {}).toOption.map
      (fun r => (r.get? "D").bind Verdict.located?) =
        some (some ⟨"D", 23, .derived, some "A", some 23⟩) := by decide +kernel
  have hD' : (resolveSlice forkImage forkImage.primary (withRules tree tree.rules.reverse) {}
      ).toOption.map (fun r => (r.get? "D").bind Verdict.located?) =
        some (some ⟨"D", 23, .derived, some "B", some 23⟩) := by decide +kernel
  rw [hr] at hD
  rw [hr'] at hD'
  exact ⟨r, r', hr, hr', Option.some.inj hD, Option.some.inj hD',
    hsame (orderIrrelevant_of_satisfies hsolves hrules hfound _)⟩

/-- The rules of `fork`, of which the second comes first. -/
def turnedRules : List Rule := [
  { platform := .linux, source := "B", dest := "D", delta := 2 },
  { platform := .linux, source := "A", dest := "D", delta := 3 },
  { platform := .linux, source := "C", dest := "A", delta := 5 },
  { platform := .linux, source := "D", dest := "E", delta := 1 }]

/-- **In general the order of the rules decides.** Two rules lead to one place, and the source of
one of them is lost: the target is lost with it if that rule comes first, else it is kept. -/
theorem not_resolveSlice_perm_rules :
    ¬ ∀ (c : Catalog) (rules : List Rule) (image : Image) (slice : Slice) (limits : Limits)
        (r r' : Report), c.validate = .ok () → rules.Perm c.rules →
          (withRules c rules).validate = .ok () → resolveSlice image slice c limits = .ok r →
            resolveSlice image slice (withRules c rules) limits = .ok r' →
              ∀ id, (r'.get? id).map Verdict.place? = (r.get? id).map Verdict.place? := by
  intro hall
  have hperm : turnedRules.Perm fork.rules := List.Perm.swap _ _ _
  have hvalid : (withRules fork turnedRules).validate = .ok () :=
    Catalog.validate_eq_ok_iff.2 (by decide +kernel)
  obtain ⟨r, hr, hlost⟩ := exists_ok_of_toOption_map
    (show (resolveSlice forkImage forkImage.primary fork {}).toOption.map
      (fun r => (r.get? "D").map Verdict.place?) = some (some none) by decide +kernel)
  obtain ⟨r', hr', hkept⟩ := exists_ok_of_toOption_map
    (show (resolveSlice forkImage forkImage.primary (withRules fork turnedRules) {}).toOption.map
      (fun r => (r.get? "D").map Verdict.place?) = some (some (some (23, .derived))) by
      decide +kernel)
  have hsame := hall fork turnedRules forkImage forkImage.primary {} r r' validate_fork hperm
    hvalid hr hr' "D"
  rw [hlost, hkept] at hsame
  cases hsame

/-- Rules that lead to two places, neither of which holds the fourth target. -/
def apartRules : List Rule := [
  { platform := .linux, source := "A", dest := "D", delta := 4 },
  { platform := .linux, source := "B", dest := "D", delta := 7 }]

/-- A file of 30 bytes that holds the fourth target next to the first place, and twice next to the
second. -/
def crowdedImage : Image where
  store.bytes := ⟨#[0x7F, 0x45, 0x4C, 0x46, 2, 1, 1, 0, 0, 0, 0, 0, 0, 0, 0, 0, 3, 0, 0, 0,
    0xAA, 0xBB, 0xCC, 0xDD, 0, 0, 0, 0xDD, 0, 0xDD]⟩
  buffer := ⟨#[0x7F, 0x45, 0x4C, 0x46, 2, 1, 1, 0, 0, 0, 0, 0, 0, 0, 0, 0, 3, 0, 0, 0,
    0xAA, 0xBB, 0xCC, 0xDD, 0, 0, 0, 0xDD, 0, 0xDD]⟩
  container := ⟨.elf, 0, .whole .linux .identity 30, []⟩

/-- A window that reaches one byte to each side. -/
def narrow : Limits where
  fuzzyWindow := 1

/-- The order decides between windows too. What is found in the first violates both rules, and what
is found in the second is ambiguous. -/
example :
    (resolveSlice crowdedImage crowdedImage.primary (withRules fork apartRules) narrow).toOption.map
        (fun r => r.located.map Located.targetId) = some ["C"] ∧
      (resolveSlice crowdedImage crowdedImage.primary (withRules fork apartRules.reverse)
        narrow).toOption.map (fun r => r.located.map Located.targetId) = some ["A", "B", "C"] := by
  decide +kernel

end Resolution
end BinaryPatch
