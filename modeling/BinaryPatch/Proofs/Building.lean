/-
# What can be built

Building a transaction takes its input in three steps, and gives the first refusal that it comes to.

| refused as | when |
| --- | --- |
| unresolved | a target of a report has no offset; all of them are named |
| body missing, empty or too long | the body that is meant for a slot cannot be written there |
| overlapping | two entries have a byte in common |

For the last step the entries are sorted by offset, and only neighbours are compared. That is
enough. An entry is never empty, so neighbours that overlap have a byte in common, and if no
neighbours do, every entry ends before all that stand behind it (`overlapping?_mergeSort`).

What passes has one entry for every site of the reports, and nothing else is refused: a report on a
sound catalog names no target without a variant (`exists_variant?_of_resolved`). So building accepts
exactly the reports and bodies that the table does not refuse (`Transaction.build_builds`).
-/

import BinaryPatch.Proofs.Inspection
import Mathlib.Data.List.Perm.Subperm

namespace BinaryPatch

/-! ## Bytes in common -/

namespace Entry

/-- The entries have a byte in common. -/
def Meets (x y : Entry) : Prop :=
  ∃ k, (x.span.start ≤ k ∧ k < x.span.stop) ∧ y.span.start ≤ k ∧ k < y.span.stop

theorem Apart.not_meets {x y : Entry} (h : x.Apart y) : ¬ x.Meets y := by
  rintro ⟨k, hx, hy⟩
  unfold Apart at h
  omega

/-- An entry that starts inside another one has its first byte in common with it. -/
theorem meets_of_starts_inside {x y : Entry} (hle : x.span.start ≤ y.span.start)
    (hlt : y.span.start < x.span.stop) (hy : 0 < y.length) : x.Meets y :=
  ⟨y.span.start, ⟨hle, hlt⟩, Nat.le_refl _, Nat.lt_add_of_pos_right hy⟩

end Entry

namespace Transaction

/-- Neighbours that overlap stand one behind the other. -/
theorem sublist_of_overlapping? {xs : List Entry} {x y : Entry}
    (h : overlapping? xs = some (x, y)) :
    [x, y].Sublist xs ∧ y.span.start < x.span.stop := by
  fun_induction overlapping? xs with
  | case1 first second rest hlt =>
    cases h
    exact ⟨((List.nil_sublist rest).cons_cons y).cons_cons x, hlt⟩
  | case2 first second rest hle ih =>
    obtain ⟨hsub, hlt⟩ := ih h
    exact ⟨hsub.cons first, hlt⟩
  | case3 => cases h

theorem pairwise_offset_mergeSort (xs : List Entry) :
    (xs.mergeSort fun a b => a.offset ≤ b.offset).Pairwise fun a b => a.offset ≤ b.offset := by
  have htrans : ∀ a b c : Entry, decide (a.offset ≤ b.offset) = true →
      decide (b.offset ≤ c.offset) = true → decide (a.offset ≤ c.offset) = true := by
    simp only [decide_eq_true_eq]
    omega
  have htotal : ∀ a b : Entry,
      (decide (a.offset ≤ b.offset) || decide (b.offset ≤ a.offset)) = true := by
    simp only [Bool.or_eq_true, decide_eq_true_eq]
    omega
  exact (List.pairwise_mergeSort htrans htotal xs).imp of_decide_eq_true

/-- **Comparing neighbours finds an overlap if there is one.** Of entries that are not empty, the two
that are found have a byte in common, and if none are found all lie apart. -/
theorem overlapping?_mergeSort {xs : List Entry} (hne : ∀ x ∈ xs, 0 < x.length) :
    match overlapping? (xs.mergeSort fun a b => a.offset ≤ b.offset) with
    | some (x, y) => [x, y].Subperm xs ∧ x.Meets y
    | none => xs.Pairwise Entry.Apart := by
  have hperm := List.mergeSort_perm xs fun a b => a.offset ≤ b.offset
  split
  · rename_i x y hxy
    obtain ⟨hsub, hlt⟩ := sublist_of_overlapping? hxy
    have hle : x.offset ≤ y.offset :=
      List.pairwise_iff_forall_sublist.1 (pairwise_offset_mergeSort xs) hsub
    have hy : y ∈ xs := hperm.mem_iff.1 (hsub.subset (by simp))
    exact ⟨hsub.subperm.trans hperm.subperm, Entry.meets_of_starts_inside hle hlt (hne y hy)⟩
  · rename_i hnone
    exact apart_of_overlapping?_eq_none hnone

/-- Entries that lie apart in pairs have no byte in common, whichever two are taken. -/
theorem not_meets_of_pairwise {xs : List Entry} (h : xs.Pairwise Entry.Apart) {x y : Entry}
    (hxy : [x, y].Subperm xs) : ¬ x.Meets y := by
  obtain ⟨l, hperm, hsub⟩ := hxy
  have hpair := (List.Perm.pairwise_iff Entry.Apart.symm hperm).1 (h.sublist hsub)
  exact (List.rel_of_pairwise_cons hpair (List.mem_singleton_self y)).not_meets

end Transaction

/-! ## Bodies and slots -/

namespace Body

theorem fits_iff {b : Body} {id : String} {p : Platform} :
    b.fits id p = true ↔ b.targetId = id ∧ (b.platform = none ∨ b.platform = some p) := by
  unfold fits
  cases b.platform <;> simp

/-- A body that is meant for a target carries its id. -/
theorem targetId_eq {bodies : List Body} {id : String} {p : Platform} {b : Body}
    (h : (bodies.find? fun b => b.fits id p) = some b) : b.targetId = id :=
  (fits_iff.1 (List.find?_some (p := fun b : Body => b.fits id p) h)).1

/-- **Why a body cannot be written to a slot:** it is empty, or longer than it or the slot may be. -/
theorem spliceInto_eq_error_iff {b : Body} {slot : Nat} {arch : Arch} {fault : Fault} :
    b.spliceInto slot arch = .error fault ↔
      b.code = [] ∧ fault = .bodyEmpty b.targetId ∨
        b.code ≠ [] ∧ min b.maxLength slot < b.code.length ∧
          fault = .bodyTooLong b.targetId b.code.length (min b.maxLength slot) := by
  unfold spliceInto
  dsimp only
  by_cases hnil : b.code = []
  · simp [hnil, eq_comm]
  · rw [if_neg (mt List.isEmpty_iff.1 hnil)]
    by_cases hlong : min b.maxLength slot < b.code.length
    · rw [if_pos hlong, Except.error.injEq]
      exact ⟨fun h => .inr ⟨hnil, hlong, h.symm⟩,
        fun h => (h.resolve_left fun hempty => hnil hempty.1).2.2.symm⟩
    · rw [if_neg hlong]
      exact iff_of_false nofun fun h => h.elim (fun hempty => hnil hempty.1)
        fun hover => hlong hover.2.1

end Body

namespace Transaction

/-- No body can be written to a slot of a target. -/
inductive BodyRefused (bodies : List Body) (id : String) (p : Platform) (slot : Nat) :
    Fault → Prop where
  /-- None is meant for the target. -/
  | missing (h : (bodies.find? fun b => b.fits id p) = none) :
    BodyRefused bodies id p slot (.bodyMissing id)
  /-- The first that is meant for it has no code. -/
  | empty {b : Body} (h : (bodies.find? fun b => b.fits id p) = some b) (hcode : b.code = []) :
    BodyRefused bodies id p slot (.bodyEmpty id)
  /-- The first that is meant for it is longer than it may be, or than the slot. -/
  | tooLong {b : Body} (h : (bodies.find? fun b => b.fits id p) = some b) (hcode : b.code ≠ [])
      (hlong : min b.maxLength slot < b.code.length) :
    BodyRefused bodies id p slot (.bodyTooLong id b.code.length (min b.maxLength slot))

/-- **Only a slot can be refused,** and only for its body. -/
theorem newBytes_eq_error_iff {id : String} {p : Platform} {bodies : List Body} {payload : Payload}
    {fault : Fault} :
    newBytes id p bodies payload = .error fault ↔
      ∃ length, payload = .slot length ∧ BodyRefused bodies id p length.toNat fault := by
  cases payload with
  | bytes fixed => simp [newBytes]
  | slot length =>
    unfold newBytes
    dsimp only
    constructor
    · intro h
      refine ⟨length, rfl, ?_⟩
      split at h
      · rename_i hnone
        cases h
        exact .missing hnone
      · rename_i b hb
        obtain rfl := Body.targetId_eq hb
        rcases Body.spliceInto_eq_error_iff.1 h with ⟨hcode, rfl⟩ | ⟨hcode, hlong, rfl⟩
        · exact .empty hb hcode
        · exact .tooLong hb hcode hlong
    · rintro ⟨_, hlength, hrefused⟩
      cases hlength
      cases hrefused with
      | missing h => rw [h]
      | empty h hcode =>
        rw [h]
        obtain rfl := Body.targetId_eq h
        exact Body.spliceInto_eq_error_iff.2 (.inl ⟨hcode, rfl⟩)
      | tooLong h hcode hlong =>
        rw [h]
        obtain rfl := Body.targetId_eq h
        exact Body.spliceInto_eq_error_iff.2 (.inr ⟨hcode, hlong, rfl⟩)

/-- No body can be written to the slot of the target at a site. -/
def SlotRefused (c : Catalog) (bodies : List Body) (s : Platform × Located) (fault : Fault) :
    Prop :=
  ∃ v length, c.variant? s.2.targetId s.1 = some v ∧ v.payload = .slot length ∧
    BodyRefused bodies s.2.targetId s.1 length.toNat fault

end Transaction

/-! ## Sites and entries -/

/-- The entry that belongs to a site: it stands where its target was found, expects what the catalog
says, and writes the fixed payload, or the body that fills the slot. -/
structure Entry.BelongsTo (x : Entry) (c : Catalog) (bodies : List Body)
    (s : Platform × Located) : Prop where
  targetId : x.targetId = s.2.targetId
  platform : x.platform = s.1
  offset : x.offset = s.2.offset
  uninspected : x.observed = none ∧ x.state = none
  content : ∃ v, c.variant? s.2.targetId s.1 = some v ∧ x.expected = v.expected ∧
    match v.payload with
    | .bytes fixed => x.newBytes = fixed
    | .slot length => x.newBytes.length = length.toNat ∧
        ∃ b, (bodies.find? fun b => b.fits s.2.targetId s.1) = some b ∧
          b.spliceInto length.toNat s.1.arch = .ok x.newBytes

namespace Transaction

/-- The entry of a target that has a variant is a matter of its body alone. -/
theorem entry_eq {p : Platform} {c : Catalog} {bodies : List Body} {site : Located} {v : Variant}
    (hv : c.variant? site.targetId p = some v) :
    entry p c bodies site = (newBytes site.targetId p bodies v.payload).map fun bytes =>
      ⟨site.targetId, p, site.offset, v.expected, bytes, none, none⟩ := by
  obtain ⟨t, ht, hget⟩ := Option.bind_eq_some_iff.1 hv
  have hid : t.id = site.targetId := by simpa using List.find?_some ht
  unfold entry
  rw [ht]
  dsimp only
  rw [hget, hid]
  dsimp only
  cases newBytes site.targetId p bodies v.payload <;> rfl

theorem newBytes_of_find? {bodies : List Body} {id : String} {p : Platform} {length : UInt64}
    {b : Body} (h : (bodies.find? fun b => b.fits id p) = some b) :
    newBytes id p bodies (.slot length) = b.spliceInto length.toNat p.arch := by
  unfold newBytes
  dsimp only
  rw [h]

theorem fromCatalog_of_belongsTo {c : Catalog} {bodies : List Body} {s : Platform × Located}
    {x : Entry} (h : x.BelongsTo c bodies s) : x.FromCatalog c bodies := by
  obtain ⟨v, hv, hexpected, hcontent⟩ := h.content
  rw [← h.targetId, ← h.platform] at hv hcontent
  refine ⟨v, hv, hexpected, ?_⟩
  cases hpayload : v.payload with
  | bytes fixed =>
    rw [hpayload] at hcontent
    exact congrArg Except.ok hcontent.symm
  | slot length =>
    rw [hpayload] at hcontent
    obtain ⟨-, b, hb, hsplice⟩ := hcontent
    exact (newBytes_of_find? hb).trans hsplice

theorem belongsTo_of_entry {p : Platform} {c : Catalog} {bodies : List Body} {site : Located}
    {x : Entry} (h : entry p c bodies site = .ok x) : x.BelongsTo c bodies (p, site) := by
  obtain ⟨⟨v, hv, hexpected, hbytes⟩, hid, hp, ho, hobserved, hstate⟩ := newBytes_of_entry h
  rw [hid, hp] at hv hbytes
  refine ⟨hid, hp, ho, ⟨hobserved, hstate⟩, v, hv, hexpected, ?_⟩
  cases hpayload : v.payload with
  | bytes fixed =>
    rw [hpayload] at hbytes
    exact (Except.ok.inj hbytes).symm
  | slot length =>
    rw [hpayload] at hbytes
    exact ⟨length_newBytes hbytes, newBytes_slot hbytes⟩

/-- Where the target has a variant, an entry fails only with its body. -/
theorem entry_eq_error_iff {p : Platform} {c : Catalog} {bodies : List Body} {site : Located}
    {v : Variant} (hv : c.variant? site.targetId p = some v) {fault : Fault} :
    entry p c bodies site = .error fault ↔ SlotRefused c bodies (p, site) fault := by
  have hiff : entry p c bodies site = .error fault ↔
      newBytes site.targetId p bodies v.payload = .error fault := by
    rw [entry_eq hv]
    cases newBytes site.targetId p bodies v.payload <;> simp [Except.map]
  rw [hiff, newBytes_eq_error_iff]
  constructor
  · rintro ⟨length, hpayload, hrefused⟩
    exact ⟨v, length, hv, hpayload, hrefused⟩
  · rintro ⟨w, length, hw, hpayload, hrefused⟩
    obtain rfl : v = w := Option.some.inj (hv.symm.trans hw)
    exact ⟨length, hpayload, hrefused⟩

theorem entriesFor_eq_mapM (p : Platform) (c : Catalog) (bodies : List Body)
    (sites : List Located) : entriesFor p c bodies sites = sites.mapM (entry p c bodies) := by
  induction sites with
  | nil => rfl
  | cons site rest ih =>
    rw [entriesFor, List.mapM_cons, ih]
    cases entry p c bodies site with
    | error fault => rfl
    | ok x => cases rest.mapM (entry p c bodies) <;> rfl

/-- The entries are made site by site. -/
theorem entriesOf_eq_mapM (c : Catalog) (bodies : List Body) (reports : List Report) :
    entriesOf c bodies reports = (sitesOf reports).mapM fun s => entry s.1 c bodies s.2 := by
  induction reports with
  | nil => rfl
  | cons r rest ih =>
    have hsites : sitesOf (r :: rest) =
        r.located.map (fun site => (r.platform, site)) ++ sitesOf rest := rfl
    rw [entriesOf, ih, entriesFor_eq_mapM, hsites, List.mapM_append, List.mapM_map]
    have hfirst : ((fun s : Platform × Located => entry s.1 c bodies s.2) ∘
        fun site => (r.platform, site)) = entry r.platform c bodies := rfl
    rw [hfirst]
    cases r.located.mapM (entry r.platform c bodies) with
    | error fault => rfl
    | ok xs => cases (sitesOf rest).mapM fun s => entry s.1 c bodies s.2 <;> rfl

/-- **A report on a sound catalog names only targets with a variant.** -/
theorem exists_variant?_of_resolved {c : Catalog} (hsound : c.Sound) {reports : List Report}
    (h : ∀ r ∈ reports, ∃ image slice limits,
      Resolution.resolveSlice image slice c limits = .ok r) :
    ∀ s ∈ sitesOf reports, ∃ v, c.variant? s.2.targetId s.1 = some v := by
  intro s hs
  obtain ⟨r, hr, hsite⟩ := List.mem_flatMap.1 hs
  obtain ⟨site, hlocated, rfl⟩ := List.mem_map.1 hsite
  obtain ⟨image, slice, limits, hresolve⟩ := h r hr
  have hplatform := Resolution.platform_of_resolveSlice hresolve
  have hlists := Resolution.listsTargets_of_resolveSlice hsound hresolve
  obtain ⟨verdict, hverdict, hsome⟩ := List.mem_filterMap.1 hlocated
  have hid : site.targetId ∈ r.verdicts.map Verdict.targetId := by
    cases verdict with
    | located other =>
      cases hsome
      exact List.mem_map_of_mem hverdict
    | unresolved target => cases hsome
  rw [hlists.eq, ← hplatform] at hid
  obtain ⟨t, ht, hid⟩ := List.mem_map.1 hid
  obtain ⟨htarget, hvariant⟩ := List.mem_filter.1 ht
  dsimp only
  rw [← hid, hsound.variant?_eq htarget]
  exact Option.isSome_iff_exists.1 hvariant

/-! ## Building -/

/-- Where every target has an offset, entries are made of all sites and then compared. -/
theorem build_eq {reports : List Report} (h : reports.flatMap Report.unresolved = [])
    (c : Catalog) (bodies : List Body) :
    build reports c bodies =
      match (sitesOf reports).mapM fun s => entry s.1 c bodies s.2 with
      | .error fault => .error fault
      | .ok xs =>
        match overlapping? (xs.mergeSort fun a b => a.offset ≤ b.offset) with
        | some (x, y) => .error (.overlap x.targetId y.targetId)
        | none =>
          .ok { catalogVersion := c.version, platforms := reports.map Report.platform
                entries := xs } := by
  unfold build
  split
  · exact entriesOf_eq_mapM c bodies reports ▸ rfl
  · contradiction

theorem build_eq_error_unresolved {reports : List Report}
    (h : reports.flatMap Report.unresolved ≠ []) (c : Catalog) (bodies : List Body) :
    build reports c bodies = .error (.unresolved (reports.flatMap Report.unresolved)) := by
  unfold build
  split
  · contradiction
  · rfl

/-- What was built has the entries of all sites, and nothing else to it. -/
theorem entriesOf_of_build {reports : List Report} {c : Catalog} {bodies : List Body}
    {t : Transaction} (h : build reports c bodies = .ok t) :
    reports.flatMap Report.unresolved = [] ∧ entriesOf c bodies reports = .ok t.entries ∧
      t = { catalogVersion := c.version, platforms := reports.map Report.platform
            entries := t.entries } := by
  unfold build at h
  split at h
  · rename_i hnil
    split at h
    · cases h
    · rename_i entries hentries
      split at h <;> cases h
      exact ⟨hnil, hentries, rfl⟩
  · cases h

/-- An entry is never empty, as a sound catalog expects a byte at every site. -/
theorem length_pos_of_belongsTo {c : Catalog} (hsound : c.Sound) {bodies : List Body}
    {s : Platform × Located} {x : Entry} (h : x.BelongsTo c bodies s) : 0 < x.length := by
  obtain ⟨v, hv, hexpected, -⟩ := h.content
  have hne : x.expected ≠ [] := hexpected ▸ (hsound.sound_of_variant? hv).expected_ne_nil
  exact Nat.lt_of_lt_of_le (List.length_pos_of_ne_nil hne) (Nat.le_max_left ..)

/-- What building comes to. -/
structure Builds (c : Catalog) (bodies : List Body) (reports : List Report) : Prop where
  /-- If a target has no offset, all such targets are named, in the order of the reports. -/
  unresolved : reports.flatMap Report.unresolved ≠ [] →
    build reports c bodies = .error (.unresolved (reports.flatMap Report.unresolved))
  /-- Else, if a slot has no body, the fault is that of the first one. -/
  refused : reports.flatMap Report.unresolved = [] →
    (∃ s ∈ sitesOf reports, ∃ fault, SlotRefused c bodies s fault) →
      ∃ before s after fault, sitesOf reports = before ++ s :: after ∧
        (∀ q ∈ before, ∀ cause, ¬ SlotRefused c bodies q cause) ∧
        SlotRefused c bodies s fault ∧ build reports c bodies = .error fault
  /-- Else every site has its entry. If two of them have a byte in common, two such are named; if
  not, they make up the transaction. -/
  entries : reports.flatMap Report.unresolved = [] →
    (∀ s ∈ sitesOf reports, ∀ fault, ¬ SlotRefused c bodies s fault) →
      ∃ xs, List.Forall₂ (fun s x => x.BelongsTo c bodies s) (sitesOf reports) xs ∧
        ((∃ x y, [x, y].Subperm xs ∧ x.Meets y) → ∃ x y, [x, y].Subperm xs ∧ x.Meets y ∧
          build reports c bodies = .error (.overlap x.targetId y.targetId)) ∧
        ((∀ x y, [x, y].Subperm xs → ¬ x.Meets y) → xs.Pairwise Entry.Apart ∧
          build reports c bodies =
            .ok { catalogVersion := c.version, platforms := reports.map Report.platform
                  entries := xs })

/-- **Building accepts exactly what the table does not refuse,** and refuses in its order. -/
theorem build_builds {c : Catalog} (hc : c.validate = .ok ()) {reports : List Report}
    (hresolved : ∀ r ∈ reports, ∃ image slice limits,
      Resolution.resolveSlice image slice c limits = .ok r) (bodies : List Body) :
    Builds c bodies reports := by
  have hsound := Catalog.sound_of_validate hc
  have hvariant := exists_variant?_of_resolved hsound hresolved
  have hrefused : ∀ s ∈ sitesOf reports, ∀ fault,
      entry s.1 c bodies s.2 = .error fault ↔ SlotRefused c bodies s fault := by
    intro s hs fault
    obtain ⟨v, hv⟩ := hvariant s hs
    exact entry_eq_error_iff hv
  have hcases := mapM_cases (fun s => entry s.1 c bodies s.2) (sitesOf reports)
  refine ⟨fun hne => build_eq_error_unresolved hne c bodies, fun hnil hany => ?_,
    fun hnil hnone => ?_⟩
  · rcases hcases with ⟨xs, -, hall⟩ | ⟨before, s, after, fault, hsites, hbefore, hs, herror⟩
    · obtain ⟨s, hs, fault, hslot⟩ := hany
      obtain ⟨x, -, hx⟩ := exists_partner hall.flip hs
      rw [(hrefused s hs fault).2 hslot] at hx
      cases hx
    · refine ⟨before, s, after, fault, hsites, fun q hq cause hslot => ?_, ?_, ?_⟩
      · obtain ⟨x, hx⟩ := hbefore q hq
        rw [(hrefused q (by simp [hsites, hq]) cause).2 hslot] at hx
        cases hx
      · exact (hrefused s (by simp [hsites]) fault).1 hs
      · rw [build_eq hnil, herror]
  · rcases hcases with ⟨xs, hxs, hall⟩ | ⟨before, s, after, fault, hsites, -, hs, -⟩
    · have hbelongs := hall.imp fun s x hx => belongsTo_of_entry hx
      have hpos : ∀ x ∈ xs, 0 < x.length := by
        intro x hx
        obtain ⟨s, -, hs⟩ := exists_partner hbelongs hx
        exact length_pos_of_belongsTo hsound hs
      have hsearch := overlapping?_mergeSort hpos
      rw [build_eq hnil, hxs]
      dsimp only
      refine ⟨xs, hbelongs, ?_⟩
      split at hsearch
      · rename_i x y _
        obtain ⟨hxy, hmeets⟩ := hsearch
        exact ⟨fun _ => ⟨x, y, hxy, hmeets, rfl⟩, fun hnone => absurd hmeets (hnone x y hxy)⟩
      · refine ⟨fun ⟨x, y, hxy, hmeets⟩ => ?_, fun _ => ⟨hsearch, rfl⟩⟩
        exact absurd hmeets (not_meets_of_pairwise hsearch hxy)
    · exact absurd ((hrefused s (by simp [hsites]) fault).1 hs) (hnone s (by simp [hsites]) fault)

/-! ### One slot in two reports -/

section

open Engine (slotted slottedReport relapsingImage)

/-- The slot that an engine finds at 20. -/
def slottedSite : Platform × Located := (.linux, ⟨"A", 20, .fuzzySearch, none, some 20⟩)

/-- A body that leaves room for padding in it. -/
def slottedBody : Body := ⟨"A", [0xC3], 2, none⟩

theorem resolveSlice_slotted :
    Resolution.resolveSlice relapsingImage (.whole .linux .identity 24) slotted.catalog {} =
      .ok slottedReport := by decide +kernel

theorem not_slotRefused_slotted (fault : Fault) :
    ¬ SlotRefused slotted.catalog [slottedBody] slottedSite fault :=
  fun h => nomatch show Except.ok _ = Except.error fault from (entry_eq_error_iff rfl).2 h

/-- The body fills the slot, but two reports that name it make two entries of the same bytes. They
are refused, by `build_builds`. -/
theorem build_slotted_twice :
    build [slottedReport, slottedReport] slotted.catalog [slottedBody] =
      .error (.overlap "A" "A") := by
  have hresolved : ∀ r ∈ [slottedReport, slottedReport], ∃ image slice limits,
      Resolution.resolveSlice image slice slotted.catalog limits = .ok r := by
    intro r hr
    obtain rfl : r = slottedReport := by simpa using hr
    exact ⟨_, _, _, resolveSlice_slotted⟩
  have hsites : sitesOf [slottedReport, slottedReport] = [slottedSite, slottedSite] := rfl
  have hfilled : ∀ s ∈ sitesOf [slottedReport, slottedReport], ∀ fault,
      ¬ SlotRefused slotted.catalog [slottedBody] s fault := by
    intro s hs
    obtain rfl : s = slottedSite := by simpa [hsites] using hs
    exact not_slotRefused_slotted
  obtain ⟨xs, hbelongs, hoverlap, -⟩ :=
    (build_builds slotted.sound hresolved [slottedBody]).entries rfl hfilled
  rw [hsites] at hbelongs
  obtain _ | @⟨-, x, -, -, hx, _ | @⟨-, y, -, -, hy, ⟨⟩⟩⟩ := hbelongs
  have hsound := Catalog.sound_of_validate slotted.sound
  have hstart : x.span.start = y.span.start := hx.offset.trans hy.offset.symm
  have hstop : y.span.start < x.span.stop :=
    hstart ▸ Nat.lt_add_of_pos_right (length_pos_of_belongsTo hsound hx)
  have hmeets : x.Meets y := Entry.meets_of_starts_inside (Nat.le_of_eq hstart) hstop
    (length_pos_of_belongsTo hsound hy)
  obtain ⟨x', y', hxy, -, hbuild⟩ := hoverlap ⟨x, y, List.Subperm.refl _, hmeets⟩
  have hid : ∀ z ∈ [x, y], z.targetId = "A" := by
    simpa using ⟨hx.targetId, hy.targetId⟩
  rw [hbuild, hid x' (hxy.subset (by simp)), hid y' (hxy.subset (by simp))]

end

end Transaction
end BinaryPatch
