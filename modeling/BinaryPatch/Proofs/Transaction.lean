/-
# Building, validating and committing

What a transaction goes through before it writes, as facts about its entries. Building makes one
for every verdict of the reports (`Report.CoveredBy`), takes what it expects and writes from the
catalog (`Entry.FromCatalog`) and refuses entries that share a byte (`Entry.Apart`). Validating
reads every site and settles which of them are patched (`Entry.Inspected`). A transaction for which
all of this holds is *ready* for an image, and its commit is one equation (`commit_eq`): everything
is written and persisted, or the image is left as it was.
-/

import BinaryPatch.Proofs.Catalog
import BinaryPatch.Proofs.Staging
import Mathlib.Data.List.Basic
import Mathlib.Data.List.Forall2
import Mathlib.Data.List.Pairwise

namespace BinaryPatch
namespace Entry

/-- The entries share no byte. -/
def Apart (x y : Entry) : Prop := x.span.stop ≤ y.span.start ∨ y.span.stop ≤ x.span.start

/-- What the entry expects and writes is what the catalog says of its target, with the function
body that is meant for it. -/
def FromCatalog (c : Catalog) (bodies : List Body) (x : Entry) : Prop :=
  ∃ v, c.variant? x.targetId x.platform = some v ∧ x.expected = v.expected ∧
    Transaction.newBytes x.targetId x.platform bodies v.payload = .ok x.newBytes

/-- What is known of the entry is what a buffer holds at its site. -/
structure Inspected (b : ByteArray) (x : Entry) : Prop where
  fits : x.offset + x.length ≤ b.size
  state : x.state = some .alreadyApplied ∧ Bytes.holdsAt b x.offset x.newBytes = true ∨
    x.state = some .unpatched ∧ Bytes.holdsAt b x.offset x.expected = true ∧
      Bytes.holdsAt b x.offset x.newBytes = false

theorem Apart.symm {x y : Entry} (h : x.Apart y) : y.Apart x := Or.symm h

instance : Std.Symm Apart := ⟨fun _ _ => Apart.symm⟩

theorem Apart.apart_patch {x y : Entry} (h : x.Apart y) : x.patch.Apart y.patch := by
  unfold Apart span length at h
  unfold Patch.Apart Entry.patch
  dsimp only at h ⊢
  omega

/-- The target, the platform and the bodies settle what is written. -/
theorem FromCatalog.newBytes_eq {c : Catalog} {bodies : List Body} {x y : Entry}
    (hx : x.FromCatalog c bodies) (hy : y.FromCatalog c bodies) (hid : x.targetId = y.targetId)
    (hp : x.platform = y.platform) : x.newBytes = y.newBytes := by
  obtain ⟨v, hv, -, hbytes⟩ := hx
  obtain ⟨w, hw, -, hbytes'⟩ := hy
  rw [hid, hp] at hv hbytes
  obtain rfl : v = w := Option.some.inj (hv.symm.trans hw)
  exact Except.ok.inj (hbytes.symm.trans hbytes')

namespace Inspected

variable {b : ByteArray} {x : Entry}

/-- A commit writes exactly the sites that do not hold their new bytes. -/
theorem needsWrite_iff (h : x.Inspected b) :
    x.needsWrite = true ↔ Bytes.holdsAt b x.offset x.newBytes = false := by
  unfold needsWrite
  rcases h.state with ⟨hs, hnew⟩ | ⟨hs, -, hnew⟩ <;> simp [hs, hnew]

theorem holdsAt_expected (h : x.Inspected b) (hw : x.needsWrite = true) :
    Bytes.holdsAt b x.offset x.expected = true := by
  rcases h.state with ⟨hs, -⟩ | ⟨-, hexp, -⟩
  · simp [needsWrite, hs] at hw
  · exact hexp

theorem holdsAt_newBytes (h : x.Inspected b) (hw : x.needsWrite = false) :
    Bytes.holdsAt b x.offset x.newBytes = true := by
  by_contra hnew
  rw [Bool.not_eq_true, ← h.needsWrite_iff, hw] at hnew
  exact Bool.false_ne_true hnew

theorem fits_patch (h : x.Inspected b) : x.patch.Fits b.size := by
  have := h.fits
  unfold length at this
  unfold Patch.Fits patch
  dsimp only
  omega

end Inspected
end Entry

/-- Every verdict of the reports is a site, and one of the entries is at it. -/
def Report.CoveredBy (r : Report) (xs : List Entry) : Prop :=
  ∀ v ∈ r.verdicts, ∃ site, v = .located site ∧ ∃ x ∈ xs, x.targetId = site.targetId ∧
    x.platform = r.platform ∧ x.offset = site.offset

namespace Transaction

/-! ## Building -/

theorem newBytes_of_entry {p : Platform} {c : Catalog} {bodies : List Body} {site : Located}
    {x : Entry} (h : entry p c bodies site = .ok x) :
    x.FromCatalog c bodies ∧ x.targetId = site.targetId ∧ x.platform = p ∧
      x.offset = site.offset ∧ x.observed = none ∧ x.state = none := by
  unfold entry at h
  split at h
  · cases h
  · rename_i t ht
    have hid : t.id = site.targetId := by simpa using List.find?_some ht
    split at h
    · cases h
    · rename_i v hv
      split at h
      · cases h
      · rename_i bytes hbytes
        cases h
        refine ⟨⟨v, ?_, rfl, hbytes⟩, hid, rfl, rfl, rfl, rfl⟩
        rw [Catalog.variant?, hid, ht]
        exact hv

/-- The sites of reports, each with its platform. -/
def sitesOf (reports : List Report) : List (Platform × Located) :=
  reports.flatMap fun r => r.located.map fun site => (r.platform, site)

theorem mem_sitesOf {reports : List Report} {r : Report} {site : Located} (hr : r ∈ reports)
    (hsite : site ∈ r.located) : (r.platform, site) ∈ sitesOf reports :=
  List.mem_flatMap.2 ⟨r, hr, List.mem_map_of_mem hsite⟩

theorem forall₂_entriesFor {p : Platform} {c : Catalog} {bodies : List Body}
    {sites : List Located} {xs : List Entry} (h : entriesFor p c bodies sites = .ok xs) :
    List.Forall₂ (fun site x => entry p c bodies site = .ok x) sites xs := by
  induction sites generalizing xs with
  | nil =>
    cases h
    exact .nil
  | cons site rest ih =>
    unfold entriesFor at h
    split at h
    · cases h
    · rename_i x hx
      obtain ⟨ys, hrest, rfl⟩ := exists_of_map_eq_ok h
      exact .cons hx (ih hrest)

/-- **The entries are those of the sites of the reports, in their order.** -/
theorem forall₂_entriesOf {c : Catalog} {bodies : List Body} {reports : List Report}
    {xs : List Entry} (h : entriesOf c bodies reports = .ok xs) :
    List.Forall₂ (fun s x => entry s.1 c bodies s.2 = .ok x) (sitesOf reports) xs := by
  induction reports generalizing xs with
  | nil =>
    cases h
    exact .nil
  | cons r rest ih =>
    unfold entriesOf at h
    split at h
    · cases h
    · rename_i ys hys
      obtain ⟨zs, hrest, rfl⟩ := exists_of_map_eq_ok h
      exact List.rel_append (List.forall₂_map_left_iff.2 (forall₂_entriesFor hys)) (ih hrest)

/-- If no two neighbours overlap, every span ends before all that stand behind it. -/
theorem pairwise_of_overlapping?_eq_none {xs : List Entry} (h : overlapping? xs = none) :
    xs.Pairwise fun x y => x.span.stop ≤ y.span.start := by
  fun_induction overlapping? xs with
  | case1 => cases h
  | case2 first second rest hle ih =>
    have htail := ih h
    refine List.pairwise_cons.2 ⟨fun y hy => ?_, htail⟩
    rcases List.mem_cons.1 hy with rfl | hy
    · omega
    · have hsecond := (List.pairwise_cons.1 htail).1 y hy
      have : second.span.start ≤ second.span.stop := Nat.le_add_right _ _
      omega
  | case3 xs hshort =>
    match xs with
    | [] => exact List.Pairwise.nil
    | [x] => exact List.pairwise_singleton _ x
    | x :: y :: rest => exact absurd rfl (hshort x y rest)

/-- Entries lie apart if no two neighbours overlap once they are sorted. -/
theorem apart_of_overlapping?_eq_none {xs : List Entry}
    (h : overlapping? (xs.mergeSort fun a b => a.offset ≤ b.offset) = none) :
    xs.Pairwise Entry.Apart := by
  have hsorted := (pairwise_of_overlapping?_eq_none h).imp (S := Entry.Apart) fun hle => Or.inl hle
  exact (List.Perm.pairwise_iff (fun h => h.symm) (List.mergeSort_perm _ _)).1 hsorted

/-- **A transaction that was built has entries from the catalog, no two of which share a byte, and
one for every verdict of its reports.** -/
theorem build_eq_ok {reports : List Report} {c : Catalog} {bodies : List Body} {t : Transaction}
    (h : build reports c bodies = .ok t) :
    t.progress = .pending ∧ t.entries.Pairwise Entry.Apart ∧
      (∀ x ∈ t.entries, x.FromCatalog c bodies) ∧ ∀ r ∈ reports, r.CoveredBy t.entries := by
  unfold build at h
  split at h
  · rename_i hresolved
    split at h
    · cases h
    · rename_i entries hentries
      split at h
      · cases h
      · rename_i hnone
        cases h
        have hall := forall₂_entriesOf hentries
        refine ⟨rfl, ?_, fun x hx => ?_, fun r hr v hv => ?_⟩
        · exact apart_of_overlapping?_eq_none hnone
        · obtain ⟨s, -, hentry⟩ := exists_partner hall hx
          exact (newBytes_of_entry hentry).1
        · cases v with
          | unresolved target =>
            have hmem : target ∈ reports.flatMap Report.unresolved :=
              List.mem_flatMap.2 ⟨r, hr, List.mem_filterMap.2 ⟨_, hv, rfl⟩⟩
            rw [hresolved] at hmem
            exact absurd hmem List.not_mem_nil
          | located site =>
            have hsite : site ∈ r.located := List.mem_filterMap.2 ⟨_, hv, rfl⟩
            obtain ⟨x, hx, hentry⟩ := exists_partner hall.flip (mem_sitesOf hr hsite)
            obtain ⟨-, hid, hp, ho, -⟩ := newBytes_of_entry hentry
            exact ⟨site, rfl, x, hx, hid, hp, ho⟩
  · cases h

/-! ## Validating -/

/-- **What is found at the site of an entry** goes by what the buffer holds there. -/
theorem inspectEntry_eq (i : Image) (x : Entry) :
    inspectEntry i x =
      if x.offset + x.length ≤ i.size then
        let observed := Bytes.window i.buffer x.offset x.length
        if Bytes.holdsAt i.buffer x.offset x.newBytes then
          ({ x with observed := some observed, state := some .alreadyApplied }, none)
        else if Bytes.holdsAt i.buffer x.offset x.expected then
          ({ x with observed := some observed, state := some .unpatched }, none)
        else
          ({ x with observed := some observed, state := none },
            some (.mismatch x.targetId x.offset x.expected (observed.take x.expected.length)))
      else
        ({ x with observed := none, state := none },
          some (.outOfRange x.offset x.length i.size)) := by
  unfold inspectEntry
  by_cases hfit : x.offset + x.length ≤ i.size
  · have hnew : x.newBytes.length ≤ x.length := Nat.le_max_right ..
    have hexp : x.expected.length ≤ x.length := Nat.le_max_left ..
    rw [if_pos hfit, Image.read_eq_ok hfit]
    dsimp only
    rw [Bool.eq_iff_iff.2 (Bytes.isPrefixOf_window_iff hnew hfit),
      Bool.eq_iff_iff.2 (Bytes.isPrefixOf_window_iff hexp hfit)]
  · rw [if_neg hfit, Image.read_eq_error hfit]

/-- Inspecting an entry records what was read and found, and nothing else. -/
theorem inspectEntry_fst (i : Image) (x : Entry) :
    ∃ observed state, (inspectEntry i x).1 = { x with observed, state } := by
  rw [inspectEntry_eq]
  dsimp only
  split_ifs <;> exact ⟨_, _, rfl⟩

/-- **An entry that is not refused has been inspected.** -/
theorem inspected_of_inspectEntry {i : Image} {x : Entry} (h : (inspectEntry i x).2 = none) :
    (inspectEntry i x).1.Inspected i.buffer := by
  rw [inspectEntry_eq] at h ⊢
  dsimp only at h ⊢
  split_ifs at h ⊢ with hfit hnew hexp
  · exact ⟨hfit, .inl ⟨rfl, hnew⟩⟩
  · exact ⟨hfit, .inr ⟨rfl, hexp, Bool.not_eq_true _ ▸ hnew⟩⟩

/-- **What a validation can do:** it is refused, it fails, or it finds every site in order. -/
theorem validate_cases (t : Transaction) (i : Image) :
    (t.progress ≠ .pending ∧ t.progress ≠ .validated) ∧
        t.validate i = (t, .error (.wrongProgress .pending t.progress)) ∨
      (t.progress = .pending ∨ t.progress = .validated) ∧
        ((∃ entries fault,
            t.validate i = ({ t with entries, progress := .failed }, .error fault)) ∨
          (∀ x ∈ t.entries, (inspectEntry i x).2 = none) ∧
            t.validate i =
              ({ t with
                  entries := t.entries.map fun x => (inspectEntry i x).1
                  fileLength := i.size
                  progress := .validated }, .ok ())) := by
  unfold validate
  by_cases hp : t.progress ≠ .pending ∧ t.progress ≠ .validated
  · exact .inl ⟨hp, if_pos hp⟩
  · rw [if_neg hp]
    refine .inr ⟨by tauto, ?_⟩
    split
    · exact .inl ⟨t.entries, _, rfl⟩
    · dsimp only
      split
      · rename_i hfaults
        rw [List.map_map]
        exact .inr ⟨by simpa [List.filterMap_eq_nil_iff] using hfaults, rfl⟩
      · exact .inl ⟨_, _, rfl⟩

/-- **What the sites decide,** where a transaction may be validated and the image has its slices. -/
theorem validate_eq {t : Transaction} {i : Image}
    (hp : t.progress = .pending ∨ t.progress = .validated)
    (hslices : ∀ p ∈ t.platforms, i.hasSlice p = true) :
    t.validate i =
      let entries := t.entries.map fun x => (inspectEntry i x).1
      match t.entries.filterMap fun x => (inspectEntry i x).2 with
      | [] => ({ t with entries, fileLength := i.size, progress := .validated }, .ok ())
      | faults => ({ t with entries, progress := .failed }, .error (.rejected faults)) := by
  have hnone : (t.platforms.find? fun p => !i.hasSlice p) = none := by
    simpa [List.find?_eq_none] using hslices
  unfold validate
  rw [if_neg (by tauto), hnone]
  dsimp only
  rw [List.filterMap_map, List.map_map]
  rfl

/-- A validation that succeeds was on an image with the slices. -/
theorem hasSlice_of_validate {t t' : Transaction} {i : Image} (h : t.validate i = (t', .ok ())) :
    ∀ p ∈ t.platforms, i.hasSlice p = true := by
  unfold validate at h
  split at h
  · cases h
  · split at h
    · cases h
    · rename_i hnone
      simpa [List.find?_eq_none] using hnone

/-- A transaction that may be committed to an image. -/
structure Ready (t : Transaction) (i : Image) : Prop where
  progress : t.progress = .validated
  fileLength : i.size = t.fileLength
  apart : t.entries.Pairwise Entry.Apart
  inspected : ∀ x ∈ t.entries, x.Inspected i.buffer

/-- **A validation that succeeds has inspected every entry** and noted the size of the image. -/
theorem inspected_of_validate {t t' : Transaction} {i : Image}
    (h : t.validate i = (t', .ok ())) :
    t'.progress = .validated ∧ i.size = t'.fileLength ∧
      t'.entries = t.entries.map (fun x => (inspectEntry i x).1) ∧
        ∀ x ∈ t'.entries, x.Inspected i.buffer := by
  rcases t.validate_cases i with ⟨-, h'⟩ | ⟨-, ⟨entries, fault, h'⟩ | ⟨hnone, h'⟩⟩
  · rw [h'] at h
    cases h
  · rw [h'] at h
    cases h
  · rw [h'] at h
    cases h
    refine ⟨rfl, rfl, rfl, fun x' hx' => ?_⟩
    obtain ⟨x, hx, rfl⟩ := List.mem_map.1 hx'
    exact inspected_of_inspectEntry (hnone x hx)

/-- **Validation makes a transaction ready, and only inspects its entries.** -/
theorem ready_of_validate {t t' : Transaction} {i : Image} (h : t.validate i = (t', .ok ()))
    (hapart : t.entries.Pairwise Entry.Apart) :
    t'.Ready i ∧ t'.entries = t.entries.map fun x => (inspectEntry i x).1 := by
  obtain ⟨hprogress, hlength, hentries, hinspected⟩ := inspected_of_validate h
  refine ⟨⟨hprogress, hlength, ?_, hinspected⟩, hentries⟩
  rw [hentries, List.pairwise_map]
  refine hapart.imp fun {x y} hxy => ?_
  obtain ⟨o, s, hx⟩ := inspectEntry_fst i x
  obtain ⟨o', s', hy⟩ := inspectEntry_fst i y
  rw [hx, hy]
  exact hxy

/-! ## Committing -/

/-- What a commit writes. -/
def patches (t : Transaction) : List Patch := (t.entries.filter Entry.needsWrite).map Entry.patch

theorem mem_patches {t : Transaction} {p : Patch} :
    p ∈ t.patches ↔ ∃ x ∈ t.entries, x.needsWrite = true ∧ x.patch = p := by
  simp [patches, and_assoc]

theorem Ready.fits {t : Transaction} {i : Image} (h : t.Ready i) :
    ∀ p ∈ t.patches, p.Fits i.size := by
  intro p hp
  obtain ⟨x, hx, -, rfl⟩ := mem_patches.1 hp
  exact (h.inspected x hx).fits_patch

theorem Ready.apart_patches {t : Transaction} {i : Image} (h : t.Ready i) :
    t.patches.Pairwise Patch.Apart := by
  unfold patches
  rw [List.pairwise_map]
  exact (h.apart.filter _).imp fun hxy => hxy.apart_patch

theorem capture_eq {i : Image} {ps : List Patch} (h : ∀ p ∈ ps, p.Fits i.size) :
    capture i ps = .ok (Bytes.captured i.buffer ps) := by
  induction ps with
  | nil => rfl
  | cons p rest ih =>
    rw [capture, Image.read_eq_ok (h p List.mem_cons_self)]
    dsimp only
    rw [ih fun q hq => h q (List.mem_cons_of_mem p hq)]
    rfl

/-- The image once patches have reached its store. -/
def flushed (i : Image) (ps : List Patch) : Image :=
  { i with
    buffer := Bytes.overwriteAll i.buffer ps
    store := { i.store with
      bytes := Bytes.overwriteAll i.buffer ps
      persists := i.store.persists + 1 }
    dirty := false }

/-- What a commit that succeeds makes of an image: without patches it leaves it alone, and otherwise
they reach its store. -/
def Committed (t : Transaction) (i i' : Image) : Prop :=
  t.patches = [] ∧ i' = i ∨ t.patches ≠ [] ∧ i' = flushed i t.patches

/-- Whether or not there was anything to write, the buffer is the old one with the patches. -/
theorem Committed.buffer_eq {t : Transaction} {i i' : Image} (hi : t.Committed i i') :
    i'.buffer = Bytes.overwriteAll i.buffer t.patches := by
  rcases hi with ⟨hnil, rfl⟩ | ⟨-, rfl⟩
  · rw [hnil]
    rfl
  · rfl

/-- Writing the patches of a ready transaction leaves the new bytes of all its entries. -/
theorem Ready.holdsAt_overwriteAll {t : Transaction} {i : Image} (h : t.Ready i) {x : Entry}
    (hx : x ∈ t.entries) :
    Bytes.holdsAt (Bytes.overwriteAll i.buffer t.patches) x.offset x.newBytes = true := by
  cases hw : x.needsWrite with
  | true =>
    exact Bytes.holdsAt_overwriteAll h.fits h.apart_patches (mem_patches.2 ⟨x, hx, hw, rfl⟩)
  | false =>
    -- the site holds its bytes already, and every patch belongs to an entry apart from it
    have hheld := (h.inspected x hx).holdsAt_newBytes hw
    rw [← hheld]
    have hfits := h.fits
    refine Bytes.holdsAt_congr (by grind) fun k hlo hhi => ?_
    refine Bytes.getElem?_overwriteAll_of_not_covers hfits fun p hp => ?_
    obtain ⟨y, hy, hyw, rfl⟩ := mem_patches.1 hp
    have hne : x ≠ y := by
      rintro rfl
      exact Bool.false_ne_true (hw.symm.trans hyw)
    exact (h.apart.forall hx hy hne).apart_patch.not_covers ⟨hlo, hhi⟩

theorem stageAndFlush_eq {i : Image} {ps : List Patch} (h : ∀ p ∈ ps, p.Fits i.size) :
    stageAndFlush i ps =
      match i.store.fault with
      | none => (flushed i ps, .ok ())
      | some fault => (i.staged ps, .error (.storage fault)) := by
  unfold stageAndFlush
  rw [Image.writeEach_eq h]
  cases hfault : i.store.fault with
  | none =>
    dsimp only
    rw [Image.flush_eq_ok (i := i.staged ps) hfault]
    rfl
  | some fault =>
    dsimp only
    rw [Image.flush_eq_error (i := i.staged ps) hfault]

/-- **A commit writes everything or leaves the buffer and the store as they were.** If there is
nothing to write it does not touch the image. If the store refuses, the captured bytes are staged
again, which leaves the image dirty but its buffer what it was. -/
theorem commit_eq {t : Transaction} {i : Image} (now : Timestamp)
    (hp : t.progress = .validated) (hlen : i.size = t.fileLength)
    (hfit : ∀ p ∈ t.patches, p.Fits i.size) :
    t.commit now i =
      if t.patches = [] then (t.applied now [], i, .ok ())
      else
        match i.store.fault with
        | none => (t.applied now (Bytes.captured i.buffer t.patches), flushed i t.patches, .ok ())
        | some fault =>
          ({ t with progress := .failed }, { i with dirty := true }, .error (.storage fault)) := by
  unfold commit
  rw [if_neg (not_not.2 hp), if_neg (not_not.2 hlen)]
  simp only [show (t.entries.filter Entry.needsWrite).map Entry.patch = t.patches from rfl,
    capture_eq hfit]
  by_cases hnil : t.patches = []
  · rw [if_pos hnil, hnil]
    rfl
  · obtain ⟨c, cs, hcons⟩ : ∃ c cs, Bytes.captured i.buffer t.patches = c :: cs :=
      List.exists_cons_of_ne_nil (by simpa [Bytes.captured] using hnil)
    rw [if_neg hnil, stageAndFlush_eq hfit, hcons]
    cases i.store.fault with
    | none => rfl
    | some fault =>
      dsimp only
      rw [← hcons, Image.writeAll_captured hfit hnil]

/-- **What has been validated can be committed to any image of its size.** -/
theorem commit_eq_of_validate {t t' : Transaction} {i j : Image} (now : Timestamp)
    (h : t.validate i = (t', .ok ())) (hsize : j.size = i.size) :
    t'.commit now j =
      if t'.patches = [] then (t'.applied now [], j, .ok ())
      else
        match j.store.fault with
        | none => (t'.applied now (Bytes.captured j.buffer t'.patches), flushed j t'.patches, .ok ())
        | some fault =>
          ({ t' with progress := .failed }, { j with dirty := true }, .error (.storage fault)) := by
  obtain ⟨hprogress, hlength, -, hinspected⟩ := inspected_of_validate h
  refine commit_eq now hprogress (hsize.trans hlength) fun p hp => ?_
  obtain ⟨x, hx, -, rfl⟩ := mem_patches.1 hp
  exact hsize ▸ (hinspected x hx).fits_patch

end Transaction
end BinaryPatch
