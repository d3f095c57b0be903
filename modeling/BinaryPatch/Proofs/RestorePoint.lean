/-
# Restore points

A restore point is written as a document and read back as itself, as long as its numbers are words
and its time has a date (`RestorePoint.load_save`).

What a successful run hands out is enough to undo it later, in another image: any file of the same
size, with the same platforms, that agrees with the patched one outside the captured ranges. Inside
them it may hold anything (`Engine.restore_of_apply`).
-/

import BinaryPatch.Proofs.Apply
import BinaryPatch.Proofs.Json
import BinaryPatch.Proofs.Timestamp
import BinaryPatch.Proofs.Undo

namespace BinaryPatch

/-! ## Documents -/

theorem Platform.ofJson_toJson (p : Platform) : Platform.ofJson p.toJson = .ok p := by
  cases p <;> rfl

theorem Timestamp.ofJson_format {t : Timestamp} (h : t.Known) :
    ofJson (.str t.format) = .ok t := by
  simp only [ofJson, Json.asString, bind, Except.bind, parse?_format h]

namespace Patch

/-- Fields that can be read make a captured range. -/
theorem ofJson_fields {offset bytes : Json} {o : UInt64} {bs : List UInt8}
    (ho : offset.asWord = .ok o) (hbs : bytes.asBytes = .ok bs) :
    ofJson (.obj [("offset", offset), ("bytes", bytes)]) = .ok ⟨o.toNat, bs⟩ := by
  have h₁ : Draft.add {} ("offset", offset) = .ok ⟨some o, none⟩ :=
    congrArg (Except.map (Draft.mk · none)) (Json.once_none ho)
  have h₂ : Draft.add ⟨some o, none⟩ ("bytes", bytes) = .ok ⟨some o, some bs⟩ :=
    congrArg (Except.map (Draft.mk (some o))) (Json.once_none hbs)
  unfold ofJson
  simp only [Json.fields, bind, Except.bind]
  rw [Json.foldlM_field h₁, Json.foldlM_field h₂]
  rfl

/-- **A captured range is read back as itself.** -/
theorem ofJson_toJson {p : Patch} (h : p.offset < wordLimit) : ofJson p.toJson = .ok p := by
  have hword : (UInt64.ofNat p.offset).toNat = p.offset := UInt64.toNat_ofNat_of_lt' h
  rw [toJson, Hex.toJson, ofJson_fields (Json.asWord_int h) (Json.asBytes_format p.bytes), hword]

end Patch

namespace RestorePoint

/-- Fields that can be read make a restore point. -/
theorem ofJson_fields {version platforms length time ranges : Json} {v : String}
    {ps : List Platform} {n : UInt64} {t : Timestamp} {rs : List Patch}
    (hv : version.asString = .ok v) (hps : platforms.asList Platform.ofJson = .ok ps)
    (hn : length.asWord = .ok n) (ht : Timestamp.ofJson time = .ok t)
    (hrs : ranges.asList Patch.ofJson = .ok rs) :
    ofJson (.obj [("catalog_version", version), ("platforms", platforms), ("file_len", length),
      ("captured_at", time), ("ranges", ranges)]) = .ok ⟨v, ps, n.toNat, t, rs⟩ := by
  have h₁ : Draft.add {} ("catalog_version", version) = .ok ⟨some v, none, none, none, none⟩ :=
    congrArg (Except.map (Draft.mk · none none none none)) (Json.once_none hv)
  have h₂ : Draft.add ⟨some v, none, none, none, none⟩ ("platforms", platforms) =
      .ok ⟨some v, some ps, none, none, none⟩ :=
    congrArg (Except.map (Draft.mk (some v) · none none none)) (Json.once_none hps)
  have h₃ : Draft.add ⟨some v, some ps, none, none, none⟩ ("file_len", length) =
      .ok ⟨some v, some ps, some n, none, none⟩ :=
    congrArg (Except.map (Draft.mk (some v) (some ps) · none none)) (Json.once_none hn)
  have h₄ : Draft.add ⟨some v, some ps, some n, none, none⟩ ("captured_at", time) =
      .ok ⟨some v, some ps, some n, some t, none⟩ :=
    congrArg (Except.map (Draft.mk (some v) (some ps) (some n) · none)) (Json.once_none ht)
  have h₅ : Draft.add ⟨some v, some ps, some n, some t, none⟩ ("ranges", ranges) =
      .ok ⟨some v, some ps, some n, some t, some rs⟩ :=
    congrArg (Except.map (Draft.mk (some v) (some ps) (some n) (some t))) (Json.once_none hrs)
  unfold ofJson
  simp only [Json.fields, bind, Except.bind]
  rw [Json.foldlM_field h₁, Json.foldlM_field h₂, Json.foldlM_field h₃, Json.foldlM_field h₄,
    Json.foldlM_field h₅]
  rfl

/-- The numbers of the point are words, and its time has a date. -/
structure Writable (p : RestorePoint) : Prop where
  fileLength : p.fileLength < wordLimit
  offsets : ∀ r ∈ p.ranges, r.offset < wordLimit
  capturedAt : p.capturedAt.Known

/-- **A restore point is read back as itself.** -/
theorem ofJson_toJson {p : RestorePoint} (h : p.Writable) : ofJson p.toJson = .ok p := by
  have hword : (UInt64.ofNat p.fileLength).toNat = p.fileLength :=
    UInt64.toNat_ofNat_of_lt' h.fileLength
  rw [toJson, ofJson_fields rfl (Json.asList_map fun q _ => Platform.ofJson_toJson q)
    (Json.asWord_int h.fileLength) (Timestamp.ofJson_format h.capturedAt)
    (Json.asList_map fun r hr => Patch.ofJson_toJson (h.offsets r hr)), hword]

@[simp]
theorem plain_toJson (p : RestorePoint) : p.toJson.plain = true := by
  have hplatforms : (Json.arr (p.platforms.map Platform.toJson)).plain = true :=
    Json.plain_arr_map fun _ _ => rfl
  have hranges : (Json.arr (p.ranges.map Patch.toJson)).plain = true :=
    Json.plain_arr_map fun _ _ => rfl
  simp only [toJson, Json.plain, Json.plainFields] at hplatforms hranges ⊢
  rw [hplatforms, hranges]
  rfl

/-- **A saved restore point is loaded as itself.** -/
theorem load_save {p : RestorePoint} (h : p.Writable) : load p.save = .ok p := by
  unfold load save
  rw [Json.decode_render ofJson (plain_toJson p), ofJson_toJson h]

/-! ## Restoring -/

/-- An image of the right size and platforms is not refused. -/
theorem restore_eq {p : RestorePoint} {i : Image} (hsize : i.size = p.fileLength)
    (hslices : ∀ q ∈ p.platforms, i.hasSlice q = true) :
    p.restore i = i.writeAndFlush p.ranges := by
  have hfind : (p.platforms.find? fun q => !i.hasSlice q) = none := by
    simpa [List.find?_eq_none] using hslices
  have hnone : p.misfit? i = none := by
    rw [misfit?, if_neg (not_not.2 hsize), hfind]
    rfl
  rw [restore, hnone]

end RestorePoint

/-- Captured bytes cover what the patches over them cover. -/
theorem Bytes.covers_captured {b : ByteArray} {ps : List Patch} (hfit : ∀ p ∈ ps, p.Fits b.size)
    {c : Patch} (hc : c ∈ captured b ps) {k : Nat} (hk : c.Covers k) : ∃ p ∈ ps, p.Covers k := by
  obtain ⟨p, hp, rfl⟩ := mem_captured.1 hc
  have hin := hfit p hp
  exact ⟨p, hp, by grind⟩

namespace Engine

/-- **A restore point is enough to undo a run.** A run that succeeds hands out a restore point, which
is loaded as itself once it is saved, if the size of the image is a word and the time of the run has
a date. Restoring it succeeds in every image of the same size, with a slice for each of its
platforms and a store that works, that agrees with the patched one outside the captured ranges. It
persists once, and leaves the bytes that stood in the image before the run in the buffer and in the
store. -/
theorem restore_of_apply {e : Engine} {now : Timestamp} {i i' : Image} {bodies : List Body}
    {o : Outcome} (h : e.apply now i bodies = (i', .ok o)) :
    ∃ p, o.transaction.restorePoint? = some p ∧
      (i.size < wordLimit → now.Known → RestorePoint.load p.save = .ok p) ∧
      ∀ j : Image, j.size = i.size → (∀ q ∈ p.platforms, j.hasSlice q = true) →
        (∀ k : Nat, (∀ r ∈ p.ranges, ¬ r.Covers k) → j.buffer[k]? = i'.buffer[k]?) →
          j.store.fault = none →
            ∃ j', p.restore j = (j', .ok ()) ∧ j'.store.persists = j.store.persists + 1 ∧
              j'.buffer = i.buffer ∧ j'.store.bytes = i.buffer := by
  obtain ⟨reports, t, i₁, h₁, hready, -, hi⟩ :=
    (e.apply_captured_cases now i bodies).resolve_left fun ⟨dirty, fault, hfault⟩ => by
      rw [h] at hfault
      cases hfault
  rw [h] at h₁
  cases h₁
  have hbuffer := hi.buffer_eq
  refine ⟨⟨t.catalogVersion, t.platforms, t.fileLength, now, Bytes.captured i.buffer t.patches⟩,
    rfl, fun hword hnow => RestorePoint.load_save
      ⟨hready.fileLength ▸ hword, fun r hr => ?_, hnow⟩,
    fun j hsize hslices hagree hfault => ?_⟩
  · have hfits : r.offset + r.bytes.length ≤ i.size := Bytes.fits_captured hready.fits hr
    omega
  · -- outside the patches the other image holds what the run has found
    have hfound : ∀ k : Nat, (∀ p ∈ t.patches, ¬ p.Covers k) → j.buffer[k]? = i.buffer[k]? := by
      intro k hk
      have hranges : ∀ r ∈ Bytes.captured i.buffer t.patches, ¬ r.Covers k := fun r hr hrk =>
        let ⟨p, hp, hpk⟩ := Bytes.covers_captured hready.fits hr hrk
        hk p hp hpk
      rw [hagree k hranges, hbuffer, Bytes.getElem?_overwriteAll_of_not_covers hready.fits hk]
    have hrestore := RestorePoint.restore_eq (hsize.trans hready.fileLength) hslices
    rw [Image.writeAndFlush_captured hready.fits hsize hfound hfault] at hrestore
    exact ⟨_, hrestore, rfl, rfl, rfl⟩

/-- The image that a run has patched, with the patched bytes overwritten since. -/
def damaged : Image :=
  let patched := (relapsing.apply ⟨0, 0⟩ relapsingImage []).1
  { patched with buffer := Bytes.overwrite patched.buffer 20 [1, 2] }

/-- What the run has overwritten is two bytes at 20. So its restore point gives back the file, from
its text too, although other bytes stand there now. -/
theorem restore_damaged :
    ∃ p, RestorePoint.load p.save = .ok p ∧ p.ranges = [⟨20, [0xAA, 0]⟩] ∧
      damaged.buffer ≠ relapsingImage.buffer ∧
      ∃ j', p.restore damaged = (j', .ok ()) ∧ j'.store.persists = 2 ∧
        j'.buffer = relapsingImage.buffer ∧ j'.store.bytes = relapsingImage.buffer := by
  obtain ⟨i', o, h, hi'⟩ := apply_relapsing
  obtain ⟨p, hp, hload, hrestore⟩ := restore_of_apply h
  have hpoint : (relapsing.apply ⟨0, 0⟩ relapsingImage []).2.toOption.bind
      (fun o => o.transaction.restorePoint?) =
        some ⟨"1", [.linux], 24, ⟨0, 0⟩, [⟨20, [0xAA, 0]⟩]⟩ := by
    decide +kernel
  rw [h] at hpoint
  obtain rfl : p = _ := Option.some.inj (hp.symm.trans hpoint)
  have hfits : 20 + [1, 2].length ≤ i'.buffer.size := by
    rw [hi']
    decide +kernel
  have hdamaged : damaged.buffer = Bytes.overwrite i'.buffer 20 [1, 2] := by
    rw [hi']
    rfl
  have hagree : ∀ k : Nat, (∀ r ∈ [(⟨20, [0xAA, 0]⟩ : Patch)], ¬ r.Covers k) →
      damaged.buffer[k]? = i'.buffer[k]? := fun k hk => by
    have hk := hk _ List.mem_cons_self
    grind
  have hstored : damaged.store.persists = 1 := by decide +kernel
  obtain ⟨j', hok, hpersists, hbuffer, hbytes⟩ :=
    hrestore damaged (by decide +kernel) (by decide +kernel) hagree (by decide +kernel)
  exact ⟨_, hload (by decide +kernel) ⟨by decide +kernel, by decide⟩, rfl, by decide +kernel, j',
    hok, hpersists.trans (by rw [hstored]), hbuffer, hbytes⟩

end Engine
end BinaryPatch
