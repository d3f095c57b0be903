/-
# Catalogs read back from their documents

A catalog is written as a document and read back as itself, whatever it holds: it need not be sound
(`Catalog.roundTrip`). The order of the fields plays no part, since some writers of JSON sort them
by their names, and others keep them as they come (`Json.Rearranged`).

Every record is read by a draft that takes in one field after another. What a record's own fields
leave in the draft depends only on which of them have been met (`Json.Adds`), so the draft is the
same at the end of every order (`Json.Rearranged.foldlM_fields`).
-/

import BinaryPatch.Command.Run
import BinaryPatch.Proofs.Address
import BinaryPatch.Proofs.Catalog
import BinaryPatch.Proofs.Json
import Mathlib.Data.List.Forall2
import Mathlib.Data.List.Nodup
import Mathlib.Data.List.Perm.Basic

namespace BinaryPatch

/-! ## The order of fields -/

namespace Json

/-- The same document, but for the order in which the fields of its objects stand. -/
inductive Rearranged : Json → Json → Prop where
  | refl (j : Json) : Rearranged j j
  | arr {items items' : List Json} (length : items'.length = items.length)
      (item : ∀ (k : Nat) (j j' : Json),
        items[k]? = some j → items'[k]? = some j' → Rearranged j j') :
      Rearranged (.arr items) (.arr items')
  | obj {fields fields' : List (String × Json)}
      (names : (fields'.map Prod.fst).Perm (fields.map Prod.fst))
      (field : ∀ name j j', (name, j) ∈ fields → (name, j') ∈ fields' → Rearranged j j') :
      Rearranged (.obj fields) (.obj fields')

/-- Whatever order its fields stand in, the document is read as this value. -/
def ReadAs {α : Type} (read : Json → Read α) (j : Json) (a : α) : Prop :=
  ∀ j', j.Rearranged j' → read j' = .ok a

/-- A field brings a draft on by itself, whichever fields have been met before. -/
def Adds {δ : Type} (add : δ → String × Json → Read δ) (draft : (String → Bool) → δ)
    (field : String × Json) : Prop :=
  ∀ j, field.2.Rearranged j → ∀ met, met field.1 = false →
    add (draft met) (field.1, j) = .ok (draft fun name => met name || name == field.1)

namespace Rearranged

variable {fields fields' : List (String × Json)} {j : Json}

theorem of_names (names : (fields'.map Prod.fst).Perm (fields.map Prod.fst))
    (field : ∀ f ∈ fields, ∀ f' ∈ fields', f.1 = f'.1 → f.2.Rearranged f'.2) :
    (Json.obj fields).Rearranged (.obj fields') :=
  .obj names fun name j j' hj hj' => field (name, j) hj (name, j') hj' rfl

theorem singleton {j' : Json} (h : j.Rearranged j') : (Json.arr [j]).Rearranged (.arr [j']) :=
  .arr rfl fun k a a' ha ha' => by
    cases k with
    | zero =>
      cases ha
      cases ha'
      exact h
    | succ k => cases ha

theorem eq_str {text : String} (h : (Json.str text).Rearranged j) : j = .str text := by
  cases h
  rfl

theorem eq_int {value : Int} (h : (Json.int value).Rearranged j) : j = .int value := by
  cases h
  rfl

theorem exists_items {items : List Json} (h : (Json.arr items).Rearranged j) :
    ∃ items', j = .arr items' ∧ List.Forall₂ Rearranged items items' := by
  cases h with
  | refl => exact ⟨items, rfl, List.forall₂_same.2 fun j _ => .refl j⟩
  | arr hlength hitem =>
    refine ⟨_, rfl, List.forall₂_iff_get.2 ⟨hlength.symm, fun k h₁ h₂ => ?_⟩⟩
    exact hitem k _ _ (List.getElem?_eq_getElem h₁) (List.getElem?_eq_getElem h₂)

/-- Every field stands for one of the same name. -/
theorem exists_fields (h : (Json.obj fields).Rearranged j) :
    ∃ fields', j = .obj fields' ∧ (fields'.map Prod.fst).Perm (fields.map Prod.fst) ∧
      ∀ f' ∈ fields', ∃ f ∈ fields, f.1 = f'.1 ∧ f.2.Rearranged f'.2 := by
  cases h with
  | refl => exact ⟨fields, rfl, .refl _, fun f hf => ⟨f, hf, rfl, .refl _⟩⟩
  | obj hnames hfield =>
    refine ⟨_, rfl, hnames, fun f' hf' => ?_⟩
    obtain ⟨f, hf, hname⟩ := List.mem_map.1 (hnames.mem_iff.1 (List.mem_map_of_mem hf'))
    exact ⟨f, hf, hname, hfield f'.1 f.2 f'.2 (hname ▸ hf) hf'⟩

/-- The fields of some names are rearranged as well. -/
theorem filter (h : (Json.obj fields).Rearranged (.obj fields')) (keep : String → Bool) :
    (Json.obj (fields.filter fun f => keep f.1)).Rearranged
      (.obj (fields'.filter fun f => keep f.1)) := by
  have hnames : ∀ fs : List (String × Json),
      (fs.filter fun f => keep f.1).map Prod.fst = (fs.map Prod.fst).filter keep := fun fs =>
    (List.filter_map ..).symm
  cases h with
  | refl => exact .refl _
  | obj hperm hfield =>
    refine .obj ?_ fun name j j' hf hf' => ?_
    · rw [hnames, hnames]
      exact hperm.filter keep
    · exact hfield name j j' (List.mem_of_mem_filter hf) (List.mem_of_mem_filter hf')

end Rearranged

/-! ## Drafts -/

variable {δ : Type} {add : δ → String × Json → Read δ} {draft : (String → Bool) → δ}

/-- Fields that each bring the draft on make the same of it in every order. -/
theorem foldlM_fields {fields : List (String × Json)} (hnodup : (fields.map Prod.fst).Nodup)
    (hadd : ∀ f ∈ fields, ∀ met, met f.1 = false →
      add (draft met) f = .ok (draft fun name => met name || name == f.1))
    {met : String → Bool} (hmet : ∀ f ∈ fields, met f.1 = false) :
    fields.foldlM add (draft met) =
      .ok (draft fun name => met name || (fields.map Prod.fst).contains name) := by
  induction fields generalizing met with
  | nil =>
    simp only [List.foldlM_nil, List.map_nil, List.contains_nil, Bool.or_false]
    rfl
  | cons f rest ih =>
    rw [List.map_cons, List.nodup_cons] at hnodup
    have hrest : ∀ g ∈ rest, (met g.1 || g.1 == f.1) = false := fun g hg => by
      have hne : g.1 ≠ f.1 := fun heq => hnodup.1 (heq ▸ List.mem_map_of_mem hg)
      simp [hmet g (List.mem_cons_of_mem f hg), hne]
    rw [foldlM_field (hadd f List.mem_cons_self met (hmet f List.mem_cons_self)),
      ih hnodup.2 (fun g hg => hadd g (List.mem_cons_of_mem f hg)) hrest]
    simp only [List.map_cons, List.contains_cons, Bool.or_assoc]

/-- **The draft at the end of a rearranged object** is the one with all of its fields. -/
theorem Rearranged.foldlM_fields {fields fields' : List (String × Json)} {start : δ}
    (h : (Json.obj fields).Rearranged (.obj fields')) (draft : (String → Bool) → δ)
    (hstart : draft (fun _ => false) = start) (hnodup : (fields.map Prod.fst).Nodup)
    (hadd : ∀ f ∈ fields, Adds add draft f) :
    fields'.foldlM add start = .ok (draft (fields.map Prod.fst).contains) := by
  obtain ⟨_, heq, hnames, hfields⟩ := h.exists_fields
  cases heq
  rw [← hstart, Json.foldlM_fields (hnames.nodup_iff.2 hnodup) (fun f' hf' => ?_) fun _ _ => rfl]
  · have hcontains : (fields'.map Prod.fst).contains = (fields.map Prod.fst).contains := by
      funext name
      exact Bool.eq_iff_iff.2 (by simp only [List.contains_iff_mem]; exact hnames.mem_iff)
    simp only [Bool.false_or, hcontains]
  · obtain ⟨f, hf, hname, hj⟩ := hfields f' hf'
    rw [← hname]
    exact hname ▸ hadd f hf f'.2 hj

/-- A field that is read once brings a draft on, if the draft keeps what was read. -/
theorem ReadAs.adds {α : Type} {read : Json → Read α} {name : String} {j : Json} {a : α}
    (h : ReadAs read j a)
    (hadd : ∀ met j', met name = false → once read none j' = .ok (some a) →
      add (draft met) (name, j') = .ok (draft fun n => met n || n == name)) :
    Adds add draft (name, j) := fun j' hj met hmet =>
  hadd met j' hmet (once_none (h j' hj))

/-! ## Leaves and lists -/

theorem readAs_string (text : String) : ReadAs asString (.str text) text := fun _ h => by
  rw [h.eq_str]
  rfl

theorem readAs_word (n : UInt64) : ReadAs asWord (.int n.toNat) n := fun _ h => by
  rw [h.eq_int, asWord_int n.toNat_lt, UInt64.ofNat_toNat]

theorem readAs_int64 (n : Int64) : ReadAs asInt64 (.int n.toInt) n := fun _ h => by
  have hn : Int64.minValue.toInt ≤ n.toInt ∧ n.toInt ≤ Int64.maxValue.toInt :=
    ⟨Int64.minValue_le_toInt n, Int64.toInt_le n⟩
  rw [h.eq_int, asInt64, if_pos hn, Int64.ofInt_toInt]

theorem readAs_bytes (bytes : List UInt8) : ReadAs asBytes (Hex.toJson bytes) bytes := fun _ h => by
  simp [Rearranged.eq_str h]

theorem readAs_address (a : UInt64) : ReadAs asAddress? (.str (Address.format a)) (some a) :=
  fun _ h => by
  rw [h.eq_str]
  simp [asAddress?, asOption, asString, bind, Except.bind, Except.map]

/-- A name is read as what bears it. -/
theorem readAs_name {α : Type} {named? : String → Option α} {name : String} {a : α}
    (h : named? name = some a) : ReadAs (asName named?) (.str name) a := fun _ hj => by
  rw [hj.eq_str]
  simp only [asName, h]

/-- A value that is no `null` is read as one that is there. -/
theorem ReadAs.option {α : Type} {read : Json → Read α} {j : Json} {a : α} (h : ReadAs read j a)
    (hnull : j ≠ .null) : ReadAs (asOption read) j (some a) := fun j' hj => by
  have hread := h j' hj
  cases j' with
  | null =>
    cases hj
    exact absurd rfl hnull
  | _ => simp only [asOption, hread, Except.map]

/-- A list is read back if every item is. -/
theorem readAs_list {α : Type} {read : Json → Read α} {write : α → Json} {as : List α}
    (h : ∀ a ∈ as, ReadAs read (write a) a) :
    ReadAs (asList read) (.arr (as.map write)) as := fun j hj => by
  obtain ⟨items, rfl, hitems⟩ := hj.exists_items
  rw [asList]
  clear hj
  induction as generalizing items with
  | nil =>
    cases hitems
    rfl
  | cons a rest ih =>
    obtain _ | ⟨hitem, hitems⟩ := hitems
    rw [readAll, h a List.mem_cons_self _ hitem,
      ih (fun b hb => h b (List.mem_cons_of_mem a hb)) _ hitems]
    rfl

end Json

/-! ## Records -/

theorem Platform.readAs_toJson (p : Platform) : Json.ReadAs ofJson p.toJson p :=
  Json.readAs_name (by cases p <;> rfl)

theorem Platform.name_injective {p q : Platform} (h : p.name = q.name) : p = q := by
  revert h
  cases p <;> cases q <;> decide

theorem Category.readAs_name (c : Category) : Json.ReadAs ofJson (.str c.name) c :=
  Json.readAs_name (by cases c <;> rfl)

namespace Signature

/-- The draft of a signature of which some fields have been met. -/
def draft (s : Signature) (met : String → Bool) : Draft where
  pattern := if met "pattern" then some s.pattern else none
  anchor := if met "anchor" then some s.anchor else none

theorem readAs_toJson (s : Signature) : Json.ReadAs ofJson s.toJson s := fun j h => by
  obtain ⟨fields, rfl, -⟩ := h.exists_fields
  have hread : fields.foldlM Draft.add {} = .ok ⟨some s.pattern, some s.anchor⟩ :=
    h.foldlM_fields s.draft rfl (by simp) <| by
      simp only [List.forall_mem_cons]
      refine ⟨(Json.readAs_string s.pattern).adds ?_, (Json.readAs_word s.anchor).adds ?_,
        fun _ h => absurd h List.not_mem_nil⟩ <;>
      exact fun met j hmet honce => by simp [Draft.add, draft, hmet, honce]
  simp only [ofJson, Json.fields, bind, Except.bind, hread]
  rfl

end Signature

namespace Payload

theorem Kind.readAs_name (kind : Kind) : Json.ReadAs Kind.ofJson (.str kind.name) kind :=
  fun j h => by
  rw [h.eq_str]
  cases kind <;> rfl

/-- Wherever the kind stands, it is split from the rest. -/
theorem exists_split (kind : Kind) {value j : Json}
    (hvalue : ∀ j', value.Rearranged j' → j'.intact = true)
    (h : (Json.obj [("kind", .str kind.name), (kind.fieldName, value)]).Rearranged j) :
    ∃ rest, split j = .ok (kind, rest) ∧
      (Json.obj [(kind.fieldName, value)]).Rearranged rest := by
  have hother : kind.fieldName ≠ "kind" := by cases kind <;> decide
  obtain ⟨fields, rfl, -⟩ := h.exists_fields
  refine ⟨.obj (fields.filter fun f => f.1 != "kind"), ?_, ?_⟩
  · simp only [split, bind, Except.bind]
    rw [h.foldlM_fields (fun met => if met "kind" then some kind else none) ?_ ?_ ?_]
    · simp only [List.map_cons, List.contains_cons, BEq.rfl, Bool.true_or, if_true]
      rfl
    · rfl
    · simp [hother.symm]
    · simp only [List.forall_mem_cons]
      refine ⟨kind.readAs_name.adds fun met j hmet honce => by simp [hmet, honce],
        fun j hj met _ => ?_, fun _ h => absurd h List.not_mem_nil⟩
      simp [hother, hother.symm, Json.skip, hvalue j hj]
  · have hfilter := h.filter fun name => name != "kind"
    simpa [hother] using hfilter

theorem readAs_readOnly {α : Type} {kind : Kind} {read : Json → Json.Read α} {j : Json} {a : α}
    (h : Json.ReadAs read j a) :
    Json.ReadAs (readOnly kind read) (.obj [(kind.fieldName, j)]) a := fun j' hj => by
  obtain ⟨fields, rfl, -⟩ := hj.exists_fields
  simp only [readOnly, Json.fields, bind, Except.bind]
  rw [hj.foldlM_fields (fun met => if met kind.fieldName then some a else none) ?_ ?_ ?_]
  · simp only [List.map_cons, List.contains_cons, BEq.rfl, Bool.true_or, if_true]
    rfl
  · rfl
  · simp
  · exact List.forall_mem_singleton.2 <| h.adds fun met j hmet honce => by simp [hmet, honce]

theorem readAs_toJson (p : Payload) : Json.ReadAs ofJson p.toJson p := fun j h => by
  cases p with
  | bytes written =>
    have hintact : ∀ j, (Hex.toJson written).Rearranged j → j.intact = true := fun j hj => by
      rw [Json.Rearranged.eq_str hj]
      rfl
    obtain ⟨rest, hsplit, hrest⟩ := exists_split .bytes hintact h
    simp only [ofJson, bind, Except.bind, hsplit, readAs_readOnly (Json.readAs_bytes _) _ hrest]
    rfl
  | slot length =>
    have hintact : ∀ j, (Json.int length.toNat).Rearranged j → j.intact = true := fun j hj => by
      rw [hj.eq_int]
      rfl
    obtain ⟨rest, hsplit, hrest⟩ := exists_split .slot hintact h
    simp only [ofJson, bind, Except.bind, hsplit, readAs_readOnly (Json.readAs_word _) _ hrest]
    rfl

end Payload

namespace Variant

/-- The draft of a variant of which some fields have been met. -/
def draft (v : Variant) (met : String → Bool) : Draft where
  expected := if met "expected" then some v.expected else none
  signature := if met "signature" then some v.signature else none
  payload := if met "payload" then some v.payload else none
  lastKnown := if met "last_known_va" then some v.lastKnown else none

theorem readAs_toJson (v : Variant) : Json.ReadAs ofJson v.toJson v := fun j h => by
  obtain ⟨fields, rfl, -⟩ := h.exists_fields
  have hread : fields.foldlM Draft.add {} = _ := h.foldlM_fields v.draft rfl
    (by cases v.signature <;> cases v.lastKnown <;> simp) <| by
      simp only [List.forall_mem_append, List.forall_mem_singleton, Option.mem_toList,
        Option.map_eq_some_iff]
      refine ⟨⟨⟨(Json.readAs_bytes v.expected).adds fun met j hmet honce => by
          simp [Draft.add, draft, hmet, honce], ?_⟩,
        v.payload.readAs_toJson.adds fun met j hmet honce => by
          simp [Draft.add, draft, hmet, honce]⟩, ?_⟩
      · rintro f ⟨s, hs, rfl⟩
        exact (s.readAs_toJson.option Json.noConfusion).adds fun met j hmet honce => by
          simp [Draft.add, draft, hmet, honce, hs]
      · rintro f ⟨a, ha, rfl⟩
        exact (Json.readAs_address a).adds fun met j hmet honce => by
          simp [Draft.add, draft, hmet, honce, ha]
  simp only [ofJson, Json.fields, bind, Except.bind, hread]
  cases v with
  | mk expected signature payload lastKnown => cases signature <;> cases lastKnown <;> rfl

end Variant

namespace PerPlatform

variable {α : Type} {t : PerPlatform α} {p : Platform} {a : α}

theorem eq_of_get? {t' : PerPlatform α} (h : ∀ p, t.get? p = t'.get? p) : t = t' := by
  cases t
  cases t'
  rw [mk.injEq]
  exact ⟨h .windows, h .linux, h .macos, h .macosArm64⟩

theorem get?_insert (t : PerPlatform α) (p : Platform) (a : α) (q : Platform) :
    (t.insert p a).get? q = if q = p then some a else t.get? q := by
  cases p <;> cases q <;> rfl

/-- The platforms of a table, in their order. -/
theorem map_fst_toList (t : PerPlatform α) :
    t.toList.map Prod.fst = Platform.all.filter t.has := by
  rw [toList, List.map_filterMap, ← List.filterMap_eq_filter]
  refine List.filterMap_congr fun p _ => ?_
  cases hp : t.get? p <;> simp [Option.guard, has, hp]

/-- The entries of a table whose platforms have been met by their names. -/
def draft (t : PerPlatform α) (met : String → Bool) : PerPlatform α where
  windows := if met Platform.windows.name then t.windows else none
  linux := if met Platform.linux.name then t.linux else none
  macos := if met Platform.macos.name then t.macos else none
  macosArm64 := if met Platform.macosArm64.name then t.macosArm64 else none

theorem get?_draft (t : PerPlatform α) (met : String → Bool) (p : Platform) :
    (t.draft met).get? p = if met p.name then t.get? p else none := by
  cases p <;> rfl

theorem insert_draft (h : t.get? p = some a) (met : String → Bool) :
    (t.draft met).insert p a = t.draft fun name => met name || name == p.name := by
  refine eq_of_get? fun q => ?_
  rw [get?_insert, get?_draft, get?_draft]
  by_cases hq : q = p
  · simp [hq, h]
  · have hname : q.name ≠ p.name := fun heq => hq (Platform.name_injective heq)
    simp [hq, hname]

theorem draft_eq {met : String → Bool} (h : ∀ p a, t.get? p = some a → met p.name = true) :
    t.draft met = t := by
  refine eq_of_get? fun p => ?_
  rw [get?_draft]
  cases hp : t.get? p with
  | none => exact ite_self _
  | some a => rw [h p a hp, if_pos rfl]

/-- A table is written as one field for each platform that it has. -/
theorem exists_toJson (t : PerPlatform Variant) :
    ∃ fields, t.toJson = .obj fields ∧
      fields.map Prod.fst = (Platform.all.filter t.has).map Platform.name ∧
      ∀ f ∈ fields, ∃ p v, t.get? p = some v ∧ f = (p.name, Variant.toJson v) := by
  refine ⟨_, rfl, ?_, fun f hf => ?_⟩
  · rw [← map_fst_toList, List.map_map, List.map_map]
    rfl
  · obtain ⟨⟨p, v⟩, hv, rfl⟩ := List.mem_map.1 hf
    exact ⟨p, v, mem_toList_iff.1 hv, rfl⟩

theorem readAs_toJson (t : PerPlatform Variant) : Json.ReadAs ofJson t.toJson t := fun j h => by
  obtain ⟨written, hwritten, hnames, hwrites⟩ := t.exists_toJson
  rw [hwritten] at h
  obtain ⟨fields, rfl, -⟩ := h.exists_fields
  have hall : t.draft ((Platform.all.filter t.has).map Platform.name).contains = t :=
    draft_eq fun p v hv => by
      have hp : p ∈ Platform.all.filter t.has := by
        rw [List.mem_filter, has, hv]
        exact ⟨by cases p <;> decide, rfl⟩
      exact List.contains_iff_mem.2 (List.mem_map_of_mem hp)
  have hempty : t.draft (fun _ => false) = {} := rfl
  rw [ofJson, h.foldlM_fields t.draft hempty ?_ fun f hf j' hj' met _ => ?_, hnames, hall]
  · rw [hnames]
    exact (List.filter_sublist.map Platform.name).nodup (by decide)
  · obtain ⟨p, v, hv, rfl⟩ := hwrites f hf
    have hname : Platform.ofName? p.name = some p := by cases p <;> rfl
    simp only [hname, v.readAs_toJson j' hj', bind, Except.bind, insert_draft hv]
    rfl

end PerPlatform

namespace Target

/-- The draft of a target of which some fields have been met. -/
def draft (t : Target) (met : String → Bool) : Draft where
  id := if met "id" then some t.id else none
  category := if met "category" then some t.category else none
  description := if met "description" then some t.description else none
  variants := if met "variants" then some t.variants else none

theorem readAs_toJson (t : Target) : Json.ReadAs ofJson t.toJson t := fun j h => by
  obtain ⟨fields, rfl, -⟩ := h.exists_fields
  have hread : fields.foldlM Draft.add {} =
      .ok ⟨some t.id, some t.category, some t.description, some t.variants⟩ :=
    h.foldlM_fields t.draft rfl (by simp) <| by
      simp only [List.forall_mem_cons]
      refine ⟨(Json.readAs_string t.id).adds ?_, t.category.readAs_name.adds ?_,
        (Json.readAs_string t.description).adds ?_, t.variants.readAs_toJson.adds ?_,
        fun _ h => absurd h List.not_mem_nil⟩ <;>
      exact fun met j hmet honce => by simp [Draft.add, draft, hmet, honce]
  simp only [ofJson, Json.fields, bind, Except.bind, hread]
  rfl

end Target

namespace Rule

/-- The draft of a rule of which some fields have been met. -/
def draft (r : Rule) (met : String → Bool) : Draft where
  platform := if met "platform" then some r.platform else none
  source := if met "from" then some r.source else none
  dest := if met "to" then some r.dest else none
  delta := if met "delta" then some r.delta else none
  description := if met "description" then some r.description else none

theorem readAs_toJson (r : Rule) : Json.ReadAs ofJson r.toJson r := fun j h => by
  obtain ⟨fields, rfl, -⟩ := h.exists_fields
  have hread : fields.foldlM Draft.add {} =
      .ok ⟨some r.platform, some r.source, some r.dest, some r.delta, some r.description⟩ :=
    h.foldlM_fields r.draft rfl (by simp) <| by
      simp only [List.forall_mem_cons]
      refine ⟨r.platform.readAs_toJson.adds ?_, (Json.readAs_string r.source).adds ?_,
        (Json.readAs_string r.dest).adds ?_, (Json.readAs_int64 r.delta).adds ?_,
        (Json.readAs_string r.description).adds ?_, fun _ h => absurd h List.not_mem_nil⟩ <;>
      exact fun met j hmet honce => by simp [Draft.add, draft, hmet, honce]
  simp only [ofJson, Json.fields, bind, Except.bind, hread]
  rfl

end Rule

namespace Catalog

/-- The draft of a catalog of which some fields have been met. -/
def draft (c : Catalog) (met : String → Bool) : Draft where
  version := if met "version" then some c.version else none
  targets := if met "targets" then some c.targets else none
  rules := if met "derivations" then some c.rules else none

theorem readAs_toJson (c : Catalog) : Json.ReadAs ofJson c.toJson c := fun j h => by
  obtain ⟨fields, rfl, -⟩ := h.exists_fields
  have htargets := Json.readAs_list fun t (_ : t ∈ c.targets) => t.readAs_toJson
  have hrules := Json.readAs_list fun r (_ : r ∈ c.rules) => r.readAs_toJson
  have hread : fields.foldlM Draft.add {} = .ok ⟨some c.version, some c.targets, some c.rules⟩ :=
    h.foldlM_fields c.draft rfl (by simp) <| by
      simp only [List.forall_mem_cons]
      refine ⟨(Json.readAs_string c.version).adds ?_, htargets.adds ?_, hrules.adds ?_,
        fun _ h => absurd h List.not_mem_nil⟩ <;>
      exact fun met j hmet honce => by simp [Draft.add, draft, hmet, honce]
  simp only [ofJson, Json.fields, bind, Except.bind, hread]
  rfl

end Catalog

/-! ## Saved catalogs -/

-- what is written out of a catalog has a text of its own, whatever stands in the catalog

@[simp]
theorem Signature.plain_toJson (s : Signature) : s.toJson.plain = true := rfl

@[simp]
theorem Payload.plain_toJson (p : Payload) : p.toJson.plain = true := by
  cases p <;> rfl

@[simp]
theorem Variant.plain_toJson (v : Variant) : v.toJson.plain = true := by
  rw [toJson, Json.plain, Json.plainFields_iff]
  simp only [List.forall_mem_append, List.forall_mem_singleton, Option.mem_toList,
    Option.map_eq_some_iff]
  refine ⟨⟨⟨rfl, ?_⟩, v.payload.plain_toJson⟩, ?_⟩
  · rintro f ⟨s, -, rfl⟩
    simp
  · rintro f ⟨a, -, rfl⟩
    rfl

@[simp]
theorem PerPlatform.plain_toJson (t : PerPlatform Variant) : t.toJson.plain = true := by
  rw [toJson, Json.plain, Json.plainFields_iff, List.forall_mem_map]
  simp

@[simp]
theorem Target.plain_toJson (t : Target) : t.toJson.plain = true := by
  simp [toJson, Json.plain, Json.plainFields]

namespace FileSystem

@[simp] theorem contents_put (fs : FileSystem) (path : String) (bytes : ByteArray) :
    (fs.put path bytes).contents path = some bytes := by
  simp [contents, put]

/-- A file that holds a text is read as the text. -/
theorem readText_eq_ok {fs : FileSystem} {path text : String} (hfault : fs.readFault path = none)
    (h : fs.contents path = some text.toUTF8) : fs.readText path = .ok text := by
  have htext : String.fromUTF8? text.toUTF8 = some text := dif_pos text.isValidUTF8
  simp only [readText, read, hfault, h, htext]

theorem write_eq_ok {fs : FileSystem} {path : String} {bytes : ByteArray}
    (h : fs.writeFault path = none) : fs.write path bytes = .ok (fs.put path bytes) := by
  rw [write, h]

end FileSystem

namespace Catalog

@[simp]
theorem plain_toJson (c : Catalog) : c.toJson.plain = true := by
  rw [toJson, Json.plain, Json.plainFields_iff]
  simp only [List.forall_mem_cons]
  exact ⟨rfl, Json.plain_arr_map fun t _ => t.plain_toJson, Json.plain_arr_map fun r _ => rfl,
    fun _ h => absurd h List.not_mem_nil⟩

/-- **What is saved is loaded again**, if it is accepted at all. -/
theorem load_save (c : Catalog) : load c.save = c.validate.map fun _ => c := by
  rw [load, save, Json.decode_render ofJson c.plain_toJson, c.readAs_toJson _ (.refl _)]
  dsimp only
  cases c.validate <;> rfl

/-- The file of a saved catalog is read as the catalog. -/
theorem readCatalog_of_write {fs fs' : FileSystem} {path : String} {c : Catalog}
    (hread : fs.readFault path = none) (hwrite : fs.write path c.save.toUTF8 = .ok fs') :
    Command.readCatalog fs' path = c.validate.map fun _ => c := by
  unfold FileSystem.write at hwrite
  cases hfault : fs.writeFault path with
  | some fault => simp [hfault] at hwrite
  | none =>
    simp only [hfault, Except.ok.injEq] at hwrite
    subst hwrite
    have htext : (fs.put path c.save.toUTF8).readText path = .ok c.save :=
      FileSystem.readText_eq_ok hread (fs.contents_put path _)
    simp only [Command.readCatalog, htext, load_save]

/-- **A catalog is read back as itself**, whatever it holds: from its document, in which the fields
may come in any order, and if it is accepted also from its text, and from the file in which it has
been saved. -/
theorem roundTrip (c : Catalog) :
    ofJson c.toJson = .ok c ∧
    (∀ j, c.toJson.Rearranged j → ofJson j = .ok c) ∧
    load c.save = (c.validate.map fun _ => c) ∧
    ∀ (fs fs' : FileSystem) (path : String), fs.readFault path = none →
      fs.write path c.save.toUTF8 = .ok fs' →
        Command.readCatalog fs' path = c.validate.map fun _ => c :=
  ⟨c.readAs_toJson _ (.refl _), c.readAs_toJson, c.load_save,
    fun _ _ _ hread hwrite => readCatalog_of_write hread hwrite⟩

/-- A site that is found by a signature or near an address. -/
def signedSite : Variant where
  expected := [1]
  signature := some ⟨"01 ??", 1⟩
  payload := .bytes [2, 255]
  lastKnown := some 0xFFFFFFFFFFFFFFFF

/-- Its document, with the fields sorted by their names. -/
def signedSiteSorted : Json :=
  .obj [
    ("expected", .str "01"),
    ("last_known_va", .str "0xFFFFFFFFFFFFFFFF"),
    ("payload", .obj [("bytes", .str "02 FF"), ("kind", .str "bytes")]),
    ("signature", .obj [("anchor", .int 1), ("pattern", .str "01 ??")])]

theorem rearranged_signedSite : signedSite.toJson.Rearranged signedSiteSorted := by
  have hexpected : Hex.toJson [1] = .str "01" := rfl
  have hwritten : Hex.toJson [2, 255] = .str "02 FF" := rfl
  have haddress : Address.format 0xFFFFFFFFFFFFFFFF = "0xFFFFFFFFFFFFFFFF" := by decide +kernel
  have hpayload : (Payload.toJson (.bytes [2, 255])).Rearranged
      (.obj [("bytes", .str "02 FF"), ("kind", .str "bytes")]) :=
    .of_names (by decide) (by simp [hwritten, Payload.Kind.name, Json.Rearranged.refl])
  have hsignature : (Signature.toJson ⟨"01 ??", 1⟩).Rearranged
      (.obj [("anchor", .int 1), ("pattern", .str "01 ??")]) :=
    .of_names (by decide) (by simp [Json.Rearranged.refl])
  exact .of_names (by decide) (by
    simp [signedSite, hexpected, haddress, hpayload, hsignature, Json.Rearranged.refl])

/-- A site that is found by other targets. Its fields come sorted. -/
def slotSite : Variant where
  expected := [1]
  payload := .slot 0xFFFFFFFFFFFFFFFF

/-- A target with both sites. -/
def signedTarget : Target where
  id := "A"
  category := .filter
  variants := { windows := some signedSite, macosArm64 := some slotSite }

/-- Its document, with the fields sorted by their names. -/
def signedTargetSorted : Json :=
  .obj [
    ("category", .str "Filter"),
    ("description", .str ""),
    ("id", .str "A"),
    ("variants", .obj [("macos-arm64", slotSite.toJson), ("windows", signedSiteSorted)])]

theorem rearranged_signedTarget : signedTarget.toJson.Rearranged signedTargetSorted := by
  have hvariants : (PerPlatform.toJson
      { windows := some signedSite, macosArm64 := some slotSite }).Rearranged
      (.obj [("macos-arm64", slotSite.toJson), ("windows", signedSiteSorted)]) :=
    .of_names (by decide) (by
      simp [PerPlatform.toList, Platform.all, PerPlatform.get?, Platform.name,
        rearranged_signedSite, Json.Rearranged.refl])
  exact .of_names (by decide) (by
    simp [signedTarget, Category.name, hvariants, Json.Rearranged.refl])

/-- It is read from the sorted document, and loaded from the file in which it has been saved. -/
theorem roundTrip_signedTarget :
    ofJson (.obj [("derivations", .arr []), ("targets", .arr [signedTargetSorted]),
      ("version", .str "1")]) = .ok ⟨"1", [signedTarget], []⟩ ∧
    Command.readCatalog (FileSystem.put ⟨[], id, fun _ => none, fun _ => none⟩ "c"
      (save ⟨"1", [signedTarget], []⟩).toUTF8) "c" = .ok ⟨"1", [signedTarget], []⟩ := by
  obtain ⟨-, hread, -, hfile⟩ := roundTrip ⟨"1", [signedTarget], []⟩
  have hvalid : Catalog.validate ⟨"1", [signedTarget], []⟩ = .ok () := by decide +kernel
  have hloaded := hfile ⟨[], id, fun _ => none, fun _ => none⟩ _ "c" rfl
    (FileSystem.write_eq_ok rfl)
  rw [hvalid] at hloaded
  refine ⟨hread _ (.of_names (by decide) ?_), hloaded⟩
  simp [rearranged_signedTarget.singleton, Json.Rearranged.refl]

end Catalog
end BinaryPatch
