/-
# Outcomes of what can fail

A computation that can fail gives a value or a fault. Where it is put together from others and gives
a value, so do these; a traversal gives the values of all its items, or the first fault. Lists that
belong together item by item are paired with `List.Forall₂`.
-/

import Mathlib.Data.List.Forall2

namespace BinaryPatch

/-! ## Values -/

theorem exists_of_bind_eq_ok {ε α β : Type} {x : Except ε α} {f : α → Except ε β} {r : β}
    (h : x >>= f = .ok r) : ∃ a, x = .ok a ∧ f a = .ok r := by
  cases x with
  | error fault => cases h
  | ok a => exact ⟨a, rfl, h⟩

theorem exists_of_map_eq_ok {ε α β : Type} {x : Except ε α} {f : α → β} {r : β}
    (h : x.map f = .ok r) : ∃ a, x = .ok a ∧ f a = r := by
  cases x with
  | error fault => cases h
  | ok a => exact ⟨a, rfl, Except.ok.inj h⟩

/-! ## Lists of values -/

/-- A traversal succeeds, or gives the first failure. -/
theorem mapM_cases {α β ε : Type} (f : α → Except ε β) (l : List α) :
    (∃ ys, l.mapM f = .ok ys ∧ List.Forall₂ (fun a y => f a = .ok y) l ys) ∨
      ∃ before a after e, l = before ++ a :: after ∧ (∀ b ∈ before, ∃ y, f b = .ok y) ∧
        f a = .error e ∧ l.mapM f = .error e := by
  induction l with
  | nil => exact .inl ⟨[], rfl, .nil⟩
  | cons a rest ih =>
    rw [List.mapM_cons]
    cases ha : f a with
    | error e => exact .inr ⟨[], a, rest, e, rfl, nofun, ha, rfl⟩
    | ok y =>
      rcases ih with ⟨ys, hys, hall⟩ | ⟨before, b, after, e, rfl, hbefore, hb, he⟩
      · exact .inl ⟨y :: ys, by rw [hys]; rfl, .cons ha hall⟩
      · exact .inr ⟨a :: before, b, after, e, rfl,
          List.forall_mem_cons.2 ⟨⟨y, ha⟩, hbefore⟩, hb, by rw [he]; rfl⟩

/-- What stands on one side of a pairing has a partner on the other. -/
theorem exists_partner {α β : Type} {R : α → β → Prop} {as : List α} {bs : List β}
    (h : List.Forall₂ R as bs) {b : β} (hb : b ∈ bs) : ∃ a ∈ as, R a b := by
  induction h with
  | nil => exact absurd hb List.not_mem_nil
  | cons hab _ ih =>
    rcases List.mem_cons.1 hb with rfl | hb
    · exact ⟨_, List.mem_cons_self, hab⟩
    · obtain ⟨a, ha, hR⟩ := ih hb
      exact ⟨a, List.mem_cons_of_mem _ ha, hR⟩

end BinaryPatch
