/-
# The order of derivation

A target may be derived from others, so these are looked for first. The order is built one
target at a time: of those still pending, the first in the catalog all of whose sources have
been placed comes next. When there is none, the pending targets hold a cycle of rules.
-/

import BinaryPatch.Catalog.Basic
import BinaryPatch.Fault

namespace BinaryPatch
namespace Catalog

/-- Whether every rule to the target starts from a target that has been placed. -/
def ready (rules : List Rule) (placed : List String) (t : Target) : Bool :=
  rules.all fun r => r.dest != t.id || placed.contains r.source

/-- Split the first pending target that is ready from the others. -/
def takeReady (rules : List Rule) (placed : List String) :
    List Target → Option (Target × List Target)
  | [] => none
  | t :: rest =>
    if ready rules placed t then some (t, rest)
    else (takeReady rules placed rest).map fun (found, others) => (found, t :: others)

theorem length_of_takeReady {rules : List Rule} {placed : List String} {pending : List Target}
    {t : Target} {others : List Target} (h : takeReady rules placed pending = some (t, others)) :
    pending.length = others.length + 1 := by
  induction pending generalizing others with
  | nil => cases h
  | cons u rest ih =>
    unfold takeReady at h
    split at h
    · cases h; rfl
    · obtain ⟨⟨found, remaining⟩, hrest, heq⟩ := Option.map_eq_some_iff.1 h
      cases heq
      have := ih hrest
      simp only [List.length_cons]
      omega

/-- Place the pending targets behind those already placed. -/
def place (platform : Platform) (rules : List Rule) (placed : List String)
    (pending : List Target) : Except CatalogFault (List Target) :=
  if pending.isEmpty then .ok []
  else
    match _h : takeReady rules placed pending with
    | none => .error (.cycle platform (pending.map Target.id))
    | some (t, others) => (place platform rules (t.id :: placed) others).map (t :: ·)
termination_by pending.length
decreasing_by
  have := length_of_takeReady _h
  omega

/-- The targets of a platform, every source before what is derived from it. -/
def derivationOrder (c : Catalog) (p : Platform) : Except CatalogFault (List Target) :=
  place p (c.rulesFor p) [] (c.targetsFor p)

end Catalog
end BinaryPatch
