/-
# Cross-checking offsets

Once every target has been looked for, each rule is checked against the offsets of its two
ends. A rule that does not hold withdraws both. A target whose offset was derived from one
that has been withdrawn is withdrawn too, and so on until no more are. Each withdrawal leaves
an attempt behind.
-/

import BinaryPatch.Resolution.Search

namespace BinaryPatch

/-- What is known of each target. -/
abbrev Findings := List (String × Finding)

namespace Finding

/-- Withdraw the offset of a target. -/
def withdraw (f : Finding) (reason : Obstacle) : Finding :=
  { found := none, attempts := f.attempts ++ [⟨.crossValidation, reason⟩] }

end Finding

namespace Findings

/-- What is known of a target. -/
def get? (fs : Findings) (id : String) : Option Finding := List.lookup id fs

/-- The offset of a target. -/
def found? (fs : Findings) (id : String) : Option Found := (fs.get? id).bind Finding.found

/-- Record what is known of a target, in place of anything earlier. -/
def put (fs : Findings) (id : String) (f : Finding) : Findings :=
  (id, f) :: fs.filter fun entry => entry.1 != id

/-- Withdraw the offset of one target. -/
def withdraw (fs : Findings) (id : String) (reason : Obstacle) : Findings :=
  fs.map fun (name, f) => (name, if name = id then f.withdraw reason else f)

/-- How a rule is violated, if both its ends have an offset and it does not hold. -/
def violation? (fs : Findings) (r : Rule) : Option Obstacle := do
  let source ← fs.found? r.source
  let dest ← fs.found? r.dest
  let actual : Int := dest.offset - source.offset
  if actual = r.delta.toInt then none
  else some (.deltaViolation r.source r.dest r.delta.toInt actual)

/-- Withdraw both ends of every rule that is violated. -/
def withdrawViolated (fs : Findings) (rules : List Rule) : Findings :=
  let violations := rules.filterMap fun r => (fs.violation? r).map (r, ·)
  violations.foldl
    (fun fs (r, reason) => (fs.withdraw r.source reason).withdraw r.dest reason) fs

/-- The source of a derived offset, if the source has none any more. -/
def lostSource? (fs : Findings) (f : Finding) : Option String := do
  let found ← f.found
  let source ← found.source
  if (fs.found? source).isSome then none else some source

/-- Withdraw every offset whose source has none. -/
def withdrawOrphans (fs : Findings) : Findings :=
  fs.map fun (id, f) =>
    (id, match fs.lostSource? f with
      | some source => f.withdraw (.sourceUnresolved source)
      | none => f)

/-- The number of targets with an offset. -/
def foundCount (fs : Findings) : Nat := fs.countP fun entry => entry.2.found.isSome

/-- A map over a list that turns a property off for some elements and never on lowers the
number of elements that have it. -/
theorem countP_map_lt {α : Type} (p : α → Bool) (g : α → α) (keeps : ∀ x, p (g x) → p x)
    (l : List α) (lost : ∃ x ∈ l, p x ∧ ¬ p (g x)) : (l.map g).countP p < l.countP p := by
  have le : ∀ l : List α, (l.map g).countP p ≤ l.countP p := by
    intro l
    rw [List.countP_map]
    exact List.countP_mono_left fun x _ h => keeps x h
  induction l with
  | nil => simp at lost
  | cons a rest ih =>
    obtain ⟨x, hx, hp, hg⟩ := lost
    rw [List.map_cons, List.countP_cons, List.countP_cons]
    rcases List.mem_cons.1 hx with rfl | hx
    · have := le rest
      rw [if_pos hp, if_neg hg]
      omega
    · have := ih ⟨x, hx, hp, hg⟩
      by_cases ha : p (g a)
      · rw [if_pos ha, if_pos (keeps a ha)]
        omega
      · rw [if_neg ha]
        omega

/-- **Withdrawing orphans uses offsets up.** -/
theorem foundCount_withdrawOrphans_lt {fs : Findings}
    (h : (fs.any fun entry => (fs.lostSource? entry.2).isSome) = true) :
    fs.withdrawOrphans.foundCount < fs.foundCount := by
  obtain ⟨⟨id, f⟩, hmem, hlost⟩ := List.any_eq_true.1 h
  apply countP_map_lt
  · rintro ⟨name, g⟩ hg
    dsimp only at hg ⊢
    split at hg
    · exact absurd hg (by simp [Finding.withdraw])
    · exact hg
  · refine ⟨(id, f), hmem, ?_, ?_⟩
    · cases hf : f.found with
      | none => simp [lostSource?, hf] at hlost
      | some found => simp
    · obtain ⟨source, hsource⟩ := Option.isSome_iff_exists.1 hlost
      simp [hsource, Finding.withdraw]

/-- Withdraw orphans until there are none. -/
def settle (fs : Findings) : Findings :=
  if _h : (fs.any fun entry => (fs.lostSource? entry.2).isSome) = true then
    settle fs.withdrawOrphans
  else fs
termination_by fs.foundCount
decreasing_by exact foundCount_withdrawOrphans_lt _h

/-- Cross-check what is known of the targets of a platform against its rules. -/
def crossCheck (fs : Findings) (rules : List Rule) : Findings :=
  (fs.withdrawViolated rules).settle

end Findings
end BinaryPatch
