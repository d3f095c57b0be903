/-
# What the commands print

Reports as lines of text, in columns and with colours. A colour is switched on in front of
a text and off behind it; a column counts the characters of these sequences too.
-/

import BinaryPatch.Engine
import BinaryPatch.Text.Layout

namespace BinaryPatch
namespace Console

open Text

/-! ## Colours -/

/-- A text between two control sequences. -/
def styled (on off text : String) : String := s!"\x1b[{on}m{text}\x1b[{off}m"

/-- Green text. -/
def green : String → String := styled "32" "39"

/-- Red text. -/
def red : String → String := styled "31" "39"

/-- Yellow text. -/
def yellow : String → String := styled "33" "39"

/-- Dimmed text. -/
def dimmed : String → String := styled "2" "0"

/-- Bold text. -/
def bold : String → String := styled "1" "0"

/-! ## Reports -/

/-- An offset with at least eight digits. -/
def offsetText (offset : Nat) : String := "0x" ++ padLeft 8 '0' (upperHex offset)

/-- The lines about one target. -/
def verdict : Verdict → List String
  | .located site =>
    let address :=
      match site.address with
      | some va => s!" (va 0x{upperHex va})"
      | none => ""
    let source :=
      match site.source with
      | some id => s!" from {id}"
      | none => ""
    [s!"  {green mark} {padRight 36 site.targetId} {offsetText site.offset}{address}  " ++
      s!"{site.method.name}{source}"]
  | .unresolved target =>
    s!"  {red cross} {padRight 36 target.targetId} unresolved" ::
      target.attempts.map fun a => "      " ++ dimmed a.message
where
  mark := "✓"
  cross := "✗"

/-- The lines about a report. -/
def report (r : Report) : List String :=
  [s!"Catalog {r.catalogVersion} | {r.platform.name} ({r.format.label})", ""] ++
    r.verdicts.flatMap verdict ++
    ["", s!"Resolved {r.located.length}/{r.verdicts.length} targets"]

/-- The coloured name of what stands at a site. -/
def siteStatus (s : SiteStatus) : String :=
  match s with
  | .patched => green s.name
  | .unpatched => yellow s.name
  | .foreign | .unresolved => red s.name

/-- The coloured name of what the sites amount to. -/
def patchStatus (s : PatchStatus) : String :=
  match s with
  | .patched => bold (green s.name)
  | .unpatched => bold (yellow s.name)
  | .partially => bold (red s.name)

/-- The line about the site of one target. -/
def targetStatus (t : TargetStatus) : String :=
  let offset := (t.offset.map offsetText).getD "-"
  let observed := (t.observed.map fun bytes => Hex.formatTruncated bytes 8).getD ""
  "  " ++ padRight 36 t.targetId ++ " " ++ padLeft 10 ' ' offset ++ "  " ++
    padRight 10 (siteStatus t.status) ++ "  " ++ dimmed observed

/-- The lines about an inspection. -/
def inspection (r : Inspection) : List String :=
  [s!"Catalog {r.catalogVersion} | {r.platform.name}", ""] ++
    r.targets.map targetStatus ++
    ["", s!"Status: {patchStatus r.overall} ({r.count .patched} patched, " ++
      s!"{r.count .unpatched} original, {r.count .foreign} foreign, " ++
      s!"{r.count .unresolved} unresolved)"]

/-- The line about an entry of a transaction. -/
def entry (e : Entry) : String :=
  let state :=
    match e.state with
    | some .unpatched => green "write"
    | some .alreadyApplied => dimmed "already applied"
    | none => "-"
  s!"  {padRight 36 e.targetId} {offsetText e.offset}  " ++
    padLeft 4 ' ' (toString e.newBytes.length) ++ s!" bytes  {state}"

/-- The lines about a transaction. -/
def transaction (t : Transaction) : List String :=
  "" :: t.entries.map entry ++ ["", s!"Transaction: {t.progress.name}"]

/-- The lines about a fault: one for each target or site that it is made of. -/
def fault (f : Fault) : List String :=
  "" ::
    match f with
    | .unresolved targets =>
      targets.map fun t => "  " ++ red "✗" ++ s!" {t.targetId}: {t.summary}"
    | other => other.parts.map fun part => "  " ++ red "✗" ++ s!" {part.message}"

/-! ## Catalogs -/

/-- The line about a target of a catalog. -/
def target (t : Target) : String :=
  let variants := t.variants.toList
  let platforms := ",".intercalate (variants.map fun v => v.1.name)
  let payload :=
    match variants with
    | [] => ""
    | (_, v) :: _ =>
      match v.payload with
      | .bytes bytes => s!"{bytes.length} byte(s)"
      | .slot length => s!"slot 0x{upperHex length.toNat}"
  s!"  {padRight 36 t.id} {padRight 10 t.category.name} {padRight 16 platforms} {payload}"

/-- The line about a rule. -/
def rule (r : Rule) : String :=
  s!"  {r.source} -> {r.dest} {signedHex r.delta.toInt}  {r.description}"

/-- The lines about the rules of a platform. -/
def rules (c : Catalog) (p : Platform) : List String :=
  match c.rulesFor p with
  | [] => []
  | rs => "" :: s!"Derivations ({p.name}):" :: rs.map rule

/-- The lines about a catalog. -/
def catalog (c : Catalog) : List String :=
  [s!"Catalog version: {c.version}", ""] ++ c.targets.map target ++
    Platform.all.flatMap (rules c)

end Console
end BinaryPatch
