/-
# Configuration

The bounds of a search may be set in a TOML document, in a table `resolver`:

| key | bound | if not set |
| --- | --- | --- |
| `fuzzy_window` | bytes on each side of the centre of a window | `0x4000` |
| `max_reported_candidates` | offsets reported of an ambiguity, at least one | `8` |

Nothing else may be set. The two values may also be given as an array in this order.
-/

import BinaryPatch.Resolution.Search
import BinaryPatch.Toml.Reader

namespace BinaryPatch
namespace Config

/-- Read a bound. -/
def bound? : Toml.Value → Option Nat
  | .int n => if 0 ≤ n then some n.toNat else none
  | _ => none

/-- Set the bound of one key. -/
def setting? (limits : Limits) : String × Toml.Value → Option Limits
  | ("fuzzy_window", v) => return { limits with fuzzyWindow := ← bound? v }
  | ("max_reported_candidates", v) => return { limits with maxCandidates := ← bound? v }
  | _ => none

/-- Read the bounds from a table, or from an array. -/
def limits? : Toml.Value → Option Limits
  | .table _ fields => fields.foldlM setting? {}
  | .array items => (["fuzzy_window", "max_reported_candidates"].zip items).foldlM setting? {}
  | _ => none

/-- Read a whole document. -/
def ofFields? : Toml.Fields → Option Limits
  | [] => some {}
  | [("resolver", v)] => limits? v
  | _ => none

/-- Read a configuration. -/
def parse (text : String) : Except Fault Limits :=
  match (Toml.parse? text).bind ofFields? with
  | none => .error (.config .malformed)
  | some limits =>
    if limits.maxCandidates = 0 then .error (.config .zeroCandidates) else .ok limits

end Config
end BinaryPatch
