/-
# Faults

Everything that can go wrong, as causes. Each cause carries what its wording needs, and
`Fault.message` is the one place where faults are worded.
-/

import BinaryPatch.Address
import BinaryPatch.Image.Container
import BinaryPatch.Pattern.Text
import BinaryPatch.Resolution.Attempt

namespace BinaryPatch

/-- Why stored bytes cannot be read or replaced. -/
inductive StorageFault where
  /-- Persisting has been switched off. -/
  | disabled
  | notFound
  | notDirectory
  | isDirectory
  | denied
  /-- The file is not UTF-8. -/
  | notText
  | other (text : String)
  deriving DecidableEq

namespace StorageFault

/-- The wording of each fault. -/
def message : StorageFault → String
  | disabled => "persist disabled"
  | notFound => "No such file or directory (os error 2)"
  | notDirectory => "Not a directory (os error 20)"
  | isDirectory => "Is a directory (os error 21)"
  | denied => "Permission denied (os error 13)"
  | notText => "stream did not contain valid UTF-8"
  | other text => text

end StorageFault

/-- Why a JSON document is not what it should be. -/
inductive DocumentFault where
  /-- The text is no JSON, or a value is of the wrong kind, missing or repeated. -/
  | shape
  | hex (fault : HexFault)
  | address (text : String) (cause : Text.NumeralFault)
  deriving DecidableEq

namespace DocumentFault

/-- The wording of a fault in a value; one of shape is described no further. -/
def message? : DocumentFault → Option String
  | shape => none
  | hex fault => some s!"Invalid hex: {fault.message}"
  | address text cause => some s!"Invalid address '{text}': {cause.message}"

end DocumentFault

/-- Why a catalog is not sound. -/
inductive CatalogFault where
  | emptyVersion
  | duplicateTarget (id : String)
  | noVariants (id : String)
  | emptyExpected (id : String) (platform : Platform)
  | emptyPatch (id : String) (platform : Platform)
  | patchEqualsExpected (id : String) (platform : Platform)
  | shortSlot (id : String) (platform : Platform) (slot expected : Nat)
  | anchorPastEnd (id : String) (platform : Platform) (anchor length : Nat)
  | ruleReference (source dest id : String) (platform : Platform)
  | selfRule (id : String)
  | cycle (platform : Platform) (stuck : List String)
  | unknownTarget (id : String)
  | unknownVariant (id : String) (platform : Platform)
  deriving DecidableEq

namespace CatalogFault

/-- The wording of each fault. -/
def message : CatalogFault → String
  | emptyVersion => "version is empty"
  | duplicateTarget id => s!"duplicate target id {id}"
  | noVariants id => s!"{id} has no variants"
  | emptyExpected id platform => s!"{id} ({platform.name}): expected bytes are empty"
  | emptyPatch id platform => s!"{id} ({platform.name}): patch bytes are empty"
  | patchEqualsExpected id platform =>
    s!"{id} ({platform.name}): patch bytes equal expected bytes"
  | shortSlot id platform slot expected =>
    s!"{id} ({platform.name}): slot of {slot} bytes is shorter than expected bytes ({expected})"
  | anchorPastEnd id platform anchor length =>
    s!"{id} ({platform.name}): anchor {anchor} lies past the {length}-byte signature"
  | ruleReference source dest id platform =>
    s!"rule {source} -> {dest} references {id} with no {platform.name} variant"
  | selfRule id => s!"rule on {id} derives itself"
  | cycle platform stuck =>
    s!"derivation cycle on {platform.name} among: {Text.commaList stuck}"
  | unknownTarget id => s!"{id} is not in the catalog"
  | unknownVariant id platform => s!"{id} has no {platform.name} variant"

end CatalogFault

/-- Why a restore point, or the image a transaction was validated on, does not fit. -/
inductive RestoreFault where
  /-- The image has another size than when the restore point was taken. -/
  | otherSize (image point : Nat)
  | missingSlice (platform : Platform)
  /-- The image has another size than when the transaction was validated. -/
  | sizeChanged (validated image : Nat)
  deriving DecidableEq

namespace RestoreFault

/-- The wording of each fault. -/
def message : RestoreFault → String
  | otherSize image point =>
    s!"image is {image} bytes, restore point was taken at {point} bytes"
  | missingSlice platform => s!"image has no {platform.name} slice"
  | sizeChanged validated image =>
    s!"image changed size since validation ({validated} -> {image} bytes)"

end RestoreFault

/-- Why a configuration is refused. -/
inductive ConfigFault where
  /-- The text is no configuration. -/
  | malformed
  | zeroCandidates
  deriving DecidableEq

/-- How far a transaction has come. -/
inductive Progress where
  | pending
  | validated
  | applied
  | rolledBack
  | failed
  deriving DecidableEq

namespace Progress

/-- The name of each stage. -/
def name : Progress → String
  | pending => "Pending"
  | validated => "Validated"
  | applied => "Applied"
  | rolledBack => "RolledBack"
  | failed => "Failed"

end Progress

/-- Why a site is refused by validation. -/
inductive SiteFault where
  | outOfRange (offset length size : Nat)
  | mismatch (target : String) (offset : Nat) (expected actual : List UInt8)
  deriving DecidableEq

namespace SiteFault

/-- The wording of each fault. -/
def message : SiteFault → String
  | outOfRange offset length size =>
    s!"Range {Text.lowerHex offset}+{Text.lowerHex length} lies outside the image " ++
      s!"({Text.lowerHex size} bytes)"
  | mismatch target offset expected actual =>
    s!"Validation mismatch for {target} at {Text.lowerHex offset}: " ++
      s!"expected [{Hex.format expected}], found [{Hex.format actual}]"

end SiteFault

/-- Everything that can go wrong. -/
inductive Fault where
  /-- A list is to hold more than any can. This is no answer: the program breaks off. -/
  | capacity
  | container (fault : ContainerFault)
  /-- A transaction meets an image without one of its slices. -/
  | missingSlice (platform : Platform)
  | site (fault : SiteFault)
  | ambiguous (target : String) (offsets : List Nat)
  | unresolved (targets : List Unresolved)
  | bodyTooLong (target : String) (length limit : Nat)
  | bodyEmpty (target : String)
  | bodyMissing (target : String)
  | overlap (first second : String)
  | rejected (failures : List SiteFault)
  | wrongProgress (expected actual : Progress)
  | restore (fault : RestoreFault)
  | catalog (fault : CatalogFault)
  | signature (fault : PatternFault)
  | hex (fault : HexFault)
  | config (fault : ConfigFault)
  | storage (fault : StorageFault)
  | document (fault : DocumentFault)
  deriving DecidableEq

namespace Fault

/-- A range outside an image of the given size. -/
abbrev outOfRange (offset length size : Nat) : Fault := .site (.outOfRange offset length size)

/-- The wording of each fault. -/
def message : Fault → String
  | capacity => "capacity overflow"
  | container fault => s!"Unrecognized container format: {fault.message}"
  | missingSlice platform =>
    s!"Unrecognized container format: transaction built for {platform.name}, " ++
      "image has no such slice"
  | site fault => fault.message
  | ambiguous target offsets =>
    s!"Ambiguous match for {target}: {offsets.length} candidates ({offsetList offsets})"
  | unresolved targets =>
    s!"Unresolved targets: {Text.commaList (targets.map Unresolved.targetId)}"
  | bodyTooLong target length limit =>
    s!"Injected body for {target} is {length} bytes, slot holds {limit}"
  | bodyEmpty target => s!"Injected body for {target} is empty"
  | bodyMissing target => s!"No injected body supplied for {target}"
  | overlap first second => s!"Write spans of {first} and {second} overlap"
  | rejected failures =>
    s!"Transaction rejected: {failures.length} target(s) failed validation"
  | wrongProgress expected actual =>
    s!"Transaction is {actual.name}, operation requires {expected.name}"
  | restore fault => s!"Restore point does not match image: {fault.message}"
  | catalog fault => s!"Invalid catalog: {fault.message}"
  | signature fault => s!"Invalid signature: {fault.message}"
  | hex fault => s!"Invalid hex: {fault.message}"
  | config .zeroCandidates =>
    "Invalid config: resolver.max_reported_candidates must be at least 1"
  | config .malformed => "Invalid config: not a configuration"
  | storage fault => s!"IO error: {fault.message}"
  | document fault => "JSON error: " ++ fault.message?.getD "not a document of this kind"

/-- The faults of the sites behind a rejection; of any other fault, itself. -/
def parts : Fault → List Fault
  | rejected failures => failures.map .site
  | other => [other]

end Fault

namespace Unresolved

/-- The fault that describes an unresolved target best: an ambiguity, else a candidate out
of range, else that it is unresolved. -/
def fault (u : Unresolved) : Fault :=
  let ambiguity := u.attempts.findSome? fun a =>
    match a.obstacle with
    | .ambiguous offsets => some (Fault.ambiguous u.targetId offsets)
    | _ => none
  let range := u.attempts.findSome? fun a =>
    match a.obstacle with
    | .outOfRange offset length size => some (Fault.outOfRange offset length size)
    | _ => none
  (ambiguity.or range).getD (.unresolved [u])

end Unresolved
end BinaryPatch
