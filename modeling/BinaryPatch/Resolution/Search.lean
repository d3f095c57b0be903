/-
# Looking for one target

A target is looked for in three phases, and the first that yields an offset ends the search.

| phase | an offset is yielded when |
| --- | --- |
| direct signature | the signature is found once in the slice; if nowhere, the form it has after patching is |
| derivation | rules from targets already found lead to one place that looks like the target |
| fuzzy window | around a derived place, or the last known address, the expected bytes stand once; if nowhere, the fixed payload does |

A site must lie inside the slice. More than one place is never guessed between: an ambiguous
signature also rules out the third phase. At least two places are collected by every search,
whatever number of them is reported.
-/

import BinaryPatch.Catalog.Basic
import BinaryPatch.Resolution.Report

namespace BinaryPatch

/-- The bounds of a resolution. -/
structure Limits where
  /-- The bytes searched on each side of the centre of a window. -/
  fuzzyWindow : Nat := 0x4000
  /-- The number of offsets reported of an ambiguity. -/
  maxCandidates : Nat := 8
  deriving DecidableEq

/-- An offset, and how it was found. -/
structure Found where
  offset : Nat
  method : Method
  source : Option String := none
  deriving DecidableEq

/-- What is known of a target so far. -/
structure Finding where
  found : Option Found := none
  attempts : List Attempt := []
  deriving DecidableEq

/-- A signature ready for searching. -/
structure Scanner where
  pattern : Pattern
  /-- The form of the pattern after patching, where that differs. -/
  applied : Option Pattern
  anchor : Nat
  deriving DecidableEq

namespace Scanner

/-- Whether either form of the pattern matches at `offset`. -/
def matchesAt (s : Scanner) (b : ByteArray) (offset : Nat) : Bool :=
  s.pattern.matchesAt b offset ||
    match s.applied with
    | some applied => applied.matchesAt b offset
    | none => false

end Scanner

namespace Variant

/-- The scanner of a variant with a signature. The cells of the whole payload are listed to be laid
over the pattern, however far behind it they reach. -/
def scanner? (v : Variant) : Except Fault (Option Scanner) :=
  match v.signature with
  | none => .ok none
  | some s =>
    match Pattern.parse s.pattern with
    | .error fault => .error (.signature fault)
    | .ok pattern =>
      match v.written? with
      | none => .error .capacity
      | some written =>
        let anchor := s.anchor.toNat
        .ok (some ⟨pattern, pattern.overlay anchor written, anchor⟩)

end Variant

/-- A slice of a buffer that is searched under some bounds. -/
structure Survey where
  buffer : ByteArray
  slice : Slice
  limits : Limits

namespace Survey

/-- Whether `length` bytes at `offset` lie inside the slice. -/
def fits (s : Survey) (offset length : Nat) : Bool := s.slice.contains offset length

/-- The number of places that a search collects. -/
def hitLimit (s : Survey) : Nat := max s.limits.maxCandidates 2

/-- The offsets that are reported of an ambiguity. -/
def capped (s : Survey) (offsets : List Nat) : List Nat := offsets.take s.limits.maxCandidates

/-! ## Direct signature -/

/-- The sites at which a pattern is found, `anchor` bytes behind the match. An offset beyond
the largest word is reported as that word. -/
def scan (s : Survey) (p : Pattern) (anchor : Nat) : List Nat :=
  (p.find s.buffer s.slice.range s.hitLimit).map fun start => min (start + anchor) maxWord

/-- The sites of a signature, or of its form after patching if there are none. -/
def signatureSites (s : Survey) (scanner : Scanner) : List Nat :=
  match s.scan scanner.pattern scanner.anchor, scanner.applied with
  | [], some applied => s.scan applied scanner.anchor
  | sites, _ => sites

/-- The first phase. -/
def direct (s : Survey) (v : Variant) : Option Scanner → Except Obstacle Nat
  | none => .error .noSignature
  | some scanner =>
    match s.signatureSites scanner with
    | [] => .error .noMatch
    | [site] =>
      if s.fits site v.siteLength then .ok site
      else .error (.outOfRange site v.siteLength s.buffer.size)
    | sites => .error (.ambiguous (s.capped sites))

/-! ## Derivation -/

/-- A place that a rule leads to, and the source of the rule. -/
structure Candidate where
  offset : Nat
  source : String
  deriving DecidableEq

/-- Whether the bytes at a place look like the target. A slot without a signature has
nothing to compare. -/
def looksLike (s : Survey) (v : Variant) (scanner : Option Scanner) (offset : Nat) : Bool :=
  s.fits offset v.siteLength &&
    match scanner with
    | some scanner =>
      scanner.anchor ≤ offset &&
        s.fits (offset - scanner.anchor) scanner.pattern.length &&
        scanner.matchesAt s.buffer (offset - scanner.anchor)
    | none => v.payload.isSlot || v.holdsExpected s.buffer offset || v.holdsPatch s.buffer offset

/-- The second phase. Of several rules that lead to one place, the first is recorded. -/
def derive (s : Survey) (v : Variant) (scanner : Option Scanner) (derived : List Candidate) :
    Except Obstacle Candidate :=
  if derived.isEmpty then .error .noDerivation
  else
    match derived.filter fun c => s.looksLike v scanner c.offset with
    | [] => .error (.inconsistent (derived.map Candidate.offset))
    | first :: rest =>
      if rest.all fun c => c.offset = first.offset then .ok first
      else
        .error (.conflicting
          (((first :: rest).map Candidate.offset).mergeSort (· ≤ ·)).eraseDups)

/-! ## Fuzzy window -/

/-- The window around a centre, inside the slice. It reaches far enough behind the centre to
hold a whole site. -/
def window (s : Survey) (v : Variant) (centre : Nat) : Span :=
  let start := max (centre - s.limits.fuzzyWindow) s.slice.range.start
  let stop := min (centre + s.limits.fuzzyWindow + v.siteLength) s.slice.range.stop
  ⟨start, max stop start⟩

/-- The places in a window at which bytes stand and a site fits. -/
def windowHits (s : Survey) (v : Variant) (needle : List UInt8) (window : Span) : List Nat :=
  (Bytes.find s.buffer needle window s.hitLimit).filter fun hit => s.fits hit v.siteLength

/-- The places in the window of a centre that hold the expected bytes, or the fixed payload
if none do. -/
def nearby (s : Survey) (v : Variant) (centre : Nat) : List Nat :=
  let window := s.window v centre
  match s.windowHits v v.expected window, v.payload.fixed? with
  | [], some bytes => s.windowHits v bytes window
  | hits, _ => hits

/-- The centres: derived places, then the last known address, each once. -/
def centres (s : Survey) (v : Variant) (derived : List Candidate) : List Nat :=
  (derived.map Candidate.offset ++
    (v.lastKnown.bind fun va => s.slice.toOffset va.toNat).toList).eraseDups

/-- Search the windows of the centres one after another. -/
def searchAround (s : Survey) (v : Variant) : List Nat → Except Obstacle Nat
  | [] => .error .noMatch
  | centre :: rest =>
    match s.nearby v centre with
    | [] => searchAround s v rest
    | [hit] => .ok hit
    | hits => .error (.ambiguous (s.capped hits))

/-- The third phase. -/
def fuzzy (s : Survey) (v : Variant) (derived : List Candidate) : Except Obstacle Nat :=
  match s.centres v derived with
  | [] => .error .noWindow
  | centres => s.searchAround v centres

/-! ## The three phases -/

/-- The third phase, left out when the signature was ambiguous. -/
def fuzzyUnless (s : Survey) (v : Variant) (derived : List Candidate) :
    Obstacle → Except Obstacle Nat
  | .ambiguous _ => .error .skippedAfterAmbiguity
  | _ => s.fuzzy v derived

/-- Look for a target, given the places that rules lead to. -/
def locate (s : Survey) (v : Variant) (scanner : Option Scanner) (derived : List Candidate) :
    Finding :=
  match s.direct v scanner with
  | .ok site => { found := some ⟨site, .directSignature, none⟩ }
  | .error first =>
    match s.derive v scanner derived with
    | .ok c =>
      { found := some ⟨c.offset, .derived, some c.source⟩
        attempts := [⟨.directSignature, first⟩] }
    | .error second =>
      match s.fuzzyUnless v derived first with
      | .ok hit =>
        { found := some ⟨hit, .fuzzySearch, none⟩
          attempts := [⟨.directSignature, first⟩, ⟨.derivation, second⟩] }
      | .error third =>
        { attempts :=
            [⟨.directSignature, first⟩, ⟨.derivation, second⟩, ⟨.fuzzyWindow, third⟩] }

end Survey
end BinaryPatch
