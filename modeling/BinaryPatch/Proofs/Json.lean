/-
# Documents read back from their text

Every JSON value that has a text of its own (`plain`) is read back from it. Strings and integers
come first: an escaped character is read as one piece, and digits end where no digit follows, which
is the case behind every written value (`Closes`). White space in front of a value, an item or a
field does not count, so the indentation drops out. The rest is one lemma for each kind of value,
put together by an induction on the tree (`readsBack_of_plain`). The reader's fuel is never used
up, because every level of the tree takes at least one character. The main statement is
`parse_render`: what is written is read as itself, with nothing left over.
-/

import BinaryPatch.Json.Decode
import BinaryPatch.Json.Printer
import BinaryPatch.Proofs.Hex
import Mathlib.Data.List.DropRight
import Mathlib.Data.List.TakeDrop
import Mathlib.Tactic.SplitIfs

namespace BinaryPatch

theorem Text.hexDigit?_lowerDigit {n : Nat} (h : n < 16) : hexDigit? (lowerDigit n) = some n := by
  revert n
  decide

namespace Json

-- the equations by which the proofs below open the reader and the printer, made once for all
attribute [grind =] readPieces readValue readItems readFields pretty prettyItems prettyFields

/-! ## Strings -/

theorem toList_quote (text : String) :
    (quote text).toList = '"' :: (text.toList.flatMap escape ++ ['"']) := by
  unfold quote
  simp only [String.toList_append, String.toList_ofList]
  rfl

/-- Put a character in front of what is read of a string. -/
def consChar (c : Char) (read : List Piece × List Char) : List Piece × List Char :=
  (.char c :: read.1, read.2)

theorem readPieces_short {c d : Char} (h : shortEscape? c = some d) (s : List Char) :
    readPieces ('\\' :: c :: s) = (readPieces s).map (consChar d) := by
  have hne : c ≠ 'u' := by
    rintro rfl
    cases h
  rw [readPieces, h]
  · cases readPieces s <;> rfl
  · exact fun _ _ _ _ _ heq _ => hne heq

theorem readPieces_plain {c : Char} (hquote : c ≠ '"') (hslash : c ≠ '\\') (hc : 0x20 ≤ c.toNat)
    (s : List Char) : readPieces (c :: s) = (readPieces s).map (consChar c) := by
  rw [readPieces, if_neg (by omega)]
  · cases readPieces s <;> rfl
  · exact hquote
  · exact fun _ _ _ _ _ heq _ => hslash heq
  · exact fun _ _ heq _ => hslash heq

theorem readPieces_control {c : Char} (hc : c.toNat < 0x20) (s : List Char) :
    readPieces ('\\' :: 'u' :: '0' :: '0' :: Text.lowerDigit (c.toNat / 16) ::
      Text.lowerDigit (c.toNat % 16) :: s) = (readPieces s).map (consChar c) := by
  have hzero : Text.hexDigit? '0' = some 0 := rfl
  have hunit : codeUnit? '0' '0' (Text.lowerDigit (c.toNat / 16))
      (Text.lowerDigit (c.toNat % 16)) = some c.toNat := by
    simp only [codeUnit?, hzero, Text.hexDigit?_lowerDigit (show c.toNat / 16 < 16 by omega),
      Text.hexDigit?_lowerDigit (show c.toNat % 16 < 16 by omega), Option.bind_eq_bind,
      Option.bind_some, Option.pure_def]
    congr 1
    omega
  have hpiece : Piece.ofUnit c.toNat = .char c := by
    rw [Piece.ofUnit, if_neg (by omega), Char.ofNat_toNat]
  rw [readPieces, hunit]
  cases readPieces s with
  | none => rfl
  | some p =>
    simp only [Option.bind_eq_bind, Option.bind_some, hpiece]
    rfl

/-- **An escaped character is read as itself.** -/
theorem readPieces_escape (c : Char) (s : List Char) :
    readPieces (escape c ++ s) = (readPieces s).map (consChar c) := by
  unfold escape
  split_ifs with h₁ h₂ h₃ h₄ h₅ h₆ h₇ h₈
  · exact readPieces_short (by rw [h₁]; rfl) s
  · exact readPieces_short (by rw [h₂]; rfl) s
  · exact readPieces_short (by rw [h₃]; rfl) s
  · exact readPieces_short (by rw [h₄]; rfl) s
  · exact readPieces_short (by rw [h₅]; rfl) s
  · exact readPieces_short (by rw [h₆]; rfl) s
  · exact readPieces_short (by rw [h₇]; rfl) s
  · exact readPieces_control h₈ s
  · exact readPieces_plain h₁ h₂ (by omega) s

theorem readPieces_flatMap_escape (cs s : List Char) :
    readPieces (cs.flatMap escape ++ '"' :: s) = some (cs.map .char, s) := by
  induction cs with
  | nil => rw [List.flatMap_nil, List.nil_append, readPieces, List.map_nil]
  | cons c rest ih =>
    rw [List.flatMap_cons, List.append_assoc, readPieces_escape, ih]
    rfl

theorem join_map_char (cs : List Char) : Piece.join (cs.map .char) = some cs := by
  induction cs with
  | nil => rfl
  | cons c rest ih =>
    rw [List.map_cons, Piece.join, ih]
    rfl

theorem readName_escape (name : String) (s : List Char) :
    readName (name.toList.flatMap escape ++ '"' :: ':' :: s) = some (name, s) := by
  unfold readName
  rw [readPieces_flatMap_escape]
  simp only [Option.bind_eq_bind, Option.bind_some, join_map_char]
  rw [String.ofList_toList]
  rfl

/-! ## Integers -/

/-- What stands behind a written value: nothing, a comma or a line end. -/
def Closes (s : List Char) : Prop := ∀ c ∈ s.head?, c = ',' ∨ c = '\n'

theorem closes_nil : Closes [] := by simp [Closes]

theorem closes_comma (s : List Char) : Closes (',' :: s) := fun _ hc =>
  .inl (Option.some.inj hc).symm

theorem closes_newline (s : List Char) : Closes ('\n' :: s) := fun _ hc =>
  .inr (Option.some.inj hc).symm

theorem Closes.not_isDigit {s : List Char} (hs : Closes s) :
    s.head?.map Char.isDigit ≠ some true := by
  cases s with
  | nil => simp
  | cons c rest => rcases hs c rfl with rfl | rfl <;> simp

theorem isDigit_of_mem_toDigits {n : Nat} {c : Char} (h : c ∈ Nat.toDigits 10 n) :
    c.isDigit = true :=
  Nat.isDigit_of_mem_toDigits (by decide) (by decide) h

/-- A written number starts with a digit. -/
theorem exists_toDigits_eq_cons (n : Nat) :
    ∃ c rest, Nat.toDigits 10 n = c :: rest ∧ c.isDigit = true := by
  obtain ⟨c, rest, h⟩ := List.exists_cons_of_ne_nil (Nat.toDigits_ne_nil (n := n) (b := 10))
  exact ⟨c, rest, h, isDigit_of_mem_toDigits (h ▸ List.mem_cons_self)⟩

/-- Only zero is written with a zero in front. -/
theorem of_toDigits_eq_zero_cons {n : Nat} {rest : List Char}
    (h : Nat.toDigits 10 n = '0' :: rest) : n = 0 ∧ rest = [] := by
  induction n using Nat.strongRecOn generalizing rest with
  | ind n ih =>
    by_cases hn : n < 10
    · rw [Nat.toDigits_of_lt_base hn] at h
      obtain ⟨hdigit, hrest⟩ := List.cons.inj h
      refine ⟨?_, hrest.symm⟩
      clear ih h
      revert n
      decide
    · rw [Nat.toDigits_of_base_le (by decide) (by omega)] at h
      obtain ⟨c, front, hfront, -⟩ := exists_toDigits_eq_cons (n / 10)
      rw [hfront, List.cons_append] at h
      have hzero := (ih (n / 10) (by omega) (hfront.trans (by rw [(List.cons.inj h).1]))).1
      omega

theorem decimal_toDigits (n : Nat) : decimal (Nat.toDigits 10 n) = n := by
  have h := Nat.ofDigitChars_toDigits (n := n) (show 1 < 10 by decide) (by decide)
  unfold Nat.ofDigitChars at h
  unfold decimal
  simpa only [Nat.mul_comm] using h

theorem splitDigits_append {ds s : List Char} (hds : ∀ c ∈ ds, c.isDigit = true)
    (hs : Closes s) : splitDigits (ds ++ s) = (ds, s) := by
  unfold splitDigits
  rw [List.span_eq_takeWhile_dropWhile, List.takeWhile_append_of_pos hds,
    List.dropWhile_append_of_pos hds]
  cases s with
  | nil => simp
  | cons c rest =>
    have hc : ¬ c.isDigit = true := fun hc => hs.not_isDigit (congrArg some hc)
    rw [List.takeWhile_cons_of_neg hc, List.dropWhile_cons_of_neg hc, List.append_nil]

theorem readFraction_of_closes {s : List Char} (hs : Closes s) :
    readFraction s = some ([], s) := by
  cases s with
  | nil => rfl
  | cons c rest => rcases hs c rfl with rfl | rfl <;> rfl

/-- Digits behind a sign, or behind none, are read as the integer that they stand for. -/
theorem readNumber_toDigits {negative : Bool} {n : Nat} (hn : negative = true → n ≠ 0)
    {s : List Char} (hs : Closes s) :
    readNumber ((if negative then ['-'] else []) ++ (Nat.toDigits 10 n ++ s)) =
      some (.int (if negative then -n else n), s) := by
  obtain ⟨c, rest, hdigits, hc⟩ := exists_toDigits_eq_cons n
  unfold readNumber
  split
  rename_i negative' unsigned hsign
  -- the reader takes the sign off
  have hpair : (negative, Nat.toDigits 10 n ++ s) = (negative', unsigned) := by
    rw [← hsign]
    cases negative with
    | true => rfl
    | false =>
      rw [if_neg (by decide), List.nil_append, hdigits]
      split
      · rename_i heq
        rw [(List.cons.inj heq).1] at hc
        exact absurd hc (by decide)
      · rfl
  cases hpair
  split
  rename_i digits behind hsplit
  -- and all digits, also where the first one is a zero
  have hpair : (Nat.toDigits 10 n, s) = (digits, behind) := by
    rw [← hsplit]
    split
    · rename_i tail heq
      rw [hdigits, List.cons_append] at heq
      obtain ⟨rfl, htail⟩ := List.cons.inj heq
      obtain ⟨-, rfl⟩ := of_toDigits_eq_zero_cons hdigits
      rw [hdigits, ← htail]
      rfl
    · exact (splitDigits_append (fun c hc => isDigit_of_mem_toDigits hc) hs).symm
  cases hpair
  rw [if_neg, readFraction_of_closes hs]
  · dsimp only
    rw [decimal_toDigits]
    cases negative with
    | true => rw [if_pos rfl, if_neg (hn rfl), if_pos rfl]
    | false => rfl
  · rw [not_or, List.isEmpty_iff]
    exact ⟨Nat.toDigits_ne_nil, fun h => hs.not_isDigit h.2⟩

theorem toList_toString (v : Int) :
    (toString v).toList = (if decide (v < 0) then ['-'] else []) ++ Nat.toDigits 10 v.natAbs := by
  cases v with
  | ofNat n =>
    have hn : ¬ (Int.ofNat n < 0) := by simp
    rw [decide_eq_false hn, if_neg (by decide)]
    exact Nat.toList_repr
  | negSucc n =>
    rw [decide_eq_true (Int.negSucc_lt_zero n), if_pos rfl]
    change ("-" ++ (n + 1).repr).toList = _
    rw [String.toList_append, Nat.toList_repr]
    rfl

/-- **A written integer is read as itself.** -/
theorem readNumber_toString (v : Int) {s : List Char} (hs : Closes s) :
    readNumber ((toString v).toList ++ s) = some (.int v, s) := by
  rw [toList_toString, List.append_assoc, readNumber_toDigits (fun h => ?_) hs]
  · by_cases hv : v < 0
    · rw [decide_eq_true hv, if_pos rfl]
      congr 3
      omega
    · rw [decide_eq_false hv, if_neg (by decide)]
      congr 3
      omega
  · have := of_decide_eq_true h
    omega

/-! ## White space -/

@[simp]
theorem skipSpace_newline (s : List Char) : skipSpace ('\n' :: s) = skipSpace s := rfl

@[simp]
theorem skipSpace_space (s : List Char) : skipSpace (' ' :: s) = skipSpace s := rfl

@[simp]
theorem skipSpace_indent (level : Nat) (s : List Char) :
    skipSpace ((indent level).toList ++ s) = skipSpace s := by
  unfold indent skipSpace
  rw [String.toList_ofList]
  refine List.dropWhile_append_of_pos fun c hc => ?_
  rw [List.eq_of_mem_replicate hc]
  rfl

@[simp]
theorem skipSpace_skipSpace (s : List Char) : skipSpace (skipSpace s) = skipSpace s :=
  List.dropWhile_idempotent _ _

/-- Texts that agree behind their white space are read alike. -/
theorem readValue_congr {s s' : List Char} (h : skipSpace s = skipSpace s') (fuel : Nat) :
    readValue fuel s = readValue fuel s' := by
  cases fuel with
  | zero => rfl
  | succ fuel => rw [readValue, readValue, h]

theorem readItems_congr {s s' : List Char} (h : skipSpace s = skipSpace s') (fuel : Nat) :
    readItems fuel s = readItems fuel s' := by
  cases fuel with
  | zero => rfl
  | succ fuel => rw [readItems, readItems, readValue_congr h]

theorem readFields_congr {s s' : List Char} (h : skipSpace s = skipSpace s') (fuel : Nat) :
    readFields fuel s = readFields fuel s' := by
  cases fuel with
  | zero => rfl
  | succ fuel => rw [readFields, readFields, h]

/-! ## Values -/

mutual

/-- Whether a value and all its parts have a text of their own. -/
def plain : Json → Bool
  | .arr items => plainItems items
  | .obj fields => plainFields fields
  | .other _ | .broken => false
  | _ => true

/-- Whether every item is plain. -/
def plainItems : List Json → Bool
  | [] => true
  | item :: rest => item.plain && plainItems rest

/-- Whether every field is plain. -/
def plainFields : List (String × Json) → Bool
  | [] => true
  | (_, value) :: rest => value.plain && plainFields rest

end

/-- What is neither a bracket, a quote nor a letter is read as a number. -/
theorem readValue_of_digit {c : Char} (hc : c.isDigit = true ∨ c = '-') (fuel : Nat)
    (s : List Char) :
    readValue (fuel + 1) (c :: s) =
      match readNumber (c :: s) with
      | none => (.broken, none)
      | some (number, rest) => (number, some rest) := by
  have hne : ∀ d : Char, d.isDigit = false → d ≠ '-' → c ≠ d := by
    rintro d hd hminus rfl
    rcases hc with hc | hc
    · exact Bool.false_ne_true (hd.symm.trans hc)
    · exact hminus hc
  have hspace : skipSpace (c :: s) = c :: s := by
    refine List.dropWhile_cons_of_neg ?_
    simp [hne ' ' rfl (by decide), hne '\n' rfl (by decide), hne '\t' rfl (by decide),
      hne '\r' rfl (by decide)]
  rw [readValue, hspace]
  split
  all_goals first | exact absurd (List.cons.inj ‹_›).1 (hne _ rfl (by decide)) | rfl

theorem readValue_toString (v : Int) (fuel : Nat) {s : List Char} (hs : Closes s) :
    readValue (fuel + 1) ((toString v).toList ++ s) = (.int v, some s) := by
  have hnumber := readNumber_toString v hs
  obtain ⟨c, rest, hcons, hc⟩ :
      ∃ c rest, (toString v).toList = c :: rest ∧ (c.isDigit = true ∨ c = '-') := by
    obtain ⟨c, rest, hdigits, hc⟩ := exists_toDigits_eq_cons v.natAbs
    rw [toList_toString, hdigits]
    by_cases hv : v < 0
    · rw [decide_eq_true hv, if_pos rfl]
      exact ⟨'-', c :: rest, rfl, .inr rfl⟩
    · rw [decide_eq_false hv, if_neg (by decide)]
      exact ⟨c, rest, rfl, .inl hc⟩
  rw [hcons, List.cons_append] at hnumber ⊢
  rw [readValue_of_digit hc, hnumber]

theorem readValue_quote (text : String) (fuel : Nat) (s : List Char) :
    readValue (fuel + 1) ((quote text).toList ++ s) = (.str text, some s) := by
  have hspace : ∀ s, skipSpace ('"' :: s) = '"' :: s := fun _ => rfl
  rw [toList_quote, List.cons_append, List.append_assoc, List.singleton_append, readValue, hspace]
  split
  case h_3 rest heq =>
    rw [← (List.cons.inj heq).2, readPieces_flatMap_escape]
    dsimp only
    rw [join_map_char]
    dsimp only
    rw [String.ofList_toList]
  case h_7 _ _ hne _ _ _ => exact (hne _ rfl).elim
  all_goals exact absurd (List.cons.inj ‹_›).1 (by decide)

/-- No item starts with the bracket that closes an array. -/
theorem readItems_bracket (fuel : Nat) (s : List Char) : (readItems fuel (']' :: s)).2 = none := by
  cases fuel with
  | zero => rfl
  | succ fuel => cases fuel <;> rfl

/-- No field starts with the brace that closes an object. -/
theorem readFields_brace (fuel : Nat) (s : List Char) :
    (readFields fuel ('\x7d' :: s)).2 = none := by
  cases fuel <;> rfl

/-- An array is read if its items are. -/
theorem readValue_arr {fuel : Nat} {items : List Json} {s rest : List Char}
    (h : readItems fuel s = (items, some rest)) :
    readValue (fuel + 1) ('[' :: s) = (.arr items, some rest) := by
  have hspace : skipSpace ('[' :: s) = '[' :: s := rfl
  rw [← readItems_congr (skipSpace_skipSpace s)] at h
  rw [readValue, hspace]
  split
  case h_2 s' heq =>
    rw [← (List.cons.inj heq).2]
    split
    · rename_i hclosed
      have hnone := readItems_bracket fuel ‹_›
      rw [← hclosed, h] at hnone
      cases hnone
    · rw [h]
  case h_7 _ hne _ _ _ _ => exact (hne _ rfl).elim
  all_goals exact absurd (List.cons.inj ‹_›).1 (by decide)

/-- An object is read if its fields are. -/
theorem readValue_obj {fuel : Nat} {fields : List (String × Json)} {s rest : List Char}
    (h : readFields fuel s = (fields, some rest)) :
    readValue (fuel + 1) ('\x7b' :: s) = (.obj fields, some rest) := by
  have hspace : skipSpace ('\x7b' :: s) = '\x7b' :: s := rfl
  rw [← readFields_congr (skipSpace_skipSpace s)] at h
  rw [readValue, hspace]
  split
  case h_1 s' heq =>
    rw [← (List.cons.inj heq).2]
    split
    · rename_i hclosed
      have hnone := readFields_brace fuel ‹_›
      rw [← hclosed, h] at hnone
      cases hnone
    · rw [h]
  case h_7 hne _ _ _ _ _ => exact (hne _ rfl).elim
  all_goals exact absurd (List.cons.inj ‹_›).1 (by decide)

/-- Items are read one by one: behind the first there is a comma, or the closing bracket. -/
theorem readItems_comma {fuel : Nat} {item : Json} {items : List Json} {s s' : List Char}
    {rest : Option (List Char)} (h : readValue fuel s = (item, some (',' :: s')))
    (h' : readItems fuel s' = (items, rest)) :
    readItems (fuel + 1) s = (item :: items, rest) := by
  rw [readItems, h]
  change (item :: (readItems fuel s').1, (readItems fuel s').2) = _
  rw [h']

theorem readItems_close {fuel : Nat} {item : Json} {s s' rest : List Char}
    (h : readValue fuel s = (item, some s')) (h' : skipSpace s' = ']' :: rest) :
    readItems (fuel + 1) s = ([item], some rest) := by
  rw [readItems, h]
  dsimp only
  rw [h']
  rfl

/-- Behind its name and the colon a field is read as its value is, and behind that there is a comma,
or the closing brace. -/
theorem readFields_quote {fuel : Nat} {s : List Char} {value : Json} {s' : List Char}
    (h : readValue fuel s = (value, some s')) (name : String) :
    (∀ rest, skipSpace s' = ',' :: rest →
      readFields (fuel + 1) ((quote name).toList ++ ':' :: ' ' :: s) =
        ((name, value) :: (readFields fuel rest).1, (readFields fuel rest).2)) ∧
    (∀ rest, skipSpace s' = '\x7d' :: rest →
      readFields (fuel + 1) ((quote name).toList ++ ':' :: ' ' :: s) =
        ([(name, value)], some rest)) := by
  have hspace : readValue fuel (' ' :: s) = readValue fuel s :=
    readValue_congr (skipSpace_space s) fuel
  have hquote : ∀ s, skipSpace ('"' :: s) = '"' :: s := fun _ => rfl
  rw [toList_quote, List.cons_append, List.append_assoc, List.singleton_append, readFields, hquote]
  split
  · rename_i heq
    rw [← (List.cons.inj heq).2, readName_escape]
    dsimp only
    rw [hspace, h]
    dsimp only
    constructor <;> intro rest hrest <;> rw [hrest] <;> rfl
  · rename_i hne
    exact (hne _ rfl).elim

theorem readFields_comma {fuel : Nat} {name : String} {value : Json} {s s' : List Char}
    {fields : List (String × Json)} {rest : Option (List Char)}
    (h : readValue fuel s = (value, some (',' :: s')))
    (h' : readFields fuel s' = (fields, rest)) :
    readFields (fuel + 1) ((quote name).toList ++ ':' :: ' ' :: s) =
      ((name, value) :: fields, rest) := by
  rw [(readFields_quote h name).1 s' rfl, h']

/-! ## Documents -/

/-- What closes an array or an object stands on a line of its own. -/
theorem skipSpace_closing {c : Char} (hc : c = ']' ∨ c = '\x7d') (level : Nat) (s : List Char) :
    skipSpace ('\n' :: ((indent level).toList ++ c :: s)) = c :: s := by
  simp only [skipSpace_newline, skipSpace_indent]
  rcases hc with rfl | rfl <;> rfl

theorem toList_pretty_arr (level : Nat) (item : Json) (items : List Json) :
    (pretty level (.arr (item :: items))).toList = '[' :: '\n' ::
      ((prettyItems (level + 1) (item :: items)).toList ++ '\n' ::
        ((indent level).toList ++ [']'])) := by
  simp [pretty, String.toList_append]

theorem toList_pretty_obj (level : Nat) (field : String × Json) (fields : List (String × Json)) :
    (pretty level (.obj (field :: fields))).toList = '\x7b' :: '\n' ::
      ((prettyFields (level + 1) (field :: fields)).toList ++ '\n' ::
        ((indent level).toList ++ ['\x7d'])) := by
  simp [pretty, String.toList_append]

theorem toList_prettyItems_singleton (level : Nat) (item : Json) :
    (prettyItems level [item]).toList = (indent level).toList ++ (pretty level item).toList := by
  simp [prettyItems, String.toList_append]

theorem toList_prettyItems_cons (level : Nat) (item item' : Json) (items : List Json) :
    (prettyItems level (item :: item' :: items)).toList =
      (indent level).toList ++ ((pretty level item).toList ++
        ',' :: '\n' :: (prettyItems level (item' :: items)).toList) := by
  simp [prettyItems, String.toList_append]

theorem toList_prettyFields_singleton (level : Nat) (name : String) (value : Json) :
    (prettyFields level [(name, value)]).toList = (indent level).toList ++
      ((quote name).toList ++ ':' :: ' ' :: (pretty level value).toList) := by
  simp [prettyFields, String.toList_append]

theorem toList_prettyFields_cons (level : Nat) (name : String) (value : Json)
    (field : String × Json) (fields : List (String × Json)) :
    (prettyFields level ((name, value) :: field :: fields)).toList = (indent level).toList ++
      ((quote name).toList ++ ':' :: ' ' :: ((pretty level value).toList ++
        ',' :: '\n' :: (prettyFields level (field :: fields)).toList)) := by
  simp [prettyFields, String.toList_append]

/-- A value is read from its text, wherever the text stands. -/
def ReadsBack (j : Json) : Prop :=
  ∀ (level fuel : Nat) (s : List Char), Closes s →
    2 * (pretty level j).toList.length ≤ fuel →
      readValue (fuel + 1) ((pretty level j).toList ++ s) = (j, some s)

theorem readsBack_null : ReadsBack .null := fun level _ _ _ _ => by
  have htext : (pretty level .null).toList = ['n', 'u', 'l', 'l'] := by simp [pretty]
  rw [htext]
  rfl

theorem readsBack_bool (b : Bool) : ReadsBack (.bool b) := fun level _ _ _ _ => by
  cases b with
  | false =>
    have htext : (pretty level (.bool false)).toList = ['f', 'a', 'l', 's', 'e'] := by
      simp [pretty]
    rw [htext]
    rfl
  | true =>
    have htext : (pretty level (.bool true)).toList = ['t', 'r', 'u', 'e'] := by simp [pretty]
    rw [htext]
    rfl

theorem readsBack_int (v : Int) : ReadsBack (.int v) := fun _ fuel _ hs _ => by
  rw [pretty]
  exact readValue_toString v fuel hs

theorem readsBack_str (text : String) : ReadsBack (.str text) := fun _ fuel s _ _ => by
  rw [pretty]
  exact readValue_quote text fuel s

/-- Written items are read as themselves, up to the bracket behind them. -/
theorem readItems_pretty {item : Json} {items : List Json}
    (hitems : ∀ j ∈ item :: items, ReadsBack j) (level : Nat) {s rest : List Char}
    (hs : Closes s) (hclose : skipSpace s = ']' :: rest) {fuel : Nat}
    (hfuel : 2 * (prettyItems level (item :: items)).toList.length + 1 ≤ fuel) :
    readItems (fuel + 1) ((prettyItems level (item :: items)).toList ++ s) =
      (item :: items, some rest) := by
  induction items generalizing item fuel with
  | nil =>
    rw [toList_prettyItems_singleton] at hfuel ⊢
    rw [List.length_append] at hfuel
    obtain ⟨fuel, rfl⟩ := Nat.exists_eq_add_of_le' (show 1 ≤ fuel by omega)
    rw [List.append_assoc, readItems_congr (skipSpace_indent level _)]
    exact readItems_close (hitems item List.mem_cons_self level _ s hs (by omega)) hclose
  | cons item' items ih =>
    rw [toList_prettyItems_cons] at hfuel ⊢
    simp only [List.length_append, List.length_cons] at hfuel
    obtain ⟨fuel, rfl⟩ := Nat.exists_eq_add_of_le' (show 1 ≤ fuel by omega)
    simp only [List.append_assoc, List.cons_append]
    rw [readItems_congr (skipSpace_indent level _)]
    refine readItems_comma
      (hitems item List.mem_cons_self level _ _ (closes_comma _) (by omega)) ?_
    rw [readItems_congr (skipSpace_newline _)]
    exact ih (fun j hj => hitems j (List.mem_cons_of_mem _ hj)) (by omega)

/-- Written fields are read as themselves, up to the brace behind them. -/
theorem readFields_pretty {field : String × Json} {fields : List (String × Json)}
    (hfields : ∀ f ∈ field :: fields, ReadsBack f.2) (level : Nat) {s rest : List Char}
    (hs : Closes s) (hclose : skipSpace s = '\x7d' :: rest) {fuel : Nat}
    (hfuel : 2 * (prettyFields level (field :: fields)).toList.length + 1 ≤ fuel) :
    readFields (fuel + 1) ((prettyFields level (field :: fields)).toList ++ s) =
      (field :: fields, some rest) := by
  induction fields generalizing field fuel with
  | nil =>
    obtain ⟨name, value⟩ := field
    have hvalue : ReadsBack value := hfields (name, value) List.mem_cons_self
    rw [toList_prettyFields_singleton] at hfuel ⊢
    simp only [List.length_append, List.length_cons] at hfuel
    obtain ⟨fuel, rfl⟩ := Nat.exists_eq_add_of_le' (show 1 ≤ fuel by omega)
    simp only [List.append_assoc, List.cons_append]
    rw [readFields_congr (skipSpace_indent level _)]
    exact (readFields_quote (hvalue level _ s hs (by omega)) name).2 rest hclose
  | cons field' fields ih =>
    obtain ⟨name, value⟩ := field
    have hvalue : ReadsBack value := hfields (name, value) List.mem_cons_self
    rw [toList_prettyFields_cons] at hfuel ⊢
    simp only [List.length_append, List.length_cons] at hfuel
    obtain ⟨fuel, rfl⟩ := Nat.exists_eq_add_of_le' (show 1 ≤ fuel by omega)
    simp only [List.append_assoc, List.cons_append]
    rw [readFields_congr (skipSpace_indent level _)]
    refine readFields_comma (hvalue level _ _ (closes_comma _) (by omega)) ?_
    rw [readFields_congr (skipSpace_newline _)]
    exact ih (fun f hf => hfields f (List.mem_cons_of_mem _ hf)) (by omega)

theorem readsBack_arr {items : List Json} (hitems : ∀ j ∈ items, ReadsBack j) :
    ReadsBack (.arr items) := fun level fuel s _ hfuel => by
  cases items with
  | nil =>
    have htext : (pretty level (.arr [])).toList = ['[', ']'] := by simp [pretty]
    rw [htext]
    rfl
  | cons item items =>
    rw [toList_pretty_arr] at hfuel ⊢
    simp only [List.length_cons, List.length_append] at hfuel
    obtain ⟨fuel, rfl⟩ := Nat.exists_eq_add_of_le' (show 1 ≤ fuel by omega)
    simp only [List.cons_append, List.append_assoc]
    refine readValue_arr ?_
    rw [readItems_congr (skipSpace_newline _)]
    exact readItems_pretty hitems (level + 1) (closes_newline _)
      (skipSpace_closing (.inl rfl) level s) (by omega)

theorem readsBack_obj {fields : List (String × Json)} (hfields : ∀ f ∈ fields, ReadsBack f.2) :
    ReadsBack (.obj fields) := fun level fuel s _ hfuel => by
  cases fields with
  | nil =>
    have htext : (pretty level (.obj [])).toList = ['\x7b', '\x7d'] := by simp [pretty]
    rw [htext]
    rfl
  | cons field fields =>
    rw [toList_pretty_obj] at hfuel ⊢
    simp only [List.length_cons, List.length_append] at hfuel
    obtain ⟨fuel, rfl⟩ := Nat.exists_eq_add_of_le' (show 1 ≤ fuel by omega)
    simp only [List.cons_append, List.append_assoc]
    refine readValue_obj ?_
    rw [readFields_congr (skipSpace_newline _)]
    exact readFields_pretty hfields (level + 1) (closes_newline _)
      (skipSpace_closing (.inr rfl) level s) (by omega)

theorem plainItems_iff {items : List Json} :
    plainItems items = true ↔ ∀ j ∈ items, j.plain = true := by
  induction items with
  | nil => simp [plainItems]
  | cons item items ih => simp [plainItems, ih]

theorem plainFields_iff {fields : List (String × Json)} :
    plainFields fields = true ↔ ∀ f ∈ fields, f.2.plain = true := by
  induction fields with
  | nil => simp [plainFields]
  | cons field fields ih => simp [plainFields, ih]

theorem plain_arr_map {α : Type} {write : α → Json} {as : List α}
    (h : ∀ a ∈ as, (write a).plain = true) : (arr (as.map write)).plain = true := by
  rw [plain, plainItems_iff]
  exact List.forall_mem_map.2 h

/-- **A written value is read as itself**, wherever it stands. -/
theorem readsBack_of_plain : ∀ j : Json, j.plain = true → ReadsBack j
  | .null, _ => readsBack_null
  | .bool b, _ => readsBack_bool b
  | .int v, _ => readsBack_int v
  | .str text, _ => readsBack_str text
  | .arr items, h => readsBack_arr fun j hj => by
    rw [plain, plainItems_iff] at h
    exact readsBack_of_plain j (h j hj)
  | .obj fields, h => readsBack_obj fun f hf => by
    rw [plain, plainFields_iff] at h
    exact readsBack_of_plain f.2 (h f hf)
  | .other _, h => by
    rw [plain] at h
    cases h
  | .broken, h => by
    rw [plain] at h
    cases h
termination_by j => sizeOf j
decreasing_by
  · have := List.sizeOf_lt_of_mem hj
    simp only [Json.arr.sizeOf_spec]
    omega
  · have := List.sizeOf_lt_of_mem hf
    obtain ⟨name, value⟩ := f
    simp only [Json.obj.sizeOf_spec, Prod.mk.sizeOf_spec] at this ⊢
    omega

/-- **What is written is read as itself**, with nothing left over. -/
theorem parse_render {j : Json} (h : j.plain = true) : parse j.render = ⟨j, true⟩ := by
  have hread : readValue (2 * (pretty 0 j).toList.length + 2) (pretty 0 j).toList =
      (j, some []) := by
    have := readsBack_of_plain j h 0 _ [] closes_nil (Nat.le_succ (2 * (pretty 0 j).toList.length))
    rwa [List.append_nil] at this
  unfold parse render
  dsimp only
  rw [hread]
  rfl

/-! ## Values of a domain -/

theorem asWord_int {n : Nat} (h : n < wordLimit) : asWord (.int n) = .ok (UInt64.ofNat n) := by
  have hword : (0 : Int) ≤ n ∧ (n : Int) < wordLimit := ⟨Int.natCast_nonneg n, Int.ofNat_lt.2 h⟩
  rw [asWord, if_pos hword, Int.toNat_natCast]

@[simp]
theorem asBytes_format (bytes : List UInt8) : asBytes (.str (Hex.format bytes)) = .ok bytes := by
  simp [asBytes, asString, bind, Except.bind]

theorem once_none {α : Type} {read : Json → Read α} {j : Json} {a : α} (h : read j = .ok a) :
    once read none j = .ok (some a) := by
  rw [once, h]
  rfl

/-- A field that can be read brings the draft on to the next one. -/
theorem foldlM_field {δ : Type} {add : δ → String × Json → Read δ} {d d' : δ}
    {field : String × Json} {fields : List (String × Json)} (h : add d field = .ok d') :
    (field :: fields).foldlM add d = fields.foldlM add d' := by
  rw [List.foldlM_cons, h]
  rfl

/-- A list is read back if every item is. -/
theorem asList_map {α : Type} {read : Json → Read α} {write : α → Json} {as : List α}
    (h : ∀ a ∈ as, read (write a) = .ok a) : asList read (.arr (as.map write)) = .ok as := by
  rw [asList]
  induction as with
  | nil => rfl
  | cons a rest ih =>
    rw [List.map_cons, readAll, h a List.mem_cons_self,
      ih fun b hb => h b (List.mem_cons_of_mem a hb)]
    rfl

/-- A written document is read as its value is. -/
theorem decode_render {α : Type} (read : Json → Read α) {j : Json} (h : j.plain = true) :
    decode read j.render = read j := by
  unfold decode
  rw [parse_render h]
  dsimp only
  cases read j <;> rfl

end Json
end BinaryPatch
