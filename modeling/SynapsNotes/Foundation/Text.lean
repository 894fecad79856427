import SynapsNotes.Framework.Trim

/-!
# Text

A Swift `String` is read as the list of its characters wherever the program
takes it apart. The character classes and the operations of Foundation that
the program uses are given here as Foundation documents them; the Unicode
tables themselves (letters, case) are a parameter, `Unicode`.
-/

namespace SynapsNotes

abbrev Text := List Char

/-- `CharacterSet.whitespacesAndNewlines`: the tab, U+000A–U+000D, U+0085 and
the separators of Unicode. `Character.isWhitespace || isNewline` is the same
set. -/
def isWhitespace (c : Char) : Bool :=
  let n := c.toNat
  (9 ≤ n && n ≤ 13) || n == 0x20 || n == 0x85 || n == 0xA0 || n == 0x1680 ||
    (0x2000 ≤ n && n ≤ 0x200A) || n == 0x2028 || n == 0x2029 || n == 0x202F || n == 0x205F ||
    n == 0x3000

/-- What `\s` matches in a regular expression of Foundation: the set above
without U+000B and U+0085. -/
def isRegexSpace (c : Char) : Bool := isWhitespace c && c.toNat != 0x0B && c.toNat != 0x85

/-- The Unicode tables: which characters `CharacterSet.alphanumerics` holds,
which are lower case, and what `lowercased` makes of a text. Whitespace is
never alphanumeric. -/
structure Unicode where
  alphanumerics : Char → Bool
  isLowercase : Char → Bool
  lowercased : Text → Text
  alphanumerics_of_whitespace (c : Char) : isWhitespace c = true → alphanumerics c = false

/-- No ASCII letter or digit is whitespace. -/
theorem isAlphanum_of_isWhitespace {c : Char} (h : isWhitespace c = true) : c.isAlphanum = false := by
  simp only [isWhitespace, Char.toNat, Bool.or_eq_true, Bool.and_eq_true, decide_eq_true_eq,
    beq_iff_eq] at h
  show (decide (c.val ≥ 'A'.val ∧ c.val ≤ 'Z'.val) ||
    (decide (c.val ≥ 'a'.val) && decide (c.val ≤ 'z'.val)) ||
    (decide (c.val ≥ '0'.val) && decide (c.val ≤ '9'.val))) = false
  simp only [ge_iff_le, Bool.or_eq_false_iff, Bool.and_eq_false_iff, decide_eq_false_iff_not,
    UInt32.le_iff_toNat_le]
  have upper : 'A'.val.toNat = 65 ∧ 'Z'.val.toNat = 90 := ⟨rfl, rfl⟩
  have lower : 'a'.val.toNat = 97 ∧ 'z'.val.toNat = 122 := ⟨rfl, rfl⟩
  have digit : '0'.val.toNat = 48 ∧ '9'.val.toNat = 57 := ⟨rfl, rfl⟩
  omega

/-- The tables restricted to ASCII. -/
def Unicode.ascii : Unicode where
  alphanumerics := Char.isAlphanum
  isLowercase := Char.isLower
  lowercased := List.map Char.toLower
  alphanumerics_of_whitespace _ := isAlphanum_of_isWhitespace

namespace Text

/-- `trimmingCharacters(in: .whitespacesAndNewlines)`. -/
def trimmingCharacters (t : Text) : Text := Framework.trim isWhitespace t

/-- The text before the first occurrence of `target` and the text after it. -/
def splitFirst (target : Text) : Text → Option (Text × Text)
  | [] => if target.isEmpty then some ([], []) else none
  | c :: cs =>
    if target.isPrefixOf (c :: cs) then some ([], (c :: cs).drop target.length)
    else (splitFirst target cs).map fun p => (c :: p.1, p.2)

/-- `contains`, of a text. -/
def containsText (target t : Text) : Bool := (splitFirst target t).isSome

/-- `replacingOccurrences(of:with:)`: the occurrences found from the left,
none overlapping another; `skip` characters of one are still to be passed
over. -/
def replacingAux (target by_ : Text) : Nat → Text → Text
  | _, [] => []
  | skip + 1, _ :: cs => replacingAux target by_ skip cs
  | 0, c :: cs =>
    if target.isPrefixOf (c :: cs) then by_ ++ replacingAux target by_ (target.length - 1) cs
    else c :: replacingAux target by_ 0 cs

def replacingOccurrences (target by_ t : Text) : Text := replacingAux target by_ 0 t

/-- `components(separatedBy:)`, of a non-empty separator. -/
def componentsAux (separator : Text) : Nat → Text → List Text
  | _, [] => [[]]
  | skip + 1, _ :: cs => componentsAux separator skip cs
  | 0, c :: cs =>
    if separator.isPrefixOf (c :: cs) then [] :: componentsAux separator (separator.length - 1) cs
    else (componentsAux separator 0 cs).modifyHead (c :: ·)

def components (separator t : Text) : List Text := componentsAux separator 0 t

end Text

/-- `trimmingCharacters(in: .whitespacesAndNewlines)`. -/
def trimmed (s : String) : String := String.ofList (Text.trimmingCharacters s.toList)

/-- `prefix(_:)`. -/
def prefixOf (n : Nat) (s : String) : String := String.ofList (s.toList.take n)

end SynapsNotes
