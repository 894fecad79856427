import SynapsNotes.Foundation.Text

/-!
# Texts as `NSString` counts them

An `NSString` is a sequence of UTF-16 code units, and an `NSRange` a place in
it. A range may begin or end inside a surrogate pair; a half of a pair reads
as U+FFFD where the units become characters again.
-/

namespace SynapsNotes

/-- An `NSString`, as its UTF-16 code units. -/
abbrev NSString := List UInt16

structure NSRange where
  location : Int
  length : Int
  deriving DecidableEq

/-- One unit, or a surrogate pair. -/
def utf16Units (c : Char) : List UInt16 :=
  if c.toNat < 0x10000 then [UInt16.ofNat c.toNat]
  else [UInt16.ofNat (0xD800 + (c.toNat - 0x10000) / 0x400), UInt16.ofNat (0xDC00 + (c.toNat - 0x10000) % 0x400)]

def isHighSurrogate (u : UInt16) : Bool := 0xD800 ≤ u && u < 0xDC00

def isLowSurrogate (u : UInt16) : Bool := 0xDC00 ≤ u && u < 0xE000

/-- The character of a unit on its own. -/
def loneUnit (u : UInt16) : Char :=
  if isHighSurrogate u || isLowSurrogate u then '\uFFFD' else Char.ofNat u.toNat

def surrogatePair (high low : UInt16) : Char :=
  Char.ofNat (0x10000 + (high.toNat - 0xD800) * 0x400 + (low.toNat - 0xDC00))

namespace NSString

/-- `as NSString`. -/
def ofString (s : String) : NSString := s.toList.flatMap utf16Units

def characters : NSString → Text
  | [] => []
  | [u] => [loneUnit u]
  | u :: v :: us =>
    if isHighSurrogate u && isLowSurrogate v then surrogatePair u v :: characters us
    else loneUnit u :: characters (v :: us)

/-- `as String`. -/
def string (t : NSString) : String := String.ofList t.characters

/-- `substring(to:)`. -/
def substringTo (t : NSString) (i : Int) : String := string (t.take i.toNat)

/-- `substring(from:)`. -/
def substringFrom (t : NSString) (i : Int) : String := string (t.drop i.toNat)

/-- `substring(with:)`. -/
def substring (t : NSString) (r : NSRange) : String := string ((t.drop r.location.toNat).take r.length.toNat)

/-- `replacingCharacters(in:with:)`. -/
def replacingCharacters (t : NSString) (r : NSRange) (replacement : String) : String :=
  string (t.take r.location.toNat ++ ofString replacement ++ t.drop (r.location.toNat + r.length.toNat))

end NSString

example : NSString.string (NSString.ofString "a🎈é") = "a🎈é" := by decide

example : NSString.substringTo (NSString.ofString "a🎈é") 2 = "a\uFFFD" := by decide

end SynapsNotes
