import DealsServer.Lib.Decimal

/-!
# Strings (`utils.cpp`)

A `std::string` is the list of its bytes. `find`, `splitString`, `concatString`, the case functions
and `std::stol` follow the source and the C++ library in the C locale.
-/

namespace DealsServer

open Decimal

/-- A `std::string`. -/
abbrev Bytes := List UInt8

/-- The bytes of an ASCII literal. -/
def str (s : String) : Bytes := s.toList.map Char.toUInt8

/-- `std::string::find`: the first position where `pat` occurs. -/
def find (pat : Bytes) : Bytes → Option ℕ
  | [] => if pat = [] then some 0 else none
  | b :: bs => if pat.isPrefixOf (b :: bs) then some 0 else (find pat bs).map (· + 1)

/-- The loop of `split_string`, for at most the given number of turns; `none` is a loop that has not
ended by then. -/
def splitLoop (delimiter : Bytes) : ℕ → Bytes → Option (List Bytes)
  | 0, _ => none
  | n + 1, text =>
    if text = [] then some []
    else
      match find delimiter text with
      | none => some [text]
      | some pos => (splitLoop delimiter n (text.drop (pos + delimiter.length))).map (text.take pos :: ·)

/-- `split_string`. With a non-empty delimiter each turn shortens the text, so the turns suffice. -/
def splitString (text delimiter : Bytes) : List Bytes :=
  (splitLoop delimiter (text.length + 1) text).getD []

/-- `concat_string`. -/
def concatString (msgs : List Bytes) : Bytes := msgs.flatten

/-- `tolower` of one byte. -/
def toLowerByte (b : UInt8) : UInt8 := if 65 ≤ b ∧ b ≤ 90 then b + 32 else b

/-- `toupper` of one byte. -/
def toUpperByte (b : UInt8) : UInt8 := if 97 ≤ b ∧ b ≤ 122 then b - 32 else b

/-- `toLowerCase`. -/
def toLowerCase (text : Bytes) : Bytes := text.map toLowerByte

/-- `toUpperCase`. -/
def toUpperCase (text : Bytes) : Bytes := text.map toUpperByte

/-- `isspace`. -/
def isSpace (b : UInt8) : Bool := b = 32 || (9 ≤ b && b ≤ 13)

/-- The sign `strtol` reads before the digits (`true`: minus), and what follows it. -/
def stolSign : Bytes → Bool × Bytes
  | 45 :: s => (true, s)
  | 43 :: s => (false, s)
  | s => (false, s)

/-- `std::stol`: leading blanks, a sign, then digits; what follows the digits is ignored. `none` stands
for the exceptions `invalid_argument` (no digit) and `out_of_range` (not a 64-bit `long`). -/
def stol (s : Bytes) : Option ℤ :=
  let (minus, rest) := stolSign (s.dropWhile isSpace)
  let digits := rest.takeWhile isDigit
  let v : ℤ := if minus then -decimalValue digits else decimalValue digits
  if digits = [] then none else if -2 ^ 63 ≤ v ∧ v < 2 ^ 63 then some v else none

end DealsServer
