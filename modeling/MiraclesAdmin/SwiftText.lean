import Mathlib.Data.Int.Notation
import Mathlib.Data.List.Basic
import Mathlib.Tactic.Common

/-!
The string operations the controllers use. `Int(_:)` and the digit filter of the
price fields are defined here; `capitalized` and the case-insensitive search are
Foundation's and stay parameters, of which only the documented answer to an empty
search text is used. Texts are compared and edited by Unicode scalars.
-/
namespace MiraclesAdmin.SwiftText

/-- The part of Foundation the controllers call. `caseInsensitiveRange name text`
is `(name as NSString).range(of: text, options: .caseInsensitive).location`, with
`none` for `NSNotFound`. -/
structure Foundation where
  capitalized : String → String
  caseInsensitiveRange : String → String → Option ℕ
  range_of_empty : ∀ name, caseInsensitiveRange name "" = none

def digitValue (c : Char) : Option ℕ :=
  if '0' ≤ c ∧ c ≤ '9' then some (c.toNat - '0'.toNat) else none

/-- The value of a nonempty sequence of ASCII digits. -/
def digitsValue : List Char → Option ℕ
  | [] => none
  | ds => ds.foldlM (fun n c => (digitValue c).map (fun d => 10 * n + d)) 0

/-- One more than `Int.max`. -/
def intLimit : ℕ := 0x8000000000000000

/-- `Int(text)`: an optional sign, then ASCII digits, within 64 bits. -/
def intOfString (text : String) : Option ℤ :=
  match text.toList with
  | '-' :: ds => (digitsValue ds).bind (fun n => if n ≤ intLimit then some (-(n : ℤ)) else none)
  | '+' :: ds => (digitsValue ds).bind (fun n => if n < intLimit then some (n : ℤ) else none)
  | ds => (digitsValue ds).bind (fun n => if n < intLimit then some (n : ℤ) else none)

/-- `String(price)`. -/
def stringOfInt (n : ℤ) : String := toString n

/-- The zeros of the blocks of ten decimal digits in category Nd of Unicode 10. -/
def decimalZeros : List ℕ :=
  [0x30, 0x660, 0x6F0, 0x7C0, 0x966, 0x9E6, 0xA66, 0xAE6, 0xB66, 0xBE6, 0xC66, 0xCE6, 0xD66,
   0xDE6, 0xE50, 0xED0, 0xF20, 0x1040, 0x1090, 0x17E0, 0x1810, 0x1946, 0x19D0, 0x1A80, 0x1A90,
   0x1B50, 0x1BB0, 0x1C40, 0x1C50, 0xA620, 0xA8D0, 0xA900, 0xA9D0, 0xA9F0, 0xAA50, 0xABF0,
   0xFF10, 0x104A0, 0x11066, 0x110F0, 0x11136, 0x111D0, 0x112F0, 0x11450, 0x114D0, 0x11650,
   0x116C0, 0x11730, 0x118E0, 0x11C50, 0x11D50, 0x16A60, 0x16B50, 0x1D7CE, 0x1D7D8, 0x1D7E2,
   0x1D7EC, 0x1D7F6, 0x1E950]

/-- Membership in `CharacterSet.decimalDigits`. -/
def isDecimalDigit (c : Char) : Bool :=
  decimalZeros.any (fun z => z ≤ c.toNat && c.toNat < z + 10)

/-- `textField(_:shouldChangeCharactersIn:replacementString:)` of both forms: only
the inserted characters are looked at. -/
def shouldChangeCharacters (string : String) : Bool := string.toList.all isDecimalDigit

/-- The text after `length` characters from `location` on are replaced. -/
def replaceCharacters (text : String) (location length : ℕ) (string : String) : String :=
  String.ofList (text.toList.take location ++ string.toList ++
    text.toList.drop (location + length))

example : intOfString "+7" = some 7 := by decide
example : intOfString "9223372036854775808" = none := by decide
example : shouldChangeCharacters "٤2" = true := by decide

/-- First occurrence of `pattern`, counted from `index`. -/
def findFrom (pattern : List Char) (index : ℕ) : List Char → Option ℕ
  | [] => if pattern = [] then some index else none
  | c :: cs =>
      if pattern.isPrefixOf (c :: cs) then some index else findFrom pattern (index + 1) cs

def asciiCapitalized (text : String) : String :=
  String.ofList (text.toList.foldl (fun (done, atStart) c =>
    (done ++ [if atStart then c.toUpper else c.toLower], c.isWhitespace)) ([], true)).1

/-- Foundation's answers on ASCII texts. -/
def asciiFoundation : Foundation where
  capitalized := asciiCapitalized
  caseInsensitiveRange name text :=
    if text = "" then none
    else findFrom (text.toList.map Char.toLower) 0 (name.toList.map Char.toLower)
  range_of_empty _ := rfl

example : asciiFoundation.capitalized "significant Other" = "Significant Other" := by decide
example : asciiFoundation.caseInsensitiveRange "Silver Ring" "ring" = some 7 := by decide

end MiraclesAdmin.SwiftText
