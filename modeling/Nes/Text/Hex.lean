import Nes.Byte

/-! Numbers as fixed-width text: a byte is two upper-case hexadecimal digits, an
address four, and a byte in binary eight. -/
namespace Nes.Text

def hexDigit (n : Nat) : Char :=
  Char.ofNat (if n < 10 then 48 + n else 55 + n)

def hexByte (b : Byte) : String :=
  String.ofList [hexDigit (b.toNat / 16), hexDigit (b.toNat % 16)]

def hexAddress (a : Address) : String := hexByte (high a) ++ hexByte (low a)

/-- The eight bits of a byte, the most significant first. -/
def binaryByte (b : Byte) : String :=
  String.ofList ([7, 6, 5, 4, 3, 2, 1, 0].map fun i => if bit b i then '1' else '0')

/-- Pads with blanks on the right up to `width` characters. -/
def padRight (width : Nat) (text : String) : String :=
  text ++ String.ofList (List.replicate (width - text.length) ' ')

/-- Pads with blanks on the left up to `width` characters. -/
def padLeft (width : Nat) (text : String) : String :=
  String.ofList (List.replicate (width - text.length) ' ') ++ text

/-- Drops the blanks at the end. -/
def trimRight (text : String) : String :=
  String.ofList (text.toList.reverse.dropWhile Char.isWhitespace).reverse

@[simp] theorem length_hexByte (b : Byte) : (hexByte b).length = 2 := by simp [hexByte]

@[simp] theorem length_hexAddress (a : Address) : (hexAddress a).length = 4 := by
  simp [hexAddress]

@[simp] theorem length_padRight (width : Nat) (text : String) :
    (padRight width text).length = max width text.length := by
  simp only [padRight, String.length_append, String.length_ofList, List.length_replicate]
  omega

@[simp] theorem length_padLeft (width : Nat) (text : String) :
    (padLeft width text).length = max width text.length := by
  simp only [padLeft, String.length_append, String.length_ofList, List.length_replicate]
  omega

end Nes.Text
