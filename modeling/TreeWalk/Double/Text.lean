import TreeWalk.Double.Shortest

/-!
# Printed forms of numbers

Two forms are in use. `printed` is what a running program shows for a value, and
`literal` is what listings and prefix forms show for a number token. Neither ever uses
an exponent. They differ in the sign of zero, in the fraction of whole numbers and in
the word for infinity.
-/

namespace TreeWalk.Double

/-- The bits beside the sign. -/
def code (value : Float) : Nat :=
  value.toBits.toNat % 1 <<< 63

/-- Whether the sign bit is set. -/
def isNegative (value : Float) : Bool :=
  1 <<< 63 ≤ value.toBits.toNat

/-- The number with a clear sign bit and this code. -/
def ofCode (code : Nat) : Float :=
  Float.ofBits (UInt64.ofNat code)

/-- The number nearest to a decimal. -/
def ofDecimalText (text : List Char) : Float :=
  ofCode (ofDecimal (Decimal.ofText text))

/-- The text with a minus in front where the number is negative. -/
def signed (value : Float) (magnitude : List Char) : List Char :=
  if isNegative value then '-' :: magnitude else magnitude

/-- The form of a value: zero has no sign and whole numbers have no fraction. -/
def printed (value : Float) : String :=
  let code := code value
  String.ofList <|
    if code = 0 then ['0']
    else if infinityCode < code then "NaN".toList
    else if code = infinityCode then signed value "Infinity".toList
    else signed value (shortest code).text

/-- The form of a literal: zero keeps its sign and whole numbers are written exactly,
with one zero after the point. -/
def literal (value : Float) : String :=
  let code := code value
  String.ofList <|
    if infinityCode < code then "NaN".toList
    else if code = infinityCode then signed value "inf".toList
    else if units code % 1 <<< unitPlaces = 0 then
      signed value (Decimal.text ⟨units code >>> unitPlaces * 10, 1⟩)
    else signed value (shortest code).text

end TreeWalk.Double
