import TableDialects.Text.Basic
import TableDialects.Text.PrintableRanges

/- Which characters a quoted text shows as they are. -/
namespace TableDialects.Text

/-- Whether the character has a visible form of its own; the space counts. -/
def isPrintable (c : Char) : Bool :=
  let n := c.toNat
  if n < 128 then 32 ≤ n && n ≤ 126 else Ranges.holds printableRanges n

end TableDialects.Text
