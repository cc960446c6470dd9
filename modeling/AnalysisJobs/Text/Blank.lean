/-!
# Blank characters

The characters that only separate words.  The class holds the tabulator and the
line breaks, the next-line control, and every space and separator of Unicode's
property `White_Space`; joiners and the byte order mark are not blank.
-/

namespace AnalysisJobs.Text

def isBlank (c : Char) : Bool :=
  let n := c.toNat
  (0x9 ≤ n && n ≤ 0xD) || n = 0x20 || n = 0x85 || n = 0xA0 || n = 0x1680 ||
    (0x2000 ≤ n && n ≤ 0x200A) || n = 0x2028 || n = 0x2029 || n = 0x202F || n = 0x205F ||
    n = 0x3000

/-- The characters without blank ones at either end. -/
def trimmed (cs : List Char) : List Char :=
  ((cs.dropWhile isBlank).reverse.dropWhile isBlank).reverse

end AnalysisJobs.Text
