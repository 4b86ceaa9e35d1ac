/-!
# White space

The characters of the Unicode property `White_Space`. Words of a menu definition are separated by
any of them, so the ASCII class of the core library is not enough: a no-break space or an
ideographic space also ends a word, a zero-width space does not.
-/

namespace SoftMenu

/-- Whether `c` has the Unicode property `White_Space`. -/
def isWhiteSpace (c : Char) : Bool :=
  let n := c.toNat
  (9 ≤ n && n ≤ 13) || n == 32 || n == 0x85 || n == 0xA0 || n == 0x1680 ||
    (0x2000 ≤ n && n ≤ 0x200A) || n == 0x2028 || n == 0x2029 || n == 0x202F || n == 0x205F ||
    n == 0x3000

end SoftMenu
