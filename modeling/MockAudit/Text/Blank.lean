/-!
# White space

The characters with the Unicode `White_Space` property, and trimming with respect to them.
-/

namespace MockAudit.Text

/-- The characters of the Unicode class `White_Space`. -/
def isBlank (c : Char) : Bool :=
  let n := c.toNat
  (0x09 ≤ n && n ≤ 0x0d) || n == 0x20 || n == 0x85 || n == 0xa0 || n == 0x1680
    || (0x2000 ≤ n && n ≤ 0x200a) || n == 0x2028 || n == 0x2029 || n == 0x202f
    || n == 0x205f || n == 0x3000

/-- The text without its leading blanks. -/
def trimStart (cs : List Char) : List Char :=
  cs.dropWhile isBlank

/-- The text without its trailing blanks. -/
def trimEnd (cs : List Char) : List Char :=
  (cs.reverse.dropWhile isBlank).reverse

/-- The text without its leading and trailing blanks. -/
def trim (cs : List Char) : List Char :=
  trimEnd (trimStart cs)

@[simp] theorem trim_nil : trim [] = [] := rfl

/-- Trimming never lengthens a text. -/
theorem length_trim_le (cs : List Char) : (trim cs).length ≤ cs.length := by
  have drop_le : ∀ l : List Char, (l.dropWhile isBlank).length ≤ l.length := fun l =>
    (List.dropWhile_sublist isBlank).length_le
  calc (trim cs).length
      = ((trimStart cs).reverse.dropWhile isBlank).length := by
        rw [trim, trimEnd, List.length_reverse]
    _ ≤ (trimStart cs).reverse.length := drop_le _
    _ = (trimStart cs).length := List.length_reverse
    _ ≤ cs.length := drop_le cs

end MockAudit.Text
