/-!
# UTF-16 units

A character up to U+FFFF is one 16 bit unit; a character beyond is two, the high half of its
distance from U+10000 first.
-/

namespace ChunkDispatch.Text

/-- The UTF-16 units of a character. -/
def unitsOfChar (c : Char) : List Nat :=
  let n := c.toNat
  if n < 0x10000 then [n]
  else [0xD800 + (n - 0x10000) / 0x400, 0xDC00 + (n - 0x10000) % 0x400]

/-- The UTF-16 units of a text. -/
def units (s : String) : List Nat :=
  s.toList.flatMap unitsOfChar

theorem units_append (s t : String) :
  units (s ++ t) = units s ++ units t
  := by
  simp [units]

theorem toNat_lt (c : Char) :
  c.toNat < 0x110000
  := by
  have h : c.val.toNat < 0xD800 ∨ 0xDFFF < c.val.toNat ∧ c.val.toNat < 0x110000 := c.valid
  rw [Char.toNat_val] at h
  omega

end ChunkDispatch.Text
