/-
Hexadecimal digits: reading one in either case, writing one in the case that a
format asks for.
-/

set_option autoImplicit false

namespace CommandCompletion.Text

/-- The value of a hexadecimal digit, in either case. -/
def hexDigit? (c : Char) : Option Nat :=
  if '0' ≤ c && c ≤ '9' then some (c.toNat - '0'.toNat)
  else if 'a' ≤ c && c ≤ 'f' then some (c.toNat - 'a'.toNat + 10)
  else if 'A' ≤ c && c ≤ 'F' then some (c.toNat - 'A'.toNat + 10)
  else none

/-- The lower-case digit of a number below sixteen. -/
def hexChar (n : Nat) : Char := if n < 10 then Char.ofNat (n + 48) else Char.ofNat (n + 87)

/-- The upper-case digit of a number below sixteen. -/
def upperHexChar (n : Nat) : Char := if n < 10 then Char.ofNat (n + 48) else Char.ofNat (n + 55)

/-- A digit that was written reads as its number. -/
theorem hexDigit?_hexChar {n : Nat} (h : n < 16) : hexDigit? (hexChar n) = some n := by
  have all : ∀ m : Fin 16, hexDigit? (hexChar m) = some m.val := by decide
  exact all ⟨n, h⟩

/-- An upper-case digit that was written reads as its number. -/
theorem hexDigit?_upperHexChar {n : Nat} (h : n < 16) : hexDigit? (upperHexChar n) = some n := by
  have all : ∀ m : Fin 16, hexDigit? (upperHexChar m) = some m.val := by decide
  exact all ⟨n, h⟩

end CommandCompletion.Text
