/-
Bytes read as UTF-8.

Not every list of bytes is the form of a text. Where it is not, U+FFFD stands
for each longest piece that could have begun a character, or for a single byte
if no character begins there.
-/

set_option autoImplicit false

namespace CommandCompletion.Text

/-- Lies between two numbers, ends included. -/
def isBetween (low high : Nat) (byte : UInt8) : Bool := low ≤ byte.toNat && byte.toNat ≤ high

/-- Which bytes may follow a first byte, in order; `none` if no character of
more than one byte begins with it. Forms that are longer than needed, surrogates
and numbers past the last character are kept out by the first of them. -/
def followers? (first : UInt8) : Option (List (UInt8 → Bool)) :=
  let any := isBetween 0x80 0xBF
  let n := first.toNat
  if 0xC2 ≤ n && n ≤ 0xDF then some [any]
  else if n = 0xE0 then some [isBetween 0xA0 0xBF, any]
  else if n = 0xED then some [isBetween 0x80 0x9F, any]
  else if 0xE1 ≤ n && n ≤ 0xEF then some [any, any]
  else if n = 0xF0 then some [isBetween 0x90 0xBF, any, any]
  else if 0xF1 ≤ n && n ≤ 0xF3 then some [any, any, any]
  else if n = 0xF4 then some [isBetween 0x80 0x8F, any, any]
  else none

/-- The bytes that follow as they may, and the rest. -/
def takeFollowers : List (UInt8 → Bool) → List UInt8 → List UInt8 × List UInt8
  | fits :: more, byte :: bytes =>
    if fits byte then
      let (taken, rest) := takeFollowers more bytes
      (byte :: taken, rest)
    else ([], byte :: bytes)
  | _, bytes => ([], bytes)

/-- What is left is never longer. -/
theorem takeFollowers_length (fits : List (UInt8 → Bool)) (bytes : List UInt8) :
    (takeFollowers fits bytes).2.length ≤ bytes.length := by
  fun_induction takeFollowers fits bytes with
  | case1 fits more byte bytes h taken rest eq ih =>
    simp only [List.length_cons]
    rw [eq] at ih
    exact Nat.le_succ_of_le ih
  | case2 => exact Nat.le_refl _
  | case3 => exact Nat.le_refl _

/-- The number that a first byte and its followers write. -/
def codeOf (first : UInt8) (followers : List UInt8) : Nat :=
  let lead := match followers.length with
    | 1 => first.toNat - 0xC0
    | 2 => first.toNat - 0xE0
    | _ => first.toNat - 0xF0
  followers.foldl (fun n byte => n * 64 + (byte.toNat - 0x80)) lead

/-- The characters that bytes write. -/
def charsOfBytes : List UInt8 → List Char
  | [] => []
  | byte :: bytes =>
    if byte.toNat < 0x80 then Char.ofNat byte.toNat :: charsOfBytes bytes
    else
      match followers? byte with
      | none => '\ufffd' :: charsOfBytes bytes
      | some fits =>
        have := takeFollowers_length fits bytes
        let c := if (takeFollowers fits bytes).1.length = fits.length then
            Char.ofNat (codeOf byte (takeFollowers fits bytes).1)
          else '\ufffd'
        c :: charsOfBytes (takeFollowers fits bytes).2
termination_by bytes => bytes.length

/-- The text that bytes write. -/
def textOfBytes (bytes : List UInt8) : String := String.ofList (charsOfBytes bytes)

end CommandCompletion.Text
