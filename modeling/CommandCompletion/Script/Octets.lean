/-
Octet texts.

Scripts and utilities count, cut and compare bytes, while files and answers hold
texts. Here a text is one whose characters each stand for a byte, so that the
functions on texts do the work of functions on bytes.
-/
import CommandCompletion.Text.Utf8

set_option autoImplicit false

namespace CommandCompletion.Script

/-- The character that stands for a byte. -/
def ofByte (byte : UInt8) : Char := Char.ofNat byte.toNat

/-- The grave accent, which encloses commands in a script. -/
def grave : Char := Char.ofNat 0x60

/-- The octets of some bytes. -/
def octetsOf (bytes : ByteArray) : String :=
  bytes.foldl (fun octets byte => octets.push (ofByte byte)) ""

/-- The bytes of octets. -/
def bytesOf (octets : String) : ByteArray :=
  octets.foldl (fun bytes c => bytes.push c.toNat.toUInt8) ByteArray.empty

/-- The octets of a text. -/
def encode (text : String) : String := octetsOf text.toUTF8

/-- The text of octets. Those that are not well formed become U+FFFD. -/
def decode (octets : String) : String := Text.textOfBytes (bytesOf octets).toList

/-- The lines of octets, without their line ends; no line follows the last line end. -/
def linesOf (octets : String) : List String :=
  let lines := octets.splitOn "\n"
  if lines.getLast? == some "" then lines.dropLast else lines

/-- Lines with their line ends. -/
def ofLines (lines : List String) : String := lines.foldl (fun text line => text ++ line ++ "\n") ""

end CommandCompletion.Script
