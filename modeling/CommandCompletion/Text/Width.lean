/-
How many columns a text takes on a terminal.

Most characters take one column, ideographs and most emoji two, marks and
invisible characters none. Some sequences take another width than their parts:
a selector asks for one of two forms of the character before it, a skin tone or
a joiner melts emoji into one, and a few scripts draw two letters as one sign.

What a character takes therefore depends on what follows it, so a text is
measured from its end. `Ahead` says what is known of the text to the right, and
`step` puts one more character in front of it.
-/
import CommandCompletion.Text.Width.Ranges

set_option autoImplicit false

namespace CommandCompletion.Text

/-! ## Characters -/

/-- Columns of a character on its own. -/
def charWidth (c : Char) : Nat :=
  if 0x20 ≤ c.toNat && c.toNat < 0x7F then 1
  else if inRanges zeroRanges c then 0
  else if inRanges wideRanges c then 2
  -- The Khmer sign that stands for "and so on" is drawn as three signs.
  else if c.toNat == 0x17D8 then 3
  else 1

/-- Asks for the emoji form of the character before it. -/
def isEmojiSelector (c : Char) : Bool := c.toNat == 0xFE0F

/-- Asks for the plain form of the character before it. -/
def isPlainSelector (c : Char) : Bool := c.toNat == 0xFE0E

/-- Asks for the wide form of the quotation mark before it. -/
def isWideSelector (c : Char) : Bool := c.toNat == 0xFE01

/-- Joins two characters. -/
def isJoiner (c : Char) : Bool := c.toNat == 0x200D

/-- A quotation mark that has a wide form. -/
def isWideningQuote (c : Char) : Bool :=
  c.toNat == 0x2018 || c.toNat == 0x2019 || c.toNat == 0x201C || c.toNat == 0x201D

/-- Gives the emoji before it a skin tone. -/
def isSkinTone (c : Char) : Bool := 0x1F3FB ≤ c.toNat && c.toNat ≤ 0x1F3FF

/-- Two such letters name the region of a flag. -/
def isFlagLetter (c : Char) : Bool := 0x1F1E6 ≤ c.toNat && c.toNat ≤ 0x1F1FF

/-- An invisible letter that names the region of a flag. -/
def isTagLetter (c : Char) : Bool := 0xE0061 ≤ c.toNat && c.toNat ≤ 0xE007A

/-- An invisible digit that names the region of a flag. -/
def isTagDigit (c : Char) : Bool := 0xE0030 ≤ c.toNat && c.toNat ≤ 0xE0039

/-- Has a plain form and an emoji form. -/
def hasTwoForms (c : Char) : Bool := inRanges twoFormRanges c

/-- Is drawn as an emoji unless asked otherwise. -/
def isPicture (c : Char) : Bool := inRanges pictureRanges c

/-- An emoji that takes one column in its plain form. Ideographs in a square
stay wide. -/
def narrowsWhenPlain (c : Char) : Bool :=
  hasTwoForms c && isPicture c && !(0x1F200 ≤ c.toNat && c.toNat < 0x1F300)

/-- An Arabic letter of the shape of alef. -/
def isAlef (c : Char) : Bool :=
  inRanges [(0x622, 0x623), (0x625, 0x625), (0x627, 0x627), (0x671, 0x673), (0x675, 0x675),
    (0x773, 0x774), (0x870, 0x882)] c

/-- An Arabic letter of the shape of lam. -/
def isLam (c : Char) : Bool :=
  inRanges [(0x644, 0x644), (0x6b5, 0x6b8), (0x76a, 0x76a), (0x8a6, 0x8a6), (0x8c7, 0x8c7)] c

/-- Takes no column and does not part the Arabic letters around it. -/
def letsArabicJoin (c : Char) : Bool := charWidth c == 0 && !inRanges barrierRanges c

/-- A mark that takes no column and does not part the letters around it. -/
def isInvisibleMark (c : Char) : Bool :=
  inRanges [(0x34f, 0x34f), (0x17b4, 0x17b5), (0x180b, 0x180d), (0x180f, 0x180f),
    (0xfe00, 0xfe0f), (0xe0100, 0xe01ef)] c

/-- A Khmer letter that can be written below another one. -/
def isKhmerBelow (c : Char) : Bool :=
  inRanges [(0x1780, 0x1782), (0x1784, 0x1787), (0x1789, 0x178c), (0x178e, 0x1793),
    (0x1795, 0x1798), (0x179b, 0x179d), (0x17a0, 0x17a0), (0x17a2, 0x17a2), (0x17a7, 0x17a7),
    (0x17ab, 0x17ac), (0x17af, 0x17af)] c

/-- A consonant of the Tifinagh script. -/
def isTifinaghConsonant (c : Char) : Bool := inRanges [(0x2d31, 0x2d65), (0x2d6f, 0x2d6f)] c

/-! ## The text to the right -/

/-- What the text to the right begins with, where that can melt into the
character before it. A `joined` letter has a joiner before it. -/
inductive Joint
  | loose
  /-- Skin tone. -/
  | skinTone
  /-- One letter of a flag. -/
  | flagLetter
  /-- Several letters of flags. -/
  | flagLetters
  | picture
  /-- A joiner before an emoji. -/
  | joinedPicture
  /-- The frame of a key, joined to an emoji. -/
  | joinedKey
  /-- Letters of flags, joined to an emoji; `paired` says that they are even in number. -/
  | joinedFlag (paired : Bool)
  /-- One letter of a flag, joined to an emoji. -/
  | joinedFlagLetter
  /-- The end of a flag that is named by invisible letters and digits, joined to an emoji. -/
  | joinedTags (letters digits : Nat)
  | alef
  | lamed (joined : Bool)
  | khmerBelow
  | buginese (joined : Bool)
  /-- The vowel that joins to the Buginese letter. -/
  | bugineseVowel
  | tifinagh (joined : Bool)
  /-- The sign between two consonants, and the second of them. -/
  | tifinaghSign
  | lisuTone
  | turkicI (joined : Bool)
  /-- The Kirat Rai vowel e. -/
  | raiE
  /-- The Kirat Rai vowel ai. -/
  | raiAi
deriving DecidableEq, Repr, Inhabited

namespace Joint

/-- Parts of letters that are drawn as one, invisible marks between them or not. -/
def isLigature : Joint → Bool
  | .lamed _ | .khmerBelow | .buginese _ | .bugineseVowel | .tifinagh _ | .tifinaghSign
  | .lisuTone | .turkicI _ => true
  | _ => false

/-- An emoji, or the frame of a key, that is joined to the character before it. -/
def isJoined : Joint → Bool
  | .joinedPicture | .joinedKey => true
  | _ => false

/-- The joint of letters with a joiner in front. -/
def withJoiner : Joint → Joint
  | .lamed _ => .lamed true
  | .buginese _ => .buginese true
  | .tifinagh _ => .tifinagh true
  | .turkicI _ => .turkicI true
  | joint => joint

/-- What a text begins with that begins with `c`. -/
def ofChar (c : Char) : Joint :=
  if isFlagLetter c then .flagLetter
  else if isSkinTone c then .skinTone
  else if isPicture c then .picture
  else if isAlef c then .alef
  else if isKhmerBelow c then .khmerBelow
  else if isTifinaghConsonant c then .tifinagh false
  else match c.toNat with
    | 0x5DC => .lamed false
    | 0x1A10 => .buginese false
    | 0xA4FC | 0xA4FD => .lisuTone
    | 0x10C03 => .turkicI false
    | 0x16D67 => .raiE
    | 0x16D68 => .raiAi
    | _ => .loose

/-- The columns that `c` adds in front of a joint that it melts into, and the
joint that comes of it. An addition below zero takes back a column that was
counted for what is now part of one sign. -/
def meet (c : Char) : Joint → Option (Int × Joint)
  -- A letter of Arabic.
  | .alef =>
    if isLam c then some (0, .loose) else if letsArabicJoin c then some (0, .alef) else none
  -- Pairs of letters of other scripts.
  | .lamed true => if c.toNat = 0x5D0 then some (0, .loose) else none
  | .khmerBelow => if c.toNat = 0x17D2 then some (-1, .loose) else none
  | .buginese true => if c.toNat = 0x1A17 then some (0, .bugineseVowel) else none
  | .bugineseVowel => if c.toNat = 0x1A15 then some (0, .loose) else none
  | .tifinagh joined =>
    if c.toNat = 0x2D7F then some (1, .tifinaghSign)
    else if joined && isTifinaghConsonant c then some (0, .loose)
    else none
  | .tifinaghSign => if isTifinaghConsonant c then some (-1, .loose) else none
  | .lisuTone => if 0xA4F8 ≤ c.toNat && c.toNat ≤ 0xA4FB then some (0, .loose) else none
  | .turkicI true => if c.toNat = 0x10C32 then some (0, .loose) else none
  | .raiE => match c.toNat with
    | 0x16D63 | 0x16D69 => some (0, .loose)
    | 0x16D67 => some (0, .raiAi)
    | 0x16D68 => some (1, .raiE)
    | _ => none
  | .raiAi => if c.toNat = 0x16D63 then some (0, .loose) else none
  -- Emoji.
  | .skinTone =>
    if inRanges toneableRanges c then some (0, .skinTone)
    else if isJoiner c then some (0, .joinedPicture)
    else none
  | .flagLetter => if isFlagLetter c then some (1, .flagLetters) else none
  | .flagLetters =>
    if isFlagLetter c then some (1, .flagLetters)
    else if isJoiner c then some (0, .joinedPicture)
    else none
  | .picture => if isJoiner c then some (0, .joinedPicture) else none
  | .joinedPicture =>
    if c.toNat = 0x20E3 then some (0, .joinedKey)
    else if isFlagLetter c then some (1, .joinedFlagLetter)
    else if isSkinTone c then some (0, .skinTone)
    else if c.toNat = 0xE007F then some (0, .joinedTags 0 0)
    else if isPicture c then some (0, .picture)
    else none
  | .joinedFlagLetter => if isFlagLetter c then some (-1, .joinedFlag true) else none
  | .joinedFlag paired =>
    if isFlagLetter c then some (if paired then 3 else -1, .joinedFlag !paired)
    else if isJoiner c then some (0, .joinedPicture)
    else none
  | .joinedTags letters digits =>
    if isTagLetter c && digits = 0 && letters < 6 then some (0, .joinedTags (letters + 1) 0)
    else if isTagDigit c && letters ≤ 4 && digits < 3 then some (0, .joinedTags letters (digits + 1))
    -- The black flag that the letters and digits name the region of.
    else if c.toNat = 0x1F3F4 && (digits = 3 || (digits = 0 && 3 ≤ letters)) then some (0, .picture)
    else none
  | _ => none

end Joint

/-- What is known of the text to the right: what it begins with, and which form
it asks for of the character before it. -/
structure Ahead where
  joint : Joint
  emojiForm : Bool := false
  plainForm : Bool := false
  wideForm : Bool := false
deriving DecidableEq, Repr, Inhabited

namespace Ahead

/-- The text to the right when a selector comes before it: letters that melt
together are not parted by it, all else is forgotten. -/
def behindSelector (ahead : Ahead) : Ahead :=
  if ahead.joint.isLigature || ahead.joint = .alef then ⟨ahead.joint, false, false, false⟩
  else ⟨.loose, false, false, false⟩

/-- The text to the right when its request for an emoji form came to nothing. -/
def withoutEmojiForm (ahead : Ahead) : Ahead :=
  if ahead.emojiForm then
    { ahead.behindSelector with plainForm := ahead.plainForm, wideForm := ahead.wideForm }
  else ahead

/-- The columns that `c` adds in front of a text that asks for no emoji form of
it, and what is then known. -/
def stepPlain (c : Char) (ahead : Ahead) : Int × Ahead :=
  if c.toNat ≤ 0xA0 then (1, ⟨.loose, false, false, false⟩)
  else if isEmojiSelector c then
    -- A joined emoji waits for the selector's character.
    if ahead.joint.isJoined then (0, { ahead with emojiForm := true })
    else (0, { ahead.behindSelector with emojiForm := true })
  else if isPlainSelector c then (0, { ahead.behindSelector with plainForm := true })
  else if isWideSelector c then (0, { ahead.behindSelector with wideForm := true })
  else if ahead.plainForm && narrowsWhenPlain c then (1, ⟨.loose, false, false, false⟩)
  else if ahead.wideForm && isWideningQuote c then (2, ⟨.loose, false, false, false⟩)
  else
    let joint := ahead.joint
    if joint.isLigature && isJoiner c then (0, ⟨joint.withJoiner, false, false, false⟩)
    else if joint.isLigature && isInvisibleMark c then (0, ⟨joint, false, false, false⟩)
    else
      match joint.meet c with
      | some (columns, joint) => (columns, ⟨joint, false, false, false⟩)
      | none => (charWidth c, ⟨.ofChar c, false, false, false⟩)

/-- The columns that `c` adds in front of a text, and what is then known. -/
def step (c : Char) (ahead : Ahead) : Int × Ahead :=
  if ahead.emojiForm && hasTwoForms c then
    -- A joined emoji was counted already.
    (if ahead.joint.isJoined then 0 else 2, ⟨.picture, false, false, false⟩)
  else stepPlain c ahead.withoutEmojiForm

end Ahead

/-! ## Texts -/

/-- The columns of a text, counted from its end, and what it begins with. -/
def measure : List Char → Int × Ahead
  | [] => (0, ⟨.loose, false, false, false⟩)
  | c :: cs =>
    let (columns, ahead) := measure cs
    let (more, ahead') := ahead.step c
    (columns + more, ahead')

/-- Columns that a text of one line takes. -/
def width (cs : List Char) : Nat := (measure cs).1.toNat

end CommandCompletion.Text
