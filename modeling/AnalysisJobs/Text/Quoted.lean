import AnalysisJobs.Text.GraphemeBase
/-!
# Quoted text

Text between double quotes in which everything that a reader could not see or
could mistake is written out: the quote and the backslash, the common controls
by their letters, and every other character that does not show by itself by its
code point.  A single quote stands as it is.
-/

namespace AnalysisJobs.Text

def isSpace (c : Char) : Bool :=
  let n := c.toNat
  n = 0x20 || n = 0xA0 || n = 0x1680 || (0x2000 ≤ n && n ≤ 0x200A) || n = 0x202F ||
    n = 0x205F || n = 0x3000

/-- Whether a character is a filler: a letter without a shape, which stands for a
missing part of a Hangul syllable.  These are the base characters among those
that Unicode lets a display ignore. -/
def isFiller (c : Char) : Bool :=
  let n := c.toNat
  n = 0x115F || n = 0x1160 || n = 0x3164 || n = 0xFFA0

/-- Whether a character is a halfwidth sound mark of katakana: a letter that
extends the one before it and yet takes a place of its own. -/
def isHalfwidthSoundMark (c : Char) : Bool :=
  let n := c.toNat
  n = 0xFF9E || n = 0xFF9F

/-- Whether a character stands as it is between quotes: it shows by itself, and
of the spaces only the ordinary one does. -/
def isShown (c : Char) : Bool :=
  c = ' ' || isHalfwidthSoundMark c || (isGraphemeBase c && !isSpace c && !isFiller c)

def codePoint (c : Char) : List Char :=
  '\\' :: 'u' :: '\x7b' :: Nat.toDigits 16 c.toNat ++ ['\x7d']

def escaped (c : Char) : List Char :=
  if c = '"' then ['\\', '"']
  else if c = '\\' then ['\\', '\\']
  else if c = '\n' then ['\\', 'n']
  else if c = '\r' then ['\\', 'r']
  else if c = '\t' then ['\\', 't']
  else if c = '\x00' then ['\\', '0']
  else if isShown c then [c]
  else codePoint c

def quoted (s : String) : String :=
  String.ofList ('"' :: s.toList.flatMap escaped ++ ['"'])

end AnalysisJobs.Text
