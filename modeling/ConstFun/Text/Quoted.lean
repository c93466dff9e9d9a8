import ConstFun.Text.Printable

namespace ConstFun

/-- Fills a text with `fill` on the left up to `width` characters. -/
def padLeft (width : Nat) (fill : Char) (text : String) : String :=
  String.ofList (List.replicate (width - text.length) fill) ++ text

/-- Fills a text with spaces on the right up to `width` characters. -/
def padRight (width : Nat) (text : String) : String :=
  text ++ String.ofList (List.replicate (width - text.length) ' ')

/-- Lower-case hexadecimal digits, at least `width` of them. -/
def hexDigits (width : Nat) (n : Nat) : String :=
  padLeft width '0' (String.ofList (Nat.toDigits 16 n))

/-- The escape of an unprintable character has the shortest of the widths 2, 4 and 8. -/
def escapeCode (c : Char) : String :=
  if c.toNat ≤ 0xff then "\\x" ++ hexDigits 2 c.toNat
  else if c.toNat ≤ 0xffff then "\\u" ++ hexDigits 4 c.toNat
  else "\\U" ++ hexDigits 8 c.toNat

def escapeChar (mark c : Char) : String :=
  if c = mark ∨ c = '\\' then String.ofList ['\\', c]
  else if c = '\n' then "\\n"
  else if c = '\r' then "\\r"
  else if c = '\t' then "\\t"
  else if isPrintable c then String.singleton c
  else escapeCode c

/-- Single quotes enclose a text, unless it holds a single quote and no double one. -/
def quoteMark (text : String) : Char :=
  if text.contains '\x27' && !text.contains '\x22' then '\x22' else '\x27'

def quoted (text : String) : String :=
  let mark := quoteMark text
  String.singleton mark ++ String.join (text.toList.map (escapeChar mark)) ++ String.singleton mark

end ConstFun
