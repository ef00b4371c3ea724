import PathGlob.Text.Printable

namespace PathGlob.Text

def hexDigits : Nat → Nat → Text
  | 0, _ => []
  | width + 1, n => hexDigits width (n / 16) ++ [Nat.digitChar (n % 16)]

def singleQuote : Char := '\x27'

def quoteFor (text : Text) : Char :=
  if text.contains singleQuote && !text.contains '"' then '"' else singleQuote

def quotedChar (quote c : Char) : Text :=
  if c == quote || c == '\\' then ['\\', c]
  else if c == '\n' then ['\\', 'n']
  else if c == '\r' then ['\\', 'r']
  else if c == '\t' then ['\\', 't']
  else if isPrintable c then [c]
  else if c.toNat < 0x100 then '\\' :: 'x' :: hexDigits 2 c.toNat
  else if c.toNat < 0x10000 then '\\' :: 'u' :: hexDigits 4 c.toNat
  else '\\' :: 'U' :: hexDigits 8 c.toNat

def quoted (text : Text) : Text :=
  let quote := quoteFor text
  quote :: text.flatMap (quotedChar quote) ++ [quote]

def quotedByte (quote : Char) (byte : Nat) : Text :=
  if byte < 0x80 then quotedChar quote (Char.ofNat byte) else '\\' :: 'x' :: hexDigits 2 byte

def quotedBytes (text : Text) : Text :=
  let quote := quoteFor text
  let bytes := (String.ofList text).toUTF8.toList.map UInt8.toNat
  'b' :: quote :: bytes.flatMap (quotedByte quote) ++ [quote]

example : quoted "it's".toList = "\"it's\"".toList := by decide +kernel
example : quoted "a\\\n".toList = "'a\\\\\\n'".toList := by decide +kernel
example : quoted "\u00a0\u2028".toList = "'\\xa0\\u2028'".toList := by decide +kernel

end PathGlob.Text
