import AxisLang.Text.Printable

/-! Quoted text. A text stands between single quotes, or between double quotes when it holds a
single quote and no double quote. The quote in use, the backslash, tab, line feed and carriage
return are written with a backslash; a character that is not printable is written by its number in
two, four or eight hexadecimal digits. -/
namespace AxisLang

def hexDigits (width n : Nat) : List Char :=
  let ds := Nat.toDigits 16 n
  List.replicate (width - ds.length) '0' ++ ds

def numberEscape (n : Nat) : List Char :=
  if n < 256 then '\\' :: 'x' :: hexDigits 2 n
  else if n < 65536 then '\\' :: 'u' :: hexDigits 4 n
  else '\\' :: 'U' :: hexDigits 8 n

/-- The quote that surrounds a text. -/
def quoteFor (cs : List Char) : Char :=
  if cs.contains '\x27' && !cs.contains '\x22' then '\x22' else '\x27'

/-- One character inside a quoted text; `shown` tells which characters stand for themselves. -/
def quotedChar (shown : Char → Bool) (q c : Char) : List Char :=
  if c = q || c = '\\' then ['\\', c]
  else if c = '\t' then ['\\', 't']
  else if c = '\n' then ['\\', 'n']
  else if c = '\r' then ['\\', 'r']
  else if shown c then [c]
  else numberEscape c.toNat

def quoteChars (cs : List Char) : List Char :=
  let q := quoteFor cs
  q :: (cs.flatMap (quotedChar isPrintable q) ++ [q])

def quote (s : String) : String :=
  String.ofList (quoteChars s.toList)

def quoteBytes (cs : List Char) : List Char :=
  let q := quoteFor cs
  let shown (c : Char) : Bool := 32 ≤ c.toNat && c.toNat < 127
  'b' :: q :: (cs.flatMap (quotedChar shown q) ++ [q])

def asciiOfBytes (cs : List Char) : List Char :=
  cs.flatMap fun c => if c.toNat < 128 then [c] else numberEscape c.toNat

def bracketed (items : List String) : String :=
  "[" ++ ", ".intercalate items ++ "]"

end AxisLang
