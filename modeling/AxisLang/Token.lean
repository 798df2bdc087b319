import AxisLang.Text.Basic
import AxisLang.Text.Quoted

/-! Tokens: a kind, the text, and where the text stands in its source. -/
namespace AxisLang

/-- A token. Offsets count characters from zero, lines and columns from one; a position that is
not known is `none`. -/
structure Token where
  kind : String
  text : Text
  start : Option Int := none
  line : Option Int := none
  column : Option Int := none
  endLine : Option Int := none
  endColumn : Option Int := none
  stop : Option Int := none
deriving DecidableEq, Repr, Inhabited

namespace Token

def endKind : String := "$END"

def content (t : Token) : List Char :=
  if t.text.bytes then quoteBytes t.text.chars else t.text.chars

def shown (t : Token) : String :=
  String.ofList t.content

def quotedText (t : Token) : String :=
  String.ofList (if t.text.bytes then quoteBytes t.text.chars else quoteChars t.text.chars)

def written (t : Token) : String :=
  "Token(" ++ quote t.kind ++ ", " ++ t.quotedText ++ ")"

/-- Tokens are the same when kind and text are, wherever they stand. -/
def same (a b : Token) : Bool :=
  a.kind == b.kind && a.content == b.content

/-- A token of the given kind and text that stands where `t` stands. -/
def borrow (kind : String) (text : Text) (t : Token) : Token :=
  { t with kind, text }

def update (t : Token) (kind : Option String) (text : Option Text) : Token :=
  borrow (kind.getD t.kind) (text.getD t.text) t

/-- A copy that knows where the token starts but not where it ends. -/
def startCopy (t : Token) : Token :=
  { t with endLine := none, endColumn := none, stop := none }

end Token

end AxisLang
