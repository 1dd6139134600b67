import PgRouter.Library.Texts
import PgRouter.Sql.Lexing

namespace PgRouter.Sql.Tokens

open Client.Protocol Library.Texts Lexing

section Bytes

def isNewline (c : UInt8) : Bool := c == 0x0a || c == 0x0d

def isIdentStart (c : UInt8) : Bool :=
  (0x61 ≤ c && c ≤ 0x7a) || (0x41 ≤ c && c ≤ 0x5a) || c == 0x5f || 0x80 ≤ c

def isIdentCont (c : UInt8) : Bool := isIdentStart c || isDigit c || c == 0x24

def doubled (quote : UInt8) : Text → Bool
  | [] => true
  | [c] => c != quote
  | c :: d :: s => if c = quote then d == quote && doubled quote s else doubled quote (d :: s)

def escaped : Text → Bool
  | [] => true
  | [c] => c != 0x5c && c != 0x27
  | c :: d :: s =>
    if c = 0x5c then escaped s else if c = 0x27 then d == 0x27 && escaped s else escaped (d :: s)

def grouped (p : UInt8 → Bool) : Text → Bool
  | [] => false
  | [c] => p c
  | c :: d :: s => p c && if d = 0x5f then grouped p s else grouped p (d :: s)

end Bytes

/-- A numeric literal: the digits before the point, those behind it and the exponent, or the digits behind
a prefix such as `0x`. -/
inductive Number
  | decimal (whole : Text) (fraction : Option Text) (exponent : Option (UInt8 × Option UInt8 × Text))
  | radix (letter : UInt8) (digits : Text)
  deriving DecidableEq

namespace Number

def fractionText : Option Text → Text
  | none => []
  | some digits => 0x2e :: digits

def exponentText : Option (UInt8 × Option UInt8 × Text) → Text
  | none => []
  | some (letter, sign, digits) => letter :: (sign.toList ++ digits)

def text : Number → Text
  | decimal whole fraction exponent => whole ++ fractionText fraction ++ exponentText exponent
  | radix letter digits => 0x30 :: letter :: digits

def radixDigit (letter : UInt8) : Option (UInt8 → Bool) :=
  if letter = 0x78 ∨ letter = 0x58 then some isHex
  else if letter = 0x6f ∨ letter = 0x4f then some fun c ↦ 0x30 ≤ c && c ≤ 0x37
  else if letter = 0x62 ∨ letter = 0x42 then some fun c ↦ c == 0x30 || c == 0x31
  else none

def wholeValid (whole : Text) : Option Text → Bool
  | none => grouped isDigit whole
  | some digits =>
    if whole = [] then grouped isDigit digits
    else grouped isDigit whole && (digits.isEmpty || grouped isDigit digits)

def exponentValid : Option (UInt8 × Option UInt8 × Text) → Bool
  | none => true
  | some (letter, sign, digits) =>
    (letter == 0x65 || letter == 0x45) && sign.all (fun c ↦ c == 0x2b || c == 0x2d) && grouped isDigit digits

def valid : Number → Bool
  | decimal whole fraction exponent => wholeValid whole fraction && exponentValid exponent
  | radix letter digits =>
    (radixDigit letter).any fun p ↦ grouped p (if digits.head? = some 0x5f then digits.tail else digits)

/-- A point behind the number does not belong to it. Two points after whole digits are a token of their own. -/
def endsBeforePoint (rest : Text) : Number → Bool
  | decimal _ none none => rest.head? != some 0x2e || rest.tail.head? == some 0x2e
  | decimal _ (some []) none => rest.head? != some 0x2e
  | _ => true

end Number

/-- The tokens of an SQL text as PostgreSQL reads it, with standard-conforming strings. An operator is as
many tokens as it has bytes, and the prefix of a string as in `date'...'` or `B'...'` is an identifier. -/
inductive Token
  | space (c : UInt8)
  | comment (text : Text)
  | block (text : Text)
  | string (text : Text)
  | escape (letter : UInt8) (text : Text)
  /-- A further part of a string with escapes, behind a newline. -/
  | continued (text : Text)
  | dollar (tag body : Text)
  | param (digits : Text)
  | number (n : Number)
  | ident (name : Text)
  | quoted (name : Text)
  /-- Two points, as between the bounds of a slice. -/
  | range
  | other (c : UInt8)
  deriving DecidableEq

def delimiter (tag : Text) : Text := 0x24 :: tag ++ [0x24]

namespace Token

def text : Token → Text
  | space c => [c]
  | comment text => 0x2d :: 0x2d :: text
  | block text => 0x2f :: 0x2a :: text
  | string text => 0x27 :: (text ++ [0x27])
  | escape letter text => letter :: 0x27 :: (text ++ [0x27])
  | continued text => 0x27 :: (text ++ [0x27])
  | dollar tag body => delimiter tag ++ body ++ delimiter tag
  | param digits => 0x24 :: digits
  | number n => n.text
  | ident name => name
  | quoted name => 0x22 :: (name ++ [0x22])
  | range => [0x2e, 0x2e]
  | other c => [c]

def valid : Token → Bool
  | space c => isWhite c
  | comment text => text.all fun c ↦ !isNewline c
  | block text => closed 1 text == some []
  | string text => doubled 0x27 text
  | escape letter text => (letter == 0x65 || letter == 0x45) && escaped text
  | continued text => escaped text
  | dollar tag body =>
    tag.all (fun c ↦ isIdentStart c || isDigit c) && !tag.head?.any isDigit &&
      cutText (delimiter tag) (body ++ delimiter tag) == some (body, [])
  | param digits => !digits.isEmpty && digits.all isDigit
  | number n => n.valid
  | ident name => name.head?.any isIdentStart && name.all isIdentCont
  | quoted name => doubled 0x22 name
  | range => true
  | other c => !isWhite c && !isIdentStart c && !isDigit c && c != 0x22 && c != 0x24 && c != 0x27

/-- The token ends before `rest`: nothing of it belongs to the token, and nothing makes it another one. -/
def endsBefore (rest : Text) : Token → Bool
  | comment _ => rest.head?.all isNewline
  | string _ | escape _ _ | continued _ => rest.head? != some 0x27
  | param _ => !rest.head?.any fun c ↦ isDigit c || isIdentStart c
  | number n => (!rest.head?.any fun c ↦ isDigit c || isIdentStart c) && n.endsBeforePoint rest
  | ident name => !rest.head?.any isIdentCont && !((name == [0x65] || name == [0x45]) && rest.head? == some 0x27)
  | quoted _ => rest.head? != some 0x22
  | other c =>
    !(c == 0x2d && rest.head? == some 0x2d) && !(c == 0x2f && rest.head? == some 0x2a) &&
      !(c == 0x2e && rest.head?.any fun d ↦ isDigit d || d == 0x2e)
  | _ => true

/-- Whether a string with escapes can go on: behind white space and comments, once there was a newline. -/
def gap (mode : Option Bool) : Token → Option Bool
  | escape _ _ | continued _ => some false
  | space c => mode.map (· || isNewline c)
  | comment _ => mode
  | _ => none

def allowed (mode : Option Bool) : Token → Bool
  | string _ => mode != some true
  | continued _ => mode == some true
  | _ => true

end Token

def render (ts : List Token) : Text := ts.flatMap Token.text

/-- The text of the tokens is read as these tokens. -/
def wellLexed (mode : Option Bool) : List Token → Bool
  | [] => true
  | t :: ts => t.valid && t.endsBefore (render ts) && t.allowed mode && wellLexed (t.gap mode) ts

end PgRouter.Sql.Tokens
