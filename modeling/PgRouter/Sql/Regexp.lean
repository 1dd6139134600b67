import PgRouter.Client.Protocol

namespace PgRouter.Sql.Regexp

open Client.Protocol

/-- The regular expressions of package `regexp` that occur in the router, over the bytes of a text. -/
inductive Pattern
  | empty
  | byte (p : UInt8 → Bool)
  | seq (a b : Pattern)
  | alt (a b : Pattern)
  | star (greedy : Bool) (a : Pattern)
  | group (n : ℕ) (a : Pattern)
  | textStart
  | textEnd
  | wordBoundary

/-- A position in a text, and the groups captured up to there. -/
structure Cursor where
  last : Option UInt8
  rest : Text
  groups : List (ℕ × Text)

abbrev Continue := Cursor → Option Cursor

def isWord (c : UInt8) : Bool :=
  (0x61 ≤ c && c ≤ 0x7a) || (0x41 ≤ c && c ≤ 0x5a) || (0x30 ≤ c && c ≤ 0x39) || c == 0x5f

/-- Repetitions of a match, each of at least one byte, the longer or the shorter ones first. -/
def iterate (once : Cursor → Continue → Option Cursor) (greedy : Bool) : ℕ → Cursor → Continue → Option Cursor
  | 0, c, k => k c
  | n + 1, c, k =>
    let more := once c fun c' ↦
      if c'.rest.length < c.rest.length then iterate once greedy n c' k else none
    if greedy then more.or (k c) else (k c).or more

def isSpace (c : UInt8) : Bool := c == 0x20 || c == 0x09 || c == 0x0a || c == 0x0c || c == 0x0d

namespace Pattern

/-- The preferred match from a position on that lets the continuation succeed. -/
def run : Pattern → Cursor → Continue → Option Cursor
  | empty, c, k => k c
  | byte p, c, k =>
    match c.rest with
    | [] => none
    | x :: rest => if p x then k { c with last := some x, rest } else none
  | seq a b, c, k => a.run c fun c' ↦ b.run c' k
  | alt a b, c, k => (a.run c k).or (b.run c k)
  | star greedy a, c, k => iterate a.run greedy c.rest.length c k
  | group n a, c, k => a.run c fun c' ↦
      k { c' with groups := (n, c.rest.take (c.rest.length - c'.rest.length)) :: c'.groups }
  | textStart, c, k => if c.last.isNone then k c else none
  | textEnd, c, k => if c.rest.isEmpty then k c else none
  | wordBoundary, c, k =>
    if (c.last.any isWord) != (c.rest.head?.any isWord) then k c else none

def anyOf : List Pattern → Pattern
  | [] => byte fun _ ↦ false
  | [a] => a
  | a :: rest => alt a (anyOf rest)

def all (ps : List Pattern) : Pattern := ps.foldr seq empty

def opt (a : Pattern) : Pattern := alt a empty

def many (a : Pattern) : Pattern := star true a

def plus (a : Pattern) : Pattern := seq a (many a)

def lit (c : UInt8) : Pattern := byte (· == c)

def space : Pattern := byte isSpace

def longS : Pattern := all [lit 0xc5, lit 0xbf]

def kelvin : Pattern := all [lit 0xe2, lit 0x84, lit 0xaa]

def lowerByte (c : UInt8) : UInt8 := if 0x41 ≤ c && c ≤ 0x5a then c + 0x20 else c

def letter (c : UInt8) : Pattern :=
  let plain := byte fun x ↦ lowerByte x == lowerByte c
  if lowerByte c == 0x73 then alt plain longS
  else if lowerByte c == 0x6b then alt plain kelvin
  else plain

def word (s : String) : Pattern := all ((ascii s).map letter)

def identifier : Pattern :=
  seq (anyOf [byte fun c ↦ isWord c && !(0x30 ≤ c && c ≤ 0x39), longS, kelvin])
    (many (anyOf [byte isWord, longS, kelvin]))

def find (a : Pattern) (text : Text) : Option Cursor :=
  a.run ⟨none, text, []⟩ Option.some

def matchString (a : Pattern) (text : Text) : Bool := (a.find text).isSome

end Pattern

def Cursor.submatch (c : Cursor) (n : ℕ) : Text :=
  ((c.groups.find? fun g ↦ g.1 == n).map Prod.snd).getD []

end PgRouter.Sql.Regexp
