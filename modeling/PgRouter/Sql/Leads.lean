import PgRouter.Sql.Classifier
import PgRouter.Sql.Tokens

namespace PgRouter.Sql.Leads

open Client.Protocol Lexing Tokens

def isNoise : Token → Bool
  | .space _ | .comment _ | .block _ => true
  | _ => false

def spells (keyword : String) (name : Text) : Bool := name.map upperByte == ascii keyword

def isLetter (c : UInt8) : Bool := (0x61 ≤ c && c ≤ 0x7a) || (0x41 ≤ c && c ≤ 0x5a)

def isNameByte (c : UInt8) : Bool := isIdentByte c || c == 0x22

end PgRouter.Sql.Leads
