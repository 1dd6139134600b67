import PgRouter.Client.Handler
import PgRouter.Sql.Lexing
import PgRouter.Sql.Regexp

namespace PgRouter.Sql.Classifier

open Client.Protocol Client.Handler Lexing Regexp

open Pattern in
def explicitBeginRE : Pattern :=
  all [textStart, many space, alt (word "BEGIN") (all [word "START", plus space, word "TRANSACTION"]),
    wordBoundary]

def isExplicitBeginSQL (sql : Text) : Bool := explicitBeginRE.matchString (stripLeadingNoise sql)

open Pattern in
def readOnlyBeginRE : Pattern :=
  all [textStart, many space,
    anyOf [word "BEGIN", all [word "START", plus space, word "TRANSACTION"],
      all [word "SET", plus space, word "TRANSACTION"]],
    wordBoundary, many (byte (· != 0x3b)), wordBoundary, word "READ", plus space, word "ONLY", wordBoundary]

def matchFoldAt (s needle : Text) : Bool :=
  needle.isPrefixOf (s.map fun c ↦ if 0x41 ≤ c && c ≤ 0x5a then c + 32 else c)

def containsSessionAdvisoryCall (sql : Text) : Bool :=
  sql.tails.any fun s ↦ matchFoldAt s (ascii "pg_advisory_") || matchFoldAt s (ascii "pg_try_advisory_")

/-- The text up to the parenthesis that closes the one before it, with `depth` of them open, and what
follows. -/
def closeParen : ℕ → Text → Text × Text
  | 0, s => ([], s)
  | _, [] => ([], [])
  | depth + 1, c :: rest =>
    let r := closeParen (if c == 0x28 then depth + 2 else if c == 0x29 then depth else depth + 1) rest
    (c :: r.1, r.2)

/-- `containsKeyword`, from a position on that `last` comes before. -/
def containsKeywordFrom (needle : Text) : ℕ → Option UInt8 → Text → Bool
  | 0, _, _ => false
  | _ + 1, _, [] => false
  | n + 1, last, c :: rest =>
    if needle.isPrefixOf (c :: rest) then
      let after := (c :: rest).drop needle.length
      if !last.any isIdentByte && !after.head?.any isIdentByte then true
      else containsKeywordFrom needle n needle.getLast? after
    else containsKeywordFrom needle n (some c) rest

def containsKeyword (haystack needle : Text) : Bool :=
  containsKeywordFrom needle haystack.length none haystack

/-- The loop of `classifyExplain` over option lists. -/
def explained (classifySQL : Text → Option SQLOp) : ℕ → Text → Option SQLOp
  | 0, _ => some .unknown
  | n + 1, s =>
    match stripLeadingNoise s with
    | [] => some .unknown
    | c :: rest =>
      if c == 0x28 then
        let options := closeParen 1 rest
        if containsKeyword (toUpper (c :: options.1)) (ascii "ANALYZE") then some .write
        else explained classifySQL n options.2
      else
        (firstKeyword (c :: rest)).bind fun kw ↦
          if kw == ascii "ANALYZE" then some .write else classifySQL (c :: rest)

def classifyExplain (classifySQL : Text → Option SQLOp) (s : Text) : Option SQLOp :=
  explained classifySQL s.length (trimSpace (s.drop (ascii "EXPLAIN").length))

def hasPrefixFold (s : Text) (keyword : String) : Bool := (ascii keyword).isPrefixOf (toUpper s)

def skipMaterialized (s : Text) : Text :=
  if hasPrefixFold s "NOT MATERIALIZED" then stripLeadingNoise (s.drop (ascii "NOT MATERIALIZED").length)
  else if hasPrefixFold s "MATERIALIZED" then stripLeadingNoise (s.drop (ascii "MATERIALIZED").length)
  else s

/-- The loop of `classifyCTE` over the list of common table expressions. -/
def afterCTEs (classifySQL : Text → Option SQLOp) : ℕ → Text → Option SQLOp
  | 0, _ => some .unknown
  | n + 1, s =>
    let s := stripLeadingNoise (s.dropWhile fun c ↦ isIdentByte c || c == 0x22)
    if !hasPrefixFold s "AS" then some .unknown
    else
      match skipMaterialized (stripLeadingNoise (s.drop 2)) with
      | [] => some .unknown
      | c :: rest =>
        if c != 0x28 then some .unknown
        else
          let s := stripLeadingNoise (closeParen 1 rest).2
          if s.head? == some 0x2c then afterCTEs classifySQL n (stripLeadingNoise s.tail)
          else classifySQL s

def classifyCTE (classifySQL : Text → Option SQLOp) (s : Text) : Option SQLOp :=
  let s := stripLeadingNoise (trimSpace (s.drop (ascii "WITH").length))
  let s := if hasPrefixFold s "RECURSIVE" then stripLeadingNoise (s.drop (ascii "RECURSIVE").length) else s
  afterCTEs classifySQL s.length s

def classOf (classifySQL : Text → Option SQLOp) (kw s : Text) : Option SQLOp :=
  if [ascii "SELECT", ascii "VALUES", ascii "TABLE", ascii "SHOW"].contains kw then some .read
  else if kw == ascii "EXPLAIN" then classifyExplain classifySQL s
  else if kw == ascii "WITH" then classifyCTE classifySQL s
  else if kw == [] then some .unknown
  else some .write

/-- `ClassifySQL`, with fuel for the statements inside of `EXPLAIN` and `WITH`, or a panic. -/
def classify : ℕ → Text → Option SQLOp
  | 0, _ => some .unknown
  | n + 1, sql =>
    match stripLeadingNoise sql with
    | [] => some .unknown
    | s => (firstKeyword s).bind fun kw ↦ classOf (classify n) kw s

def classifySQL (sql : Text) : Option SQLOp := classify (sql.length + 1) sql

def classifyDetail (sql : Text) : Option (SQLOp × Bool) :=
  (classifySQL sql).map fun op ↦ (op, readOnlyBeginRE.matchString (stripLeadingNoise sql))

def needsPin (sql kw : Text) : Bool :=
  containsSessionAdvisoryCall sql || kw == ascii "LISTEN" || kw == ascii "CREATE" || kw == ascii "DECLARE"

def analyzeSQL (sql : Text) : Option SQLInfo :=
  let s := stripLeadingNoise sql
  (firstKeyword s).bind fun kw ↦
    if kw == [] then some ⟨.unknown, false, false, false⟩
    else
      (classOf classifySQL kw s).map fun op ↦
        { op
          isROBegin := (kw == ascii "BEGIN" || kw == ascii "START") && readOnlyBeginRE.matchString s
          needsPin := needsPin sql kw
          needsGUC := kw == ascii "DISCARD" || kw == ascii "RESET" || kw == ascii "SET" }

end PgRouter.Sql.Classifier
