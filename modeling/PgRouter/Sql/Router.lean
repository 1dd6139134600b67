import PgRouter.Sql.Classifier
import PgRouter.Sql.Settings

namespace PgRouter.Sql

open Client.Protocol Client.Handler Lexing

def matchKeyword (kw : Text) : Text :=
  match (["SET", "RESET", "DISCARD"].map ascii).find? fun k ↦
      k.length == kw.length && (k.zip kw).all fun p ↦ eqFold p.2 p.1 with
  | some k => k
  | none => []

def queryFirstKeywordRaw (sql : Text) : Text :=
  matchKeyword ((sql.dropWhile isBlank).takeWhile isIdentByte)

def fnv1a (data : Text) : UInt64 :=
  data.foldl (fun h c ↦ (h ^^^ c.toUInt64) * 1099511628211) 14695981039346656037

def hexDigit (n : UInt64) : UInt8 := if n < 10 then 0x30 + n.toUInt8 else 0x57 + n.toUInt8

def hexString (h : UInt64) : Text :=
  ([60, 56, 52, 48, 44, 40, 36, 32, 28, 24, 20, 16, 12, 8, 4, 0] : List UInt64).map fun shift ↦
    hexDigit ((h >>> shift) &&& 0xf)

def serverNameFor (query : Text) : Text := ascii "pgr_" ++ hexString (fnv1a query)

/-- The router's own reading of statements. `order` is the order in which the map of settings yields its
entries. A statement whose first word makes `firstKeyword` panic is left out of account here. -/
def routerSQL (order : List (Text × Text) → List (Text × Text)) : SQL Settings.GUCCache where
  analyzeSQL text := (Classifier.analyzeSQL text).getD ⟨.unknown, false, false, false⟩
  classifyDetail text := (Classifier.classifyDetail text).getD (.unknown, false)
  isExplicitBeginSQL := Classifier.isExplicitBeginSQL
  queryFirstKeywordRaw := queryFirstKeywordRaw
  serverNameFor := serverNameFor
  newGUCCache := {}
  observeQueryWithInfo := Settings.GUCCache.observeQueryWithInfo
  hasUnrecognizedSet c := c.unrecognized
  replayQuery c := Settings.GUCCache.replayText (order c.vars)

end PgRouter.Sql
