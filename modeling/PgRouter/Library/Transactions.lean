import Mathlib.Tactic.Common

namespace PgRouter.Library.Transactions

variable {ν V : Type}

/-- An open transaction: the values at its start, those that hold until its end only, and its savepoints,
the latest first, each with what was in force then. -/
structure Block (ν V : Type) where
  start : ν → V
  locals : ν → Option V
  savepoints : List (ν × (ν → V) × (ν → Option V))
  failed : Bool

/-- Variables that are changed by transactions. `values` are those to stay if the open transaction, if
there is one, commits. -/
structure Store (ν V : Type) where
  values : ν → V
  block : Option (Block ν V)

namespace Store

variable (s : Store ν V)

def failed : Bool := s.block.any Block.failed

def assignAll (values : ν → V) : Store ν V where
  values := values
  block := s.block.map fun b ↦ { b with locals := fun _ ↦ none }

def start : Store ν V :=
  match s.block with
  | none => { s with block := some ⟨s.values, fun _ ↦ none, [], false⟩ }
  | some _ => s

def fail : Store ν V := { s with block := s.block.map fun b ↦ { b with failed := true } }

def abort : Store ν V :=
  match s.block with
  | none => s
  | some b => ⟨b.start, none⟩

def commit : Store ν V := if s.failed then s.abort else { s with block := none }

def savepoint (name : ν) : Option (Store ν V) :=
  s.block.map fun b ↦ { s with block := some { b with savepoints := (name, s.values, b.locals) :: b.savepoints } }

variable {s}

variable (s) [DecidableEq ν]

def assign (name : ν) (v : V) : Store ν V where
  values := Function.update s.values name v
  block := s.block.map fun b ↦ { b with locals := Function.update b.locals name none }

def assignLocal (name : ν) (v : V) : Store ν V :=
  { s with block := s.block.map fun b ↦ { b with locals := Function.update b.locals name (some v) } }

def since (name : ν) (b : Block ν V) : List (ν × (ν → V) × (ν → Option V)) :=
  b.savepoints.dropWhile (·.1 != name)

def release (name : ν) : Option (Store ν V) :=
  s.block.bind fun b ↦ match since name b with
    | [] => none
    | _ :: rest => some { s with block := some { b with savepoints := rest } }

def rollbackTo (name : ν) : Option (Store ν V) :=
  s.block.bind fun b ↦ match since name b with
    | [] => none
    | mark :: rest =>
      some ⟨mark.2.1, some { b with locals := mark.2.2, savepoints := mark :: rest, failed := false }⟩

end Store

end PgRouter.Library.Transactions
