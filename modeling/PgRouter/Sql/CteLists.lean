import PgRouter.Sql.Stripping

namespace PgRouter.Sql.CteLists

open Client.Protocol Client.Handler Lexing Classifier Leads

variable {cls : Text → Option SQLOp} {n : ℕ} {s : Text}

theorem closeParen_append (d : ℕ) (s : Text) : (closeParen d s).1 ++ (closeParen d s).2 = s := by
  induction s generalizing d with
  | nil => cases d <;> rfl
  | cons c s ih =>
    cases d with
    | zero => rfl
    | succ d =>
      rw [closeParen, List.cons_append, ih]

def afterBody (cls : Text → Option SQLOp) (n : ℕ) (s : Text) : Option SQLOp :=
  if s.head? == some 0x2c then afterCTEs cls n (stripLeadingNoise s.tail) else cls s

def atBody (cls : Text → Option SQLOp) (n : ℕ) : Text → Option SQLOp
  | [] => some .unknown
  | c :: rest => if c != 0x28 then some .unknown else afterBody cls n (stripLeadingNoise (closeParen 1 rest).2)

def afterName (cls : Text → Option SQLOp) (n : ℕ) (s : Text) : Option SQLOp :=
  if !hasPrefixFold s "AS" then some .unknown
  else atBody cls n (skipMaterialized (stripLeadingNoise (s.drop 2)))

theorem afterCTEs_succ :
    afterCTEs cls (n + 1) s = afterName cls n (stripLeadingNoise (s.dropWhile isNameByte)) := by
  rw [afterCTEs, afterName]
  rfl

def afterWith (cls : Text → Option SQLOp) (s : Text) : Option SQLOp :=
  if hasPrefixFold s "RECURSIVE" then
    (fun s ↦ afterCTEs cls s.length s) (stripLeadingNoise (s.drop (ascii "RECURSIVE").length))
  else afterCTEs cls s.length s

theorem classifyCTE_eq :
    classifyCTE cls s = afterWith cls (stripLeadingNoise (trimSpace (s.drop (ascii "WITH").length))) := by
  rw [classifyCTE, afterWith]
  split <;> rfl

def explainedFrom (cls : Text → Option SQLOp) (n : ℕ) : Text → Option SQLOp
  | [] => some .unknown
  | c :: rest =>
    if c == 0x28 then
      if containsKeyword (toUpper (c :: (closeParen 1 rest).1)) (ascii "ANALYZE") then some .write
      else explained cls n (closeParen 1 rest).2
    else (firstKeyword (c :: rest)).bind fun kw ↦ if kw == ascii "ANALYZE" then some .write else cls (c :: rest)

theorem explained_succ : explained cls (n + 1) s = explainedFrom cls n (stripLeadingNoise s) := rfl

def classifyFrom (n : ℕ) : Text → Option SQLOp
  | [] => some .unknown
  | s => (firstKeyword s).bind fun kw ↦ classOf (classify n) kw s

theorem classify_succ : classify (n + 1) s = classifyFrom n (stripLeadingNoise s) := by
  rw [classify]
  split
  · next h => rw [h]; rfl
  · next h => rw [classifyFrom]; exact h

end PgRouter.Sql.CteLists
