import PgRouter.Client.Handler

namespace PgRouter.Client.Affinity

open Protocol Handler

/-- The backend a client is bound to: the one that sent the last `ReadyForQuery` the client has got,
if that carried `T` or `E` and no query timeout has fired since. -/
def holder (h : Option ℕ) : Act → Option ℕ
  | .deliver src (.readyForQuery txStatus) =>
    if txStatus = txInBlock ∨ txStatus = txFailed then src else none
  | .timedOut => none
  | _ => h

/-- Nothing goes to another backend than the holder, and no `ReadyForQuery` comes from another one.
The router's own ones carry `I`. -/
def Allowed (h : Option ℕ) : Act → Prop
  | .forward b _ => ∀ b', h = some b' → b = b'
  | .deliver none (.readyForQuery txStatus) => txStatus = txIdle
  | .deliver (some b) (.readyForQuery _) => ∀ b', h = some b' → b = b'
  | _ => True

def Affine : Option ℕ → List Act → Prop
  | _, [] => True
  | h, a :: as => Allowed h a ∧ Affine (holder h a) as

theorem affine_append {h : Option ℕ} {as bs : List Act} :
    Affine h (as ++ bs) ↔ Affine h as ∧ Affine (as.foldl holder h) bs := by
  induction as generalizing h with
  | nil => simp [Affine]
  | cons a as ih => simp only [List.cons_append, Affine, ih, List.foldl_cons, and_assoc]

end PgRouter.Client.Affinity
