import PgRouter.Client.Affinity.Holder
import PgRouter.Client.Exchange

namespace PgRouter.Client.Affinity

open Protocol Servers Handler Effects Attachment Turns Exchange

variable {γ : Type} {sql : SQL γ} {h : Option ℕ} {s : Session γ} {r : Res γ} {acts : List Act}

def usesConn : Phase → Bool
  | .polling | .replayFlush _ | .replaying _ | .flushing | .draining _ => true
  | _ => false

/-- A client that is bound to a backend is served by it in a transaction, or `Serve` is returning. -/
structure Bound (h : Option ℕ) (s : Session γ) : Prop where
  out : NoReady s.out
  mode : s.cfg.poolMode = .transaction
  attached : usesConn s.phase = true → s.bConn.isSome = true
  tied : ∀ b, h = some b → closing s.phase = true ∨
    (s.phase = .top ∨ usesConn s.phase = true) ∧ s.bConn.map Backend.id = some b ∧ s.state.isIdle = false

def Good (h : Option ℕ) (r : Res γ) : Prop := Affine h r.2 ∧ Bound (r.2.foldl holder h) r.1

/-- Nothing goes to another backend, and no `ReadyForQuery` to the client but the router's own. -/
structure Own (h : Option ℕ) (acts : List Act) : Prop where
  forwards : ∀ b m, .forward b m ∈ acts → ∀ b', h = some b' → b = b'
  ready : ∀ src txStatus, .deliver src (.readyForQuery txStatus) ∈ acts → src = none ∧ txStatus = txIdle

theorem Good.andThen {f : Session γ → Res γ} (haffine : Affine h r.2)
    (hf : Good (r.2.foldl holder h) (f r.1)) : Good h (r.andThen f) := by
  refine ⟨affine_append.mpr ⟨haffine, hf.1⟩, ?_⟩
  rw [Res.andThen, List.foldl_append]
  exact hf.2

theorem Bound.kept (hs : Bound h s) (hout : NoReady r.1.out) (hcfg : r.1.cfg = s.cfg)
    (hconn : r.1.bConn.map Backend.id = s.bConn.map Backend.id) (htx : r.1.state.tx = s.state.tx)
    (hopen : closing s.phase = false)
    (hphase : r.1.phase = .top ∨ usesConn r.1.phase = true ∧ s.bConn.isSome = true) : Bound h r.1 := by
  refine ⟨hout, by rw [hcfg]; exact hs.mode, fun huses ↦ ?_, fun b hb ↦ .inr ⟨hphase.imp_right And.left, ?_⟩⟩
  · rcases hphase with htop | ⟨-, hsome⟩
    · rw [htop] at huses
      cases huses
    · rwa [← Option.isSome_map, hconn, Option.isSome_map]
  · rcases hs.tied b hb with hclosing | ⟨-, hid, hbusy⟩
    · rw [hopen] at hclosing
      cases hclosing
    · exact ⟨hconn.trans hid, by rw [ClientState.isIdle, htx]; exact hbusy⟩

theorem Bound.free (hs : Bound h s) (hopen : closing s.phase = false) (htop : s.phase ≠ .top)
    (huses : usesConn s.phase = false) : h = none := by
  cases h with
  | none => rfl
  | some b =>
    rcases hs.tied b rfl with hclosing | ⟨hphase | hphase, -⟩
    · rw [hopen] at hclosing
      cases hclosing
    · exact absurd hphase htop
    · rw [huses] at hphase
      cases hphase

section

variable (hs : Bound h s)

include hs

section

variable (hopen : closing s.phase = false)

include hopen

theorem Bound.loop : Bound h s.loop :=
  hs.kept (r := (s.loop, [])) hs.out rfl rfl rfl hopen (.inl rfl)

end

end

end PgRouter.Client.Affinity
