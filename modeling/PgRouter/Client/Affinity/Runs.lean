import PgRouter.Client.Affinity.Serving

namespace PgRouter.Client.Affinity

open Library.Runs Protocol Servers Handler Handling Attachment Turns Exchange

variable {γ : Type} {sql : SQL γ} {h : Option ℕ} {s : Session γ} {r : Res γ} {input : Input}

theorem Bound.frame {s' : Session γ} (hframe : Frame s s') (hs : Bound h s) : Bound h s' := by
  refine ⟨by rw [hframe.out]; exact hs.out, by rw [hframe.cfg]; exact hs.mode, ?_, ?_⟩
  · rw [hframe.phase, hframe.bConn]
    exact hs.attached
  · rw [hframe.phase, hframe.bConn, ClientState.isIdle, hframe.tx]
    exact hs.tied

variable {extra : List (Option ℕ × BackendMessage)}

def begun : List Input :=
  [.greeted [] (0, []) true, .message (.query (ascii "BEGIN")) calm, .acquired (.dialed 0 none),
    .sent true, .received (.readyForQuery txInBlock) true, .message (.query (ascii "SELECT 1")) calm,
    .sent true]

end PgRouter.Client.Affinity
