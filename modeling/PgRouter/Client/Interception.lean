import PgRouter.Client.Prepared

namespace PgRouter.Client.Prepared

open Protocol

variable {serverNameFor : Text → Text} {clientPrep : PrepareCache} {prepared : Option PreparedCache}
  {msg m : FrontendMessage}

def prepares : FrontendMessage → Bool
  | .parse .. | .bind .. | .describe .. | .close .. => true
  | _ => false

def Intercept.queue (i : Intercept) : List FrontendMessage := i.injected ++ i.forward.toList

/-- What an interception may send and answer in place of a message that it changes. -/
structure Mild (i : Intercept) : Prop where
  queue : ∀ m ∈ i.queue, prepares m = true
  reply : ∀ m ∈ i.reply, m = .parseComplete ∨ m = .closeComplete

theorem prepares_closeEvicted {evicted : Text} (hmem : m ∈ closeEvicted evicted) : prepares m = true := by
  unfold closeEvicted at hmem
  split at hmem
  · cases hmem
  · cases List.mem_singleton.mp hmem
    rfl

theorem mild_pass (hmsg : prepares msg = true) : Mild { clientPrep, prepared, forward := some msg } :=
  ⟨by simpa [Intercept.queue] using hmsg, by simp⟩

theorem mild_ensureBackendPrepared (stmt : Stmt) (hmsg : prepares msg = true) :
    Mild (ensureBackendPrepared clientPrep prepared stmt msg) := by
  unfold ensureBackendPrepared
  split
  · exact mild_pass hmsg
  · split
    · exact mild_pass hmsg
    · refine ⟨fun m hm ↦ ?_, by simp⟩
      simp only [Intercept.queue, Option.toList_some, List.mem_append, List.mem_singleton] at hm
      rcases hm with (hm | rfl) | rfl
      · exact prepares_closeEvicted hm
      · rfl
      · exact hmsg

theorem mild_forwardParse (server sql : Text) (paramOIDs : List UInt32) :
    Mild (forwardParse clientPrep prepared server sql paramOIDs) := by
  unfold forwardParse
  split
  · exact mild_pass rfl
  · split
    · exact ⟨by simp [Intercept.queue], by simp⟩
    · refine ⟨fun m hm ↦ ?_, by simp⟩
      simp only [Intercept.queue, Option.toList_some, List.mem_append, List.mem_singleton] at hm
      rcases hm with hm | rfl
      · exact prepares_closeEvicted hm
      · rfl

theorem mild_intercept (hmsg : prepares msg = true) :
    Mild (prepareInterceptForward serverNameFor clientPrep prepared msg) := by
  cases msg with
  | parse name sql paramOIDs =>
    simp only [prepareInterceptForward, interceptParse]
    split
    · exact mild_pass rfl
    · split
      · exact mild_forwardParse _ _ _
      · exact mild_forwardParse _ _ _
  | bind portal statement | describe objectType name =>
    simp only [prepareInterceptForward]
    split
    · exact mild_pass rfl
    · split
      · exact mild_pass rfl
      · exact mild_ensureBackendPrepared _ rfl
  | close objectType name =>
    simp only [prepareInterceptForward]
    split
    · exact mild_pass rfl
    · exact ⟨by simp [Intercept.queue], by simp⟩
  | _ => cases hmsg

theorem intercept_pass (hmsg : prepares msg = false) :
    prepareInterceptForward serverNameFor clientPrep prepared msg =
      { clientPrep, prepared, forward := some msg } := by
  cases msg <;> first | rfl | cases hmsg

end PgRouter.Client.Prepared
