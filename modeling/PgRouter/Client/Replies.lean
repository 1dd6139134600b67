import PgRouter.Client.Servers

namespace PgRouter.Client.Servers

open Protocol

def oneEnd : List BackendMessage → Bool
  | [] => true
  | m :: rest => (!endMarker m || rest.isEmpty) && oneEnd rest

theorem oneEnd_cons {m : BackendMessage} {rest : List BackendMessage} (h : oneEnd (m :: rest) = true) :
    (endMarker m = true → rest = []) ∧ oneEnd rest = true := by
  simp only [oneEnd, Bool.and_eq_true, Bool.or_eq_true, Bool.not_eq_true', List.isEmpty_iff] at h
  refine ⟨fun hm ↦ ?_, h.2⟩
  rcases h.1 with hfalse | hempty
  · rw [hm] at hfalse
    cases hfalse
  · exact hempty

theorem oneEnd_append {front rest : List BackendMessage} (h : oneEnd (front ++ rest) = true) :
    oneEnd rest = true := by
  induction front with
  | nil => exact h
  | cons m front ih => exact ih (oneEnd_cons h).2

namespace Server

variable {srv srv' : Server} {m : FrontendMessage} {a : Answer} {replies : List BackendMessage}

theorem answer_eq (h : srv.answer m a = some (srv', replies)) :
    (∀ x ∈ a.body, endMarker x = false) ∧ srv.ends m a.ending = some srv' ∧
      replies = a.body ++ a.ending.messages := by
  unfold answer at h
  split at h
  · cases h
  · rename_i hbody
    obtain ⟨t, ht, heq⟩ := Option.map_eq_some_iff.mp h
    obtain ⟨rfl, rfl⟩ := Prod.mk.inj heq
    exact ⟨by simpa using hbody, ht, rfl⟩

theorem ends_none (h : srv.ends m .none = some srv') :
    srv'.txStatus = srv.txStatus ∧ (srv.copying = none → srv' = srv) := by
  unfold ends at h
  split at h
  · split at h <;> simp_all
  · split at h <;> simp_all
    obtain ⟨-, rfl⟩ := h
    rfl

variable {ms : List FrontendMessage} {as : List Answer} {txStatus : UInt8}

theorem ends_ready (h : srv.ends m (.ready txStatus) = some srv') : srv' = ⟨txStatus, none⟩ := by
  unfold ends at h
  split at h
  · split at h <;> simp_all
  · split at h <;> simp_all

theorem ends_copyIn (h : srv.ends m .copyIn = some srv') : srv'.txStatus = srv.txStatus := by
  unfold ends at h
  split at h
  · split at h <;> simp_all
    all_goals rw [← h]
  · split at h <;> simp_all

theorem answers_cons (h : srv.answers (m :: ms) as = some (srv', replies)) :
    ∃ a as' first last mid, as = a :: as' ∧ srv.answer m a = some (mid, first) ∧
      mid.answers ms as' = some (srv', last) ∧ replies = first ++ last := by
  cases as with
  | nil => cases h
  | cons a as =>
    obtain ⟨⟨mid, first⟩, hfirst, h⟩ := Option.bind_eq_some_iff.mp h
    obtain ⟨⟨srv'', last⟩, hlast, heq⟩ := Option.map_eq_some_iff.mp h
    obtain ⟨rfl, rfl⟩ := Prod.mk.inj heq
    exact ⟨a, as, first, last, mid, rfl, hfirst, hlast, rfl⟩

theorem answers_nil (h : srv.answers [] as = some (srv', replies)) : srv' = srv ∧ replies = [] := by
  cases as with
  | nil =>
    obtain ⟨rfl, rfl⟩ := Prod.mk.inj (Option.some.inj h)
    exact ⟨rfl, rfl⟩
  | cons a as => cases h

section

variable (h : srv.answers ms as = some (srv', replies))

include h

theorem answers_txStatus (hnone : ∀ txStatus, .readyForQuery txStatus ∉ replies) : srv'.txStatus = srv.txStatus := by
  induction ms generalizing srv as replies with
  | nil => rw [(answers_nil h).1]
  | cons m ms ih =>
    obtain ⟨a, as', first, last, mid, rfl, hfirst, hlast, rfl⟩ := answers_cons h
    obtain ⟨-, hends, rfl⟩ := answer_eq hfirst
    have hrest : srv'.txStatus = mid.txStatus :=
      ih hlast fun txStatus hmem ↦ hnone txStatus (List.mem_append_right _ hmem)
    rw [hrest]
    cases hending : a.ending with
    | none =>
      rw [hending] at hends
      exact (ends_none hends).1
    | ready txStatus => exact absurd (by simp [hending, Ending.messages]) (hnone txStatus)
    | copyIn =>
      rw [hending] at hends
      exact ends_copyIn hends

theorem answers_unmarked (hcopy : srv.copying = none)
    (hunmarked : ∀ x ∈ replies, endMarker x = false) : srv' = srv := by
  induction ms generalizing srv as replies with
  | nil => exact (answers_nil h).1
  | cons m ms ih =>
    obtain ⟨a, as', first, last, mid, rfl, hfirst, hlast, rfl⟩ := answers_cons h
    obtain ⟨-, hends, rfl⟩ := answer_eq hfirst
    have hsame : mid = srv := by
      cases hending : a.ending with
      | none =>
        rw [hending] at hends
        exact (ends_none hends).2 hcopy
      | ready txStatus => cases hunmarked (.readyForQuery txStatus) (by simp [hending, Ending.messages])
      | copyIn => cases hunmarked .copyInResponse (by simp [hending, Ending.messages])
    subst hsame
    exact ih hlast hcopy fun x hx ↦ hunmarked x (List.mem_append_right _ hx)

theorem answers_ready (hone : oneEnd replies = true)
    (hmem : .readyForQuery txStatus ∈ replies) : srv' = ⟨txStatus, none⟩ := by
  induction ms generalizing srv as replies with
  | nil =>
    rw [(answers_nil h).2] at hmem
    cases hmem
  | cons m ms ih =>
    obtain ⟨a, as', first, last, mid, rfl, hfirst, hlast, rfl⟩ := answers_cons h
    obtain ⟨hbody, hends, rfl⟩ := answer_eq hfirst
    rw [List.append_assoc] at hone hmem
    have hin : .readyForQuery txStatus ∈ a.ending.messages ++ last := by
      rcases List.mem_append.mp hmem with hmem | hmem
      · cases hbody _ hmem
      · exact hmem
    have hone' := oneEnd_append hone
    cases hending : a.ending with
    | none =>
      rw [hending] at hin hone'
      exact ih hlast hone' hin
    | ready txStatus' =>
      rw [hending] at hin hone' hends
      obtain rfl : last = [] := (oneEnd_cons hone').1 rfl
      obtain rfl : txStatus = txStatus' := by simpa [Ending.messages] using hin
      obtain rfl := ends_ready hends
      exact answers_unmarked hlast rfl (by simp)
    | copyIn =>
      rw [hending] at hin hone'
      obtain rfl : last = [] := (oneEnd_cons hone').1 rfl
      simp [Ending.messages] at hin

end

end Server

end PgRouter.Client.Servers
