import PgRouter.Client.Exchange
import PgRouter.Client.Statements

namespace PgRouter.Client.Supplies

open Protocol Prepared Handler Handling Statements

structure Tidy (c : PreparedCache) : Prop where
  nodup : c.order.Nodup
  named : [] ∉ c.order

section Caches

variable {c : PreparedCache} {name : Text}

theorem touch_perm (name : Text) (c : PreparedCache) : (c.touch name).order.Perm c.order := by
  unfold PreparedCache.touch
  split
  · rename_i hhas
    exact (List.perm_cons_erase (List.contains_iff_mem.mp hhas)).symm
  · exact List.Perm.refl _

theorem Tidy.touch (h : Tidy c) (name : Text) : Tidy (c.touch name) where
  nodup := (touch_perm name c).nodup_iff.mpr h.nodup
  named := fun hmem ↦ h.named ((touch_perm name c).mem_iff.mp hmem)

structure Added (c : PreparedCache) (name : Text) (q : PreparedCache × Text) : Prop where
  tidy : Tidy q.1
  mem : ∀ x ∈ q.1.order, x = name ∨ x ∈ c.order
  kept : ∀ x ∈ q.1.order, x ≠ q.2

theorem added_of_miss (h : Tidy c) (hmiss : c.has name = false) : Added c name (c.add name) := by
  have hnew : name ∉ c.order := by
    intro hmem
    rw [PreparedCache.has, List.contains_iff_mem.mpr hmem] at hmiss
    cases hmiss
  unfold PreparedCache.add
  split
  · refine ⟨h, fun x hx ↦ .inr hx, ?_⟩
    rintro x hx rfl
    exact h.named hx
  · rename_i hname
    have hnodup : (name :: c.order).Nodup := List.nodup_cons.mpr ⟨hnew, h.nodup⟩
    have hnamed : [] ∉ name :: c.order := by
      rw [List.mem_cons, not_or]
      exact ⟨Ne.symm hname, h.named⟩
    rw [hmiss, if_neg (by simp)]
    split
    · -- The last name is evicted, and it was there once only.
      have hsplit := List.dropLast_append_getLast (List.cons_ne_nil name c.order)
      have hlast : (name :: c.order).getLastD [] = (name :: c.order).getLast (List.cons_ne_nil name c.order) := by
        rw [List.getLastD_eq_getLast?, List.getLast?_eq_some_getLast (List.cons_ne_nil name c.order)]
        rfl
      have hsub : ∀ x ∈ (name :: c.order).dropLast, x ∈ name :: c.order := fun x hx ↦ List.dropLast_subset _ hx
      refine ⟨⟨hnodup.sublist (List.dropLast_sublist _), fun hmem ↦ hnamed (hsub _ hmem)⟩,
        fun x hx ↦ List.mem_cons.mp (hsub x hx), ?_⟩
      rintro x hx rfl
      rw [← hsplit] at hnodup
      rw [hlast] at hx
      exact (List.nodup_append.mp hnodup).2.2 _ hx _ List.mem_cons_self rfl
    · refine ⟨⟨hnodup, hnamed⟩, fun x hx ↦ List.mem_cons.mp hx, ?_⟩
      rintro x hx rfl
      exact hnamed hx

end Caches

section Tables

variable {γ : Type} {sql : SQL γ} {P : Policy} {table : Table} {prepared : Option PreparedCache}
  {clientPrep : PrepareCache} {m msg : FrontendMessage} {name : Text}

/-- Which statements may have which server names, and whether every backend has a cache. -/
structure Policy where
  allows : Text → Definition → Prop
  equips : Bool

structure Tidied (P : Policy) (prepared : Option PreparedCache) : Prop where
  tidy : ∀ c, prepared = some c → Tidy c
  equipped : P.equips = true → prepared.isSome = true

def Stocked (P : Policy) (prepared : Option PreparedCache) (table : Table) : Prop :=
  ∀ c, prepared = some c → ∀ name ∈ c.order, ∃ d, table name = some d ∧ P.allows name d

def harmless : FrontendMessage → Bool
  | .parse name _ _ => name == []
  | .close objectType name => objectType != objectStatement || name == []
  | _ => true

theorem intends_harmless (h : harmless m = true) (hname : name ≠ []) : intends table m name = table name := by
  cases m with
  | parse server query paramOIDs =>
    have hserver : server = [] := eq_of_beq h
    subst hserver
    exact Function.update_of_ne hname _ _
  | close objectType server =>
    rcases Bool.or_eq_true_iff.mp h with htype | hserver
    · exact congrFun (if_neg (bne_iff_ne.mp htype)) name
    · obtain rfl : server = [] := eq_of_beq hserver
      simp only [intends]
      split
      · exact Function.update_of_ne hname _ _
      · rfl
  | _ => rfl

theorem Stocked.harmless (h : Stocked P prepared table) (htidy : Tidied P prepared)
    (hm : Supplies.harmless m = true) : Stocked P prepared (intends table m) := by
  intro c hc name hname
  have hnamed : name ≠ [] := by
    rintro rfl
    exact (htidy.tidy c hc).named hname
  rw [intends_harmless hm hnamed]
  exact h c hc name hname

theorem provided_append (as bs : List FrontendMessage) :
    provided table (as ++ bs) = provided (provided table as) bs := List.foldl_append ..

variable {server query : Text} {c : PreparedCache} {stmt : Stmt} {paramOIDs : List UInt32}

theorem provided_add {evicted : Text} (hname : name ≠ evicted) :
    provided table (closeEvicted evicted ++ [.parse server query paramOIDs]) name =
      if name = server then some ⟨query, paramOIDs⟩ else table name := by
  have hclosed : provided table (closeEvicted evicted) name = table name := by
    unfold closeEvicted
    split
    · rfl
    · exact Function.update_of_ne hname _ _
  rw [provided_append]
  change Function.update (provided table (closeEvicted evicted)) server _ name = _
  rw [Function.update_apply, hclosed]

theorem Stocked.add (h : Stocked P (some c) table) (htidy : Tidy c) (hmiss : c.has server = false)
    (hP : P.allows server ⟨query, paramOIDs⟩) :
    Stocked P (some (c.add server).1)
      (provided table (closeEvicted (c.add server).2 ++ [.parse server query paramOIDs])) := by
  have hadded := added_of_miss htidy hmiss
  intro c' hc' name hname
  cases hc'
  rw [provided_add (hadded.kept name hname)]
  split
  · subst name
    exact ⟨_, rfl, hP⟩
  · exact h c rfl name ((hadded.mem name hname).resolve_left ‹_›)

theorem Stocked.touch (h : Stocked P (some c) table) (server : Text) : Stocked P (some (c.touch server)) table := by
  intro c' hc' name hname
  cases hc'
  exact h c rfl name ((touch_perm server c).mem_iff.mp hname)

/-- The client's own statements are ones that may have their server names. -/
def Named (P : Policy) (clientPrep : PrepareCache) : Prop :=
  ∀ stmt ∈ clientPrep.stmts, P.allows stmt.serverName ⟨stmt.query, stmt.paramOIDs⟩

theorem named_close (h : Named P clientPrep) (name : Text) : Named P (clientPrep.close name) := by
  intro stmt hstmt
  unfold PrepareCache.close at hstmt
  split at hstmt
  · exact h stmt hstmt
  · exact h stmt (List.mem_of_mem_filter hstmt)

theorem named_observe {serverNameFor : Text → Text} (h : Named P clientPrep)
    (hP : name ≠ [] → P.allows (serverNameFor query) ⟨query, paramOIDs⟩) :
    Named P (clientPrep.observe serverNameFor name query paramOIDs) := by
  intro stmt hstmt
  unfold PrepareCache.observe at hstmt
  split at hstmt
  · exact h stmt hstmt
  · rcases List.mem_cons.mp hstmt with rfl | hstmt
    · exact hP ‹_›
    · exact named_close h name stmt hstmt

theorem named_get (h : Named P clientPrep) (hget : clientPrep.get name = some stmt) :
    P.allows stmt.serverName ⟨stmt.query, stmt.paramOIDs⟩ :=
  h stmt (List.mem_of_find?_eq_some hget)

def Noted (sql : SQL γ) (P : Policy) (clientPrep : PrepareCache) (msg : FrontendMessage) : Prop :=
  ∀ name query paramOIDs, msg = .parse name query paramOIDs → name ≠ [] →
    P.allows (sql.serverNameFor query) ⟨query, paramOIDs⟩ ∧ clientPrep.serverNameOf name = sql.serverNameFor query

structure Supplied (P : Policy) (prepared : Option PreparedCache) (table : Table)
    (i : Intercept) : Prop where
  named : Named P i.clientPrep
  tidied : Tidied P i.prepared
  stocked : Stocked P prepared table → Stocked P i.prepared (provided table i.queue)

theorem supplied_pass (hnamed : Named P clientPrep) (htidy : Tidied P prepared) (hm : harmless msg = true) :
    Supplied P prepared table { clientPrep, prepared, forward := some msg } :=
  ⟨hnamed, htidy, fun h ↦ h.harmless htidy hm⟩

theorem tidied_some (h : Tidy c) : Tidied P (some c) := by
  refine ⟨fun c' hc' ↦ ?_, fun _ ↦ rfl⟩
  cases hc'
  exact h

section

variable (hnamed : Named P clientPrep)

include hnamed

section

variable (htidy : Tidied P prepared)

include htidy

theorem supplied_ensureBackendPrepared
    (hP : P.allows stmt.serverName ⟨stmt.query, stmt.paramOIDs⟩) (hm : ∀ table, intends table m = table) :
    Supplied P prepared table (ensureBackendPrepared clientPrep prepared stmt m) := by
  unfold ensureBackendPrepared
  split
  · exact ⟨hnamed, htidy, fun h c hc ↦ by cases hc⟩
  · rename_i c
    have hc := htidy.tidy c rfl
    split
    · refine ⟨hnamed, tidied_some (hc.touch _), fun h ↦ ?_⟩
      have hsame : provided table [m] = table := hm table
      simpa only [Intercept.queue, List.nil_append, Option.toList_some, hsame] using h.touch stmt.serverName
    · rename_i hmiss
      rw [Bool.not_eq_true] at hmiss
      refine ⟨hnamed, tidied_some (added_of_miss hc hmiss).tidy, fun h ↦ ?_⟩
      have hadd := h.add hc hmiss hP
      have hsame (t : Table) : provided t [m] = t := hm t
      simpa only [Intercept.queue, Option.toList_some, provided_append _ [m], hsame] using hadd

theorem supplied_forwardParse (hP : P.allows server ⟨query, paramOIDs⟩) :
    Supplied P prepared table (forwardParse clientPrep prepared server query paramOIDs) := by
  unfold forwardParse
  split
  · exact ⟨hnamed, htidy, fun h c hc ↦ by cases hc⟩
  · rename_i c
    have hc := htidy.tidy c rfl
    split
    · exact ⟨hnamed, tidied_some (hc.touch _), fun h ↦ h.touch server⟩
    · rename_i hmiss
      rw [Bool.not_eq_true] at hmiss
      exact ⟨hnamed, tidied_some (added_of_miss hc hmiss).tidy, fun h ↦ h.add hc hmiss hP⟩

theorem supplied_intercept (hnoted : Noted sql P clientPrep msg) :
    Supplied P prepared table (prepareInterceptForward sql.serverNameFor clientPrep prepared msg) := by
  cases msg with
  | parse name query paramOIDs =>
    simp only [prepareInterceptForward]
    split
    · exact supplied_pass hnamed htidy (by simpa [harmless] using ‹name = []›)
    · rename_i hname
      obtain ⟨hP, hserver⟩ := hnoted name query paramOIDs rfl hname
      unfold interceptParse
      split
      · exact supplied_forwardParse (named_observe hnamed fun _ ↦ hP) htidy hP
      · rw [hserver]
        exact supplied_forwardParse hnamed htidy hP
  | bind portal statement | describe objectType name =>
    simp only [prepareInterceptForward]
    split
    · exact supplied_pass hnamed htidy rfl
    · split
      · exact supplied_pass hnamed htidy rfl
      · exact supplied_ensureBackendPrepared hnamed htidy (named_get hnamed ‹_›) fun _ ↦ rfl
  | close objectType name =>
    simp only [prepareInterceptForward]
    split
    · rename_i hpass
      refine supplied_pass hnamed htidy ?_
      simpa [harmless] using hpass
    · exact ⟨named_close hnamed name, htidy, fun h ↦ h⟩
  | _ => exact supplied_pass hnamed htidy rfl

end

end

def Fits (sql : SQL γ) (P : Policy) (msg : FrontendMessage) : Prop :=
  ∀ name query paramOIDs, msg = .parse name query paramOIDs → name ≠ [] →
    P.allows (sql.serverNameFor query) ⟨query, paramOIDs⟩

theorem named_notePrep {c : PrepareCache} (h : Named P c) (hfits : Fits sql P msg) :
    Named P (notePrep sql msg c) := by
  cases msg with
  | parse name query paramOIDs => exact named_observe h (hfits name query paramOIDs rfl)
  | close objectType name =>
    simp only [notePrep]
    split
    · exact named_close h name
    · exact h
  | _ => exact h

theorem noted_notePrep (hfits : Fits sql P msg) (c : PrepareCache) : Noted sql P (notePrep sql msg c) msg := by
  rintro name query paramOIDs rfl hname
  refine ⟨hfits name query paramOIDs rfl hname, ?_⟩
  simp [notePrep, PrepareCache.serverNameOf, PrepareCache.observe, PrepareCache.get, hname]

end Tables

end PgRouter.Client.Supplies
