import Mathlib.Data.Int.Notation
import PgRouter.Client.Prepared
import PgRouter.Library.Recency

namespace PgRouter.Backend.PreparedNames

open Client.Protocol Library.Recency

section Cache

/-- The names that are prepared on one connection: `order` has the most recently used one in front, and `items`
finds the element of a name. -/
structure PreparedCache where
  cap : ℤ
  items : Text → Option ℕ
  order : Chain Text

def defaultPreparedCacheCapacity : ℤ := 250

def capacity (cap : ℤ) : ℤ := if cap ≤ 0 then defaultPreparedCacheCapacity else cap

theorem capacity_pos (cap : ℤ) : 0 < capacity cap := by
  rw [capacity, defaultPreparedCacheCapacity]
  split
  · decide
  · omega

def newPreparedCache (cap : ℤ) : PreparedCache := ⟨capacity cap, fun _ ↦ none, .empty⟩

namespace PreparedCache

def has (c : PreparedCache) (name : Text) : Bool := (c.items name).isSome

def touch (c : PreparedCache) (name : Text) : PreparedCache :=
  match c.items name with
  | none => c
  | some e => { c with order := c.order.moveToFront e }

def evict (c : PreparedCache) : PreparedCache × Text :=
  if c.order.len > c.cap then
    match c.order.back with
    | none => (c, [])
    | some (e, evicted) =>
      ({ c with items := Function.update c.items evicted none, order := c.order.remove e }, evicted)
  else (c, [])

def add (c : PreparedCache) (name : Text) : PreparedCache × Text :=
  if name = [] then (c, [])
  else
    match c.items name with
    | some e => ({ c with order := c.order.moveToFront e }, [])
    | none =>
      let (order, e) := c.order.pushFront name
      evict { c with items := Function.update c.items name (some e), order := order }

def remove (c : PreparedCache) (name : Text) : PreparedCache :=
  if name = [] then c
  else
    match c.items name with
    | none => c
    | some e => { c with items := Function.update c.items name none, order := c.order.remove e }

def clear (c : PreparedCache) : PreparedCache := { c with items := fun _ ↦ none, order := c.order.clear }

def snapshot (c : PreparedCache) : List Text := c.order.values

def len (c : PreparedCache) : ℕ := c.order.len

end PreparedCache

end Cache

section Calls

inductive Call
  | add (name : Text)
  | touch (name : Text)
  | has (name : Text)
  | remove (name : Text)
  | clear
  | snapshot

inductive Answer
  | nothing
  | evicted (name : Text)
  | has (present : Bool)
  | names (names : List Text)

def call (c : PreparedCache) : Call → PreparedCache × Answer
  | .add name => ((c.add name).1, .evicted (c.add name).2)
  | .touch name => (c.touch name, .nothing)
  | .has name => (c, .has (c.has name))
  | .remove name => (c.remove name, .nothing)
  | .clear => (c.clear, .nothing)
  | .snapshot => (c, .names c.snapshot)

/-- What a call does to the list of the names, the most recently used one first. -/
def reference (cap : ℕ) (names : List Text) : Call → List Text × Answer
  | .add name =>
    if name = [] then (names, .evicted [])
    else ((add cap name names).1, .evicted ((add cap name names).2.getD []))
  | .touch name => (touch name names, .nothing)
  | .has name => (names, .has (names.contains name))
  | .remove name => (remove name names, .nothing)
  | .clear => ([], .nothing)
  | .snapshot => (names, .names names)

def callAll {σ : Type} (step : σ → Call → σ × Answer) : σ → List Call → σ × List Answer
  | s, [] => (s, [])
  | s, k :: ks => ((callAll step (step s k).1 ks).1, (step s k).2 :: (callAll step (step s k).1 ks).2)

end Calls

section Steps

variable {cap : ℕ} {c : PreparedCache} {names : List Text} {name : Text}

/-- The cache holds the names of the list, in its order. -/
structure Holds (cap : ℕ) (c : PreparedCache) (names : List Text) : Prop where
  room : c.cap = cap
  indexed : Indexed c.items c.order
  values : c.order.values = names
  fits : Fits cap names
  named : [] ∉ names

namespace Holds

section

variable (h : Holds cap c names)

include h

theorem has_eq : c.has name = names.contains name := by
  rw [Bool.eq_iff_iff, PreparedCache.has, h.indexed.isSome_iff, h.values, List.contains_iff_mem]

variable {e : ℕ}

theorem mem_of_item (he : c.items name = some e) : name ∈ names := by
  rw [← h.values]
  exact h.indexed.isSome_iff.mp (Option.isSome_of_eq_some he)

theorem not_mem_of_item (he : c.items name = none) : name ∉ names := by
  rw [← h.values, ← h.indexed.isSome_iff, he]
  exact Bool.false_ne_true

theorem moveToFront (he : c.items name = some e) :
    Holds cap { c with order := c.order.moveToFront e } (Library.Recency.touch name names) where
  room := h.room
  indexed := h.indexed.moveToFront he
  values := by rw [h.indexed.values_moveToFront he, h.values, touch_of_mem (h.mem_of_item he)]
  fits := h.fits.touch name
  named := fun hmem ↦ h.named ((touch_perm name names).mem_iff.mp hmem)

theorem touch : Holds cap (c.touch name) (Library.Recency.touch name names) := by
  rw [PreparedCache.touch]
  split
  · next he =>
    rw [touch_of_not_mem (h.not_mem_of_item he)]
    exact h
  · next e he => exact h.moveToFront he

theorem unlink (he : c.items name = some e) :
    Holds cap { c with items := Function.update c.items name none, order := c.order.remove e }
      (Library.Recency.remove name names) where
  room := h.room
  indexed := h.indexed.remove he
  values := by rw [h.indexed.values_remove he, h.values]
  fits := h.fits.remove name
  named := fun hmem ↦ h.named ((remove_sublist name names).subset hmem)

theorem remove : Holds cap (c.remove name) (Library.Recency.remove name names) := by
  rw [PreparedCache.remove]
  split
  · next hname =>
    rw [hname, remove_of_not_mem h.named]
    exact h
  · split
    · next he =>
      rw [remove_of_not_mem (h.not_mem_of_item he)]
      exact h
    · next e he => exact h.unlink he

theorem clear : Holds cap c.clear [] where
  room := h.room
  indexed := .clear c.order
  values := rfl
  fits := fits_nil
  named := List.not_mem_nil

theorem add_new (hcap : 0 < cap) (hname : name ≠ []) (he : c.items name = none) :
    Holds cap (c.add name).1 (Library.Recency.add cap name names).1 ∧
      (c.add name).2 = (Library.Recency.add cap name names).2.getD [] := by
  have hmem := h.not_mem_of_item he
  have hpush := h.indexed.pushFront he
  have hvalues : (c.order.pushFront name).1.values = name :: names := congrArg (name :: ·) h.values
  have hlen : (c.order.pushFront name).1.len = names.length + 1 := by
    rw [← Chain.length_values, hvalues, List.length_cons]
  have hfits := h.fits.add name hcap
  have hnamed : [] ∉ name :: names := by
    intro hnil
    exact (List.mem_cons.mp hnil).elim (fun hnil ↦ hname hnil.symm) h.named
  rw [PreparedCache.add, if_neg hname, he]
  simp only [PreparedCache.evict, hlen]
  rw [Library.Recency.add, if_neg hmem] at hfits ⊢
  by_cases hfull : names.length < cap
  · rw [if_pos hfull] at hfits ⊢
    rw [if_neg (by rw [h.room]; omega)]
    exact ⟨⟨h.room, hpush, hvalues, hfits, hnamed⟩, rfl⟩
  · rw [if_neg hfull] at hfits ⊢
    rw [if_pos (by rw [h.room]; omega)]
    cases hback : (c.order.pushFront name).1.back with
    | none =>
      have hnil := List.getLast?_eq_none_iff.mp hback
      rw [← Chain.length_values, Chain.values, hnil, List.map_nil, List.length_nil] at hlen
      omega
    | some x =>
      obtain ⟨hitem, hlast, herase⟩ := hpush.back hback
      rw [hvalues] at hlast herase
      refine ⟨⟨h.room, hpush.remove hitem, ?_, hfits, ?_⟩, ?_⟩
      · rw [hpush.values_remove hitem, hvalues, herase]
      · exact fun hnil ↦ hnamed (List.dropLast_subset _ hnil)
      · rw [hlast]
        rfl

theorem add (hcap : 0 < cap) (hname : name ≠ []) :
    Holds cap (c.add name).1 (Library.Recency.add cap name names).1 ∧
      (c.add name).2 = (Library.Recency.add cap name names).2.getD [] := by
  cases he : c.items name with
  | none => exact h.add_new hcap hname he
  | some e =>
    rw [PreparedCache.add, if_neg hname, he, Library.Recency.add, if_pos (h.mem_of_item he)]
    exact ⟨h.moveToFront he, rfl⟩

theorem call (hcap : 0 < cap) (k : Call) :
    Holds cap (call c k).1 (reference cap names k).1 ∧ (PreparedNames.call c k).2 = (reference cap names k).2 := by
  cases k with
  | add name =>
    by_cases hname : name = []
    · simp only [PreparedNames.call, PreparedCache.add, reference, if_pos hname]
      exact ⟨h, trivial⟩
    · obtain ⟨hadd, hevicted⟩ := h.add hcap hname
      simp only [PreparedNames.call, reference, if_neg hname, hevicted]
      exact ⟨hadd, trivial⟩
  | touch name => exact ⟨h.touch, rfl⟩
  | has name => exact ⟨h, congrArg Answer.has h.has_eq⟩
  | remove name => exact ⟨h.remove, rfl⟩
  | clear => exact ⟨h.clear, rfl⟩
  | snapshot => exact ⟨h, congrArg Answer.names h.values⟩

theorem callAll (hcap : 0 < cap) (ks : List Call) :
    Holds cap (callAll PreparedNames.call c ks).1 (callAll (reference cap) names ks).1 ∧
      (PreparedNames.callAll PreparedNames.call c ks).2 = (PreparedNames.callAll (reference cap) names ks).2 := by
  induction ks generalizing c names with
  | nil => exact ⟨h, rfl⟩
  | cons k ks ih =>
    obtain ⟨hcall, hanswer⟩ := h.call hcap k
    obtain ⟨hrest, hanswers⟩ := ih hcall
    exact ⟨hrest, congrArg₂ List.cons hanswer hanswers⟩

end

theorem start (cap : ℤ) : Holds (capacity cap).toNat (newPreparedCache cap) [] where
  room := by
    have hpos := capacity_pos cap
    change capacity cap = _
    omega
  indexed := .empty
  values := rfl
  fits := fits_nil
  named := List.not_mem_nil

end Holds

end Steps

section Recency

variable {cap : ℕ} {past : List Call} {k : Call} {names : List Text} {name : Text}

def uses (name : Text) : Call → Bool
  | .add n | .touch n => n = name
  | _ => false

/-- Which call was the last to add or touch the name, counted from one. -/
def lastUse (past : List Call) (name : Text) : ℕ := past.length - past.reverse.findIdx (uses name)

theorem lastUse_concat (past : List Call) (k : Call) (name : Text) :
    lastUse (past ++ [k]) name = if uses name k then past.length + 1 else lastUse past name := by
  rw [lastUse, List.reverse_append, List.reverse_singleton, List.singleton_append, List.findIdx_cons,
    List.length_append, List.length_singleton]
  cases uses name k with
  | true => rfl
  | false => exact Nat.add_sub_add_right _ _ _

/-- From the most to the least recently used. -/
def ByUse (past : List Call) (names : List Text) : Prop := names.Pairwise fun a b ↦ lastUse past b < lastUse past a

theorem ByUse.keep (h : ByUse past names) (hk : ∀ name ∈ names, uses name k = false) : ByUse (past ++ [k]) names := by
  refine List.Pairwise.imp_of_mem ?_ h
  intro a b ha hb hab
  rw [lastUse_concat, lastUse_concat, hk a ha, hk b hb]
  exact hab

theorem ByUse.cons (h : ByUse past names) (hname : name ∉ names) (hk : ∀ n, uses n k = true ↔ n = name) :
    ByUse (past ++ [k]) (name :: names) := by
  have hold : ∀ n ∈ names, uses n k = false := by
    intro n hn
    rw [Bool.eq_false_iff, Ne, hk]
    intro heq
    exact hname (heq ▸ hn)
  refine List.pairwise_cons.mpr ⟨?_, h.keep hold⟩
  intro n hn
  rw [lastUse_concat, lastUse_concat, hold n hn, (hk name).mpr rfl]
  exact Nat.lt_succ_of_le (Nat.sub_le _ _)

theorem uses_add (n : Text) : uses n (.add name) = true ↔ n = name := by
  rw [uses, decide_eq_true_iff, eq_comm]

theorem uses_touch (n : Text) : uses n (.touch name) = true ↔ n = name := by
  rw [uses, decide_eq_true_iff, eq_comm]

theorem ByUse.touched (h : ByUse past names) (hnodup : names.Nodup) (hmem : name ∈ names)
    (hk : ∀ n, uses n k = true ↔ n = name) : ByUse (past ++ [k]) (touch name names) := by
  rw [touch_of_mem hmem]
  have hrest : ByUse past (remove name names) := List.Pairwise.sublist (remove_sublist name names) h
  exact ByUse.cons hrest (not_mem_remove hnodup) hk

theorem ByUse.reference (h : ByUse past names) (hfits : Fits cap names) (hnamed : [] ∉ names) (k : Call) :
    ByUse (past ++ [k]) (reference cap names k).1 := by
  have hunused : ∀ name, name ∉ names → (∀ n, uses n k = true ↔ n = name) → ByUse (past ++ [k]) names := by
    intro name hname hk
    refine h.keep ?_
    intro n hn
    rw [Bool.eq_false_iff, Ne, hk]
    intro heq
    exact hname (heq ▸ hn)
  cases k with
  | add name =>
    rw [PreparedNames.reference]
    split
    · next hname => exact hunused name (hname ▸ hnamed) uses_add
    · change ByUse _ (add cap name names).1
      rw [add]
      split
      · next hmem => exact h.touched hfits.nodup hmem uses_add
      · next hmem =>
        have hcons : ByUse _ (name :: names) := h.cons hmem uses_add
        split
        · exact hcons
        · exact List.Pairwise.sublist (List.dropLast_sublist _) hcons
  | touch name =>
    by_cases hmem : name ∈ names
    · exact h.touched hfits.nodup hmem uses_touch
    · have hsame := hunused name hmem uses_touch
      rw [← touch_of_not_mem hmem] at hsame
      exact hsame
  | has name => exact h.keep fun _ _ ↦ rfl
  | remove name =>
    have hsub : ByUse past (remove name names) := List.Pairwise.sublist (remove_sublist name names) h
    exact hsub.keep fun _ _ ↦ rfl
  | clear => exact List.Pairwise.nil
  | snapshot => exact h.keep fun _ _ ↦ rfl

theorem byUse_callAll (hcap : 0 < cap) {c : PreparedCache} (hc : Holds cap c names) (h : ByUse past names)
    (ks : List Call) : ByUse (past ++ ks) (callAll (PreparedNames.reference cap) names ks).1 := by
  induction ks generalizing past names c with
  | nil =>
    rw [List.append_nil]
    exact h
  | cons k ks ih =>
    have hstep := h.reference hc.fits hc.named k
    have hrest := ih (hc.call hcap k).1 hstep
    rw [List.append_assoc] at hrest
    exact hrest

end Recency

section Behaviour

/-- What a cache of capacity `cap` is after the calls `ks`, where `names` is what the calls make of the empty list. -/
structure IsLRU (cap : ℤ) (ks : List Call) (c : PreparedCache) (names : List Text) : Prop where
  snapshot : c.snapshot = names
  nodup : c.snapshot.Nodup
  byUse : ByUse ks c.snapshot
  has : ∀ name, c.has name = true ↔ name ∈ c.snapshot
  cap : c.cap = capacity cap
  len_le : c.len ≤ c.cap
  evicts : ∀ name, name ≠ [] → name ∉ c.snapshot → c.len = c.cap →
    ∃ evicted, c.snapshot.getLast? = some evicted ∧ evicted ≠ name ∧ evicted ≠ [] ∧ (c.add name).2 = evicted
  evictsNothing : ∀ name, name = [] ∨ name ∈ c.snapshot ∨ c.len ≠ c.cap → (c.add name).2 = []

theorem Holds.isLRU {cap : ℤ} {ks : List Call} {c : PreparedCache} {names : List Text}
    (h : Holds (capacity cap).toNat c names) (huse : ByUse ks names) : IsLRU cap ks c names := by
  have hpos := capacity_pos cap
  have hnat : 0 < (capacity cap).toNat := by omega
  have hroom : c.cap = capacity cap := by
    rw [h.room]
    omega
  have hsnapshot : c.snapshot = names := h.values
  have hlen : c.len = names.length := by rw [← h.values, Chain.length_values, PreparedCache.len]
  have hle := h.fits.length_le
  refine ⟨hsnapshot, hsnapshot ▸ h.fits.nodup, hsnapshot ▸ huse, ?_, hroom, by omega, ?_, ?_⟩
  · intro name
    rw [h.has_eq, List.contains_iff_mem, hsnapshot]
  · intro name hname hmem hfull
    rw [hsnapshot] at hmem ⊢
    obtain ⟨evicted, hin, hne, hlast, hadd⟩ := (add_of_not_mem h.fits hnat hmem).2 (by omega)
    refine ⟨evicted, hlast, hne, ?_, ?_⟩
    · intro hnil
      exact h.named (hnil ▸ hin)
    · rw [(h.add hnat hname).2, hadd]
      rfl
  · intro name hor
    by_cases hname : name = []
    · rw [PreparedCache.add, if_pos hname]
    rw [(h.add hnat hname).2]
    by_cases hmem : name ∈ names
    · rw [Library.Recency.add, if_pos hmem]
      rfl
    · have hroom' : names.length < (capacity cap).toNat := by
        obtain hor | hor | hor := hor
        · exact absurd hor hname
        · exact absurd (hsnapshot ▸ hor) hmem
        · omega
      rw [(add_of_not_mem h.fits hnat hmem).1 hroom']
      rfl

/-- Whatever the calls, the cache is a list of names that moves what is used to its front, and every call returns
what it returns on that list. -/
theorem callAll_lru (cap : ℤ) (ks : List Call) :
    (callAll call (newPreparedCache cap) ks).2 = (callAll (reference (capacity cap).toNat) [] ks).2 ∧
      IsLRU cap ks (callAll call (newPreparedCache cap) ks).1 (callAll (reference (capacity cap).toNat) [] ks).1 := by
  have hpos : 0 < (capacity cap).toNat := by
    have hcap := capacity_pos cap
    omega
  have hstart := Holds.start cap
  obtain ⟨hholds, hanswers⟩ := hstart.callAll hpos ks
  have hnone : ByUse [] [] := List.Pairwise.nil
  have huse := byUse_callAll hpos hstart hnone ks
  exact ⟨hanswers, hholds.isLRU huse⟩

end Behaviour

section Lists

variable {cap : ℕ} {c : PreparedCache} {names : List Text} {name : Text}

/-- The cache as the handling of messages sees it. -/
def PreparedCache.view (c : PreparedCache) : Client.Prepared.PreparedCache := ⟨c.cap.toNat, c.snapshot⟩

theorem Holds.view_eq (h : Holds cap c names) : c.view = ⟨cap, names⟩ := by
  rw [PreparedCache.view, PreparedCache.snapshot, h.values, h.room, Int.toNat_natCast]

theorem view_touch (cap : ℕ) (names : List Text) (name : Text) :
    Client.Prepared.PreparedCache.touch ⟨cap, names⟩ name = ⟨cap, touch name names⟩ := by
  rw [Client.Prepared.PreparedCache.touch, touch, Client.Prepared.PreparedCache.has]
  simp only [List.contains_iff_mem]
  split
  · rw [remove, lawful_beq_subsingleton List.instBEq instBEqOfDecidableEq]
  · rfl

theorem Holds.touch_view (h : Holds cap c names) : (c.touch name).view = c.view.touch name := by
  rw [h.touch.view_eq, h.view_eq, view_touch]

theorem Holds.clear_view (h : Holds cap c names) : c.clear.view = c.view.clear := by
  rw [h.clear.view_eq, h.view_eq]
  rfl

theorem Holds.add_view (h : Holds cap c names) (hcap : 0 < cap) :
    ((c.add name).1.view, (c.add name).2) = c.view.add name := by
  rw [Client.Prepared.PreparedCache.add]
  split
  · next hname => simp only [PreparedCache.add, if_pos hname]
  · next hname =>
    obtain ⟨hadd, hevicted⟩ := h.add hcap hname
    rw [hadd.view_eq, hevicted, h.view_eq, Library.Recency.add, Client.Prepared.PreparedCache.has]
    simp only [List.contains_iff_mem, List.length_cons]
    split
    · rw [view_touch]
      rfl
    · split
      · rw [if_neg (by omega)]
        rfl
      · rw [if_pos (by omega), List.getLastD_eq_getLast?]

/-- A call on the cache as the handling of messages has it. -/
def callList (c : Client.Prepared.PreparedCache) : Call → Client.Prepared.PreparedCache × Answer
  | .add name => ((c.add name).1, .evicted (c.add name).2)
  | .touch name => (c.touch name, .nothing)
  | .has name => (c, .has (c.has name))
  | .remove name => ({ c with order := c.order.erase name }, .nothing)
  | .clear => (c.clear, .nothing)
  | .snapshot => (c, .names c.order)

theorem call_view (h : Holds cap c names) (hcap : 0 < cap) (k : Call) :
    ((call c k).1.view, (call c k).2) = callList c.view k := by
  cases k with
  | add name => exact congrArg (fun r ↦ (r.1, Answer.evicted r.2)) (h.add_view hcap)
  | touch name => exact congrArg (·, Answer.nothing) h.touch_view
  | has name =>
    rw [call, h.has_eq, callList, h.view_eq]
    rfl
  | remove name =>
    rw [call, h.remove.view_eq, callList, h.view_eq, remove, lawful_beq_subsingleton List.instBEq instBEqOfDecidableEq]
  | clear => exact congrArg (·, Answer.nothing) h.clear_view
  | snapshot => rfl

/-- The list that the handling of messages works on stays the linked cache's own, and gets its answers. -/
theorem callAll_view (cap : ℤ) (ks : List Call) :
    ((callAll call (newPreparedCache cap) ks).1.view, (callAll call (newPreparedCache cap) ks).2) =
      callAll callList (newPreparedCache cap).view ks := by
  have hpos : 0 < (capacity cap).toNat := Int.pos_iff_toNat_pos.mp (capacity_pos cap)
  suffices h : ∀ c names, Holds (capacity cap).toNat c names →
      ((callAll call c ks).1.view, (callAll call c ks).2) = callAll callList c.view ks from h _ _ (.start cap)
  induction ks with
  | nil => exact fun _ _ _ ↦ rfl
  | cons k ks ih =>
    intro c names h
    simp only [callAll, ← call_view h hpos k, ← ih _ _ (h.call hpos k).1]

end Lists

end PgRouter.Backend.PreparedNames
