import Mathlib.Data.List.Nodup

namespace PgRouter.Library.Recency

variable {α : Type}

section Reference

variable [DecidableEq α] {a : α} {l : List α} {cap : ℕ}

def remove (a : α) (l : List α) : List α := l.erase a

def touch (a : α) (l : List α) : List α := if a ∈ l then a :: remove a l else l

def add (cap : ℕ) (a : α) (l : List α) : List α × Option α :=
  if a ∈ l then (touch a l, none)
  else if l.length < cap then (a :: l, none)
  else ((a :: l).dropLast, (a :: l).getLast?)

theorem remove_of_not_mem (h : a ∉ l) : remove a l = l := List.erase_of_not_mem h

theorem remove_sublist (a : α) (l : List α) : (remove a l).Sublist l := List.erase_sublist

theorem not_mem_remove (h : l.Nodup) : a ∉ remove a l := h.not_mem_erase

theorem touch_of_mem (h : a ∈ l) : touch a l = a :: remove a l := if_pos h

theorem touch_of_not_mem (h : a ∉ l) : touch a l = l := if_neg h

theorem touch_perm (a : α) (l : List α) : (touch a l).Perm l := by
  rw [touch]
  split
  · next h => exact (List.perm_cons_erase h).symm
  · exact .refl l

structure Fits (cap : ℕ) (l : List α) : Prop where
  nodup : l.Nodup
  length_le : l.length ≤ cap

theorem Fits.touch (h : Fits cap l) (a : α) : Fits cap (touch a l) where
  nodup := (touch_perm a l).nodup_iff.mpr h.nodup
  length_le := (touch_perm a l).length_eq ▸ h.length_le

theorem Fits.add (h : Fits cap l) (a : α) (hcap : 0 < cap) : Fits cap (add cap a l).1 := by
  rw [Recency.add]
  split
  · exact h.touch a
  · next ha =>
    have hnodup : (a :: l).Nodup := List.nodup_cons.mpr ⟨ha, h.nodup⟩
    split
    · next hlength => exact ⟨hnodup, hlength⟩
    · refine ⟨hnodup.sublist (List.dropLast_sublist _), ?_⟩
      have hle := h.length_le
      rw [List.length_dropLast, List.length_cons]
      omega

theorem Fits.remove (h : Fits cap l) (a : α) : Fits cap (remove a l) where
  nodup := h.nodup.erase a
  length_le := Nat.le_trans List.length_erase_le h.length_le

omit [DecidableEq α] in
theorem fits_nil : Fits cap ([] : List α) := ⟨List.nodup_nil, Nat.zero_le cap⟩

theorem add_of_not_mem (h : Fits cap l) (hcap : 0 < cap) (ha : a ∉ l) :
    (l.length < cap → (add cap a l).2 = none) ∧
      (l.length = cap → ∃ b ∈ l, b ≠ a ∧ l.getLast? = some b ∧ (add cap a l).2 = some b) := by
  rw [add, if_neg ha]
  refine ⟨fun hlength ↦ by rw [if_pos hlength], fun hlength ↦ ?_⟩
  obtain ⟨b, hb⟩ : ∃ b, l.getLast? = some b := by
    cases l with
    | nil =>
      rw [List.length_nil] at hlength
      omega
    | cons c l => exact ⟨_, List.getLast?_cons⟩
  have hmem : b ∈ l := List.mem_of_getLast? hb
  refine ⟨b, hmem, ?_, hb, ?_⟩
  · intro hba
    exact ha (hba ▸ hmem)
  · rw [if_neg (by omega), List.getLast?_cons, hb]
    rfl

end Reference

section Chains

/-- A doubly linked list: its elements, each with an identity and a value, and the next identity. -/
structure Chain (α : Type) where
  cells : List (ℕ × α)
  fresh : ℕ

namespace Chain

def empty : Chain α := ⟨[], 0⟩

def pushFront (l : Chain α) (a : α) : Chain α × ℕ := (⟨(l.fresh, a) :: l.cells, l.fresh + 1⟩, l.fresh)

def remove (l : Chain α) (e : ℕ) : Chain α := { l with cells := l.cells.filter fun x ↦ x.1 != e }

def moveToFront (l : Chain α) (e : ℕ) : Chain α :=
  match l.cells.find? fun x ↦ x.1 == e with
  | none => l
  | some x => { l with cells := x :: (l.remove e).cells }

def back (l : Chain α) : Option (ℕ × α) := l.cells.getLast?

def len (l : Chain α) : ℕ := l.cells.length

def clear (l : Chain α) : Chain α := { l with cells := [] }

def values (l : Chain α) : List α := l.cells.map Prod.snd

theorem length_values (l : Chain α) : l.values.length = l.len := List.length_map _

end Chain

/-- An index knows the element of every value in the list. -/
structure Indexed (items : α → Option ℕ) (l : Chain α) : Prop where
  ids : (l.cells.map Prod.fst).Nodup
  old : ∀ x ∈ l.cells, x.1 < l.fresh
  mem : ∀ a e, items a = some e ↔ (e, a) ∈ l.cells

namespace Indexed

variable {items : α → Option ℕ} {l : Chain α} {a : α} {e : ℕ}

theorem empty : Indexed (fun _ : α ↦ none) Chain.empty where
  ids := List.nodup_nil
  old := by simp [Chain.empty]
  mem := by simp [Chain.empty]

theorem clear (l : Chain α) : Indexed (fun _ : α ↦ none) l.clear where
  ids := List.nodup_nil
  old := by simp [Chain.clear]
  mem := by simp [Chain.clear]

theorem id_eq_iff (h : Indexed items l) (he : items a = some e) {x : ℕ × α} (hx : x ∈ l.cells) :
    x.1 = e ↔ x.2 = a := by
  have hmem := (h.mem a e).mp he
  constructor
  · intro hid
    exact congrArg Prod.snd (List.inj_on_of_nodup_map h.ids hx hmem hid)
  · intro hvalue
    have hitem := (h.mem x.2 x.1).mpr hx
    rw [hvalue, he] at hitem
    exact (Option.some.inj hitem).symm

theorem nodup (h : Indexed items l) : l.values.Nodup := by
  have hcells : l.cells.Nodup := List.Nodup.of_map _ h.ids
  refine hcells.map_on ?_
  intro x hx y hy hxy
  have hy' := (h.mem y.2 y.1).mpr hy
  exact Prod.ext ((h.id_eq_iff hy' hx).mpr hxy) hxy

theorem isSome_iff (h : Indexed items l) : (items a).isSome = true ↔ a ∈ l.values := by
  rw [Option.isSome_iff_exists, Chain.values, List.mem_map]
  constructor
  · intro hsome
    obtain ⟨e, he⟩ := hsome
    exact ⟨(e, a), (h.mem a e).mp he, rfl⟩
  · intro hmem
    obtain ⟨⟨e, b⟩, hmem, rfl⟩ := hmem
    exact ⟨e, (h.mem b e).mpr hmem⟩

variable [DecidableEq α]

section

variable (h : Indexed items l)

include h

theorem pushFront (ha : items a = none) :
    Indexed (Function.update items a (some l.fresh)) (l.pushFront a).1 where
  ids := by
    refine List.nodup_cons.mpr ⟨?_, h.ids⟩
    intro hmem
    obtain ⟨x, hx, hid⟩ := List.mem_map.mp hmem
    have hlt := h.old x hx
    omega
  old := by
    intro x hx
    change x.1 < l.fresh + 1
    obtain rfl | hx := List.mem_cons.mp hx
    · exact Nat.lt_succ_self _
    · exact Nat.lt_succ_of_lt (h.old x hx)
  mem := by
    intro b e
    change _ ↔ (e, b) ∈ (l.fresh, a) :: l.cells
    rw [List.mem_cons, Prod.mk.injEq, ← h.mem, Function.update_apply]
    split
    · next hb =>
      rw [hb, ha]
      simp [eq_comm]
    · next hb => simp [hb]

section

variable (he : items a = some e)

include he

theorem values_remove : (l.remove e).values = Recency.remove a l.values := by
  rw [Recency.remove, h.nodup.erase_eq_filter, Chain.values, Chain.values, List.filter_map, Chain.remove]
  congr 1
  apply List.filter_congr
  intro x hx
  have hid := h.id_eq_iff he hx
  rw [Bool.eq_iff_iff, Function.comp_apply, bne_iff_ne, bne_iff_ne]
  exact not_congr hid

theorem remove :
    Indexed (Function.update items a none) (l.remove e) where
  ids := h.ids.sublist (List.filter_sublist.map _)
  old := fun x hx ↦ h.old x (List.mem_of_mem_filter hx)
  mem := by
    intro b i
    change _ ↔ (i, b) ∈ l.cells.filter _
    rw [List.mem_filter, bne_iff_ne, Function.update_apply]
    split
    · next hb =>
      rw [hb]
      refine iff_of_false (Option.some_ne_none i).symm ?_
      intro hmem
      exact hmem.2 ((h.id_eq_iff he hmem.1).mpr rfl)
    · next hb =>
      rw [← h.mem]
      refine ⟨fun hi ↦ ⟨hi, ?_⟩, And.left⟩
      intro hid
      exact hb ((h.id_eq_iff he ((h.mem b i).mp hi)).mp hid)

omit [DecidableEq α] in
theorem cells_moveToFront :
    l.moveToFront e = { l with cells := (e, a) :: (l.remove e).cells } := by
  have hmem := (h.mem a e).mp he
  rw [Chain.moveToFront]
  split
  · next hnone =>
    have hne := List.find?_eq_none.mp hnone (e, a) hmem
    exact absurd (beq_self_eq_true e) hne
  · next x hsome =>
    have hid : x.1 = e := by
      have hbeq := List.find?_some hsome
      exact beq_iff_eq.mp hbeq
    have hx : x = (e, a) := Prod.ext hid ((h.id_eq_iff he (List.mem_of_find?_eq_some hsome)).mp hid)
    rw [hx]

theorem values_moveToFront :
    (l.moveToFront e).values = a :: Recency.remove a l.values := by
  rw [h.cells_moveToFront he, ← h.values_remove he]
  rfl

theorem moveToFront : Indexed items (l.moveToFront e) := by
  have hmem := (h.mem a e).mp he
  rw [h.cells_moveToFront he]
  have hiff : ∀ x, x ∈ (e, a) :: (l.remove e).cells ↔ x ∈ l.cells := by
    intro x
    rw [Chain.remove, List.mem_cons, List.mem_filter, bne_iff_ne]
    refine ⟨fun hx ↦ hx.elim (fun hx ↦ hx ▸ hmem) And.left, fun hx ↦ ?_⟩
    by_cases hid : x.1 = e
    · exact .inl (Prod.ext hid ((h.id_eq_iff he hx).mp hid))
    · exact .inr ⟨hx, hid⟩
  refine ⟨List.nodup_cons.mpr ⟨?_, (h.remove he).ids⟩, fun x hx ↦ h.old x ((hiff x).mp hx), fun b i ↦ ?_⟩
  · intro hid
    obtain ⟨x, hx, hxe⟩ := List.mem_map.mp hid
    have hne := (List.mem_filter.mp hx).2
    exact bne_iff_ne.mp hne hxe
  · rw [h.mem, hiff]

end

theorem back (hback : l.back = some (e, a)) :
    items a = some e ∧ l.values.getLast? = some a ∧ Recency.remove a l.values = l.values.dropLast := by
  have hlast : l.values.getLast? = some a := by
    rw [Chain.values, List.getLast?_map, show l.cells.getLast? = _ from hback]
    rfl
  refine ⟨(h.mem a e).mpr (List.mem_of_getLast? hback), hlast, ?_⟩
  have hvalues := List.dropLast_append_getLast? a hlast
  have hnodup := h.nodup
  rw [← hvalues, List.nodup_append] at hnodup
  have hnot : a ∉ l.values.dropLast := by
    intro hmem
    exact hnodup.2.2 a hmem a (List.mem_singleton_self a) rfl
  calc Recency.remove a l.values = (l.values.dropLast ++ [a]).erase a := by rw [hvalues, Recency.remove]
    _ = l.values.dropLast := by rw [List.erase_append_right _ hnot, List.erase_cons_head, List.append_nil]

end

end Indexed

end Chains

end PgRouter.Library.Recency
