import Mathlib.Data.List.Basic

namespace PgRouter.Library.Slices

variable {α : Type}

def slice (store : List α) (i j : ℕ) : List α := (store.take j).drop i

/-- The backing array after `copy(store[off:], bs)`, where `bs` fits. -/
def overwrite (store : List α) (off : ℕ) (bs : List α) : List α :=
  store.take off ++ bs ++ store.drop (off + bs.length)

variable (store : List α) (off : ℕ) (b : α) (bs : List α)

theorem overwrite_length (h : off + bs.length ≤ store.length) : (overwrite store off bs).length = store.length := by
  simp only [overwrite, List.length_append, List.length_take, List.length_drop]
  omega

section

variable (h : off ≤ store.length)

include h

theorem take_off_append_length : (store.take off ++ bs).length = off + bs.length := by
  rw [List.length_append, List.length_take, Nat.min_eq_left h]

theorem take_overwrite :
    (overwrite store off bs).take (off + bs.length) = store.take off ++ bs := by
  rw [overwrite, ← take_off_append_length store off bs h, List.take_left]

theorem drop_overwrite :
    (overwrite store off bs).drop (off + bs.length) = store.drop (off + bs.length) := by
  rw [overwrite, List.drop_left' (take_off_append_length store off bs h)]

end

theorem take_overwrite_le (k : ℕ) (bs : List α) (h : off ≤ store.length) (hk : k ≤ off) :
    (overwrite store off bs).take k = store.take k := by
  rw [overwrite, List.append_assoc, List.take_append_of_le_length (by rw [List.length_take]; omega),
    List.take_take, Nat.min_eq_left hk]

theorem slice_overwrite (h : off ≤ store.length) : slice (overwrite store off bs) off (off + bs.length) = bs := by
  rw [slice, take_overwrite store off bs h, List.drop_left' (by
    rw [List.length_take, Nat.min_eq_left h])]

theorem getD_overwrite (d : α) (h : off ≤ store.length) : (overwrite store off (b :: bs)).getD off d = b := by
  have hl : (store.take off).length = off := by rw [List.length_take, Nat.min_eq_left h]
  rw [overwrite, List.append_assoc, List.getD_eq_getElem?_getD,
    List.getElem?_append_right (by omega), hl, Nat.sub_self]
  rfl

theorem slice_overwrite_tail (h : off ≤ store.length) :
    slice (overwrite store off (b :: bs)) (off + 1) (off + (bs.length + 1)) = bs := by
  have hs := slice_overwrite store off (b :: bs) h
  rw [List.length_cons, slice] at hs
  rw [slice, ← List.drop_drop, hs, List.drop_one, List.tail_cons]

theorem overwrite_overwrite (cs : List α) (h : off ≤ store.length) :
    overwrite (overwrite store off bs) (off + bs.length) cs = overwrite store off (bs ++ cs) := by
  rw [overwrite, take_overwrite store off bs h, ← List.drop_drop, drop_overwrite store off bs h,
    List.drop_drop, overwrite, List.length_append, Nat.add_assoc, List.append_assoc (store.take off)]

end PgRouter.Library.Slices
