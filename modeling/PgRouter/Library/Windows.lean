import PgRouter.Library.Slices

namespace PgRouter.Library.Windows

open Slices

/-- A read-ahead buffer: `buf[rp:wp]` has been read and not yet handed out. -/
structure Window (α : Type) where
  buf : List α
  rp : ℕ
  wp : ℕ
  rp_le : rp ≤ wp
  wp_le : wp ≤ buf.length

variable {α : Type}

namespace Window

def filled (w : Window α) : List α := slice w.buf w.rp w.wp

def available (w : Window α) : ℕ := w.wp - w.rp

def room (w : Window α) : ℕ := w.buf.length - w.wp

variable (w : Window α) (buf got : List α) (n : ℕ)

theorem filled_length : w.filled.length = w.available := by
  have h := w.wp_le
  rw [filled, slice, List.length_drop, List.length_take, available]
  omega

theorem available_le : w.available ≤ w.buf.length := by
  have h := w.wp_le
  rw [available]
  omega

def onto (w : Window α) (buf : List α) (h : w.available ≤ buf.length) : Window α where
  buf := overwrite buf 0 w.filled
  rp := 0
  wp := w.available
  rp_le := Nat.zero_le _
  wp_le := by rwa [overwrite_length _ _ _ (by rw [Nat.zero_add, filled_length]; exact h)]

def compact (w : Window α) : Window α := w.onto w.buf w.available_le

def empty (buf : List α) : Window α := ⟨buf, 0, 0, Nat.le_refl _, Nat.zero_le _⟩

def fill (w : Window α) (got : List α) (h : got.length ≤ w.room) : Window α where
  buf := overwrite w.buf w.wp got
  rp := w.rp
  wp := w.wp + got.length
  rp_le := Nat.le_add_right_of_le w.rp_le
  wp_le := by
    have hw := w.wp_le
    rw [room] at h
    rw [overwrite_length _ _ _ (by omega)]
    omega

def skip (w : Window α) (n : ℕ) : Window α where
  buf := w.buf
  rp := min (w.rp + n) w.wp
  wp := w.wp
  rp_le := Nat.min_le_right _ _
  wp_le := w.wp_le

@[simp] theorem available_onto (h : w.available ≤ buf.length) :
    (w.onto buf h).available = w.available := Nat.sub_zero _

@[simp] theorem available_compact : w.compact.available = w.available :=
  available_onto w _ _

@[simp] theorem available_fill (h : got.length ≤ w.room) : (w.fill got h).available = w.available + got.length := by
  have hr := w.rp_le
  simp only [available, fill]
  omega

@[simp] theorem available_skip : (w.skip n).available = w.available - n := by
  simp only [available, skip]
  omega

@[simp] theorem length_onto (h : w.available ≤ buf.length) : (w.onto buf h).buf.length = buf.length :=
  overwrite_length _ _ _ (by rw [Nat.zero_add, filled_length]; exact h)

@[simp] theorem length_compact : w.compact.buf.length = w.buf.length :=
  length_onto w _ _

@[simp] theorem length_fill (h : got.length ≤ w.room) : (w.fill got h).buf.length = w.buf.length := by
  have hw := w.wp_le
  rw [room] at h
  exact overwrite_length _ _ _ (by omega)

@[simp] theorem filled_onto (h : w.available ≤ buf.length) : (w.onto buf h).filled = w.filled := by
  have hs := slice_overwrite buf 0 w.filled (Nat.zero_le _)
  rwa [Nat.zero_add, filled_length] at hs

@[simp] theorem filled_compact : w.compact.filled = w.filled := filled_onto w _ _

@[simp] theorem filled_empty : (empty buf).filled = [] := rfl

@[simp] theorem filled_fill (h : got.length ≤ w.room) : (w.fill got h).filled = w.filled ++ got := by
  have hr := w.rp_le
  have hw := w.wp_le
  simp only [filled, fill, slice, take_overwrite w.buf w.wp got hw]
  rw [List.drop_append_of_le_length (by rw [List.length_take]; omega)]

@[simp] theorem filled_skip : (w.skip n).filled = w.filled.drop n := by
  have hr := w.rp_le
  have hw := w.wp_le
  rcases Nat.le_total (w.rp + n) w.wp with h | h
  · simp only [filled, skip, slice, List.drop_drop, Nat.min_eq_left h]
  · simp only [filled, skip, slice, List.drop_drop, Nat.min_eq_right h]
    rw [List.drop_of_length_le (by rw [List.length_take]; omega),
      List.drop_of_length_le (by rw [List.length_take]; omega)]

def back (w : Window α) (n : ℕ) : Window α where
  buf := w.buf
  rp := w.rp - n
  wp := w.wp
  rp_le := Nat.le_trans (Nat.sub_le _ _) w.rp_le
  wp_le := w.wp_le

theorem back_skip_of_le {n k : ℕ} (h : n ≤ w.available) (hk : k ≤ n) : (w.skip n).back k = w.skip (n - k) := by
  have hrp : min (w.rp + n) w.wp - k = min (w.rp + (n - k)) w.wp := by
    have hle := w.rp_le
    rw [available] at h
    omega
  simp only [back, skip, hrp]

theorem skip_zero : w.skip 0 = w := by
  have hrp : min (w.rp + 0) w.wp = w.rp := Nat.min_eq_left w.rp_le
  simp only [skip, hrp]

theorem back_skip {n : ℕ} (h : n ≤ w.available) : (w.skip n).back n = w := by
  rw [back_skip_of_le w h (Nat.le_refl n), Nat.sub_self, skip_zero]

end Window

end PgRouter.Library.Windows
