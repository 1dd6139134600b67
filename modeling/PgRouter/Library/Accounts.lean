import Mathlib.Algebra.Order.BigOperators.Group.List
import Mathlib.Algebra.Order.Ring.Int

namespace PgRouter.Library.Accounts

variable {κ M : Type} [AddCommMonoid M]

def total (f : κ → M) (l : List κ) : M := (l.map f).sum

variable {c : κ} {i : ℕ} {l : List κ} {ι : Type} (f : κ → M)

@[simp] theorem total_nil : total f [] = 0 := rfl

@[simp] theorem total_cons (c : κ) (l : List κ) : total f (c :: l) = f c + total f l := by
  simp [total]

@[simp] theorem total_append (l l' : List κ) : total f (l ++ l') = total f l + total f l' := by
  simp [total]

theorem total_congr {f g : κ → M} (h : ∀ c ∈ l, f c = g c) : total f l = total g l := by
  rw [total, total, List.map_congr_left h]

theorem total_map (g : ι → κ) (l : List ι) : total f (l.map g) = total (fun c ↦ f (g c)) l := by
  simp [total, Function.comp_def]

theorem total_zero {f : κ → M} (h : ∀ c ∈ l, f c = 0) : total f l = 0 := by
  induction l with
  | nil => rfl
  | cons c l ih =>
    rw [total_cons, h c List.mem_cons_self, zero_add]
    exact ih fun c' hc' ↦ h c' (List.mem_cons_of_mem c hc')

@[simp] theorem total_fun_zero : total (fun _ : κ ↦ (0 : M)) l = 0 := total_zero fun _ _ ↦ rfl

theorem total_modify (h : l[i]? = some c) (g : κ → κ) : total f (l.modify i g) + f c = total f l + f (g c) := by
  induction l generalizing i with
  | nil => simp at h
  | cons a l ih =>
    cases i with
    | zero =>
      obtain rfl : a = c := by simpa using h
      simp only [List.modify_zero_cons, total_cons]
      rw [add_right_comm, add_comm (f (g a)), add_right_comm]
    | succ i =>
      simp only [List.modify_succ_cons, total_cons, add_assoc]
      rw [ih (by simpa using h)]

theorem total_set (h : l[i]? = some c) (c' : κ) : total f (l.set i c') + f c = total f l + f c' := by
  rw [List.set_eq_modify]
  exact total_modify f h fun _ ↦ c'

theorem total_eq_single (h : l[i]? = some c) (hzero : ∀ j d, j ≠ i → l[j]? = some d → f d = 0) : total f l = f c := by
  induction l generalizing i with
  | nil => simp at h
  | cons a l ih =>
    rw [total_cons]
    cases i with
    | zero =>
      obtain rfl : a = c := by simpa using h
      have hrest : total f l = 0 := total_zero fun d hd ↦ by
        obtain ⟨j, hj⟩ := List.getElem?_of_mem hd
        exact hzero (j + 1) d (by omega) (by simpa using hj)
      rw [hrest, add_zero]
    | succ i =>
      rw [hzero 0 a (by omega) (by simp), zero_add]
      exact ih (by simpa using h) fun j d hj hd ↦ hzero (j + 1) d (by omega) (by simpa using hd)

theorem total_natCast (f : κ → ℕ) (l : List κ) : total (fun c ↦ (f c : ℤ)) l = (total f l : ℕ) := by
  induction l with
  | nil => rfl
  | cons c l ih => rw [total_cons, total_cons, ih, Int.natCast_add]

theorem total_nonneg {f : κ → ℤ} (h : ∀ c ∈ l, 0 ≤ f c) : 0 ≤ total f l := by
  refine List.sum_nonneg ?_
  intro x hx
  obtain ⟨c, hc, rfl⟩ := List.mem_map.mp hx
  exact h c hc

theorem total_nonneg_of_paired {f : κ → ℤ} {g : ι → ℤ} {l' : List ι} (hf : ∀ c, 0 ≤ f c)
    (h : ∀ (i : ℕ) b, l'[i]? = some b → 0 ≤ g b ∨ ∃ c, l[i]? = some c ∧ 0 ≤ f c + g b) :
    0 ≤ total f l + total g l' := by
  induction l' generalizing l with
  | nil =>
    rw [total_nil, add_zero]
    exact total_nonneg fun c _ ↦ hf c
  | cons b l' ih =>
    cases l with
    | nil =>
      have hb := (h 0 b rfl).resolve_right (by simp)
      have hrest := ih (l := []) fun i b' hb' ↦ by simpa using h (i + 1) b' (by simpa using hb')
      rw [total_cons]
      omega
    | cons c l =>
      have hrest := ih (l := l) fun i b' hb' ↦ by simpa using h (i + 1) b' (by simpa using hb')
      have hb : 0 ≤ f c + g b := by
        rcases h 0 b rfl with hb | ⟨c', hc', hb⟩
        · have := hf c
          omega
        · obtain rfl : c = c' := by simpa using hc'
          exact hb
      rw [total_cons, total_cons]
      omega

end PgRouter.Library.Accounts
