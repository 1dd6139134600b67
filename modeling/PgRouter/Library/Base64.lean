import Mathlib.Data.List.Basic

namespace PgRouter.Library.Base64

def padding : UInt8 := 0x3d

def letter (n : ℕ) : UInt8 :=
  if n < 26 then n.toUInt8 + 0x41
  else if n < 52 then (n - 26).toUInt8 + 0x61
  else if n < 62 then (n - 52).toUInt8 + 0x30
  else if n = 62 then 0x2b
  else 0x2f

def index (c : UInt8) : Option ℕ :=
  if 0x41 ≤ c ∧ c ≤ 0x5a then some (c.toNat - 0x41)
  else if 0x61 ≤ c ∧ c ≤ 0x7a then some (c.toNat - 0x61 + 26)
  else if 0x30 ≤ c ∧ c ≤ 0x39 then some (c.toNat - 0x30 + 52)
  else if c = 0x2b then some 62
  else if c = 0x2f then some 63
  else none

def first (w x : ℕ) : UInt8 := (w * 4 + x / 16).toUInt8

def second (x y : ℕ) : UInt8 := (x % 16 * 16 + y / 4).toUInt8

def third (y z : ℕ) : UInt8 := (y % 4 * 64 + z).toUInt8

def encode : List UInt8 → List UInt8
  | a :: b :: c :: rest =>
    letter (a.toNat / 4) :: letter (a.toNat % 4 * 16 + b.toNat / 16) ::
      letter (b.toNat % 16 * 4 + c.toNat / 64) :: letter (c.toNat % 64) :: encode rest
  | [a, b] =>
    [letter (a.toNat / 4), letter (a.toNat % 4 * 16 + b.toNat / 16), letter (b.toNat % 16 * 4), padding]
  | [a] => [letter (a.toNat / 4), letter (a.toNat % 4 * 16), padding, padding]
  | [] => []

def decodePadded (w x : ℕ) (y : UInt8) : Option (List UInt8) :=
  if y = padding then some [first w x] else (index y).map fun y ↦ [first w x, second x y]

def decode : List UInt8 → Option (List UInt8)
  | [] => some []
  | w :: x :: y :: z :: rest =>
    match index w, index x with
    | some w, some x =>
      if z = padding then if rest = [] then decodePadded w x y else none
      else
        match index y, index z, decode rest with
        | some y, some z, some bytes => some (first w x :: second x y :: third y z :: bytes)
        | _, _, _ => none
    | _, _ => none
  | _ => none

theorem letter_facts : ∀ n < 64, index (letter n) = some n ∧ letter n ≠ padding := by
  decide

theorem toUInt8_toNat (a : UInt8) : a.toNat.toUInt8 = a := UInt8.ofNat_toNat

theorem first_eq (a : UInt8) (x : ℕ) (h : x < 16) : first (a.toNat / 4) (a.toNat % 4 * 16 + x) = a := by
  rw [first, show a.toNat / 4 * 4 + (a.toNat % 4 * 16 + x) / 16 = a.toNat by omega, toUInt8_toNat]

theorem second_eq (b : UInt8) (x y : ℕ) (h : y < 4) :
    second (x * 16 + b.toNat / 16) (b.toNat % 16 * 4 + y) = b := by
  have hb := b.toNat_lt
  rw [second, show (x * 16 + b.toNat / 16) % 16 * 16 + (b.toNat % 16 * 4 + y) / 4 = b.toNat by omega, toUInt8_toNat]

theorem third_eq (c : UInt8) (y : ℕ) : third (y * 4 + c.toNat / 64) (c.toNat % 64) = c := by
  have hc := c.toNat_lt
  rw [third, show (y * 4 + c.toNat / 64) % 4 * 64 + c.toNat % 64 = c.toNat by omega, toUInt8_toNat]

theorem decode_encode (s : List UInt8) : decode (encode s) = some s := by
  induction s using encode.induct with
  | case1 a b c rest ih =>
    have ha := a.toNat_lt
    have hb := b.toNat_lt
    have hc := c.toNat_lt
    have hw := (letter_facts (a.toNat / 4) (by omega)).1
    have hx := (letter_facts (a.toNat % 4 * 16 + b.toNat / 16) (by omega)).1
    have hy := (letter_facts (b.toNat % 16 * 4 + c.toNat / 64) (by omega)).1
    obtain ⟨hz, hpad⟩ := letter_facts (c.toNat % 64) (by omega)
    simp only [encode, decode, hw, hx, hy, hz, hpad, if_false, ih]
    rw [first_eq a _ (by omega), second_eq b _ _ (by omega), third_eq]
  | case2 a b =>
    have ha := a.toNat_lt
    have hb := b.toNat_lt
    have hw := (letter_facts (a.toNat / 4) (by omega)).1
    have hx := (letter_facts (a.toNat % 4 * 16 + b.toNat / 16) (by omega)).1
    obtain ⟨hy, hpad⟩ := letter_facts (b.toNat % 16 * 4) (by omega)
    simp only [encode, decode, decodePadded, hw, hx, hy, hpad, if_true, if_false, Option.map_some]
    have hb : second (a.toNat % 4 * 16 + b.toNat / 16) (b.toNat % 16 * 4) = b := second_eq b (a.toNat % 4) 0 (by omega)
    rw [first_eq a _ (by omega), hb]
  | case3 a =>
    have ha := a.toNat_lt
    have hw := (letter_facts (a.toNat / 4) (by omega)).1
    have hx := (letter_facts (a.toNat % 4 * 16) (by omega)).1
    simp only [encode, decode, decodePadded, hw, hx, if_true]
    have ha : first (a.toNat / 4) (a.toNat % 4 * 16) = a := first_eq a 0 (by omega)
    rw [ha]
  | case4 => rfl

theorem not_mem_encode {c : UInt8} (hindex : index c = none) (hpadding : c ≠ padding) (s : List UInt8) :
    c ∉ encode s := by
  have hletter (n : ℕ) (h : n < 64) : c ≠ letter n := by
    rintro rfl
    rw [(letter_facts n h).1] at hindex
    cases hindex
  induction s using encode.induct with
  | case1 a b c rest ih =>
    have ha := a.toNat_lt
    have hb := b.toNat_lt
    have hc := c.toNat_lt
    simp only [encode, List.mem_cons, not_or]
    exact ⟨hletter _ (by omega), hletter _ (by omega), hletter _ (by omega), hletter _ (by omega), ih⟩
  | case2 a b =>
    have ha := a.toNat_lt
    have hb := b.toNat_lt
    simp only [encode, List.mem_cons, List.not_mem_nil, or_false, not_or]
    exact ⟨hletter _ (by omega), hletter _ (by omega), hletter _ (by omega), hpadding⟩
  | case3 a =>
    have ha := a.toNat_lt
    simp only [encode, List.mem_cons, List.not_mem_nil, or_false, not_or]
    exact ⟨hletter _ (by omega), hletter _ (by omega), hpadding, hpadding⟩
  | case4 => simp [encode]

end PgRouter.Library.Base64
