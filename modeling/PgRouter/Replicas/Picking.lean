import Mathlib.Algebra.Order.Ring.Nat
import Mathlib.Data.List.Count
import Mathlib.Data.List.Rotate
import PgRouter.Replicas.Manager

namespace PgRouter.Replicas.Picking

open Library.Runs Manager

/-- `int(n) % len` for a counter value. The conversion reads the 64 bits as they stand. -/
def ringIndex (n : UInt64) (len : ℕ) : ℤ := n.toInt64.toInt.tmod len

/-- What a counter value picks of a ring; none is an index out of range. -/
def pickAt (ring : List Replica) (n : UInt64) : Option Replica :=
  if 0 ≤ ringIndex n ring.length then ring[(ringIndex n ring.length).toNat]? else none

/-- Where a call of `Pick` stands. -/
inductive Call
  | entered
  | loaded (snap : PickSnapshot)
  | noHealthyReplica
  | picked (n : UInt64) (r : Option Replica)

/-- The counter, the published snapshot and the calls of all goroutines; `picks` lists the increments with
the replicas that they led to. -/
structure State where
  rr : UInt64
  snapshot : PickSnapshot
  calls : List Call
  picks : List (UInt64 × Option Replica)

inductive Event
  | pick
  | go (i : ℕ)

/-- A call loads the snapshot and then increments the counter; between the two any other call may do either. -/
def step (s : State) : Event → Option State
  | .pick => some { s with calls := s.calls ++ [.entered] }
  | .go i =>
    match s.calls[i]? with
    | some .entered =>
      some { s with
        calls := s.calls.set i (if s.snapshot.expanded = [] then .noHealthyReplica else .loaded s.snapshot) }
    | some (.loaded snap) =>
      some { s with
        rr := s.rr + 1
        calls := s.calls.set i (.picked s.rr (pickAt snap.expanded s.rr))
        picks := s.picks ++ [(s.rr, pickAt snap.expanded s.rr)] }
    | _ => none

/-- No call holds another snapshot, and the counter went up by one for each pick. -/
structure Counts (rr : UInt64) (snap : PickSnapshot) (s : State) : Prop where
  snapshot : s.snapshot = snap
  loaded : ∀ snap', .loaded snap' ∈ s.calls → snap' = snap
  counter : s.rr = rr + UInt64.ofNat s.picks.length
  picks : ∀ i p, s.picks[i]? = some p → p = (rr + UInt64.ofNat i, pickAt snap.expanded (rr + UInt64.ofNat i))

variable {snap : PickSnapshot} {rr : UInt64}

theorem counts_step {s t : State} {e : Event} (h : Counts rr snap s)
    (hstep : step s e = some t) : Counts rr snap t := by
  obtain ⟨hsnap, hloaded, hcounter, hpicks⟩ := h
  cases e with
  | pick =>
    cases hstep
    refine ⟨hsnap, ?_, hcounter, hpicks⟩
    intro snap' hmem
    exact hloaded snap' (by simpa using hmem)
  | go i =>
    rw [step] at hstep
    split at hstep
    case h_1 hcall =>
      cases hstep
      refine ⟨hsnap, ?_, hcounter, hpicks⟩
      intro snap' hmem
      obtain hmem | heq := List.mem_or_eq_of_mem_set hmem
      · exact hloaded snap' hmem
      · split at heq
        · cases heq
        · cases heq
          exact hsnap
    case h_2 snap' hcall =>
      cases hstep
      obtain rfl := hloaded snap' (List.mem_of_getElem? hcall)
      refine ⟨hsnap, ?_, ?_, ?_⟩
      · intro snap'' hmem
        obtain hmem | heq := List.mem_or_eq_of_mem_set hmem
        · exact hloaded snap'' hmem
        · cases heq
      · rw [hcounter, List.length_append, List.length_singleton, UInt64.ofNat_add, UInt64.add_assoc]
        rfl
      · intro j p hj
        rw [List.getElem?_append] at hj
        split at hj
        · exact hpicks j p hj
        case isFalse hlast =>
          have hone : j - s.picks.length = 0 := by
            have hlt := List.getElem?_eq_some_iff.mp hj
            obtain ⟨hlt, -⟩ := hlt
            simpa using hlt
          obtain rfl : j = s.picks.length := by omega
          rw [hone] at hj
          cases hj
          rw [hcounter]
    case h_3 => cases hstep

theorem pickAt_of_lt {ring : List Replica} {n : UInt64} (h : n.toNat < 2 ^ 63) :
    pickAt ring n = ring[n.toNat % ring.length]? := by
  have hindex : ringIndex n ring.length = (n.toNat % ring.length : ℕ) := by
    have hint : n.toInt64.toInt = n.toNat := by
      have hhalf : 2 * n.toNat < 2 ^ 64 := by omega
      exact BitVec.toInt_eq_toNat_of_lt hhalf
    rw [ringIndex, hint]
    rfl
  rw [pickAt, hindex, if_pos (Int.natCast_nonneg _), Int.toNat_natCast]

theorem toNat_add_of_lt {n : UInt64} {w : ℕ} (h : ∀ j < w, (n + UInt64.ofNat j).toNat < 2 ^ 63) {j : ℕ} (hj : j < w) :
    (n + UInt64.ofNat j).toNat = n.toNat + j := by
  induction j with
  | zero => simp
  | succ j ih =>
    have hprev := ih (by omega)
    have hlt := h j (by omega)
    have hsucc : n + UInt64.ofNat (j + 1) = n + UInt64.ofNat j + 1 := by
      rw [UInt64.ofNat_add, UInt64.add_assoc]
      rfl
    rw [hsucc, UInt64.toNat_add, hprev]
    have hone : (1 : UInt64).toNat = 1 := rfl
    omega

theorem count_flatMap_replicate {cands : List Replica} (hnodup : cands.Nodup) {r : Replica} (hr : r ∈ cands) :
    (cands.flatMap fun r ↦ List.replicate (max 1 r.weight).toNat r).count r = (max 1 r.weight).toNat := by
  induction cands with
  | nil => cases hr
  | cons c cands ih =>
    obtain ⟨hc, hnodup⟩ := List.nodup_cons.mp hnodup
    rw [List.flatMap_cons, List.count_append, List.count_replicate]
    obtain rfl | hr := List.mem_cons.mp hr
    · have hrest : (cands.flatMap fun r ↦ List.replicate (max 1 r.weight).toNat r).count r = 0 := by
        refine List.count_eq_zero.mpr fun hmem ↦ ?_
        obtain ⟨c, hmem, hin⟩ := List.mem_flatMap.mp hmem
        obtain rfl := List.eq_of_mem_replicate hin
        exact hc hmem
      rw [hrest, if_pos (beq_self_eq_true r), Nat.add_zero]
    · have hne : (c == r) = false := by
        refine beq_eq_false_iff_ne.mpr ?_
        rintro rfl
        exact hc hr
      rw [hne, ih hnodup hr]
      simp

theorem Counts.window {s : State} (h : Counts rr snap s)
    {before window after : List (UInt64 × Option Replica)} (hpicks : s.picks = before ++ window ++ after) {j : ℕ}
    (hj : j < window.length) :
    window[j]? = some (rr + UInt64.ofNat before.length + UInt64.ofNat j,
      pickAt snap.expanded (rr + UInt64.ofNat before.length + UInt64.ofNat j)) := by
  have hget : s.picks[before.length + j]? = window[j]? := by
    rw [hpicks, List.append_assoc, List.getElem?_append_right (Nat.le_add_right _ _), Nat.add_sub_cancel_left,
      List.getElem?_append_left hj]
  rw [List.getElem?_eq_getElem hj] at hget ⊢
  rw [h.picks _ _ hget, UInt64.ofNat_add, UInt64.add_assoc]

/-- A window as long as the ring goes around it once. -/
theorem Counts.rotate {s : State} (h : Counts rr snap s)
    {before window after : List (UInt64 × Option Replica)} (hpicks : s.picks = before ++ window ++ after)
    (hlength : window.length = snap.expanded.length) (hbelow : ∀ p ∈ window, p.1.toNat < 2 ^ 63) :
    ∃ k, window.map Prod.snd = (snap.expanded.rotate k).map some := by
  have hvalue (j : ℕ) (hj : j < window.length) : (rr + UInt64.ofNat before.length + UInt64.ofNat j).toNat < 2 ^ 63 :=
    hbelow _ (List.mem_of_getElem? (h.window hpicks hj))
  refine ⟨(rr + UInt64.ofNat before.length).toNat, List.ext_getElem? fun j ↦ ?_⟩
  by_cases hj : j < window.length
  · rw [List.getElem?_map, List.getElem?_map, h.window hpicks hj, List.getElem?_rotate (hlength ▸ hj), Option.map_some,
      pickAt_of_lt (hvalue j hj), toNat_add_of_lt hvalue hj, Nat.add_comm]
    have hlt : (j + (rr + UInt64.ofNat before.length).toNat) % snap.expanded.length < snap.expanded.length :=
      Nat.mod_lt _ (by omega)
    rw [List.getElem?_eq_getElem hlt, Option.map_some]
  · rw [List.getElem?_eq_none (by simpa using hj), List.getElem?_eq_none (by simpa [← hlength] using hj)]

/-- As many picks in a row as the ring is long lead to each candidate as often as its weight says, whichever
calls they belong to. -/
theorem picks_exact {replicas : List Replica} (hnodup : replicas.Nodup) (cells : Cells) (rr : UInt64) {es : List Event}
    {t : State} (hrun : Run step anyStep ⟨rr, rebuildSnapshot replicas cells, [], []⟩ es t)
    {before window after : List (UInt64 × Option Replica)} (hpicks : t.picks = before ++ window ++ after)
    (hlength : window.length = (rebuildSnapshot replicas cells).expanded.length)
    (hbelow : ∀ p ∈ window, p.1.toNat < 2 ^ 63) {r : Replica} (hr : r ∈ (rebuildSnapshot replicas cells).cands) :
    (window.map Prod.snd).count (some r) = (max 1 r.weight).toNat := by
  have hcounts : Counts rr (rebuildSnapshot replicas cells) t := by
    refine hrun.invariant (fun s e t hs _ hstep ↦ counts_step hs hstep) ⟨rfl, ?_, by simp, ?_⟩
    · intro snap hmem
      cases hmem
    · intro i p hp
      cases hp
  obtain ⟨k, hrotate⟩ := hcounts.rotate hpicks hlength hbelow
  have hcands : (rebuildSnapshot replicas cells).cands = replicas.filter cells.candidate := by
    rw [rebuildSnapshot_eq]
    rfl
  rw [hcands] at hr
  rw [hrotate, List.count_map_of_injective _ some fun _ _ ↦ Option.some.inj, (List.rotate_perm _ k).count_eq,
    expanded_rebuildSnapshot]
  exact count_flatMap_replicate (hnodup.filter _) hr

section Cases

def light : Replica := ⟨0, "a", 5432, 0⟩

def heavy : Replica := ⟨1, "b", 5432, 2⟩

def allHealthy : Cells := ⟨fun _ ↦ true, fun _ ↦ 0, 0⟩

def threePicks : List (UInt64 × Option Replica) := [(5, some heavy), (6, some light), (7, some heavy)]

/-- Three calls, of which the second increments the counter before the first. -/
theorem picks_exact_heavy :
    Run step anyStep ⟨5, rebuildSnapshot [light, heavy] allHealthy, [], []⟩
      [.pick, .pick, .pick, .go 0, .go 1, .go 1, .go 0, .go 2, .go 2]
      ⟨8, rebuildSnapshot [light, heavy] allHealthy,
        [.picked 6 (some light), .picked 5 (some heavy), .picked 7 (some heavy)], threePicks⟩ ∧
    (threePicks.map Prod.snd).count (some heavy) = 2 := by
  have hrun : Run step anyStep ⟨5, rebuildSnapshot [light, heavy] allHealthy, [], []⟩
      [.pick, .pick, .pick, .go 0, .go 1, .go 1, .go 0, .go 2, .go 2]
      ⟨8, rebuildSnapshot [light, heavy] allHealthy,
        [.picked 6 (some light), .picked 5 (some heavy), .picked 7 (some heavy)], threePicks⟩ := run_of_exec rfl
  have hwindow : threePicks = [] ++ threePicks ++ [] := rfl
  have hheavy : heavy ∈ (rebuildSnapshot [light, heavy] allHealthy).cands := by decide
  exact ⟨hrun, picks_exact (by decide) allHealthy 5 hrun hwindow rfl (by decide) hheavy⟩

end Cases

end PgRouter.Replicas.Picking
