import Mathlib.Algebra.Order.Field.Rat
import PgRouter.Client.Protocol
import PgRouter.Library.Runs

namespace PgRouter.Client.Tenants

open Protocol Library.Runs

section Rates

/-- Times are in seconds and rates per second. The source computes in `float64`, and here the tokens that the time
adds are not rounded: how many requests pass in a stretch of time can differ by that. The results below rest on the
comparisons with the capacity and with one token alone, which are exact in both. -/
structure TokenBucket where
  capacity : ℚ
  rate : ℚ
  tokens : ℚ
  last : ℚ
  deriving DecidableEq

def TokenBucket.takeN (b : TokenBucket) (now n : ℚ) : TokenBucket × Bool :=
  let tokens := b.tokens + (now - b.last) * b.rate
  let tokens := if b.capacity < tokens then b.capacity else tokens
  if tokens < n then ({ b with tokens := tokens, last := now }, false)
  else ({ b with tokens := tokens - n, last := now }, true)

def TokenBucket.take (b : TokenBucket) (now : ℚ) : TokenBucket × Bool := b.takeN now 1

/-- The bucket that all clients of a tenant share, and how many of their requests it has let pass. -/
structure Limiter where
  bucket : TokenBucket
  passed : ℕ
  deriving DecidableEq

def takeQPS (s : Limiter) (now : ℚ) : Option Limiter :=
  if s.bucket.last ≤ now then some ⟨(s.bucket.take now).1, s.passed + (s.bucket.take now).2.toNat⟩ else none

variable {t : Limiter} {cap now : ℚ} {times : List ℚ}

end Rates

section Transactions

structure TenantCounters where
  txStarts : ℕ := 0
  txCommits : ℕ := 0
  txRollbacks : ℕ := 0

def observeTxTransition (c : TenantCounters) (prev new : UInt8) : TenantCounters :=
  if prev ≠ txInBlock ∧ prev ≠ txFailed ∧ new = txInBlock then { c with txStarts := c.txStarts + 1 }
  else if prev = txFailed ∧ new = txIdle then { c with txRollbacks := c.txRollbacks + 1 }
  else if prev = txInBlock ∧ new = txIdle then { c with txCommits := c.txCommits + 1 }
  else c

/-- What both kinds of drain do with the status of a `ReadyForQuery`. -/
def observeReady (p : ClientState × TenantCounters) (txStatus : UInt8) : ClientState × TenantCounters :=
  let (state, boundary) := p.1.observeTxStatus txStatus
  (state, if boundary then observeTxTransition p.2 p.1.tx state.tx else p.2)

def inside (tx : UInt8) : Bool := tx = txInBlock ∨ tx = txFailed

/-- How often a transaction has failed before any status has told that it was open. -/
def unseen (tx : UInt8) : List UInt8 → ℕ
  | [] => 0
  | txStatus :: rest => (!inside tx && txStatus == txFailed).toNat + unseen txStatus rest

structure Counted (unseen : ℕ) (p : ClientState × TenantCounters) : Prop where
  counters : p.2 = ⟨p.1.txStarts, p.1.txCommits, p.1.txRollbacks⟩
  balance : p.1.txStarts + unseen = p.1.txCommits + p.1.txRollbacks + (inside p.1.tx).toNat

variable {p : ClientState × TenantCounters} {txStatus : UInt8} {n : ℕ}

theorem Counted.observe (h : Counted n p) (hstatus : txStatus ∈ [txIdle, txInBlock, txFailed]) :
    Counted (n + (!inside p.1.tx && txStatus == txFailed).toNat) (observeReady p txStatus) := by
  obtain ⟨⟨tx, issued, starts, commits, rollbacks⟩, counters⟩ := p
  obtain ⟨hcounters, hbalance⟩ := h
  simp only at hcounters hbalance
  subst hcounters
  simp only [List.mem_cons, List.not_mem_nil, or_false] at hstatus
  by_cases hin : tx = txInBlock ∨ tx = txFailed
  · rcases hin with rfl | rfl <;> rcases hstatus with rfl | rfl | rfl <;> refine ⟨rfl, ?_⟩ <;>
      simp [observeReady, ClientState.observeTxStatus, inside, txIdle, txInBlock, txFailed] at hbalance ⊢ <;> omega
  · obtain ⟨hblock, hfailed⟩ := not_or.mp hin
    simp only [inside, hin, decide_false, Bool.toNat_false] at hbalance
    rcases hstatus with rfl | rfl | rfl <;> constructor <;>
      simp [observeReady, ClientState.observeTxStatus, observeTxTransition, inside, hblock, hfailed] <;>
      simp [txIdle, txInBlock, txFailed] <;> omega

theorem counted_run {statuses : List UInt8} (h : Counted n p)
    (hstatuses : ∀ txStatus ∈ statuses, txStatus ∈ [txIdle, txInBlock, txFailed]) :
    Counted (n + unseen p.1.tx statuses) (statuses.foldl observeReady p) := by
  induction statuses generalizing p n with
  | nil => exact h
  | cons txStatus rest ih =>
    obtain ⟨hstatus, hrest⟩ := List.forall_mem_cons.mp hstatuses
    have htx : (observeReady p txStatus).1.tx = txStatus := ClientState.tx_observeTxStatus p.1 txStatus
    have hrun := ih (h.observe hstatus) hrest
    rwa [htx, Nat.add_assoc] at hrun

/-- What is counted for the tenant is what its client counts, and every transaction that was begun has been committed or
rolled back, but the one that is open and those of which the first status was already that they had failed. -/
theorem transactions_counted (statuses : List UInt8)
    (hstatuses : ∀ txStatus ∈ statuses, txStatus ∈ [txIdle, txInBlock, txFailed]) :
    let (state, counters) := statuses.foldl observeReady ({}, {})
    counters = ⟨state.txStarts, state.txCommits, state.txRollbacks⟩ ∧
      state.txStarts + unseen 0 statuses = state.txCommits + state.txRollbacks + (inside state.tx).toNat := by
  have hcounted := counted_run (n := 0) (p := ({}, {})) ⟨rfl, rfl⟩ hstatuses
  rw [Nat.zero_add] at hcounted
  exact ⟨hcounted.counters, hcounted.balance⟩

/-- A script that fails in its own transaction rolls back what was never counted as begun. -/
theorem transactions_counted_script :
    let (state, counters) := [txInBlock, txIdle, txFailed, txIdle].foldl observeReady ({}, {})
    counters = ⟨state.txStarts, state.txCommits, state.txRollbacks⟩ ∧
      state.txStarts + unseen 0 [txInBlock, txIdle, txFailed, txIdle] =
        state.txCommits + state.txRollbacks + (inside state.tx).toNat :=
  transactions_counted [txInBlock, txIdle, txFailed, txIdle] (by simp)

end Transactions

end PgRouter.Client.Tenants
