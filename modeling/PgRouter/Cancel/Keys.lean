import Mathlib.Data.Int.Notation
import Mathlib.Logic.Function.Basic

namespace PgRouter.Cancel.Keys

/-- What the client is told as its process id and secret. -/
structure Key where
  processID : UInt32
  secretKey : Vector UInt8 4
deriving DecidableEq

/-- The upstream coordinates to which a CancelRequest is forwarded. -/
structure Target where
  backendAddr : String
  backendProcessID : UInt32
  backendSecretKey : List UInt8
deriving DecidableEq

def unbound : Target := ⟨"", 0, []⟩

/-- Both maps of the tracker. Times are in nanoseconds. -/
structure Tracker where
  m : Key → Option Target
  createdAt : Key → Option ℤ

def newTracker : Tracker := ⟨fun _ ↦ none, fun _ ↦ none⟩

def keyOf (buf : Vector UInt8 8) : Key :=
  let pid := UInt32.ofNat (buf[0].toNat * 0x1000000 + buf[1].toNat * 0x10000 + buf[2].toNat * 0x100 + buf[3].toNat)
  ⟨if pid = 0 then 1 else pid, #v[buf[4], buf[5], buf[6], buf[7]]⟩

inductive Attempt
  | failed
  | taken
  | allocated (k : Key) (t : Tracker)

inductive LookupError
  | notFound
deriving DecidableEq

namespace Tracker

/-- One turn of the loop in `Allocate`, with what the random source yields: the check and the entry are
made under one lock. -/
def allocateAttempt (t : Tracker) (now : ℤ) : Option (Vector UInt8 8) → Attempt
  | none => .failed
  | some buf =>
    let k := keyOf buf
    match t.m k with
    | none => .allocated k ⟨Function.update t.m k (some unbound), Function.update t.createdAt k (some now)⟩
    | some _ => .taken

def bind (t : Tracker) (k : Key) (target : Target) : Tracker := { t with m := Function.update t.m k (some target) }

def lookup (t : Tracker) (k : Key) : Except LookupError Target :=
  match t.m k with
  | none => .error .notFound
  | some target => if target.backendAddr = "" then .error .notFound else .ok target

def release (t : Tracker) (k : Key) : Tracker :=
  ⟨Function.update t.m k none, Function.update t.createdAt k none⟩

def stale (t : Tracker) (cutoff : ℤ) (k : Key) : Bool :=
  match t.createdAt k, t.m k with
  | some created, some target => decide (created < cutoff) && decide (target.backendAddr = "")
  | _, _ => false

def dangling (t : Tracker) (cutoff : ℤ) (k : Key) : Bool :=
  match t.createdAt k with
  | some created => decide (created < cutoff) && (t.m k).isNone
  | none => false

def sweepUnbound (t : Tracker) (ttl now : ℤ) : Tracker :=
  if ttl ≤ 0 then t
  else
    ⟨fun k ↦ if t.stale (now - ttl) k then none else t.m k,
      fun k ↦ if t.stale (now - ttl) k || t.dangling (now - ttl) k then none else t.createdAt k⟩

end Tracker

/-- The key that `handleCancel` reads off a CancelRequest: the first four bytes of the secret. -/
def requested (processID : UInt32) (secret : List UInt8) : Key :=
  ⟨processID, #v[secret.getD 0 0, secret.getD 1 0, secret.getD 2 0, secret.getD 3 0]⟩

def handleCancel (t : Tracker) (processID : UInt32) (secret : List UInt8) : Option Target :=
  match t.lookup (requested processID secret) with
  | .error _ => none
  | .ok target => some target

variable {t : Tracker} {k k' : Key}

def Unbound (t : Tracker) : Prop := ∀ k target, t.m k = some target → target.backendAddr = ""

theorem lookup_unbound (h : Unbound t) (k : Key) : t.lookup k = .error .notFound := by
  unfold Tracker.lookup
  split
  · rfl
  · exact if_pos (h k _ ‹_›)

theorem unbound_update {m : Key → Option Target} (h : ∀ k target, m k = some target → target.backendAddr = "")
    {entry : Option Target} (hentry : ∀ target, entry = some target → target.backendAddr = "") :
    ∀ k' target, Function.update m k entry k' = some target → target.backendAddr = "" := by
  intro k' target hk'
  by_cases hkey : k' = k
  · subst hkey
    rw [Function.update_self] at hk'
    exact hentry target hk'
  · rw [Function.update_of_ne hkey] at hk'
    exact h k' target hk'

theorem unbound_allocateAttempt {now : ℤ} {draw : Option (Vector UInt8 8)} {t' : Tracker} (h : Unbound t)
    (hattempt : t.allocateAttempt now draw = .allocated k t') : Unbound t' := by
  cases draw with
  | none => cases hattempt
  | some buf =>
    simp only [Tracker.allocateAttempt] at hattempt
    split at hattempt
    · obtain ⟨rfl, rfl⟩ := Attempt.allocated.inj hattempt
      refine unbound_update h ?_
      intro target htarget
      cases htarget
      rfl
    · cases hattempt

theorem unbound_release (h : Unbound t) (k : Key) : Unbound (t.release k) := by
  refine unbound_update h ?_
  intro target htarget
  cases htarget

theorem unbound_sweepUnbound (h : Unbound t) (ttl now : ℤ) : Unbound (t.sweepUnbound ttl now) := by
  unfold Tracker.sweepUnbound
  split
  · exact h
  · intro k target hk
    dsimp only at hk
    split at hk
    · cases hk
    · exact h k target hk

end PgRouter.Cancel.Keys
