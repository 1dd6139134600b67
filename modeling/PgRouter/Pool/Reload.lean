import PgRouter.Pool.Registry
import PgRouter.Pool.Shape

namespace PgRouter.Pool.Reload

open Client.Protocol Library.Texts Model Shape
open Registry hiding Entry Manager

section Keys

theorem splitName_string {k : Key} (h : slash ∉ k.db) : splitName k.string = k := by
  rw [splitName, Key.string, cut_append k.user h]

theorem splitName_ne {k : Key} (h : slash ∈ k.db) (name : Text) : splitName name ≠ k := by
  intro heq
  rw [← heq, splitName] at h
  split at h
  · next hcut => exact (cut_spec hcut).2 h
  · next hcut =>
    rw [cut] at hcut
    split at hcut
    · next hdrop =>
      have hall := List.dropWhile_eq_nil_iff.mp hdrop slash h
      simp at hall
    · cases hcut

end Keys

section Managers

structure Entry where
  key : Key
  pool : Shared
  active_nonneg : 0 ≤ pool.active

namespace Entry

/-- `Get` gives a pool the key it is registered under as its name. -/
def name (e : Entry) : Text := e.key.string

def size (e : Entry) : ℤ := e.pool.cfg.defaultPoolSize

def resize (e : Entry) (newSize : ℤ) : Option Entry :=
  match h : Model.resize e.pool {} newSize with
  | none => none
  | some o => some ⟨e.key, o.shared, by rw [(resize_spec h).2.2.2.2.2.1]; exact e.active_nonneg⟩

theorem exists_resize (e : Entry) (newSize : ℤ) :
    ∃ e', e.resize newSize = some e' ∧ e'.key = e.key ∧ e'.size = max newSize 1 := by
  obtain ⟨o, ho⟩ := Shape.exists_resize e.active_nonneg {} newSize
  unfold Entry.resize
  split
  · next hnone =>
    rw [ho] at hnone
    cases hnone
  · next o' hsome => exact ⟨_, rfl, rfl, (resize_spec hsome).2.2.2.2.2.2⟩

end Entry

/-- The pools stand in the order in which the map is gone through. -/
structure Manager where
  defaultPoolSize : ℤ
  pools : List Entry

variable (defaultSize : ℤ) (perKey : Option (Key → ℤ))

def applyTo (e : Entry) : Option (Entry × Option ResizeRecord) :=
  let k := splitName e.name
  let size := want defaultSize perKey k
  if size ≤ 0 then some (e, none)
  else if e.size = size then some (e, none)
  else (e.resize size).map fun e' ↦ (e', some ⟨k, e.size, size⟩)

def applyAll : List Entry → Option (List Entry × List ResizeRecord)
  | [] => some ([], [])
  | e :: es =>
    (applyTo defaultSize perKey e).bind fun r ↦
      (applyAll es).map fun rs ↦ (r.1 :: rs.1, r.2.toList ++ rs.2)

def applyDefaultSize (m : Manager) : Option (Manager × List ResizeRecord) :=
  (applyAll defaultSize perKey m.pools).map fun rs ↦ (⟨defaultSize, rs.1⟩, rs.2)

end Managers

section Reloads

variable {defaultSize : ℤ} {perKey : Option (Key → ℤ)}

theorem want_pos (h : 0 < defaultSize) (perKey : Option (Key → ℤ)) (k : Key) : 0 < want defaultSize perKey k := by
  cases perKey with
  | none => exact h
  | some f =>
    rw [want]
    split <;> omega

theorem applyTo_spec (h : 0 < defaultSize) (perKey : Option (Key → ℤ)) (e : Entry) :
    ∃ e' r, applyTo defaultSize perKey e = some (e', r) ∧ e'.key = e.key ∧
      e'.size = want defaultSize perKey (splitName e.name) ∧
      r = if e.size = e'.size then none else some ⟨splitName e.name, e.size, e'.size⟩ := by
  have hpos := want_pos h perKey (splitName e.name)
  rw [applyTo]
  simp only [if_neg (Int.not_le.mpr hpos)]
  split
  · next hsize => exact ⟨e, none, rfl, rfl, hsize, by rw [if_pos rfl]⟩
  · next hsize =>
    obtain ⟨e', he', hkey, hresized⟩ := e.exists_resize (want defaultSize perKey (splitName e.name))
    have hsize' : e'.size = want defaultSize perKey (splitName e.name) := by omega
    rw [he']
    refine ⟨e', _, rfl, hkey, hsize', ?_⟩
    rw [hsize', if_neg hsize]

def record (e e' : Entry) : Option ResizeRecord := if e.size = e'.size then none else some ⟨e.key, e.size, e'.size⟩

/-- Every pool has the size for its own key, and the records are those of the pools whose size has changed, under
their own keys. -/
structure Reloaded (defaultSize : ℤ) (perKey : Option (Key → ℤ)) (pools pools' : List Entry)
    (records : List ResizeRecord) : Prop where
  sizes : ∀ e' ∈ pools', e'.size = want defaultSize perKey e'.key
  records : records = (pools.zip pools').filterMap fun x ↦ record x.1 x.2

/-- A pool whose database has a slash in it has the size it is to have, and the key that is read off its name is to
have the same. -/
def Readable (defaultSize : ℤ) (perKey : Option (Key → ℤ)) (e : Entry) : Prop :=
  slash ∈ e.key.db →
    want defaultSize perKey (splitName e.name) = want defaultSize perKey e.key ∧
      e.size = want defaultSize perKey e.key

theorem readable_iff {e e' : Entry} {r : Option ResizeRecord} (hkey : e'.key = e.key)
    (hsize : e'.size = want defaultSize perKey (splitName e.name))
    (hr : r = if e.size = e'.size then none else some ⟨splitName e.name, e.size, e'.size⟩) :
    e'.size = want defaultSize perKey e'.key ∧ r = record e e' ↔ Readable defaultSize perKey e := by
  rw [hkey, hr, record, Readable, ← hsize]
  by_cases hslash : slash ∈ e.key.db
  · have hne := splitName_ne hslash e.name
    by_cases hsame : e.size = e'.size
    · simp only [hslash, hsame, if_true, forall_true_left]
      exact ⟨fun h ↦ ⟨h.1, h.1⟩, fun h ↦ ⟨h.1, trivial⟩⟩
    · simp only [hslash, if_neg hsame, forall_true_left]
      refine ⟨fun h ↦ ?_, fun h ↦ absurd (h.2.trans h.1.symm) hsame⟩
      have hrecord := Option.some.inj h.2
      exact absurd (congrArg ResizeRecord.key hrecord) hne
  · have hown : splitName e.name = e.key := splitName_string hslash
    rw [hsize, hown]
    simp [hslash]

theorem applyAll_spec (h : 0 < defaultSize) (perKey : Option (Key → ℤ)) (pools : List Entry) :
    ∃ pools' records, applyAll defaultSize perKey pools = some (pools', records) ∧
      pools'.map Entry.key = pools.map Entry.key ∧
      (Reloaded defaultSize perKey pools pools' records ↔ ∀ e ∈ pools, Readable defaultSize perKey e) := by
  induction pools with
  | nil => exact ⟨[], [], rfl, rfl, ⟨fun _ ↦ by simp, fun _ ↦ ⟨by simp, rfl⟩⟩⟩
  | cons e pools ih =>
    obtain ⟨e', r, happly, hkey, hsize, hr⟩ := applyTo_spec h perKey e
    obtain ⟨pools', records, hall, hkeys, hiff⟩ := ih
    refine ⟨e' :: pools', r.toList ++ records, ?_, ?_, ?_⟩
    · rw [applyAll, happly, Option.bind_some, hall]
      rfl
    · rw [List.map_cons, List.map_cons, hkey, hkeys]
    · have hfirst := readable_iff hkey hsize hr
      have hzip : ((e :: pools).zip (e' :: pools')).filterMap (fun x ↦ record x.1 x.2) =
          (record e e').toList ++ (pools.zip pools').filterMap fun x ↦ record x.1 x.2 := by
        rw [List.zip_cons_cons, List.filterMap_cons]
        cases record e e' <;> rfl
      -- both say that there is a record if the size has changed
      have hlength : r.toList.length = (record e e').toList.length := by
        rw [hr, record]
        split <;> rfl
      rw [List.forall_mem_cons, ← hiff, ← hfirst]
      constructor
      · intro hreloaded
        obtain ⟨hsizes, hrecords⟩ := hreloaded
        rw [hzip] at hrecords
        obtain ⟨hhead, htail⟩ := List.append_inj hrecords hlength
        have hrecord : r = record e e' := by
          have hheads := congrArg List.head? hhead
          rw [Option.head?_toList, Option.head?_toList] at hheads
          exact hheads
        exact ⟨⟨hsizes e' List.mem_cons_self, hrecord⟩, fun e he ↦ hsizes e (List.mem_cons_of_mem _ he), htail⟩
      · intro hparts
        obtain ⟨⟨hsize', hrecord⟩, hsizes, hrecords⟩ := hparts
        refine ⟨List.forall_mem_cons.mpr ⟨hsize', hsizes⟩, ?_⟩
        rw [hzip, hrecord, hrecords]

/-- `ApplyDefaultSize` gives every pool the size for its own key, and reports the changes under the keys of the pools,
if and only if the pools are `Readable`. -/
theorem applyDefaultSize_reloaded (h : 0 < defaultSize) (perKey : Option (Key → ℤ)) (m : Manager) :
    ∃ m' records, applyDefaultSize defaultSize perKey m = some (m', records) ∧ m'.defaultPoolSize = defaultSize ∧
      m'.pools.map Entry.key = m.pools.map Entry.key ∧
      (Reloaded defaultSize perKey m.pools m'.pools records ↔ ∀ e ∈ m.pools, Readable defaultSize perKey e) := by
  obtain ⟨pools', records, hall, hkeys, hiff⟩ := applyAll_spec h perKey m.pools
  refine ⟨⟨defaultSize, pools'⟩, records, ?_, rfl, hkeys, hiff⟩
  rw [applyDefaultSize, hall]
  rfl

def twenty (k : Key) : Entry := ⟨k, (new ⟨20, 0, 0, 0, 0, 0, 0⟩).shared, le_refl 0⟩

def fiveForSlashed (k : Key) : ℤ := if k.db = ascii "a/b" then 5 else 0

def slashed : Key := ⟨ascii "a/b", ascii "c"⟩

theorem applyDefaultSize_reloaded_plain :
    ∃ m' records, applyDefaultSize 10 (some fiveForSlashed) ⟨20, [twenty ⟨ascii "a", ascii "c"⟩]⟩ = some (m', records) ∧
      Reloaded 10 (some fiveForSlashed) [twenty ⟨ascii "a", ascii "c"⟩] m'.pools records := by
  obtain ⟨m', records, hm', -, -, hiff⟩ := applyDefaultSize_reloaded (by decide : (0 : ℤ) < 10) (some fiveForSlashed)
    ⟨20, [twenty ⟨ascii "a", ascii "c"⟩]⟩
  refine ⟨m', records, hm', hiff.mpr ?_⟩
  intro e he
  rw [List.mem_singleton.mp he]
  intro hslash
  exact absurd hslash (by decide)

/-- The pool of `a/b` gets the default size, and the change is reported for a database `a`. -/
theorem applyDefaultSize_slashed :
    (applyDefaultSize 10 (some fiveForSlashed) ⟨20, [twenty slashed]⟩).map (fun r ↦ (r.1.pools.map Entry.size, r.2)) =
        some ([10], [⟨⟨ascii "a", ascii "b/c"⟩, 20, 10⟩]) ∧
      want 10 (some fiveForSlashed) slashed = 5 := by
  exact ⟨by decide, by decide⟩

end Reloads

end PgRouter.Pool.Reload
