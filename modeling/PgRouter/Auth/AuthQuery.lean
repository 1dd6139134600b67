import PgRouter.Auth.Secrets
import PgRouter.Library.Records

namespace PgRouter.Auth.AuthQuery

open Client.Protocol Secrets Library.Records Library.Runs

section Code

inductive Message
  | dataRow (values : List Text)
  | errorResponse (message : Text)
  | readyForQuery
  | other
  deriving DecidableEq

/-- What the upstream of a database does with a query: the connection to it may fail, and so may the stream
of its messages, which then ends without `readyForQuery`. -/
inductive Upstream
  | dialFails
  | sendFails
  | answers (messages : List Message)
  deriving DecidableEq

inductive LookupError
  | invalidUsername (username : Text)
  | dial
  | send
  | recv
  | upstream (message : Text)
  | noRow
  | rows (count : ℕ)
  deriving DecidableEq

structure Drained where
  firstRow : Option (List Text)
  extraRows : ℕ
  errResp : Text

def drain (d : Drained) : List Message → Option Drained
  | [] => none
  | .dataRow values :: rest =>
    match d.firstRow with
    | none => drain { d with firstRow := some values } rest
    | some _ => drain { d with extraRows := d.extraRows + 1 } rest
  | .errorResponse message :: rest => drain { d with errResp := message } rest
  | .readyForQuery :: _ => some d
  | .other :: rest => drain d rest

variable (decode : Text → Option Text)

def entryOf (d : Drained) : Except LookupError UserEntry :=
  if d.errResp ≠ [] then .error (.upstream d.errResp)
  else
    match d.firstRow with
    | some (name :: secret :: _) =>
      if 0 < d.extraRows then .error (.rows (d.extraRows + 1)) else .ok (classifySecret decode name secret)
    | _ => .error .noRow

def fetch : Upstream → Except LookupError UserEntry
  | .dialFails => .error .dial
  | .sendFails => .error .send
  | .answers messages =>
    match drain ⟨none, 0, []⟩ messages with
    | none => .error .recv
    | some d => entryOf decode d

def isIdentByte (c : UInt8) : Bool :=
  (0x41 ≤ c && c ≤ 0x5a) || (0x61 ≤ c && c ≤ 0x7a) || (0x30 ≤ c && c ≤ 0x39) || c == 0x5f || c == 0x24

def validIdent (s : Text) : Bool := s.length ≠ 0 && s.length ≤ 63 && s.all isIdentByte

def substituteOne : Text → Text → Text
  | 0x24 :: 0x31 :: rest, v => 0x27 :: (v ++ 0x27 :: substituteOne rest v)
  | c :: rest, v => c :: substituteOne rest v
  | [], _ => []

structure CachedEntry where
  entry : UserEntry
  storedAt : ℤ

structure AuthQueryFetcher where
  query : Text
  ttl : ℤ
  cache : Text → Option CachedEntry

/-- Times are in nanoseconds. -/
def newAuthQueryFetcher (query : Text) (ttl : ℤ) : AuthQueryFetcher :=
  ⟨query, if ttl = 0 then 60 * 10 ^ 9 else ttl, fun _ ↦ none⟩

/-- A call of `Lookup`, with what the upstream of the database does if it is asked. -/
structure Call where
  time : ℤ
  db : Text
  user : Text
  upstream : Upstream

/-- The query that was sent to the upstream, and what the caller gets. -/
structure Answer where
  asked : Option Text
  result : Except LookupError UserEntry

namespace AuthQueryFetcher

def cached (f : AuthQueryFetcher) (time : ℤ) (user : Text) : Option CachedEntry :=
  (f.cache user).filter fun e ↦ time - e.storedAt < f.ttl

def asks (f : AuthQueryFetcher) (user : Text) : Upstream → Option Text
  | .dialFails => none
  | _ => some (substituteOne f.query user)

def lookup (f : AuthQueryFetcher) (c : Call) : AuthQueryFetcher × Answer :=
  if !validIdent c.user then (f, ⟨none, .error (.invalidUsername c.user)⟩)
  else
    match f.cached c.time c.user with
    | some e => (f, ⟨none, .ok e.entry⟩)
    | none =>
      match fetch decode c.upstream with
      | .error e => (f, ⟨f.asks c.user c.upstream, .error e⟩)
      | .ok entry =>
        ({ f with cache := Function.update f.cache c.user (some ⟨entry, c.time⟩) },
          ⟨f.asks c.user c.upstream, .ok entry⟩)

end AuthQueryFetcher

def step (f : AuthQueryFetcher) (c : Call) : Option (AuthQueryFetcher × Answer) := some (f.lookup decode c)

end Code

section Answers

abbrev Lookup := Entry AuthQueryFetcher Call Answer

abbrev History := Record AuthQueryFetcher Call Answer

variable (decode : Text → Option Text)

/-- In this call, the upstream of the database was asked about the user and returned a row for the entry. -/
structure Supplies (query : Text) (x : Lookup) (db user : Text) (entry : UserEntry) : Prop where
  db_eq : x.event.db = db
  user_eq : x.event.user = user
  asked_eq : x.output.asked = some (substituteOne query user)
  row : ∃ messages name secret rest, x.event.upstream = .answers messages ∧
    .dataRow (name :: secret :: rest) ∈ messages ∧ entry = classifySecret decode name secret

/-- A successful call returns what the upstream of its own database has supplied for its user, in this call
or at most the TTL before it. -/
def Own (f : AuthQueryFetcher) (before : List Lookup) (x : Lookup) : Prop :=
  ∀ entry, x.output.result = .ok entry → ∃ y ∈ before ++ [x],
    Supplies decode f.query y x.event.db x.event.user entry ∧
      y.event.time ≤ x.event.time ∧ x.event.time - y.event.time ≤ max f.ttl 0

def answered (x : Lookup) : Bool :=
  match x.output with
  | ⟨some _, .ok _⟩ => true
  | _ => false

def onward (h : History) (c : Call) : Bool := h.past.all fun x ↦ x.event.time ≤ c.time

/-- No upstream of another database has answered about the user within the TTL. -/
def undisturbed (h : History) (c : Call) : Bool :=
  h.past.all fun x ↦ !(answered x && x.event.user == c.user && c.time - x.event.time < h.current.ttl) ||
    x.event.db == c.db

variable {decode}

theorem row_of_drain {messages : List Message} {d d' : Drained} (h : drain d messages = some d') :
    ∀ row, d'.firstRow = some row → d.firstRow = some row ∨ .dataRow row ∈ messages := by
  intro row hrow
  induction messages generalizing d with
  | nil => cases h
  | cons m rest ih =>
    cases m with
    | dataRow values =>
      rw [drain] at h
      split at h
      case h_1 hnone =>
        rcases ih h with hfirst | hmem
        · obtain rfl : values = row := Option.some.inj hfirst
          exact .inr List.mem_cons_self
        · exact .inr (List.mem_cons_of_mem _ hmem)
      case h_2 =>
        rcases ih h with hfirst | hmem
        · exact .inl hfirst
        · exact .inr (List.mem_cons_of_mem _ hmem)
    | errorResponse message | other =>
      rcases ih h with hfirst | hmem
      · exact .inl hfirst
      · exact .inr (List.mem_cons_of_mem _ hmem)
    | readyForQuery =>
      cases h
      exact .inl hrow

variable {c : Call} {h : History} {r : AuthQueryFetcher × Answer} {f : AuthQueryFetcher} {entry : UserEntry}

theorem row_of_fetch {u : Upstream} (h : fetch decode u = .ok entry) :
    ∃ messages name secret rest, u = .answers messages ∧ .dataRow (name :: secret :: rest) ∈ messages ∧
      entry = classifySecret decode name secret := by
  cases u with
  | dialFails => cases h
  | sendFails => cases h
  | answers messages =>
    rw [fetch] at h
    split at h
    · cases h
    case h_2 d hdrain =>
      rw [entryOf] at h
      split at h
      · cases h
      · split at h
        case h_1 name secret rest hrow =>
          split at h
          · cases h
          · obtain rfl : _ = entry := Except.ok.inj h
            rcases row_of_drain hdrain _ hrow with hnone | hmem
            · cases hnone
            · exact ⟨messages, name, secret, rest, rfl, hmem, rfl⟩
        · cases h

inductive Looks (decode : Text → Option Text) (f : AuthQueryFetcher) (c : Call) : AuthQueryFetcher × Answer → Prop
  | refused (asked : Option Text) (e : LookupError) : Looks decode f c (f, ⟨asked, .error e⟩)
  | cached {e : CachedEntry} : f.cache c.user = some e → c.time - e.storedAt < f.ttl →
      Looks decode f c (f, ⟨none, .ok e.entry⟩)
  | fetched {entry : UserEntry} : fetch decode c.upstream = .ok entry →
      Looks decode f c ({ f with cache := Function.update f.cache c.user (some ⟨entry, c.time⟩) },
        ⟨some (substituteOne f.query c.user), .ok entry⟩)

theorem looks (f : AuthQueryFetcher) (c : Call) : Looks decode f c (f.lookup decode c) := by
  rw [AuthQueryFetcher.lookup]
  split
  · exact .refused _ _
  · split
    case h_1 e hcached =>
      obtain ⟨he, hfresh⟩ := Option.filter_eq_some_iff.mp hcached
      exact .cached he (of_decide_eq_true hfresh)
    case h_2 =>
      split
      · exact .refused _ _
      case h_2 entry hfetch =>
        obtain ⟨messages, _, _, _, hu, -, -⟩ := row_of_fetch hfetch
        have hasks : f.asks c.user c.upstream = some (substituteOne f.query c.user) := by
          rw [hu]
          rfl
        rw [hasks]
        exact .fetched hfetch

/-- Every entry in the cache has been supplied, by the upstream of some database. -/
structure Supplied (decode : Text → Option Text) (f : AuthQueryFetcher) (h : History) : Prop where
  query : h.current.query = f.query
  ttl : h.current.ttl = f.ttl
  cache : ∀ user e, h.current.cache user = some e → ∃ y ∈ h.past, answered y = true ∧
    Supplies decode f.query y y.event.db user e.entry ∧ y.event.time = e.storedAt

theorem supplied_new (query : Text) (ttl : ℤ) :
    Supplied decode (newAuthQueryFetcher query ttl) (start (newAuthQueryFetcher query ttl)) where
  query := rfl
  ttl := rfl
  cache := by
    intro user e h
    cases h

theorem supplies_fetched (h : fetch decode c.upstream = .ok entry) (after : AuthQueryFetcher) (query : Text) :
    Supplies decode query ⟨f, c, after, ⟨some (substituteOne query c.user), .ok entry⟩⟩ c.db c.user entry where
  db_eq := rfl
  user_eq := rfl
  asked_eq := rfl
  row := row_of_fetch h

theorem supplied_step (hinv : Supplied decode f h) (hlooks : Looks decode h.current c r) :
    Supplied decode f ⟨r.1, h.past ++ [⟨h.current, c, r.1, r.2⟩]⟩ := by
  have hkept : ∀ user e, h.current.cache user = some e → ∃ y ∈ h.past ++ [⟨h.current, c, r.1, r.2⟩],
      answered y = true ∧ Supplies decode f.query y y.event.db user e.entry ∧ y.event.time = e.storedAt := by
    intro user e he
    obtain ⟨y, hy, hsupplied⟩ := hinv.cache user e he
    exact ⟨y, List.mem_append_left _ hy, hsupplied⟩
  cases hlooks with
  | refused | cached => exact ⟨hinv.query, hinv.ttl, hkept⟩
  | @fetched entry hfetch =>
    refine ⟨hinv.query, hinv.ttl, fun user e he ↦ ?_⟩
    dsimp only at he
    by_cases huser : user = c.user
    · subst huser
      rw [Function.update_self] at he
      obtain rfl : _ = e := Option.some.inj he
      refine ⟨_, List.mem_append_right _ List.mem_cons_self, rfl, ?_, rfl⟩
      rw [hinv.query]
      exact supplies_fetched hfetch _ _
    · rw [Function.update_of_ne huser] at he
      exact hkept user e he

theorem own_step (hinv : Supplied decode f h) (hlooks : Looks decode h.current c r) (honward : onward h c = true)
    (hundisturbed : undisturbed h c = true) : Own decode f h.past ⟨h.current, c, r.1, r.2⟩ := by
  intro entry hentry
  cases hlooks with
  | refused asked e => cases hentry
  | @cached e he hfresh =>
    obtain rfl : e.entry = entry := Except.ok.inj hentry
    obtain ⟨y, hy, hanswered, hsupplies, htime⟩ := hinv.cache c.user e he
    have hdb : y.event.db = c.db := by
      have h := List.all_eq_true.mp hundisturbed y hy
      simpa [hanswered, hsupplies.user_eq, htime, hfresh] using h
    have hle : y.event.time ≤ c.time := of_decide_eq_true (List.all_eq_true.mp honward y hy)
    refine ⟨y, List.mem_append_left _ hy, ?_, hle, ?_⟩
    · rw [← hdb]
      exact hsupplies
    · rw [hinv.ttl] at hfresh
      rw [htime]
      exact le_max_of_le_left hfresh.le
  | @fetched entry' hfetch =>
    obtain rfl : entry' = entry := Except.ok.inj hentry
    refine ⟨_, List.mem_append_right _ List.mem_cons_self, ?_, le_refl _, ?_⟩
    · rw [hinv.query]
      exact supplies_fetched hfetch _ _
    · rw [sub_self]
      exact le_max_right _ _

variable (decode)

/-- In every sequence of calls in which no other database has answered about the same user within the TTL,
each successful call returns an entry of its own database. -/
theorem own_of_undisturbed {query : Text} {ttl : ℤ} {calls : List Call} {h : History}
    (hrun : Run (recorded (step decode)) (fun h c ↦ onward h c && undisturbed h c)
      (start (newAuthQueryFetcher query ttl)) calls h)
    {before after : List Lookup} {x : Lookup} (hsplit : h.past = before ++ x :: after) :
    Own decode (newAuthQueryFetcher query ttl) before x := by
  refine @recorded_each _ _ _ _ _ (Supplied decode (newAuthQueryFetcher query ttl)) _ _ _ _ ?_
    (supplied_new query ttl) hrun _ _ _ hsplit
  intro h c r hinv hguard hr
  obtain ⟨honward, hundisturbed⟩ := (Bool.and_eq_true ..).mp hguard
  obtain rfl : h.current.lookup decode c = r := Option.some.inj hr
  have hlooks : Looks decode h.current c (h.current.lookup decode c) := looks h.current c
  exact ⟨supplied_step hinv hlooks, own_step hinv hlooks honward hundisturbed⟩

section Cases

def row (secret : String) : Upstream := .answers [.dataRow [ascii "alice", ascii secret], .readyForQuery]

def twoDatabases : List Call :=
  [⟨0, ascii "sales", ascii "alice", row "red"⟩, ⟨1, ascii "payroll", ascii "alice", row "blue"⟩]

/-- The second database is not asked: its user is checked against the secret of the first. -/
theorem twoDatabases_shared :
    ∃ h before x, Run (recorded (step noBytes)) onward
        (start (newAuthQueryFetcher (ascii "SELECT $1") 0)) twoDatabases h ∧
      h.past = before ++ [x] ∧ ¬ Own noBytes (newAuthQueryFetcher (ascii "SELECT $1") 0) before x := by
  have hrun : Run (recorded (step noBytes)) onward (start (newAuthQueryFetcher (ascii "SELECT $1") 0)) twoDatabases _ :=
    run_of_exec rfl
  refine ⟨_, [_], _, hrun, rfl, fun hown ↦ ?_⟩
  obtain ⟨y, hy, hsupplies, -, -⟩ := hown (classifySecret noBytes (ascii "alice") (ascii "red")) rfl
  rcases List.mem_append.mp hy with hy | hy
  · cases List.mem_singleton.mp hy
    exact absurd hsupplies.db_eq (by decide)
  · cases List.mem_singleton.mp hy
    exact absurd hsupplies.asked_eq (by decide)

def oneDatabase : List Call :=
  [⟨0, ascii "sales", ascii "alice", row "red"⟩, ⟨1, ascii "sales", ascii "alice", row "blue"⟩]

theorem own_oneDatabase :
    ∃ h before x, Run (recorded (step noBytes)) (fun h c ↦ onward h c && undisturbed h c)
        (start (newAuthQueryFetcher (ascii "SELECT $1") 0)) oneDatabase h ∧
      h.past = before ++ [x] ∧ Own noBytes (newAuthQueryFetcher (ascii "SELECT $1") 0) before x := by
  have hrun : Run (recorded (step noBytes)) (fun h c ↦ onward h c && undisturbed h c)
      (start (newAuthQueryFetcher (ascii "SELECT $1") 0)) oneDatabase _ := run_of_exec rfl
  exact ⟨_, [_], _, hrun, rfl, own_of_undisturbed noBytes hrun (List.append_assoc [_] [_] []).symm⟩

end Cases

end Answers

end PgRouter.Auth.AuthQuery
