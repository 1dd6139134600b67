import PgRouter.Client.Rejections
import PgRouter.Client.Replicas
import PgRouter.Sql.Analysis

namespace PgRouter.Client.Fence

open Library.Runs Library.Records Library.Texts Protocol Prepared Servers Handler Handling Attachment Turns
open Rejections Client.Replicas

section Texts

open Sql.Tokens Sql.Leads Sql.Lexing Sql.Regexp Sql.Classifier Sql.Analysis

/-- The text of the tokens is read as these tokens where `rest` follows. -/
def lexedBefore (rest : Text) (mode : Option Bool) : List Token → Bool
  | [] => true
  | t :: ts =>
    t.valid && t.endsBefore (render ts ++ rest) && t.allowed mode && lexedBefore rest (t.gap mode) ts

/-- A statement that begins with `BEGIN` or `START TRANSACTION`. -/
def opens (statement : List Token) : Bool :=
  match statement.dropWhile isNoise with
  | .ident name :: ts =>
    spells "BEGIN" name || spells "START" name &&
      match ts.dropWhile isNoise with
      | .ident name :: _ => spells "TRANSACTION" name
      | _ => false
  | _ => false

/-- One of the statements, which semicolons outside of literals and comments separate, opens a transaction. What
follows it need not be well formed. -/
def OpensTransaction (text : Text) : Prop :=
  ∃ tokens rest, text = render tokens ++ rest ∧ lexedBefore rest none tokens = true ∧
    (tokens.splitOn (.other 0x3b)).any opens = true

variable {rest : Text} {verb ts : List Token}

/-- `BEGIN`, or `START TRANSACTION` with nothing but `\s` between the words. -/
inductive Verb : List Token → Prop
  | begin {name : Text} : spells "BEGIN" name = true → Verb [.ident name]
  | start {name name' spaces : Text} : spells "START" name = true → spells "TRANSACTION" name' = true → spaces ≠ [] →
      spaces.all isSpace = true → Verb (.ident name :: (spaces.map .space ++ [.ident name']))

theorem Verb.opens (h : Verb verb) (ts : List Token) : Fence.opens (verb ++ ts) = true := by
  unfold Fence.opens
  cases h with
  | begin h => simp [isNoise, h]
  | @start _ _ spaces h h' _ _ =>
    have hspaces : ∀ t ∈ spaces.map Token.space, isNoise t = true := by simp [isNoise]
    simp [isNoise, List.dropWhile_append_of_pos hspaces, h, h']

theorem lexedBefore_spaces {spaces : Text} (h : lexedBefore rest none (spaces.map .space ++ ts) = true) :
    lexedBefore rest none ts = true := by
  induction spaces with
  | nil => exact h
  | cons c spaces ih =>
    simp only [List.map_cons, List.cons_append, lexedBefore, Bool.and_eq_true] at h
    exact ih h.2

theorem spelled {keyword : String} {name : Text} (h : spells keyword name = true)
    (hends : (Token.ident name).endsBefore rest = true)
    (hletters : (ascii keyword).all isLetter = true := by decide) (hne : ascii keyword ≠ [] := by decide) :
    Spelled keyword name rest := by
  refine ⟨h, hletters, hne, ?_⟩
  simp only [Token.endsBefore, Bool.and_eq_true, Bool.not_eq_true'] at hends
  cases rest with
  | nil => rfl
  | cons c rest =>
    have hbyte := forall_byte (p := fun c ↦ isIdentCont c || !isWord c) (by decide +kernel) c
    rw [show isIdentCont c = false from hends.1] at hbyte
    simpa using hbyte

/-- The fence sees a text that opens a transaction with the first statement behind the noise that the router skips. -/
theorem isExplicitBeginSQL_of_opens {text : Text} (hverb : Verb verb)
    (hlexed : lexedBefore rest none (verb ++ ts) = true)
    (htext : stripLeadingNoise text = render (verb ++ ts) ++ rest) :
    OpensTransaction (stripLeadingNoise text) ∧ isExplicitBeginSQL text = true := by
  refine ⟨⟨_, rest, htext, hlexed, ?_⟩, ?_⟩
  · have hsep : Token.other 0x3b ∉ verb := by cases hverb <;> simp
    rw [List.any_eq_true]
    by_cases hts : Token.other 0x3b ∈ ts
    · obtain ⟨as, bs, rfl, has⟩ := List.eq_append_cons_of_mem hts
      refine ⟨_, ?_, hverb.opens as⟩
      rw [← List.append_assoc, List.splitOn_append_cons_self_of_not_mem (by simp [hsep, has])]
      exact List.mem_cons_self
    · refine ⟨_, ?_, hverb.opens ts⟩
      rw [List.splitOn_eq_singleton (by simp [hsep, hts])]
      exact List.mem_singleton_self _
  · cases hverb with
    | begin h =>
      simp only [List.cons_append, List.nil_append, lexedBefore, Bool.and_eq_true] at hlexed
      exact isExplicitBeginSQL_begin (htext.trans (List.append_assoc ..)) (spelled h hlexed.1.1.2)
    | @start name name' spaces h h' hne hspaces =>
      obtain ⟨x, spaces, rfl⟩ := List.exists_cons_of_ne_nil hne
      simp only [List.cons_append, List.append_assoc, List.nil_append, lexedBefore, Bool.and_eq_true] at hlexed
      have hrender : render ((x :: spaces).map .space ++ .ident name' :: ts) ++ rest =
          x :: (spaces ++ (name' ++ (render ts ++ rest))) := by simp [render, Token.text, List.flatMap_map]
      have hend := lexedBefore_spaces hlexed.2
      simp only [lexedBefore, Bool.and_eq_true] at hend
      refine isExplicitBeginSQL_start ?_ (spelled h (hrender ▸ hlexed.1.1.2)) hspaces (spelled h' hend.1.1.2)
      rw [htext, ← hrender]
      simp [render, Token.text]

end Texts

variable {γ : Type} {sql : SQL γ} {s s' : Session γ} {r : Res γ} {P : Text → Prop} {msg : FrontendMessage}

section Messages

def Carries (P : Text → Prop) (m : FrontendMessage) : Prop := ∃ text, Session.statementOf m = some text ∧ P text

def Refers (P : Text → Prop) (prepCache : Option PrepareCache) (msg : FrontendMessage) : Prop :=
  ∃ c stmt, prepCache = some c ∧ boundStmt c msg = some stmt ∧ P stmt.query

theorem carries_of_forward {m : FrontendMessage} {b : ℕ} (hraw : s.cfg.rawPassthrough = false)
    (hmem : .forward b m ∈ (s.forwardMessage sql msg).2) (hm : Carries P m) :
    Carries P msg ∨ Refers P s.prepCache msg := by
  obtain ⟨text, htext, hP⟩ := hm
  unfold Session.forwardMessage at hmem
  rw [if_neg (by simp [hraw])] at hmem
  split at hmem
  · rw [Res.andThen, List.append_nil] at hmem
    cases List.mem_singleton.mp (mem_send hmem)
    exact .inl ⟨text, htext, hP⟩
  · next clientPrep hprep =>
    rw [Res.andThen, List.append_nil] at hmem
    obtain hstmt | ⟨stmt, hstmt, rfl⟩ := statement_intercept (mem_send hmem) htext
    · exact .inl ⟨text, hstmt, hP⟩
    · exact .inr ⟨clientPrep, stmt, hprep, hstmt, hP⟩

theorem refers_notePrep {prepCache : Option PrepareCache} (h : Refers P (prepCache.map (notePrep sql msg)) msg) :
    Refers P prepCache msg := by
  obtain ⟨c, stmt, hc, hstmt, hP⟩ := h
  obtain ⟨c, rfl, rfl⟩ := Option.map_eq_some_iff.mp hc
  refine ⟨c, stmt, rfl, ?_, hP⟩
  cases msg <;> exact hstmt

theorem refers_of_observed (hobs : Observed sql msg s s') (h : Refers P s'.prepCache msg) :
    Refers P s.prepCache msg := by
  cases hraw : s.cfg.rawPassthrough with
  | true =>
    rw [hobs.rawPrep hraw] at h
    exact h
  | false =>
    rw [hobs.prepCache hraw] at h
    exact refers_notePrep h

end Messages

section Steps

structure Clear (P : Text → Prop) (s : Session γ) : Prop where
  held : ∀ msg, awaited s.phase = some msg → ¬(Carries P msg ∨ Refers P s.prepCache msg)
  buffered : ∀ m ∈ s.writeBuf, ¬Carries P m

def Clean (P : Text → Prop) (acts : List Act) : Prop := ∀ b m, .forward b m ∈ acts → ¬Carries P m

theorem clean_quiet {acts : List Act} (h : Quiet acts) : Clean P acts := fun b m hmem ↦ absurd hmem (h b m)

theorem clean_append {as bs : List Act} (has : Clean P as) (hbs : Clean P bs) : Clean P (as ++ bs) := by
  intro b m hmem
  obtain hmem | hmem := List.mem_append.mp hmem
  · exact has b m hmem
  · exact hbs b m hmem

theorem Clear.unheld (hs : Clear P s) (hbuf : s'.writeBuf = s.writeBuf) (hphase : waiting s'.phase = false) :
    Clear P s' := by
  refine ⟨fun msg hmsg ↦ ?_, ?_⟩
  · rw [awaited_eq_none hphase] at hmsg
    cases hmsg
  · rw [hbuf]
    exact hs.buffered

theorem clear_idles {told : List UInt8} (hs : Clear P s) (h : Idles told s r) : Clear P r.1 ∧ Clean P r.2 :=
  ⟨hs.unheld h.writeBuf h.phase, clean_quiet h.quiet⟩

theorem clear_flush (hs : Clear P s) : Clear P s.flush.1 := by
  have hcore := core_flush s
  have hprep : s.flush.1.prepCache = s.prepCache := congrArg Core.prepCache hcore
  have hbuf : s.flush.1.writeBuf = s.writeBuf := congrArg Core.writeBuf hcore
  refine ⟨?_, ?_⟩
  · rw [Session.flush_phase, hprep]
    exact hs.held
  · rw [hbuf]
    exact hs.buffered

theorem writeBuf_send (ms : List FrontendMessage) (s : Session γ) : (s.send ms).1.writeBuf = s.writeBuf := by
  unfold Session.send
  split <;> rfl

theorem writeBuf_afterForward (msg : FrontendMessage) (s : Session γ) : (s.afterForward msg).writeBuf = s.writeBuf := by
  unfold Session.afterForward
  split <;> rfl

theorem clear_forwardMessage (hs : Clear P s) (hcarries : ¬Carries P msg) (hrefers : ¬Refers P s.prepCache msg) :
    Clear P (s.forwardMessage sql msg).1 ∧ Clean P (s.forwardMessage sql msg).2 := by
  have hphase : waiting (s.forwardMessage sql msg).1.phase = false := waiting_forwardMessage msg s
  cases hraw : s.cfg.rawPassthrough with
  | true =>
    rw [Session.forwardMessage, if_pos hraw] at hphase ⊢
    have hbuf : Clear P { s with writeBuf := s.writeBuf ++ [msg] } := by
      refine ⟨hs.held, fun m hm ↦ ?_⟩
      obtain hm | hm := List.mem_append.mp hm
      · exact hs.buffered m hm
      · rw [List.mem_singleton.mp hm]
        exact hcarries
    exact ⟨hbuf.unheld (writeBuf_afterForward msg _) hphase, clean_quiet quiet_nil⟩
  | false =>
    have hclean : Clean P (s.forwardMessage sql msg).2 := by
      intro b m hmem hm
      obtain h | h := carries_of_forward hraw hmem hm
      · exact hcarries h
      · exact hrefers h
    refine ⟨hs.unheld ?_ hphase, hclean⟩
    rw [Session.forwardMessage, if_neg (by simp [hraw])]
    split
    · exact (writeBuf_afterForward msg _).trans (writeBuf_send _ s)
    · exact (writeBuf_afterForward msg _).trans (writeBuf_send _ _)

theorem clear_attach {pool : ℕ} (hs : Clear P s) (hphase : s.phase = .acquiring msg pool) (b : Backend) :
    Clear P (s.attach sql msg pool b).1 ∧ Clean P (s.attach sql msg pool b).2 := by
  have hheld := hs.held msg (by rw [hphase]; rfl)
  have hadopt : Clear P (s.adopt pool b) := ⟨hs.held, hs.buffered⟩
  unfold Session.attach
  split
  · exact clear_forwardMessage hadopt (fun h ↦ hheld (.inl h)) fun h ↦ hheld (.inr h)
  · refine ⟨⟨fun msg' hmsg ↦ ?_, hs.buffered⟩, clean_quiet quiet_nil⟩
    obtain rfl : msg = msg' := Option.some.inj hmsg
    exact hheld

theorem clear_writeBatch (hs : Clear P s) (ok : Bool) :
    Clear P (s.writeBatch.andThen fun s ↦ s.startDrain ok).1 ∧
      Clean P (s.writeBatch.andThen fun s ↦ s.startDrain ok).2 := by
  have hbatch : (∀ m ∈ s.writeBatch.1.writeBuf, ¬Carries P m) ∧ Clean P s.writeBatch.2 := by
    unfold Session.writeBatch
    split
    · split
      · exact ⟨hs.buffered, clean_quiet quiet_nil⟩
      · refine ⟨by simp, fun b m hmem ↦ ?_⟩
        obtain ⟨m', hm', hmem⟩ := List.mem_flatMap.mp hmem
        simp only [List.mem_cons, Act.forward.injEq, reduceCtorEq, List.not_mem_nil, or_false] at hmem
        rw [hmem.2]
        exact hs.buffered m' hm'
    · exact ⟨(clear_flush hs).buffered, clean_quiet (quiet_flush s)⟩
  have hdrain := idles_startDrain ok s.writeBatch.1
  refine ⟨⟨fun msg hmsg ↦ ?_, ?_⟩, clean_append hbatch.2 (clean_quiet hdrain.quiet)⟩
  · rw [Res.andThen, awaited_eq_none hdrain.phase] at hmsg
    cases hmsg
  · rw [Res.andThen, hdrain.writeBuf]
    exact hbatch.1

/-- The fence looks at the message and turns it down. In `serveRaw` it looks at a `Query` only, and not without the
tracking of settings. -/
def sees (sql : SQL γ) (cfg : PooledConfig) (msg : FrontendMessage) : Bool :=
  (Session.statementOf msg).any fun text ↦
    (!cfg.rawPassthrough || cfg.gucTracking && Session.isQuery msg) && sql.isExplicitBeginSQL text

/-- Before a message of the client: the fence sees such a text, and the message does not refer to one. -/
def Fenced (sql : SQL γ) (P : Text → Prop) (s : Session γ) : Input → Prop
  | .message msg _ => (Carries P msg → sees sql s.cfg msg = true) ∧ ¬Refers P s.prepCache msg
  | _ => True

theorem gated_of_sees {cfg : PooledConfig} (hmode : cfg.isStatementMode = true) (h : sees sql cfg msg = true)
    (env : Env) : gated sql cfg env msg = true := by
  obtain ⟨text, htext, h⟩ := (Option.any_eq_true ..).mp h
  rw [Bool.and_eq_true] at h
  unfold gated
  rw [htext]
  cases hraw : cfg.rawPassthrough with
  | false => simp [hmode, h.2]
  | true =>
    have hquery : cfg.gucTracking = true ∧ Session.isQuery msg = true := by simpa [hraw] using h.1
    have hextracted : Session.extracted sql cfg msg = some text := by
      cases msg with
      | query t =>
        obtain rfl : t = text := Option.some.inj htext
        simp [Session.extracted, hquery.1, hmode]
      | _ => cases hquery.2
    simp [hmode, hquery, hextracted, h.2]

/-- Outside of `serveRaw` the fence sees a message that opens a transaction with its first statement. -/
theorem sees_of_verb {order : List (Text × Text) → List (Text × Text)} {cfg : PooledConfig} {text rest : Text}
    {verb ts : List Sql.Tokens.Token} (hraw : cfg.rawPassthrough = false) (hmsg : Session.statementOf msg = some text)
    (hverb : Verb verb) (hlexed : lexedBefore rest none (verb ++ ts) = true)
    (htext : Sql.Lexing.stripLeadingNoise text = Sql.Tokens.render (verb ++ ts) ++ rest) :
    sees (Sql.routerSQL order) cfg msg = true := by
  rw [sees, hmsg, Option.any_some, hraw]
  exact (isExplicitBeginSQL_of_opens hverb hlexed htext).2

theorem clear_refused (hs : Clear P s) (hbuf : s'.writeBuf = s.writeBuf) (env : Env) (code text : String) :
    Clear P (refused env code text s').1 ∧ Clean P (refused env code text s').2 := by
  have hsame : (refused env code text s').1.writeBuf = s'.writeBuf := rfl
  exact ⟨hs.unheld (hsame.trans hbuf) rfl, clean_quiet (quiet_append (quiet_beFlush _ _) quiet_nil)⟩

theorem clear_handled {env : Env} (hs : Clear P s) (hmode : s.cfg.isStatementMode = true) (hphase : s.phase = .top)
    (hfenced : Fenced sql P s (.message msg env)) (h : Handled sql env msg s r) : Clear P r.1 ∧ Clean P r.2 := by
  have hcarries (hgated : gated sql s.cfg env msg = false) : ¬Carries P msg := by
    intro hcarries
    rw [gated_of_sees hmode (hfenced.1 hcarries) env] at hgated
    cases hgated
  have hbuf {o : Session γ} (hobs : Observed sql msg s o) (info : SQLOp × Bool) :
      (o.noteWrite env info).writeBuf = s.writeBuf := (frame_noteWrite env info o).writeBuf.trans hobs.writeBuf
  have hrefers {o : Session γ} (hobs : Observed sql msg s o) (info : SQLOp × Bool) :
      ¬Refers P (o.noteWrite env info).prepCache msg := by
    intro hrefers
    rw [prepCache_noteWrite] at hrefers
    exact hfenced.2 (refers_of_observed hobs hrefers)
  cases h with
  | gated hobs hgated code text => exact clear_refused hs hobs.writeBuf env code text
  | failedOver hnoticed hobs hgated hneeds hnone hpool hhealth code text =>
    exact clear_refused hs (hbuf hobs _) env code text
  | acquires hobs hgated =>
    refine ⟨⟨fun msg' hmsg ↦ ?_, ?_⟩, clean_quiet quiet_nil⟩
    · obtain rfl : msg = msg' := Option.some.inj hmsg
      exact fun h ↦ h.elim (hcarries hgated) (hrefers hobs _)
    · rw [hbuf hobs]
      exact hs.buffered
  | @forwards o hobs hgated =>
    have hframe := hobs.noted env
    have hwaiting : waiting (o.noteWrite env (infoOf sql s.cfg msg)).phase = false := by
      rw [hframe.phase, hphase]
      rfl
    exact clear_forwardMessage (hs.unheld (hbuf hobs _) hwaiting) (hcarries hgated) (hrefers hobs _)
  | @answers o hobs =>
    have hsame := hbuf hobs (infoOf sql s.cfg msg)
    generalize o.noteWrite env (infoOf sql s.cfg msg) = t at hsame
    exact ⟨hs.unheld hsame rfl, clean_quiet (quiet_append (quiet_beFlush _ _) quiet_nil)⟩
  | @ignores o hobs =>
    have hsame := hbuf hobs (infoOf sql s.cfg msg)
    generalize o.noteWrite env (infoOf sql s.cfg msg) = t at hsame
    exact ⟨hs.unheld hsame rfl, clean_quiet quiet_nil⟩

theorem clear_step {input : Input} (hs : Clear P s) (hmode : s.cfg.isStatementMode = true)
    (hfenced : Fenced sql P s input) (hstep : s.step sql input = some r) : Clear P r.1 ∧ Clean P r.2 := by
  cases turn_of_step hstep with
  | stays _ _ hidle | leaves _ _ hidle => exact clear_idles hs hidle
  | timedOut hphase ok => exact clear_idles hs (idles_queryTimeout ok s)
  | resets _ _ hidle => exact clear_idles hs hidle
  | greeted hphase params key ok =>
    have hgreet := remains_greet params key ok s
    refine ⟨hs.unheld ?_ hgreet.phase, clean_quiet hgreet.quiet⟩
    cases ok <;> rfl
  | message hphase hmsg hhandled => exact clear_handled hs hmode hphase hfenced hhandled
  | acquired hphase b => exact clear_attach hs hphase b
  | @replaySent msg hphase ok =>
    have hreplaying : Clear P { s with phase := .replaying msg } := by
      refine ⟨fun msg' hmsg ↦ ?_, hs.buffered⟩
      obtain rfl : msg = msg' := Option.some.inj hmsg
      exact hs.held msg (by rw [hphase]; rfl)
    exact ⟨clear_flush hreplaying, clean_quiet (quiet_flush _)⟩
  | replayWaits => exact ⟨hs, clean_quiet quiet_nil⟩
  | replayed hphase txStatus ok =>
    have hheld := hs.held _ (by rw [hphase]; rfl)
    exact clear_forwardMessage hs (fun h ↦ hheld (.inl h)) fun h ↦ hheld (.inr h)
  | sent hphase ok => exact clear_writeBatch hs ok
  | withheldCC hphase | withheldPC hphase => exact ⟨hs.unheld rfl (by rw [hphase]; rfl), clean_quiet quiet_nil⟩
  | drained hphase m ok _ => exact clear_idles hs (idles_passOn (by rw [hphase]; rfl) m ok)
  | cutOff hphase ok => exact clear_idles hs (idles_loop s)
  | polled hphase m ok => exact clear_idles hs (idles_pollReceived hphase m ok)

end Steps

section Results

/-- In statement mode no text that the fence sees whenever a client sends it, and that no message refers to, is
ever passed on. -/
theorem clean_of_fenced (id : ℕ) {cfg : PooledConfig} (hmode : cfg.isStatementMode = true) {inputs : List Input}
    {c : History γ} (hrun : Run (recorded (Session.step sql)) anyStep (start (Session.new sql id cfg)) inputs c)
    (hfenced : ∀ y ∈ c.past, Fenced sql P y.before y.event) : ∀ y ∈ c.past, Clean P y.output := by
  let Inv (c : History γ) : Prop := (∀ y ∈ c.past, Fenced sql P y.before y.event) →
    c.current.cfg = cfg ∧ Clear P c.current ∧ ∀ y ∈ c.past, Clean P y.output
  have hinv : Inv c := by
    refine recorded_invariant (fun c input r hc _ hstep hfenced ↦ ?_) (fun _ ↦ ?_) hrun
    · obtain ⟨hcfg, hclear, hclean⟩ := hc fun y hy ↦ hfenced y (List.mem_append_left _ hy)
      have hinput := hfenced ⟨c.current, input, r.1, r.2⟩ (by simp)
      obtain ⟨hclear', hclean'⟩ := clear_step hclear (hcfg ▸ hmode) hinput hstep
      refine ⟨(fixed_of_step hstep).1.trans hcfg, hclear', fun y hy ↦ ?_⟩
      obtain hy | hy := List.mem_append.mp hy
      · exact hclean y hy
      · rw [List.mem_singleton.mp hy]
        exact hclean'
    · exact ⟨rfl, ⟨by simp [start, Session.new, awaited], by simp [start, Session.new]⟩, by simp [start]⟩
  exact (hinv hfenced).2.2

/-- In statement mode no transaction is opened, as long as the fence sees every text that opens one and no message
refers to such a text, which a `Parse` leaves among the prepared statements when it is turned down. -/
theorem no_transaction_opened (order : List (Text × Text) → List (Text × Text)) (id : ℕ) {cfg : PooledConfig}
    (hmode : cfg.poolMode = .statement) {inputs : List Input} {c : History Sql.Settings.GUCCache}
    (hrun : Run (recorded (Session.step (Sql.routerSQL order))) anyStep
      (start (Session.new (Sql.routerSQL order) id cfg)) inputs c)
    (hfenced : ∀ y ∈ c.past, Fenced (Sql.routerSQL order) OpensTransaction y.before y.event) :
    ∀ y ∈ c.past, ∀ b m, .forward b m ∈ y.output → ¬Carries OpensTransaction m := by
  have hstatement : cfg.isStatementMode = true := by rw [PooledConfig.isStatementMode, hmode]; rfl
  exact clean_of_fenced id hstatement hrun hfenced

def statements : PooledConfig := { unreset with poolMode := .statement }

def beginThenBind : List Input :=
  welcomed ++ [.message (.query (ascii "BEGIN")) calm, .message (.bind [] []) calm, .acquired (.dialed 3 none)]

theorem no_transaction_opened_begin :
    ∃ c y, Run (recorded (Session.step (Sql.routerSQL id))) anyStep
        (start (Session.new (Sql.routerSQL id) 0 statements)) beginThenBind c ∧
      y ∈ c.past ∧ .forward 3 (.bind [] []) ∈ y.output ∧
        ∀ y ∈ c.past, ∀ b m, .forward b m ∈ y.output → ¬Carries OpensTransaction m := by
  have hrun : Run (recorded (Session.step (Sql.routerSQL id))) anyStep
      (start (Session.new (Sql.routerSQL id) 0 statements)) beginThenBind _ := run_of_exec rfl
  refine ⟨_, _, hrun, List.mem_append_right _ (List.mem_singleton_self _), .head _, ?_⟩
  refine no_transaction_opened id 0 rfl hrun ?_
  intro y hy
  simp only [start, List.mem_append, List.not_mem_nil, List.mem_singleton, false_or] at hy
  obtain (((rfl | rfl) | rfl) | rfl) | rfl := hy
  · trivial
  · trivial
  · refine ⟨fun _ ↦ by rfl, fun h ↦ ?_⟩
    obtain ⟨c, stmt, hc, -⟩ := h
    cases hc
  · refine ⟨fun h ↦ ?_, fun h ↦ ?_⟩
    · obtain ⟨text, htext, -⟩ := h
      cases htext
    · obtain ⟨c, stmt, hc, -⟩ := h
      cases hc
  · trivial

def Passes (cfg : PooledConfig) (inputs : List Input) (m : FrontendMessage) : Prop :=
  ∃ c y, Run (recorded (Session.step (Sql.routerSQL id))) anyStep
      (start (Session.new (Sql.routerSQL id) 0 cfg)) inputs c ∧ y ∈ c.past ∧ .forward 3 m ∈ y.output

/-- What goes through in statement mode: a `BEGIN` behind another statement, a `Query` or `Parse` in `serveRaw`, and
with prepared statements the `Bind` of a `Parse` that was turned down. -/
theorem transaction_opened :
    OpensTransaction (ascii "SELECT 1; BEGIN") ∧ OpensTransaction (ascii "BEGIN") ∧
      Passes statements (welcomed ++ [.message (.query (ascii "SELECT 1; BEGIN")) calm, .acquired (.dialed 3 none)])
        (.query (ascii "SELECT 1; BEGIN")) ∧
      Passes { statements with rawPassthrough := true, gucTracking := false }
        (welcomed ++ [.message (.query (ascii "BEGIN")) calm, .acquired (.dialed 3 none), .sent true])
        (.query (ascii "BEGIN")) ∧
      Passes { statements with rawPassthrough := true }
        (welcomed ++ [.message (.parse [] (ascii "BEGIN") []) calm, .acquired (.dialed 3 none), .message .sync calm,
          .sent true]) (.parse [] (ascii "BEGIN") []) ∧
      Passes { statements with preparedCache := true }
        (welcomed ++ [.message (.parse (ascii "s") (ascii "BEGIN") []) calm, .message (.bind [] (ascii "s")) calm,
          .acquired (.dialed 3 (some ⟨10, []⟩))]) (.parse (Sql.serverNameFor (ascii "BEGIN")) (ascii "BEGIN") []) := by
  refine ⟨⟨[.ident (ascii "SELECT"), .space 0x20, .number (.decimal (ascii "1") none none), .other 0x3b, .space 0x20,
    .ident (ascii "BEGIN")], [], rfl, by decide, by decide⟩,
    ⟨[.ident (ascii "BEGIN")], [], rfl, by decide, by decide⟩, ?_, ?_, ?_, ?_⟩
  · exact ⟨_, _, run_of_exec rfl, List.mem_append_right _ (List.mem_singleton_self _), .head _⟩
  · exact ⟨_, _, run_of_exec rfl, List.mem_append_right _ (List.mem_singleton_self _), .head _⟩
  · exact ⟨_, _, run_of_exec rfl, List.mem_append_right _ (List.mem_singleton_self _), .head _⟩
  · exact ⟨_, _, run_of_exec rfl, List.mem_append_right _ (List.mem_singleton_self _), .head _⟩

end Results

end PgRouter.Client.Fence
