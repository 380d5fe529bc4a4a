import Fintech.Model.System
import Fintech.Proof.PaymentWrites
import Fintech.Proof.WalletWrites

/-!
# What a commit did

Every transaction of the system, run on whatever its statements saw, yields writes of a known shape
that the database accepts in the state to which it commits.
-/

namespace Fintech
open Relational Transactional

/-- A write of the operations that stay out of the ledger and of the business records. -/
def Write.IsSide : Write → Prop
  | .insert r => isSideRow none r
  | .update old new => isSideRow (some old) new

theorem ensures_writeSideRow {base : Nat → Db} {v : View Settings Row Key} {ws : List Write} {r : Row}
    {Q : Except HttpException Unit → View Settings Row Key → Prop} (h : Tracks base v ws)
    (post : ∀ v' w, w.row = r → Write.IsSide w → Tracks base v' (ws ++ [w]) → Q (.ok ()) v') :
    (writeSideRow r).Ensures base Q v := by
  refine ⟨Prog.wp_exec.mpr ⟨fun _ _ => trivial, ?_⟩⟩
  rintro ⟨⟩ e ok
  rw [h.seen] at ok
  obtain ⟨side, ok⟩ := bind_unit_eq_ok.mp ok
  rw [failIf_eq_ok, not_not] at side
  cases found : ((base v.executed).write ws).rows.find? fun r₀ => r₀.pk = r.pk with
  | none =>
      rw [found] at side
      simp only [found, bind_eq_ok, pure, Except.pure, Except.ok.injEq, Prod.mk.injEq, true_and] at ok
      obtain ⟨s, inserted, rfl⟩ := ok
      exact post _ (.insert r) rfl side (h.wrote [.insert r] rfl ⟨.of_insert inserted, trivial⟩)
  | some old =>
      rw [found] at side
      simp only [found, bind_eq_ok, pure, Except.pure, Except.ok.injEq, Prod.mk.injEq, true_and] at ok
      obtain ⟨s, updated, rfl⟩ := ok
      have mem : old ∈ (base v.executed).write ws := Db.mem_rows.mp (List.mem_of_find?_eq_some found)
      have same : r.pk = old.pk := by simpa [eq_comm] using List.find?_some found
      exact post _ (.update old r) rfl side
        (h.wrote [.update old r] rfl ⟨.of_update mem same updated, trivial⟩)

theorem ensures_other {base : Nat → Db} {v : View Settings Row Key} {rows : List Row} (h : Tracks base v []) :
    Tx.Ensures base (do
      Prog.each writeSideRow rows
      return (.ok .done : AttemptOutcome)) (Tx.yields base fun _ outcome ws =>
        outcome = .ok .done ∧ ∀ w ∈ ws, w.row ∈ rows ∧ Write.IsSide w) v := by
  refine ensures_bind (ensures_each (fun _ v => ∃ ws, Tracks base v ws ∧ ∀ w ∈ ws, w.row ∈ rows ∧ Write.IsSide w) rows
    ⟨[], h, by simp⟩ ?_ ?_)
  · rintro done r rest v₁ split ⟨ws, h₁, side⟩
    refine ensures_writeSideRow h₁ fun v₂ w row new h₂ => ⟨_, h₂, ?_⟩
    intro x hx
    rcases List.mem_append.mp hx with hx | hx
    · exact side x hx
    · rw [List.mem_singleton.mp hx, row, split]
      exact ⟨by simp, new⟩
  · rintro v₁ ⟨ws, h₁, side⟩
    exact ensures_pure ⟨ws, h₁, fun _ _ => ⟨rfl, side⟩⟩

/-- What a transaction of the request does when it returns `outcome`: its statements saw the states
`base`, and it commits to `now`. -/
inductive Change (sha256Hex : String → String) (base : Nat → Db) (now : Db) : Request → AttemptOutcome → List Write → Prop
  | registered (draws : Draws) (input : UsersService.CreateUserInput) :
      Change sha256Hex base now (.register draws input)
        (.ok (.registered (UsersService.toSafeUser (UsersService.newUser draws input))
          (toWalletResponse (newWallet draws (draws.id .user) (input.currency.getD .usd)))))
        (.insert (.user (UsersService.newUser draws input)) ::
          openingWrites draws (draws.id .user) (input.currency.getD .usd))
  | opened (draws : Draws) (userId : Uuid) (currency : Currency) :
      Change sha256Hex base now (.createWallet draws userId currency)
        (.ok (.wallet (toWalletResponse (newWallet draws userId currency)))) (openingWrites draws userId currency)
  | closed {draws userId walletId w ws} : Closes now draws userId walletId w ws →
      Change sha256Hex base now (.closeWallet draws userId walletId) (.ok (.wallet (toWalletResponse w))) ws
  | posted {draws input m} (postings : List LedgerPosting) : Records draws input m →
      Change sha256Hex base now (.post draws input) (.ok (.posted m.sealed postings)) m.writes
  | transfer {draws senderUserId header input key request outcome ws} :
      normalizeIdempotencyKey header = .ok key → TransfersService.normalizeTransferRequest input = .ok request →
      TransfersService.scope.Attempted (base 0)
        (TransfersService.scope.claim draws senderUserId key (TransfersService.hashRequest sha256Hex request))
        (TransfersService.Transferred (base 0) draws senderUserId request)
        (TransfersService.WorkFailure (base 0) draws senderUserId request) outcome ws →
      Change sha256Hex base now (.createTransfer draws senderUserId header input) outcome ws
  | reversal {draws actorUserId transferId header input key outcome ws} : normalizeIdempotencyKey header = .ok key →
      ReversalsService.scope.Attempted (base 0)
        (ReversalsService.scope.claim draws actorUserId key
          (ReversalsService.hashRequest sha256Hex (ReversalsService.normalizeRequest transferId input)))
        (ReversalsService.Reversed (base 0) draws actorUserId (ReversalsService.normalizeRequest transferId input))
        (ReversalsService.WorkFailure (base 0) draws actorUserId (ReversalsService.normalizeRequest transferId input))
        outcome ws →
      Change sha256Hex base now (.createReversal draws actorUserId transferId header input) outcome ws
  | payment {draws usePaystack userId header input key hash p ws} :
      PaymentsService.normalize sha256Hex header input = .ok (key, hash) →
      PaymentsService.Intends base draws usePaystack userId key hash input.amountMinor p ws →
      Change sha256Hex base now (.createPayment draws usePaystack userId header input) (.ok (.payment p)) ws
  | settled {draws event provider outcome ws} (attempt : Nat) :
      PaymentsService.Settles (base 0) (draws attempt) event provider outcome ws →
      Change sha256Hex base now (.settle draws event provider) outcome ws
  | other {isolation rows ws} : (∀ w ∈ ws, Write.IsSide w) →
      Change sha256Hex base now (.other isolation rows) (.ok .done) ws

/-- The states that the statements of one transaction can see. -/
structure Views (isolation : Isolation) (base : Nat → Db) : Prop where
  le : ∀ m n, m ≤ n → Store.Le (base m) (base n)
  snapshot : isolation = .serializable → base = fun _ => base 0

/-- A transaction body that does what the request is for. -/
def Faithful (sha256Hex : String → String) (i : Request) (isolation : Isolation) (body : Tx AttemptOutcome) : Prop :=
  ∀ base, Views isolation base →
    body.Ensures base (Tx.yields base fun now => Change sha256Hex base now i) { locals := {} }

section
variable {sha256Hex : String → String}

theorem Faithful.of_committing {i : Request} {isolation : Isolation} {body : Tx AttemptOutcome}
    (h : ∀ base, Views isolation base →
      body.Ensures base (Tx.yields base fun now => Change sha256Hex base now i) { locals := {} }) :
    Faithful sha256Hex i isolation (Tx.committing body) :=
  fun base views => ensures_committing (h base views)

theorem Tx.yields_imp {base : Nat → Db} {α : Type} {P P' : Db → α → List Write → Prop}
    (imp : ∀ now a ws, P now a ws → P' now a ws) {r : Except HttpException α} {v : View Settings Row Key}
    (h : Tx.yields base P r v) : Tx.yields base P' r v := by
  cases r with
  | error e => trivial
  | ok a =>
      obtain ⟨ws, tracks, holds⟩ := h
      exact ⟨ws, tracks, fun now settled => imp now a ws (holds now settled)⟩

theorem Tx.Ensures.imp {base : Nat → Db} {v : View Settings Row Key} {α : Type} {body : Tx α}
    {P P' : Db → α → List Write → Prop} (h : body.Ensures base (Tx.yields base P) v)
    (imp : ∀ now a ws, P now a ws → P' now a ws) : body.Ensures base (Tx.yields base P') v :=
  ⟨Prog.wp_mono h.wp fun _ _ => Tx.yields_imp imp⟩

/-- A body whose result is handed on. -/
theorem Tx.Ensures.returns {base : Nat → Db} {v : View Settings Row Key} {α β : Type} {body : Tx α} {f : α → β}
    {P : Db → α → List Write → Prop} {P' : Db → β → List Write → Prop} (h : body.Ensures base (Tx.yields base P) v)
    (imp : ∀ now a ws, P now a ws → P' now (f a) ws) :
    Tx.Ensures base (body >>= fun a => pure (f a)) (Tx.yields base P') v := by
  refine ensures_bind ⟨Prog.wp_mono h.wp fun r v' hr => ?_⟩
  cases r with
  | error e => trivial
  | ok a =>
      obtain ⟨ws, tracks, holds⟩ := hr
      exact ensures_pure ⟨ws, tracks, fun now settled => imp now a ws (holds now settled)⟩

/-- On one snapshot, it is enough to know what a body does there. -/
theorem Faithful.of_snapshot {i : Request} {body : Tx AttemptOutcome}
    (h : ∀ s, body.Ensures (fun _ => s) (Tx.yields (fun _ => s) fun now => Change sha256Hex (fun _ => s) now i)
      { locals := {} }) : Faithful sha256Hex i .serializable (Tx.committing body) := by
  refine .of_committing fun base views => ?_
  rw [views.snapshot rfl]
  exact h _

end

/-- The transactions that a request can come to. -/
inductive Body (sha256Hex : String → String) : Request → Isolation → Tx AttemptOutcome → Prop
  | register {draws input} : Body sha256Hex (.register draws input) .readCommitted
      (Tx.committing (UsersService.createWithInitialWallet draws input))
  | createWallet {draws userId currency} : Body sha256Hex (.createWallet draws userId currency) .readCommitted
      (Tx.committing (WalletsService.createWallet draws userId currency))
  | closeWallet {draws userId walletId} : Body sha256Hex (.closeWallet draws userId walletId) .readCommitted
      (Tx.committing do
        let wallet ← WalletsService.closeWallet draws userId walletId
        return .ok (.wallet (toWalletResponse wallet)))
  | post {draws input} : Body sha256Hex (.post draws input) .serializable
      (Tx.committing do
        let (t, postings) ← LedgerService.postWithinTransaction draws input
        return .ok (.posted t postings))
  | transfer {draws senderUserId header input key request} : normalizeIdempotencyKey header = .ok key →
      TransfersService.normalizeTransferRequest input = .ok request →
      Body sha256Hex (.createTransfer draws senderUserId header input) .serializable
        (Tx.committing (TransfersService.scope.attempt draws senderUserId key
          (TransfersService.hashRequest sha256Hex request) (TransfersService.work draws senderUserId request)))
  | reversal {draws actorUserId transferId header input key} : normalizeIdempotencyKey header = .ok key →
      Body sha256Hex (.createReversal draws actorUserId transferId header input) .serializable
        (Tx.committing (ReversalsService.scope.attempt draws actorUserId key
          (ReversalsService.hashRequest sha256Hex (ReversalsService.normalizeRequest transferId input))
          (ReversalsService.work draws actorUserId (ReversalsService.normalizeRequest transferId input))))
  | payment {draws usePaystack userId header input key hash} :
      PaymentsService.normalize sha256Hex header input = .ok (key, hash) →
      Body sha256Hex (.createPayment draws usePaystack userId header input) .readCommitted
        (Tx.committing do
          let payment ← PaymentsService.createIntent draws usePaystack userId key hash (toLowerCase input.walletId)
            input.amountMinor
          return .ok (.payment payment))
  | settle {draws event provider} (attempt : Nat) : Body sha256Hex (.settle draws event provider) .serializable
      (Tx.committing (PaymentsService.settle (draws attempt) event provider))
  | other {isolation rows} : Body sha256Hex (.other isolation rows) isolation
      (Tx.committing do
        Prog.each writeSideRow rows
        return .ok .done)

section
variable {sha256Hex : String → String}

theorem every_replay {P : Isolation → Tx AttemptOutcome → Prop} {ρ : Type} (scope : Scope ρ) (userId : Uuid)
    (key hash : String) (tries : Nat) : (scope.replayAfterIdempotencyRace userId key hash tries).Every P := by
  induction tries with
  | zero => trivial
  | succ tries ih =>
      intro db
      dsimp only
      split
      · split <;> trivial
      · exact ih

theorem every_create {P : Isolation → Tx AttemptOutcome → Prop} {ρ : Type} {scope : Scope ρ} {draws : Draws}
    {userId : Uuid} {key hash : String} {work : Tx ρ}
    (h : P .serializable (Tx.committing (scope.attempt draws userId key hash work))) :
    (scope.create draws userId key hash work).Every P := by
  refine ⟨h, fun e => ?_⟩
  cases e with
  | committed outcome => trivial
  | thrown e => trivial
  | aborted d =>
      dsimp only
      split
      · exact every_replay scope userId key hash 5
      · trivial

theorem every_settle (draws : Nat → Draws) (event : VerifiedPaymentEvent) (provider : PaymentProvider) (attempts : Nat) :
    (PaymentsService.settleVerified draws event provider attempts).Every
      (Body sha256Hex (.settle draws event provider)) := by
  induction attempts with
  | zero => trivial
  | succ attempts ih =>
      refine ⟨.settle attempts, fun e => ?_⟩
      cases e with
      | committed outcome => trivial
      | thrown e => trivial
      | aborted d =>
          dsimp only
          split
          · exact ih
          · trivial

theorem program_bodies (i : Request) : (program sha256Hex i).Every (Body sha256Hex i) := by
  cases i with
  | register draws input =>
      intro db
      dsimp only
      split
      · trivial
      · refine ⟨.register, fun e => ?_⟩
        cases e with
        | aborted d => cases d <;> trivial
        | _ => trivial
  | createWallet draws userId currency =>
      refine ⟨.createWallet, fun e => ?_⟩
      cases e with
      | aborted d => cases d <;> trivial
      | _ => trivial
  | closeWallet draws userId walletId => exact ⟨.closeWallet, fun e => by cases e <;> trivial⟩
  | post draws input =>
      refine ⟨.post, fun e => ?_⟩
      cases e with
      | committed outcome => trivial
      | thrown e => trivial
      | aborted d =>
          cases d with
          | uniqueViolation => trivial
          | _ => dsimp only; split <;> trivial
  | createTransfer draws senderUserId header input =>
      change (TransfersService.create sha256Hex draws senderUserId header input).Every _
      unfold TransfersService.create
      cases h : (do return (← normalizeIdempotencyKey header, ← TransfersService.normalizeTransferRequest input) :
          Except HttpException _) with
      | error e => trivial
      | ok normalized =>
          obtain ⟨key, request⟩ := normalized
          simp only [bind_eq_ok, pure, Except.pure, Except.ok.injEq, Prod.mk.injEq] at h
          obtain ⟨key, hkey, request, hrequest, rfl, rfl⟩ := h
          exact every_create (.transfer hkey hrequest)
  | createReversal draws actorUserId transferId header input =>
      change (ReversalsService.create sha256Hex draws actorUserId transferId header input).Every _
      unfold ReversalsService.create
      cases hkey : normalizeIdempotencyKey header with
      | error e => trivial
      | ok key => exact every_create (.reversal hkey)
  | createPayment draws usePaystack userId header input =>
      change (PaymentsService.create sha256Hex draws usePaystack userId header input).Every _
      unfold PaymentsService.create
      cases h : PaymentsService.normalize sha256Hex header input with
      | error e => trivial
      | ok normalized =>
          obtain ⟨key, hash⟩ := normalized
          refine ⟨.payment h, fun e => ?_⟩
          cases e with
          | committed outcome => trivial
          | thrown e => trivial
          | aborted d =>
              cases d with
              | uniqueViolation =>
                  intro db
                  dsimp only
                  cases PaymentsService.findByKey userId key db with
                  | none => trivial
                  | some existing =>
                      dsimp only
                      cases PaymentsService.replay existing hash <;> trivial
              | _ => trivial
  | settle draws event provider => exact every_settle draws event provider 3
  | other isolation rows => exact ⟨.other, fun e => by cases e <;> trivial⟩

/-- Whatever transaction a request comes to, its body is faithful. -/
theorem Body.faithful {i : Request} {isolation : Isolation} {body : Tx AttemptOutcome}
    (h : Body sha256Hex i isolation body) : Faithful sha256Hex i isolation body := by
  cases h with
  | @register draws input =>
      refine .of_committing fun base _ => (ensures_createWithInitialWallet (.start {})).imp fun now outcome ws h => ?_
      obtain ⟨rfl, rfl⟩ := h
      exact .registered draws input
  | @createWallet draws userId currency =>
      refine .of_committing fun base _ => (ensures_createWallet (.start {})).imp fun now outcome ws h => ?_
      obtain ⟨rfl, rfl⟩ := h
      exact .opened draws userId currency
  | closeWallet =>
      refine .of_committing fun base views => ?_
      exact (ensures_closeWallet views.le (.start {})).returns fun now w ws closes => .closed closes
  | post =>
      refine .of_snapshot fun s => ensures_bind (ensures_postWithinTransaction (.start {}) (fun _ _ _ _ => trivial) ?_)
      intro v m postings records tracks
      exact ensures_pure ⟨_, tracks, fun _ _ => .posted postings records⟩
  | transfer hkey hrequest =>
      refine .of_snapshot fun s => (Scope.attempt_yields (fun _ _ => rfl) (TransfersService.works s _ _ _ _)
        (.start {})).imp fun _ _ _ h => ?_
      exact .transfer hkey hrequest h
  | reversal hkey =>
      refine .of_snapshot fun s => (Scope.attempt_yields (fun _ _ => rfl) (ReversalsService.works s _ _ _ _)
        (.start {})).imp fun _ _ _ h => ?_
      exact .reversal hkey h
  | payment normalized =>
      refine .of_committing fun base views => ?_
      exact (PaymentsService.ensures_createIntent (.start {})).returns fun now p ws intends => .payment normalized intends
  | settle attempt =>
      exact .of_snapshot fun s => (PaymentsService.settle_yields (.start {})).imp fun _ _ _ h => .settled attempt h
  | other =>
      refine .of_committing fun base _ => (ensures_other (.start {})).imp fun now outcome ws h => ?_
      obtain ⟨rfl, side⟩ := h
      exact .other fun w hw => (side w hw).2

/-! ## Commits -/

theorem views_of_seen {ι : Type} {initial : Db} {log : List (Entry ι Row)} {j : Nat} {isolation : Isolation} {born : Nat}
    {bases : Nat → Nat} (h : System.Seen isolation born j bases) :
    Views isolation fun n => stateAt initial log (bases n) :=
  ⟨fun _ _ le => System.stateAt_le (h.mono le), fun iso => funext fun n => by rw [h.fixed iso n]⟩

/-- A commit has written what its body ensures, and the state to which it commits accepts it. -/
theorem writes_of_committed {A R ι : Type} {sys : System Db Settings Row Key DbError HttpException A R ι}
    {log : List (Entry ι Row)} {j born : Nat} {isolation : Isolation} {body : Tx A} {a : A} {view : View Settings Row Key}
    {bases : Nat → Nat} {P : Db → A → List Write → Prop} (locals : sys.locals = {})
    (h : sys.Committed log j born isolation body a view bases)
    (ensures : body.Ensures (fun n => sys.state log (bases n)) (Tx.yields (fun n => sys.state log (bases n)) P)
      { locals := {} }) :
    ∃ ws, view.writes = ws.map Write.row ∧ Accepts (sys.state log j) ws ∧ P (sys.state log j) a ws := by
  have ran := h.ran
  rw [System.start, locals] at ran
  obtain ⟨ws, tracks, holds⟩ := Prog.wp_of_run ensures.wp ran
  have settled : Settled (fun n => sys.state log (bases n)) view (sys.state log j) := by
    refine ⟨fun n k mem m le => ?_, fun n => System.stateAt_le (h.seen.le n)⟩
    exact h.same mem (h.seen.mono le) (h.seen.le m)
  exact ⟨ws, tracks.writes, tracks.accepted _ settled, holds _ settled⟩

variable {initial : Db} {log : List (Entry Request Row)} {j : Nat}

/-- A commit has written what its request is for. -/
theorem change_of_committed {born : Nat} {isolation : Isolation} {body : Tx AttemptOutcome}
    {next : Ending DbError HttpException AttemptOutcome → Call} {i : Request} {outcome : AttemptOutcome}
    {view : View Settings Row Key} {bases : Nat → Nat}
    (leads : (program sha256Hex i).Leads (.transaction isolation body next))
    (h : (system sha256Hex initial).Committed log j born isolation body outcome view bases) :
    ∃ ws, view.writes = ws.map Write.row ∧ Accepts (stateAt initial log j) ws ∧
      Change sha256Hex (fun n => stateAt initial log (bases n)) (stateAt initial log j) i outcome ws := by
  have faithful : Faithful sha256Hex i isolation body := ((program_bodies i).leads leads).1.faithful
  exact writes_of_committed rfl h (faithful _ (views_of_seen h.seen))

/-- What is known of commit `j`. -/
structure Done (sha256Hex : String → String) (initial : Db) (log : List (Entry Request Row)) (j : Nat) : Prop where
  lt : j < log.length
  change : ∃ (bases : Nat → Nat) (outcome : AttemptOutcome) (ws : List Write), (∀ n, bases n ≤ j) ∧
    log[j].writes = ws.map Write.row ∧ Accepts (stateAt initial log j) ws ∧
    Change sha256Hex (fun n => stateAt initial log (bases n)) (stateAt initial log j) log[j].request outcome ws

theorem done_of_certified (h : (system sha256Hex initial).Certified log j) : Done sha256Hex initial log j := by
  obtain ⟨lt, born, isolation, body, next, outcome, view, bases, leads, writes, committed⟩ := h
  obtain ⟨ws, rows, accepts, change⟩ := change_of_committed leads committed
  exact ⟨lt, bases, outcome, ws, committed.seen.le, writes.trans rows, accepts, change⟩

theorem state_after {ws : List Write} (lt : j < log.length) (h : log[j].writes = ws.map Write.row) :
    stateAt initial log (j + 1) = (stateAt initial log j).write ws := by
  rw [stateAt_succ lt, h]
  rfl

/-- Rule for runs: what every change preserves holds of every committed state, and of every two of
them in their order. A change knows it of the states that its statements saw. -/
theorem reachable_changes {c : Config Db Settings Row Key DbError HttpException AttemptOutcome Result Request}
    {Inv : Db → Prop} {Ext : Db → Db → Prop} (refl : ∀ s, Ext s s) (trans : ∀ {s t u}, Ext s t → Ext t u → Ext s u)
    (start : Inv initial)
    (step : ∀ base now i outcome ws, (∃ e ∈ c.log, e.request = i) → (∀ n, Inv (base n)) → (∀ n, Ext (base n) now) →
      Inv now → Accepts now ws → Change sha256Hex base now i outcome ws → Inv (now.write ws) ∧ Ext now (now.write ws))
    (h : (system sha256Hex initial).Reachable c) :
    (∀ i ≤ c.log.length, Inv (stateAt initial c.log i)) ∧
      ∀ i i', i ≤ i' → i' ≤ c.log.length → Ext (stateAt initial c.log i) (stateAt initial c.log i') := by
  refine h.commits Inv Ext refl trans start fun j lt certified inv ext => ?_
  obtain ⟨_, bases, outcome, ws, le, rows, accepts, change⟩ := done_of_certified certified
  rw [rows]
  exact step _ _ _ _ _ ⟨_, List.getElem_mem lt, rfl⟩ (fun n => inv _ (le n)) (fun n => ext _ _ (le n) le_rfl)
    (inv j le_rfl) accepts change

/-- Every committed state is sound and extends the ones before it. -/
theorem reachable_sound {c : Config Db Settings Row Key DbError HttpException AttemptOutcome Result Request}
    (sound : initial.Sound) (h : (system sha256Hex initial).Reachable c) :
    (∀ i ≤ c.log.length, (stateAt initial c.log i).Sound) ∧
      ∀ i i', i ≤ i' → i' ≤ c.log.length → (stateAt initial c.log i').Extends (stateAt initial c.log i) := by
  refine @reachable_changes _ _ c Db.Sound (fun s t => t.Extends s) Db.extends_refl (fun h h' => h'.trans h) sound ?_ h
  intro base now i outcome ws _ _ _ sound accepts _
  exact ⟨accepts.sound sound, accepts.extends⟩

end

end Fintech
