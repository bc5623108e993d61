import RcdServer.Lib.Run
import RcdServer.Tracking.State

/-!
# One boot of the tracker

The threads of one `Tracker`: any number of `begin` calls serialised by the
admission mutex, `update` calls, the journal reader, and the journal writer. An
action is one critical section, one SQLite transaction or one message. Timeouts,
busy queues, SQLite errors, clock readings and the moment of retention are
choices of the action. A run starts before `open`, on the file an earlier boot left.
-/
namespace RcdServer.Tracking

/-! ## Calls of `begin` -/

abbrev Reply := Except String (Option Snapshot)

/-- Where a `begin` call stands; from `start` to `done` it holds the admission mutex. -/
inductive BeginPc where
  | start
  | looking (reply : Option Reply)
  | cleared
  | waiting (v : Snapshot)
  | marking (v : Snapshot)
  | rereading (v : Snapshot)
  | relooking (v : Snapshot) (reply : Option Reply)
  | done (result : Except String (Snapshot × Bool))
  deriving DecidableEq

structure Call where
  order : Order
  pc : BeginPc
  deriving DecidableEq

def hexLower (digest : Vector UInt8 32) : String :=
  let digit (n : Nat) : Char := if n < 10 then Char.ofNat (48 + n) else Char.ofNat (87 + n)
  String.ofList (digest.toList.flatMap fun b => [digit (b.toNat / 16), digit (b.toNat % 16)])

def validIdentity (v : String) : Bool :=
  v != "" && decide (v.utf8ByteSize ≤ 256) && !v.toList.contains '\x00'

/-- `char::is_ascii_whitespace`: space, tab, line feed, form feed, carriage return. -/
def isAsciiWhitespace (c : Char) : Bool :=
  c == ' ' || c == '\t' || c == '\n' || c == '\x0c' || c == '\r'

def normalize (env : Env) (payload : String) : String :=
  String.ofList ((payload.toList.filter fun c => !isAsciiWhitespace c).flatMap env.toUppercase)

/-- The part of `begin` before the admission mutex. -/
def newCall (env : Env) (manager command port : String) (ack : Nat) (payload : String) : Call :=
  let normalized := normalize env payload
  let hash := hexLower (env.sha256 (port ++ "\x00" ++ normalized))
  { order := ⟨manager, command, port, ack, normalized, hash⟩
    pc :=
      if !([manager, command, port].all validIdentity) then .done (.error "invalid command identity")
      else if 65536 < normalized.utf8ByteSize then .done (.error "command payload too large")
      else .start }

/-- A command that is already known is never enqueued again. -/
def repeated (o : Order) (existing : Snapshot) : Except String (Snapshot × Bool) :=
  if existing.requestHash ≠ o.hash then .error "command ID reused with different content"
  else .ok (existing, false)

/-! ## The writer thread -/

structure Query where
  manager : String
  after : Nat
  limit : Nat
  deriving DecidableEq

/-- An `Events` request that was answered, with the ceiling it was answered under. -/
structure Answer where
  query : Query
  ceiling : Nat
  page : Page
  deriving DecidableEq

inductive WriterPc where
  | idle
  | opening
  | recovering (gateway : String) (revision : Nat) (rest : List Snapshot)
  | booting
  | collecting
  | syncing (values : List Snapshot)
  | saving (values : List Snapshot)
  | noting (v : Snapshot) (values : List Snapshot)
  | replying
  | paging (ceiling : Nat)
  deriving DecidableEq

structure Sys where
  boot : String
  gateway : String
  started : Bool
  historicalIds : Finset (Vector UInt8 32)
  historyKnown : Bool
  state : State
  journal : Journal
  db : Bool
  request : Option Query
  writer : WriterPc
  admission : Option Nat
  calls : List Call
  answers : List Answer

/-- A process about to run `Tracker::open` on the file `journal`. -/
def Sys.initial (boot : String) (journal : Journal) : Sys where
  boot := boot
  gateway := ""
  started := false
  historicalIds := ∅
  historyKnown := false
  state := State.initial
  journal := journal
  db := false
  request := none
  writer := .opening
  admission := none
  calls := []
  answers := []

/-- Why a caller does not get the reader's reply. -/
inductive Lost where
  | busy | timeout
  deriving DecidableEq

def Lost.text : Lost → String
  | .busy => "journal busy"
  | .timeout => "journal lookup timeout"

/-- What `historical_command_ids` finds at the path. -/
inductive Inventory where
  | missing | unreadable | readable
  deriving DecidableEq

inductive Cleanup where
  | notDue
  | prune (cutoff : String)
  | failed (error : String)

inductive Action where
  | beginCall (manager command port : String) (ack : Nat) (payload : String)
  | acquire (i : Nat)
  | read (i : Nat) (failure : Option String)
  | receive (i : Nat) (lost : Option Lost)
  | reserve (i : Nat) (now : String)
  | confirm (i : Nat)
  | giveUp (i : Nat)
  | mark (i : Nat) (now : String)
  | reread (i : Nat)
  | update (port : String) (ack : Option Nat) (change : Snapshot → Snapshot) (now : String)
  | recv (request : Option (String × Nat × Nat))
  | openStart (fresh : String)
  | recover (now : String)
  | opened
  | openFailed (error : String) (identityReadable : Bool)
  | history (inventory : Inventory)
  | collect
  | syncGap (ok : Bool)
  | save
  | note
  | saveFailed (error : String)
  | clean (cleanup : Cleanup)
  | ceiling
  | answer
  | noAnswer

/-! ## Transitions -/

def BeginPc.finished : BeginPc → Bool
  | .done _ => true
  | _ => false

/-- Call `i` goes on at `pc`, and releases the admission mutex when it returns. -/
def Sys.move (s : Sys) (i : Nat) (c : Call) (pc : BeginPc) : Sys :=
  { s with
    calls := s.calls.set i { c with pc := pc }
    admission := if pc.finished then none else some i }

def Sys.acquire (s : Sys) (i : Nat) (c : Call) : Option Sys :=
  match c.pc with
  | .start =>
    if s.admission = none then
      match s.state.get c.order.key with
      | some existing => some (s.move i c (.done (repeated c.order existing)))
      | none => some (s.move i c (.looking none))
    else none
  | _ => none

/-- The journal reader serves the call's lookup from the file as it is now. -/
def Sys.read (s : Sys) (i : Nat) (c : Call) (failure : Option String) : Option Sys :=
  let reply : Reply :=
    match failure with
    | some e => .error e
    | none => s.journal.lookup s.gateway c.order.manager c.order.command
  match c.pc with
  | .looking none => some (s.move i c (.looking (some reply)))
  | .relooking v none => some (s.move i c (.relooking v (some reply)))
  | _ => none

def received (reply : Option Reply) : Option Lost → Option Reply
  | some lost => some (.error lost.text)
  | none => reply

/-- `begin` goes on after its first lookup: a failed one needs the startup inventory. -/
def Sys.receiveFirst (s : Sys) (i : Nat) (c : Call) : Reply → Sys
  | .ok (some existing) => s.move i c (.done (repeated c.order existing))
  | .ok none => s.move i c .cleared
  | .error e =>
    let s := { s with state := s.state.degrade e }
    if s.historyKnown then s.move i c .cleared
    else s.move i c (.done (.error
      "command history unavailable; identity cannot be confirmed; never replayed"))

def Sys.receive (s : Sys) (i : Nat) (c : Call) (lost : Option Lost) : Option Sys :=
  match c.pc with
  | .looking reply => (received reply lost).map (s.receiveFirst i c)
  | .relooking v reply =>
    (received reply lost).map fun r => s.move i c (.done (r.map fun w => (w.getD v, true)))
  | _ => none

def Sys.reserve (env : Env) (s : Sys) (i : Nat) (c : Call) (now : String) : Option Sys :=
  match c.pc with
  | .cleared =>
    if env.sha256 c.order.key ∈ s.historicalIds then
      some (s.move i c (.done (.error "historical command evidence unavailable; never replayed")))
    else
      match s.state.reserve env s.gateway s.boot c.order now with
      | .error e => some (s.move i c (.done (.error e)))
      | .ok (state, v) => some ({ s with state := state }.move i c (.waiting v))
  | _ => none

def Sys.confirm (s : Sys) (i : Nat) (c : Call) : Option Sys :=
  match c.pc with
  | .waiting v =>
    if (s.state.persisted.lookup c.order.key).any fun r => decide (v.revision ≤ r) then
      some (s.move i c (.done (.ok (v, true))))
    else none
  | _ => none

/-- The wait ends at its deadline or as soon as the audit is degraded. -/
def Sys.giveUp (s : Sys) (i : Nat) (c : Call) : Option Sys :=
  match c.pc with
  | .waiting v =>
    let state := s.state.degrade "command acceptance not durably confirmed within 100 ms"
    some ({ s with state := state }.move i c (.marking v))
  | _ => none

def Sys.mark (s : Sys) (i : Nat) (c : Call) (now : String) : Option Sys :=
  match c.pc with
  | .marking v =>
    let state := s.state.update c.order.port (some c.order.ack)
      (fun v => { v with auditIncomplete := true }) now
    some ({ s with state := state }.move i c (.rereading v))
  | _ => none

def Sys.reread (s : Sys) (i : Nat) (c : Call) : Option Sys :=
  match c.pc with
  | .rereading v =>
    match s.state.get c.order.key with
    | some w => some (s.move i c (.done (.ok (w, true))))
    | none => some (s.move i c (.relooking v none))
  | _ => none

/-- The writer takes a request or its 20 ms pass, and opens the database first if it has none. -/
def Sys.recv (s : Sys) (request : Option (String × Nat × Nat)) : Option Sys :=
  match s.writer with
  | .idle =>
    some { s with
      request := request.map fun (manager, after, limit) => ⟨manager, after, max 1 (min limit 200)⟩
      writer := if s.db then .collecting else .opening }
  | _ => none

/-- Leaves `open_database` without a connection. -/
def Sys.notOpened (s : Sys) (error : String) (identityReadable : Bool) : Sys :=
  if s.started then { s with state := s.state.degrade error, writer := .collecting }
  else
    let stored := if identityReadable then s.journal.identity else none
    { s with
      state := s.state.degrade error
      gateway := stored.getD ("volatile-" ++ s.boot)
      writer := .booting }

def mismatch : String :=
  "command journal instance mismatch; evidence remains in degraded memory; operator recovery required"

/-- `open_database` up to the list of unfinished commands. -/
def Sys.openStart (s : Sys) (fresh : String) : Option Sys :=
  match s.writer with
  | .opening =>
    match s.started, s.journal.identity with
    | true, some actual =>
      if actual ≠ s.gateway then some (s.notOpened mismatch true)
      else some { s with
        writer := .recovering actual s.journal.lastRevision (s.journal.unfinished s.boot) }
    | started, stored =>
      let identity := stored.getD (if started then s.gateway else "gateway-" ++ fresh)
      some { s with
        journal := { s.journal with identity := some identity }
        writer := .recovering identity s.journal.lastRevision (s.journal.unfinished s.boot) }
  | _ => none

def Sys.recover (s : Sys) (now : String) : Option Sys :=
  match s.writer with
  | .recovering gateway revision (v :: rest) =>
    some { s with
      journal := s.journal.save (recovered v (revision + 1) now)
      writer := .recovering gateway (revision + 1) rest }
  | _ => none

/-- At boot nothing is buffered yet, so the rebase only sets the counter. -/
def Sys.opened (s : Sys) : Option Sys :=
  match s.writer with
  | .recovering gateway revision [] =>
    some { s with
      state := s.state.rebase revision
      db := true
      gateway := if s.started then s.gateway else gateway
      writer := if s.started then .collecting else .booting }
  | _ => none

def Sys.openFailed (s : Sys) (error : String) (identityReadable : Bool) : Option Sys :=
  match s.writer with
  | .opening => some (s.notOpened error identityReadable)
  | .recovering _ _ _ => some (s.notOpened error identityReadable)
  | _ => none

/-- The loop of `historical_command_ids`; `none` past its bound. -/
def inventoryIds (env : Env) : List CommandRow → Finset (Vector UInt8 32) →
    Option (Finset (Vector UInt8 32))
  | [], ids => some ids
  | c :: rest, ids =>
    if keepCount.toNat + cacheLimit ≤ ids.card then none
    else inventoryIds env rest (insert (env.sha256 (key c.manager c.id)) ids)

def Sys.inventoried (env : Env) (s : Sys) : Inventory → Option (Finset (Vector UInt8 32))
  | .missing => if s.journal.identity = none ∧ s.journal.commands = [] then some ∅ else none
  | .unreadable => none
  | .readable =>
    if s.journal.identity = some s.gateway then inventoryIds env s.journal.commands ∅ else none

/-- The end of `Tracker::open`: the startup inventory, then the threads run. -/
def Sys.history (env : Env) (s : Sys) (inventory : Inventory) : Option Sys :=
  match s.writer with
  | .booting =>
    let ids := s.inventoried env inventory
    some { s with
      historicalIds := ids.getD ∅
      historyKnown := ids.isSome
      started := true
      writer := .idle }
  | _ => none

def Sys.collect (s : Sys) : Option Sys :=
  match s.writer with
  | .collecting => some { s with writer := if s.db then .syncing s.state.batch else .replying }
  | _ => none

/-- The gap flag goes from memory to the file, or from the file to memory. -/
def Sys.syncGap (s : Sys) (ok : Bool) : Option Sys :=
  match s.writer with
  | .syncing values =>
    if s.state.gap then
      some { s with
        journal := { s.journal with historyGap := s.journal.historyGap || ok }
        writer := .saving values }
    else
      some { s with
        state := { s.state with gap := ok && s.journal.historyGap }
        writer := .saving values }
  | _ => none

def Sys.save (s : Sys) : Option Sys :=
  match s.writer with
  | .saving (v :: rest) => some { s with journal := s.journal.save v, writer := .noting v rest }
  | _ => none

def Sys.note (s : Sys) : Option Sys :=
  match s.writer with
  | .noting v rest => some { s with state := s.state.saved v, writer := .saving rest }
  | _ => none

def Sys.saveFailed (s : Sys) (error : String) : Option Sys :=
  match s.writer with
  | .saving (_ :: _) => some { s with state := s.state.saveFailed error, writer := .saving [] }
  | _ => none

def Sys.clean (s : Sys) (cleanup : Cleanup) : Option Sys :=
  match s.writer with
  | .saving [] =>
    match cleanup with
    | .notDue => some { s with writer := .replying }
    | .prune cutoff => some { s with journal := s.journal.prune cutoff keepCount, writer := .replying }
    | .failed e =>
      some { s with
        state := s.state.degrade ("command journal retention failed: " ++ e)
        writer := .replying }
  | _ => none

def Sys.ceiling (s : Sys) : Option Sys :=
  match s.writer, s.request with
  | .replying, some _ => if s.db then some { s with writer := .paging s.state.ceiling } else none
  | _, _ => none

/-- SQLite integers are signed, so a cursor from 2^63 on is refused by its driver. -/
def Sys.answer (env : Env) (s : Sys) : Option Sys :=
  match s.writer, s.request with
  | .paging ceiling, some q =>
    if q.after < 2 ^ 63 then
      let page := s.journal.page env.rawLen s.state.gap ceiling q.manager q.after q.limit
      some { s with answers := s.answers ++ [⟨q, ceiling, page⟩], writer := .idle }
    else none
  | _, _ => none

/-- There was no `Events` request, or the client gets an error. -/
def Sys.noAnswer (s : Sys) : Option Sys :=
  match s.writer with
  | .replying => some { s with writer := .idle }
  | .paging _ => some { s with writer := .idle }
  | _ => none

/-- An action of call `i`, where there is such a call. -/
def Sys.call (s : Sys) (i : Nat) (f : Call → Option Sys) : Option Sys := s.calls[i]?.bind f

def step (env : Env) (s : Sys) : Action → Option Sys
  | .beginCall manager command port ack payload =>
    if s.started then some { s with calls := s.calls ++ [newCall env manager command port ack payload] }
    else none
  | .acquire i => s.call i (s.acquire i)
  | .read i failure => s.call i fun c => s.read i c failure
  | .receive i lost => s.call i fun c => s.receive i c lost
  | .reserve i now => s.call i fun c => s.reserve env i c now
  | .confirm i => s.call i (s.confirm i)
  | .giveUp i => s.call i (s.giveUp i)
  | .mark i now => s.call i fun c => s.mark i c now
  | .reread i => s.call i (s.reread i)
  | .update port ack change now =>
    if s.started then some { s with state := s.state.update port ack change now } else none
  | .recv request => s.recv request
  | .openStart fresh => s.openStart fresh
  | .recover now => s.recover now
  | .opened => s.opened
  | .openFailed error identityReadable => s.openFailed error identityReadable
  | .history inventory => s.history env inventory
  | .collect => s.collect
  | .syncGap ok => s.syncGap ok
  | .save => s.save
  | .note => s.note
  | .saveFailed error => s.saveFailed error
  | .clean cleanup => s.clean cleanup
  | .ceiling => s.ceiling
  | .answer => s.answer env
  | .noAnswer => s.noAnswer

/-! ## What one step can do -/

/-- The call entered its snapshot and has not failed since. -/
def BeginPc.reserved : BeginPc → Bool
  | .waiting _ | .marking _ | .rereading _ | .relooking _ _ => true
  | .done (.ok (_, fresh)) => fresh
  | .start | .looking _ | .cleared | .done (.error _) => false

/-- A step of the `begin` calls: one arrives, one goes on, or one enters its snapshot. -/
inductive CallStep (env : Env) (s : Sys) : Sys → Prop where
  | arrive (c : Call) (hpc : c.pc.reserved = false) :
      CallStep env s { s with calls := s.calls ++ [c] }
  | move (i : Nat) (c : Call) (pc : BeginPc) (state : State) (hget : s.calls[i]? = some c)
      (hlive : c.pc.finished = false) (hpc : pc.reserved = true → c.pc.reserved = true)
      (hseen : state.seen = s.state.seen) (hadv : s.state.Advances state) :
      CallStep env s ({ s with state := state }.move i c pc)
  | reserve (i : Nat) (c : Call) (v : Snapshot) (state : State) (hget : s.calls[i]? = some c)
      (hlive : c.pc.finished = false)
      (hfresh : ∃ b ∈ tombstones (env.sha256 c.order.key), b ∉ s.state.seen)
      (hseen : state.seen = s.state.seen ∪ (tombstones (env.sha256 c.order.key)).toFinset)
      (hadv : s.state.Advances state) :
      CallStep env s ({ s with state := state }.move i c (.waiting v))

/-- A step of the writer thread, `Tracker::open` included. -/
inductive WriterStep (env : Env) (s : Sys) : Sys → Prop where
  | recv (q : Option Query) (hw : s.writer = .idle) (hlimit : ∀ x ∈ q, 0 < x.limit) :
      WriterStep env s { s with request := q, writer := if s.db then .collecting else .opening }
  | notOpened (error gateway : String)
      (hw : s.writer = .opening ∨ ∃ g r rest, s.writer = .recovering g r rest) :
      WriterStep env s { s with
        state := s.state.degrade error
        gateway := gateway
        writer := if s.started then .collecting else .booting }
  | openStart (gateway : String) (identity : Option String) (hw : s.writer = .opening) :
      WriterStep env s { s with
        journal := { s.journal with identity := identity }
        writer := .recovering gateway s.journal.lastRevision (s.journal.unfinished s.boot) }
  | recover (gateway now : String) (revision : Nat) (v : Snapshot) (rest : List Snapshot)
      (hw : s.writer = .recovering gateway revision (v :: rest)) :
      WriterStep env s { s with
        journal := s.journal.save (recovered v (revision + 1) now)
        writer := .recovering gateway (revision + 1) rest }
  | opened (gateway : String) (revision : Nat) (hw : s.writer = .recovering gateway revision []) :
      WriterStep env s { s with
        state := s.state.rebase revision
        db := true
        gateway := if s.started then s.gateway else gateway
        writer := if s.started then .collecting else .booting }
  | history (ids : Finset (Vector UInt8 32)) (known : Bool) (hw : s.writer = .booting) :
      WriterStep env s
        { s with historicalIds := ids, historyKnown := known, started := true, writer := .idle }
  | collect (hw : s.writer = .collecting) :
      WriterStep env s { s with writer := if s.db then .syncing s.state.batch else .replying }
  | syncGap (values : List Snapshot) (gap historyGap : Bool) (hw : s.writer = .syncing values) :
      WriterStep env s { s with
        state := { s.state with gap := gap }
        journal := { s.journal with historyGap := historyGap }
        writer := .saving values }
  | save (v : Snapshot) (rest : List Snapshot) (hw : s.writer = .saving (v :: rest)) :
      WriterStep env s { s with journal := s.journal.save v, writer := .noting v rest }
  | note (v : Snapshot) (rest : List Snapshot) (hw : s.writer = .noting v rest) :
      WriterStep env s { s with state := s.state.saved v, writer := .saving rest }
  | saveFailed (error : String) (v : Snapshot) (rest : List Snapshot)
      (hw : s.writer = .saving (v :: rest)) :
      WriterStep env s { s with state := s.state.saveFailed error, writer := .saving [] }
  | notDue (hw : s.writer = .saving []) : WriterStep env s { s with writer := .replying }
  | prune (cutoff : String) (hw : s.writer = .saving []) :
      WriterStep env s { s with journal := s.journal.prune cutoff keepCount, writer := .replying }
  | pruneFailed (error : String) (hw : s.writer = .saving []) :
      WriterStep env s { s with state := s.state.degrade error, writer := .replying }
  | ceiling (hw : s.writer = .replying) (hdb : s.db = true) :
      WriterStep env s { s with writer := .paging s.state.ceiling }
  | answer (ceiling : Nat) (q : Query) (hw : s.writer = .paging ceiling) (hq : s.request = some q) :
      WriterStep env s { s with
        answers := s.answers ++ [⟨q, ceiling,
          s.journal.page env.rawLen s.state.gap ceiling q.manager q.after q.limit⟩]
        writer := .idle }
  | noAnswer (hw : s.writer = .replying ∨ ∃ c, s.writer = .paging c) :
      WriterStep env s { s with writer := .idle }

theorem repeated_not_reserved (o : Order) (existing : Snapshot) :
    (BeginPc.done (repeated o existing)).reserved = false := by
  unfold repeated
  split <;> rfl

theorem newCall_not_reserved (env : Env) (manager command port : String) (ack : Nat)
    (payload : String) : (newCall env manager command port ack payload).pc.reserved = false := by
  simp only [newCall]
  split
  · rfl
  · split <;> rfl

section Inversion

variable {env : Env} {s s' : Sys}

theorem Sys.call_some {i : Nat} {f : Call → Option Sys} (h : s.call i f = some s') :
    ∃ c, s.calls[i]? = some c ∧ f c = some s' :=
  Option.bind_eq_some_iff.mp h

section Call

variable {i : Nat} {c : Call}

theorem CallStep.keepMemory (hget : s.calls[i]? = some c) (hlive : c.pc.finished = false)
    {pc : BeginPc} (hpc : pc.reserved = true → c.pc.reserved = true) :
    CallStep env s (s.move i c pc) :=
  .move i c pc s.state hget hlive hpc rfl (.refl _)

/-- Returning the outcome for a known command reserves nothing. -/
theorem CallStep.repeated (hget : s.calls[i]? = some c) (hlive : c.pc.finished = false)
    (existing : Snapshot) : CallStep env s (s.move i c (.done (Tracking.repeated c.order existing))) := by
  refine .keepMemory hget hlive fun hr => ?_
  rw [repeated_not_reserved] at hr
  cases hr

theorem Sys.acquire_step (hget : s.calls[i]? = some c) (h : s.acquire i c = some s') :
    CallStep env s s' := by
  unfold Sys.acquire at h
  split at h
  · rename_i hpc
    have hlive : c.pc.finished = false := by rw [hpc]; rfl
    split at h
    · split at h
      · obtain rfl := Option.some.inj h
        exact .repeated hget hlive _
      · obtain rfl := Option.some.inj h
        exact .keepMemory hget hlive fun hr => by cases hr
    · cases h
  · cases h

theorem Sys.read_step {failure : Option String} (hget : s.calls[i]? = some c)
    (h : s.read i c failure = some s') : CallStep env s s' := by
  simp only [Sys.read] at h
  split at h
  · rename_i hpc
    obtain rfl := Option.some.inj h
    exact .keepMemory hget (by rw [hpc]; rfl) fun hr => by cases hr
  · rename_i hpc
    obtain rfl := Option.some.inj h
    exact .keepMemory hget (by rw [hpc]; rfl) fun _ => by rw [hpc]; rfl
  · cases h

theorem Sys.receiveFirst_step (r : Reply) (hget : s.calls[i]? = some c)
    (hlive : c.pc.finished = false) : CallStep env s (s.receiveFirst i c r) := by
  match r with
  | .ok (some existing) => exact .repeated hget hlive existing
  | .ok none => exact .keepMemory hget hlive fun hr => by cases hr
  | .error e =>
    have hadv := s.state.advances_degrade e
    simp only [Sys.receiveFirst]
    split
    · exact .move i c .cleared _ hget hlive (fun hr => by cases hr) rfl hadv
    · exact .move i c (.done (.error _)) _ hget hlive (fun hr => by cases hr) rfl hadv

theorem Sys.receive_step {lost : Option Lost} (hget : s.calls[i]? = some c)
    (h : s.receive i c lost = some s') : CallStep env s s' := by
  unfold Sys.receive at h
  split at h
  · rename_i hpc
    obtain ⟨r, -, rfl⟩ := Option.map_eq_some_iff.mp h
    exact Sys.receiveFirst_step r hget (by rw [hpc]; rfl)
  · rename_i hpc
    obtain ⟨r, -, rfl⟩ := Option.map_eq_some_iff.mp h
    exact .keepMemory hget (by rw [hpc]; rfl) fun _ => by rw [hpc]; rfl
  · cases h

theorem Sys.reserve_step {now : String} (hget : s.calls[i]? = some c)
    (h : s.reserve env i c now = some s') : CallStep env s s' := by
  unfold Sys.reserve at h
  split at h
  · rename_i hpc
    have hlive : c.pc.finished = false := by rw [hpc]; rfl
    split at h
    · obtain rfl := Option.some.inj h
      exact .keepMemory hget hlive fun hr => by cases hr
    · split at h
      · obtain rfl := Option.some.inj h
        exact .keepMemory hget hlive fun hr => by cases hr
      · rename_i hres
        obtain rfl := Option.some.inj h
        exact .reserve i c _ _ hget hlive (State.reserve_ok hres).1 (State.reserve_seen hres)
          (State.advances_reserve hres)
  · cases h

theorem Sys.confirm_step (hget : s.calls[i]? = some c) (h : s.confirm i c = some s') :
    CallStep env s s' := by
  unfold Sys.confirm at h
  split at h
  · rename_i hpc
    split at h
    · obtain rfl := Option.some.inj h
      exact .keepMemory hget (by rw [hpc]; rfl) fun _ => by rw [hpc]; rfl
    · cases h
  · cases h

theorem Sys.giveUp_step (hget : s.calls[i]? = some c) (h : s.giveUp i c = some s') :
    CallStep env s s' := by
  unfold Sys.giveUp at h
  split at h
  · rename_i hpc
    obtain rfl := Option.some.inj h
    exact .move i c _ _ hget (by rw [hpc]; rfl) (fun _ => by rw [hpc]; rfl) rfl
      (s.state.advances_degrade _)
  · cases h

theorem Sys.mark_step {now : String} (hget : s.calls[i]? = some c) (h : s.mark i c now = some s') :
    CallStep env s s' := by
  unfold Sys.mark at h
  split at h
  · rename_i hpc
    obtain rfl := Option.some.inj h
    exact .move i c _ _ hget (by rw [hpc]; rfl) (fun _ => by rw [hpc]; rfl)
      (State.update_seen _ _ _ _ _) (State.advances_update _ _ _ _ _)
  · cases h

theorem Sys.reread_step (hget : s.calls[i]? = some c) (h : s.reread i c = some s') :
    CallStep env s s' := by
  unfold Sys.reread at h
  split at h
  · rename_i hpc
    split at h
    · obtain rfl := Option.some.inj h
      exact .keepMemory hget (by rw [hpc]; rfl) fun _ => by rw [hpc]; rfl
    · obtain rfl := Option.some.inj h
      exact .keepMemory hget (by rw [hpc]; rfl) fun _ => by rw [hpc]; rfl
  · cases h

end Call

theorem Sys.recv_step {r : Option (String × Nat × Nat)} (h : s.recv r = some s') :
    WriterStep env s s' := by
  unfold Sys.recv at h
  split at h
  · rename_i hw
    obtain rfl := Option.some.inj h
    refine .recv _ hw fun x hx => ?_
    obtain ⟨⟨manager, after, limit⟩, -, rfl⟩ := Option.map_eq_some_iff.mp hx
    exact Nat.lt_of_lt_of_le Nat.zero_lt_one (Nat.le_max_left _ _)
  · cases h

theorem Sys.notOpened_step (error : String) (readable : Bool)
    (hw : s.writer = .opening ∨ ∃ g r rest, s.writer = .recovering g r rest) :
    WriterStep env s (s.notOpened error readable) := by
  have heq : ∃ gateway, s.notOpened error readable =
      { s with
        state := s.state.degrade error
        gateway := gateway
        writer := if s.started then .collecting else .booting } := by
    unfold Sys.notOpened
    split
    · rename_i hs
      exact ⟨s.gateway, by simp [hs]⟩
    · rename_i hs
      exact ⟨_, by simp [hs]; rfl⟩
  obtain ⟨gateway, heq⟩ := heq
  rw [heq]
  exact .notOpened error gateway hw

theorem Sys.openStart_step {fresh : String} (h : s.openStart fresh = some s') :
    WriterStep env s s' := by
  unfold Sys.openStart at h
  split at h
  · rename_i hw
    split at h
    · rename_i actual _ hid
      split at h
      · obtain rfl := Option.some.inj h
        exact Sys.notOpened_step _ _ (.inl hw)
      · obtain rfl := Option.some.inj h
        have hopen : WriterStep env s _ := .openStart actual (some actual) hw
        rw [← hid] at hopen
        exact hopen
    · obtain rfl := Option.some.inj h
      exact .openStart _ _ hw
  · cases h

theorem Sys.recover_step {now : String} (h : s.recover now = some s') : WriterStep env s s' := by
  unfold Sys.recover at h
  split at h
  · rename_i hw
    obtain rfl := Option.some.inj h
    exact .recover _ _ _ _ _ hw
  · cases h

theorem Sys.opened_step (h : s.opened = some s') : WriterStep env s s' := by
  unfold Sys.opened at h
  split at h
  · rename_i hw
    obtain rfl := Option.some.inj h
    exact .opened _ _ hw
  · cases h

theorem Sys.openFailed_step {error : String} {readable : Bool}
    (h : s.openFailed error readable = some s') : WriterStep env s s' := by
  unfold Sys.openFailed at h
  split at h
  · rename_i hw
    obtain rfl := Option.some.inj h
    exact Sys.notOpened_step _ _ (.inl hw)
  · rename_i hw
    obtain rfl := Option.some.inj h
    exact Sys.notOpened_step _ _ (.inr ⟨_, _, _, hw⟩)
  · cases h

theorem Sys.history_step {inventory : Inventory} (h : s.history env inventory = some s') :
    WriterStep env s s' := by
  unfold Sys.history at h
  split at h
  · rename_i hw
    obtain rfl := Option.some.inj h
    exact .history _ _ hw
  · cases h

theorem Sys.collect_step (h : s.collect = some s') : WriterStep env s s' := by
  unfold Sys.collect at h
  split at h
  · rename_i hw
    obtain rfl := Option.some.inj h
    exact .collect hw
  · cases h

theorem Sys.syncGap_step {ok : Bool} (h : s.syncGap ok = some s') : WriterStep env s s' := by
  unfold Sys.syncGap at h
  split at h
  · rename_i values hw
    split at h
    · obtain rfl := Option.some.inj h
      exact .syncGap values s.state.gap _ hw
    · obtain rfl := Option.some.inj h
      exact .syncGap values _ s.journal.historyGap hw
  · cases h

theorem Sys.save_step (h : s.save = some s') : WriterStep env s s' := by
  unfold Sys.save at h
  split at h
  · rename_i hw
    obtain rfl := Option.some.inj h
    exact .save _ _ hw
  · cases h

theorem Sys.note_step (h : s.note = some s') : WriterStep env s s' := by
  unfold Sys.note at h
  split at h
  · rename_i hw
    obtain rfl := Option.some.inj h
    exact .note _ _ hw
  · cases h

theorem Sys.saveFailed_step {error : String} (h : s.saveFailed error = some s') :
    WriterStep env s s' := by
  unfold Sys.saveFailed at h
  split at h
  · rename_i hw
    obtain rfl := Option.some.inj h
    exact .saveFailed _ _ _ hw
  · cases h

theorem Sys.clean_step {cleanup : Cleanup} (h : s.clean cleanup = some s') :
    WriterStep env s s' := by
  unfold Sys.clean at h
  split at h
  · rename_i hw
    split at h
    · obtain rfl := Option.some.inj h
      exact .notDue hw
    · obtain rfl := Option.some.inj h
      exact .prune _ hw
    · obtain rfl := Option.some.inj h
      exact .pruneFailed _ hw
  · cases h

theorem Sys.ceiling_step (h : s.ceiling = some s') : WriterStep env s s' := by
  unfold Sys.ceiling at h
  split at h
  · rename_i hw _
    split at h
    · rename_i hdb
      obtain rfl := Option.some.inj h
      exact .ceiling hw hdb
    · cases h
  · cases h

theorem Sys.answer_step (h : s.answer env = some s') : WriterStep env s s' := by
  unfold Sys.answer at h
  split at h
  · rename_i hw hq
    split at h
    · obtain rfl := Option.some.inj h
      exact .answer _ _ hw hq
    · cases h
  · cases h

theorem Sys.noAnswer_step (h : s.noAnswer = some s') : WriterStep env s s' := by
  unfold Sys.noAnswer at h
  split at h
  · rename_i hw
    obtain rfl := Option.some.inj h
    exact .noAnswer (.inl hw)
  · rename_i hw
    obtain rfl := Option.some.inj h
    exact .noAnswer (.inr ⟨_, hw⟩)
  · cases h

/-- Every step is one of a `begin` call, of an `update` call or of the writer. -/
theorem step_cases {a : Action} (h : step env s a = some s') :
    CallStep env s s' ∨ WriterStep env s s' ∨
      ∃ port ack change now, s' = { s with state := s.state.update port ack change now } := by
  cases a with
  | beginCall manager command port ack payload =>
    simp only [step] at h
    split at h
    · obtain rfl := Option.some.inj h
      exact .inl (.arrive _ (newCall_not_reserved ..))
    · cases h
  | update port ack change now =>
    simp only [step] at h
    split at h
    · exact .inr (.inr ⟨port, ack, change, now, (Option.some.inj h).symm⟩)
    · cases h
  | acquire i =>
    obtain ⟨c, hget, h⟩ := Sys.call_some h
    exact .inl (Sys.acquire_step hget h)
  | read i failure =>
    obtain ⟨c, hget, h⟩ := Sys.call_some h
    exact .inl (Sys.read_step hget h)
  | receive i lost =>
    obtain ⟨c, hget, h⟩ := Sys.call_some h
    exact .inl (Sys.receive_step hget h)
  | reserve i now =>
    obtain ⟨c, hget, h⟩ := Sys.call_some h
    exact .inl (Sys.reserve_step hget h)
  | confirm i =>
    obtain ⟨c, hget, h⟩ := Sys.call_some h
    exact .inl (Sys.confirm_step hget h)
  | giveUp i =>
    obtain ⟨c, hget, h⟩ := Sys.call_some h
    exact .inl (Sys.giveUp_step hget h)
  | mark i now =>
    obtain ⟨c, hget, h⟩ := Sys.call_some h
    exact .inl (Sys.mark_step hget h)
  | reread i =>
    obtain ⟨c, hget, h⟩ := Sys.call_some h
    exact .inl (Sys.reread_step hget h)
  | recv request => exact .inr (.inl (Sys.recv_step h))
  | openStart fresh => exact .inr (.inl (Sys.openStart_step h))
  | recover now => exact .inr (.inl (Sys.recover_step h))
  | opened => exact .inr (.inl (Sys.opened_step h))
  | openFailed error readable => exact .inr (.inl (Sys.openFailed_step h))
  | history inventory => exact .inr (.inl (Sys.history_step h))
  | collect => exact .inr (.inl (Sys.collect_step h))
  | syncGap ok => exact .inr (.inl (Sys.syncGap_step h))
  | save => exact .inr (.inl (Sys.save_step h))
  | note => exact .inr (.inl (Sys.note_step h))
  | saveFailed error => exact .inr (.inl (Sys.saveFailed_step h))
  | clean cleanup => exact .inr (.inl (Sys.clean_step h))
  | ceiling => exact .inr (.inl (Sys.ceiling_step h))
  | answer => exact .inr (.inl (Sys.answer_step h))
  | noAnswer => exact .inr (.inl (Sys.noAnswer_step h))

end Inversion

end RcdServer.Tracking
