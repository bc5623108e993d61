import Mathlib.Data.Set.Card
import RcdServer.Opc.Sending

/-!
# One command at a time on a send node

The permit of the port travels with the command from its admission until the worker has finished
with the line. It keeps a second write from being reserved, so the record in `pending` always names
the write that was accepted last, and a notification that does not name the record does nothing.
-/
namespace RcdServer.Opc

open Lib.Run
open Operations (OperationError Port)
open Serial (CommandAckStatus Place)

/-! ## What the port promises -/

/-- The worker uses the line for the command. -/
def Place.running : Place → Bool
  | .entered | .direct | .directSending | .trying _ | .marking _ | .sending _ | .sentOut _
  | .waiting _ | .receiving _ | .missed _ _ => true
  | _ => false

/-- The command holds a permit of the port. -/
def Holds (s : State) (id : Nat) : Prop := ∃ c, s.commands id = some c ∧ c.permit = true

def Runs (s : State) (id : Nat) : Prop :=
  ∃ c place, s.commands id = some c ∧ c.place = some place ∧ Place.running place = true

/-- No status of a command follows a terminal one of the same command. -/
def Final (node : List Shown) : Prop :=
  node.Pairwise fun a b => a.ackId = b.ackId → a.status = .waiting

structure Safe (s : State) : Prop where
  permit : ∀ i j, Holds s i → Holds s j → i = j
  counted : s.port.pendingCommands = {i | Holds s i}.ncard
  line : ∀ i j, Runs s i → Runs s j → i = j
  newest : ∀ w ∈ s.node, w.newest = some w.ackId
  final : Final s.node

/-- The command on whose behalf a step may take the pending record away. -/
def speaker (s : State) : Action → Option Nat
  | .drain => s.acks.head?.bind CommandAckUpdate.ackId
  | .drainLocal => s.localAcks.head?.bind CommandAckUpdate.ackId
  | .sweep => s.candidate.map Prod.fst
  | .proceed id _ => some id
  | _ => none

/-- The record stays, unless the step speaks for its command or accepts the next write. -/
def Retains (s : State) (a : Action) (s' : State) (p : PendingCommand) : Prop :=
  speaker s a = some p.ackId ∨ s'.pending = some p ∨
    ∃ q r, a = .proceed q.ackId r ∧ s'.pending = some q ∧ s'.accepted = s.accepted ++ [q.ackId]

/-! ## Stages -/

/-- The write is not reserved yet. -/
def Stage.early : Stage → Bool
  | .entered | .locked | .timed _ | .admitting _ | .admitted _ => true
  | _ => false

/-- The thread of the writer has the permit. -/
def Stage.holding : Stage → Bool
  | .admitted _ | .reserved | .begun | .ready | .unsent | .withdrawn => true
  | _ => false

/-- The write is reserved and the worker does not have it. -/
def Stage.own : Stage → Bool
  | .reserved | .begun | .ready | .unsent => true
  | _ => false

/-- The worker may have the command. -/
def Stage.handedOver : Stage → Bool
  | .sent | .returned _ | .settled => true
  | _ => false

/-- A step of the writer that neither takes the permit nor reserves nor hands over. -/
def Stage.follows (x y : Stage) : Bool :=
  (!y.early || x.early) && (!y.holding || x.holding) && (!y.own || x.own) &&
    (!x.handedOver || y.handedOver)

theorem Stage.follows_self (x : Stage) : x.follows x = true := by
  simp [Stage.follows]

theorem Stage.own_holding {x : Stage} (h : x.own = true) : x.holding = true := by
  cases x <;> first | rfl | cases h

theorem Stage.early_or_holding {x : Stage} (h : x.handedOver = true) :
    x.early = false ∧ x.holding = false := by
  cases x <;> first | exact ⟨rfl, rfl⟩ | cases h

/-! ## The invariant -/

structure CmdOk (s : State) (id : Nat) (c : Cmd) : Prop where
  early : c.stage.early = true → id ∉ s.accepted
  holding : c.stage.holding = true → c.permit = true
  own : c.origin ≠ .method → c.stage.own = true → ∀ p, s.pending = some p → p.ackId = id
  placed : c.place.isSome = true → c.stage.handedOver = true
  running : ∀ place, c.place = some place → Place.running place = true → c.permit = true

structure Inv (s : State) : Prop where
  single : ∀ i j, Holds s i → Holds s j → i = j
  counted : ∀ i, Holds s i → s.port.pendingCommands = 1
  free : (∀ i, ¬ Holds s i) → s.port.pendingCommands = 0
  commands : ∀ id c, s.commands id = some c → CmdOk s id c
  known : ∀ id ∈ s.accepted, (s.commands id).isSome = true
  last : ∀ p, s.pending = some p → s.accepted.getLast? = some p.ackId
  shown : ∀ w ∈ s.node, w.newest = some w.ackId ∧ w.ackId ∈ s.accepted
  closed : ∀ w ∈ s.node, isTerminal w.status = true → ∀ p, s.pending = some p → p.ackId ≠ w.ackId
  final : Final s.node

theorem inv_initial (clock : Nat) (port : Port) : Inv (State.initial clock port) where
  single i j hi _ := by
    obtain ⟨c, hc, -⟩ := hi
    cases hc
  counted i hi := by
    obtain ⟨c, hc, -⟩ := hi
    cases hc
  free _ := rfl
  commands id c hc := by cases hc
  known id hid := by cases hid
  last p hp := by cases hp
  shown w hw := by cases hw
  closed w hw := by cases hw
  final := List.Pairwise.nil

theorem Inv.safe {s : State} (h : Inv s) : Safe s where
  permit := h.single
  counted := by
    by_cases hheld : ∃ i, Holds s i
    · obtain ⟨i, hi⟩ := hheld
      have honly : {j | Holds s j} = {i} := by
        ext j
        exact ⟨fun hj => h.single j i hj hi, fun hj => hj ▸ hi⟩
      rw [honly, Set.ncard_singleton, h.counted i hi]
    · have hnone : {j | Holds s j} = ∅ := by
        ext j
        exact iff_of_false (fun hj => hheld ⟨j, hj⟩) id
      rw [hnone, Set.ncard_empty, h.free fun i hi => hheld ⟨i, hi⟩]
  line i j hi hj := by
    obtain ⟨c, place, hc, hplace, hrun⟩ := hi
    obtain ⟨d, other, hd, hother, hrun'⟩ := hj
    have hci : Holds s i := ⟨c, hc, (h.commands i c hc).running place hplace hrun⟩
    have hdj : Holds s j := ⟨d, hd, (h.commands j d hd).running other hother hrun'⟩
    exact h.single i j hci hdj
  newest w hw := (h.shown w hw).1
  final := h.final

/-! ## Frames -/

/-- What the invariant speaks of is the same. -/
structure Same (s t : State) : Prop where
  count : t.port.pendingCommands = s.port.pendingCommands
  commands : t.commands = s.commands
  pending : t.pending = s.pending
  accepted : t.accepted = s.accepted
  node : t.node = s.node

theorem Same.refl (s : State) : Same s s := ⟨rfl, rfl, rfl, rfl, rfl⟩

theorem CmdOk.frame {s t : State} {id : Nat} {c : Cmd} (h : CmdOk s id c)
    (hpending : t.pending = s.pending) (haccepted : t.accepted = s.accepted) : CmdOk t id c where
  early he := by
    rw [haccepted]
    exact h.early he
  holding := h.holding
  own ho hs p hp := h.own ho hs p (hpending ▸ hp)
  placed := h.placed
  running := h.running

theorem Holds.frame {s t : State} (ht : t.commands = s.commands) {i : Nat} : Holds t i ↔ Holds s i := by
  unfold Holds
  rw [ht]

theorem Inv.frame {s t : State} (h : Inv s) (ht : Same s t) : Inv t where
  single i j hi hj := h.single i j ((Holds.frame ht.commands).mp hi) ((Holds.frame ht.commands).mp hj)
  counted i hi := ht.count.trans (h.counted i ((Holds.frame ht.commands).mp hi))
  free hn := ht.count.trans (h.free fun i hi => hn i ((Holds.frame ht.commands).mpr hi))
  commands id c hc := (h.commands id c (ht.commands ▸ hc)).frame ht.pending ht.accepted
  known id hid := by
    rw [ht.commands]
    exact h.known id (ht.accepted ▸ hid)
  last p hp := by
    rw [ht.accepted]
    exact h.last p (ht.pending ▸ hp)
  shown w hw := by
    rw [ht.accepted]
    exact h.shown w (ht.node ▸ hw)
  closed w hw ht' p hp := h.closed w (ht.node ▸ hw) ht' p (ht.pending ▸ hp)
  final := by
    rw [ht.node]
    exact h.final

/-! ## One command changes -/

@[simp] theorem put_self (s : State) (id : Nat) (c : Cmd) : (s.put id c).commands id = some c :=
  Function.update_self ..

theorem put_ne (s : State) {id j : Nat} (c : Cmd) (h : j ≠ id) :
    (s.put id c).commands j = s.commands j :=
  Function.update_of_ne h ..

theorem put_cases {s : State} {id j : Nat} {c d : Cmd} (h : (s.put id c).commands j = some d) :
    (j = id ∧ d = c) ∨ (j ≠ id ∧ s.commands j = some d) := by
  by_cases hj : j = id
  · subst hj
    rw [put_self] at h
    exact .inl ⟨rfl, (Option.some.inj h).symm⟩
  · rw [put_ne s c hj] at h
    exact .inr ⟨hj, h⟩

theorem holds_put {s : State} {id j : Nat} {c : Cmd} :
    Holds (s.put id c) j ↔ if j = id then c.permit = true else Holds s j := by
  split_ifs with hj
  · subst hj
    simp [Holds]
  · simp [Holds, put_ne s c hj]

/-- A command changes and keeps what it holds. -/
theorem Inv.put {s : State} {id : Nat} {c : Cmd} (h : Inv s) (hpermit : c.permit = true ↔ Holds s id)
    (hok : CmdOk s id c) : Inv (s.put id c) := by
  have hholds : ∀ j, Holds (s.put id c) j ↔ Holds s j := by
    intro j
    rw [holds_put]
    split_ifs with hj
    · rw [hj, hpermit]
    · exact Iff.rfl
  refine ⟨?_, ?_, ?_, ?_, ?_, h.last, h.shown, h.closed, h.final⟩
  · intro i j hi hj
    exact h.single i j ((hholds i).mp hi) ((hholds j).mp hj)
  · intro i hi
    exact h.counted i ((hholds i).mp hi)
  · intro hn
    exact h.free fun i hi => hn i ((hholds i).mpr hi)
  · intro j d hd
    rcases put_cases hd with ⟨rfl, rfl⟩ | ⟨-, hd⟩
    · exact hok.frame rfl rfl
    · exact (h.commands j d hd).frame rfl rfl
  · intro j hj
    by_cases hid : j = id
    · rw [hid, put_self]
      rfl
    · rw [put_ne s c hid]
      exact h.known j hj

theorem CmdOk.follow {s : State} {id : Nat} {c c' : Cmd} (h : CmdOk s id c)
    (horigin : c'.origin = c.origin) (hpermit : c'.permit = c.permit) (hplace : c'.place = c.place)
    (hfollows : c.stage.follows c'.stage = true) : CmdOk s id c' := by
  simp only [Stage.follows, Bool.and_eq_true, Bool.or_eq_true, Bool.not_eq_true'] at hfollows
  obtain ⟨⟨⟨hearly, hholding⟩, hown⟩, hplaced⟩ := hfollows
  refine ⟨?_, ?_, ?_, ?_, ?_⟩
  · intro he
    exact h.early (hearly.resolve_left (by simp [he]))
  · intro hh
    rw [hpermit]
    exact h.holding (hholding.resolve_left (by simp [hh]))
  · intro ho hs
    rw [horigin] at ho
    exact h.own ho (hown.resolve_left (by simp [hs]))
  · intro hp
    rw [hplace] at hp
    exact hplaced.resolve_left (by simp [h.placed hp])
  · intro place hp hrun
    rw [hplace] at hp
    rw [hpermit]
    exact h.running place hp hrun

/-! ## What a writer does -/

/-- The steps of a writer, as far as the invariant goes. -/
inductive Effect (s : State) (id : Nat) (c : Cmd) : State → Prop where
  | move {t : State} {c' : Cmd} (hsame : Same s t) (horigin : c'.origin = c.origin)
      (hpermit : c'.permit = c.permit) (hplace : c'.place = c.place)
      (hfollows : c.stage.follows c'.stage = true) : Effect s id c (t.put id c')
  | permitted {port : Port} {stage : Stage} (hfree : s.port.pendingCommands = 0)
      (hcount : port.pendingCommands = 1) (hearly : c.stage.early = true)
      (hown : stage.own = true → c.origin = .method) :
      Effect s id c ({ s with port := port }.put id { c with stage := stage, permit := true })
  | reserve {deadline : Nat} (hstage : c.stage = .admitted deadline) :
      Effect s id c ({ s with
        lock := none
        pending := some ⟨id, deadline⟩
        accepted := s.accepted ++ [id] }.put id { c with stage := .reserved })
  | hand (hstage : c.stage = .ready) :
      Effect s id c (s.put id { c with stage := .sent, place := some .channel })
  | withdraw (hstage : c.stage = .unsent) (horigin : c.origin ≠ .method) :
      Effect s id c ({ s with pending := none }.put id { c with stage := .withdrawn })

theorem admitCommand_ok {s : State} {maintenance : Option OperationError} {port : Port}
    (h : s.admitCommand maintenance = .ok port) :
    s.port.pendingCommands = 0 ∧ port.pendingCommands = 1 := by
  unfold State.admitCommand at h
  cases maintenance with
  | some e => cases h
  | none =>
    simp only at h
    split_ifs at h with hshutdown hbusy henabled
    cases h
    simp only [Bool.or_eq_true, decide_eq_true_eq, not_or, Nat.not_lt, Nat.le_zero] at hbusy
    exact ⟨hbusy.2, by simp [hbusy.2]⟩

theorem writeNode_effect {cfg : Config} {s s' : State} {id : Nat} {c : Cmd} {r : Reply}
    (horigin : c.origin ≠ .method) (h : s.writeNode cfg id c r = some s') : Effect s id c s' := by
  cases hstage : c.stage with
  | entered =>
    simp only [State.writeNode, hstage] at h
    split_ifs at h with hlock
    obtain rfl := Option.some.inj h
    exact .move ⟨rfl, rfl, rfl, rfl, rfl⟩ rfl rfl rfl (by rw [hstage]; rfl)
  | locked =>
    simp only [State.writeNode, hstage] at h
    split_ifs at h with hunfinished
    · obtain rfl := Option.some.inj h
      exact .move ⟨rfl, rfl, rfl, rfl, rfl⟩ rfl rfl rfl (by rw [hstage]; rfl)
    · obtain rfl := Option.some.inj h
      exact .move (Same.refl s) rfl rfl rfl (by rw [hstage]; rfl)
  | timed deadline =>
    simp only [State.writeNode, hstage] at h
    split_ifs at h with hlate
    · obtain rfl := Option.some.inj h
      exact .move ⟨rfl, rfl, rfl, rfl, rfl⟩ rfl rfl rfl (by rw [hstage]; rfl)
    · obtain rfl := Option.some.inj h
      exact .move (Same.refl s) rfl rfl rfl (by rw [hstage]; rfl)
  | admitting deadline =>
    simp only [State.writeNode, hstage] at h
    cases hcommand : s.admitCommand r.maintenance with
    | ok port =>
      rw [hcommand] at h
      obtain rfl := Option.some.inj h
      obtain ⟨hfree, hcount⟩ := admitCommand_ok hcommand
      exact .permitted hfree hcount (by rw [hstage]; rfl) (fun hown => by cases hown)
    | error e =>
      rw [hcommand] at h
      obtain rfl := Option.some.inj h
      exact .move ⟨rfl, rfl, rfl, rfl, rfl⟩ rfl rfl rfl (by rw [hstage]; rfl)
  | admitted deadline =>
    simp only [State.writeNode, hstage] at h
    split_ifs at h with hlate
    · obtain rfl := Option.some.inj h
      exact .move ⟨rfl, rfl, rfl, rfl, rfl⟩ rfl rfl rfl (by rw [hstage]; rfl)
    · obtain rfl := Option.some.inj h
      exact .reserve hstage
  | refused answer =>
    simp only [State.writeNode, hstage] at h
    split_ifs at h with hpermit
    obtain rfl := Option.some.inj h
    exact .move (Same.refl s) rfl rfl rfl (by rw [hstage]; rfl)
  | reserved =>
    simp only [State.writeNode, hstage] at h
    split_ifs at h with htracked
    all_goals
      obtain rfl := Option.some.inj h
      exact .move (Same.refl s) rfl rfl rfl (by rw [hstage]; rfl)
  | begun =>
    simp only [State.writeNode, hstage] at h
    obtain rfl := Option.some.inj h
    exact .move (Same.refl s) rfl rfl rfl (by rw [hstage]; rfl)
  | ready =>
    simp only [State.writeNode, hstage] at h
    split_ifs at h with hconnected
    · obtain rfl := Option.some.inj h
      exact .hand hstage
    · obtain rfl := Option.some.inj h
      exact .move (Same.refl s) rfl rfl rfl (by rw [hstage]; rfl)
  | unsent =>
    simp only [State.writeNode, hstage] at h
    split_ifs at h with hlock
    obtain rfl := Option.some.inj h
    exact .withdraw hstage horigin
  | withdrawn =>
    simp only [State.writeNode, hstage] at h
    obtain rfl := Option.some.inj h
    exact .move (Same.refl s) rfl rfl rfl (by rw [hstage]; rfl)
  | failed =>
    simp only [State.writeNode, hstage] at h
    split_ifs at h with hpermit
    obtain rfl := Option.some.inj h
    exact .move (Same.refl s) rfl rfl rfl (by rw [hstage]; rfl)
  | sent =>
    simp only [State.writeNode, hstage] at h
    obtain rfl := Option.some.inj h
    exact .move ⟨rfl, rfl, rfl, rfl, rfl⟩ rfl rfl rfl (by rw [hstage]; rfl)
  | returned answer =>
    simp only [State.writeNode, hstage] at h
    split at h
    · obtain rfl := Option.some.inj h
      exact .move (Same.refl s) rfl rfl rfl (by rw [hstage]; rfl)
    · cases h
  | settled => simp [State.writeNode, hstage] at h

theorem callMethod_effect {cfg : Config} {s s' : State} {id : Nat} {c : Cmd} {r : Reply}
    (horigin : c.origin = .method) (h : s.callMethod cfg id c r = some s') : Effect s id c s' := by
  cases hstage : c.stage with
  | entered =>
    simp only [State.callMethod, hstage] at h
    cases hcommand : s.admitCommand r.maintenance with
    | ok port =>
      rw [hcommand] at h
      obtain rfl := Option.some.inj h
      obtain ⟨hfree, hcount⟩ := admitCommand_ok hcommand
      exact .permitted hfree hcount (by rw [hstage]; rfl) (fun _ => horigin)
    | error e =>
      rw [hcommand] at h
      obtain rfl := Option.some.inj h
      exact .move (Same.refl s) rfl rfl rfl (by rw [hstage]; rfl)
  | reserved | begun | unsent | sent =>
    simp only [State.callMethod, hstage] at h
    obtain rfl := Option.some.inj h
    exact .move (Same.refl s) rfl rfl rfl (by rw [hstage]; rfl)
  | ready =>
    simp only [State.callMethod, hstage] at h
    split_ifs at h with hconnected
    · obtain rfl := Option.some.inj h
      exact .hand hstage
    · obtain rfl := Option.some.inj h
      exact .move (Same.refl s) rfl rfl rfl (by rw [hstage]; rfl)
  | failed =>
    simp only [State.callMethod, hstage] at h
    split_ifs at h with hpermit
    obtain rfl := Option.some.inj h
    exact .move (Same.refl s) rfl rfl rfl (by rw [hstage]; rfl)
  | locked | timed | admitting | admitted | refused | withdrawn | returned | settled =>
    simp [State.callMethod, hstage] at h

theorem proceed_effect {cfg : Config} {s s' : State} {id : Nat} {r : Reply}
    (h : s.proceed cfg id r = some s') : ∃ c, s.commands id = some c ∧ Effect s id c s' := by
  obtain ⟨c, hc, hw⟩ := Option.bind_eq_some_iff.mp h
  refine ⟨c, hc, ?_⟩
  cases horigin : c.origin with
  | node =>
    rw [horigin] at hw
    exact writeNode_effect (by simp [horigin]) hw
  | tracked =>
    rw [horigin] at hw
    exact writeNode_effect (by simp [horigin]) hw
  | method =>
    rw [horigin] at hw
    exact callMethod_effect horigin hw

/-! ## Steps of the writers keep the invariant -/

theorem Inv.holds_iff {s : State} {id : Nat} {c : Cmd} (hc : s.commands id = some c) :
    Holds s id ↔ c.permit = true := by
  simp [Holds, hc]

/-- The first permit of a free port. -/
theorem Inv.permitted {s : State} {id : Nat} {c : Cmd} {port : Port} {stage : Stage} (h : Inv s)
    (hc : s.commands id = some c) (hfree : s.port.pendingCommands = 0)
    (hcount : port.pendingCommands = 1) (hearly : c.stage.early = true)
    (hown : stage.own = true → c.origin = .method) :
    Inv ({ s with port := port }.put id { c with stage := stage, permit := true }) := by
  have hnone : ∀ j, ¬ Holds s j := by
    intro j hj
    have hone := h.counted j hj
    omega
  have honly : ∀ j, Holds ({ s with port := port }.put id { c with stage := stage, permit := true }) j →
      j = id := by
    intro j hj
    by_contra hne
    rw [holds_put, if_neg hne] at hj
    exact hnone j hj
  have hok := h.commands id c hc
  have hunplaced : c.place = none := by
    cases hplace : c.place with
    | none => rfl
    | some place =>
      have hover := hok.placed (by rw [hplace]; rfl)
      rw [(Stage.early_or_holding hover).1] at hearly
      cases hearly
  refine ⟨?_, ?_, ?_, ?_, ?_, h.last, h.shown, h.closed, h.final⟩
  · intro i j hi hj
    rw [honly i hi, honly j hj]
  · intro i _
    exact hcount
  · intro hn
    exact absurd (holds_put.mpr (by rw [if_pos rfl])) (hn id)
  · intro j d hd
    rcases put_cases hd with ⟨rfl, rfl⟩ | ⟨-, hd⟩
    · refine ⟨fun _ => hok.early hearly, fun _ => rfl, fun ho hs => absurd (hown hs) ho, ?_, fun _ _ _ => rfl⟩
      intro hp
      change c.place.isSome = true at hp
      rw [hunplaced] at hp
      cases hp
    · exact (h.commands j d hd).frame rfl rfl
  · intro j hj
    by_cases hid : j = id
    · rw [hid, put_self]
      rfl
    · rw [put_ne _ _ hid]
      exact h.known j hj

/-- The write becomes the newest accepted one. -/
theorem Inv.reserve {s : State} {id deadline : Nat} {c : Cmd} (h : Inv s)
    (hc : s.commands id = some c) (hstage : c.stage = .admitted deadline) :
    Inv ({ s with
      lock := none
      pending := some ⟨id, deadline⟩
      accepted := s.accepted ++ [id] }.put id { c with stage := .reserved }) := by
  have hok := h.commands id c hc
  have hpermit := hok.holding (by rw [hstage]; rfl)
  have hfresh := hok.early (by rw [hstage]; rfl)
  have hholds : ∀ j, Holds ({ s with
      lock := none
      pending := some ⟨id, deadline⟩
      accepted := s.accepted ++ [id] }.put id { c with stage := .reserved }) j ↔ Holds s j := by
    intro j
    rw [holds_put]
    split_ifs with hj
    · rw [hj, Inv.holds_iff hc]
    · exact Iff.rfl
  refine ⟨?_, ?_, ?_, ?_, ?_, ?_, ?_, ?_, h.final⟩
  · intro i j hi hj
    exact h.single i j ((hholds i).mp hi) ((hholds j).mp hj)
  · intro i hi
    exact h.counted i ((hholds i).mp hi)
  · intro hn
    exact h.free fun i hi => hn i ((hholds i).mpr hi)
  · intro j d hd
    rcases put_cases hd with ⟨rfl, rfl⟩ | ⟨hne, hd⟩
    · refine ⟨fun he => (by cases he), fun _ => hpermit, ?_, ?_, hok.running⟩
      · intro _ _ p hp
        rw [← Option.some.inj hp]
      · intro hp
        have hover := hok.placed hp
        rw [hstage] at hover
        cases hover
    · have hold := h.commands j d hd
      refine ⟨?_, hold.holding, ?_, hold.placed, hold.running⟩
      · intro he hmem
        rcases List.mem_append.mp hmem with hmem | hmem
        · exact hold.early he hmem
        · exact hne (List.mem_singleton.mp hmem)
      · intro _ hs
        have hother : Holds s j := ⟨d, hd, hold.holding (Stage.own_holding hs)⟩
        exact absurd (h.single j id hother ⟨c, hc, hpermit⟩) hne
  · intro j hj
    by_cases hid : j = id
    · rw [hid, put_self]
      rfl
    · rw [put_ne _ _ hid]
      rcases List.mem_append.mp hj with hj | hj
      · exact h.known j hj
      · exact absurd (List.mem_singleton.mp hj) hid
  · intro p hp
    rw [← Option.some.inj hp]
    exact List.getLast?_concat
  · intro w hw
    obtain ⟨hnewest, hmem⟩ := h.shown w hw
    exact ⟨hnewest, List.mem_append_left _ hmem⟩
  · intro w hw _ p hp heq
    rw [← Option.some.inj hp] at heq
    have hmem := (h.shown w hw).2
    rw [← heq] at hmem
    exact hfresh hmem

/-- Only a record of the command that gives up is withdrawn. -/
theorem Inv.drop {s : State} (h : Inv s) : Inv { s with pending := none } where
  single := h.single
  counted := h.counted
  free := h.free
  commands id c hc :=
    have hok := h.commands id c hc
    ⟨hok.early, hok.holding, fun _ _ p hp => (by cases hp), hok.placed, hok.running⟩
  known := h.known
  last p hp := by cases hp
  shown := h.shown
  closed w hw _ p hp := by cases hp
  final := h.final

theorem Inv.effect {s s' : State} {id : Nat} {c : Cmd} (h : Inv s) (hc : s.commands id = some c)
    (he : Effect s id c s') : Inv s' := by
  have hok := h.commands id c hc
  cases he with
  | move hsame horigin hpermit hplace hfollows =>
    refine (h.frame hsame).put ?_ ?_
    · rw [Holds.frame hsame.commands, Inv.holds_iff hc, hpermit]
    · exact (hok.follow horigin hpermit hplace hfollows).frame hsame.pending hsame.accepted
  | permitted hfree hcount hearly hown => exact h.permitted hc hfree hcount hearly hown
  | reserve hstage => exact h.reserve hc hstage
  | hand hstage =>
    refine h.put (Inv.holds_iff hc).symm ?_
    have hpermit := hok.holding (by rw [hstage]; rfl)
    exact ⟨fun he => (by cases he), fun hh => (by cases hh), fun _ hs => (by cases hs), fun _ => rfl,
      fun _ _ _ => hpermit⟩
  | withdraw hstage horigin =>
    have hpermit := hok.holding (by rw [hstage]; rfl)
    refine h.drop.put (Inv.holds_iff (s := { s with pending := none }) hc).symm ?_
    refine ⟨fun he => (by cases he), fun _ => hpermit, fun _ hs => (by cases hs), ?_, hok.running⟩
    intro hp
    have hover := hok.placed hp
    rw [hstage] at hover
    cases hover

/-! ## Permits come back -/

theorem Place.releases_running {place : Place} (h : Place.releases place = true) :
    Place.running place = false := by
  cases place <;> first | rfl | cases h

/-- Who may drop a permit has it, and nobody works with the command. -/
theorem Cmd.mayRelease_ok {s : State} {id : Nat} {c : Cmd} (hok : CmdOk s id c)
    (h : c.mayRelease = true) :
    c.permit = true ∧ c.stage.holding = false ∧
      ∀ place, c.place = some place → Place.running place = false := by
  have hunplaced : c.stage.handedOver = false → c.place = none := by
    intro hover
    cases hplace : c.place with
    | none => rfl
    | some place =>
      have hplaced := hok.placed (by rw [hplace]; rfl)
      rw [hover] at hplaced
      cases hplaced
  unfold Cmd.mayRelease at h
  split at h
  · rename_i hstage
    refine ⟨h, by rw [hstage]; rfl, ?_⟩
    intro place' hp
    rw [hunplaced (by rw [hstage]; rfl)] at hp
    cases hp
  · rename_i hstage
    refine ⟨h, by rw [hstage]; rfl, ?_⟩
    intro place' hp
    rw [hunplaced (by rw [hstage]; rfl)] at hp
    cases hp
  · rename_i stage place hstage hplace hrefused hfailed
    obtain ⟨hpermit, hreleases⟩ := Bool.and_eq_true_iff.mp h
    refine ⟨hpermit, (Stage.early_or_holding (hok.placed (by rw [hplace]; rfl))).2, ?_⟩
    intro place' hp
    rw [hplace] at hp
    obtain rfl := Option.some.inj hp
    exact Place.releases_running hreleases
  · cases h

theorem Inv.release {s s' : State} {id : Nat} (h : Inv s) (hr : s.release id = some s') : Inv s' := by
  obtain ⟨c, hc, hw⟩ := Option.bind_eq_some_iff.mp hr
  have hok := h.commands id c hc
  split_ifs at hw with hmay
  obtain rfl := Option.some.inj hw
  obtain ⟨hpermit, hholding, hidle⟩ := Cmd.mayRelease_ok hok hmay
  have hone := h.counted id ⟨c, hc, hpermit⟩
  have hnone : ∀ j, ¬ Holds ({ s with
      port := { s.port with pendingCommands := s.port.pendingCommands - 1 } }.put id
        { c with permit := false }) j := by
    intro j hj
    rw [holds_put] at hj
    split_ifs at hj with hid
    exact hid (h.single j id hj ⟨c, hc, hpermit⟩)
  refine ⟨?_, ?_, ?_, ?_, ?_, h.last, h.shown, h.closed, h.final⟩
  · intro i j hi
    exact absurd hi (hnone i)
  · intro i hi
    exact absurd hi (hnone i)
  · intro _
    change s.port.pendingCommands - 1 = 0
    omega
  · intro j d hd
    rcases put_cases hd with ⟨rfl, rfl⟩ | ⟨-, hd⟩
    · refine ⟨hok.early, ?_, hok.own, hok.placed, ?_⟩
      · intro hh
        change c.stage.holding = true at hh
        rw [hholding] at hh
        cases hh
      · intro place hp hrun
        rw [hidle place hp] at hrun
        cases hrun
    · exact (h.commands j d hd).frame rfl rfl
  · intro j hj
    by_cases hid : j = id
    · rw [hid, put_self]
      rfl
    · rw [put_ne _ _ hid]
      exact h.known j hj

/-! ## The worker -/

/-- Only `pop` brings a command onto the line. -/
theorem work_running {t t' : Serial.Sys} {o : Serial.Outcome} (h : t.work o = some t')
    (hrun : Place.running t'.place = true) : Place.running t.place = true := by
  cases hp : t.place with
  | entered | direct | directSending | trying | marking | sending | sentOut | waiting | receiving
  | missed => rfl
  | expiring error =>
    simp only [Serial.Sys.work, hp] at h
    obtain rfl := Option.some.inj h
    simp only [Serial.Sys.record] at hrun
    split_ifs at hrun <;> cases hrun
  | directSent | unsent | acknowledged | failing | leaving | notifying =>
    simp only [Serial.Sys.work, hp] at h
    obtain rfl := Option.some.inj h
    cases hrun
  | channel | queued | done => simp [Serial.Sys.work, hp] at h

theorem afterReject_idle (t : Serial.Sys) : Place.running t.afterReject = false := by
  unfold Serial.Sys.afterReject
  split_ifs <;> rfl

theorem serve_running {cfg : Config} {clock : Nat} {c : Cmd} {w : Serve} {place place' : Place}
    {v : Tracking.Snapshot} (hwait : w.waitsFor place c.permit = true)
    (hplace : Place.running place = true → c.permit = true)
    (h : c.serve cfg clock w place = some (v, place')) (hrun : Place.running place' = true) :
    c.permit = true := by
  cases w with
  | enqueue => exact hwait
  | pop => exact hwait
  | work o =>
    obtain ⟨t, ht, heq⟩ := Option.map_eq_some_iff.mp h
    cases heq
    exact hplace (work_running ht hrun)
  | reject | shutdown =>
    obtain ⟨t, ht, heq⟩ := Option.map_eq_some_iff.mp h
    cases heq
    simp only [Serial.step] at ht
    split_ifs at ht
    obtain rfl := Option.some.inj ht
    change Place.running (c.sys place cfg.commandRetryCount clock).afterReject = true at hrun
    rw [afterReject_idle] at hrun
    cases hrun
  | panic =>
    obtain ⟨t, ht, heq⟩ := Option.map_eq_some_iff.mp h
    cases heq
    simp only [Serial.step] at ht
    split_ifs at ht
    obtain rfl := Option.some.inj ht
    cases hrun
  | lose =>
    simp only [Cmd.serve, Serve.action] at h
    split_ifs at h
    cases h
    cases hrun

theorem Inv.serve {cfg : Config} {s s' : State} {id : Nat} {w : Serve} (h : Inv s)
    (hs : s.serve cfg id w = some s') : Inv s' := by
  obtain ⟨c, hc, hw⟩ := Option.bind_eq_some_iff.mp hs
  obtain ⟨place, hplace, hw⟩ := Option.bind_eq_some_iff.mp hw
  have hok := h.commands id c hc
  split_ifs at hw with hbusy
  obtain ⟨⟨v, place'⟩, hserve, rfl⟩ := Option.map_eq_some_iff.mp hw
  have hwait : w.waitsFor place c.permit = true := by
    simp only [Bool.or_eq_true, Bool.not_eq_true', not_or, Bool.not_eq_false] at hbusy
    exact hbusy.2
  refine h.put (Inv.holds_iff hc).symm ?_
  refine ⟨hok.early, hok.holding, hok.own, fun _ => hok.placed (by rw [hplace]; rfl), ?_⟩
  intro other hother hrun
  obtain rfl := Option.some.inj hother
  have hpermit : c.permit = true := serve_running hwait (hok.running place hplace) hserve hrun
  exact hpermit

/-! ## The ACK task -/

/-- A notification reaches the node only if it names the record; a terminal one removes it. -/
theorem applyAck_cases (pending : Option PendingCommand) (update : CommandAckUpdate) :
    applyAckPendingState pending update = (pending, false) ∨
      ∃ p, pending = some p ∧ update.ackId = some p.ackId ∧
        applyAckPendingState pending update =
          (if isTerminal update.status then none else some p, true) := by
  unfold applyAckPendingState
  split
  · exact .inl rfl
  · exact .inl rfl
  · rename_i ackId previous hack
    by_cases hother : previous.ackId = ackId
    · exact .inr ⟨previous, rfl, by rw [hack, hother], by rw [if_neg (by simpa using hother)]⟩
    · exact .inl (by rw [if_pos hother])

/-- What `process` leaves: nothing, or one status of the newest write. -/
theorem process_cases {s s' : State} {update : CommandAckUpdate} (h : s.process update = some s') :
    s' = s ∨ ∃ p, s.pending = some p ∧ update.ackId = some p.ackId ∧
      s' = { s with
        pending := if isTerminal update.status then none else some p
        node := s.node ++ [⟨p.ackId, update.status, s.accepted.getLast?⟩] } := by
  unfold State.process at h
  split at h
  · cases h
  obtain rfl := Option.some.inj h
  rcases applyAck_cases s.pending update with happly | ⟨p, hp, hack, happly⟩
  · rw [happly]
    exact .inl rfl
  · rw [happly]
    refine .inr ⟨p, hp, hack, ?_⟩
    rw [hack]
    rfl

theorem Inv.write {s : State} {p : PendingCommand} {status : CommandAckStatus} (h : Inv s)
    (hp : s.pending = some p) :
    Inv { s with
      pending := if isTerminal status then none else some p
      node := s.node ++ [⟨p.ackId, status, s.accepted.getLast?⟩] } := by
  have hlast := h.last p hp
  have hkeep : ∀ q, (if isTerminal status then none else some p) = some q →
      q = p ∧ isTerminal status = false := by
    intro q hq
    split_ifs at hq with hterminal
    exact ⟨(Option.some.inj hq).symm, by simpa using hterminal⟩
  refine ⟨h.single, h.counted, h.free, ?_, h.known, ?_, ?_, ?_, ?_⟩
  · intro id c hc
    have hok := h.commands id c hc
    refine ⟨hok.early, hok.holding, ?_, hok.placed, hok.running⟩
    intro ho hs q hq
    rw [(hkeep q hq).1]
    exact hok.own ho hs p hp
  · intro q hq
    rw [(hkeep q hq).1]
    exact hlast
  · intro w hw
    rcases List.mem_append.mp hw with hw | hw
    · exact h.shown w hw
    · rw [List.mem_singleton.mp hw]
      exact ⟨hlast, List.mem_of_getLast? hlast⟩
  · intro w hw hterminal q hq
    obtain ⟨rfl, hopen⟩ := hkeep q hq
    rcases List.mem_append.mp hw with hw | hw
    · exact h.closed w hw hterminal q hp
    · rw [List.mem_singleton.mp hw, hopen] at hterminal
      cases hterminal
  · refine List.pairwise_append.mpr ⟨h.final, List.pairwise_singleton .., ?_⟩
    intro a ha b hb heq
    rw [List.mem_singleton.mp hb] at heq
    cases hstatus : a.status with
    | waiting => rfl
    | received => exact absurd heq.symm (h.closed a ha (by rw [hstatus]; rfl) p hp)
    | failed => exact absurd heq.symm (h.closed a ha (by rw [hstatus]; rfl) p hp)

theorem Inv.process {s s' : State} {update : CommandAckUpdate} (h : Inv s)
    (hp : s.process update = some s') : Inv s' := by
  rcases process_cases hp with rfl | ⟨p, hpending, -, rfl⟩
  · exact h
  · exact h.write hpending

/-! ## Every step -/

theorem Request.command_new {request : Request} {c : Cmd} (h : request.command = some c) :
    ∃ origin data notAfter recorded evidence, c = Cmd.new origin data notAfter recorded evidence := by
  cases request with
  | write value =>
    simp only [Request.command] at h
    rcases hread : readValue value with e | _ | data
    · rw [hread] at h
      cases h
    · rw [hread] at h
      cases h
    · rw [hread] at h
      exact ⟨_, _, _, _, _, (Option.some.inj h).symm⟩
  | submit hexData deadline evidence =>
    simp only [Request.command] at h
    split_ifs at h
    rcases hbuild : buildHexCommand hexData with e | built
    · rw [hbuild] at h
      cases h
    · rw [hbuild] at h
      rcases hread : readValue (some (.string hexData)) with e | _ | data
      · rw [hread] at h
        cases h
      · rw [hread] at h
        cases h
      · rw [hread] at h
        exact ⟨_, _, _, _, _, (Option.some.inj h).symm⟩
  | call argument =>
    rcases argument with _ | text | _
    · cases h
    · simp only [Request.command] at h
      split_ifs at h
      rcases hbuild : buildHexCommand (Lib.Text.trim text) with e | data
      · rw [hbuild] at h
        cases h
      · rw [hbuild] at h
        exact ⟨_, _, _, _, _, (Option.some.inj h).symm⟩
    · cases h

theorem Inv.arrive {s s' : State} {id : Nat} {request : Request} (h : Inv s)
    (ha : s.arrive id request = some s') : Inv s' := by
  unfold State.arrive at ha
  split_ifs at ha with hnew
  obtain rfl := Option.some.inj ha
  have hnone : s.commands id = none := by simpa using hnew
  cases hcommand : request.command with
  | none => exact h
  | some c =>
    obtain ⟨origin, data, notAfter, recorded, evidence, rfl⟩ := Request.command_new hcommand
    refine h.put ?_ ?_
    · constructor
      · intro hp
        cases hp
      · rintro ⟨d, hd, -⟩
        rw [hnone] at hd
        cases hd
    · refine ⟨?_, fun hh => (by cases hh), fun _ hs => (by cases hs), fun hp => (by cases hp),
        fun _ hp => (by cases hp)⟩
      intro _ hmem
      have hsome := h.known id hmem
      rw [hnone] at hsome
      cases hsome

/-- A command changes in its evidence or its notifications only. -/
theorem Inv.touch {s t : State} {id : Nat} {c c' : Cmd} (h : Inv s) (hc : s.commands id = some c)
    (ht : Same s t) (horigin : c'.origin = c.origin) (hpermit : c'.permit = c.permit)
    (hplace : c'.place = c.place) (hstage : c'.stage = c.stage) : Inv (t.put id c') :=
  h.effect hc (.move ht horigin hpermit hplace (by rw [hstage]; exact Stage.follows_self _))

theorem inv_step {cfg : Config} {s s' : State} {a : Action} (h : Inv s)
    (hstep : step cfg s a = some s') : Inv s' := by
  cases a with
  | tick ticks =>
    obtain rfl := Option.some.inj hstep
    exact h.frame ⟨rfl, rfl, rfl, rfl, rfl⟩
  | configure port =>
    obtain rfl := Option.some.inj hstep
    exact h.frame ⟨rfl, rfl, rfl, rfl, rfl⟩
  | cancel =>
    obtain rfl := Option.some.inj hstep
    exact h.frame ⟨rfl, rfl, rfl, rfl, rfl⟩
  | stop =>
    obtain rfl := Option.some.inj hstep
    exact h.frame ⟨rfl, rfl, rfl, rfl, rfl⟩
  | arrive id request => exact h.arrive hstep
  | proceed id reply =>
    obtain ⟨c, hc, heffect⟩ := proceed_effect hstep
    exact h.effect hc heffect
  | release id => exact h.release hstep
  | serve id w => exact h.serve hstep
  | notify id =>
    obtain ⟨c, hc, hw⟩ := Option.bind_eq_some_iff.mp hstep
    obtain ⟨status, -, rfl⟩ := Option.map_eq_some_iff.mp hw
    exact h.touch hc ⟨rfl, rfl, rfl, rfl, rfl⟩ rfl rfl rfl rfl
  | forget id =>
    obtain ⟨c, hc, rfl⟩ := Option.map_eq_some_iff.mp hstep
    exact h.touch hc (Same.refl s) rfl rfl rfl rfl
  | drain =>
    simp only [step, State.drain] at hstep
    split at hstep
    · rename_i update rest _ _
      have hframe : Inv { s with acks := rest } := h.frame ⟨rfl, rfl, rfl, rfl, rfl⟩
      exact hframe.process hstep
    · cases hstep
  | drainLocal =>
    simp only [step, State.drainLocal] at hstep
    split at hstep
    · rename_i update rest _ _
      have hframe : Inv { s with localAcks := rest } := h.frame ⟨rfl, rfl, rfl, rfl, rfl⟩
      exact hframe.process hstep
    · cases hstep
  | collect =>
    simp only [step, State.collect] at hstep
    split at hstep
    · split_ifs at hstep
      obtain rfl := Option.some.inj hstep
      exact h.frame ⟨rfl, rfl, rfl, rfl, rfl⟩
    · cases hstep
  | expire =>
    simp only [step, State.expire] at hstep
    split at hstep
    · rename_i id _
      obtain rfl := Option.some.inj hstep
      have hframe : Inv { s with candidate := some (id, true) } := h.frame ⟨rfl, rfl, rfl, rfl, rfl⟩
      split
      · rename_i c hc
        exact hframe.touch hc (Same.refl _) rfl rfl rfl rfl
      · exact hframe
    · cases hstep
  | sweep =>
    simp only [step, State.sweep] at hstep
    split at hstep
    · have hframe : Inv { s with candidate := none } := h.frame ⟨rfl, rfl, rfl, rfl, rfl⟩
      exact hframe.process hstep
    · cases hstep

/-! ## The pending record -/

theorem Effect.retains {s s' : State} {id : Nat} {c : Cmd} {r : Reply} {p : PendingCommand}
    (h : Inv s) (hc : s.commands id = some c) (he : Effect s id c s') (hp : s.pending = some p) :
    Retains s (.proceed id r) s' p := by
  cases he with
  | move hsame _ _ _ _ => exact .inr (.inl (hsame.pending.trans hp))
  | permitted _ _ _ _ => exact .inr (.inl hp)
  | reserve hstage => exact .inr (.inr ⟨_, r, rfl, rfl, rfl⟩)
  | hand _ => exact .inr (.inl hp)
  | withdraw hstage horigin =>
    have hown := (h.commands id c hc).own horigin (by rw [hstage]; rfl) p hp
    exact .inl (congrArg some hown.symm)

/-- A notification that does not name the record leaves it. -/
theorem process_retains {s s' : State} {update : CommandAckUpdate} {p : PendingCommand}
    (h : s.process update = some s') (hp : s.pending = some p) :
    update.ackId = some p.ackId ∨ s'.pending = some p := by
  rcases process_cases h with rfl | ⟨q, hq, hack, -⟩
  · exact .inr hp
  · rw [hp] at hq
    obtain rfl := Option.some.inj hq
    exact .inl hack

theorem step_retains {cfg : Config} {s s' : State} {a : Action} {p : PendingCommand} (h : Inv s)
    (hstep : step cfg s a = some s') (hp : s.pending = some p) : Retains s a s' p := by
  cases a with
  | tick | configure | cancel | stop =>
    obtain rfl := Option.some.inj hstep
    exact .inr (.inl hp)
  | arrive id request =>
    simp only [step, State.arrive] at hstep
    split_ifs at hstep
    obtain rfl := Option.some.inj hstep
    cases request.command with
    | none => exact .inr (.inl hp)
    | some c => exact .inr (.inl hp)
  | proceed id reply =>
    obtain ⟨c, hc, heffect⟩ := proceed_effect hstep
    exact heffect.retains h hc hp
  | release id =>
    obtain ⟨c, -, hw⟩ := Option.bind_eq_some_iff.mp hstep
    split_ifs at hw
    obtain rfl := Option.some.inj hw
    exact .inr (.inl hp)
  | serve id w =>
    obtain ⟨c, -, hw⟩ := Option.bind_eq_some_iff.mp hstep
    obtain ⟨place, -, hw⟩ := Option.bind_eq_some_iff.mp hw
    split_ifs at hw
    obtain ⟨⟨v, place'⟩, -, rfl⟩ := Option.map_eq_some_iff.mp hw
    exact .inr (.inl hp)
  | notify id =>
    obtain ⟨c, -, hw⟩ := Option.bind_eq_some_iff.mp hstep
    obtain ⟨status, -, rfl⟩ := Option.map_eq_some_iff.mp hw
    exact .inr (.inl hp)
  | forget id =>
    obtain ⟨c, -, rfl⟩ := Option.map_eq_some_iff.mp hstep
    exact .inr (.inl hp)
  | drain =>
    simp only [step, State.drain] at hstep
    split at hstep
    · rename_i update rest hacks _
      refine (process_retains hstep hp).imp ?_ .inl
      intro hack
      simp [speaker, hacks, hack]
    · cases hstep
  | drainLocal =>
    simp only [step, State.drainLocal] at hstep
    split at hstep
    · rename_i update rest hacks _
      refine (process_retains hstep hp).imp ?_ .inl
      intro hack
      simp [speaker, hacks, hack]
    · cases hstep
  | collect =>
    simp only [step, State.collect] at hstep
    split at hstep
    · split_ifs at hstep
      obtain rfl := Option.some.inj hstep
      exact .inr (.inl hp)
    · cases hstep
  | expire =>
    simp only [step, State.expire] at hstep
    split at hstep
    · obtain rfl := Option.some.inj hstep
      split
      · exact .inr (.inl hp)
      · exact .inr (.inl hp)
    · cases hstep
  | sweep =>
    simp only [step, State.sweep] at hstep
    split at hstep
    · rename_i id hcandidate
      refine (process_retains hstep hp).imp ?_ .inl
      intro hack
      simpa [speaker, hcandidate] using hack
    · cases hstep

/-- In every state of every run one command at most has the port, the node has shown only statuses
of the write accepted last and none after a terminal one, and the next step takes the pending
record away only on behalf of its own command. -/
theorem send_node_newest (cfg : Config) (clock : Nat) (port : Port) (as : List Action) (s : State)
    (hrun : exec (step cfg) (State.initial clock port) as = some s) :
    Safe s ∧ ∀ a s' p, step cfg s a = some s' → s.pending = some p → Retains s a s' p := by
  have h : Inv s := exec_invariant Inv (fun _ _ _ hs hstep => inv_step hs hstep)
    (inv_initial clock port) hrun
  exact ⟨h.safe, fun a s' p hstep hp => step_retains h hstep hp⟩

def samplePort : Port :=
  { enabled := true
    appliedEnabled := true
    isOpen := true
    controlPending := false
    lastControlError := none
    pendingCommands := 0
    devices := [] }

def sampleReply : Reply :=
  { maintenance := none
    recorded := true
    evidence := Serial.sampleCommand
    bits := 0
    debug := "Good" }

/-- A write from the callback to the command channel. -/
def written (id : Nat) : List Action :=
  .arrive id (.write (some (.string "11 08"))) :: List.replicate 8 (.proceed id sampleReply)

/-- The line answers at once; the acknowledgement is recorded and not yet reported. -/
def answered (id : Nat) : List Action :=
  [.serve id .enqueue, .serve id .pop] ++
    List.replicate 6 (.serve id (.work ⟨true, "", "2024-01-01T00:00:00.000Z"⟩)) ++
    [.notify id, .serve id (.work ⟨true, "", ""⟩), .release id, .serve id (.work ⟨true, "", ""⟩)]

/-- A second write comes in before the acknowledgement of the first is drained. -/
def overtaken : List Action :=
  written 1 ++ answered 1 ++ written 2 ++
    [.notify 1, .proceed 1 sampleReply, .proceed 2 sampleReply, .drain, .drain, .drainLocal, .drainLocal]

def sampleConfig : Config := ⟨"COM1", 5, 3⟩

theorem send_node_newest_overtaken : ∃ s,
    exec (step sampleConfig) (State.initial 0 samplePort) overtaken = some s ∧
      s.accepted = [1, 2] ∧ s.node = [⟨2, .waiting, some 2⟩] ∧
      Safe s ∧ ∀ a s' p, step sampleConfig s a = some s' → s.pending = some p → Retains s a s' p := by
  have hrun : ((exec (step sampleConfig) (State.initial 0 samplePort) overtaken).map fun s =>
      (s.accepted, s.node)) = some ([1, 2], [⟨2, .waiting, some 2⟩]) := by decide +kernel
  obtain ⟨s, hs, hshown⟩ := Option.map_eq_some_iff.mp hrun
  obtain ⟨haccepted, hnode⟩ := Prod.mk.inj hshown
  obtain ⟨hsafe, hretains⟩ := send_node_newest sampleConfig 0 samplePort overtaken s hs
  exact ⟨s, hs, haccepted, hnode, hsafe, hretains⟩

end RcdServer.Opc
