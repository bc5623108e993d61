import Mathlib.Data.List.AList
import RcdServer.Communicate.UnitReport

/-!
# Transmit mailboxes

The `Mailboxes` of `synchronization.rs`: one slot for each synchronized port. A slot holds a
whole snapshot (`submit`), or a value for each field together with the payload made of them
(`submitFieldsJson` at once, `writeField` one by one). `current` is what the transmitter sends.
-/
namespace RcdServer.Communicate

open Lib Lib.Chunks

variable {F32 F64 : Type}

/-- `std::time::Instant`, in nanoseconds. -/
abbrev Instant := Nat

/-- `chrono::DateTime<Utc>`. -/
abbrev Utc := Int

structure Settings where
  transmitEnabled : Bool
  transmitProtocol : String
  snapshotMaxAgeMs : Nat
  deriving DecidableEq

def Settings.maxAge (s : Settings) : Nat := s.snapshotMaxAgeMs * 1000000

structure Snapshot where
  bytes : List UInt8
  supplied : Instant
  deriving DecidableEq

structure Entry (F32 F64 : Type) where
  value : Value F32 F64
  supplied : Instant
  utc : Utc
  deriving DecidableEq

/-- `fields` is the map from input names to their last values; only names of transmitted
fields get into it. -/
structure Slot (F32 F64 : Type) where
  settings : Settings
  enabled : Bool
  revision : Nat
  snapshot : Option Snapshot
  fields : AList fun _ : String => Entry F32 F64
  fieldPayload : List UInt8
  atomicMode : Bool

abbrev Mailboxes (F32 F64 : Type) := String → Option (Slot F32 F64)

structure PortConfig where
  id : String
  enabled : Bool
  tasksEnabled : List Bool
  synchronization : Option Settings
  deriving DecidableEq

def Slot.new (port : PortConfig) (settings : Settings) : Slot F32 F64 where
  settings := settings
  enabled := port.enabled && port.tasksEnabled.any id
  revision := 0
  snapshot := none
  fields := ∅
  fieldPayload := []
  atomicMode := false

def Mailboxes.addPort (m : Mailboxes F32 F64) (port : PortConfig) : Mailboxes F32 F64 :=
  match port.synchronization with
  | none => m
  | some settings => Function.update m port.id (some (Slot.new port settings))

def Mailboxes.new (ports : List PortConfig) : Mailboxes F32 F64 :=
  ports.foldl Mailboxes.addPort fun _ => none

/-- `u64::checked_add(1)`. -/
def nextRevision (revision : Nat) : Except String Nat :=
  if revision + 1 < 2 ^ 64 then .ok (revision + 1) else .error "snapshot revision exhausted"

/-! ## Calls on one slot -/

def Slot.disabled (slot : Slot F32 F64) : Bool := !slot.enabled || !slot.settings.transmitEnabled

def Slot.submit (slot : Slot F32 F64) (revision : Nat) (payload : List UInt8) (now : Instant) :
    Except String (Slot F32 F64) :=
  if slot.disabled then .error "transmission disabled"
  else if revision ≠ slot.revision then .error "snapshot revision conflict"
  else
    match Layout.fromProtocol slot.settings.transmitProtocol with
    | none => .error "unsupported layout"
    | some layout => do
      layout.validatePayload payload
      let revision ← nextRevision slot.revision
      .ok
        { slot with
          revision := revision, snapshot := some ⟨payload, now⟩, fields := ∅, atomicMode := true }

/-- A `serde_json::Value` as far as it is looked at: `as_u64` and `as_str`. -/
inductive Json where
  | unsigned (n : Nat)
  | string (s : String)
  | other
  deriving DecidableEq

/-- A decoded request; the decoder refuses an input that is repeated. -/
structure Request where
  revision : Nat
  fields : AList fun _ : String => Json

def inputValue (dataType : DataType) (raw : Json) : Except String (Value F32 F64) :=
  match dataType with
  | .uint32 =>
    match raw with
    | .unsigned n => if n < 2 ^ 32 then .ok (.uint32 n.toUInt32) else .error "input must be UInt32"
    | _ => .error "input must be UInt32"
  | .string =>
    match raw with
    | .string s => .ok (.string s)
    | _ => .error "input must be String"
  | _ => .error "unsupported input type"

/-- The loop over the definitions: payload and field map are built aside. -/
def collectFields (layout : Layout) (request : Request) (now : Instant) (utc : Utc) :
    List (String × DataType) → List UInt8 → (AList fun _ : String => Entry F32 F64) →
      Except String (List UInt8 × AList fun _ : String => Entry F32 F64)
  | [], payload, fields => .ok (payload, fields)
  | (name, dataType) :: rest, payload, fields =>
    match request.fields.lookup name with
    | none => .error "missing snapshot input"
    | some raw => do
      let value ← inputValue dataType raw
      let payload ← layout.writeTransmitField name value payload
      collectFields layout request now utc rest payload (fields.insert name ⟨value, now, utc⟩)

def Slot.submitFieldsJson (slot : Slot F32 F64) (request : Request) (now : Instant) (utc : Utc) :
    Except String (Slot F32 F64) :=
  if slot.disabled then .error "transmission disabled"
  else if request.revision ≠ slot.revision then .error "snapshot revision conflict"
  else
    match Layout.fromProtocol slot.settings.transmitProtocol with
    | none => .error "unsupported layout"
    | some layout =>
      let definitions := layout.transmitDefinitions
      if request.fields.entries.length ≠ definitions.length then
        .error "snapshot requires every input exactly once"
      else do
        let (payload, fields) ←
          collectFields layout request now utc definitions layout.emptyTransmitPayload ∅
        let revision ← nextRevision slot.revision
        .ok
          { slot with
            fields := fields, fieldPayload := payload, snapshot := none, atomicMode := true,
            revision := revision }

/-- The slot that is left behind, with the error or without. A first write lays the empty
payload out before it can fail. -/
def Slot.writeField (slot : Slot F32 F64) (name : String) (value : Value F32 F64) (now : Instant)
    (utc : Utc) : Slot F32 F64 × Except String Unit :=
  if slot.disabled then (slot, .error "transmission disabled")
  else if slot.atomicMode then
    (slot, .error "atomic snapshot active; submit a complete snapshot")
  else
    match Layout.fromProtocol slot.settings.transmitProtocol with
    | none => (slot, .error "unsupported layout")
    | some layout =>
      let slot :=
        if slot.fieldPayload.isEmpty then { slot with fieldPayload := layout.emptyTransmitPayload }
        else slot
      match nextRevision slot.revision with
      | .error e => (slot, .error e)
      | .ok revision =>
        match layout.writeTransmitField name value slot.fieldPayload with
        | .error e => (slot, .error e)
        | .ok payload =>
          ({ slot with
             fieldPayload := payload, snapshot := none,
             fields := slot.fields.insert name ⟨value, now, utc⟩, revision := revision }, .ok ())

inductive Quality where
  | good | waiting | noCommunication | configuration | outOfService
  deriving DecidableEq

structure Sample (F32 F64 : Type) where
  value : Value F32 F64
  sourceTimestamp : Option Utc
  quality : Quality
  deriving DecidableEq

/-- `now` is the reading behind `elapsed`. -/
def Slot.fieldSample [Zero F32] [Zero F64] (slot : Slot F32 F64) (name : String)
    (dataType : DataType) (now : Instant) : Sample F32 F64 :=
  let sample := slot.fields.lookup name
  { value := match sample with
      | some e => e.value
      | none => dataType.zero
    sourceTimestamp := sample.map (·.utc)
    quality :=
      if slot.disabled then .outOfService
      else
        match sample with
        | none => .waiting
        | some e => if now - e.supplied ≥ slot.settings.maxAge then .noCommunication else .good }

def Slot.current (slot : Slot F32 F64) (now : Instant) : Option (List UInt8) :=
  if slot.disabled then none
  else if !slot.fields.entries.isEmpty then
    match Layout.fromProtocol slot.settings.transmitProtocol with
    | none => none
    | some layout =>
      if slot.fields.entries.length ≠ layout.transmitDefinitions.length ∨
          slot.fields.entries.any fun x => decide (now - x.2.supplied ≥ slot.settings.maxAge) then
        none
      else some slot.fieldPayload
  else (slot.snapshot.filter fun s => decide (now - s.supplied < slot.settings.maxAge)).map (·.bytes)

/-! ## Calls on the mailboxes -/

namespace Mailboxes

def submit (m : Mailboxes F32 F64) (port : String) (revision : Nat) (payload : List UInt8)
    (now : Instant) : Mailboxes F32 F64 × Except String Nat :=
  match m port with
  | none => (m, .error "unknown synchronization port")
  | some slot =>
    match slot.submit revision payload now with
    | .error e => (m, .error e)
    | .ok slot => (Function.update m port (some slot), .ok slot.revision)

/-- The text is given by its length and by what the JSON decoder makes of it. -/
def submitFieldsJson (m : Mailboxes F32 F64) (port : String) (length : Nat)
    (request : Except String Request) (now : Instant) (utc : Utc) :
    Mailboxes F32 F64 × Except String Nat :=
  if length > 64 * 1024 then (m, .error "snapshot request too large")
  else
    match request with
    | .error e => (m, .error e)
    | .ok request =>
      match m port with
      | none => (m, .error "unknown port")
      | some slot =>
        match slot.submitFieldsJson request now utc with
        | .error e => (m, .error e)
        | .ok slot => (Function.update m port (some slot), .ok slot.revision)

def writeField (m : Mailboxes F32 F64) (port name : String) (value : Value F32 F64)
    (now : Instant) (utc : Utc) : Mailboxes F32 F64 × Except String Unit :=
  match m port with
  | none => (m, .error "unknown port")
  | some slot =>
    (Function.update m port (some (slot.writeField name value now utc).1),
      (slot.writeField name value now utc).2)

def revision (m : Mailboxes F32 F64) (port : String) : Option Nat := (m port).map (·.revision)

def current (m : Mailboxes F32 F64) (port : String) (now : Instant) : Option (List UInt8) :=
  (m port).bind fun slot => slot.current now

def fieldSample [Zero F32] [Zero F64] (m : Mailboxes F32 F64) (port name : String)
    (dataType : DataType) (now : Instant) : Except String (Sample F32 F64) :=
  match m port with
  | none => .error "unknown port"
  | some slot => .ok (slot.fieldSample name dataType now)

end Mailboxes

/-- One call on a port, with the clock readings made in it. -/
inductive Call (F32 F64 : Type) where
  | submit (port : String) (revision : Nat) (payload : List UInt8) (now : Instant)
  | submitFieldsJson (port : String) (length : Nat) (request : Except String Request)
      (now : Instant) (utc : Utc)
  | writeField (port name : String) (value : Value F32 F64) (now : Instant) (utc : Utc)

def Call.port : Call F32 F64 → String
  | .submit port .. => port
  | .submitFieldsJson port .. => port
  | .writeField port .. => port

/-- The mailboxes after a call, and whether it was accepted. -/
def Mailboxes.call (m : Mailboxes F32 F64) : Call F32 F64 → Mailboxes F32 F64 × Bool
  | .submit port revision payload now =>
    let r := m.submit port revision payload now
    (r.1, r.2.isOk)
  | .submitFieldsJson port length request now utc =>
    let r := m.submitFieldsJson port length request now utc
    (r.1, r.2.isOk)
  | .writeField port name value now utc =>
    let r := m.writeField port name value now utc
    (r.1, r.2.isOk)

/-- Mailboxes together with the calls accepted so far, the latest first. -/
structure Run (F32 F64 : Type) where
  mailboxes : Mailboxes F32 F64
  history : List (Call F32 F64)

def Run.next (r : Run F32 F64) (c : Call F32 F64) : Run F32 F64 where
  mailboxes := (r.mailboxes.call c).1
  history := if (r.mailboxes.call c).2 then c :: r.history else r.history

/-- The calls in their order on the mailboxes of a configuration. -/
def run (ports : List PortConfig) (calls : List (Call F32 F64)) : Run F32 F64 :=
  calls.foldl Run.next ⟨Mailboxes.new ports, []⟩

/-! ## What a call can do -/

/-- An accepted call, with the slot before and after it. -/
inductive Slot.Accepts (slot : Slot F32 F64) : Call F32 F64 → Slot F32 F64 → Prop where
  | submit {port : String} {payload : List UInt8} {now : Instant} {layout : Layout}
      (hlayout : Layout.fromProtocol slot.settings.transmitProtocol = some layout)
      (hvalid : layout.validatePayload payload = .ok ()) :
      Slot.Accepts slot (.submit port slot.revision payload now)
        { slot with
          revision := slot.revision + 1, snapshot := some ⟨payload, now⟩, fields := ∅,
          atomicMode := true }
  | fields {port : String} {length : Nat} {request : Request} {now : Instant} {utc : Utc}
      {layout : Layout} {payload : List UInt8} {fields : AList fun _ : String => Entry F32 F64}
      (hlayout : Layout.fromProtocol slot.settings.transmitProtocol = some layout)
      (hrevision : request.revision = slot.revision)
      (hcollect : collectFields layout request now utc layout.transmitDefinitions
        layout.emptyTransmitPayload ∅ = .ok (payload, fields)) :
      Slot.Accepts slot (.submitFieldsJson port length (.ok request) now utc)
        { slot with
          fields := fields, fieldPayload := payload, snapshot := none, atomicMode := true,
          revision := slot.revision + 1 }
  | write {port name : String} {value : Value F32 F64} {now : Instant} {utc : Utc}
      {layout : Layout} {before payload : List UInt8}
      (hlayout : Layout.fromProtocol slot.settings.transmitProtocol = some layout)
      (hmode : slot.atomicMode = false)
      (hbefore : before =
        if slot.fieldPayload.isEmpty then layout.emptyTransmitPayload else slot.fieldPayload)
      (hwrite : layout.writeTransmitField name value before = .ok payload) :
      Slot.Accepts slot (.writeField port name value now utc)
        { slot with
          fieldPayload := payload, snapshot := none,
          fields := slot.fields.insert name ⟨value, now, utc⟩, revision := slot.revision + 1 }

/-- A rejected call leaves the slot alone, but for the layout of a payload not yet used. -/
inductive Slot.Rejects (slot : Slot F32 F64) : Slot F32 F64 → Prop where
  | unchanged : Slot.Rejects slot slot
  | laidOut {layout : Layout}
      (hlayout : Layout.fromProtocol slot.settings.transmitProtocol = some layout)
      (hempty : slot.fieldPayload = []) :
      Slot.Rejects slot { slot with fieldPayload := layout.emptyTransmitPayload }

theorem nextRevision_ok {r r' : Nat} (h : nextRevision r = .ok r') : r' = r + 1 := by
  unfold nextRevision at h
  split_ifs at h
  cases h
  rfl

theorem Slot.submit_ok {slot slot' : Slot F32 F64} {revision : Nat} {payload : List UInt8}
    {now : Instant} (h : slot.submit revision payload now = .ok slot') (port : String) :
    slot.Accepts (.submit port revision payload now) slot' := by
  unfold Slot.submit at h
  split_ifs at h with _ hrev
  obtain rfl : revision = slot.revision := not_not.mp hrev
  cases hlayout : Layout.fromProtocol slot.settings.transmitProtocol with
  | none => simp [hlayout] at h
  | some layout =>
    cases hvalid : layout.validatePayload payload with
    | error e => simp [hlayout, hvalid, bind, Except.bind] at h
    | ok u =>
      cases hnext : nextRevision slot.revision with
      | error e => simp [hlayout, hvalid, hnext, bind, Except.bind] at h
      | ok r =>
        simp only [hlayout, hvalid, hnext, bind, Except.bind] at h
        cases h
        rw [nextRevision_ok hnext]
        exact .submit hlayout hvalid

theorem Slot.submitFieldsJson_ok {slot slot' : Slot F32 F64} {request : Request} {now : Instant}
    {utc : Utc} (h : slot.submitFieldsJson request now utc = .ok slot') (port : String)
    (length : Nat) : slot.Accepts (.submitFieldsJson port length (.ok request) now utc) slot' := by
  unfold Slot.submitFieldsJson at h
  split_ifs at h with _ hrev
  cases hlayout : Layout.fromProtocol slot.settings.transmitProtocol with
  | none => simp [hlayout] at h
  | some layout =>
    simp only [hlayout] at h
    split_ifs at h
    cases hcollect : (collectFields layout request now utc layout.transmitDefinitions
        layout.emptyTransmitPayload ∅ :
          Except String (List UInt8 × AList fun _ : String => Entry F32 F64)) with
    | error e => simp [hcollect, bind, Except.bind] at h
    | ok r =>
      obtain ⟨payload, fields⟩ := r
      cases hnext : nextRevision slot.revision with
      | error e => simp [hcollect, hnext, bind, Except.bind] at h
      | ok r =>
        simp only [hcollect, hnext, bind, Except.bind] at h
        cases h
        rw [nextRevision_ok hnext]
        exact .fields hlayout (not_not.mp hrev) hcollect

theorem Slot.writeField_cases (slot : Slot F32 F64) (port name : String) (value : Value F32 F64)
    (now : Instant) (utc : Utc) :
    ((slot.writeField name value now utc).2.isOk = true ∧
      slot.Accepts (.writeField port name value now utc) (slot.writeField name value now utc).1) ∨
    ((slot.writeField name value now utc).2.isOk = false ∧
      slot.Rejects (slot.writeField name value now utc).1) := by
  unfold Slot.writeField
  by_cases hdisabled : slot.disabled = true
  · rw [if_pos hdisabled]
    exact .inr ⟨rfl, .unchanged⟩
  rw [if_neg hdisabled]
  by_cases hmode : slot.atomicMode = true
  · rw [if_pos hmode]
    exact .inr ⟨rfl, .unchanged⟩
  rw [if_neg hmode]
  cases hlayout : Layout.fromProtocol slot.settings.transmitProtocol with
  | none => exact .inr ⟨rfl, .unchanged⟩
  | some layout =>
    simp only
    generalize hslot : (if slot.fieldPayload.isEmpty = true then
      { slot with fieldPayload := layout.emptyTransmitPayload } else slot) = laid
    have hlaid : slot.Rejects laid := by
      by_cases hempty : slot.fieldPayload.isEmpty = true
      · rw [if_pos hempty] at hslot
        exact hslot ▸ .laidOut hlayout (List.isEmpty_iff.mp hempty)
      · rw [if_neg hempty] at hslot
        exact hslot ▸ .unchanged
    cases hnext : nextRevision laid.revision with
    | error e => exact .inr ⟨rfl, hlaid⟩
    | ok r =>
      cases hwrite : layout.writeTransmitField name value laid.fieldPayload with
      | error e => exact .inr ⟨rfl, hlaid⟩
      | ok payload =>
        refine .inl ⟨rfl, ?_⟩
        have hsame : laid = { slot with fieldPayload := laid.fieldPayload } := by
          rw [← hslot]
          split_ifs <;> rfl
        have hbefore : laid.fieldPayload =
            if slot.fieldPayload.isEmpty then layout.emptyTransmitPayload else slot.fieldPayload := by
          rw [← hslot]
          split_ifs <;> rfl
        rw [nextRevision_ok hnext, hsame]
        exact .write hlayout (by simpa using hmode) hbefore hwrite

theorem Mailboxes.call_cases (m : Mailboxes F32 F64) (c : Call F32 F64) :
    ((m.call c).2 = true ∧ ∃ slot slot', m c.port = some slot ∧ slot.Accepts c slot' ∧
      (m.call c).1 = Function.update m c.port (some slot')) ∨
    ((m.call c).2 = false ∧ ((m.call c).1 = m ∨ ∃ slot slot', m c.port = some slot ∧
      slot.Rejects slot' ∧ (m.call c).1 = Function.update m c.port (some slot'))) := by
  cases c with
  | submit port revision payload now =>
    simp only [Mailboxes.call, Mailboxes.submit, Call.port]
    cases hslot : m port with
    | none => exact .inr ⟨rfl, .inl rfl⟩
    | some slot =>
      cases hsubmit : slot.submit revision payload now with
      | error e =>
        simp only [hsubmit]
        exact .inr ⟨rfl, .inl trivial⟩
      | ok slot' =>
        simp only [hsubmit]
        exact .inl ⟨rfl, slot, slot', rfl, slot.submit_ok hsubmit port, rfl⟩
  | submitFieldsJson port length request now utc =>
    simp only [Mailboxes.call, Mailboxes.submitFieldsJson, Call.port]
    by_cases hlength : length > 64 * 1024
    · rw [if_pos hlength]
      exact .inr ⟨rfl, .inl rfl⟩
    rw [if_neg hlength]
    cases request with
    | error e => exact .inr ⟨rfl, .inl rfl⟩
    | ok request =>
      cases hslot : m port with
      | none => exact .inr ⟨rfl, .inl rfl⟩
      | some slot =>
        cases hsubmit : slot.submitFieldsJson request now utc with
        | error e =>
          simp only [hsubmit]
          exact .inr ⟨rfl, .inl trivial⟩
        | ok slot' =>
          simp only [hsubmit]
          exact .inl ⟨rfl, slot, slot', rfl, slot.submitFieldsJson_ok hsubmit port length, rfl⟩
  | writeField port name value now utc =>
    simp only [Mailboxes.call, Mailboxes.writeField, Call.port]
    cases hslot : m port with
    | none => exact .inr ⟨rfl, .inl rfl⟩
    | some slot =>
      rcases slot.writeField_cases port name value now utc with ⟨hok, hacc⟩ | ⟨hok, hrej⟩
      · exact .inl ⟨hok, slot, _, rfl, hacc, rfl⟩
      · exact .inr ⟨hok, .inr ⟨slot, _, rfl, hrej, rfl⟩⟩

end RcdServer.Communicate
