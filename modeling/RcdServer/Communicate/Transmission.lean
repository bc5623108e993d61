import Mathlib.Data.List.Perm.Subperm
import RcdServer.Communicate.Mailboxes

/-!
# What the mailboxes transmit

The accepted calls of a port determine its slot: the buffer holds, chunk by chunk, the encoding
of the values supplied last, and a whole snapshot stands until the next accepted call. So what
`current` returns is the last snapshot or a complete set of last values, all of them fresh.
-/
namespace RcdServer.Communicate

open Lib Lib.Chunks

variable {F32 F64 : Type}

/-! ## What the accepted calls determine -/

def Call.atomic : Call F32 F64 → Bool
  | .writeField .. => false
  | _ => true

def Json.value : Json → Option (Value F32 F64)
  | .unsigned n => some (.uint32 n.toUInt32)
  | .string s => some (.string s)
  | .other => none

/-- The value that a call supplies for an input. -/
def Call.supplies (name : String) : Call F32 F64 → Option (Entry F32 F64)
  | .submit .. => none
  | .submitFieldsJson _ _ (.error _) _ _ => none
  | .submitFieldsJson _ _ (.ok request) now utc =>
    ((request.fields.lookup name).bind Json.value).map fun value => ⟨value, now, utc⟩
  | .writeField _ input value now utc => if input = name then some ⟨value, now, utc⟩ else none

/-- The value that was supplied last for an input. -/
def lastValue (history : List (Call F32 F64)) (name : String) : Option (Entry F32 F64) :=
  history.findSome? (Call.supplies name)

/-- The last accepted call, if it was a whole snapshot. -/
def lastWhole : List (Call F32 F64) → Option Snapshot
  | .submit _ _ payload now :: _ => some ⟨payload, now⟩
  | _ => none

/-- The buffer is the encoding of the field map, chunk by chunk. -/
structure Encodes (layout : Layout) (fields : AList fun _ : String => Entry F32 F64)
    (payload : List UInt8) : Prop where
  inputs : ∀ name ∈ fields, ∃ f ∈ layout.transmitFields, name = f.input
  chunks : ∃ chunks, Assembled layout chunks payload ∧
    ∀ (i : Nat) (f : Field) (e : Entry F32 F64), layout.transmitFields[i]? = some f →
      fields.lookup f.input = some e → ∃ bytes, chunks[i]? = some bytes ∧ f.encode e.value = .ok bytes

theorem encodes_empty (layout : Layout) :
    Encodes layout (∅ : AList fun _ : String => Entry F32 F64) layout.emptyTransmitPayload where
  inputs := by
    intro name h
    exact absurd h (AList.notMem_empty name)
  chunks := by
    refine ⟨_, assembled_empty layout, ?_⟩
    intro i f e _ h
    rw [AList.lookup_empty] at h
    cases h

theorem Encodes.write {layout : Layout} {fields : AList fun _ : String => Entry F32 F64}
    {payload payload' : List UInt8} (h : Encodes layout fields payload) {name : String}
    {value : Value F32 F64} (hok : layout.writeTransmitField name value payload = .ok payload')
    (now : Instant) (utc : Utc) : Encodes layout (fields.insert name ⟨value, now, utc⟩) payload' := by
  obtain ⟨chunks, hassembled, hchunks⟩ := h.chunks
  obtain ⟨i, f, bytes, hi, rfl, hbytes, hassembled'⟩ := writeTransmitField_ok hassembled hok
  refine ⟨?_, chunks.set i bytes, hassembled', ?_⟩
  · intro name hname
    rcases AList.mem_insert _ |>.mp hname with rfl | hname
    · exact ⟨f, List.mem_of_getElem? hi, rfl⟩
    · exact h.inputs name hname
  · intro j g e hj hlookup
    have hcount : chunks.length = layout.transmitFields.length := by
      simpa using congrArg List.length hassembled.lengths
    by_cases hij : i = j
    · subst hij
      obtain rfl : f = g := Option.some.inj (hi.symm.trans hj)
      rw [AList.lookup_insert] at hlookup
      cases hlookup
      have hlt : i < chunks.length := hcount ▸ (List.getElem?_eq_some_iff.mp hi).1
      exact ⟨bytes, by simp [hlt], hbytes⟩
    · -- Another field has another name, so its entry and its chunk stay.
      have hne : g.input ≠ f.input := by
        intro heq
        apply hij
        have hlt : i < (layout.transmitFields.map Field.input).length := by
          simpa using (List.getElem?_eq_some_iff.mp hi).1
        apply (List.getElem?_inj hlt layout.nodup_inputs).mp
        simp [hi, hj, heq]
      rw [AList.lookup_insert_ne hne] at hlookup
      rw [List.getElem?_set_ne hij]
      exact hchunks j g e hj hlookup

/-- The collected field map holds what the request supplies, and the payload encodes it. -/
theorem collectFields_ok {layout : Layout} {request : Request} {now : Instant} {utc : Utc}
    {defs : List (String × DataType)} {payload payload' : List UInt8}
    {fields fields' : AList fun _ : String => Entry F32 F64} (h : Encodes layout fields payload)
    (hok : collectFields layout request now utc defs payload fields = .ok (payload', fields')) :
    Encodes layout fields' payload' ∧
      (∀ name ∈ defs.map (·.1), ∃ value, (request.fields.lookup name).bind Json.value = some value ∧
        fields'.lookup name = some ⟨value, now, utc⟩) ∧
      ∀ name ∉ defs.map (·.1), fields'.lookup name = fields.lookup name := by
  induction defs generalizing payload fields with
  | nil =>
    cases hok
    exact ⟨h, by simp, fun _ _ => rfl⟩
  | cons d rest ih =>
    obtain ⟨name, dataType⟩ := d
    rw [collectFields] at hok
    cases hraw : request.fields.lookup name with
    | none => simp [hraw] at hok
    | some raw =>
      cases hvalue : (inputValue dataType raw : Except String (Value F32 F64)) with
      | error e => simp [hraw, hvalue, bind, Except.bind] at hok
      | ok value =>
        cases hwrite : layout.writeTransmitField name value payload with
        | error e => simp [hraw, hvalue, hwrite, bind, Except.bind] at hok
        | ok payload1 =>
          simp only [hraw, hvalue, hwrite, bind, Except.bind] at hok
          obtain ⟨hencodes, hin, hout⟩ := ih (h.write hwrite now utc) hok
          have hjson : raw.value = some value := by
            unfold inputValue at hvalue
            split at hvalue
            · split at hvalue
              · split_ifs at hvalue
                cases hvalue
                rfl
              · cases hvalue
            · split at hvalue
              · cases hvalue
                rfl
              · cases hvalue
            · cases hvalue
          have hsupplied : (request.fields.lookup name).bind Json.value = some value := by
            rw [hraw, Option.bind_some, hjson]
          refine ⟨hencodes, ?_, ?_⟩
          · intro other hother
            by_cases hlater : other ∈ rest.map (·.1)
            · exact hin other hlater
            · rcases List.mem_cons.mp hother with rfl | hother
              · exact ⟨value, hsupplied, by rw [hout _ hlater, AList.lookup_insert]⟩
              · exact absurd hother hlater
          · intro other hother
            rw [List.map_cons, List.mem_cons, not_or] at hother
            rw [hout other hother.2, AList.lookup_insert_ne hother.1]

/-- The slot of a port and the calls accepted on it, the latest first. -/
structure Slot.Sound (slot : Slot F32 F64) (history : List (Call F32 F64)) : Prop where
  revision : slot.revision = history.length
  atomic : slot.atomicMode = history.any Call.atomic
  whole : slot.snapshot = lastWhole history
  cleared : slot.snapshot ≠ none → slot.fields = ∅
  values : ∀ layout, Layout.fromProtocol slot.settings.transmitProtocol = some layout →
    slot.snapshot = none → ∀ f ∈ layout.transmitFields,
      slot.fields.lookup f.input = lastValue history f.input
  payload : ∀ layout, Layout.fromProtocol slot.settings.transmitProtocol = some layout →
    slot.fields = ∅ ∧ (slot.fieldPayload = [] ∨ slot.atomicMode = true) ∨
      Encodes layout slot.fields slot.fieldPayload

theorem Slot.sound_new (port : PortConfig) (settings : Settings) :
    (Slot.new port settings : Slot F32 F64).Sound [] where
  revision := rfl
  atomic := rfl
  whole := rfl
  cleared := fun _ => rfl
  values := by
    intro layout _ _ f _
    rfl
  payload := fun _ _ => .inl ⟨rfl, .inl rfl⟩

theorem Encodes.ne_nil {layout : Layout} {fields : AList fun _ : String => Entry F32 F64}
    {payload : List UInt8} (h : Encodes layout fields payload) : payload ≠ [] := by
  obtain ⟨chunks, hassembled, -⟩ := h.chunks
  intro hnil
  have hlen := hassembled.length_eq
  rw [hnil] at hlen
  cases layout <;> cases hlen

theorem Slot.Sound.rejected {slot slot' : Slot F32 F64} {history : List (Call F32 F64)}
    (h : slot.Sound history) (hr : slot.Rejects slot') : slot'.Sound history := by
  cases hr with
  | unchanged => exact h
  | @laidOut layout hlayout hempty =>
    refine ⟨h.revision, h.atomic, h.whole, h.cleared, h.values, ?_⟩
    intro layout' hlayout'
    obtain rfl : layout = layout' := Option.some.inj (hlayout.symm.trans hlayout')
    rcases h.payload layout hlayout with ⟨hfields, -⟩ | hencodes
    · right
      show Encodes layout slot.fields layout.emptyTransmitPayload
      rw [hfields]
      exact encodes_empty layout
    · exact absurd hempty hencodes.ne_nil

theorem Slot.Sound.accepted {slot slot' : Slot F32 F64} {history : List (Call F32 F64)}
    {c : Call F32 F64} (h : slot.Sound history) (ha : slot.Accepts c slot') :
    slot'.Sound (c :: history) := by
  have hrev : slot.revision + 1 = (c :: history).length := by
    rw [h.revision, List.length_cons]
  cases ha with
  | submit hlayout hvalid =>
    exact ⟨hrev, rfl, rfl, fun _ => rfl, fun _ _ hnone => (by cases hnone),
      fun _ _ => .inl ⟨rfl, .inr rfl⟩⟩
  | @fields port length request now utc layout payload fields hlayout hrevision hcollect =>
    obtain ⟨hencodes, hin, -⟩ := collectFields_ok (encodes_empty layout) hcollect
    refine ⟨hrev, rfl, rfl, fun hne => absurd rfl hne, ?_, ?_⟩
    · intro layout' hlayout' _ f hf
      obtain rfl : layout = layout' := Option.some.inj (hlayout.symm.trans hlayout')
      have hdef : f.input ∈ layout.transmitDefinitions.map (·.1) := by
        rw [Layout.transmitDefinitions, List.map_map]
        exact List.mem_map.mpr ⟨f, hf, rfl⟩
      obtain ⟨value, hsupplied, hlookup⟩ := hin f.input hdef
      show fields.lookup f.input = lastValue _ f.input
      rw [hlookup]
      simp [lastValue, Call.supplies, hsupplied]
    · intro layout' hlayout'
      obtain rfl : layout = layout' := Option.some.inj (hlayout.symm.trans hlayout')
      exact .inr hencodes
  | @write port name value now utc layout before payload hlayout hmode hbefore hwrite =>
    have hencodes : Encodes layout slot.fields before := by
      rcases h.payload layout hlayout with ⟨hfields, hor⟩ | hencodes
      · have hnil : slot.fieldPayload = [] := hor.resolve_right (by simp [hmode])
        rw [hbefore, hnil, hfields]
        exact encodes_empty layout
      · have hne : slot.fieldPayload.isEmpty = false := by
          simpa [List.isEmpty_eq_false_iff] using hencodes.ne_nil
        rw [hbefore, hne]
        exact hencodes
    have hnone : slot.snapshot = none := by
      rw [h.whole]
      have hall : history.any Call.atomic = false := h.atomic ▸ hmode
      cases history with
      | nil => rfl
      | cons c rest =>
        cases c with
        | submit => simp [Call.atomic] at hall
        | submitFieldsJson => rfl
        | writeField => rfl
    refine ⟨hrev, ?_, rfl, fun hne => absurd rfl hne, ?_, ?_⟩
    · show slot.atomicMode = _
      rw [h.atomic]
      rfl
    · intro layout' hlayout' _ f hf
      obtain rfl : layout = layout' := Option.some.inj (hlayout.symm.trans hlayout')
      have hold := h.values layout hlayout hnone f hf
      show (slot.fields.insert name ⟨value, now, utc⟩).lookup f.input =
        lastValue (.writeField port name value now utc :: history) f.input
      by_cases hname : name = f.input
      · subst hname
        rw [AList.lookup_insert]
        simp [lastValue, Call.supplies]
      · rw [AList.lookup_insert_ne (Ne.symm hname), hold]
        simp [lastValue, Call.supplies, hname]
    · intro layout' hlayout'
      obtain rfl : layout = layout' := Option.some.inj (hlayout.symm.trans hlayout')
      exact .inr (hencodes.write hwrite now utc)

/-! ## What is transmitted -/

theorem mapM_ok {α β ε : Type} {f : α → Except ε β} {l : List α} {r : List β}
    (hlen : r.length = l.length)
    (h : ∀ (i : Nat) (a : α), l[i]? = some a → ∃ b, r[i]? = some b ∧ f a = .ok b) :
    l.mapM f = .ok r := by
  induction l generalizing r with
  | nil =>
    obtain rfl : r = [] := List.length_eq_zero_iff.mp hlen
    rfl
  | cons a l ih =>
    cases r with
    | nil => cases hlen
    | cons b r =>
      obtain ⟨b', hb, hfa⟩ := h 0 a rfl
      obtain rfl : b = b' := by simpa using hb
      have hrest := ih (by simpa using hlen) fun i a hi => by simpa using h (i + 1) a (by simpa using hi)
      rw [List.mapM_cons, hfa, hrest]
      rfl

theorem Encodes.encode {layout : Layout} {fields : AList fun _ : String => Entry F32 F64}
    {payload : List UInt8} (h : Encodes layout fields payload) {values : String → Value F32 F64}
    (hvalues : ∀ f ∈ layout.transmitFields, ∃ e, fields.lookup f.input = some e ∧
      values f.input = e.value) : layout.encode values = .ok payload := by
  obtain ⟨chunks, hassembled, hchunks⟩ := h.chunks
  have hcount : chunks.length = layout.transmitFields.length := by
    simpa using congrArg List.length hassembled.lengths
  have hmap : layout.transmitFields.mapM (fun f => f.encode (values f.input)) = .ok chunks := by
    apply mapM_ok hcount
    intro i f hi
    obtain ⟨e, he, hvalue⟩ := hvalues f (List.mem_of_getElem? hi)
    obtain ⟨bytes, hbytes, henc⟩ := hchunks i f e hi he
    exact ⟨bytes, hbytes, by rw [hvalue, henc]⟩
  rw [Layout.encode, hmap, hassembled.payload_eq]
  rfl

/-- What `current` may return: the last accepted snapshot while nothing was accepted since, or
the encoding of the values accepted last, each of them fresh. -/
def Fresh (settings : Settings) (history : List (Call F32 F64)) (now : Instant)
    (payload : List UInt8) : Prop :=
  (∃ supplied, lastWhole history = some ⟨payload, supplied⟩ ∧ now - supplied < settings.maxAge) ∨
    ∃ (layout : Layout) (values : String → Value F32 F64),
      Layout.fromProtocol settings.transmitProtocol = some layout ∧
      (∀ f ∈ layout.transmitFields, ∃ e, lastValue history f.input = some e ∧
        values f.input = e.value ∧ now - e.supplied < settings.maxAge) ∧
      layout.encode values = .ok payload

theorem Slot.Sound.current_fresh {slot : Slot F32 F64} {history : List (Call F32 F64)}
    (h : slot.Sound history) {now : Instant} {payload : List UInt8}
    (hcurrent : slot.current now = some payload) : Fresh slot.settings history now payload := by
  unfold Slot.current at hcurrent
  split_ifs at hcurrent with hdisabled hfields
  · cases hlayout : Layout.fromProtocol slot.settings.transmitProtocol with
    | none => simp [hlayout] at hcurrent
    | some layout =>
      simp only [hlayout] at hcurrent
      split_ifs at hcurrent with hbad
      cases hcurrent
      rw [not_or] at hbad
      obtain ⟨hcount, hage⟩ := hbad
      have hne : slot.fields ≠ ∅ := by
        intro hempty
        rw [hempty] at hfields
        cases hfields
      have hnone : slot.snapshot = none := by
        by_contra hsome
        exact hne (h.cleared hsome)
      have hencodes : Encodes layout slot.fields slot.fieldPayload :=
        (h.payload layout hlayout).resolve_left fun hempty => hne hempty.1
      -- As many distinct names as inputs, all of them inputs: no input is missing.
      have hall : ∀ f ∈ layout.transmitFields, f.input ∈ slot.fields := by
        intro f hf
        have hsub : slot.fields.keys ⊆ layout.transmitFields.map Field.input := by
          intro name hname
          obtain ⟨g, hg, rfl⟩ := hencodes.inputs name hname
          exact List.mem_map_of_mem hg
        have hlen : (layout.transmitFields.map Field.input).length ≤ slot.fields.keys.length := by
          have hcount := not_not.mp hcount
          rw [Layout.transmitDefinitions, List.length_map] at hcount
          rw [List.length_map, AList.keys, List.keys, List.length_map, hcount]
        have hperm := (List.subperm_of_subset slot.fields.keys_nodup hsub).perm_of_length_le hlen
        exact hperm.mem_iff.mpr (List.mem_map_of_mem hf)
      right
      refine ⟨layout, fun name =>
        ((slot.fields.lookup name).map Entry.value).getD (.boolean false), hlayout, ?_, ?_⟩
      · intro f hf
        obtain ⟨e, he⟩ := Option.isSome_iff_exists.mp (AList.lookup_isSome.mpr (hall f hf))
        refine ⟨e, (h.values layout hlayout hnone f hf) ▸ he, by simp [he], ?_⟩
        have hmem : (⟨f.input, e⟩ : (_ : String) × Entry F32 F64) ∈ slot.fields.entries :=
          AList.mem_lookup_iff.mp he
        rw [List.any_eq_true] at hage
        by_contra hold
        exact hage ⟨_, hmem, by simpa using hold⟩
      · apply hencodes.encode
        intro f hf
        obtain ⟨e, he⟩ := Option.isSome_iff_exists.mp (AList.lookup_isSome.mpr (hall f hf))
        exact ⟨e, he, by simp [he]⟩
  · obtain ⟨s, hs, rfl⟩ := Option.map_eq_some_iff.mp hcurrent
    rw [Option.filter_eq_some_iff, h.whole] at hs
    exact .inl ⟨s.supplied, hs.1, by simpa using hs.2⟩

/-! ## Runs -/

/-- Every slot is what the calls accepted on its port have made of it. -/
def Mailboxes.Sound (m : Mailboxes F32 F64) (history : List (Call F32 F64)) : Prop :=
  ∀ port slot, m port = some slot → slot.Sound (history.filter fun c => decide (c.port = port))

theorem Mailboxes.sound_addPort {m : Mailboxes F32 F64} (h : m.Sound []) (p : PortConfig) :
    (m.addPort p).Sound [] := by
  unfold Mailboxes.addPort
  cases p.synchronization with
  | none => exact h
  | some settings =>
    intro port slot hslot
    simp only at hslot
    by_cases hport : port = p.id
    · subst hport
      rw [Function.update_self] at hslot
      cases hslot
      exact Slot.sound_new p settings
    · rw [Function.update_of_ne hport] at hslot
      exact h port slot hslot

theorem Mailboxes.sound_new (ports : List PortConfig) :
    (Mailboxes.new ports : Mailboxes F32 F64).Sound [] := by
  have hfold : ∀ m : Mailboxes F32 F64, m.Sound [] → (ports.foldl Mailboxes.addPort m).Sound [] := by
    induction ports with
    | nil => exact fun m hm => hm
    | cons p ports ih => exact fun m hm => ih _ (Mailboxes.sound_addPort hm p)
  apply hfold
  intro port slot hslot
  cases hslot

theorem Mailboxes.Sound.call {m : Mailboxes F32 F64} {history : List (Call F32 F64)}
    (h : m.Sound history) (c : Call F32 F64) :
    (m.call c).1.Sound (if (m.call c).2 then c :: history else history) := by
  rcases m.call_cases c with ⟨hok, slot, slot', hslot, hacc, hm⟩ | ⟨hok, hm | ⟨slot, slot', hslot, hrej, hm⟩⟩
  · rw [hok, hm]
    intro port s hs
    by_cases hport : port = c.port
    · subst hport
      rw [Function.update_self] at hs
      cases hs
      simpa using (h _ slot hslot).accepted hacc
    · rw [Function.update_of_ne hport] at hs
      simpa [Ne.symm hport] using h port s hs
  · rw [hok, hm]
    exact h
  · rw [hok, hm]
    intro port s hs
    by_cases hport : port = c.port
    · subst hport
      rw [Function.update_self] at hs
      cases hs
      exact (h _ slot hslot).rejected hrej
    · rw [Function.update_of_ne hport] at hs
      exact h port s hs

theorem sound_run (ports : List PortConfig) (calls : List (Call F32 F64)) :
    (run ports calls).mailboxes.Sound (run ports calls).history := by
  have hfold : ∀ r : Run F32 F64, r.mailboxes.Sound r.history →
      (calls.foldl Run.next r).mailboxes.Sound (calls.foldl Run.next r).history := by
    induction calls with
    | nil => exact fun r hr => hr
    | cons c calls ih => exact fun r hr => ih _ (hr.call c)
  exact hfold _ (Mailboxes.sound_new ports)

/-- What a rejected call leaves alone. -/
theorem Slot.Rejects.observed [Zero F32] [Zero F64] {slot slot' : Slot F32 F64}
    {history : List (Call F32 F64)} (h : slot.Sound history) (hr : slot.Rejects slot') :
    slot'.revision = slot.revision ∧ (∀ now, slot'.current now = slot.current now) ∧
      ∀ name dataType now, slot'.fieldSample name dataType now = slot.fieldSample name dataType now := by
  cases hr with
  | unchanged => exact ⟨rfl, fun _ => rfl, fun _ _ _ => rfl⟩
  | @laidOut layout hlayout hempty =>
    refine ⟨rfl, ?_, fun _ _ _ => rfl⟩
    intro now
    have hfields : slot.fields = ∅ := by
      rcases h.payload layout hlayout with ⟨hfields, -⟩ | hencodes
      · exact hfields
      · exact absurd hempty hencodes.ne_nil
    simp [Slot.current, Slot.disabled, hfields]

def Call.expected : Call F32 F64 → Option Nat
  | .submit _ revision .. => some revision
  | .submitFieldsJson _ _ (.ok request) .. => some request.revision
  | _ => none

/-- What the mailboxes promise, given the calls accepted so far. -/
structure TransmitLaws [Zero F32] [Zero F64] (m : Mailboxes F32 F64)
    (history : List (Call F32 F64)) : Prop where
  current : ∀ port slot now payload, m port = some slot → m.current port now = some payload →
    Fresh slot.settings (history.filter fun c => decide (c.port = port)) now payload
  rejected : ∀ c, (m.call c).2 = false → ∀ port, (m.call c).1.revision port = m.revision port ∧
    (∀ now, (m.call c).1.current port now = m.current port now) ∧
    ∀ name dataType now, (m.call c).1.fieldSample port name dataType now =
      m.fieldSample port name dataType now
  accepted : ∀ c, (m.call c).2 = true → ∃ revision, m.revision c.port = some revision ∧
    (m.call c).1.revision c.port = some (revision + 1) ∧
    (∀ expected, c.expected = some expected → expected = revision) ∧
    ∀ port, port ≠ c.port → (m.call c).1 port = m port
  exclusive : ∀ c, (∃ d ∈ history, d.port = c.port ∧ d.atomic = true) → c.atomic = false →
    (m.call c).2 = false

/-- After any calls, successful or rejected, on the mailboxes of any configuration. -/
theorem transmit_mailbox [Zero F32] [Zero F64] (ports : List PortConfig)
    (calls : List (Call F32 F64)) :
    TransmitLaws (run ports calls).mailboxes (run ports calls).history := by
  have hsound := sound_run ports calls
  generalize (run ports calls).mailboxes = m at hsound
  generalize (run ports calls).history = history at hsound
  constructor
  · intro port slot now payload hslot hcurrent
    rw [Mailboxes.current, hslot, Option.bind_some] at hcurrent
    exact (hsound port slot hslot).current_fresh hcurrent
  · intro c hrejected port
    rcases m.call_cases c with ⟨hok, -⟩ | ⟨-, hm | ⟨slot, slot', hslot, hrej, hm⟩⟩
    · rw [hok] at hrejected
      cases hrejected
    · rw [hm]
      exact ⟨rfl, fun _ => rfl, fun _ _ _ => rfl⟩
    · rw [hm]
      by_cases hport : port = c.port
      · subst hport
        obtain ⟨hrev, hcur, hsample⟩ := hrej.observed (hsound _ slot hslot)
        simp [Mailboxes.revision, Mailboxes.current, Mailboxes.fieldSample, hslot, hrev, hcur, hsample]
      · simp [Mailboxes.revision, Mailboxes.current, Mailboxes.fieldSample,
          Function.update_of_ne hport]
  · intro c haccepted
    rcases m.call_cases c with ⟨-, slot, slot', hslot, hacc, hm⟩ | ⟨hok, -⟩
    · refine ⟨slot.revision, by simp [Mailboxes.revision, hslot], ?_, ?_, ?_⟩
      · rw [hm]
        cases hacc <;> simp [Mailboxes.revision, Call.port]
      · intro expected hexpected
        cases hacc with
        | submit => exact (Option.some.inj hexpected).symm
        | fields _ hrevision _ => exact (Option.some.inj hexpected) ▸ hrevision
        | write => cases hexpected
      · intro port hport
        rw [hm, Function.update_of_ne hport]
    · rw [hok] at haccepted
      cases haccepted
  · rintro c ⟨d, hd, hport, hatomic⟩ hwrite
    rcases m.call_cases c with ⟨-, slot, slot', hslot, hacc, hm⟩ | ⟨hok, -⟩
    · have hmode : slot.atomicMode = true := by
        rw [(hsound _ slot hslot).atomic, List.any_eq_true]
        exact ⟨d, List.mem_filter.mpr ⟨hd, by simpa using hport⟩, hatomic⟩
      cases hacc with
      | submit => cases hwrite
      | fields => cases hwrite
      | write _ hmode' => rw [hmode'] at hmode; cases hmode
    · exact hok

end RcdServer.Communicate
