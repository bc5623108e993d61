import RcdServer.Serial.Assembly

/-!
# Which receive attempts publish a device as Good

A device is published as Good, and the failure counters are cleared, on every packet
that agrees with itself. The configured length is consulted by one exit of the
assembly loop only. The main result says for every state, every byte stream and every
pattern of reads which attempts publish a status area shorter than configured.
-/
namespace RcdServer.Serial

open Protocol

/-! ## The exits of the loop -/

theorem configuredProtocolFrameLen_bounds (buf : List UInt8) (start dataLen : Nat) :
    dataLen + 4 ≤ configuredProtocolFrameLen buf start dataLen ∧
      configuredProtocolFrameLen buf start dataLen ≤ dataLen + 5 := by
  unfold configuredProtocolFrameLen responseFrameOverhead responseFrameOverheadWithStatusLen
  dsimp only
  split
  · split_ifs <;> omega
  · omega

theorem validatedForwardDataStart_some {buf : List UInt8} {start : Nat}
    (h : validatedForwardDataStart buf = some start) : start = 9 ∧ 9 ≤ buf.length := by
  unfold validatedForwardDataStart at h
  split_ifs at h with hshort
  cases h
  simp only [not_or, forwardPrefixLen] at hshort
  exact ⟨rfl, by omega⟩

/-- The header is read from the first nine bytes alone. -/
theorem validatedForwardDataStart_take {buf : List UInt8} {n : Nat} (hn : 9 ≤ n) :
    validatedForwardDataStart (buf.take n) = validatedForwardDataStart buf := by
  unfold validatedForwardDataStart forwardPrefixLen forwardHeaderLen
  have hlen : (buf.take n).length < 9 ↔ buf.length < 9 := by
    rw [List.length_take]
    omega
  simp only [hlen, List.take_take, Nat.min_eq_left hn, Nat.min_eq_left (show 7 ≤ n by omega)]

theorem expectedFrameLen_le (m : SerialManager) {buf : List UInt8} (hlong : 12 ≤ buf.length) :
    m.expectedFrameLen buf ≤ 269 := by
  have hdirect := byteAt_lt buf 2
  unfold SerialManager.expectedFrameLen forwardPrefixLen
  dsimp only
  split
  · split
    · rename_i start hstart
      obtain ⟨rfl, -⟩ := validatedForwardDataStart_some hstart
      have hbehind := byteAt_lt buf (9 + 2)
      rw [if_pos (by omega)]
      omega
    · split_ifs <;> omega
  · omega

theorem configuredDirectLen_le {m : SerialManager} {buf : List UInt8} {n : Nat}
    (h : m.configuredDirectLen buf = some n) : n ≤ 260 := by
  unfold SerialManager.configuredDirectLen at h
  split_ifs at h
  obtain ⟨dev, -, rfl⟩ := Option.map_eq_some_iff.mp h
  have hbounds := (configuredProtocolFrameLen_bounds buf 0 dev.config.dataLen.toNat).2
  have hbyte := dev.config.dataLen.toNat_lt
  omega

theorem configuredResponseFrameLen_le {m : SerialManager} {buf : List UInt8} {n : Nat}
    (h : m.configuredResponseFrameLen buf = some n) : n ≤ 269 := by
  unfold SerialManager.configuredResponseFrameLen at h
  split at h
  · split at h
    · exact (configuredDirectLen_le h).trans (by omega)
    · rename_i start hstart
      obtain ⟨rfl, -⟩ := validatedForwardDataStart_some hstart
      obtain ⟨dev, -, rfl⟩ := Option.map_eq_some_iff.mp h
      have hbounds := (configuredProtocolFrameLen_bounds buf 9 dev.config.dataLen.toNat).2
      have hbyte := dev.config.dataLen.toNat_lt
      omega
  · exact (configuredDirectLen_le h).trans (by omega)

/-- No frame is longer than 269 bytes, so a full buffer always holds a complete one. -/
theorem completeFrameLen_of_full (m : SerialManager) {buf : List UInt8}
    (hfull : readBufLen ≤ buf.length) : m.completeFrameLen buf ≠ none := by
  have hlong : 1024 ≤ buf.length := hfull
  have hexpected := expectedFrameLen_le m (show 12 ≤ buf.length by omega)
  unfold SerialManager.completeFrameLen
  rw [if_neg (by omega)]
  cases hmin : m.configuredResponseFrameLen buf with
  | none =>
    dsimp only
    rw [if_pos (by omega)]
    simp
  | some n =>
    have hn := configuredResponseFrameLen_le hmin
    have hmax : Nat.max (m.expectedFrameLen buf) n ≤ 269 := Nat.max_le.mpr ⟨hexpected, hn⟩
    dsimp only
    rw [if_pos (by omega)]
    simp

theorem completeFrameLen_some {m : SerialManager} {buf : List UInt8} {n : Nat}
    (h : m.completeFrameLen buf = some n) :
    n ≤ buf.length ∧ m.expectedFrameLen buf ≤ n ∧
      ∀ minimum, m.configuredResponseFrameLen buf = some minimum → minimum ≤ n := by
  unfold SerialManager.completeFrameLen at h
  split_ifs at h
  cases hmin : m.configuredResponseFrameLen buf with
  | none =>
    simp only [hmin] at h
    split_ifs at h with hfits
    cases h
    exact ⟨hfits, le_rfl, by simp⟩
  | some minimum =>
    simp only [hmin] at h
    split_ifs at h with hfits
    cases h
    refine ⟨hfits, Nat.le_max_left _ _, ?_⟩
    rintro _ ⟨⟩
    exact Nat.le_max_right _ _

/-- What the tests before a read can end with. -/
theorem beforeRead_frame {m : SerialManager} {buf raw rest : List UInt8} {drained : Bool}
    {next : Assembled} {exit : Exit} (h : m.beforeRead buf drained next = .frame exit raw rest) :
    (exit = .complete ∧ ∃ n, m.completeFrameLen buf = some n ∧ raw = buf.take n) ∨
      exit = .shortDirect ∨ next = .frame exit raw rest := by
  unfold SerialManager.beforeRead at h
  split at h
  · rename_i n hn
    cases h
    exact .inl ⟨rfl, n, hn, rfl⟩
  · rename_i hnone
    split_ifs at h with hshort hfull
    · cases h
      exact .inr (.inl rfl)
    · exact absurd hnone (completeFrameLen_of_full m hfull)
    · exact .inr (.inr h)

theorem giveUp_frame {stop exit : Exit} {buf raw rest : List UInt8}
    (h : giveUp stop buf = .frame exit raw rest) : exit = stop := by
  unfold giveUp at h
  split_ifs at h
  cases h
  rfl

/-- The full exit is never taken, and the complete one only where the length test passed. -/
theorem assemble_frame {m : SerialManager} {turns : List Turn} {buf raw rest : List UInt8}
    {exit : Exit} (h : m.assemble buf turns = .frame exit raw rest) :
    exit ≠ .full ∧
      (exit = .complete → ∃ whole n, m.completeFrameLen whole = some n ∧ raw = whole.take n) := by
  induction turns generalizing buf with
  | nil =>
    rcases beforeRead_frame h with ⟨rfl, n, hn, hraw⟩ | rfl | hnext
    · exact ⟨by simp, fun _ => ⟨buf, n, hn, hraw⟩⟩
    · exact ⟨by simp, by simp⟩
    · obtain rfl := giveUp_frame hnext
      exact ⟨by simp, by simp⟩
  | cons turn turns ih =>
    rcases beforeRead_frame h with ⟨rfl, n, hn, hraw⟩ | rfl | hnext
    · exact ⟨by simp, fun _ => ⟨buf, n, hn, hraw⟩⟩
    · exact ⟨by simp, by simp⟩
    · split at hnext
      · obtain rfl := giveUp_frame hnext
        exact ⟨by simp, by simp⟩
      · exact ih hnext
      · obtain rfl := giveUp_frame hnext
        exact ⟨by simp, by simp⟩
      · cases hnext

/-- The configured minimum does apply to a direct answer, when no forward header is in front. -/
theorem complete_direct_length {m : SerialManager} {whole : List UInt8} {n : Nat}
    {dev : DeviceConfig} (hn : m.completeFrameLen whole = some n) (hrun : m.currentRun = .primary)
    (hdev : m.portConfig.devices[m.index]? = some dev)
    (hhead : m.acceptsForwarded = false ∨ validatedForwardDataStart (whole.take n) = none) :
    n ≤ whole.length ∧ dev.config.dataLen.toNat + 4 ≤ n := by
  have hdirect : m.configuredDirectLen whole =
      some (configuredProtocolFrameLen whole 0 dev.config.dataLen.toNat) := by
    simp [SerialManager.configuredDirectLen, hrun, hdev]
  have hbounds := (configuredProtocolFrameLen_bounds whole 0 dev.config.dataLen.toNat).1
  obtain ⟨hfits, hexpected, hmin⟩ := completeFrameLen_some hn
  refine ⟨hfits, ?_⟩
  by_cases hplain : m.configuredResponseFrameLen whole = m.configuredDirectLen whole
  · exact hbounds.trans (hmin _ (hplain.trans hdirect))
  · exfalso
    -- Only a header in front, which the cut then leaves in place, makes the difference.
    obtain ⟨hacc, start, hstart⟩ : m.acceptsForwarded = true ∧
        ∃ start, validatedForwardDataStart whole = some start := by
      unfold SerialManager.configuredResponseFrameLen at hplain
      split at hplain
      · rename_i hacc
        cases hval : validatedForwardDataStart whole with
        | none => simp [hval] at hplain
        | some start => exact ⟨hacc, start, rfl⟩
      · exact absurd rfl hplain
    obtain ⟨rfl, hlong⟩ := validatedForwardDataStart_some hstart
    have hbehind : 9 ≤ m.expectedFrameLen whole := by
      unfold SerialManager.expectedFrameLen
      rw [if_pos hacc, hstart]
      dsimp only
      split_ifs <;> omega
    rw [validatedForwardDataStart_take (hbehind.trans hexpected), hstart, hacc] at hhead
    simp at hhead

/-! ## Good publications -/

/-- The status carries a full response of the station the port stands at: at least the configured
number of status bytes, hence every point inside them. -/
def Refreshes (m : SerialManager) (s : DeviceStatus) : Prop :=
  ∃ dev packet, m.portConfig.devices[m.index]? = some dev ∧
    s.deviceId = dev.config.deviceId ∧ parseDataPacket s.rawData = .ok packet ∧
    dev.config.dataLen.toNat ≤ packet.status.length ∧
    ∀ r ∈ dev.records, recordBoundsError r dev.config.dataLen.toNat = none → r.kks ∈ s.value

/-- The failure counters stay or grow by one. -/
structure CountersKept (m m' : SerialManager) : Prop where
  timeOut : m'.timeOutCount = m.timeOutCount ∨ m'.timeOutCount = m.timeOutCount + 1
  parseFail : m'.parseFailCount = m.parseFailCount ∨ m'.parseFailCount = m.parseFailCount + 1
  stations : m'.deviceStates.map (·.gate) = m.deviceStates.map (·.gate)

/-- Every Good publication of the attempt is of a full response, and without one, or a change of
role, the failure counters are not cleared. -/
structure AttemptSound (m m' : SerialManager) : Prop where
  good : ∃ new, m'.log = new ++ m.log ∧
    ∀ s, Event.published s ∈ new → s.good = true → Refreshes m' s
  counters : CountersKept m m' ∨ m'.currentRun ≠ m.currentRun ∨
    ∃ new s, m'.log = new ++ m.log ∧ Event.published s ∈ new ∧ s.good = true ∧ Refreshes m' s

/-- Bytes that pass for a packet of the device with fewer status bytes than configured. -/
def Fragment (dev : DeviceConfig) (frame : List UInt8) : Prop :=
  ∃ packet, parseDataPacket frame = .ok packet ∧
    packet.len.toNat + 1 < dev.config.dataLen.toNat

/-- The attempt stops with a fragment of a station that is read: behind a forward header through
any exit, or as a direct answer through an exit that does not ask for the configured length. -/
inductive SettlesForFragment (m : SerialManager) (turns : List Turn) : Prop
  | forwarded {exit raw rest start i dev} (hopen : m.portOpen = true)
      (hraw : m.assemble m.rxPending turns = .frame exit raw rest)
      (hfwd : m.forwardedFrom raw = some (start, i))
      (hdev : m.portConfig.devices[i]? = some dev) (hreads : m.reads i = true)
      (hfrag : Fragment dev (SerialManager.forwardedFrame raw start))
  | direct {exit raw rest dev} (hopen : m.portOpen = true)
      (hraw : m.assemble m.rxPending turns = .frame exit raw rest)
      (hfwd : m.forwardedFrom raw = none) (hrun : m.currentRun = .primary)
      (hexit : exit ≠ .complete ∨
        (m.runOn = .secondary ∧ (validatedForwardDataStart raw).isSome = true))
      (hdev : m.portConfig.devices[m.index]? = some dev) (hreads : m.reads m.index = true)
      (hfrag : Fragment dev raw)

/-! ## Attempts without a Good publication -/

theorem sound_of_quiet {m m' : SerialManager} (new : List Event) (hlog : m'.log = new ++ m.log)
    (hquiet : ∀ s, Event.published s ∈ new → s.good = false)
    (hcounters : CountersKept m m' ∨ m'.currentRun ≠ m.currentRun) : AttemptSound m m' where
  good := ⟨new, hlog, fun s hs hgood => by simp [hquiet s hs] at hgood⟩
  counters := hcounters.imp_right .inl

theorem CountersKept.trans_withdraws {m mid m' : SerialManager} (h : CountersKept m mid)
    (hw : Withdraws mid m') : CountersKept m m' where
  timeOut := by
    rw [hw.timeOutCount]
    exact h.timeOut
  parseFail := by
    rw [hw.parseFailCount]
    exact h.parseFail
  stations := hw.gates.trans h.stations

theorem CountersKept.rfl {m : SerialManager} : CountersKept m m := ⟨.inl (Eq.refl _), .inl (Eq.refl _), Eq.refl _⟩

theorem Withdraws.quiet {m m' : SerialManager} (h : Withdraws m m') :
    ∃ new, m'.log = new ++ m.log ∧ ∀ s, Event.published s ∈ new → s.good = false := by
  obtain ⟨lost, hlog, hlost⟩ := h.log
  refine ⟨lost, hlog, ?_⟩
  intro s hs
  obtain ⟨s', he, hs'⟩ := hlost _ hs
  cases he
  exact hs'

theorem sound_of_withdraws {m m' : SerialManager} (h : Withdraws m m') : AttemptSound m m' := by
  obtain ⟨new, hlog, hquiet⟩ := h.quiet
  exact sound_of_quiet new hlog hquiet (.inl (CountersKept.rfl.trans_withdraws h))

theorem sound_unattributed (m : SerialManager) (hrun : m.currentRun = .secondary) :
    AttemptSound m m.handleUnattributedFrame := by
  unfold SerialManager.handleUnattributedFrame SerialManager.promoteIfSilent
  split
  · refine sound_of_quiet [.switched .primary, .failed] rfl (by simp) (.inr ?_)
    simp [SerialManager.switchRole, hrun]
  · exact sound_of_quiet [.failed] rfl (by simp) (.inl ⟨.inr rfl, .inr rfl, rfl⟩)

/-! ## Attempts that reach a valid packet -/

/-- One Good publication on top of quiet events decides the attempt. -/
theorem sound_iff_refreshes {m m' : SerialManager} {s : DeviceStatus} {quiet : List Event}
    (hlog : m'.log = .published s :: quiet ++ m.log) (hgood : s.good = true)
    (hquiet : ∀ s, Event.published s ∈ quiet → s.good = false) :
    AttemptSound m m' ↔ Refreshes m' s := by
  constructor
  · intro h
    obtain ⟨new, hnew, hrefresh⟩ := h.good
    have hsame : new = .published s :: quiet := by
      rw [hlog] at hnew
      exact (List.append_cancel_right hnew).symm
    exact hrefresh s (by simp [hsame]) hgood
  · intro hrefresh
    refine ⟨⟨_, hlog, ?_⟩, .inr (.inr ⟨_, s, hlog, by simp, hgood, hrefresh⟩)⟩
    intro s' hs' hgood'
    rcases List.mem_cons.mp hs' with heq | hmem
    · cases heq
      exact hrefresh
    · simp [hquiet s' hmem] at hgood'

theorem refreshes_iff {m : SerialManager} {dev : DeviceConfig} {packet : DataPacket}
    {frame : List UInt8} {com : String} (hval : dev.Validated)
    (hdev : m.portConfig.devices[m.index]? = some dev)
    (hframe : parseDataPacket frame = .ok packet) :
    Refreshes m (statusOf com dev true true packet.status frame) ↔
      dev.config.dataLen.toNat ≤ packet.len.toNat + 1 := by
  obtain ⟨-, -, hstatus, -⟩ := parseDataPacket_ok hframe
  have hbyte := packet.len.toNat_lt
  constructor
  · rintro ⟨dev', packet', hdev', -, hframe', hlen, -⟩
    obtain rfl : dev' = dev := Option.some.inj (hdev'.symm.trans hdev)
    obtain rfl : packet' = packet := Except.ok.inj (hframe'.symm.trans hframe)
    omega
  · intro hlen
    refine ⟨dev, packet, hdev, rfl, hframe, by omega, ?_⟩
    intro r hr hbounds
    have hfits := recordBoundsError_mono (show _ ≤ packet.status.length by omega) hbounds
    exact (mem_parseStatus_accepted hval.spec.2 (by omega)).mpr ⟨r, hr, rfl, hfits⟩

/-- What is quiet and keeps the counters stays so under a withdrawal. -/
theorem sound_of_quiet_withdraws {m mid m' : SerialManager} (quiet : List Event)
    (hlog : mid.log = quiet ++ m.log) (hquiet : ∀ s, Event.published s ∈ quiet → s.good = false)
    (hcounters : CountersKept m mid ∨ mid.currentRun ≠ m.currentRun) (hw : Withdraws mid m') :
    AttemptSound m m' := by
  obtain ⟨lost, hlost, hlostQuiet⟩ := hw.quiet
  refine sound_of_quiet (lost ++ quiet) (by rw [hlost, hlog, List.append_assoc]) ?_ ?_
  · intro s hs
    rcases List.mem_append.mp hs with hs | hs
    · exact hlostQuiet s hs
    · exact hquiet s hs
  · rw [hw.currentRun]
    exact hcounters.imp_left (·.trans_withdraws hw)

theorem beforeHandling_quiet {m mid : SerialManager} {quiet : List Event}
    (hlog : mid.log = quiet ++ m.log) (hquiet : ∀ s, Event.published s ∈ quiet → s.good = false) :
    ∃ quiet', mid.beforeHandling.log = quiet' ++ m.log ∧
      ∀ s, Event.published s ∈ quiet' → s.good = false := by
  obtain ⟨-, -, -, -, -, -, -, hnoted⟩ := beforeHandling_frame mid
  rw [hnoted]
  split_ifs
  · exact ⟨quiet, hlog, hquiet⟩
  · refine ⟨.forwarded :: quiet, by rw [hlog, List.cons_append], ?_⟩
    intro s hs
    rcases List.mem_cons.mp hs with heq | hs
    · cases heq
    · exact hquiet s hs

/-- From a state reached quietly, the attempt is sound exactly when the frame is no fragment of a
station that is read. -/
theorem dispatch_sound_iff (m mid : SerialManager) {frame : List UInt8} (quiet : List Event)
    (hval : ∀ dev ∈ mid.portConfig.devices, dev.Validated) (hlog : mid.log = quiet ++ m.log)
    (hquiet : ∀ s, Event.published s ∈ quiet → s.good = false)
    (hcounters : CountersKept m mid ∨ mid.currentRun ≠ m.currentRun) :
    AttemptSound m (mid.dispatch frame true).1 ↔
      ¬ ∃ dev, mid.portConfig.devices[mid.index]? = some dev ∧ mid.reads mid.index = true ∧
        Fragment dev frame := by
  cases hparse : parseDataPacket frame with
  | error reason =>
    have hsound : AttemptSound m (mid.dispatch frame true).1 := by
      refine sound_of_quiet_withdraws quiet hlog hquiet hcounters ?_
      simp only [SerialManager.dispatch, hparse, Bool.not_true, Bool.false_eq_true, if_false]
      split_ifs
      · exact withdraws_connection mid mid.portOpen mid.portOfflinePublished []
      · exact Withdraws.rfl
    refine iff_of_true hsound ?_
    rintro ⟨dev, -, -, packet, hok, -⟩
    rw [hparse] at hok
    cases hok
  | ok packet =>
    rw [dispatch_ok hparse]
    dsimp only
    obtain ⟨hport, hindex, -, hrun, htime, hfail, hstates, -⟩ := beforeHandling_frame mid
    obtain ⟨quiet', hlog', hquiet'⟩ := beforeHandling_quiet hlog hquiet
    have hcounters' : CountersKept m mid.beforeHandling ∨
        mid.beforeHandling.currentRun ≠ m.currentRun := by
      rw [hrun]
      exact hcounters.imp_left fun h => ⟨htime ▸ h.timeOut, hfail ▸ h.parseFail, hstates ▸ h.stations⟩
    have hgate : mid.beforeHandling.reads mid.beforeHandling.index = mid.reads mid.index := by
      rw [beforeHandling_reads, hindex]
    cases hreads : mid.reads mid.index with
    | false =>
      have hw := handleValidPacket_stopped packet frame (hgate.trans hreads)
      refine iff_of_true (sound_of_quiet_withdraws quiet' hlog' hquiet' hcounters' hw) ?_
      simp
    | true =>
      cases hdev : mid.portConfig.devices[mid.index]? with
      | none =>
        rw [handleValidPacket_missing packet frame (hgate.trans hreads) (by rw [hport, hindex, hdev])]
        exact iff_of_true (sound_of_quiet quiet' hlog' hquiet' hcounters') (by simp)
      | some dev =>
        have hvalid := hval dev (List.mem_of_getElem? hdev)
        obtain ⟨hport', hindex', -, -, -, hpublished⟩ := handleValidPacket_published packet frame
          (hgate.trans hreads)
          (show mid.beforeHandling.portConfig.devices[mid.beforeHandling.index]? = some dev by
            rw [hport, hindex, hdev])
        rw [hlog'] at hpublished
        rw [sound_iff_refreshes hpublished rfl hquiet',
          refreshes_iff hvalid (by rw [hport', hindex', hport, hindex, hdev]) hparse]
        constructor
        · rintro hlen ⟨_, ⟨⟩, -, packet', hok, hshort⟩
          obtain rfl : packet' = packet := Except.ok.inj (hok.symm.trans hparse)
          omega
        · intro h
          by_contra hshort
          exact h ⟨dev, rfl, rfl, packet, hparse, by omega⟩

/-! ## The exact condition -/

theorem heard_quiet (m : SerialManager) (i : Nat) :
    ∃ quiet, (m.heard i).log = quiet ++ m.log ∧
      (∀ s, Event.published s ∈ quiet → s.good = false) ∧
      (CountersKept m (m.heard i) ∨ (m.heard i).currentRun ≠ m.currentRun) := by
  rcases m.currentRun.eq_primary_or_secondary with hrun | hrun
  · refine ⟨[.switched .secondary, .header .primary], ?_, by simp, .inr (by simp [hrun])⟩
    simp [SerialManager.heard, SerialManager.note, SerialManager.switchRole, hrun]
  · refine ⟨[.header .secondary], ?_, by simp, .inl ?_⟩
    · simp [SerialManager.heard, SerialManager.note, hrun]
    · constructor
      · exact .inl (by simp [SerialManager.heard, SerialManager.note, hrun])
      · exact .inl (by simp [SerialManager.heard, SerialManager.note, hrun])
      · simp [SerialManager.heard, SerialManager.note, hrun]

theorem not_fragment_nil (dev : DeviceConfig) : ¬ Fragment dev [] := by
  rintro ⟨packet, hok, -⟩
  cases hok

theorem not_settles_of_silent {m : SerialManager} {turns : List Turn}
    (hnone : m.portOpen = true → ∀ exit raw rest,
      m.assemble m.rxPending turns = .frame exit raw rest → raw = []) :
    ¬ SettlesForFragment m turns := by
  rintro (⟨hopen, hraw, hfwd, -, -, -⟩ | ⟨hopen, hraw, -, -, -, -, -, hfrag⟩)
  · obtain rfl := hnone hopen _ _ _ hraw
    simp [SerialManager.forwardedFrom, validatedForwardDataStart, forwardPrefixLen] at hfwd
  · obtain rfl := hnone hopen _ _ _ hraw
    exact not_fragment_nil _ hfrag

/-- A complete direct answer is never a fragment: the exits that let one through are the others,
and a cut behind the forward header of an unknown device. -/
theorem fragment_exit {m : SerialManager} {turns : List Turn} {exit : Exit}
    {raw rest : List UInt8} {dev : DeviceConfig}
    (hraw : m.assemble m.rxPending turns = .frame exit raw rest) (hrun : m.currentRun = .primary)
    (hdev : m.portConfig.devices[m.index]? = some dev) (hfrag : Fragment dev raw) :
    exit ≠ .complete ∨ (m.runOn = .secondary ∧ (validatedForwardDataStart raw).isSome = true) := by
  by_contra hno
  simp only [ne_eq, not_or, not_not, not_and] at hno
  obtain ⟨whole, n, hn, rfl⟩ := (assemble_frame hraw).2 hno.1
  have hhead : m.acceptsForwarded = false ∨ validatedForwardDataStart (whole.take n) = none := by
    rcases m.runOn.eq_primary_or_secondary with hon | hon
    · exact .inl (by simp [SerialManager.acceptsForwarded, hrun, hon])
    · exact .inr (by simpa using hno.2 hon)
  obtain ⟨hfits, hlong⟩ := complete_direct_length hn hrun hdev hhead
  obtain ⟨packet, hok, hshort⟩ := hfrag
  obtain ⟨-, hlen, -, -⟩ := parseDataPacket_ok hok
  rw [List.length_take, Nat.min_eq_left hfits] at hlen
  omega

/-- For every state, byte stream and pattern of reads: the attempt publishes only full responses as
Good, and clears the counters for nothing less, exactly when it does not settle for a fragment. -/
theorem good_publication_iff (m : SerialManager) (turns : List Turn) (reopen : Reopen)
    (hval : ∀ dev ∈ m.portConfig.devices, dev.Validated) :
    AttemptSound m (m.receiveDataAttempt turns reopen).1 ↔ ¬ SettlesForFragment m turns := by
  have hcases := receiveDataAttempt_cases m turns reopen
  generalize (m.receiveDataAttempt turns reopen).1 = m' at hcases ⊢
  generalize (m.receiveDataAttempt turns reopen).2 = out at hcases
  cases hcases with
  | silent hw hnone hout => exact iff_of_true (sound_of_withdraws hw) (not_settles_of_silent hnone)
  | unattributed hopen hraw hfwd hrun =>
    rename_i exit raw rest
    have hsound := sound_unattributed (m.keepPending rest) hrun
    refine iff_of_true ⟨hsound.good, ?_⟩ ?_
    · exact hsound.counters.imp_left fun h => ⟨h.timeOut, h.parseFail, h.stations⟩
    · rintro (⟨-, hraw', hfwd', -, -, -⟩ | ⟨-, -, -, hrun', -, -, -, -⟩)
      · cases hraw.symm.trans hraw'
        rw [hfwd] at hfwd'
        cases hfwd'
      · rw [hrun] at hrun'
        cases hrun'
  | forwarded hopen hraw hfwd =>
    rename_i exit raw rest start i
    obtain ⟨quiet, hlog, hquiet, hcounters⟩ := heard_quiet (m.keepPending rest) i
    have hkept : CountersKept m ((m.keepPending rest).heard i) ∨
        ((m.keepPending rest).heard i).currentRun ≠ m.currentRun :=
      hcounters.imp_left fun h => ⟨h.timeOut, h.parseFail, h.stations⟩
    rw [dispatch_sound_iff m _ quiet (by simpa using hval) hlog hquiet hkept, not_iff_not]
    simp only [SerialManager.heard_index, SerialManager.heard_portConfig, SerialManager.heard_reads]
    constructor
    · rintro ⟨dev, hdev, hreads, hfrag⟩
      exact .forwarded hopen hraw hfwd hdev hreads hfrag
    · rintro (⟨-, hraw', hfwd', hdev, hreads, hfrag⟩ | ⟨-, hraw', hfwd', -, -, -, -, -⟩)
      · cases hraw.symm.trans hraw'
        cases hfwd.symm.trans hfwd'
        exact ⟨_, hdev, hreads, hfrag⟩
      · cases hraw.symm.trans hraw'
        cases hfwd.symm.trans hfwd'
  | direct hopen hraw hfwd hrun =>
    rename_i exit raw rest
    have hkept : CountersKept m (m.keepPending rest) ∨ m.currentRun ≠ m.currentRun :=
      .inl ⟨.inl rfl, .inl rfl, rfl⟩
    rw [dispatch_sound_iff m (m.keepPending rest) [] hval rfl (by simp) hkept, not_iff_not]
    constructor
    · rintro ⟨dev, hdev, hreads, hfrag⟩
      exact .direct hopen hraw hfwd hrun (fragment_exit hraw hrun hdev hfrag) hdev hreads hfrag
    · rintro (⟨-, hraw', hfwd', -, -, -⟩ | ⟨-, hraw', -, -, -, hdev, hreads, hfrag⟩)
      · cases hraw.symm.trans hraw'
        cases hfwd.symm.trans hfwd'
      · cases hraw.symm.trans hraw'
        exact ⟨_, hdev, hreads, hfrag⟩

/-- Five zero bytes, then silence until the deadline. -/
def zeroBytes : List Turn := [⟨false, .data [0, 0, 0, 0, 0]⟩, ⟨false, .timedOut⟩]

/-- They pass for a packet with one status byte of a device configured for two. -/
theorem zero_bytes_published :
    ¬ ∀ (m : SerialManager) (turns : List Turn) (reopen : Reopen),
        (∀ dev ∈ m.portConfig.devices, dev.Validated) →
        AttemptSound m (m.receiveDataAttempt turns reopen).1 := by
  intro h
  obtain ⟨new, hnew, hrefresh⟩ := (h (sampleManager .primary .primary) zeroBytes .cooling
    (sampleManager_validated _ _)).good
  have hlog : ((sampleManager .primary .primary).receiveDataAttempt zeroBytes .cooling).1.log =
      [.published (statusOf "COM1" sampleDevice true true [0] [0, 0, 0, 0, 0])] := by rfl
  have hmem : Event.published (statusOf "COM1" sampleDevice true true [0] [0, 0, 0, 0, 0]) ∈ new := by
    have hempty : (sampleManager .primary .primary).log = [] := rfl
    rw [hlog, hempty, List.append_nil] at hnew
    simp [← hnew]
  have hlong := (refreshes_iff sampleDevice_validated rfl
    (show parseDataPacket [0, 0, 0, 0, 0] = .ok ⟨0, 0, 0, [0], 0⟩ from rfl)).mp
    (hrefresh _ hmem rfl)
  exact absurd hlong (by decide)

/-- A full response of the same station. -/
theorem good_publication_full_response :
    AttemptSound (sampleManager .primary .primary)
      ((sampleManager .primary .primary).receiveDataAttempt
        [⟨false, .data [1, 8, 2, 0, 7, 1, 19]⟩] .cooling).1 := by
  refine (good_publication_iff (sampleManager .primary .primary)
    [⟨false, .data [1, 8, 2, 0, 7, 1, 19]⟩] .cooling (sampleManager_validated _ _)).mpr ?_
  have hframe : (sampleManager .primary .primary).assemble [] [⟨false, .data [1, 8, 2, 0, 7, 1, 19]⟩] =
      .frame .complete [1, 8, 2, 0, 7, 1, 19] [] := by rfl
  rintro (⟨-, hraw, hfwd, -, -, -⟩ | ⟨-, hraw, -, -, hexit, -, -, -⟩)
  · cases hframe.symm.trans hraw
    cases hfwd
  · cases hframe.symm.trans hraw
    simp [sampleManager] at hexit

end RcdServer.Serial
