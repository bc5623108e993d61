import RcdServer.Serial.Manager

/-!
# What taking a device offline covers

A lost device is withdrawn by publishing zeros, and consumers touch only the keys
they find in the published map. Three lengths meet here: the configured `data_len`,
the length byte of a frame, and the number of status bytes, which is one more. The
table check admits points up to `data_len + 1` bytes, the zeros are `data_len` bytes.
-/
namespace RcdServer.Serial

open Protocol

/-- The point is in every map that withdraws the device at `index`: the one the port sends, and
the one the OPC server starts from. -/
structure Withdrawn (m : SerialManager) (index : Nat) (dev : DeviceConfig) (k : String) : Prop where
  sent : ∀ comStatus deviceStatus, ∃ s,
    (m.sendZeroStatusForIndex index comStatus deviceStatus).latestStatusCache.lookup
      (m.portConfig.portNumber, dev.config.deviceId) = some s ∧ k ∈ s.value
  startup : ∀ ports, m.portConfig ∈ ports → ∃ s ∈ buildConfigZeroStatuses ports,
    s.com = m.portConfig.portNumber ∧ s.deviceId = dev.config.deviceId ∧ k ∈ s.value

theorem publish_lookup (m : SerialManager) (index : Nat) (data : List UInt8) (s : DeviceStatus) :
    (m.publish index data s).latestStatusCache.lookup (s.com, s.deviceId) = some s := by
  unfold SerialManager.publish
  dsimp only
  split <;> exact AList.lookup_insert _

theorem sendZero_lookup {m : SerialManager} {index : Nat} {dev : DeviceConfig}
    (hdev : m.portConfig.devices[index]? = some dev) (comStatus deviceStatus : Bool) :
    (m.sendZeroStatusForIndex index comStatus deviceStatus).latestStatusCache.lookup
        (m.portConfig.portNumber, dev.config.deviceId) =
      some (zeroStatus m.portConfig.portNumber dev comStatus deviceStatus) := by
  simp only [SerialManager.sendZeroStatusForIndex, hdev]
  exact publish_lookup m index _ (zeroStatus m.portConfig.portNumber dev comStatus deviceStatus)

/-- Both maps hold the points that can be read from the zeros. -/
theorem withdrawn_iff {m : SerialManager} {index : Nat} {dev : DeviceConfig}
    (hdev : m.portConfig.devices[index]? = some dev) (k : String) :
    Withdrawn m index dev k ↔ k ∈ parseStatus (zeroData dev) dev.records := by
  constructor
  · intro h
    obtain ⟨s, hs, hk⟩ := h.sent false false
    rw [sendZero_lookup hdev] at hs
    obtain rfl := Option.some.inj hs
    exact hk
  · intro hk
    constructor
    · intro comStatus deviceStatus
      exact ⟨_, sendZero_lookup hdev comStatus deviceStatus, hk⟩
    · intro ports hports
      refine ⟨zeroStatus m.portConfig.portNumber dev false false, ?_, rfl, rfl, hk⟩
      refine List.mem_flatMap.mpr ⟨m.portConfig, hports, ?_⟩
      exact List.mem_map.mpr ⟨dev, List.mem_of_getElem? hdev, rfl⟩

theorem zeroData_length (dev : DeviceConfig) :
    (zeroData dev).length = dev.config.dataLen.toNat := by
  simp [zeroData]

/-- For an accepted table, the points read from `long` bytes are all read from `short ≤ long`
bytes exactly when no record needs more than `short` of them. -/
theorem parseStatus_covered_iff {dev : DeviceConfig} (hval : dev.Validated)
    {short long : List UInt8} (hle : short.length ≤ long.length)
    (hlong : long.length * 8 < 2 ^ 32) :
    (∀ k ∈ parseStatus long dev.records, k ∈ parseStatus short dev.records) ↔
      ∀ r ∈ dev.records, recordBoundsError r long.length = none →
        recordBoundsError r short.length = none := by
  obtain ⟨hnodup, hacc⟩ := hval.spec
  have hshort : short.length * 8 < 2 ^ 32 := by omega
  simp only [mem_parseStatus_accepted hacc hlong, mem_parseStatus_accepted hacc hshort]
  constructor
  · intro h r hr hb
    obtain ⟨r', hr', hk, hb'⟩ := h r.kks ⟨r, hr, rfl, hb⟩
    -- The names are pairwise different, so it is the same record.
    obtain rfl : r' = r := List.inj_on_of_nodup_map hnodup hr' hr hk
    exact hb'
  · rintro h k ⟨r, hr, hk, hb⟩
    exact ⟨r, hr, hk, h r hr hb⟩

/-- Under either reading of `data_len`, a response leaves nothing behind exactly when the table
has no point in the byte past `data_len`, or the frame does not carry that byte. -/
theorem offline_covers_iff (m : SerialManager) (index : Nat) (dev : DeviceConfig)
    (frame : List UInt8) (packet : DataPacket)
    (hdev : m.portConfig.devices[index]? = some dev) (hval : dev.Validated)
    (hframe : parseDataPacket frame = .ok packet)
    (hlen : packet.len = dev.config.dataLen ∨ packet.len.toNat + 1 = dev.config.dataLen.toNat) :
    (∀ k ∈ parseStatus packet.status dev.records, Withdrawn m index dev k) ↔
      packet.len.toNat + 1 = dev.config.dataLen.toNat ∨
        ∀ r ∈ dev.records, recordBoundsError r dev.config.dataLen.toNat = none := by
  obtain ⟨-, -, hstatus, -⟩ := parseDataPacket_ok hframe
  have hbyte := packet.len.toNat_lt
  have hlong : packet.status.length * 8 < 2 ^ 32 := by omega
  simp only [withdrawn_iff hdev]
  rcases hlen with hlen | hlen
  · have hsize : packet.len.toNat = dev.config.dataLen.toNat := congrArg UInt8.toNat hlen
    rw [parseStatus_covered_iff hval (by rw [zeroData_length]; omega) hlong, zeroData_length,
      hstatus, hsize]
    constructor
    · intro h
      exact .inr fun r hr => h r hr (hval.spec.2 r hr).bounded
    · rintro (h | h) r hr -
      · omega
      · exact h r hr
  · rw [parseStatus_covered_iff hval (by rw [zeroData_length]; omega) hlong, zeroData_length,
      hstatus, hlen]
    exact ⟨fun _ => .inl rfl, fun _ _ _ h => h⟩

/-! ## A point in the last byte -/

/-- `[Addr 1][CMD 8][Len 2][00 07 01][CRC]`: three status bytes, the alarm bit set in the third. -/
def alarmFrame : List UInt8 := [1, 8, 2, 0, 7, 1, 19]

def alarmPacket : DataPacket := ⟨1, 8, 2, [0, 7, 1], 19⟩

/-- The alarm is published from the frame and stays behind when the device is lost. -/
theorem alarm_left_behind :
    ¬ ∀ (m : SerialManager) (index : Nat) (dev : DeviceConfig) (frame : List UInt8)
        (packet : DataPacket), m.portConfig.devices[index]? = some dev → dev.Validated →
        parseDataPacket frame = .ok packet →
        (packet.len = dev.config.dataLen ∨ packet.len.toNat + 1 = dev.config.dataLen.toNat) →
        ∀ k ∈ parseStatus packet.status dev.records, Withdrawn m index dev k := by
  intro h
  have hread : "ALARM" ∈ parseStatus alarmPacket.status sampleDevice.records := by decide +kernel
  have hwithdrawn := h (sampleManager .primary .primary) 0 sampleDevice alarmFrame alarmPacket rfl
    sampleDevice_validated rfl (.inl rfl) "ALARM" hread
  rw [withdrawn_iff rfl] at hwithdrawn
  exact absurd hwithdrawn (by decide +kernel)

/-- A frame of the other convention carries two status bytes; its level is withdrawn. -/
theorem offline_covers_short_frame :
    "LEVEL" ∈ parseStatus [0, 7] sampleDevice.records ∧
      Withdrawn (sampleManager .primary .primary) 0 sampleDevice "LEVEL" := by
  have hread : "LEVEL" ∈ parseStatus [0, 7] sampleDevice.records := by decide +kernel
  have hcovers := offline_covers_iff (sampleManager .primary .primary) 0 sampleDevice
    [1, 8, 1, 0, 7, 17] ⟨1, 8, 1, [0, 7], 17⟩ rfl sampleDevice_validated rfl (.inr rfl)
  exact ⟨hread, hcovers.mpr (.inl rfl) "LEVEL" hread⟩

end RcdServer.Serial
