import RcdServer.Lib.Sorting
import RcdServer.Protocol.Startup
import RcdServer.Server.Namespace

/-!
# Ports at startup

`load_and_group_csv_configs_from_dir` of `main.rs`: every point table is parsed, and the devices
are grouped by their serial port. A port has one baud rate and one protocol mode; a table that says
otherwise stops the start.
-/
namespace RcdServer.Server

open Lib (Map)
open Lib.Sorting (flatMap_filter_perm)
open Lib.Text
open Protocol (Config CsvReader DeviceConfig Record parseCsv)
open Serial (SerialPortConfig)

/-! ## Grouping -/

/-- A port under construction, with the parameters that the devices share. -/
structure PortEntry where
  baudRate : UInt32
  isSpecial : Bool
  port : SerialPortConfig

/-- `SerialPortConfig::from_csv_config` -/
def PortEntry.fromCsvConfig (conf : Config) : PortEntry where
  baudRate := conf.baudRate
  isSpecial := conf.isSpecial
  port := ⟨conf.com, [], true⟩

def PortEntry.push (entry : PortEntry) (device : DeviceConfig) : PortEntry :=
  { entry with port := { entry.port with devices := entry.port.devices ++ [device] } }

variable (debug : String → String)

def groupDevice (configs : Map String PortEntry) (file : String) (device : DeviceConfig) :
    Except String (Map String PortEntry) :=
  let conf := device.config
  let port := (configs.lookup conf.com).getD (.fromCsvConfig conf)
  if port.baudRate ≠ conf.baudRate then
    .error s!"设备配置 CSV {debug file} 的串口 {conf.com} 参数冲突: baud_rate 已有 {port.baudRate}，当前 {conf.baudRate}，拒绝启动"
  else if port.isSpecial ≠ conf.isSpecial then
    .error s!"设备配置 CSV {debug file} 的串口 {conf.com} 参数冲突: is_special 已有 {port.isSpecial}，当前 {conf.isSpecial}，拒绝启动"
  else .ok (configs.insert conf.com (port.push device))

def loadCsv (csv : CsvReader) (configs : Map String PortEntry) (file : String × String) :
    Except String (Map String PortEntry) :=
  match parseCsv csv file.2 with
  | .error e => .error s!"解析设备配置 CSV {debug file.1} 失败，拒绝启动: {e}"
  | .ok (conf, recs) => groupDevice debug configs file.1 ⟨conf, recs⟩

/-- The files come in the order of their names, the ports in that of their numbers. -/
def loadAndGroupCsvConfigs (csv : CsvReader) (csvFiles : List (String × String)) :
    Except String (List SerialPortConfig) :=
  match csvFiles.foldlM (loadCsv debug csv) ∅ with
  | .error e => .error e
  | .ok configs =>
    .ok ((sortTexts configs.keys).filterMap fun com => (configs.lookup com).map (·.port))

/-! ## What is loaded -/

/-- The devices of one port have the same parameters. -/
def SameParameters (devices : List DeviceConfig) : Prop :=
  ∀ d ∈ devices, ∀ d' ∈ devices, d.config.com = d'.config.com →
    d.config.baudRate = d'.config.baudRate ∧ d.config.isSpecial = d'.config.isSpecial

def portOf (devices : List DeviceConfig) (com : String) : SerialPortConfig :=
  ⟨com, devices.filter fun d => d.config.com = com, true⟩

/-- The ports after some devices. -/
structure Grouped (devices : List DeviceConfig) (configs : Map String PortEntry) : Prop where
  mem : ∀ com, com ∈ configs ↔ com ∈ devices.map (·.config.com)
  port : ∀ com entry, configs.lookup com = some entry → entry.port = portOf devices com
  parameters : ∀ d ∈ devices, ∀ entry, configs.lookup d.config.com = some entry →
    entry.baudRate = d.config.baudRate ∧ entry.isSpecial = d.config.isSpecial

theorem portOf_same (devices : List DeviceConfig) (d : DeviceConfig) :
    portOf (devices ++ [d]) d.config.com =
      { portOf devices d.config.com with
        devices := (portOf devices d.config.com).devices ++ [d] } := by
  simp [portOf, List.filter_append]

theorem portOf_other {devices : List DeviceConfig} {d : DeviceConfig} {com : String}
    (h : com ≠ d.config.com) : portOf (devices ++ [d]) com = portOf devices com := by
  simp [portOf, List.filter_append, Ne.symm h]

/-- The entry that a device is pushed to. -/
theorem Grouped.found {devices : List DeviceConfig} {configs : Map String PortEntry}
    (h : Grouped devices configs) {d : DeviceConfig} (hsame : SameParameters (devices ++ [d])) :
    let entry := (configs.lookup d.config.com).getD (.fromCsvConfig d.config)
    entry.port = portOf devices d.config.com ∧ entry.baudRate = d.config.baudRate ∧
      entry.isSpecial = d.config.isSpecial := by
  cases hentry : configs.lookup d.config.com with
  | none =>
    have hnew : d.config.com ∉ devices.map (·.config.com) := by
      rw [← h.mem, ← AList.lookup_eq_none]
      exact hentry
    have hnone : devices.filter (fun d' => d'.config.com = d.config.com) = [] := by
      refine List.filter_eq_nil_iff.mpr fun d' hd' heq => hnew ?_
      exact List.mem_map.mpr ⟨d', hd', by simpa using heq⟩
    refine ⟨?_, rfl, rfl⟩
    simp [PortEntry.fromCsvConfig, portOf, hnone]
  | some entry =>
    have hmem : d.config.com ∈ configs := Map.mem_iff.mpr ⟨entry, hentry⟩
    obtain ⟨d', hd', hcom⟩ := List.mem_map.mp ((h.mem _).mp hmem)
    obtain ⟨hbaud, hspecial⟩ := h.parameters d' hd' entry (by rw [hcom]; exact hentry)
    obtain ⟨hbaud', hspecial'⟩ := hsame d' (List.mem_append_left _ hd') d (by simp) hcom
    exact ⟨h.port _ _ hentry, hbaud.trans hbaud', hspecial.trans hspecial'⟩

theorem Grouped.groupDevice {devices : List DeviceConfig} {configs : Map String PortEntry}
    (h : Grouped devices configs) (file : String) {d : DeviceConfig}
    (hsame : SameParameters (devices ++ [d])) :
    ∃ configs', groupDevice debug configs file d = .ok configs' ∧
      Grouped (devices ++ [d]) configs' := by
  obtain ⟨hport, hbaud, hspecial⟩ := h.found hsame
  let entry := (configs.lookup d.config.com).getD (.fromCsvConfig d.config)
  refine ⟨configs.insert d.config.com (entry.push d), ?_, ?_, ?_, ?_⟩
  · simp only [Server.groupDevice, hbaud, hspecial, ne_eq, not_true_eq_false, if_false]
    rfl
  · intro com
    rw [AList.mem_insert, h.mem, List.map_append, List.mem_append, or_comm]
    simp
  · intro com entry hentry
    rw [Map.lookup_insert_eq] at hentry
    split_ifs at hentry with hcom
    · obtain rfl := Option.some.inj hentry
      rw [hcom, portOf_same, ← hport]
      rfl
    · rw [portOf_other hcom]
      exact h.port com entry hentry
  · intro d' hd' entry hentry
    rw [Map.lookup_insert_eq] at hentry
    split_ifs at hentry with hcom
    · obtain rfl := Option.some.inj hentry
      obtain ⟨hbaud', hspecial'⟩ := hsame d (by simp) d' hd' hcom.symm
      exact ⟨hbaud.trans hbaud', hspecial.trans hspecial'⟩
    · have hold : d' ∈ devices := by
        rcases List.mem_append.mp hd' with hold | hnew
        · exact hold
        · exact absurd (congrArg (·.config.com) (List.mem_singleton.mp hnew)) hcom
      exact h.parameters d' hold entry hentry

/-- Parsed tables that agree on the parameters of each port are all grouped. -/
theorem Grouped.loadCsvs {csv : CsvReader} {csvFiles : List (String × String)}
    {devices rest : List DeviceConfig} {configs : Map String PortEntry}
    (hparsed : List.Forall₂ (fun file d => parseCsv csv file.2 = .ok (d.config, d.records))
      csvFiles rest)
    (h : Grouped devices configs) (hsame : SameParameters (devices ++ rest)) :
    ∃ configs', csvFiles.foldlM (loadCsv debug csv) configs = .ok configs' ∧
      Grouped (devices ++ rest) configs' := by
  induction hparsed generalizing devices configs with
  | nil => exact ⟨configs, rfl, by rwa [List.append_nil]⟩
  | @cons file d csvFiles rest hfile _ ih =>
    have hsplit : devices ++ d :: rest = (devices ++ [d]) ++ rest := by simp
    rw [hsplit] at hsame ⊢
    have hfirst : SameParameters (devices ++ [d]) := fun a ha b hb =>
      hsame a (List.mem_append_left _ ha) b (List.mem_append_left _ hb)
    obtain ⟨configs₁, hstep, h₁⟩ := h.groupDevice debug file.1 hfirst
    obtain ⟨configs', hrest, h'⟩ := ih h₁ hsame
    refine ⟨configs', ?_, h'⟩
    have hload : loadCsv debug csv configs file = .ok configs₁ := by
      simp only [loadCsv, hfile]
      exact hstep
    rw [List.foldlM_cons, hload]
    exact hrest

theorem grouped_nil : Grouped [] ∅ where
  mem := fun com => by simp
  port := fun com entry h => by simp at h
  parameters := fun d hd => by simp at hd

/-! ## The ports -/

/-- The names of a device. -/
def deviceNames (d : DeviceConfig) : List String := d.records.map (·.kks)

theorem pointNames_portOf (devices : List DeviceConfig) (coms : List String) :
    pointNames (coms.map (portOf devices)) =
      (coms.flatMap fun com => devices.filter fun d => d.config.com = com).flatMap deviceNames := by
  rw [pointNames, List.flatMap_map, List.flatMap_assoc]
  refine List.flatMap_congr fun com _ => ?_
  simp only [portPoints, portOf, List.map_flatMap, List.map_map, Function.comp_def]
  rfl

/-- The ports of tables that agree on their parameters: each of the named ones once, with all
points of the tables. -/
theorem loadAndGroupCsvConfigs_ok {csv : CsvReader} {csvFiles : List (String × String)}
    {devices : List DeviceConfig}
    (hparsed : List.Forall₂ (fun file d => parseCsv csv file.2 = .ok (d.config, d.records))
      csvFiles devices)
    (hsame : SameParameters devices) :
    ∃ ports, loadAndGroupCsvConfigs debug csv csvFiles = .ok ports ∧
      (ports.map (·.portNumber)).Nodup ∧
      (∀ com, com ∈ ports.map (·.portNumber) ↔ com ∈ devices.map (·.config.com)) ∧
      (pointNames ports).Perm (devices.flatMap deviceNames) := by
  obtain ⟨configs, hload, h⟩ := grouped_nil.loadCsvs debug hparsed hsame
  rw [List.nil_append] at h
  have hkeys : (sortTexts configs.keys).Nodup := nodup_sortTexts (AList.keys_nodup configs)
  have hports : ((sortTexts configs.keys).filterMap fun com =>
      (configs.lookup com).map (·.port)) = (sortTexts configs.keys).map (portOf devices) := by
    rw [← List.filterMap_eq_map]
    refine List.filterMap_congr fun com hcom => ?_
    obtain ⟨entry, hentry⟩ := Map.mem_iff.mp (AList.mem_keys.mpr (mem_sortTexts.mp hcom))
    rw [hentry, Option.map_some, h.port com entry hentry]
    rfl
  have hnumbers : ((sortTexts configs.keys).map (portOf devices)).map (·.portNumber) =
      sortTexts configs.keys := by
    rw [List.map_map]
    exact List.map_id _
  refine ⟨(sortTexts configs.keys).map (portOf devices), ?_, ?_, ?_, ?_⟩
  · simp only [loadAndGroupCsvConfigs, hload, hports]
  · rw [hnumbers]
    exact hkeys
  · intro com
    rw [hnumbers, mem_sortTexts, ← AList.mem_keys]
    exact h.mem com
  · rw [pointNames_portOf]
    refine (flatMap_filter_perm (fun d : DeviceConfig => d.config.com) hkeys devices ?_).flatMap_right _
    intro d hd
    rw [mem_sortTexts, ← AList.mem_keys]
    exact (h.mem _).mpr (List.mem_map_of_mem hd)

end RcdServer.Server
