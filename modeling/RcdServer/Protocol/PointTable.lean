import RcdServer.Lib.Text

/-!
# Point tables

A device is described by one CSV file: seven header rows with the communication
parameters, a column header and one row for each point. `validateCsvContent` is
the strict check made before a file is saved. Splitting the text into rows and
reading a row into a `Record` is done by the CSV library and is a parameter.
-/
namespace RcdServer.Protocol

open Lib.Text

/-! ## Records -/

inductive BitIndex where
  | single (bit : UInt32)
  | range (start last : UInt32)
  deriving DecidableEq

structure Record where
  kks : String
  type_ : String
  fType : String
  /-- One-based position in the status bytes. -/
  byteIndex : UInt32
  bitIndex : BitIndex
  def_ : UInt32
  max : UInt32
  min : UInt32
  /-- `1` is big endian, `0` little endian; column `lh`. -/
  byteOrder : UInt32
  deriving DecidableEq

structure Config where
  com : String
  baudRate : UInt32
  isSpecial : Bool
  comIndex : UInt8
  deviceId : UInt8
  dataLen : UInt8
  kksPrefix : String
  deriving DecidableEq

structure DeviceConfig where
  config : Config
  records : List Record
  deriving DecidableEq

/-- Whether a point can be read from `dataLen` status bytes. -/
def recordBoundsError (record : Record) (dataLen : Nat) : Option String :=
  if record.byteIndex.toNat = 0 then some "byte_index=0，但该字段从 1 开始计数"
  else
    let byteIndex := record.byteIndex.toNat - 1
    if byteIndex ≥ dataLen then
      some s!"byte_index={record.byteIndex.toNat} 超出状态数据长度 1..={dataLen}"
    else
      match record.bitIndex with
      | .single bit =>
        if bit.toNat ≥ 8 then some s!"bit_index={bit.toNat} 超出单字节位范围 0..=7" else none
      | .range first last =>
        let startBit := first.toNat
        let endBit := last.toNat
        if startBit > endBit then some s!"位范围 {startBit}..{endBit} 起点大于终点"
        else
          let numBits := endBit - startBit + 1
          if numBits > 32 then
            some s!"位范围 {startBit}..{endBit} 宽度为 {numBits}，超过 u32 的 32 位上限"
          else
            let endByte := byteIndex + endBit / 8
            if endByte ≥ dataLen then
              some s!"位范围 {startBit}..{endBit} 需要访问第 {endByte + 1} 字节，但状态数据只有 {dataLen} 字节"
            else none

/-- The number of status bytes a well-formed record reaches into. -/
def Record.reach (record : Record) : Nat :=
  match record.bitIndex with
  | .single _ => record.byteIndex.toNat
  | .range _ last => record.byteIndex.toNat + last.toNat / 8

/-- The part of the bounds check that does not depend on the length. -/
def Record.WellFormed (record : Record) : Prop :=
  0 < record.byteIndex.toNat ∧
    match record.bitIndex with
    | .single bit => bit.toNat < 8
    | .range first last => first.toNat ≤ last.toNat ∧ last.toNat - first.toNat + 1 ≤ 32

theorem recordBoundsError_eq_none {record : Record} {dataLen : Nat} :
    recordBoundsError record dataLen = none ↔ record.WellFormed ∧ record.reach ≤ dataLen := by
  unfold recordBoundsError Record.WellFormed Record.reach
  cases record.bitIndex with
  | single bit =>
    dsimp only
    split_ifs <;> simp <;> omega
  | range first last =>
    dsimp only
    split_ifs <;> simp <;> omega

theorem recordBoundsError_mono {record : Record} {short long : Nat} (hle : short ≤ long)
    (h : recordBoundsError record short = none) : recordBoundsError record long = none := by
  obtain ⟨hwf, hreach⟩ := recordBoundsError_eq_none.mp h
  exact recordBoundsError_eq_none.mpr ⟨hwf, hreach.trans hle⟩

/-! ## The CSV check -/

/-- What is used of the CSV library, with its errors as texts. -/
structure CsvReader where
  rows : String → List (Except String (List String))
  deserialize : List String → Except String Record

def recordCsvHeader : String := "kks,type_,f_type,byte_index,bit_index,def,max,min,lh"

def csvColumns : List String :=
  ["kks", "type_", "f_type", "byte_index", "bit_index", "def", "max", "min", "lh"]

def headerFields : List String :=
  ["com", "baud_rate", "is_special", "com_index", "device_id", "data_len", "kks_prefix"]

def foldLabel (s : String) : String :=
  asciiLower (String.ofList (s.toList.filter (· ≠ '_')))

/-- Older tables spell the labels in other case, without underscores, and `kks_prefix` as `Pre`. -/
def csvLabelMatches (actual expected : String) : Bool :=
  let actual := foldLabel (trim actual)
  let expected := foldLabel expected
  actual == expected || (expected == "kksprefix" && actual == "pre")

/-- `parse_required`, with the error already shown. -/
def parseRequired {α : Type} (parse : String → Except String α) (headers : List String) (idx : Nat)
    (field : String) : Except String α :=
  let raw := trim (headers.getD idx "")
  if raw = "" then .error s!"CSV 头缺少必填字段 '{field}' (第 {idx + 1} 行第 2 列)"
  else
    match parse raw with
    | .ok v => .ok v
    | .error reason => .error s!"CSV 头字段 '{field}' 解析失败 (值=\"{raw}\"): {reason}"

def parseU8 (s : String) : Except String UInt8 := (parseUnsigned 255 s).map UInt8.ofNat

def parseU32 (s : String) : Except String UInt32 := (parseUnsigned 4294967295 s).map UInt32.ofNat

/-- The header rows: the label in column one is checked, column two collected. -/
def readHeaders (index : Nat) :
    List String → List (Except String (List String)) →
      Except String (List String × List (Except String (List String)))
  | [], rows => .ok ([], rows)
  | field :: _, [] => .error s!"第 {index + 1} 行缺少配置字段 {field}"
  | _ :: _, .error e :: _ => .error e
  | field :: fields, .ok row :: rows =>
    if row.head?.any (csvLabelMatches · field) then do
      let (headers, rest) ← readHeaders (index + 1) fields rows
      return (row.getD 1 "" :: headers, rest)
    else .error s!"第 {index + 1} 行应为配置字段 {field}"

def readConfig (headers : List String) : Except String Config := do
  let com := trim (headers.getD 0 "")
  if com = "" ∨ com.toList.any isControl then
    throw "com 必须为非空串口名且不含控制字符"
  if (headers.getD 6 "").toList.any isControl then
    throw "kks_prefix 不能包含控制字符"
  -- `FALSE` is a deployed spelling; `TRUE` is not folded.
  let isSpecial ←
    if asciiLower (trim (headers.getD 2 "")) = "false" then pure false
    else parseRequired parseBool headers 2 "is_special"
  let baudRate ← parseRequired parseU32 headers 1 "baud_rate"
  let comIndex ← parseRequired parseU8 headers 3 "com_index"
  let deviceId ← parseRequired parseU8 headers 4 "device_id"
  let dataLen ← parseRequired parseU8 headers 5 "data_len"
  if baudRate = 0 then throw "baud_rate 必须大于 0"
  return ⟨com, baudRate, isSpecial, comIndex, deviceId, dataLen, headers.getD 6 ""⟩

/-- One data row, given the names taken so far. -/
def validateRow (csv : CsvReader) (config : Config) (names : List String) (rowNumber : Nat)
    (row : Except String (List String)) : Except String Record := do
  let fields ← row.mapError fun e => s!"第 {rowNumber} 行: {e}"
  let record ← (csv.deserialize fields).mapError fun e => s!"第 {rowNumber} 行: {e}"
  if trim record.kks = "" ∨ record.kks.toList.any isControl then
    throw s!"第 {rowNumber} 行 KKS 为空或含控制字符"
  let record := { record with kks := config.kksPrefix ++ record.kks }
  if record.kks ∈ names then
    throw s!"第 {rowNumber} 行 KKS 重复: {record.kks}"
  if record.type_ ∉ ["uint", "bool", "float"] then
    throw s!"第 {rowNumber} 行 {record.kks}: type_ 仅支持 uint/bool/float"
  if record.byteOrder > 1 then
    throw s!"第 {rowNumber} 行 {record.kks}: lh 必须为 0 或 1"
  -- The wire length byte counts one status byte less than there are.
  match recordBoundsError record (config.dataLen.toNat + 1) with
  | some reason => throw s!"第 {rowNumber} 行 {record.kks}: {reason}"
  | none => return record

def validateRows (csv : CsvReader) (config : Config) (names : List String) (rowNumber : Nat) :
    List (Except String (List String)) → Except String (List Record)
  | [] => .ok []
  | row :: rows => do
    let record ← validateRow csv config names rowNumber row
    let records ← validateRows csv config (record.kks :: names) (rowNumber + 1) rows
    return record :: records

def columnsMatch (columns : List String) : Bool :=
  columns.length == csvColumns.length &&
    (columns.zip csvColumns).all fun (actual, expected) => csvLabelMatches actual expected

def readColumns :
    List (Except String (List String)) → Except String (List (Except String (List String)))
  | [] => .error "第 8 行缺少点表列头"
  | .error e :: _ => .error e
  | .ok columns :: rows =>
    if columnsMatch columns then .ok rows else .error s!"第 8 行列头必须为 {recordCsvHeader}"

def validateCsvContent (csv : CsvReader) (content : String) : Except String (Config × List Record) :=
  let text := String.ofList (content.toList.dropWhile (· == '\ufeff'))
  do
    let (headers, rows) ← readHeaders 0 headerFields (csv.rows text)
    let config ← readConfig headers
    let rows ← readColumns rows
    let records ← validateRows csv config [] 9 rows
    return (config, records)

/-! ## What an accepted table satisfies -/

/-- A record that the check lets through, whatever its row was. -/
structure Record.Accepted (config : Config) (record : Record) : Prop where
  typed : record.type_ ∈ ["uint", "bool", "float"]
  bounded : recordBoundsError record (config.dataLen.toNat + 1) = none

theorem validateRow_spec {csv : CsvReader} {config : Config} {names : List String} {n : Nat}
    {row : Except String (List String)} {record : Record}
    (h : validateRow csv config names n row = .ok record) :
    record.kks ∉ names ∧ record.Accepted config := by
  unfold validateRow at h
  cases row with
  | error e => cases h
  | ok fields =>
    cases hd : csv.deserialize fields with
    | error e => simp [hd, Except.mapError, bind, Except.bind] at h
    | ok raw =>
      simp only [hd, Except.mapError, bind, Except.bind, pure, Except.pure, throw, throwThe,
        MonadExceptOf.throw] at h
      split_ifs at h with hk hn ht hb
      split at h
      · cases h
      · rename_i hbounds
        cases h
        exact ⟨hn, ht, hbounds⟩

theorem validateRows_cons {csv : CsvReader} {config : Config} {names : List String} {n : Nat}
    {row : Except String (List String)} {rows : List (Except String (List String))}
    {records : List Record} (h : validateRows csv config names n (row :: rows) = .ok records) :
    ∃ record rest, records = record :: rest ∧ validateRow csv config names n row = .ok record ∧
      validateRows csv config (record.kks :: names) (n + 1) rows = .ok rest := by
  simp only [validateRows, bind, Except.bind, pure, Except.pure] at h
  split at h
  · cases h
  · rename_i record hrow
    split at h
    · cases h
    · rename_i rest hrest
      cases h
      exact ⟨record, rest, rfl, hrow, hrest⟩

/-- The names stay pairwise different, and different from those already taken. -/
theorem validateRows_spec {csv : CsvReader} {config : Config}
    {rows : List (Except String (List String))} {names : List String} {n : Nat}
    {records : List Record} (h : validateRows csv config names n rows = .ok records) :
    (records.map Record.kks).Nodup ∧ (∀ r ∈ records, r.kks ∉ names) ∧
      ∀ r ∈ records, r.Accepted config := by
  induction rows generalizing names n records with
  | nil =>
    cases h
    simp
  | cons row rows ih =>
    obtain ⟨record, rest, rfl, hrow, hrest⟩ := validateRows_cons h
    obtain ⟨hfresh, hacc⟩ := validateRow_spec hrow
    obtain ⟨hnodup, hnames, haccs⟩ := ih hrest
    refine ⟨?_, ?_, ?_⟩
    · rw [List.map_cons, List.nodup_cons]
      refine ⟨?_, hnodup⟩
      intro hmem
      obtain ⟨r, hr, hkks⟩ := List.mem_map.mp hmem
      exact hnames r hr (by simp [hkks])
    · intro r hr
      rcases List.mem_cons.mp hr with rfl | hr
      · exact hfresh
      · exact fun hmem => hnames r hr (List.mem_cons_of_mem _ hmem)
    · intro r hr
      rcases List.mem_cons.mp hr with rfl | hr
      · exact hacc
      · exact haccs r hr

/-- The device is described by some file that the check accepts. -/
def DeviceConfig.Validated (device : DeviceConfig) : Prop :=
  ∃ (csv : CsvReader) (content : String),
    validateCsvContent csv content = .ok (device.config, device.records)

theorem DeviceConfig.Validated.spec {device : DeviceConfig} (h : device.Validated) :
    (device.records.map Record.kks).Nodup ∧ ∀ r ∈ device.records, r.Accepted device.config := by
  obtain ⟨csv, content, h⟩ := h
  simp only [validateCsvContent, bind, Except.bind, pure, Except.pure] at h
  split at h
  · cases h
  · split at h
    · cases h
    · rename_i config hconfig
      split at h
      · cases h
      · split at h
        · cases h
        · rename_i records hrecords
          obtain ⟨rfl, rfl⟩ := Prod.mk.inj (Except.ok.inj h)
          obtain ⟨hnodup, -, hacc⟩ := validateRows_spec hrecords
          exact ⟨hnodup, hacc⟩

/-! ## A small table

A level in the second of two status bytes, and an alarm in the byte after them. -/

def sampleContent : String :=
  "com,COM1\nbaud_rate,9600\nis_special,false\ncom_index,1\ndevice_id,1\ndata_len,2\nkks_prefix,\nkks,type_,f_type,byte_index,bit_index,def,max,min,lh\nLEVEL,uint,AI,2,0.7,0,100,0,0\nALARM,bool,DI,3,0,0,1,0,0\n"

def sampleRows : List (Except String (List String)) :=
  [.ok ["com", "COM1"], .ok ["baud_rate", "9600"], .ok ["is_special", "false"],
    .ok ["com_index", "1"], .ok ["device_id", "1"], .ok ["data_len", "2"], .ok ["kks_prefix", ""],
    .ok ["kks", "type_", "f_type", "byte_index", "bit_index", "def", "max", "min", "lh"],
    .ok ["LEVEL", "uint", "AI", "2", "0.7", "0", "100", "0", "0"],
    .ok ["ALARM", "bool", "DI", "3", "0", "0", "1", "0", "0"]]

def levelRecord : Record := ⟨"LEVEL", "uint", "AI", 2, .range 0 7, 0, 100, 0, 0⟩

def alarmRecord : Record := ⟨"ALARM", "bool", "DI", 3, .single 0, 0, 1, 0, 0⟩

def sampleReader : CsvReader where
  rows := fun _ => sampleRows
  deserialize := fun fields =>
    if fields = ["LEVEL", "uint", "AI", "2", "0.7", "0", "100", "0", "0"] then .ok levelRecord
    else if fields = ["ALARM", "bool", "DI", "3", "0", "0", "1", "0", "0"] then .ok alarmRecord
    else .error "CSV deserialize error"

def sampleDevice : DeviceConfig where
  config := ⟨"COM1", 9600, false, 1, 1, 2, ""⟩
  records := [levelRecord, alarmRecord]

theorem sampleDevice_validated : sampleDevice.Validated :=
  ⟨sampleReader, sampleContent, by rfl⟩

end RcdServer.Protocol
