import RcdServer.Protocol.PointTable

/-!
# Point tables at startup

`parse_csv` reads a table when the server starts: it looks at no label, takes every spelling of
`is_special` but `true` for false and lets through what a frame may not hold. Before a table is
saved, the strict check runs with out-of-range points reported as warnings. What that check lets
through, the startup parser reads as the same device, from the text without byte order marks.
-/
namespace RcdServer.Protocol

open Lib.Text

/-! ## The check before a save -/

/-- A data row up to the bounds of its point. -/
def readRow (csv : CsvReader) (config : Config) (names : List String) (rowNumber : Nat)
    (row : Except String (List String)) : Except String Record := do
  let fields ← row.mapError fun e => s!"第 {rowNumber} 行: {e}"
  let record ← (csv.deserialize fields).mapError fun e => s!"第 {rowNumber} 行: {e}"
  if trim record.kks = "" ∨ record.kks.toList.any isControl then
    throw s!"第 {rowNumber} 行 KKS 为空或含控制字符"
  let record := { record with kks := config.kksPrefix ++ record.kks }
  if record.kks ∈ names then
    throw s!"第 {rowNumber} 行 KKS 重复: {record.kks}"
  if record.type_ ∉ ["uint", "bool", "float"] then
    throw s!"第 {rowNumber} 行 {record.kks}: type_ 仅支持 uint/bool/float"
  if record.byteOrder > 1 then
    throw s!"第 {rowNumber} 行 {record.kks}: lh 必须为 0 或 1"
  return record

def pointWarning (config : Config) (rowNumber : Nat) (record : Record) : Option String :=
  (recordBoundsError record (config.dataLen.toNat + 1)).map fun reason =>
    s!"第 {rowNumber} 行 {record.kks}: {reason}"

/-- The warnings reported so far stay reported when a later row is refused. -/
def readRows (csv : CsvReader) (config : Config) (names : List String) (rowNumber : Nat) :
    List (Except String (List String)) → List String × Except String (List Record)
  | [] => ([], .ok [])
  | row :: rows =>
    match readRow csv config names rowNumber row with
    | .error e => ([], .error e)
    | .ok record =>
      let (warnings, result) := readRows csv config (record.kks :: names) (rowNumber + 1) rows
      ((pointWarning config rowNumber record).toList ++ warnings,
        result.map fun records => record :: records)

/-- `trim_start_matches('\u{feff}')`. -/
def withoutMarks (content : String) : String :=
  String.ofList (content.toList.dropWhile (· == '\ufeff'))

def validateCsvContentWithPointWarnings (csv : CsvReader) (content : String) :
    List String × Except String (Config × List Record) :=
  match readHeaders 0 headerFields (csv.rows (withoutMarks content)) with
  | .error e => ([], .error e)
  | .ok (headers, rows) =>
    match readConfig headers with
    | .error e => ([], .error e)
    | .ok config =>
      match readColumns rows with
      | .error e => ([], .error e)
      | .ok rows =>
        let (warnings, result) := readRows csv config [] 9 rows
        (warnings, result.map fun records => (config, records))

/-! ## The startup parser -/

/-- `CsvParseError::Csv` as a text. -/
def csvError (e : String) : String := "读取 CSV 记录失败: " ++ e

/-- The reads of the header rows; a file that ends early leaves the list short. -/
def takeHeaders : Nat → List (Except String (List String)) →
    Except String (List String × List (Except String (List String)))
  | 0, rows => .ok ([], rows)
  | _ + 1, [] => .ok ([], [])
  | _ + 1, .error e :: _ => .error (csvError e)
  | n + 1, .ok row :: rows => do
    let (headers, rest) ← takeHeaders n rows
    return (row.getD 1 "" :: headers, rest)

def startupConfig (headers : List String) : Except String Config := do
  let com := trim (headers.getD 0 "")
  if com = "" then throw "CSV 头缺少必填字段 'com' (第 1 行第 2 列)"
  let baudRate ← parseRequired parseU32 headers 1 "baud_rate"
  let isSpecial := (parseBool (trim (headers.getD 2 ""))).toOption.getD false
  let comIndex ← parseRequired parseU8 headers 3 "com_index"
  let deviceId ← parseRequired parseU8 headers 4 "device_id"
  let dataLen ← parseRequired parseU8 headers 5 "data_len"
  return ⟨com, baudRate, isSpecial, comIndex, deviceId, dataLen, headers.getD 6 ""⟩

def startupRow (csv : CsvReader) (config : Config) (row : Except String (List String)) :
    Except String Record := do
  let fields ← row.mapError csvError
  let record ← (csv.deserialize fields).mapError csvError
  return { record with kks := config.kksPrefix ++ record.kks }

/-- `parse_csv` on the text of a file; the column row is skipped whatever it holds. -/
def parseCsv (csv : CsvReader) (content : String) : Except String (Config × List Record) := do
  let (headers, rows) ← takeHeaders 7 (csv.rows content)
  let config ← startupConfig headers
  let records ← rows.tail.mapM (startupRow csv config)
  return (config, records)

/-! ## Agreement -/

theorem takeHeaders_of_readHeaders {fields : List String} {index : Nat}
    {rows rest : List (Except String (List String))} {headers : List String}
    (h : readHeaders index fields rows = .ok (headers, rest)) :
    takeHeaders fields.length rows = .ok (headers, rest) := by
  induction fields generalizing index rows headers with
  | nil => exact h
  | cons field fields ih =>
    match rows with
    | [] => cases h
    | .error e :: rows => cases h
    | .ok row :: rows =>
      simp only [readHeaders] at h
      split_ifs at h
      cases hread : readHeaders (index + 1) fields rows with
      | error e =>
        rw [hread] at h
        cases h
      | ok r =>
        rw [hread] at h
        obtain ⟨rfl, rfl⟩ := Prod.mk.inj (Except.ok.inj h)
        simp only [List.length_cons, takeHeaders, ih hread]
        rfl

theorem parseRequired_ok {α : Type} {parse : String → Except String α} {headers : List String}
    {idx : Nat} {field : String} {v : α} (h : parseRequired parse headers idx field = .ok v) :
    parse (trim (headers.getD idx "")) = .ok v := by
  simp only [parseRequired] at h
  split_ifs at h
  split at h
  · rename_i hparse
    rw [hparse, Except.ok.inj h]
  · cases h

/-- `FALSE` is no spelling of `true`. -/
theorem startup_isSpecial {headers : List String} {isSpecial : Bool}
    (h : (if asciiLower (trim (headers.getD 2 "")) = "false" then .ok false
      else parseRequired parseBool headers 2 "is_special") = Except.ok isSpecial) :
    (parseBool (trim (headers.getD 2 ""))).toOption.getD false = isSpecial := by
  split_ifs at h with hfalse
  · obtain rfl := Except.ok.inj h
    unfold parseBool
    split_ifs with htrue
    · rw [htrue] at hfalse
      exact absurd hfalse (by decide)
    · rfl
    · rfl
  · rw [parseRequired_ok h]
    rfl

theorem ok_bind {α β : Type} (a : α) (f : α → Except String β) :
    (Except.ok a : Except String α).bind f = f a := rfl

theorem error_bind {α β : Type} (e : String) (f : α → Except String β) :
    (Except.error e : Except String α).bind f = .error e := rfl

/-- The four numbers that both readers parse in the same way. -/
theorem numbers_ok {headers : List String} {com : String} {isSpecial : Bool} {config : Config}
    (h : ((parseRequired parseU32 headers 1 "baud_rate").bind fun baudRate =>
      (parseRequired parseU8 headers 3 "com_index").bind fun comIndex =>
      (parseRequired parseU8 headers 4 "device_id").bind fun deviceId =>
      (parseRequired parseU8 headers 5 "data_len").bind fun dataLen =>
      if baudRate = 0 then .error "baud_rate 必须大于 0"
      else .ok (⟨com, baudRate, isSpecial, comIndex, deviceId, dataLen, headers.getD 6 ""⟩ : Config)) =
        Except.ok config) (hcom : trim (headers.getD 0 "") = com) (hne : com ≠ "")
    (hspecial : (parseBool (trim (headers.getD 2 ""))).toOption.getD false = isSpecial) :
    startupConfig headers = .ok config := by
  cases hbaud : parseRequired parseU32 headers 1 "baud_rate" with
  | error e =>
    rw [hbaud, error_bind] at h
    cases h
  | ok baudRate =>
    rw [hbaud, ok_bind] at h
    cases hindex : parseRequired parseU8 headers 3 "com_index" with
    | error e =>
      rw [hindex, error_bind] at h
      cases h
    | ok comIndex =>
      rw [hindex, ok_bind] at h
      cases hdevice : parseRequired parseU8 headers 4 "device_id" with
      | error e =>
        rw [hdevice, error_bind] at h
        cases h
      | ok deviceId =>
        rw [hdevice, ok_bind] at h
        cases hlen : parseRequired parseU8 headers 5 "data_len" with
        | error e =>
          rw [hlen, error_bind] at h
          cases h
        | ok dataLen =>
          rw [hlen, ok_bind] at h
          split_ifs at h
          obtain rfl := Except.ok.inj h
          simp only [startupConfig, hcom, if_neg hne, hspecial, hbaud, hindex, hdevice, hlen, bind,
            ok_bind, pure, Except.pure]

theorem startupConfig_of_readConfig {headers : List String} {config : Config}
    (h : readConfig headers = .ok config) : startupConfig headers = .ok config := by
  simp only [readConfig, bind, ok_bind, error_bind, pure, Except.pure, throw, throwThe,
    MonadExceptOf.throw] at h
  split_ifs at h with hcom hprefix hfalse
  · refine numbers_ok h rfl (fun heq => hcom (.inl heq)) (startup_isSpecial ?_)
    rw [if_pos hfalse]
  · cases hspecial : parseRequired parseBool headers 2 "is_special" with
    | error e =>
      rw [hspecial, error_bind] at h
      cases h
    | ok isSpecial =>
      rw [hspecial, ok_bind] at h
      refine numbers_ok h rfl (fun heq => hcom (.inl heq)) (startup_isSpecial ?_)
      rw [if_neg hfalse, hspecial]

theorem startupRow_of_readRow {csv : CsvReader} {config : Config} {names : List String} {n : Nat}
    {row : Except String (List String)} {record : Record}
    (h : readRow csv config names n row = .ok record) : startupRow csv config row = .ok record := by
  cases row with
  | error e => cases h
  | ok fields =>
    cases hd : csv.deserialize fields with
    | error e => simp [readRow, hd, Except.mapError, bind, Except.bind] at h
    | ok raw =>
      simp only [readRow, hd, Except.mapError, bind, Except.bind, pure, Except.pure, throw, throwThe,
        MonadExceptOf.throw] at h
      split_ifs at h
      obtain rfl := Except.ok.inj h
      simp [startupRow, hd, Except.mapError, bind, Except.bind, pure, Except.pure]

theorem startupRows_of_readRows {csv : CsvReader} {config : Config}
    {rows : List (Except String (List String))} {names : List String} {n : Nat}
    {records : List Record} (h : (readRows csv config names n rows).2 = .ok records) :
    rows.mapM (startupRow csv config) = .ok records := by
  induction rows generalizing names n records with
  | nil => exact h
  | cons row rows ih =>
    simp only [readRows] at h
    split at h
    · cases h
    · rename_i record hrow
      cases hrest : (readRows csv config (record.kks :: names) (n + 1) rows).2 with
      | error e => simp [hrest, Except.map] at h
      | ok rest =>
        simp only [hrest, Except.map] at h
        obtain rfl := Except.ok.inj h
        rw [List.mapM_cons, startupRow_of_readRow hrow, ih hrest]
        rfl

theorem tail_of_readColumns {rows rest : List (Except String (List String))}
    (h : readColumns rows = .ok rest) : rows.tail = rest := by
  match rows with
  | [] => cases h
  | .error e :: rows => cases h
  | .ok columns :: rows =>
    simp only [readColumns] at h
    split_ifs at h
    exact Except.ok.inj h

/-- What the check lets through, the startup parser reads as the same device from the text
without its byte order marks. -/
theorem parseCsv_of_validated {csv : CsvReader} {content : String} {config : Config}
    {records : List Record}
    (h : (validateCsvContentWithPointWarnings csv content).2 = .ok (config, records)) :
    parseCsv csv (withoutMarks content) = .ok (config, records) := by
  simp only [validateCsvContentWithPointWarnings] at h
  split at h
  · cases h
  · rename_i headers rows hheaders
    split at h
    · cases h
    · rename_i config' hconfig
      split at h
      · cases h
      · rename_i rest hcolumns
        cases hrows : (readRows csv config' [] 9 rest).2 with
        | error e => simp [hrows, Except.map] at h
        | ok records' =>
          simp only [hrows, Except.map] at h
          obtain ⟨rfl, rfl⟩ := Prod.mk.inj (Except.ok.inj h)
          have hread : takeHeaders 7 (csv.rows (withoutMarks content)) = .ok (headers, rows) :=
            takeHeaders_of_readHeaders hheaders
          simp only [parseCsv, hread, startupConfig_of_readConfig hconfig,
            tail_of_readColumns hcolumns, startupRows_of_readRows hrows, bind, Except.bind, pure,
            Except.pure]

/-! ## Byte order marks -/

/-- The text starts with at most one byte order mark. -/
def AtMostOneMark (content : String) : Prop :=
  ∀ rest, content.toList ≠ '\ufeff' :: '\ufeff' :: rest

/-- The library skips one mark at the beginning of a file. -/
def CsvReader.SkipsMark (csv : CsvReader) : Prop :=
  ∀ text : String, text.toList.head? ≠ some '\ufeff' →
    csv.rows (String.ofList ('\ufeff' :: text.toList)) = csv.rows text

theorem withoutMarks_append {marks text : String} (hmarks : ∀ c ∈ marks.toList, c = '\ufeff')
    (hhead : text.toList.head? ≠ some '\ufeff') : withoutMarks (marks ++ text) = text := by
  have hdrop : text.toList.dropWhile (· == '\ufeff') = text.toList := by
    cases hchars : text.toList with
    | nil => rfl
    | cons c rest =>
      have hc : c ≠ '\ufeff' := fun heq => hhead (by rw [hchars, heq]; rfl)
      simp [hc]
  rw [withoutMarks, String.toList_append,
    List.dropWhile_append_of_pos fun c hc => beq_iff_eq.mpr (hmarks c hc), hdrop,
    String.ofList_toList]

theorem rows_withoutMarks {csv : CsvReader} (hskip : csv.SkipsMark) {content : String}
    (h : AtMostOneMark content) : csv.rows (withoutMarks content) = csv.rows content := by
  unfold withoutMarks
  cases hchars : content.toList with
  | nil =>
    rw [List.dropWhile_nil, ← hchars, String.ofList_toList]
  | cons c rest =>
    by_cases hc : c = '\ufeff'
    · subst hc
      have hhead : rest.head? ≠ some '\ufeff' := by
        intro hsecond
        obtain ⟨tail, rfl⟩ := List.head?_eq_some_iff.mp hsecond
        exact h tail hchars
      have hdrop : (List.dropWhile (· == '\ufeff') ('\ufeff' :: rest)) = rest := by
        cases rest with
        | nil => rfl
        | cons d tail =>
          have hd : d ≠ '\ufeff' := fun heq => hhead (by rw [heq]; rfl)
          simp [hd]
      have hone := hskip (String.ofList rest) (by rwa [String.toList_ofList])
      rw [String.toList_ofList, ← hchars, String.ofList_toList] at hone
      rw [hdrop, hone]
    · have hdrop : (List.dropWhile (· == '\ufeff') (c :: rest)) = c :: rest := by simp [hc]
      rw [hdrop, ← hchars, String.ofList_toList]

/-- Marks at the beginning make no difference to the startup parser. -/
def ReadsAlike (csv : CsvReader) (content : String) : Prop :=
  parseCsv csv content = parseCsv csv (withoutMarks content)

theorem readsAlike_of_atMostOneMark {csv : CsvReader} (hskip : csv.SkipsMark) {content : String}
    (h : AtMostOneMark content) : ReadsAlike csv content := by
  unfold ReadsAlike parseCsv
  rw [rows_withoutMarks hskip h]

end RcdServer.Protocol
