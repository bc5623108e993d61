import RcdServer.Lib.Run
import RcdServer.LowerLogs.Appends

/-!
# Pages of the central logs

`QueryContext` of `lowerlogs/store.go`. A page is read from the snapshots of all files, the newest
first. Replays may have left an event in several files; only its newest copy counts.
-/
namespace RcdServer.LowerLogs.Files

open Lib.Lines
open Lib.Run (bind_eq_ok_iff)

/-! ## Filters -/

/-- A zero time is no bound. -/
structure Filter where
  commandAttempts : String
  sourceID : String
  level : String
  portID : String
  deviceID : String
  query : String
  fromTime : Int
  toTime : Int
  limit : Int
  offset : Int

/-- What `matchesCommandAttempts` decodes from a message. -/
structure AttemptSummary where
  schemaVersion : Int
  sentCount : Option UInt32
  attemptCount : UInt32
  maxAttempts : UInt32
  result : String
  deriving DecidableEq

/-- `strings.ToLower`, `strings.EqualFold`, and `json.Unmarshal` at the summary. -/
structure Texts where
  toLower : String → String
  equalFold : String → String → Bool
  summary : String → Option AttemptSummary

section
variable {F : Type} (texts : Texts) (json : Json F)

def matchesCommandAttempts (event : Event F) (filter : String) : Bool :=
  event.component == "rcd_server::command_audit" &&
    match texts.summary event.message with
    | none => false
    | some value =>
      match value.sentCount with
      | none => false
      | some sent =>
        value.schemaVersion == 1 && decide (sent ≤ value.attemptCount) &&
          decide (value.attemptCount ≤ value.maxAttempts) &&
          (["received", "failed", "expired", "interrupted"].contains value.result) &&
          (filter == "all" || filter == "retried" && decide (1 < sent) ||
            filter == "three" && decide (3 ≤ sent))

/-- `matches` -/
def matchesFilter (event : Event F) (filter : Filter) : Bool :=
  let query := texts.toLower (Lib.Text.trim filter.query)
  let haystack := texts.toLower
    (" ".intercalate [event.message, event.component, event.portID, event.deviceID])
  (filter.commandAttempts == "" || matchesCommandAttempts texts event filter.commandAttempts) &&
    (filter.fromTime == 0 || decide (filter.fromTime ≤ event.timestamp)) &&
    (filter.toTime == 0 || decide (event.timestamp ≤ filter.toTime)) &&
    (filter.level == "" || texts.equalFold event.level filter.level) &&
    (filter.portID == "" || event.portID == filter.portID) &&
    (filter.deviceID == "" || event.deviceID == filter.deviceID) &&
    (query == "" || decide (query.toList <:+: haystack.toList))

/-! ## Queries -/

structure Page (F : Type) where
  items : List (Event F)
  total : Nat
  skipped : Nat

inductive QueryError where
  | invalid (message : String)
  | read (e : ReadError)
  deriving DecidableEq

/-- The page while it is being read, with the keys of the map `seen`. -/
structure Reading (F : Type) where
  seen : List String
  items : List (Event F)
  total : Nat
  skipped : Nat

def eventKey (event : Event F) : String :=
  event.sourceID ++ "\x00" ++ event.bootID ++ "\x00" ++ toString event.sequence

/-- The function that `QueryContext` hands to `scanReverse`. -/
def visitEvent (filter : Filter) (r : Reading F) (line : Bytes) (oversized : Bool) : Reading F :=
  match if oversized then none else json.unmarshal line with
  | none => { r with skipped := r.skipped + 1 }
  | some event =>
    if !matchesFilter texts event filter then r
    else if eventKey event ∈ r.seen then r
    else
      { r with
        seen := r.seen ++ [eventKey event]
        items :=
          if filter.offset ≤ r.total ∧ (r.items.length : Int) < filter.limit then
            r.items ++ [event]
          else r.items
        total := r.total + 1 }

def scanFiles (filter : Filter) (files : List FileSnapshot) (r : Reading F) :
    Except ReadError (Reading F) :=
  files.foldlM (fun r f => scanReverse (visitEvent texts json filter) f r) r

/-- The snapshot is taken under the lock of the source, unless the context ends first. -/
def queryContext (filter : Filter) (snapshot : Except ReadError (List FileSnapshot)) :
    Except QueryError (Page F) :=
  if Lib.Text.trim filter.sourceID = "" then .error (.invalid "source_id is required")
  else if filter.limit < 1 ∨ 1000 < filter.limit ∨ filter.offset < 0 then
    .error (.invalid "invalid lower log pagination")
  else
    match snapshot with
    | .error e => .error (.read e)
    | .ok files =>
      match scanFiles texts json filter files ⟨[], [], 0, 0⟩ with
      | .error e => .error (.read e)
      | .ok r => .ok ⟨r.items, r.total, r.skipped⟩

/-- Pages of one snapshot, each with the offset behind the page before. -/
def queryPages (filter : Filter) (files : List FileSnapshot) :
    Int → List Int → Except QueryError (List (Page F))
  | _, [] => .ok []
  | offset, limit :: limits =>
    match queryContext texts json { filter with offset := offset, limit := limit } (.ok files) with
    | .error e => .error e
    | .ok page => (queryPages filter files (offset + limit) limits).map (page :: ·)

end

/-- The file has not become shorter, and every read succeeds in time. -/
def FileSnapshot.Readable (f : FileSnapshot) : Prop :=
  f.size ≤ f.file.length ∧ ∀ n, f.failing n = none

/-- `snapshotContext`: the files as they are. -/
def snapshot (store : Store) (d : Disk) : List FileSnapshot :=
  (filesNewestFirst store.keepFiles d).map fun content => ⟨content, content.length, fun _ => none⟩

/-! ## Identities -/

section
variable {F : Type}

def identity (event : Event F) : String × String × Nat :=
  (event.sourceID, event.bootID, event.sequence)

theorem nul_notMem_repr (n : Nat) : '\x00' ∉ (toString n).toList := by
  rw [Nat.toString_eq_repr, Nat.toList_repr]
  intro h
  exact absurd (Nat.isDigit_of_mem_toDigits (by decide) (by decide) h) (by decide)

theorem repr_inj {m n : Nat} (h : (toString m).toList = (toString n).toList) : m = n := by
  rw [Nat.toString_eq_repr, Nat.toString_eq_repr, Nat.toList_repr, Nat.toList_repr] at h
  have hread := congrArg (fun cs => Nat.ofDigitChars 10 cs 0) h
  simpa only [Nat.ofDigitChars_ten_toDigits] using hread

/-- What follows the last separator can be told from what is in front of it. -/
theorem last_separator {c : Char} {x y d d' : List Char} (hd : c ∉ d) (hd' : c ∉ d')
    (h : x ++ c :: d = y ++ c :: d') : x = y ∧ d = d' := by
  have hfront : ∀ z k : List Char, c ∉ k → whole c (z ++ c :: k) = z ++ [c] := by
    intro z k hk
    rw [show z ++ c :: k = (z ++ [c]) ++ k by simp, whole_append hk, whole_of_getLast (by simp)]
  have hwhole := congrArg (whole c) h
  rw [hfront x d hd, hfront y d' hd'] at hwhole
  obtain rfl := List.append_cancel_right hwhole
  exact ⟨rfl, (List.cons.inj (List.append_cancel_left h)).2⟩

/-- The number follows the last separator. -/
theorem identity_eq_of_key {e e' : Event F} (hsource : e.sourceID = e'.sourceID)
    (h : eventKey e = eventKey e') : identity e = identity e' := by
  have hchars := congrArg String.toList h
  have hnul : "\x00".toList = ['\x00'] := rfl
  simp only [eventKey, String.toList_append, hsource, hnul, List.append_assoc,
    List.append_cancel_left_eq] at hchars
  obtain ⟨hboot, hnumber⟩ := last_separator (nul_notMem_repr _) (nul_notMem_repr _) hchars
  rw [identity, identity, hsource, String.toList_inj.mp hboot, repr_inj hnumber]

theorem key_eq_of_identity {e e' : Event F} (h : identity e = identity e') :
    eventKey e = eventKey e' := by
  simp only [identity, Prod.mk.injEq] at h
  rw [eventKey, eventKey, h.1, h.2.1, h.2.2]

/-! ## What a page holds -/

variable {texts : Texts} {json : Json F} {filter : Filter}

/-- The lines of a snapshot, the last one of the newest file first. -/
def linesNewestFirst (files : List FileSnapshot) : List Bytes :=
  files.flatMap fun f => (lines newline (f.file.take f.size)).reverse

def eventsNewestFirst (json : Json F) (files : List FileSnapshot) : List (Event F) :=
  (linesNewestFirst files).filterMap (decode json)

/-- The matching events, each once. -/
def matching (texts : Texts) (filter : Filter) (events : List (Event F)) : List (Event F) :=
  firsts eventKey (events.filter fun e => matchesFilter texts e filter)

def skippedLines (json : Json F) (ls : List Bytes) : Nat :=
  (ls.filter fun l => (decode json l).isNone).length

/-- The state of the page behind these matching events. -/
def readingOf (filter : Filter) (all : List (Event F)) (skipped : Nat) : Reading F where
  seen := all.map eventKey
  items := page all filter.offset.toNat filter.limit.toNat
  total := all.length
  skipped := skipped

theorem visitEvent_skip {l : Bytes} (h : decode json l = none) (r : Reading F) :
    visitLine (visitEvent texts json filter) r l = { r with skipped := r.skipped + 1 } := by
  change visitEvent texts json filter r (keptPart l) (tooLong l) = _
  rw [visitEvent, show (if tooLong l then none else json.unmarshal (keptPart l)) = none from h]

theorem visitEvent_other {l : Bytes} {event : Event F} (h : decode json l = some event)
    (r : Reading F) (hother : matchesFilter texts event filter = false ∨ eventKey event ∈ r.seen) :
    visitLine (visitEvent texts json filter) r l = r := by
  change visitEvent texts json filter r (keptPart l) (tooLong l) = _
  rw [visitEvent,
    show (if tooLong l then none else json.unmarshal (keptPart l)) = some event from h]
  rcases hother with hmatch | hseen
  · simp [hmatch]
  · simp [hseen]

theorem visitEvent_new {l : Bytes} {event : Event F} (h : decode json l = some event)
    (hmatch : matchesFilter texts event filter = true) (hoffset : 0 ≤ filter.offset)
    {all : List (Event F)} (hnew : eventKey event ∉ all.map eventKey) (skipped : Nat) :
    visitLine (visitEvent texts json filter) (readingOf filter all skipped) l =
      readingOf filter (all ++ [event]) skipped := by
  have hroom : (filter.offset ≤ (all.length : Int) ∧
      ((page all filter.offset.toNat filter.limit.toNat).length : Int) < filter.limit) ↔
      filter.offset.toNat ≤ all.length ∧
        (page all filter.offset.toNat filter.limit.toNat).length < filter.limit.toNat := by
    omega
  change visitEvent texts json filter _ (keptPart l) (tooLong l) = _
  rw [visitEvent,
    show (if tooLong l then none else json.unmarshal (keptPart l)) = some event from h]
  simp only [readingOf, hmatch, Bool.not_true, Bool.false_eq_true, if_false, if_neg hnew,
    page_append_singleton, hroom, List.map_append, List.map_cons, List.map_nil,
    List.length_append, List.length_singleton]

theorem reading_eq (hoffset : 0 ≤ filter.offset) (ls : List Bytes) :
    ls.foldl (visitLine (visitEvent texts json filter)) ⟨[], [], 0, 0⟩ =
      readingOf filter (matching texts filter (ls.filterMap (decode json)))
        (skippedLines json ls) := by
  induction ls using List.reverseRecOn with
  | nil => simp [readingOf, matching, firsts, page, skippedLines]
  | append_singleton ls l ih =>
    rw [List.foldl_append, ih, List.foldl_cons, List.foldl_nil, List.filterMap_append]
    cases hdecode : decode json l with
    | none =>
      rw [visitEvent_skip hdecode]
      simp [hdecode, skippedLines, readingOf]
    | some event =>
      have hskipped : skippedLines json (ls ++ [l]) = skippedLines json ls := by
        simp [skippedLines, hdecode]
      rw [hskipped, List.filterMap_cons_some hdecode, List.filterMap_nil, matching, matching,
        List.filter_append]
      cases hmatch : matchesFilter texts event filter with
      | false =>
        rw [visitEvent_other hdecode _ (Or.inl hmatch), List.filter_cons_of_neg (by simp [hmatch]),
          List.filter_nil, List.append_nil]
      | true =>
        have hone : [event].filter (fun e => matchesFilter texts e filter) = [event] := by
          simp [hmatch]
        rw [hone, firsts_append_singleton]
        split_ifs with hseen
        · rw [visitEvent_other hdecode _ (Or.inr hseen)]
        · rw [visitEvent_new hdecode hmatch hoffset hseen]

theorem scanFiles_ok {files : List FileSnapshot} {r r' : Reading F}
    (h : scanFiles texts json filter files r = .ok r') :
    r' = (linesNewestFirst files).foldl (visitLine (visitEvent texts json filter)) r := by
  induction files generalizing r with
  | nil => exact (Except.ok.inj h).symm
  | cons f files ih =>
    rw [scanFiles, List.foldlM_cons] at h
    obtain ⟨mid, hmid, hrest⟩ := bind_eq_ok_iff.mp h
    rw [ih hrest, (scanReverse_ok hmid).1, linesNewestFirst, linesNewestFirst, List.flatMap_cons,
      List.foldl_append]
    rfl

theorem scanFiles_of_readable {files : List FileSnapshot}
    (h : ∀ f ∈ files, f.Readable) (r : Reading F) :
    ∃ r', scanFiles texts json filter files r = .ok r' := by
  induction files generalizing r with
  | nil => exact ⟨r, rfl⟩
  | cons f files ih =>
    obtain ⟨hlen, hread⟩ := h f List.mem_cons_self
    obtain ⟨r', hr'⟩ := ih (fun f' hf' => h f' (List.mem_cons_of_mem f hf'))
      (visits (visitEvent texts json filter) r (f.file.take f.size))
    refine ⟨r', ?_⟩
    rw [scanFiles, List.foldlM_cons]
    exact bind_eq_ok_iff.mpr ⟨_, scanReverse_of_readable hlen hread, hr'⟩

/-- A page of a snapshot. -/
theorem queryContext_ok {files : List FileSnapshot} {p : Page F}
    (h : queryContext texts json filter (.ok files) = .ok p) :
    let all := matching texts filter (eventsNewestFirst json files)
    p = ⟨page all filter.offset.toNat filter.limit.toNat, all.length,
      skippedLines json (linesNewestFirst files)⟩ := by
  rw [queryContext] at h
  split_ifs at h with hsource hrange
  cases hscan : scanFiles texts json filter files ⟨[], [], 0, 0⟩ with
  | error e =>
    simp only [hscan] at h
    cases h
  | ok r =>
    simp only [hscan] at h
    have hr := scanFiles_ok hscan
    rw [reading_eq (by omega)] at hr
    rw [← Except.ok.inj h, hr]
    rfl

theorem queryContext_range {snapshot : Except ReadError (List FileSnapshot)} {p : Page F}
    (h : queryContext texts json filter snapshot = .ok p) :
    1 ≤ filter.limit ∧ 0 ≤ filter.offset := by
  unfold queryContext at h
  split_ifs at h with hsource hrange
  omega

theorem queryContext_of_readable {files : List FileSnapshot}
    (h : ∀ f ∈ files, f.Readable)
    (hsource : Lib.Text.trim filter.sourceID ≠ "") (hlimit : 1 ≤ filter.limit ∧ filter.limit ≤ 1000)
    (hoffset : 0 ≤ filter.offset) : ∃ p, queryContext texts json filter (.ok files) = .ok p := by
  obtain ⟨r, hr⟩ : ∃ r, scanFiles texts json filter files ⟨[], [], 0, 0⟩ = .ok r :=
    scanFiles_of_readable h _
  refine ⟨⟨r.items, r.total, r.skipped⟩, ?_⟩
  rw [queryContext, if_neg hsource, if_neg (by omega)]
  simp only [hr]

/-- The number of matching events does not depend on the page. -/
theorem queryPages_ok {files : List FileSnapshot} {offset : Int} {limits : List Int}
    {ps : List (Page F)} (h : queryPages texts json filter files offset limits = .ok ps) :
    (∀ p ∈ ps, p.total = (matching texts filter (eventsNewestFirst json files)).length) ∧
      ps.map (·.items) = pages (matching texts filter (eventsNewestFirst json files))
        offset.toNat (limits.map Int.toNat) := by
  induction limits generalizing offset ps with
  | nil =>
    obtain rfl := Except.ok.inj h
    exact ⟨by simp, rfl⟩
  | cons limit limits ih =>
    rw [queryPages] at h
    cases hfirst : queryContext texts json { filter with offset := offset, limit := limit }
      (.ok files) with
    | error e =>
      simp only [hfirst] at h
      cases h
    | ok p =>
      simp only [hfirst] at h
      cases hrest : queryPages texts json filter files (offset + limit) limits with
      | error e =>
        rw [hrest] at h
        cases h
      | ok more =>
        rw [hrest] at h
        obtain rfl := Except.ok.inj h
        obtain ⟨htotals, hitems⟩ := ih hrest
        obtain ⟨hlimit, hoffset⟩ := queryContext_range hfirst
        have hp := queryContext_ok hfirst
        have hnext : (offset + limit).toNat = offset.toNat + limit.toNat := by
          change 1 ≤ limit at hlimit
          change 0 ≤ offset at hoffset
          omega
        refine ⟨?_, ?_⟩
        · intro q hq
          rcases List.mem_cons.mp hq with rfl | hq
          · rw [hp]
            rfl
          · exact htotals q hq
        · rw [List.map_cons, hitems, hnext, List.map_cons, pages, hp]
          rfl

/-! ## The files of a source -/

/-- The matching events of a snapshot, the newest first, each source, boot and sequence once. -/
structure Divides (texts : Texts) (filter : Filter) (events all : List (Event F)) : Prop where
  order : all.Sublist events
  matching : ∀ e ∈ all, matchesFilter texts e filter = true
  once : all.Pairwise fun e e' => identity e ≠ identity e'
  complete : ∀ e ∈ events, matchesFilter texts e filter = true →
    ∃ e' ∈ all, identity e' = identity e

theorem divides_matching {source : String} {events : List (Event F)}
    (h : ∀ e ∈ events, e.sourceID = source) :
    Divides texts filter events (matching texts filter events) where
  order := (firsts_sublist eventKey _).trans List.filter_sublist
  matching := by
    intro e he
    exact (List.mem_filter.mp ((firsts_sublist eventKey _).subset he)).2
  once := (firsts_pairwise eventKey _).imp fun hne heq => hne (key_eq_of_identity heq)
  complete := by
    intro e he hmatch
    have hmem : e ∈ events.filter fun e => matchesFilter texts e filter :=
      List.mem_filter.mpr ⟨he, hmatch⟩
    obtain ⟨e', he', hkey⟩ : ∃ e' ∈ matching texts filter events, eventKey e' = eventKey e :=
      exists_mem_firsts hmem
    refine ⟨e', he', identity_eq_of_key ?_ hkey⟩
    have hread := (List.mem_filter.mp ((firsts_sublist eventKey _).subset he')).1
    rw [h e' hread, h e he]

theorem eventsNewestFirst_snapshot (json : Json F) (store : Store) (d : Disk) :
    eventsNewestFirst json (snapshot store d) =
      ((filesNewestFirst store.keepFiles d).reverse.flatMap (readable json)).reverse := by
  have hlines : linesNewestFirst (snapshot store d) =
      (filesNewestFirst store.keepFiles d).flatMap fun content =>
        (lines newline content).reverse := by
    simp [linesNewestFirst, snapshot, List.flatMap_map]
  rw [eventsNewestFirst, hlines, List.filterMap_flatMap, List.reverse_flatMap, List.reverse_reverse]
  congr 1
  funext content
  rw [List.filterMap_reverse]
  rfl

theorem snapshot_readable (store : Store) (d : Disk) : ∀ f ∈ snapshot store d, f.Readable := by
  intro f hf
  obtain ⟨content, -, rfl⟩ := List.mem_map.mp hf
  exact ⟨Nat.le_refl _, fun _ => rfl⟩

/-- Pages of readable files do not fail. -/
theorem queryPages_of_readable {files : List FileSnapshot} (h : ∀ f ∈ files, f.Readable)
    (hsource : Lib.Text.trim filter.sourceID ≠ "") {offset : Int} (hoffset : 0 ≤ offset)
    {limits : List Int} (hlimits : ∀ limit ∈ limits, 1 ≤ limit ∧ limit ≤ 1000) :
    ∃ ps, queryPages texts json filter files offset limits = .ok ps := by
  induction limits generalizing offset with
  | nil => exact ⟨[], rfl⟩
  | cons limit limits ih =>
    have hlimit := hlimits limit List.mem_cons_self
    obtain ⟨p, hp⟩ : ∃ p, queryContext texts json
        { filter with offset := offset, limit := limit } (.ok files) = .ok p :=
      queryContext_of_readable h hsource hlimit hoffset
    have hnext : 0 ≤ offset + limit := by omega
    obtain ⟨ps, hps⟩ := ih hnext fun l hl => hlimits l (List.mem_cons_of_mem limit hl)
    refine ⟨p :: ps, ?_⟩
    rw [queryPages, hp, hps]
    rfl

/-- The pages from the first event on, for each of which the total is the same. -/
def Pages (texts : Texts) (json : Json F) (filter : Filter) (files : List FileSnapshot)
    (all : List (Event F)) : Prop :=
  ∀ limits ps, queryPages texts json filter files 0 limits = .ok ps →
    (∀ p ∈ ps, p.total = all.length) ∧
    ps.map (·.items) = pages all 0 (limits.map Int.toNat) ∧
    (all.length ≤ (limits.map Int.toNat).sum → ps.flatMap (·.items) = all)

theorem pages_matching (files : List FileSnapshot) :
    Pages texts json filter files (matching texts filter (eventsNewestFirst json files)) := by
  intro limits ps h
  obtain ⟨htotals, hitems⟩ := queryPages_ok h
  refine ⟨htotals, hitems, fun hall => ?_⟩
  rw [List.flatMap_def, hitems]
  exact flatten_pages_all hall

/-- The end of a whole line is the last byte that is kept. -/
theorem repaired_tail (content : Bytes) :
    ∃ tail, content = repairIncompleteTail content ++ tail ∧ newline ∉ tail ∧
      ∀ h, (repairIncompleteTail content).getLast h = newline := by
  obtain ⟨ls, rest, hstores⟩ := exists_stores newline content
  have hrepaired : repairIncompleteTail content = stored newline ls := by
    rw [repairIncompleteTail_eq, hstores.whole_eq]
  refine ⟨rest, ?_, hstores.rest_open, ?_⟩
  · rw [hrepaired]
    exact hstores.content_eq
  · rw [hrepaired]
    exact getLast_stored

/-- Whatever calls leave behind, lines stay whole, and all that was acknowledged is read back until
its archive is removed. Pages of one snapshot divide its matching events. -/
theorem central_log_files (hjson : json.Lawful) (texts : Texts) (store : Store)
    (source : String) :
    (∀ content, ∃ tail, content = repairIncompleteTail content ++ tail ∧ newline ∉ tail ∧
      ∀ h, (repairIncompleteTail content).getLast h = newline) ∧
    (∀ {σ : Type} (visit : σ → Bytes → Bool → σ) (f : FileSnapshot) (s₀ : σ),
      (∀ s, scanReverse visit f s₀ = .ok s → s = visits visit s₀ (f.file.take f.size)) ∧
      (f.Readable → scanReverse visit f s₀ = .ok (visits visit s₀ (f.file.take f.size)))) ∧
    (∀ disk calls,
      let s := run json store source disk calls
      (∀ content ∈ history store.keepFiles s.disk, ∃ ls rest, Stores newline content ls rest ∧
        (∀ l ∈ ls, Old store disk l ∨ ∃ e, New json source calls e l) ∧
        (rest ≠ [] → Old store disk rest ∨ ∃ e l, New json source calls e l ∧ rest <+: l)) ∧
      (∃ gone kept, s.acknowledged = gone ++ kept ∧
        gone.Sublist (s.disk.expired.flatMap (readable json)) ∧
        kept.reverse.Sublist (eventsNewestFirst json (snapshot store s.disk))) ∧
      ((∀ e ∈ (history store.keepFiles disk).flatMap (readable json), e.sourceID = source) →
        ∀ e ∈ eventsNewestFirst json (snapshot store s.disk), e.sourceID = source)) ∧
    ∀ filter files, (∀ e ∈ eventsNewestFirst json files, e.sourceID = source) →
      (∃ all, Divides texts filter (eventsNewestFirst json files) all ∧
        Pages texts json filter files all) ∧
      ((∀ f ∈ files, f.Readable) → Lib.Text.trim filter.sourceID ≠ "" →
        ∀ limits : List Int, (∀ limit ∈ limits, 1 ≤ limit ∧ limit ≤ 1000) →
          ∃ ps, queryPages texts json filter files 0 limits = .ok ps) := by
  refine ⟨repaired_tail, ?_, ?_, ?_⟩
  · exact fun visit f s₀ => ⟨fun s h => (scanReverse_ok h).1,
      fun h => scanReverse_of_readable h.1 h.2⟩
  · intro disk calls
    have hrun := @run_structured F json store source hjson disk calls
    obtain ⟨hstructured, gone, kept, hacked, hgone, hkept⟩ := hrun
    refine ⟨hstructured, ⟨gone, kept, hacked, hgone, ?_⟩, ?_⟩
    · rw [eventsNewestFirst_snapshot]
      exact hkept.reverse
    · intro hold e he
      rw [eventsNewestFirst_snapshot, List.mem_reverse] at he
      have hall : e ∈ (history store.keepFiles (run json store source disk calls).disk).flatMap
          (readable json) := by
        rw [history, List.flatMap_append]
        exact List.mem_append_right _ he
      exact run_source hjson hold e hall
  · intro filter files hsource
    refine ⟨⟨_, divides_matching hsource, pages_matching files⟩, ?_⟩
    exact fun hread htrim limits hlimits =>
      queryPages_of_readable hread htrim (Int.le_refl 0) hlimits

end

/-! ## A sample -/

def sampleEvent : Event Unit where
  sourceID := "a"
  bootID := "b"
  sequence := 1
  timestamp := 63902822400000000000
  receivedAt := 63902822401000000000
  level := "INFO"
  component := "c"
  portID := ""
  deviceID := ""
  message := "up"
  fields := none

def sampleText : String :=
  "\x7b\"source_id\":\"a\",\"boot_id\":\"b\",\"sequence\":1," ++
  "\"timestamp\":\"2026-01-01T00:00:00Z\",\"received_at\":\"2026-01-01T00:00:01Z\"," ++
  "\"level\":\"INFO\",\"component\":\"c\",\"message\":\"up\"\x7d"

def sampleLine : Bytes := sampleText.toList.map fun c => UInt8.ofNat c.toNat

/-- The codec at one event. -/
def sampleJson : Json Unit where
  marshal e := if e = sampleEvent then .ok sampleLine else .error "json: unsupported value"
  unmarshal line := if line = sampleLine then some sampleEvent else none

theorem sampleJson_marshal {e : Event Unit} {line : Bytes}
    (h : sampleJson.marshal e = .ok line) : e = sampleEvent ∧ line = sampleLine := by
  simp only [sampleJson] at h
  split_ifs at h with he
  exact ⟨he, (Except.ok.inj h).symm⟩

theorem newline_not_mem_sampleLine : newline ∉ sampleLine := by
  unfold sampleLine sampleText
  rw [String.toList_append, String.toList_append, List.map_append, List.map_append]
  intro h
  rcases List.mem_append.mp h with h | h
  · rcases List.mem_append.mp h with h | h
    · exact absurd h (by decide +kernel)
    · exact absurd h (by decide +kernel)
  · exact absurd h (by decide +kernel)

theorem sampleJson_lawful : sampleJson.Lawful where
  one_line := by
    intro e line h
    rw [(sampleJson_marshal h).2]
    exact newline_not_mem_sampleLine
  reads := by
    intro e line h
    obtain ⟨he, hline⟩ := sampleJson_marshal h
    rw [he, hline]
    simp only [sampleJson, if_true]
  part := by
    intro e line part h _ hne
    rw [(sampleJson_marshal h).2] at hne
    exact if_neg hne

/-- A write that stops within the line, and the same event again. -/
theorem central_log_files_sample :
    let s := run sampleJson ⟨1024, 1, by decide, by decide⟩ "a" ⟨fun _ => none, []⟩
      [⟨[sampleEvent], .stops 7⟩, ⟨[sampleEvent], .returns⟩]
    ∃ gone kept, s.acknowledged = gone ++ kept ∧
      gone.Sublist (s.disk.expired.flatMap (readable sampleJson)) ∧
      kept.reverse.Sublist
        (eventsNewestFirst sampleJson (snapshot ⟨1024, 1, by decide, by decide⟩ s.disk)) :=
  ((central_log_files sampleJson_lawful ⟨id, (· == ·), fun _ => none⟩ _ "a").2.2.1 _ _).2.1

end RcdServer.LowerLogs.Files
