import RcdServer.Calc.Go.Evaluate
import RcdServer.Lib.Spans
import RcdServer.Lib.Text
import RcdServer.Redundancy.Service

/-!
# Difference alarms

`compare` of `redundancy_service.go` and the alarm it keeps. A point that differs is stamped with
the time of the first evaluation that found it so; it raises the alarm when the stamp is old enough.
An evaluation without a catalog leaves the stamps alone: the identity of the next catalog is
another one.
-/
namespace RcdServer.Redundancy

open Lib Lib.Text Lib.Spans Calc Calc.Go

variable {F64 F32 : Type} [FloatOps F64 F32]

def millisecond : Time := 1000000

/-! ## Samples -/

inductive SampleType where
  | boolean | uint32 | float | double | string
  | other (name : String)
  deriving DecidableEq

/-- A value of type `any`; the types without a branch of their own are written out. -/
inductive AnyValue (F64 F32 : Type) where
  | float64 (x : F64)
  | float32 (x : F32)
  | uint32 (n : UInt32)
  | bool (b : Bool)
  | string (s : String)
  | other (text : String)
  deriving DecidableEq

structure Sample (F64 F32 : Type) where
  type : SampleType
  value : AnyValue F64 F32
  statusCode : StatusCode
  /-- The zero time is none. -/
  sourceTimestamp : Option Time
  deriving DecidableEq

/-- What the comparison reads of a policy. -/
structure ComparePolicy (F64 : Type) where
  groupID : String
  compareEnabled : Bool
  leftSourceID : String
  rightSourceID : String
  differenceSeconds : Int
  absoluteTolerance : F64
  relativeTolerance : F64
  maxSkewMS : Int
  deriving DecidableEq

def number : AnyValue F64 F32 → Option F64
  | .float64 x => some x
  | .float32 x => some (FloatOps.widen x)
  | .uint32 n => some (FloatOps.ofUInt64 n.toUInt64)
  | _ => none

/-- `reflect.DeepEqual`. -/
def deepEqual : AnyValue F64 F32 → AnyValue F64 F32 → Bool
  | .float64 x, .float64 y => FloatOps.eq x y
  | .float32 x, .float32 y => FloatOps.eq (FloatOps.widen x : F64) (FloatOps.widen y)
  | .uint32 n, .uint32 m => n == m
  | .bool b, .bool c => b == c
  | .string s, .string t => s == t
  | .other s, .other t => s == t
  | _, _ => false

/-- `math.Max`: positive infinity first, then a NaN. -/
def mathMax (x y : F64) : F64 :=
  if FloatOps.isInf x && FloatOps.lt FloatOps.zero x then x
  else if FloatOps.isInf y && FloatOps.lt FloatOps.zero y then y
  else if FloatOps.isNaN x then x
  else if FloatOps.isNaN y then y
  else if FloatOps.lt y x then x else y

/-- Whether two samples differ, and whether they can be compared. -/
def compareSamples (a b : Sample F64 F32) (p : ComparePolicy F64) : Bool × Bool :=
  match a.sourceTimestamp, b.sourceTimestamp with
  | some left, some right =>
    if !isGood a.statusCode || !isGood b.statusCode || a.type != b.type then (false, false)
    else if (left - right).natAbs > p.maxSkewMS * millisecond then (false, false)
    else
      match a.type with
      | .double | .float | .uint32 =>
        match number a.value, number b.value with
        | some x, some y =>
          if FloatOps.isNaN x || FloatOps.isNaN y || FloatOps.isInf x || FloatOps.isInf y then
            (false, false)
          else
            let relative := FloatOps.mul p.relativeTolerance (mathMax (FloatOps.abs x) (FloatOps.abs y))
            (FloatOps.lt (mathMax p.absoluteTolerance relative) (FloatOps.abs (FloatOps.sub x y)), true)
        | _, _ => (false, false)
      | .boolean | .string => (!deepEqual a.value b.value, true)
      | .other _ => (false, false)
  | _, _ => (false, false)

/-- A point that the scan yields, with the samples of both sources. -/
structure Scanned (F64 F32 : Type) where
  id : String
  left : Sample F64 F32
  right : Sample F64 F32
  current : Bool
  deriving DecidableEq

/-- The points of a catalog have different identifiers. -/
structure Scan (F64 F32 : Type) where
  points : List (Scanned F64 F32)
  nodup : (points.map (·.id)).Nodup

/-! ## The comparison of one group -/

inductive Compared where
  | disabled | unknown | different | confirming | equal
  deriving DecidableEq

structure PointDifference (F64 F32 : Type) where
  nodeID : String
  left : AnyValue F64 F32
  right : AnyValue F64 F32
  since : Time
  deriving DecidableEq

structure CompareView (F64 F32 : Type) where
  comparisonState : Compared
  comparedCount : Nat
  skippedCount : Nat
  differenceCount : Nat
  differences : List (PointDifference F64 F32)
  differenceAlarmActive : Bool
  lastError : String
  deriving DecidableEq

/-- The part of a group's state that belongs to the comparison. -/
structure Comparison (F64 F32 : Type) where
  view : CompareView F64 F32
  differences : Map String Time
  comparisonIdentity : String
  alarmKnown : Bool
  alarmActive : Bool
  alarmMessage : String

structure DifferenceAlarmUpdate where
  active : Bool
  message : String
  deriving DecidableEq

def newComparison : Comparison F64 F32 :=
  ⟨⟨.disabled, 0, 0, 0, [], false, ""⟩, ∅, "", false, false, ""⟩

namespace Comparison

def uncounted (s : Comparison F64 F32) : Comparison F64 F32 :=
  { s with view := { s.view with
      comparedCount := 0, skippedCount := 0, differenceCount := 0, differences := [] } }

def state (s : Comparison F64 F32) (c : Compared) : Comparison F64 F32 :=
  { s with view := { s.view with comparisonState := c } }

/-- The body of the scan. -/
def visit (p : ComparePolicy F64) (bothHealthy : Bool) (now : Time) (s : Comparison F64 F32)
    (point : Scanned F64 F32) : Comparison F64 F32 :=
  let (different, comparable) := compareSamples point.left point.right p
  if !bothHealthy || !point.current || !comparable then
    { s with
      view := { s.view with skippedCount := s.view.skippedCount + 1 }
      differences := s.differences.erase point.id }
  else
    let s := { s with view := { s.view with comparedCount := s.view.comparedCount + 1 } }
    if !different then { s with differences := s.differences.erase point.id }
    else
      let since := (s.differences.lookup point.id).getD now
      let s := { s with differences := s.differences.insert point.id since }
      if now - since < p.differenceSeconds * second then s
      else
        { s with view := { s.view with
            differenceCount := s.view.differenceCount + 1
            differences :=
              if s.view.differences.length < 20 then
                s.view.differences ++ [⟨point.id, point.left.value, point.right.value, since⟩]
              else s.view.differences } }

def differentMessage (p : ComparePolicy F64) (v : CompareView F64 F32) : String :=
  "组 " ++ p.groupID ++ "：" ++ p.leftSourceID ++ " 与 " ++ p.rightSourceID ++ " 有 " ++
    toString v.differenceCount ++ " 个持续差异点；" ++
    String.intercalate ", " (v.differences.map (·.nodeID))

/-- What the counts of the scan come to. -/
def conclude (p : ComparePolicy F64) (s : Comparison F64 F32) :
    Comparison F64 F32 × Option DifferenceAlarmUpdate :=
  let sorted := s.view.differences.insertionSort fun a b => textLe a.nodeID.toList b.nodeID.toList
  let s := { s with view := { s.view with differences := sorted } }
  if s.view.differenceCount > 0 then
    (s.state .different, some ⟨true, differentMessage p s.view⟩)
  else if s.view.skippedCount > 0 ∨ s.view.comparedCount = 0 then (s.state .unknown, none)
  else if s.differences.entries.length > 0 then (s.state .confirming, none)
  else (s.state .equal, some ⟨false, "数据差异已恢复"⟩)

def compare (s : Comparison F64 F32) (health : Map String SourceHealth) (p : ComparePolicy F64)
    (available : Bool) (identity : String) (now : Time) (scan : Scan F64 F32) :
    Comparison F64 F32 × Option DifferenceAlarmUpdate :=
  let s := s.uncounted
  if !p.compareEnabled then
    ({ s with differences := ∅ }.state .disabled, some ⟨false, "差异检测已关闭"⟩)
  else if !available then (s.state .unknown, none)
  else
    let s :=
      if identity ≠ s.comparisonIdentity then
        { s with differences := ∅, comparisonIdentity := identity }
      else s
    let healthy id := (health.lookup id).any (·.healthy)
    let bothHealthy := healthy p.leftSourceID && healthy p.rightSourceID
    let s := scan.points.foldl (visit p bothHealthy now) s
    let seen := scan.points.map (·.id)
    conclude p { s with differences := s.differences.keep fun id => seen.contains id }

/-- `ReconcileAlarm` answers whether the stored alarm has changed, or fails. -/
def persistDifferenceAlarm (s : Comparison F64 F32) (u : DifferenceAlarmUpdate)
    (saved : Except String Bool) : Comparison F64 F32 :=
  if s.alarmKnown && s.alarmActive == u.active && (!u.active || s.alarmMessage == u.message) then s
  else
    match saved with
    | .error e => { s with view := { s.view with lastError := "告警保存失败，将重试：" ++ e } }
    | .ok _ =>
      { s with
        alarmKnown := true, alarmActive := u.active, alarmMessage := u.message
        view := { s.view with differenceAlarmActive := u.active } }

end Comparison

/-! ## Evaluations -/

/-- One call of `compareGroupLocked`, with what it finds and what saving the alarm answers. -/
structure Evaluation (F64 F32 : Type) where
  policy : ComparePolicy F64
  health : Map String SourceHealth
  available : Bool
  identity : String
  now : Time
  scan : Scan F64 F32
  saved : Except String Bool

namespace Evaluation

def healthy (e : Evaluation F64 F32) (source : String) : Bool :=
  (e.health.lookup source).any (·.healthy)

/-- Whether the samples of a point can be compared at all. -/
def comparable (e : Evaluation F64 F32) (point : Scanned F64 F32) : Bool :=
  e.healthy e.policy.leftSourceID && e.healthy e.policy.rightSourceID && point.current &&
    (compareSamples point.left point.right e.policy).2

def different (e : Evaluation F64 F32) (point : Scanned F64 F32) : Bool :=
  (compareSamples point.left point.right e.policy).1

def differs (e : Evaluation F64 F32) (point : Scanned F64 F32) : Bool :=
  e.comparable point && e.different point

/-- The identity under which a point was found comparable and different. -/
def observed (id : String) (e : Evaluation F64 F32) : Option String :=
  if e.available && e.scan.points.any fun point => point.id == id && e.differs point then
    some e.identity
  else none

end Evaluation

namespace Comparison

def evaluate (s : Comparison F64 F32) (e : Evaluation F64 F32) :
    Comparison F64 F32 × Option DifferenceAlarmUpdate :=
  match s.compare e.health e.policy e.available e.identity e.now e.scan with
  | (s, none) => (s, none)
  | (s, some u) => (s.persistDifferenceAlarm u e.saved, some u)

def after (s : Comparison F64 F32) (es : List (Evaluation F64 F32)) : Comparison F64 F32 :=
  es.foldl (fun s e => (s.evaluate e).1) s

end Comparison

/-! ## What a scan does -/

section Scans

variable {e : Evaluation F64 F32} {s : Comparison F64 F32}

/-- The stamp of a point behind the scan, from the one before. -/
def Evaluation.stamp (e : Evaluation F64 F32) (point : Scanned F64 F32) (old : Option Time) :
    Option Time :=
  if e.differs point then some (old.getD e.now) else none

/-- Whether a point counts as a lasting difference. -/
def Evaluation.due (e : Evaluation F64 F32) (old : Option Time) (point : Scanned F64 F32) : Bool :=
  e.differs point && decide (e.policy.differenceSeconds * second ≤ e.now - old.getD e.now)

/-- The scan of an evaluation. -/
def Evaluation.visit (e : Evaluation F64 F32) : Comparison F64 F32 → Scanned F64 F32 →
    Comparison F64 F32 :=
  Comparison.visit e.policy (e.healthy e.policy.leftSourceID && e.healthy e.policy.rightSourceID) e.now

/-- What one point of the scan does, by the outcome of its comparison. -/
theorem visit_spec (point : Scanned F64 F32) :
    (∀ id, (e.visit s point).differences.lookup id =
      if id = point.id then e.stamp point (s.differences.lookup id) else s.differences.lookup id) ∧
    (e.visit s point).view.skippedCount =
      s.view.skippedCount + (if e.comparable point then 0 else 1) ∧
    (e.visit s point).view.comparedCount =
      s.view.comparedCount + (if e.comparable point then 1 else 0) ∧
    (e.visit s point).view.differenceCount =
      s.view.differenceCount + (if e.due (s.differences.lookup point.id) point then 1 else 0) := by
  have hskip : (!(e.healthy e.policy.leftSourceID && e.healthy e.policy.rightSourceID) ||
      !point.current || !(compareSamples point.left point.right e.policy).2) =
      !e.comparable point := by
    simp [Evaluation.comparable, Bool.not_and]
  have hinsert : ∀ id, (s.differences.insert point.id
      ((s.differences.lookup point.id).getD e.now)).lookup id =
      if id = point.id then some ((s.differences.lookup id).getD e.now)
      else s.differences.lookup id := by
    intro id
    rw [Map.lookup_insert_eq]
    split_ifs with hid
    · rw [hid]
    · rfl
  unfold Evaluation.visit Comparison.visit
  simp only [hskip]
  by_cases hc : e.comparable point = true
  · by_cases hd : (compareSamples point.left point.right e.policy).1 = true
    · have hdiffers : e.differs point = true := by
        simp [Evaluation.differs, hc, Evaluation.different, hd]
      by_cases hlong : e.now - (s.differences.lookup point.id).getD e.now <
          e.policy.differenceSeconds * second
      · have hdue : e.due (s.differences.lookup point.id) point = false := by
          simp [Evaluation.due, hlong]
        simp only [hc, hd, hlong, hdue, Evaluation.stamp, hdiffers]
        exact ⟨hinsert, rfl, rfl, rfl⟩
      · have hdue : e.due (s.differences.lookup point.id) point = true := by
          simp [Evaluation.due, hdiffers, not_lt.mp hlong]
        simp only [hc, hd, hlong, hdue, Evaluation.stamp, hdiffers]
        exact ⟨hinsert, rfl, rfl, rfl⟩
    · have hdiffers : e.differs point = false := by
        simp [Evaluation.differs, Evaluation.different, hd]
      have hdue : e.due (s.differences.lookup point.id) point = false := by
        simp [Evaluation.due, hdiffers]
      simp only [hc, hd, hdue, Evaluation.stamp, hdiffers]
      exact ⟨fun id => Map.lookup_erase_eq, rfl, rfl, rfl⟩
  · have hdiffers : e.differs point = false := by simp [Evaluation.differs, hc]
    have hdue : e.due (s.differences.lookup point.id) point = false := by
      simp [Evaluation.due, hdiffers]
    simp only [hc, hdue, Evaluation.stamp, hdiffers]
    exact ⟨fun id => Map.lookup_erase_eq, rfl, rfl, rfl⟩

/-- What the whole scan does; no point is visited twice. -/
structure Visited (e : Evaluation F64 F32) (s s' : Comparison F64 F32)
    (points : List (Scanned F64 F32)) : Prop where
  stamps : ∀ id, s'.differences.lookup id =
    match points.find? (·.id == id) with
    | some point => e.stamp point (s.differences.lookup id)
    | none => s.differences.lookup id
  skipped : s'.view.skippedCount =
    s.view.skippedCount + points.countP fun point => !e.comparable point
  compared : s'.view.comparedCount = s.view.comparedCount + points.countP e.comparable
  due : s'.view.differenceCount = s.view.differenceCount +
    points.countP fun point => e.due (s.differences.lookup point.id) point

theorem visited {points : List (Scanned F64 F32)} (h : (points.map (·.id)).Nodup) :
    Visited e s (points.foldl e.visit s) points := by
  induction points generalizing s with
  | nil => exact ⟨fun _ => rfl, rfl, rfl, rfl⟩
  | cons point points ih =>
    obtain ⟨hnew, hnodup⟩ := List.nodup_cons.mp h
    obtain ⟨hstamp, hskipped, hcompared, hdue⟩ := visit_spec (e := e) (s := s) point
    have hrest := ih (s := e.visit s point) hnodup
    have hother : ∀ point' ∈ points, point'.id ≠ point.id := by
      intro point' hmem heq
      exact hnew (List.mem_map.mpr ⟨point', hmem, heq⟩)
    rw [List.foldl_cons]
    constructor
    · intro id
      rw [hrest.stamps id, hstamp id, List.find?_cons]
      by_cases hid : point.id = id
      · have hnone : points.find? (·.id == id) = none := by
          rw [List.find?_eq_none]
          intro point' hmem heq
          exact hother point' hmem (by rw [hid]; simpa using heq)
        rw [hnone, if_pos hid.symm]
        simp [hid]
      · have hbeq : (point.id == id) = false := by simpa using hid
        rw [if_neg (Ne.symm hid), hbeq]
    · rw [hrest.skipped, hskipped, List.countP_cons]
      cases e.comparable point
      · simp only [Bool.not_false, if_true, Bool.false_eq_true, if_false]
        omega
      · simp only [Bool.not_true, Bool.false_eq_true, if_false, if_true]
        omega
    · rw [hrest.compared, hcompared, List.countP_cons]
      omega
    · have hcount : (points.countP fun point' =>
          e.due ((e.visit s point).differences.lookup point'.id) point') =
          points.countP fun point' => e.due (s.differences.lookup point'.id) point' := by
        refine List.countP_congr fun point' hmem => ?_
        rw [hstamp, if_neg (hother point' hmem)]
      rw [hrest.due, hdue, hcount, List.countP_cons]
      omega

end Scans

/-! ## One evaluation -/

namespace Comparison

variable {e : Evaluation F64 F32} {s : Comparison F64 F32}

/-- A new identity starts without stamps. -/
def opened (s : Comparison F64 F32) (identity : String) : Comparison F64 F32 :=
  if identity ≠ s.comparisonIdentity then
    { s with differences := ∅, comparisonIdentity := identity }
  else s

omit [FloatOps F64 F32] in
theorem opened_spec (identity : String) :
    (s.opened identity).comparisonIdentity = identity ∧ (s.opened identity).view = s.view ∧
      ∀ id, (s.opened identity).differences.lookup id =
        if identity = s.comparisonIdentity then s.differences.lookup id else none := by
  unfold opened
  by_cases hid : identity = s.comparisonIdentity
  · simp [hid]
  · simp [hid]

/-- The state behind the scan. -/
def scanned (s : Comparison F64 F32) (e : Evaluation F64 F32) : Comparison F64 F32 :=
  let s := e.scan.points.foldl e.visit (s.uncounted.opened e.identity)
  let seen := e.scan.points.map (·.id)
  { s with differences := s.differences.keep fun id => seen.contains id }

theorem scanned_stamps (id : String) :
    (s.scanned e).differences.lookup id =
      (e.scan.points.find? (·.id == id)).bind fun point =>
        e.stamp point (if e.identity = s.comparisonIdentity then s.differences.lookup id else none) := by
  have hvisited := visited (e := e) (s := s.uncounted.opened e.identity) e.scan.nodup
  unfold scanned
  rw [Map.lookup_keep, hvisited.stamps, (opened_spec e.identity).2.2 id]
  cases hfind : e.scan.points.find? (·.id == id) with
  | none =>
    have hunseen : ¬ (e.scan.points.map (·.id)).contains id = true := by
      intro hseen
      obtain ⟨point, hmem, hid⟩ := List.mem_map.mp (List.contains_iff_mem.mp hseen)
      exact List.find?_eq_none.mp hfind point hmem (by simpa using hid)
    rw [if_neg hunseen]
    rfl
  | some point =>
    have hid : point.id = id := by simpa using List.find?_some hfind
    have hseen : (e.scan.points.map (·.id)).contains id = true := by
      rw [List.contains_iff_mem, ← hid]
      exact List.mem_map_of_mem (List.mem_of_find?_eq_some hfind)
    rw [if_pos hseen]
    rfl

omit [FloatOps F64 F32] in
theorem conclude_frame (p : ComparePolicy F64) (s : Comparison F64 F32) :
    (conclude p s).1.differences = s.differences ∧
      (conclude p s).1.comparisonIdentity = s.comparisonIdentity ∧
      (conclude p s).1.alarmActive = s.alarmActive := by
  unfold conclude
  simp only
  split_ifs <;> exact ⟨rfl, rfl, rfl⟩

omit [FloatOps F64 F32] in
/-- The counts that an update rests on. -/
theorem conclude_update {p : ComparePolicy F64} {s : Comparison F64 F32}
    {u : DifferenceAlarmUpdate} (h : (conclude p s).2 = some u) :
    (u.active = true ∧ 0 < s.view.differenceCount) ∨
      (u.active = false ∧ s.view.skippedCount = 0 ∧ s.view.comparedCount ≠ 0 ∧
        s.differences.entries = []) := by
  unfold conclude at h
  simp only at h
  split_ifs at h with hdifferent hunknown hconfirming
  · obtain rfl := Option.some.inj h
    exact .inl ⟨rfl, hdifferent⟩
  · obtain rfl := Option.some.inj h
    refine .inr ⟨rfl, by omega, by omega, ?_⟩
    exact List.eq_nil_of_length_eq_zero (by omega)

theorem compare_available (henabled : e.policy.compareEnabled = true) (h : e.available = true) :
    s.compare e.health e.policy e.available e.identity e.now e.scan =
      conclude e.policy (s.scanned e) := by
  unfold compare
  simp only [henabled, h]
  rfl

/-- Without a catalog only the report is a new one. -/
theorem compare_unavailable (henabled : e.policy.compareEnabled = true) (h : e.available = false) :
    s.compare e.health e.policy e.available e.identity e.now e.scan =
      (s.uncounted.state .unknown, none) := by
  unfold compare
  simp only [henabled, h]
  rfl

theorem scanned_frame :
    (s.scanned e).comparisonIdentity = e.identity ∧ (s.scanned e).alarmActive = s.alarmActive := by
  have hvisit : ∀ (points : List (Scanned F64 F32)) (s : Comparison F64 F32),
      (points.foldl e.visit s).comparisonIdentity = s.comparisonIdentity ∧
        (points.foldl e.visit s).alarmActive = s.alarmActive := by
    intro points
    induction points with
    | nil => exact fun _ => ⟨rfl, rfl⟩
    | cons point points ih =>
      intro s
      have hone : (e.visit s point).comparisonIdentity = s.comparisonIdentity ∧
          (e.visit s point).alarmActive = s.alarmActive := by
        unfold Evaluation.visit visit
        simp only
        split_ifs <;> exact ⟨rfl, rfl⟩
      exact ⟨(ih _).1.trans hone.1, (ih _).2.trans hone.2⟩
  refine ⟨(hvisit _ _).1.trans (opened_spec e.identity).1, (hvisit _ _).2.trans ?_⟩
  unfold opened
  split_ifs <;> rfl

theorem evaluate_frame : (s.evaluate e).1.differences =
      (s.compare e.health e.policy e.available e.identity e.now e.scan).1.differences ∧
    (s.evaluate e).1.comparisonIdentity =
      (s.compare e.health e.policy e.available e.identity e.now e.scan).1.comparisonIdentity ∧
    (s.evaluate e).2 = (s.compare e.health e.policy e.available e.identity e.now e.scan).2 := by
  unfold evaluate
  split
  · rename_i h
    rw [h]
    exact ⟨rfl, rfl, rfl⟩
  · rename_i u h
    rw [h]
    unfold persistDifferenceAlarm
    split_ifs
    · exact ⟨rfl, rfl, rfl⟩
    · split <;> exact ⟨rfl, rfl, rfl⟩

theorem compare_alarm (henabled : e.policy.compareEnabled = true) :
    (s.compare e.health e.policy e.available e.identity e.now e.scan).1.alarmActive =
      s.alarmActive := by
  by_cases havailable : e.available = true
  · rw [compare_available henabled havailable, (conclude_frame ..).2.2, scanned_frame.2]
  · rw [compare_unavailable henabled (by simpa using havailable)]
    rfl

/-- The alarm stays as it is, or follows the update. -/
theorem evaluate_alarm (henabled : e.policy.compareEnabled = true) :
    (s.evaluate e).1.alarmActive = s.alarmActive ∨
      ∃ u, (s.evaluate e).2 = some u ∧ (s.evaluate e).1.alarmActive = u.active := by
  have hcompare := @compare_alarm _ _ _ e s henabled
  unfold evaluate
  split
  · rename_i h
    rw [h] at hcompare
    exact .inl hcompare
  · rename_i u h
    rw [h] at hcompare
    unfold persistDifferenceAlarm
    split_ifs
    · exact .inl hcompare
    · split
      · exact .inl hcompare
      · exact .inr ⟨u, rfl, rfl⟩

end Comparison

/-! ## What the stamps say -/

section Stamps

variable {e : Evaluation F64 F32} {s : Comparison F64 F32} {log : List (Evaluation F64 F32)}

/-- Every stamp is the start of the run of evaluations that found the point different. -/
structure StampsHold (s : Comparison F64 F32) (log : List (Evaluation F64 F32)) : Prop where
  identity : ∀ last older, log = last :: older → s.comparisonIdentity = last.identity
  stamps : ∀ id, s.differences.lookup id =
    (runStart (Evaluation.observed id) s.comparisonIdentity log).map (·.now)

theorem observed_find (h : e.available = true) (id : String) :
    e.observed id = some e.identity ↔
      ∃ point, e.scan.points.find? (·.id == id) = some point ∧ e.differs point = true := by
  unfold Evaluation.observed
  have hany : (e.scan.points.any fun point => point.id == id && e.differs point) = true ↔
      ∃ point, e.scan.points.find? (·.id == id) = some point ∧ e.differs point = true := by
    constructor
    · intro hany
      obtain ⟨point, hmem, hpoint⟩ := List.any_eq_true.mp hany
      obtain ⟨hid, hdiffers⟩ := Bool.and_eq_true_iff.mp hpoint
      cases hfind : e.scan.points.find? (·.id == id) with
      | none => exact absurd hid (List.find?_eq_none.mp hfind point hmem)
      | some point' =>
        have hid' : point'.id = id := by simpa using List.find?_some hfind
        have heq : point'.id = point.id := by rw [hid', eq_of_beq hid]
        obtain rfl := List.inj_on_of_nodup_map e.scan.nodup (List.mem_of_find?_eq_some hfind) hmem heq
        exact ⟨point', rfl, hdiffers⟩
    · rintro ⟨point, hfind, hdiffers⟩
      have hid := List.find?_some hfind
      exact List.any_eq_true.mpr ⟨point, List.mem_of_find?_eq_some hfind, by
        rw [hdiffers, Bool.and_true]
        exact hid⟩
  rw [h, Bool.true_and]
  split_ifs with hcond
  · exact iff_of_true rfl (hany.mp hcond)
  · exact iff_of_false (by simp) fun hpoint => hcond (hany.mpr hpoint)

/-- The run of the point under the identity of the next evaluation. -/
theorem StampsHold.run (h : StampsHold s log) (identity id : String) :
    (if identity = s.comparisonIdentity then s.differences.lookup id else none) =
      (runStart (Evaluation.observed id) identity log).map (·.now) := by
  split_ifs with hsame
  · rw [hsame]
    exact h.stamps id
  · cases hlog : log with
    | nil => rfl
    | cons last older =>
      have hlast := h.identity last older hlog
      have hnot : Evaluation.observed id last ≠ some identity := by
        unfold Evaluation.observed
        split_ifs
        · simpa [← hlast] using Ne.symm hsame
        · simp
      rw [runStart, if_neg hnot]
      rfl

theorem stampsHold_scanned (h : StampsHold s log) (havailable : e.available = true) :
    StampsHold (s.scanned e) (e :: log) := by
  constructor
  · rintro last older heq
    obtain ⟨rfl, -⟩ := List.cons.inj heq
    exact Comparison.scanned_frame.1
  · intro id
    rw [Comparison.scanned_stamps, Comparison.scanned_frame.1, h.run, runStart]
    by_cases hobs : e.observed id = some e.identity
    · obtain ⟨point, hfind, hdiffers⟩ := (observed_find havailable id).mp hobs
      rw [hfind, if_pos hobs, Option.bind_some, Evaluation.stamp, if_pos hdiffers]
      cases runStart (Evaluation.observed id) e.identity log <;> rfl
    · rw [if_neg hobs]
      cases hfind : e.scan.points.find? (·.id == id) with
      | none => rfl
      | some point =>
        have hdiffers : ¬ e.differs point = true := fun hd =>
          hobs ((observed_find havailable id).mpr ⟨point, hfind, hd⟩)
        rw [Option.bind_some, Evaluation.stamp, if_neg hdiffers]
        rfl

theorem StampsHold.congr {s' : Comparison F64 F32} (h : StampsHold s log)
    (hdifferences : s'.differences = s.differences)
    (hidentity : s'.comparisonIdentity = s.comparisonIdentity) : StampsHold s' log := by
  constructor
  · rw [hidentity]
    exact h.identity
  · rw [hidentity, hdifferences]
    exact h.stamps

theorem stampsHold_evaluate (h : StampsHold s (log.filter (·.available)))
    (henabled : e.policy.compareEnabled = true) :
    StampsHold (s.evaluate e).1 ((e :: log).filter (·.available)) := by
  obtain ⟨hdifferences, hidentity, -⟩ := @Comparison.evaluate_frame _ _ _ e s
  cases havailable : e.available with
  | false =>
    rw [Comparison.compare_unavailable henabled havailable] at hdifferences hidentity
    rw [List.filter_cons_of_neg (by simp [havailable])]
    exact h.congr hdifferences hidentity
  | true =>
    rw [Comparison.compare_available henabled havailable] at hdifferences hidentity
    obtain ⟨hconclude, hconcludeId, -⟩ := Comparison.conclude_frame e.policy (s.scanned e)
    rw [List.filter_cons_of_pos havailable]
    exact (stampsHold_scanned h havailable).congr (hdifferences.trans hconclude)
      (hidentity.trans hconcludeId)

theorem stampsHold_after (h : StampsHold s (log.filter (·.available)))
    {es : List (Evaluation F64 F32)} (henabled : ∀ e ∈ es, e.policy.compareEnabled = true) :
    StampsHold (s.after es) ((es.reverse ++ log).filter (·.available)) := by
  induction es generalizing s log with
  | nil => exact h
  | cons e es ih =>
    obtain ⟨he, hes⟩ := List.forall_mem_cons.mp henabled
    have hrest := ih (stampsHold_evaluate h he) hes
    rwa [List.reverse_cons, List.append_assoc]

end Stamps

/-! ## The alarm -/

section Alarm

variable {e : Evaluation F64 F32} {s : Comparison F64 F32} {log : List (Evaluation F64 F32)}

/-- Some point has been different at every evaluation with a catalog, for long enough. -/
def LastingDifference (log : List (Evaluation F64 F32)) (e : Evaluation F64 F32) : Prop :=
  ∃ id first, Unbroken (Evaluation.observed id) e.identity first ((e :: log).filter (·.available)) ∧
    e.policy.differenceSeconds * second ≤ e.now - first.now

/-- Points were compared, and all of them agreed. -/
structure AllEqual (e : Evaluation F64 F32) : Prop where
  available : e.available = true
  scanned : e.scan.points ≠ []
  equal : ∀ point ∈ e.scan.points, e.comparable point = true ∧ e.different point = false

theorem update_cases (henabled : e.policy.compareEnabled = true) {u : DifferenceAlarmUpdate}
    (h : (s.evaluate e).2 = some u) :
    e.available = true ∧
      (u.active = true ∧ 0 < (s.scanned e).view.differenceCount ∨
        u.active = false ∧ (s.scanned e).view.skippedCount = 0 ∧
          (s.scanned e).view.comparedCount ≠ 0 ∧ (s.scanned e).differences.entries = []) := by
  rw [Comparison.evaluate_frame.2.2] at h
  cases havailable : e.available with
  | false =>
    rw [Comparison.compare_unavailable henabled havailable] at h
    cases h
  | true =>
    rw [Comparison.compare_available henabled havailable] at h
    exact ⟨rfl, Comparison.conclude_update h⟩

theorem lasting_of_count (h : StampsHold s (log.filter (·.available)))
    (havailable : e.available = true) (hcount : 0 < (s.scanned e).view.differenceCount) :
    LastingDifference log e := by
  have hvisited := visited (e := e) (s := s.uncounted.opened e.identity) e.scan.nodup
  have hview := (Comparison.opened_spec (s := s.uncounted) e.identity).2.1
  have hdue : 0 < e.scan.points.countP fun point =>
      e.due ((s.uncounted.opened e.identity).differences.lookup point.id) point := by
    have hcounted : (s.scanned e).view.differenceCount = _ := hvisited.due
    rw [hcounted, hview] at hcount
    simpa [Comparison.uncounted] using hcount
  obtain ⟨point, hmem, hpoint⟩ := List.countP_pos_iff.mp hdue
  obtain ⟨hdiffers, hlong⟩ := Bool.and_eq_true_iff.mp hpoint
  have hstart : (s.uncounted.opened e.identity).differences.lookup point.id = _ :=
    ((Comparison.opened_spec (s := s.uncounted) e.identity).2.2 point.id).trans (h.run e.identity point.id)
  have hobserved : e.observed point.id = some e.identity := by
    unfold Evaluation.observed
    rw [havailable, Bool.true_and, if_pos]
    exact List.any_eq_true.mpr ⟨point, hmem, by simp [hdiffers]⟩
  refine ⟨point.id, (runStart (Evaluation.observed point.id) e.identity
    (log.filter (·.available))).getD e, unbroken_runStart ?_, ?_⟩
  · rw [List.filter_cons_of_pos havailable, runStart, if_pos hobserved]
  · rw [hstart] at hlong
    have hnow := of_decide_eq_true hlong
    cases hrun : runStart (Evaluation.observed point.id) e.identity (log.filter (·.available)) with
    | none => simpa [hrun] using hnow
    | some first => simpa [hrun] using hnow

theorem allEqual_of_counts (havailable : e.available = true)
    (hskipped : (s.scanned e).view.skippedCount = 0)
    (hcompared : (s.scanned e).view.comparedCount ≠ 0)
    (hstamps : (s.scanned e).differences.entries = []) : AllEqual e := by
  have hvisited := visited (e := e) (s := s.uncounted.opened e.identity) e.scan.nodup
  have hview := (Comparison.opened_spec (s := s.uncounted) e.identity).2.1
  have hcomparable : ∀ point ∈ e.scan.points, e.comparable point = true := by
    have hcounted : (s.scanned e).view.skippedCount = _ := hvisited.skipped
    rw [hskipped, eq_comm, Nat.add_eq_zero_iff, List.countP_eq_zero] at hcounted
    simpa using hcounted.2
  refine ⟨havailable, ?_, fun point hmem => ⟨hcomparable point hmem, ?_⟩⟩
  · intro hempty
    have hcounted : (s.scanned e).view.comparedCount = _ := hvisited.compared
    rw [hview, hempty] at hcounted
    exact hcompared hcounted
  · by_contra hdifferent
    have hdiffers : e.differs point = true := by
      simpa [Evaluation.differs, hcomparable point hmem] using hdifferent
    have hobserved : e.observed point.id = some e.identity := by
      unfold Evaluation.observed
      rw [havailable, Bool.true_and, if_pos]
      exact List.any_eq_true.mpr ⟨point, hmem, by simp [hdiffers]⟩
    obtain ⟨point', hfind, hdiffers'⟩ := (observed_find havailable point.id).mp hobserved
    have hlookup := Comparison.scanned_stamps (s := s) (e := e) point.id
    rw [hfind, Option.bind_some, Evaluation.stamp, if_pos hdiffers', ← Map.mem_entries, hstamps]
      at hlookup
    cases hlookup

/-- What an update of the alarm rests on, in a state reached by the evaluations of the log. -/
structure AlarmLaws (s : Comparison F64 F32) (log : List (Evaluation F64 F32))
    (e : Evaluation F64 F32) : Prop where
  raised : ∀ u, (s.evaluate e).2 = some u → u.active = true → LastingDifference log e
  lifted : ∀ u, (s.evaluate e).2 = some u → u.active = false → AllEqual e
  kept : s.alarmActive = true → (s.evaluate e).1.alarmActive = false → AllEqual e

/-- Every sequence of evaluations of an enabled comparison, from a state without stamps. -/
theorem difference_alarms {s : Comparison F64 F32} (hnew : s.differences = ∅)
    {es : List (Evaluation F64 F32)} {e : Evaluation F64 F32}
    (henabled : ∀ e' ∈ e :: es, e'.policy.compareEnabled = true) :
    AlarmLaws (s.after es) es.reverse e := by
  obtain ⟨he, hes⟩ := List.forall_mem_cons.mp henabled
  have hstart : StampsHold s (([] : List (Evaluation F64 F32)).filter (·.available)) :=
    ⟨by simp, fun id => by rw [hnew]; rfl⟩
  have hstamps := stampsHold_after hstart hes
  rw [List.append_nil] at hstamps
  have hlifted : ∀ u, ((s.after es).evaluate e).2 = some u → u.active = false → AllEqual e := by
    intro u hu hactive
    obtain ⟨havailable, ⟨hraised, -⟩ | ⟨-, hskipped, hcompared, hentries⟩⟩ := update_cases he hu
    · rw [hactive] at hraised
      cases hraised
    · exact allEqual_of_counts havailable hskipped hcompared hentries
  refine ⟨?_, hlifted, ?_⟩
  · intro u hu hactive
    obtain ⟨havailable, ⟨-, hcount⟩ | ⟨hfalse, -⟩⟩ := update_cases he hu
    · exact lasting_of_count hstamps havailable hcount
    · rw [hactive] at hfalse
      cases hfalse
  · intro hactive hinactive
    rcases Comparison.evaluate_alarm (s := s.after es) he with hsame | ⟨u, hu, hfollows⟩
    · rw [hinactive, hactive] at hsame
      cases hsame
    · exact hlifted u hu (hfollows.symm.trans hinactive)

end Alarm

namespace Sample

def comparing : ComparePolicy Int := ⟨"G", true, "A", "B", 5, 0, 0, 2000⟩

def bothHealthy : Map String SourceHealth :=
  (AList.singleton "A" ⟨"A", true, "", 0⟩).insert "B" ⟨"B", true, "", 0⟩

/-- One point, with the values 1 and 2. -/
def scan : Scan Int Int :=
  ⟨[⟨"N", ⟨.double, .float64 1, 0, some 0⟩, ⟨.double, .float64 2, 0, some 0⟩, true⟩], by decide⟩

def comparedAt (available : Bool) (now : Time) : Evaluation Int Int :=
  ⟨comparing, bothHealthy, available, "1/2/3", now, scan, .ok true⟩

end Sample

/-- Five seconds with the same identity and an evaluation without a catalog in between. -/
theorem alarm_across_gap :
    ∃ u, ((newComparison.after [Sample.comparedAt true 0, Sample.comparedAt false (3 * second)]).evaluate
        (Sample.comparedAt true (5 * second))).2 = some u ∧ u.active = true ∧
      ¬ ∃ id first, Unbroken (Evaluation.observed id) "1/2/3" first
        [Sample.comparedAt true (5 * second), Sample.comparedAt false (3 * second),
          Sample.comparedAt true 0] ∧
        5 * second ≤ 5 * second - first.now := by
  refine ⟨⟨true, "组 G：A 与 B 有 1 个持续差异点；N"⟩, by decide +kernel, rfl, ?_⟩
  rintro ⟨id, first, ⟨recent, older, hlog, hall⟩, hlong⟩
  have hgap : Evaluation.observed id (Sample.comparedAt false (3 * second)) = none := rfl
  cases recent with
  | nil =>
    obtain ⟨rfl, -⟩ := List.cons.inj hlog
    exact absurd hlong (by decide)
  | cons newest recent =>
    obtain ⟨-, hrest⟩ := List.cons.inj hlog
    have hmem : Sample.comparedAt false (3 * second) ∈ newest :: recent ++ [first] := by
      cases recent with
      | nil =>
        obtain ⟨rfl, -⟩ := List.cons.inj hrest
        simp
      | cons next recent =>
        obtain ⟨rfl, -⟩ := List.cons.inj hrest
        simp
    have hobserved := hall _ hmem
    rw [hgap] at hobserved
    cases hobserved

/-- The difference has lasted for five seconds. -/
theorem difference_alarms_lasting :
    ∃ u, ((newComparison.after [Sample.comparedAt true 0]).evaluate
        (Sample.comparedAt true (5 * second))).2 = some u ∧ u.active = true ∧
      LastingDifference [Sample.comparedAt true 0] (Sample.comparedAt true (5 * second)) := by
  have hupdate : ((newComparison.after [Sample.comparedAt true 0]).evaluate
      (Sample.comparedAt true (5 * second))).2 = some ⟨true, "组 G：A 与 B 有 1 个持续差异点；N"⟩ := by
    decide +kernel
  have hlaws : AlarmLaws (newComparison.after [Sample.comparedAt true 0])
      [Sample.comparedAt true 0].reverse (Sample.comparedAt true (5 * second)) :=
    difference_alarms rfl (by simp [Sample.comparedAt, Sample.comparing])
  exact ⟨_, hupdate, rfl, hlaws.raised _ hupdate rfl⟩

end RcdServer.Redundancy
