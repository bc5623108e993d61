import RcdServer.Calc.Lossless

/-!
# Published changes are notified

The changed results that `evaluate` returns are those that differ from the runner's own previous
ones. The runner holds what is published, unless an evaluation that has computed was discarded; then
only a moved route revision makes the next evaluation report every result.
-/
namespace RcdServer.Calc.Go

open Lib Lib.Run

variable {F64 F32 : Type} [FloatOps F64 F32]

/-- A difference in value, status, source timestamp, error or communication inputs. Values are
compared as `reflect.DeepEqual` does. -/
def Differs (old new : Result F64 F32) : Prop :=
  old.toOutcome ≠ new.toOutcome ∧
    (old.statusCode ≠ new.statusCode ∨ old.error ≠ new.error ∨
      old.sourceTimestamp ≠ new.sourceTimestamp ∨ deepEqual old.value new.value = false ∨
      old.communicationInputs ≠ new.communicationInputs)

/-- Nothing that has been computed is discarded, unless its runner or the route revision has been
replaced as well, and the route revision does not come round. -/
def undiscarded (s : Situation F64 F32) : Step F64 F32 → Bool
  | .publish _ =>
    match s.worker with
    | .computed run _ _ =>
      run.generation == s.service.generation || run.installs != s.service.installs ||
        run.route != s.service.routeRevision
    | _ => true
  | .invalidate routeChanged => !routeChanged || s.service.routeRevision + 1 != 0
  | _ => true

/-! ## One evaluation -/

section Evaluation

variable {plan : Plan F64} {results : String → Option (Result F64 F32)}

theorem changed_of_differs {previous new : Result F64 F32} (h : Differs previous new) :
    changed previous new = true := by
  simp only [changed, Bool.or_eq_true, bne_iff_ne, Bool.not_eq_true']
  have := h.2
  tauto

theorem changed_of_route {previous new : Result F64 F32}
    (h : previous.nodeID = "" ∨ previous.defaultRouteRevision ≠ new.defaultRouteRevision) :
    changed previous new = true := by
  rcases h with h | h <;> simp [changed, h]

theorem evaluateRules_at (stamp : Stamp)
    {items : List (CompiledRule F64 × Bool × Result F64 F32)} (vars : Variables F64) {i : Nat}
    {rule : CompiledRule F64} {affected : Bool} {previous : Result F64 F32}
    (hi : items[i]? = some (rule, affected, previous)) :
    ∃ new, (evaluateRules stamp items vars).2.1[i]? = some new ∧
      (affected = false ∧ new = previous ∨
        ∃ o, new = result rule stamp o ∧
          (changed previous new = true → new ∈ (evaluateRules stamp items vars).2.2)) := by
  induction items generalizing vars i with
  | nil => simp at hi
  | cons x items ih =>
    obtain ⟨rule', affected', previous'⟩ := x
    cases i with
    | zero =>
      obtain ⟨rfl, rfl, rfl⟩ : rule' = rule ∧ affected' = affected ∧ previous' = previous := by
        simpa using hi
      cases affected' with
      | false => exact ⟨previous', rfl, .inl ⟨rfl, rfl⟩⟩
      | true =>
        refine ⟨_, rfl, .inr ⟨outcome rule' vars, rfl, ?_⟩⟩
        intro hchanged
        simp only [evaluateRules, Bool.not_true, Bool.false_eq_true, if_false]
        rw [if_pos hchanged]
        exact List.mem_cons_self
    | succ i =>
      have hi : items[i]? = some (rule, affected, previous) := by simpa using hi
      cases affected' with
      | false => exact ih vars hi
      | true =>
        obtain ⟨new, hnew, hcase⟩ := ih (Function.update vars rule'.output
          (some (outcome rule' vars).operand)) hi
        refine ⟨new, hnew, hcase.imp_right ?_⟩
        rintro ⟨o, ho, hmem⟩
        refine ⟨o, ho, fun hchanged => ?_⟩
        simp only [evaluateRules, Bool.not_true, Bool.false_eq_true, if_false]
        split
        · exact List.mem_cons_of_mem _ (hmem hchanged)
        · exact hmem hchanged

/-- What an evaluation makes of the result of one rule. -/
def Renewed (run : Running F64 F32) (now : Time) (changes : List (Result F64 F32))
    (rule : CompiledRule F64) (previous new : Result F64 F32) : Prop :=
  run.full = false ∧ new = previous ∨
    ∃ o, new = result rule ⟨now, run.version, run.route⟩ o ∧
      (changed previous new = true → new ∈ changes)

theorem evaluate_at {r : Runner F64 F32} (hr : Shaped plan r) (affected : Nat → Bool)
    (stamp : Stamp) {i : Nat} {rule : CompiledRule F64} {previous : Result F64 F32}
    (hrule : plan.rules[i]? = some rule) (hprevious : r.results[i]? = some previous) :
    ∃ new, (evaluate r affected stamp).1.results[i]? = some new ∧
      (affected i = false ∧ new = previous ∨
        ∃ o, new = result rule stamp o ∧
          (changed previous new = true → new ∈ (evaluate r affected stamp).2)) := by
  have hmarked : (marked r affected)[i]? = some (rule, affected i, previous) := by
    rw [← hr.plan_eq] at hrule
    rw [marked, List.getElem?_zipWith, List.getElem?_zipIdx, hrule, hprevious]
    simp
  exact evaluateRules_at stamp r.vars hmarked

theorem compute_at {run : Running F64 F32} (hr : Shaped plan run.runner) (inputs : Inputs F64 F32)
    (now : Time) {i : Nat} {rule : CompiledRule F64} {previous : Result F64 F32}
    (hrule : plan.rules[i]? = some rule) (hprevious : run.runner.results[i]? = some previous) :
    ∃ new, (Service.compute run inputs now).1.results[i]? = some new ∧
      Renewed run now (Service.compute run inputs now).2 rule previous new := by
  unfold Service.compute
  cases hfull : run.full with
  | true =>
    simp only [if_true]
    have hstart : Shaped plan { run.runner with vars := writeInputs (fun _ => none) inputs } :=
      ⟨hr.plan_eq, hr.length_eq⟩
    obtain ⟨new, hnew, hcase⟩ := evaluate_at hstart (fun _ => true)
      ⟨now, run.version, run.route⟩ hrule hprevious
    refine ⟨new, hnew, .inr ?_⟩
    exact hcase.resolve_left fun h => Bool.noConfusion h.1
  | false =>
    simp only [Bool.false_eq_true, if_false]
    unfold update
    split
    · exact ⟨previous, hprevious, .inl ⟨hfull, rfl⟩⟩
    · have hstart : Shaped plan { run.runner with vars := writeInputs run.runner.vars inputs } :=
        ⟨hr.plan_eq, hr.length_eq⟩
      obtain ⟨new, hnew, hcase⟩ := evaluate_at hstart (markAffected run.runner.plan inputs.keys)
        ⟨now, run.version, run.route⟩ hrule hprevious
      exact ⟨new, hnew, hcase.imp_left fun h => ⟨hfull, h.2⟩⟩

/-- Every result that the computation leaves is at the place of a rule and of a previous one. -/
theorem mem_compute {run : Running F64 F32} (hr : Shaped plan run.runner) {inputs : Inputs F64 F32}
    {now : Time} {new : Result F64 F32} (hnew : new ∈ (Service.compute run inputs now).1.results) :
    ∃ (i : Nat) (rule : CompiledRule F64) (previous : Result F64 F32),
      plan.rules[i]? = some rule ∧ run.runner.results[i]? = some previous ∧
      (Service.compute run inputs now).1.results[i]? = some new ∧
      Renewed run now (Service.compute run inputs now).2 rule previous new := by
  obtain ⟨i, hi⟩ := List.mem_iff_getElem?.mp hnew
  have hlt : i < plan.rules.length := by
    rw [← (shaped_compute hr inputs now).length_eq]
    exact (List.getElem?_eq_some_iff.mp hi).1
  have hrule : plan.rules[i]? = some plan.rules[i] := List.getElem?_eq_getElem hlt
  have hlt' : i < run.runner.results.length := hr.length_eq ▸ hlt
  have hprevious : run.runner.results[i]? = some run.runner.results[i] :=
    List.getElem?_eq_getElem hlt'
  obtain ⟨new', hnew', hcase⟩ := compute_at hr inputs now hrule hprevious
  obtain rfl : new = new' := Option.some.inj (hi.symm.trans hnew')
  exact ⟨i, _, _, hrule, hprevious, hi, hcase⟩

end Evaluation

/-! ## What the runner holds -/

/-- Every rule has a result of its own. -/
def Named (plan : Plan F64) (r : Runner F64 F32) : Prop :=
  r.results.map (·.nodeID) = plan.rules.map (·.output)

/-- Nothing has been computed yet. -/
def Blank (r : Runner F64 F32) : Prop := ∀ res ∈ r.results, res.nodeID = ""

/-- No result has a route revision above the given one. -/
def Bounded (route : UInt64) (r : Runner F64 F32) : Prop :=
  ∀ res ∈ r.results, res.nodeID = "" ∨ res.defaultRouteRevision.toNat ≤ route.toNat

/-- Every result has a smaller route revision. -/
def Behind (route : UInt64) (r : Runner F64 F32) : Prop :=
  ∀ res ∈ r.results, res.nodeID = "" ∨ res.defaultRouteRevision.toNat < route.toNat

def Tracks (results : String → Option (Result F64 F32)) (route : UInt64) (r : Runner F64 F32) :
    Prop :=
  Published results r.results ∨ Behind route r

/-- Whatever differs from what is published is among the changes. -/
def Covers (results : String → Option (Result F64 F32)) (changes list : List (Result F64 F32)) :
    Prop :=
  ∀ new ∈ list, new ∈ changes ∨ ∃ old, results new.nodeID = some old ∧ ¬ Differs old new

section Holds

variable {plan : ValidPlan F64 F32} {results : String → Option (Result F64 F32)}
  {route route' : UInt64} {r : Runner F64 F32} {run : Running F64 F32}

omit [FloatOps F64 F32] in
theorem Behind.mono {r : Runner F64 F32} (h : Behind route r) (hle : route.toNat ≤ route'.toNat) :
    Behind route' r :=
  fun res hres => (h res hres).imp_right fun hlt => Nat.lt_of_lt_of_le hlt hle

omit [FloatOps F64 F32] in
theorem Tracks.mono {results : String → Option (Result F64 F32)} {r : Runner F64 F32} (h : Tracks results route r) (hle : route.toNat ≤ route'.toNat) :
    Tracks results route' r :=
  h.imp_right fun hb => hb.mono hle

omit [FloatOps F64 F32] in
theorem Bounded.mono {r : Runner F64 F32} (h : Bounded route r) (hle : route.toNat ≤ route'.toNat) :
    Bounded route' r :=
  fun res hres => (h res hres).imp_right fun h => Nat.le_trans h hle

omit [FloatOps F64 F32] in
theorem Bounded.behind {r : Runner F64 F32} (h : Bounded route r) (hlt : route.toNat < route'.toNat) :
    Behind route' r :=
  fun res hres => (h res hres).imp_right fun h => Nat.lt_of_le_of_lt h hlt

omit [FloatOps F64 F32] in
theorem blank_newRunner (plan : Plan F64) : Blank (newRunner plan : Runner F64 F32) := by
  intro res hres
  rw [List.eq_of_mem_replicate hres]
  rfl

theorem named_compute (hshape : Shaped plan.plan run.runner)
    (h : run.full = false → Named plan.plan run.runner) (inputs : Inputs F64 F32) (now : Time) :
    Named plan.plan (Service.compute run inputs now).1 := by
  have hlen := (shaped_compute hshape inputs now).length_eq
  refine List.ext_getElem (by simpa using hlen) fun i h₁ h₂ => ?_
  have hlt : i < plan.plan.rules.length := by simpa using h₂
  have hlt' : i < run.runner.results.length := hshape.length_eq ▸ hlt
  obtain ⟨new, hnew, hcase⟩ := compute_at hshape inputs now (List.getElem?_eq_getElem hlt)
    (List.getElem?_eq_getElem hlt')
  obtain ⟨_, rfl⟩ := List.getElem?_eq_some_iff.mp hnew
  rw [List.getElem_map, List.getElem_map]
  rcases hcase with ⟨hpart, hsame⟩ | ⟨o, ho, -⟩
  · have hold := congrArg (fun l => l[i]?) (h hpart)
    simp only [List.getElem?_map, List.getElem?_eq_getElem hlt, List.getElem?_eq_getElem hlt',
      Option.map_some, Option.some.injEq] at hold
    rw [hsame, hold]
  · rw [ho]
    rfl

theorem bounded_compute (hshape : Shaped plan.plan run.runner) (h : Bounded run.route run.runner)
    (inputs : Inputs F64 F32) (now : Time) :
    Bounded run.route (Service.compute run inputs now).1 := by
  intro res hres
  obtain ⟨i, rule, previous, -, hprevious, -, hcase⟩ := mem_compute hshape hres
  rcases hcase with ⟨-, rfl⟩ | ⟨o, rfl, -⟩
  · exact h _ (List.mem_of_getElem? hprevious)
  · exact .inr (Nat.le_refl _)

theorem published_at (hnamed : Named plan.plan r) (hpublished : Published results r.results)
    {res : Result F64 F32} (hres : res ∈ r.results) : results res.nodeID = some res := by
  have hnodup : (r.results.map (·.nodeID)).Nodup := by
    rw [hnamed]
    exact plan.nodup
  rw [hpublished res.nodeID]
  cases hfind : r.results.find? fun x => x.nodeID == res.nodeID with
  | none => exact absurd (beq_self_eq_true _) (List.find?_eq_none.mp hfind res hres)
  | some other =>
    have hid : other.nodeID = res.nodeID := by simpa using List.find?_some hfind
    rw [List.inj_on_of_nodup_map hnodup (List.mem_of_find?_eq_some hfind) hres hid]

/-- A computation whose results are to be published reports what differs. -/
theorem covers_compute (hshape : Shaped plan.plan run.runner)
    (hnamed : Blank run.runner ∨ Named plan.plan run.runner)
    (htracks : Tracks results run.route run.runner)
    (hpart : run.full = false → Named plan.plan run.runner ∧ Published results run.runner.results)
    (inputs : Inputs F64 F32) (now : Time) :
    Covers results (Service.compute run inputs now).2
      (Service.compute run inputs now).1.results := by
  intro new hnew
  obtain ⟨i, rule, previous, hrule, hprevious, hi, hcase⟩ := mem_compute hshape hnew
  have hold := List.mem_of_getElem? hprevious
  rcases hcase with ⟨hfull, rfl⟩ | ⟨o, rfl, hchanges⟩
  · obtain ⟨hnamed, hpublished⟩ := hpart hfull
    exact .inr ⟨new, published_at hnamed hpublished hold, fun h => h.1 rfl⟩
  · by_cases hchanged : changed previous (result rule ⟨now, run.version, run.route⟩ o) = true
    · exact .inl (hchanges hchanged)
    · -- Not reported: the runner held the published result of this rule.
      have hid : previous.nodeID ≠ "" := fun h => hchanged (changed_of_route (.inl h))
      have hroute : ¬ previous.defaultRouteRevision.toNat < run.route.toNat := by
        intro hlt
        refine hchanged (changed_of_route (.inr fun heq => ?_))
        have heq : previous.defaultRouteRevision = run.route := heq
        rw [heq] at hlt
        exact Nat.lt_irrefl _ hlt
      have hnamed : Named plan.plan run.runner := hnamed.resolve_left fun h => hid (h previous hold)
      have hpublished : Published results run.runner.results :=
        htracks.resolve_right fun h => (h previous hold).elim hid hroute
      have hsame : previous.nodeID = rule.output := by
        have h := congrArg (fun l => l[i]?) hnamed
        simpa [hrule, hprevious] using h
      refine .inr ⟨previous, ?_, fun h => hchanged (changed_of_differs h)⟩
      show results rule.output = some previous
      rw [← hsame]
      exact published_at hnamed hpublished hold

end Holds

/-! ## Runs without discarded results -/

section Runs

structure Tracked (s : Situation F64 F32) : Prop where
  order : ∀ run, s.worker.run? = some run → run.route.toNat ≤ s.service.routeRevision.toNat
  same : ∀ run, s.worker.run? = some run → run.generation = s.service.generation →
    run.route = s.service.routeRevision
  named : ∀ plan r, s.service.plan = some plan → s.service.runner = some r →
    Blank r ∨ Named plan.plan r
  bound : ∀ r, s.service.runner = some r → Bounded s.service.routeRevision r
  older : ∀ run, s.worker.run? = some run → run.installs = s.service.installs →
    ∀ r, s.service.runner = some r → Bounded run.route r
  tracks : ∀ r, s.service.runner = some r →
    (∀ run changed results, s.worker = .computed run changed results →
      run.installs ≠ s.service.installs) →
    Tracks s.service.results s.service.routeRevision r
  part : ∀ run todo got, s.worker = .resolving run todo got → run.full = false →
    run.installs = s.service.installs → Named run.plan.plan run.runner ∧
      (run.generation = s.service.generation → Published s.service.results run.runner.results)
  covers : ∀ run changed results, s.worker = .computed run changed results →
    run.generation = s.service.generation → Covers s.service.results changed results

theorem tracked_init (plan : Option (ValidPlan F64 F32)) (version : UInt64)
    (values : String → Input F64 F32) : Tracked (Situation.init plan version values) where
  order := by
    intro run hrun
    cases hrun
  same := by
    intro run hrun
    cases hrun
  named := by
    rintro p r rfl hr
    cases hr
    exact .inl (blank_newRunner _)
  bound := by
    intro r hr
    obtain ⟨p, -, rfl⟩ := Option.map_eq_some_iff.mp hr
    exact fun res hres => .inl (blank_newRunner _ res hres)
  older := by
    intro run hrun
    cases hrun
  tracks := by
    intro r hr _
    obtain ⟨p, -, rfl⟩ := Option.map_eq_some_iff.mp hr
    exact .inr fun res hres => .inl (blank_newRunner _ res hres)
  part := by
    intro run todo got hworker
    cases hworker
  covers := by
    intro run changed results hworker
    cases hworker

/-- Marks and values play no part. -/
theorem tracked_marks {s s' : Situation F64 F32} (h : Tracked s) (hworker : s'.worker = s.worker)
    (hplan : s'.service.plan = s.service.plan) (hrunner : s'.service.runner = s.service.runner)
    (hresults : s'.service.results = s.service.results)
    (hroute : s'.service.routeRevision = s.service.routeRevision)
    (hgeneration : s'.service.generation = s.service.generation)
    (hinstalls : s'.service.installs = s.service.installs) : Tracked s' where
  order := by
    rw [hworker, hroute]
    exact h.order
  same := by
    rw [hworker, hgeneration, hroute]
    exact h.same
  named := by
    rw [hplan, hrunner]
    exact h.named
  bound := by
    rw [hrunner, hroute]
    exact h.bound
  older := by
    rw [hworker, hinstalls, hrunner]
    exact h.older
  tracks := by
    rw [hrunner, hworker, hinstalls, hresults, hroute]
    exact h.tracks
  part := by
    rw [hworker, hinstalls, hgeneration, hresults]
    exact h.part
  covers := by
    rw [hworker, hgeneration, hresults]
    exact h.covers

theorem tracked_markDirty {s : Situation F64 F32} (h : Tracked s) {service : Service F64 F32}
    (hservice : service = { s.service with
      stateSeen := service.stateSeen, stateEventPending := service.stateEventPending })
    (plan : ValidPlan F64 F32) (name : String) (unannounced : List String) :
    Tracked { s with service := service.markDirty plan name, unannounced := unannounced } := by
  obtain ⟨dirty, heq, -⟩ := markDirty_fields service plan name
  rw [heq, hservice]
  exact tracked_marks h rfl rfl rfl rfl rfl rfl rfl

theorem tracked_inputChanged {s : Situation F64 F32} (h : Tracked s) (name : String)
    (unannounced : List String) :
    Tracked { s with service := s.service.inputChanged name, unannounced := unannounced } := by
  unfold Service.inputChanged
  split
  · exact tracked_marks h rfl rfl rfl rfl rfl rfl rfl
  · exact tracked_markDirty h rfl _ name unannounced

theorem tracked_stateChanged {s : Situation F64 F32} (h : Tracked s) (installs : Nat)
    (name signature : String) (unannounced : List String) :
    Tracked { s with
      service := (s.service.stateChanged installs name signature).2
      unannounced := unannounced } := by
  unfold Service.stateChanged
  split
  · exact tracked_marks h rfl rfl rfl rfl rfl rfl rfl
  · split
    · exact tracked_marks h rfl rfl rfl rfl rfl rfl rfl
    · split
      · exact tracked_markDirty h rfl _ name unannounced
      · exact tracked_marks h rfl rfl rfl rfl rfl rfl rfl

theorem route_le_invalidate {s : Service F64 F32} {routeChanged : Bool}
    (hround : routeChanged = false ∨ s.routeRevision + 1 ≠ 0) :
    s.routeRevision.toNat ≤ (s.invalidate routeChanged).routeRevision.toNat := by
  unfold Service.invalidate
  split
  · exact Nat.le_refl _
  · rcases hround with rfl | hround
    · exact Nat.le_refl _
    · cases routeChanged with
      | false => exact Nat.le_refl _
      | true =>
        show s.routeRevision.toNat ≤ (if s.routeRevision + 1 = 0 then (1 : UInt64)
          else s.routeRevision + 1).toNat
        rw [if_neg hround]
        have hlt : s.routeRevision.toNat + 1 < 2 ^ 64 := by
          by_contra hge
          refine hround (UInt64.toNat_inj.mp ?_)
          have := s.routeRevision.toNat_lt
          rw [UInt64.toNat_add]
          show (s.routeRevision.toNat + 1) % 2 ^ 64 = 0
          omega
        rw [UInt64.toNat_add]
        show s.routeRevision.toNat ≤ (s.routeRevision.toNat + 1) % 2 ^ 64
        omega

theorem Follows.generation_le {s : Service F64 F32} {run : Running F64 F32} (h : Follows s run) :
    run.generation ≤ s.generation := by
  rcases h.age with ⟨heq, -⟩ | ⟨hlt, -⟩ <;> omega

theorem tracked_invalidate {s : Situation F64 F32} (hinv : Inv s) (h : Tracked s)
    {routeChanged : Bool} (hround : routeChanged = false ∨ s.service.routeRevision + 1 ≠ 0) :
    Tracked { s with service := s.service.invalidate routeChanged, unannounced := [] } := by
  have hroute := route_le_invalidate hround
  cases hplan : s.service.plan with
  | none =>
    have heq : s.service.invalidate routeChanged = s.service := by
      simp [Service.invalidate, hplan]
    rw [heq]
    exact tracked_marks h rfl rfl rfl rfl rfl rfl rfl
  | some plan =>
    obtain ⟨route, heq⟩ : ∃ route, s.service.invalidate routeChanged =
        { s.service with
          generation := s.service.generation + 1, full := true, routeRevision := route } := by
      unfold Service.invalidate
      split
      · rename_i hnone
        rw [hplan] at hnone
        cases hnone
      · exact ⟨_, rfl⟩
    rw [heq] at hroute ⊢
    have hpast : ∀ run, s.worker.run? = some run → run.generation ≠ s.service.generation + 1 := by
      intro run hrun heq
      have := (hinv.follows run hrun).generation_le
      omega
    constructor
    · intro run hrun
      exact Nat.le_trans (h.order run hrun) hroute
    · intro run hrun hgeneration
      exact absurd hgeneration (hpast run hrun)
    · exact h.named
    · intro r hr
      exact (h.bound r hr).mono hroute
    · exact h.older
    · intro r hr hcomputed
      exact (h.tracks r hr hcomputed).mono hroute
    · intro run todo got hworker hfull hinstalls
      refine ⟨(h.part run todo got hworker hfull hinstalls).1, fun hgeneration => ?_⟩
      have hworker : s.worker = .resolving run todo got := hworker
      exact absurd hgeneration (hpast run (by rw [hworker]; rfl))
    · intro run changed results hworker hgeneration
      have hworker : s.worker = .computed run changed results := hworker
      exact absurd hgeneration (hpast run (by rw [hworker]; rfl))

theorem tracked_install {s : Situation F64 F32} (hinv : Inv s) (h : Tracked s)
    (plan : Option (ValidPlan F64 F32)) (version : UInt64) :
    Tracked { s with service := s.service.install plan version, unannounced := [] } := by
  have hroute : s.service.routeRevision.toNat ≤
      (s.service.install plan version).routeRevision.toNat := by
    show _ ≤ (if plan.isSome ∧ s.service.routeRevision = 0 then (1 : UInt64)
      else s.service.routeRevision).toNat
    split
    · rename_i hzero
      rw [hzero.2]
      exact Nat.zero_le _
    · exact Nat.le_refl _
  have hpast : ∀ run, s.worker.run? = some run → run.generation ≠ s.service.generation + 1 ∧
      run.installs ≠ s.service.installs + 1 := by
    intro run hrun
    have hf := hinv.follows run hrun
    have := hf.generation_le
    have := hf.installs
    exact ⟨by omega, by omega⟩
  constructor
  · intro run hrun
    exact Nat.le_trans (h.order run hrun) hroute
  · intro run hrun hgeneration
    exact absurd hgeneration (hpast run hrun).1
  · rintro p r rfl hr
    cases hr
    exact .inl (blank_newRunner _)
  · intro r hr
    obtain ⟨p, -, rfl⟩ := Option.map_eq_some_iff.mp hr
    exact fun res hres => .inl (blank_newRunner _ res hres)
  · intro run hrun hinstalls
    exact absurd hinstalls (hpast run hrun).2
  · intro r hr _
    obtain ⟨p, -, rfl⟩ := Option.map_eq_some_iff.mp hr
    exact .inr fun res hres => .inl (blank_newRunner _ res hres)
  · intro run todo got hworker _ hinstalls
    have hworker : s.worker = .resolving run todo got := hworker
    exact absurd hinstalls (hpast run (by rw [hworker]; rfl)).2
  · intro run changed results hworker hgeneration
    have hworker : s.worker = .computed run changed results := hworker
    exact absurd hgeneration (hpast run (by rw [hworker]; rfl)).1

theorem tracked_start {s : Situation F64 F32} (hinv : Inv s) (h : Tracked s)
    (hidle : s.worker = .idle) {run : Running F64 F32} {names : List String}
    {service : Service F64 F32} (hstart : s.service.start = some (run, names, service)) :
    Tracked { s with service := service, worker := .resolving run names ∅ } := by
  obtain ⟨plan, runner, hplan, hrunner, rfl, rfl, rfl⟩ := start_eq_some hstart
  have hnone : ∀ run changed results, s.worker ≠ .computed run changed results := by
    intro run changed results hworker
    rw [hidle] at hworker
    cases hworker
  constructor
  · intro run hrun
    obtain rfl := (Option.some.inj hrun).symm
    exact Nat.le_refl _
  · intro run hrun _
    obtain rfl := (Option.some.inj hrun).symm
    rfl
  · exact h.named
  · exact h.bound
  · intro run hrun _
    obtain rfl := (Option.some.inj hrun).symm
    exact h.bound
  · intro r hr _
    exact h.tracks r hr fun run changed results hworker => absurd hworker (hnone run changed results)
  · intro run todo got hworker hfull _
    cases hworker
    have hprogress := hinv.progress hfull plan runner hplan hrunner
    simp only [Progress, hidle] at hprogress
    obtain ⟨⟨inputs, hcurrent, -⟩, hpublished⟩ := hprogress
    exact ⟨hcurrent.nodeIDs, fun _ => hpublished⟩
  · intro run changed results hworker
    cases hworker

theorem tracked_read {s : Situation F64 F32} (h : Tracked s) {run : Running F64 F32}
    {todo todo' : List String} {got got' : Inputs F64 F32}
    (hworker : s.worker = .resolving run todo got) :
    Tracked { s with worker := .resolving run todo' got' } := by
  have hrun : s.worker.run? = some run := by
    rw [hworker]
    rfl
  constructor
  · intro r hr
    exact h.order r (by rw [hrun]; exact hr)
  · intro r hr
    exact h.same r (by rw [hrun]; exact hr)
  · exact h.named
  · exact h.bound
  · intro r hr
    exact h.older r (by rw [hrun]; exact hr)
  · intro r hr _
    refine h.tracks r hr fun run changed results hcomputed => ?_
    rw [hworker] at hcomputed
    cases hcomputed
  · intro r t g hresolving
    cases hresolving
    exact h.part run todo got hworker
  · intro r changed results hcomputed
    cases hcomputed

theorem tracked_resolveFailed {s : Situation F64 F32} (h : Tracked s) {run : Running F64 F32}
    {todo : List String} {got : Inputs F64 F32} (hworker : s.worker = .resolving run todo got) :
    Tracked { s with service := s.service.resolveFailed run, worker := .idle } := by
  obtain ⟨full, heq⟩ : ∃ full, s.service.resolveFailed run = { s.service with full := full } := by
    unfold Service.resolveFailed
    split
    · exact ⟨true, rfl⟩
    · exact ⟨s.service.full, rfl⟩
  rw [heq]
  constructor
  · intro r hr
    cases hr
  · intro r hr
    cases hr
  · exact h.named
  · exact h.bound
  · intro r hr
    cases hr
  · intro r hr _
    refine h.tracks r hr fun run changed results hcomputed => ?_
    rw [hworker] at hcomputed
    cases hcomputed
  · intro r t g hresolving
    cases hresolving
  · intro r changed results hcomputed
    cases hcomputed

theorem tracked_compute {s : Situation F64 F32} (hinv : Inv s) (h : Tracked s)
    {run : Running F64 F32} {got : Inputs F64 F32} (hworker : s.worker = .resolving run [] got)
    (now : Time) :
    Tracked { s with
      service :=
        if run.installs = s.service.installs then
          { s.service with runner := some (Service.compute run got now).1 }
        else s.service
      worker := .computed run (Service.compute run got now).2
        (Service.compute run got now).1.results } := by
  have hrun : s.worker.run? = some run := by
    rw [hworker]
    rfl
  have hf := hinv.follows run hrun
  have hold : ∀ r, s.service.runner = some r →
      Tracks s.service.results s.service.routeRevision r := by
    intro r hr
    refine h.tracks r hr fun run changed results hcomputed => ?_
    rw [hworker] at hcomputed
    cases hcomputed
  by_cases hinstalls : run.installs = s.service.installs
  · rw [if_pos hinstalls]
    have hplan := hf.own hinstalls
    have hrunner := hinv.held run [] got hworker hinstalls
    obtain ⟨runner, hr, hshape⟩ := hinv.shape run.plan hplan
    obtain rfl : run.runner = runner := Option.some.inj (hrunner.symm.trans hr)
    have hbounded := bounded_compute hshape (h.older run hrun hinstalls _ hrunner) got now
    constructor
    · intro r hr
      exact h.order r (by rw [hrun]; exact hr)
    · intro r hr
      exact h.same r (by rw [hrun]; exact hr)
    · intro p r hp hr
      obtain rfl : run.plan = p := Option.some.inj (hplan.symm.trans hp)
      cases hr
      exact .inr (named_compute hshape
        (fun hfull => (h.part run [] got hworker hfull hinstalls).1) got now)
    · intro r hr
      cases hr
      exact hbounded.mono (h.order run hrun)
    · intro r' hr' _ r hr
      obtain rfl := (Option.some.inj hr').symm
      cases hr
      exact hbounded
    · intro r _ hcomputed
      exact absurd hinstalls (hcomputed _ _ _ rfl)
    · intro r t g hresolving
      cases hresolving
    · intro r changed results hcomputed hgeneration
      cases hcomputed
      have hroute := h.same run hrun hgeneration
      refine covers_compute hshape (h.named run.plan run.runner hplan hrunner) ?_ ?_ got now
      · rw [hroute]
        exact hold run.runner hrunner
      · intro hfull
        obtain ⟨hnamed, hpublished⟩ := h.part run [] got hworker hfull hinstalls
        exact ⟨hnamed, hpublished hgeneration⟩
  · rw [if_neg hinstalls]
    constructor
    · intro r hr
      exact h.order r (by rw [hrun]; exact hr)
    · intro r hr
      exact h.same r (by rw [hrun]; exact hr)
    · exact h.named
    · exact h.bound
    · intro r hr
      exact h.older r (by rw [hrun]; exact hr)
    · intro r hr _
      exact hold r hr
    · intro r t g hresolving
      cases hresolving
    · intro r changed results hcomputed hgeneration
      cases hcomputed
      exact absurd (hf.same hgeneration) hinstalls

theorem tracked_publish {s : Situation F64 F32} (hinv : Inv s) (h : Tracked s)
    {run : Running F64 F32} {changed results : List (Result F64 F32)}
    (hworker : s.worker = .computed run changed results) (now : Time)
    (hok : undiscarded s (.publish now) = true) :
    Tracked { s with
      service := (s.service.publish run changed results now).1, worker := .idle } := by
  have hrun : s.worker.run? = some run := by
    rw [hworker]
    rfl
  have hf := hinv.follows run hrun
  obtain ⟨results', eventPending, eventAt, heq, htracks⟩ : ∃ results' eventPending eventAt,
      (s.service.publish run changed results now).1 =
        { s.service with results := results', eventPending := eventPending, eventAt := eventAt } ∧
      ∀ r, s.service.runner = some r → Tracks results' s.service.routeRevision r := by
    unfold Service.publish
    split
    · rename_i hgeneration
      refine ⟨_, _, _, rfl, fun r hr => ?_⟩
      by_cases hinstalls : run.installs = s.service.installs
      · -- A discarded computation: the route revision has moved on.
        have hmoved : run.route ≠ s.service.routeRevision := by
          simpa [undiscarded, hworker, hgeneration, hinstalls] using hok
        have hlt : run.route.toNat < s.service.routeRevision.toNat :=
          Nat.lt_of_le_of_ne (h.order run hrun) fun heq => hmoved (UInt64.toNat_inj.mp heq)
        exact .inr ((h.older run hrun hinstalls r hr).behind hlt)
      · refine h.tracks r hr fun run' changed' results' hcomputed => ?_
        rw [hworker] at hcomputed
        cases hcomputed
        exact hinstalls
    · rename_i hgeneration
      have hgeneration : run.generation = s.service.generation := not_not.mp hgeneration
      have hplan := hf.own (hf.same hgeneration)
      have hfull : s.service.full = false := by
        rcases hf.age with ⟨-, hfull⟩ | ⟨hlt, -⟩
        · exact hfull
        · omega
      refine ⟨_, _, _, rfl, fun r hr => .inl ?_⟩
      have hprogress := hinv.progress hfull run.plan r hplan hr
      simp only [Progress, hworker] at hprogress
      obtain ⟨⟨inputs, hcurrent, -⟩, rfl⟩ := hprogress
      refine published_storeResults hcurrent fun name res hres => ?_
      obtain ⟨p, hp, hrule⟩ := hinv.keys name res hres
      obtain rfl : run.plan = p := Option.some.inj (hplan.symm.trans hp)
      exact hrule
  rw [heq]
  constructor
  · intro r hr
    cases hr
  · intro r hr
    cases hr
  · exact h.named
  · exact h.bound
  · intro r hr
    cases hr
  · intro r hr _
    exact htracks r hr
  · intro r t g hresolving
    cases hresolving
  · intro r changed results hcomputed
    cases hcomputed

theorem tracked_step {s s' : Situation F64 F32} {a : Step F64 F32} (hinv : Inv s) (h : Tracked s)
    (hok : undiscarded s a = true) (hstep : step s a = some s') : Tracked s' := by
  cases moved_of_step hstep with
  | change name value => exact tracked_marks h rfl rfl rfl rfl rfl rfl rfl
  | inputChanged name => exact tracked_inputChanged h name _
  | stateChanged installs name signature => exact tracked_stateChanged h installs name signature _
  | invalidate routeChanged =>
    refine tracked_invalidate hinv h ?_
    simpa [undiscarded] using hok
  | install plan version => exact tracked_install hinv h plan version
  | stayed => exact h
  | started hworker hstart => exact tracked_start hinv h hworker hstart
  | read hworker hname => exact tracked_read h hworker
  | resolveFailed hworker => exact tracked_resolveFailed h hworker
  | computed hworker now => exact tracked_compute hinv h hworker now
  | published hworker now => exact tracked_publish hinv h hworker now hok

/-- In every run that discards no computation: what a call of `evaluate` changes in the published
results, or publishes for the first time, is among the changed results it returns. -/
theorem published_change_notified {s : Situation F64 F32} {plan : Option (ValidPlan F64 F32)}
    {version : UInt64} {values : String → Input F64 F32} {as : List (Step F64 F32)}
    (h : exec step (.init plan version values) as = some s)
    (hok : Meets step (fun s a => undiscarded s a = true) (.init plan version values) as)
    {run : Running F64 F32} {changed results : List (Result F64 F32)}
    (hworker : s.worker = .computed run changed results)
    (hgeneration : run.generation = s.service.generation) (now : Time) {name : String}
    {new : Result F64 F32}
    (hnew : (s.service.publish run changed results now).1.results name = some new)
    (hdiffers : ∀ old, s.service.results name = some old → Differs old new) :
    new ∈ (s.service.publish run changed results now).2.1 ∧ new.nodeID = name := by
  obtain ⟨hinv, htracked⟩ := meets_invariant _ (fun s => Inv s ∧ Tracked s)
    (fun _ _ _ hs hok hstep => ⟨inv_step hs.1 hstep, tracked_step hs.1 hs.2 hok hstep⟩)
    ⟨inv_init plan version values, tracked_init plan version values⟩ hok h
  have hf := hinv.follows run (by rw [hworker]; rfl)
  have hplan := hf.own (hf.same hgeneration)
  have hfull : s.service.full = false := by
    rcases hf.age with ⟨-, hfull⟩ | ⟨hlt, -⟩
    · exact hfull
    · omega
  obtain ⟨runner, hrunner, -⟩ := hinv.shape run.plan hplan
  have hprogress := hinv.progress hfull run.plan runner hplan hrunner
  simp only [Progress, hworker] at hprogress
  obtain ⟨⟨inputs, hcurrent, -⟩, rfl⟩ := hprogress
  have hpublished : Published (Service.storeResults s.service.results runner.results)
      runner.results := by
    refine published_storeResults hcurrent fun name res hres => ?_
    obtain ⟨p, hp, hrule⟩ := hinv.keys name res hres
    obtain rfl : run.plan = p := Option.some.inj (hplan.symm.trans hp)
    exact hrule
  simp only [Service.publish, hgeneration, ne_eq, not_true_eq_false, if_false] at hnew ⊢
  rw [hpublished name] at hnew
  have hid : new.nodeID = name := by simpa using List.find?_some hnew
  refine ⟨?_, hid⟩
  rcases htracked.covers run changed runner.results hworker hgeneration new
    (List.mem_of_find?_eq_some hnew) with hmem | ⟨old, hold, hsame⟩
  · exact hmem
  · rw [hid] at hold
    exact absurd (hdiffers old hold) hsame

end Runs

namespace Link

instance (old new : Result Int Int) : Decidable (Differs old new) := inferInstanceAs (Decidable (_ ∧ _))

/-- The state changes; the evaluation that computes its result is discarded, and the next one
computes the same result. -/
def discarded : List (Step Int Int) :=
  first ++ [.change "LINK" (state 2 2), .inputChanged "LINK", .start, .read "LINK", .compute 20,
    .invalidate false, .publish 20, .start, .read "LINK", .compute 30]

/-- The first evaluation, up to its publication. -/
def untilComputed : List (Step Int Int) := first.take 4

/-- The evaluation that is about to publish changes `OUT` and reports the given names. -/
def reports (names : List String) (check : Option (Result Int Int) → Result Int Int → Bool)
    (s : Situation Int Int) : Bool :=
  match s.worker with
  | .computed run changed results =>
    run.generation == s.service.generation &&
      ((s.service.publish run changed results 40).1.results "OUT").any
        (check (s.service.results "OUT")) &&
      (s.service.publish run changed results 40).2.1.map (·.nodeID) == names
  | _ => false

theorem computed_of_reports {names : List String}
    {check : Option (Result Int Int) → Result Int Int → Bool} {s : Situation Int Int}
    (h : reports names check s = true) : ∃ run changed results new,
      s.worker = .computed run changed results ∧ run.generation = s.service.generation ∧
      (s.service.publish run changed results 40).1.results "OUT" = some new ∧
      check (s.service.results "OUT") new = true ∧
      (s.service.publish run changed results 40).2.1.map (·.nodeID) = names := by
  unfold reports at h
  split at h
  · rename_i run changed results hworker
    simp only [Bool.and_eq_true, beq_iff_eq] at h
    obtain ⟨⟨hgeneration, hany⟩, hnames⟩ := h
    cases hnew : (s.service.publish run changed results 40).1.results "OUT" with
    | none => simp [hnew] at hany
    | some new =>
      rw [hnew, Option.any_some] at hany
      exact ⟨run, changed, results, new, hworker, hgeneration, hnew, hany, hnames⟩
  · cases h

end Link

/-- The published value of `OUT` changes, and the call reports nothing. -/
theorem published_change_unnotified : ∃ s run changed results old new,
    exec step Link.init Link.discarded = some s ∧ s.worker = .computed run changed results ∧
    run.generation = s.service.generation ∧ s.service.results "OUT" = some old ∧
    (s.service.publish run changed results 40).1.results "OUT" = some new ∧ Differs old new ∧
    (s.service.publish run changed results 40).2.1 = [] := by
  have hrun : (exec step Link.init Link.discarded).any (Link.reports []
      fun old new => old.any fun old => decide (Differs old new)) = true := by decide +kernel
  cases hs : exec step Link.init Link.discarded with
  | none => simp [hs] at hrun
  | some s =>
    rw [hs, Option.any_some] at hrun
    obtain ⟨run, changed, results, new, hworker, hgeneration, hnew, hcheck, hnames⟩ :=
      Link.computed_of_reports hrun
    cases hold : s.service.results "OUT" with
    | none => simp [hold] at hcheck
    | some old =>
      rw [hold, Option.any_some, decide_eq_true_eq] at hcheck
      exact ⟨s, run, changed, results, old, new, rfl, hworker, hgeneration, hold, hnew, hcheck,
        List.map_eq_nil_iff.mp hnames⟩

theorem published_change_notified_link : ∃ s run changed results new,
    exec step Link.init Link.untilComputed = some s ∧
    s.worker = .computed run changed results ∧
    (s.service.publish run changed results 40).1.results "OUT" = some new ∧
    new ∈ (s.service.publish run changed results 40).2.1 := by
  have hrun : (exec step Link.init Link.untilComputed).any (Link.reports ["OUT"]
      fun old _ => old.isNone) = true := by decide +kernel
  have hok : Meets step (fun s a => undiscarded s a = true) Link.init Link.untilComputed :=
    meets_of_meetsAll (fun _ _ h => h) (by decide +kernel)
  cases hs : exec step Link.init Link.untilComputed with
  | none => simp [hs] at hrun
  | some s =>
    rw [hs, Option.any_some] at hrun
    obtain ⟨run, changed, results, new, hworker, hgeneration, hnew, hcheck, -⟩ :=
      Link.computed_of_reports hrun
    refine ⟨s, run, changed, results, new, rfl, hworker, hnew, ?_⟩
    refine (published_change_notified hs hok hworker hgeneration 40 hnew fun old hold => ?_).1
    simp [hold] at hcheck

end RcdServer.Calc.Go
