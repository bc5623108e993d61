import Mathlib.Data.List.Perm.Subperm
import RcdServer.Lib.Maps
import RcdServer.Lib.Text

/-!
# Groups and sources

The configured half of a route table (`NewRouteTable` of `routes.go`, `topology.go`). A
`Configuration` is built by `newConfiguration` only, so its sources lie in configured groups and
its defaults name members of their group. Times are nanoseconds after Go's zero time.
-/
namespace RcdServer.Routes

open Lib

abbrev Time := Int

/-! ## Errors -/

inductive RouteError where
  | field (field message : String)
  | notFound
  | alreadyExists
  | revisionConflict
  | conflictingRevision (expected actual : Nat)
  | groupPending
  | commandPending
  | sourceNotInGroup
  | sourceNotSelectable
  | groupInUse
  | sourceInUse
  | sessionClosed
  /-- `fmt.Errorf` with the cause under `%w`. -/
  | wrapped (text : String) (arguments : List String) (cause : RouteError)
  deriving DecidableEq

/-! ## Sources -/

structure GroupBinding where
  groupID : String
  portID : String
  deviceID : String
  deriving DecidableEq

inductive CatalogState where
  | discovering
  | ready
  | cached
  | conflict
  deriving DecidableEq

def CatalogState.selectable (s : CatalogState) : Bool := s == .ready || s == .cached

structure Source where
  id : String
  groupID : String
  groupBindings : List GroupBinding
  availableGroupIDs : List String
  enabled : Bool
  catalogState : CatalogState
  deriving DecidableEq

def Source.hasGroup (s : Source) (groupID : String) : Bool :=
  s.groupID == groupID || s.groupBindings.any (·.groupID == groupID)

/-- The order of the identifiers does not matter to the callers modelled here. -/
def Source.groupIDs (s : Source) : List String := s.groupID :: s.groupBindings.map (·.groupID)

def Source.groupAvailable (s : Source) (groupID : String) : Bool :=
  s.hasGroup groupID && (groupID == s.groupID || s.availableGroupIDs.contains groupID)

def GroupBinding.owner (b : GroupBinding) : String × String := (b.portID, b.deviceID)

def validateGroupBindingsFrom (seen : List (String × String)) :
    List GroupBinding → Except RouteError Unit
  | [] => .ok ()
  | b :: bs =>
    if Text.trim b.groupID = "" ∨ Text.trim b.portID = "" ∨ Text.trim b.deviceID = "" then
      .error (.field "group_bindings" "group_id, port_id and device_id are required")
    else if b.owner ∈ seen then
      .error (.field "group_bindings" "a device can only be bound once")
    else validateGroupBindingsFrom (b.owner :: seen) bs

def validateGroupBindings (bindings : List GroupBinding) : Except RouteError Unit :=
  validateGroupBindingsFrom [] bindings

def sameGroupBindings (a b : List GroupBinding) : Bool :=
  a.length == b.length && b.all fun binding => a.contains binding

theorem Source.hasGroup_iff {s : Source} {groupID : String} :
    s.hasGroup groupID = true ↔ groupID ∈ s.groupIDs := by
  simp only [hasGroup, groupIDs, Bool.or_eq_true, beq_iff_eq, List.any_eq_true, List.mem_cons,
    List.mem_map]
  constructor
  · rintro (rfl | ⟨b, hb, rfl⟩)
    · exact .inl rfl
    · exact .inr ⟨b, hb, rfl⟩
  · rintro (rfl | ⟨b, hb, rfl⟩)
    · exact .inl rfl
    · exact .inr ⟨b, hb, rfl⟩

theorem nodup_of_validateGroupBindingsFrom {seen : List (String × String)} {bs : List GroupBinding}
    (h : validateGroupBindingsFrom seen bs = .ok ()) :
    (bs.map (·.owner)).Nodup ∧ ∀ b ∈ bs, b.owner ∉ seen := by
  induction bs generalizing seen with
  | nil => simp
  | cons b bs ih =>
    rw [validateGroupBindingsFrom] at h
    split at h
    · cases h
    · split at h
      · cases h
      · rename_i hnew
        obtain ⟨hnodup, hseen⟩ := ih h
        constructor
        · rw [List.map_cons, List.nodup_cons]
          refine ⟨?_, hnodup⟩
          intro hmem
          obtain ⟨b', hb', heq⟩ := List.mem_map.mp hmem
          exact hseen b' hb' (heq ▸ List.mem_cons_self)
        · intro b' hb'
          rcases List.mem_cons.mp hb' with rfl | hb'
          · exact hnew
          · exact fun hmem => hseen b' hb' (List.mem_cons_of_mem _ hmem)

theorem nodup_of_validateGroupBindings {bs : List GroupBinding}
    (h : validateGroupBindings bs = .ok ()) : bs.Nodup :=
  (nodup_of_validateGroupBindingsFrom h).1.of_map

/-- The comparison by length and one inclusion is exact, because a device is bound once. -/
theorem mem_iff_of_sameGroupBindings {a b : List GroupBinding} (hb : b.Nodup)
    (h : sameGroupBindings a b = true) (binding : GroupBinding) : binding ∈ a ↔ binding ∈ b := by
  simp only [sameGroupBindings, Bool.and_eq_true, beq_iff_eq, List.all_eq_true,
    List.contains_iff_mem] at h
  have hperm : b.Perm a :=
    (List.subperm_of_subset hb h.2).perm_of_length_le (by omega)
  exact hperm.mem_iff.symm

/-! ## Configurations -/

structure Group where
  id : String
  defaultSourceID : String
  revision : Nat
  deriving DecidableEq

/-- The groups and sources of a table. -/
structure Configuration where
  groups : Map String Group
  sources : Map String Source
  bound : ∀ id s, sources.lookup id = some s → validateGroupBindings s.groupBindings = .ok ()
  housed : ∀ id s, sources.lookup id = some s → ∀ g ∈ s.groupIDs, g ∈ groups
  defaulted : ∀ g group, groups.lookup g = some group → group.defaultSourceID ≠ "" →
    ∃ s, sources.lookup group.defaultSourceID = some s ∧ s.hasGroup g = true
  deriving DecidableEq

/-- The source, when it belongs to the group. -/
def validateSourceMembershipIn (sources : Map String Source) (groupID sourceID : String) :
    Except RouteError Source :=
  match sources.lookup sourceID with
  | none => .error .notFound
  | some source => if source.hasGroup groupID then .ok source else .error .sourceNotInGroup

def Configuration.validateSourceMembership (c : Configuration) (groupID sourceID : String) :
    Except RouteError Source :=
  validateSourceMembershipIn c.sources groupID sourceID

def Configuration.validateSource (c : Configuration) (groupID sourceID : String) :
    Except RouteError Unit :=
  match c.validateSourceMembership groupID sourceID with
  | .error e => .error e
  | .ok source =>
    if !source.enabled || !source.catalogState.selectable || !source.groupAvailable groupID then
      .error .sourceNotSelectable
    else .ok ()

def addGroups (groups : Map String Group) : List Group → Except RouteError (Map String Group)
  | [] => .ok groups
  | group :: rest =>
    if group.id = "" then .error (.field "group.id" "must not be empty")
    else if group.id ∈ groups then .error (.wrapped "group %q: %w" [group.id] .alreadyExists)
    else
      let group := if group.revision = 0 then { group with revision := 1 } else group
      addGroups (groups.insert group.id group) rest

def checkHomes (groups : Map String Group) (sourceID : String) :
    List String → Except RouteError Unit
  | [] => .ok ()
  | g :: gs =>
    if g ∈ groups then checkHomes groups sourceID gs
    else .error (.wrapped "source %q group %q: %w" [sourceID, g] .notFound)

def addSources (groups : Map String Group) (sources : Map String Source) :
    List Source → Except RouteError (Map String Source)
  | [] => .ok sources
  | source :: rest =>
    if source.id = "" then .error (.field "source.id" "must not be empty")
    else if source.groupID ∉ groups then
      .error (.wrapped "source %q group %q: %w" [source.id, source.groupID] .notFound)
    else
      match validateGroupBindings source.groupBindings with
      | .error e => .error e
      | .ok () =>
        match checkHomes groups source.id source.groupIDs with
        | .error e => .error e
        | .ok () =>
          if source.id ∈ sources then .error (.wrapped "source %q: %w" [source.id] .alreadyExists)
          else addSources groups (sources.insert source.id source) rest

def checkDefaults (sources : Map String Source) :
    List (Sigma fun _ : String => Group) → Except RouteError Unit
  | [] => .ok ()
  | ⟨g, group⟩ :: rest =>
    if group.defaultSourceID = "" then checkDefaults sources rest
    else
      match validateSourceMembershipIn sources g group.defaultSourceID with
      | .error e => .error (.wrapped "default source for group %q: %w" [g] e)
      | .ok _ => checkDefaults sources rest

theorem validateSourceMembershipIn_eq_ok {sources : Map String Source} {g id : String} {s : Source} :
    validateSourceMembershipIn sources g id = .ok s ↔
      sources.lookup id = some s ∧ s.hasGroup g = true := by
  rw [validateSourceMembershipIn]
  cases sources.lookup id with
  | none => simp
  | some source =>
    by_cases hg : source.hasGroup g = true
    · simp only [hg, if_true, Except.ok.injEq, Option.some.injEq]
      constructor
      · rintro rfl
        exact ⟨rfl, hg⟩
      · exact And.left
    · simp only [hg, if_false, reduceCtorEq, Option.some.injEq, false_iff, Bool.false_eq_true]
      rintro ⟨rfl, h⟩
      exact hg h

theorem mem_of_checkHomes {groups : Map String Group} {id : String} {gs : List String}
    (h : checkHomes groups id gs = .ok ()) : ∀ g ∈ gs, g ∈ groups := by
  induction gs with
  | nil => simp
  | cons g gs ih =>
    rw [checkHomes] at h
    split at h
    · intro g' hg'
      rcases List.mem_cons.mp hg' with rfl | hg'
      · assumption
      · exact ih h g' hg'
    · cases h

/-- Every source that was added passed the checks on it. -/
theorem addSources_checked {groups : Map String Group} {sources sources' : Map String Source}
    {list : List Source} (h : addSources groups sources list = .ok sources')
    (hall : ∀ id s, sources.lookup id = some s →
      validateGroupBindings s.groupBindings = .ok () ∧ ∀ g ∈ s.groupIDs, g ∈ groups) :
    ∀ id s, sources'.lookup id = some s →
      validateGroupBindings s.groupBindings = .ok () ∧ ∀ g ∈ s.groupIDs, g ∈ groups := by
  induction list generalizing sources with
  | nil =>
    cases h
    exact hall
  | cons source rest ih =>
    rw [addSources] at h
    split at h
    · cases h
    · split at h
      · cases h
      · cases hbind : validateGroupBindings source.groupBindings with
        | error e => simp [hbind] at h
        | ok u =>
          cases hhomes : checkHomes groups source.id source.groupIDs with
          | error e => simp [hbind, hhomes] at h
          | ok u =>
            simp only [hbind, hhomes] at h
            split at h
            · cases h
            · refine ih h ?_
              intro id s hs
              rw [Map.lookup_insert_eq] at hs
              split at hs
              · cases hs
                exact ⟨hbind, mem_of_checkHomes hhomes⟩
              · exact hall id s hs

theorem member_of_checkDefaults {sources : Map String Source}
    {entries : List (Sigma fun _ : String => Group)} (h : checkDefaults sources entries = .ok ()) :
    ∀ e ∈ entries, e.2.defaultSourceID ≠ "" →
      ∃ s, sources.lookup e.2.defaultSourceID = some s ∧ s.hasGroup e.1 = true := by
  induction entries with
  | nil => simp
  | cons e entries ih =>
    rw [checkDefaults] at h
    intro e' he' hne
    split at h
    · rename_i hempty
      rcases List.mem_cons.mp he' with rfl | he'
      · exact absurd hempty hne
      · exact ih h e' he' hne
    · cases hmember : validateSourceMembershipIn sources e.1 e.2.defaultSourceID with
      | error err => simp [hmember] at h
      | ok s =>
        simp only [hmember] at h
        rcases List.mem_cons.mp he' with rfl | he'
        · exact ⟨s, validateSourceMembershipIn_eq_ok.mp hmember⟩
        · exact ih h e' he' hne

/-- `NewRouteTable`, up to the maps that start empty. -/
def newConfiguration (groups : List Group) (sources : List Source) :
    Except RouteError Configuration :=
  match addGroups ∅ groups with
  | .error e => .error e
  | .ok groups =>
    match hsources : addSources groups ∅ sources with
    | .error e => .error e
    | .ok sources =>
      match hdefaults : checkDefaults sources groups.entries with
      | .error e => .error e
      | .ok () =>
        .ok {
          groups := groups
          sources := sources
          bound := fun id s h => (addSources_checked hsources (by simp) id s h).1
          housed := fun id s h => (addSources_checked hsources (by simp) id s h).2
          defaulted := fun g group h hne =>
            member_of_checkDefaults hdefaults ⟨g, group⟩ (Map.mem_entries.mpr h) hne }

namespace Configuration

/-- The configuration of lists that pass every check. -/
def ofLists (groups : List Group) (sources : List Source)
    (h : (newConfiguration groups sources).toOption.isSome = true) : Configuration :=
  (newConfiguration groups sources).toOption.get h

variable {c : Configuration} {g id : String}

theorem validateSource_eq_ok (h : c.validateSource g id = .ok ()) :
    ∃ s, c.sources.lookup id = some s ∧ s.hasGroup g = true := by
  rw [validateSource] at h
  cases hmember : c.validateSourceMembership g id with
  | error e => simp [hmember] at h
  | ok s => exact ⟨s, validateSourceMembershipIn_eq_ok.mp hmember⟩

/-- A new default, once it was validated. -/
def setDefault (c : Configuration) (g : String) (group : Group) (sourceID : String)
    (h : c.validateSource g sourceID = .ok ()) : Configuration where
  groups := c.groups.insert g { group with defaultSourceID := sourceID, revision := group.revision + 1 }
  sources := c.sources
  bound := c.bound
  housed := fun id s hs g' hg' => (AList.mem_insert _).mpr (.inr (c.housed id s hs g' hg'))
  defaulted := by
    intro g' group' hg' hne
    rw [Map.lookup_insert_eq] at hg'
    split at hg'
    · rename_i heq
      cases hg'
      exact heq ▸ validateSource_eq_ok h
    · exact c.defaulted g' group' hg' hne

/-- `mergePersistedConfigurationMetadata`: the revisions the repository returned. -/
def mergePersisted (c : Configuration) (revisions : Map String Nat) : Configuration where
  groups := Map.mapValues
    (fun g group => { group with revision := (revisions.lookup g).getD group.revision }) c.groups
  sources := c.sources
  bound := c.bound
  housed := by
    intro id s hs g hg
    obtain ⟨group, hgroup⟩ := Map.mem_iff.mp (c.housed id s hs g hg)
    exact Map.mem_iff.mpr ⟨_, by rw [Map.lookup_mapValues, hgroup]; rfl⟩
  defaulted := by
    intro g group hg hne
    rw [Map.lookup_mapValues, Option.map_eq_some_iff] at hg
    obtain ⟨group', hgroup', rfl⟩ := hg
    exact c.defaulted g group' hgroup' hne

end Configuration

end RcdServer.Routes
