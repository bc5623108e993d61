import RcdServer.ConfigForm.Paths

/-!
# What an edit changes

The paths that `walk` lists are resolved by `target` to the items they were read from, and the edits
set the leaves they name. They do nothing else exactly as long as nothing lies below those leaves: a
default of the settings is also offered for a key that the document uses for a table.
-/
namespace RcdServer.ConfigForm

open Lib Lib.Run Lib.Leaves

/-! ## The fields of a document -/

/-- The last key of the path does not name a secret. -/
def Open (path : List Segment) : Prop :=
  ∃ name, path.getLast? = some (.key name) ∧ sensitive name = false

/-- The path has been read from the document, which shows this value there. -/
structure Shown (profile : Profile) (table : Table) (above : List Segment) (f : Field) : Prop where
  eq : f = field profile f.path f.kind f.value false
  visible : Open f.path
  reached : ∃ path v decor, f.path = above ++ path ∧
    (Item.table table).reach path = some (.value v decor) ∧ scalarOf v = some (f.kind, f.value)

/-- What holds of every field, read or inherited. -/
structure Offered (profile : Profile) (f : Field) : Prop where
  key : f.key = display f.path
  readonly : f.readonly = (metadata profile (display f.path)).readonly
  visible : Open f.path

section Fields

variable {profile : Profile} {table : Table} {path above : List Segment} {f : Field}

theorem Shown.offered (h : Shown profile table above f) : Offered profile f := by
  have heq := h.eq
  exact ⟨by rw [heq]; rfl, by rw [heq]; rfl, h.visible⟩

theorem Shown.own (h : Shown profile table above f) : f.inherited = false := by rw [h.eq]; rfl

theorem Shown.child {child : Table} {name : String} (hget : get table name = some (.table child))
    (h : Shown profile child (above ++ [.key name]) f) : Shown profile table above f := by
  obtain ⟨q, v, decor, hpath, hvalue, hscalar⟩ := h.reached
  refine ⟨h.eq, h.visible, .key name :: q, v, decor, ?_, ?_, hscalar⟩
  · rw [hpath, List.append_assoc, List.singleton_append]
  · rw [Item.reach, Item.child, hget]
    exact hvalue

theorem Shown.element {tables : List Table} {child : Table} {name : String} {i : Nat}
    (hget : get table name = some (.arrayOfTables tables)) (hindex : tables[i]? = some child)
    (h : Shown profile child (above ++ [.key name] ++ [.index i]) f) :
    Shown profile table above f := by
  obtain ⟨q, v, decor, hpath, hvalue, hscalar⟩ := h.reached
  refine ⟨h.eq, h.visible, .key name :: .index i :: q, v, decor, ?_, ?_, hscalar⟩
  · rw [hpath]
    simp
  · rw [Item.reach, Item.child, hget, Option.bind_some, Item.reach, Item.child, hindex]
    exact hvalue

theorem mem_walk {depth : Nat} {before after : List Field} (hwf : (Item.table table).WellFormed)
    (h : walk profile depth table above before = .ok after) :
    ∀ f ∈ after, f ∈ before ∨ Shown profile table above f := by
  induction depth generalizing table above before after with
  | zero => cases h
  | succ depth ih =>
    rw [walk] at h
    split at h
    · cases h
    have hnodup := (hwf [] _ rfl).1
    refine foldlM_history_nil (fun done fields => (∀ e ∈ done, e ∈ iter table) →
      ∀ f ∈ fields, f ∈ before ∨ Shown profile table above f) ?_ ?_ h fun _ he => he
    · intro done entry fields fields' hinv hround hdone f hf
      have hmem : entry ∈ iter table := hdone entry (by simp)
      have hget := get_of_mem_iter hnodup hmem
      have hbefore := hinv fun e he => hdone e (List.mem_append_left _ he)
      obtain ⟨mid, hmid, hlimit⟩ := bind_eq_ok_iff.mp hround
      have hmidf : f ∈ mid := by
        unfold limited at hlimit
        split at hlimit
        · cases hlimit
        · cases hlimit
          exact hf
      obtain ⟨name, item⟩ := entry
      cases hscalar : scalar item with
      | some shown =>
        simp only [hscalar] at hmid
        cases hmid
        split at hmidf
        · exact hbefore f hmidf
        rename_i hsensitive
        rcases List.mem_append.mp hmidf with hold | hnew
        · exact hbefore f hold
        obtain rfl := List.mem_singleton.mp hnew
        cases item with
        | value v decor =>
          refine .inr ⟨rfl, ⟨name, List.getLast?_concat, by simpa using hsensitive⟩,
            [.key name], v, decor, rfl, ?_, hscalar⟩
          rw [Item.reach, Item.child, hget]
          rfl
        | _ => cases hscalar
      | none =>
        simp only [hscalar] at hmid
        cases item with
        | none => cases hmid; exact hbefore f hmidf
        | value v decor => cases hmid; exact hbefore f hmidf
        | table child =>
          rcases ih (hwf.child (s := .key name) hget) hmid f hmidf with hold | hshown
          · exact hbefore f hold
          · exact .inr (hshown.child hget)
        | arrayOfTables tables =>
          have harray := hwf.child (s := .key name) hget
          refine foldlM_history_nil (fun seen fields => (∀ e ∈ seen, e ∈ tables.zipIdx) →
            ∀ f ∈ fields, f ∈ before ∨ Shown profile table above f) ?_ (fun _ => hbefore) hmid
            (fun _ he => he) f hmidf
          intro seen element fields fields' hinner hwalk hseen f hf
          have hindex := List.mem_zipIdx_iff_getElem?.mp (hseen element (by simp))
          have hchild : (Item.table element.1).WellFormed :=
            harray.child (s := .index element.2) (by rw [Item.child, hindex]; rfl)
          rcases ih hchild hwalk f hf with hold | hshown
          · exact hinner (fun e he => hseen e (List.mem_append_left _ he)) f hold
          · exact .inr (hshown.element hget hindex)
    · exact fun _ f hf => .inl hf

/-- The depth that `fields` starts with is enough. -/
theorem walk_depth {depth : Nat} {before : List Field} (h : 25 ≤ above.length + depth) :
    walk profile (depth + 1) table above before = walk profile depth table above before := by
  induction depth generalizing table above before with
  | zero =>
    have hdeep : above.length > 24 := h
    simp only [walk, if_pos hdeep]
  | succ depth ih =>
    rw [walk, walk]
    split
    · rfl
    refine congrArg (fun step => (iter table).foldlM step before) ?_
    funext fields entry
    cases scalar entry.2 with
    | some shown => rfl
    | none =>
      cases entry.2 with
      | table child =>
        dsimp only
        rw [ih (by rw [List.length_append, List.length_singleton]; omega)]
      | arrayOfTables tables =>
        refine congrArg (fun step => tables.zipIdx.foldlM step fields >>= limited) ?_
        funext fields element
        exact ih (by simp only [List.length_append, List.length_singleton]; omega)
      | _ => rfl

theorem offered_field {kind : Kind} {value : Json} {inherited : Bool} (h : Open path) :
    Offered profile (field profile path kind value inherited) := ⟨rfl, rfl, h⟩

theorem offered_inherited {doc : Table} {own : List Field} (h : f ∈ inherited profile doc own) :
    f.inherited = true ∧ Offered profile f := by
  cases profile with
  | acquisition =>
    obtain ⟨⟨name, value⟩, hmem, hf⟩ := List.mem_filterMap.mp h
    have hopen : sensitive name = false := by
      have hall : acquisitionDefaults.all fun e => !sensitive e.1 := by decide +kernel
      simpa using List.all_eq_true.mp hall _ hmem
    dsimp only at hf
    split at hf
    · cases hf
    · cases hf
      exact ⟨rfl, offered_field ⟨name, rfl, hopen⟩⟩
  | communicate =>
    simp only [inherited, inheritedSynchronization] at h
    split at h
    · cases h
    obtain ⟨⟨port, i⟩, -, hport⟩ := List.mem_flatMap.mp h
    dsimp only at hport
    split at hport
    · cases hport
    obtain ⟨⟨name, value⟩, hmem, hf⟩ := List.mem_filterMap.mp hport
    have hopen : sensitive name = false := by
      have hall : synchronizationDefaults.all fun e => !sensitive e.1 := by decide +kernel
      simpa using List.all_eq_true.mp hall _ hmem
    dsimp only at hf
    split at hf
    · cases hf
    · cases hf
      exact ⟨rfl, offered_field ⟨name, rfl, hopen⟩⟩

theorem mem_fields {doc : Table} {all : List Field} (hwf : (Item.table doc).WellFormed)
    (h : fields doc profile = .ok all) (hf : f ∈ all) :
    Offered profile f ∧ (f.inherited = false → Shown profile doc [] f) := by
  obtain ⟨own, hwalk, hrest⟩ := bind_eq_ok_iff.mp h
  split at hrest
  · cases hrest
  unfold limited at hrest
  split at hrest
  · cases hrest
  cases hrest
  rcases List.mem_append.mp hf with hown | hinherited
  · have hshown := (mem_walk hwf hwalk f hown).resolve_left List.not_mem_nil
    exact ⟨hshown.offered, fun _ => hshown⟩
  · obtain ⟨htrue, hoffered⟩ := offered_inherited hinherited
    refine ⟨hoffered, fun hfalse => ?_⟩
    rw [htrue] at hfalse
    cases hfalse

end Fields

/-! ## The loop over the edits -/

/-- The value that an edit asks for. -/
def Json.toml : Json → Option Value
  | .int n => some (.integer n)
  | .bool b => some (.boolean b)
  | .string s => some (.string s)
  | .other _ => none

def leavesOf (edits : List Edit) : List (List Segment × Option Shape) :=
  edits.map fun e => (e.path, e.value.toml.map .value)

section Drafts

variable {profile : Profile} {available : List Field} {doc : Table} {edits edits' : List Edit}

theorem map_fst_leavesOf : (leavesOf edits).map (·.1) = edits.map (·.path) := by
  rw [leavesOf, List.map_map]
  rfl

theorem convert_toml {kind : Kind} {value : Json} {v : Value} (h : convert kind value = .ok v) :
    value.toml = some v := by
  cases kind with
  | integer =>
    cases hn : value.asI64 with
    | none => simp [convert, hn] at h
    | some n =>
      obtain rfl : Value.integer n = v := by simpa [convert, hn] using h
      cases value with
      | int m =>
        simp only [Json.asI64] at hn
        split at hn
        · cases hn
          rfl
        · cases hn
      | _ => cases hn
  | boolean =>
    cases hb : value.asBool with
    | none => simp [convert, hb] at h
    | some b =>
      obtain rfl : Value.boolean b = v := by simpa [convert, hb] using h
      cases value with
      | bool b' => cases hb; rfl
      | _ => cases hb
  | string =>
    simp only [convert] at h
    split at h
    · rename_i s hs
      cases h
      have hstr := (Option.filter_eq_some_iff.mp hs).1
      cases value with
      | string s' => cases hstr; rfl
      | _ => cases hstr
    · cases h

theorem check_ok {edit : Edit} {v : Value} (h : check profile available edit = .ok v) :
    edit.value.toml = some v ∧ ∃ f ∈ available, f.path = edit.path ∧ f.readonly = false := by
  unfold check at h
  split at h
  · cases h
  rename_i f hfind
  split at h
  · cases h
  rename_i hreadonly
  split at h
  · cases h
  split at h
  · cases h
  rename_i value hconvert
  split at h
  · cases h
  cases h
  have hpath := List.find?_some hfind
  exact ⟨convert_toml hconvert, f, List.mem_of_find?_eq_some hfind, by simpa using hpath,
    by simpa using hreadonly⟩

theorem applyEdit_ok {edit : Edit} {doc' : Table} :
    applyEdit profile available doc edit = .ok doc' ↔ ∃ v found put,
      check profile available edit = .ok v ∧ Resolved doc edit.path found put ∧
        doc' = put (.value v found.decor) := by
  unfold applyEdit
  constructor
  · intro h
    obtain ⟨v, hcheck, hrest⟩ := bind_eq_ok_iff.mp h
    obtain ⟨⟨found, put⟩, htarget, hput⟩ := bind_eq_ok_iff.mp hrest
    cases hput
    exact ⟨v, found, put, hcheck, resolved_of_target htarget, rfl⟩
  · rintro ⟨v, found, put, hcheck, hresolved, rfl⟩
    rw [hcheck]
    refine bind_eq_ok_iff.mpr ⟨v, rfl, ?_⟩
    exact bind_eq_ok_iff.mpr ⟨(found, put), target_of_resolved hresolved, rfl⟩

/-- An edit can be made of the document: its value is accepted and its path resolved. -/
def Applicable (profile : Profile) (available : List Field) (doc : Table) (edit : Edit) : Prop :=
  (∃ v, check profile available edit = .ok v) ∧ ∃ found put, Resolved doc edit.path found put

/-- An edited path is above no other one, so that the document there is as it was. -/
theorem applicable_congr {cur : Table} {edit : Edit} (he : edit ∈ edits)
    (hsep : Separate (view doc) (leavesOf edits)) (hsub : ∀ e ∈ edits', e ∈ edits)
    (hview : view cur = overlay (view doc) (leavesOf edits')) :
    Applicable profile available cur edit ↔ Applicable profile available doc edit := by
  have habove : ∀ r q, edit.path = r ++ q → q ≠ [] → view cur r = view doc r := by
    intro r q hsplit hq
    rw [hview, overlay_of_notMem]
    rw [map_fst_leavesOf]
    intro hmem
    obtain ⟨e, he', rfl⟩ := List.mem_map.mp hmem
    obtain ⟨-, hother⟩ := hsep _ (List.mem_map.mpr ⟨e, hsub e he', rfl⟩) q hq
    exact hother _ (List.mem_map.mpr ⟨edit, he, rfl⟩) hsplit
  refine and_congr_right fun _ => ?_
  constructor
  · rintro ⟨found, put, hresolved⟩
    exact hresolved.congr fun r q hsplit hq => (habove r q hsplit hq).symm
  · rintro ⟨found, put, hresolved⟩
    exact hresolved.congr habove

/-- One round of the loop, on a document that has the edits made before. -/
theorem view_applyEdit {cur cur' : Table} {edit : Edit}
    (hsep : Separate (view doc) (leavesOf (edits ++ [edit])))
    (hnodup : ((edits ++ [edit]).map (·.path)).Nodup)
    (hview : view cur = overlay (view doc) (leavesOf edits))
    (h : applyEdit profile available cur edit = .ok cur') :
    view cur' = overlay (view doc) (leavesOf (edits ++ [edit])) := by
  obtain ⟨v, found, put, hcheck, hresolved, rfl⟩ := applyEdit_ok.mp h
  have happend : leavesOf (edits ++ [edit]) = leavesOf edits ++ [(edit.path, some (.value v))] := by
    rw [leavesOf, List.map_append, List.map_singleton, (check_ok hcheck).1]
    rfl
  rw [hresolved.view, hview]
  rw [← map_fst_leavesOf, happend] at hnodup
  rw [happend] at hsep ⊢
  exact setLeaf_overlay hsep hnodup

/-- What the loop has done after some of the edits. -/
structure Drafted (profile : Profile) (available : List Field) (doc : Table) (edits : List Edit)
    (x : List (List Segment) × Table) : Prop where
  seen : ∀ path, path ∈ x.1 ↔ path ∈ edits.map (·.path)
  nodup : (edits.map (·.path)).Nodup
  checked : ∀ e ∈ edits, ∃ v, check profile available e = .ok v
  wellFormed : (Item.table doc).WellFormed → (Item.table x.2).WellFormed
  applied : Separate (view doc) (leavesOf edits) →
    (∀ e ∈ edits, Applicable profile available doc e) ∧
      view x.2 = overlay (view doc) (leavesOf edits)

theorem nodup_concat {edit : Edit} (h : (edits.map (·.path)).Nodup)
    (hnew : edit.path ∉ edits.map (·.path)) : ((edits ++ [edit]).map (·.path)).Nodup := by
  rw [List.map_append]
  refine List.nodup_append.mpr ⟨h, List.nodup_singleton _, ?_⟩
  intro a ha b hb heq
  have hedit : b = edit.path := by simpa using hb
  rw [heq, hedit] at ha
  exact hnew ha

theorem drafted {x : List (List Segment) × Table}
    (h : draft profile available doc edits = .ok x) : Drafted profile available doc edits x := by
  refine foldlM_history_nil (fun done x => Drafted profile available doc done x) ?_ ?_ h
  · intro done edit x x' hinv hround
    split at hround
    · cases hround
    rename_i hnew
    obtain ⟨doc', happly, hok⟩ := bind_eq_ok_iff.mp hround
    cases hok
    obtain ⟨v, found, put, hcheck, hresolved, hdoc'⟩ := applyEdit_ok.mp happly
    have hnodup := nodup_concat hinv.nodup fun hmem => hnew ((hinv.seen _).mpr hmem)
    refine ⟨?_, hnodup, ?_, ?_, ?_⟩
    · intro path
      rw [List.mem_cons, hinv.seen, List.map_append, List.mem_append, List.map_singleton,
        List.mem_singleton, or_comm]
    · intro e he
      rcases List.mem_append.mp he with he | he
      · exact hinv.checked e he
      · rw [List.mem_singleton.mp he]
        exact ⟨v, hcheck⟩
    · intro hwf
      rw [hdoc']
      exact hresolved.wellFormed (hinv.wellFormed hwf) wellFormed_value
    · intro hsep
      have hleft : Separate (view doc) (leavesOf done) := by
        rw [leavesOf, List.map_append] at hsep
        exact hsep.left
      obtain ⟨happlicable, hview⟩ := hinv.applied hleft
      refine ⟨?_, view_applyEdit hsep hnodup hview happly⟩
      intro e he
      rcases List.mem_append.mp he with hdone | hlast
      · exact happlicable e hdone
      · obtain rfl := List.mem_singleton.mp hlast
        have hcur : Applicable profile available x.2 e := ⟨⟨v, hcheck⟩, found, put, hresolved⟩
        exact (applicable_congr he hsep (fun e' => List.mem_append_left _) hview).mp hcur
  · refine ⟨by simp, List.nodup_nil, nofun, fun hwf => hwf, fun _ => ⟨nofun, ?_⟩⟩
    rfl

/-- Edits of separate leaves that can be made of the document are made one after the other. -/
theorem draft_of_applicable (hnodup : (edits.map (·.path)).Nodup)
    (hsep : Separate (view doc) (leavesOf edits))
    (h : ∀ e ∈ edits, Applicable profile available doc e) :
    ∃ x, draft profile available doc edits = .ok x := by
  induction edits using List.reverseRecOn with
  | nil => exact ⟨([], doc), rfl⟩
  | append_singleton edits edit ih =>
    have hleft : Separate (view doc) (leavesOf edits) := by
      rw [leavesOf, List.map_append] at hsep
      exact hsep.left
    have hsplit := hnodup
    rw [List.map_append, List.nodup_append] at hsplit
    obtain ⟨x, hx⟩ := ih hsplit.1 hleft fun e he => h e (List.mem_append_left _ he)
    have hdrafted := drafted hx
    obtain ⟨-, hview⟩ := hdrafted.applied hleft
    have hcur := (applicable_congr (by simp) hsep (fun e => List.mem_append_left _) hview).mpr
      (h edit (by simp))
    obtain ⟨⟨v, hcheck⟩, found, put, hresolved⟩ := hcur
    have happly := applyEdit_ok.mpr ⟨v, found, put, hcheck, hresolved, rfl⟩
    refine ⟨(edit.path :: x.1, put (.value v found.decor)), ?_⟩
    have hnew : edit.path ∉ x.1 := by
      rw [hdrafted.seen]
      intro hmem
      exact hsplit.2.2 _ hmem _ (by simp) rfl
    unfold draft at hx ⊢
    rw [List.foldlM_append, hx]
    refine bind_eq_ok_iff.mpr ⟨x, rfl, ?_⟩
    rw [List.foldlM_cons]
    refine bind_eq_ok_iff.mpr ⟨_, ?_, rfl⟩
    rw [if_neg hnew, happly]
    rfl

end Drafts

/-! ## Prepared drafts -/

/-- The path of a secret or of a parameter that may not be edited. -/
def Guarded (profile : Profile) (path : List Segment) : Prop :=
  (metadata profile (display path)).readonly = true ∨
    ∃ name, path.getLast? = some (.key name) ∧ sensitive name = true

/-- The text of a document that has been printed is read as the same tree. -/
def Rereads (toml : Toml) (content : String) : Prop :=
  ∀ d, (Item.table d).WellFormed → toml.print d = content →
    ∃ re, toml.parse content = some re ∧ view re = view d

/-- The edits have changed what they name and nothing else. -/
structure Exact (toml : Toml) (profile : Profile) (content : String) (edits : List Edit)
    (doc : Table) (form : Form) : Prop where
  reread : ∃ re, toml.parse form.content = some re ∧
    view re = overlay (view doc) (leavesOf edits)
  guarded : ∀ re, toml.parse form.content = some re →
    ∀ path, Guarded profile path → view re path = view doc path
  order : ∀ edits', edits.Perm edits' → ∀ d, edited profile doc edits = .ok d →
    ∃ d', edited profile doc edits' = .ok d' ∧ view d' = view d
  orderReread : ∀ edits', edits.Perm edits' → ∀ form' re re',
    prepare toml content edits' profile = .ok form' → Rereads toml form'.content →
    toml.parse form.content = some re → toml.parse form'.content = some re' → view re' = view re
  resolves : ∀ d, edited profile doc edits = .ok d → ∀ f ∈ form.fields, f.inherited = false →
    ∃ item put, target d f.path = .ok (item, put) ∧ put item = d ∧
      scalar item = some (f.kind, f.value)
  unchanged : edits = [] → form.content = content

section Prepared

variable {toml : Toml} {profile : Profile} {content : String} {edits edits' : List Edit}
variable {doc d : Table} {form : Form}

theorem edited_ok (h : edited profile doc edits = .ok d) : ∃ available x,
    fields doc profile = .ok available ∧ draft profile available doc edits = .ok x ∧ d = x.2 := by
  obtain ⟨available, hfields, hrest⟩ := bind_eq_ok_iff.mp h
  obtain ⟨x, hdraft, hok⟩ := bind_eq_ok_iff.mp hrest
  cases hok
  exact ⟨available, x, hfields, hdraft, rfl⟩

theorem prepare_ok (hparse : toml.parse content = some doc)
    (h : prepare toml content edits profile = .ok form) : ∃ d,
      edited profile doc edits = .ok d ∧ fields d profile = .ok form.fields ∧
        form.content = if edits.isEmpty then content else toml.print d := by
  unfold prepare at h
  split at h
  · cases h
  rw [hparse] at h
  obtain ⟨d, hedited, hrest⟩ := bind_eq_ok_iff.mp h
  obtain ⟨shown, hfields, hlast⟩ := bind_eq_ok_iff.mp hrest
  dsimp only at hlast
  generalize hcontent : (if edits.isEmpty then content else toml.print d) = printed at hlast
  split at hlast
  · cases hlast
  · cases hlast
    exact ⟨d, hedited, hfields, hcontent.symm⟩

theorem edited_view (hsep : Separate (view doc) (leavesOf edits))
    (h : edited profile doc edits = .ok d) :
    view d = overlay (view doc) (leavesOf edits) := by
  obtain ⟨available, x, -, hdraft, rfl⟩ := edited_ok h
  exact ((drafted hdraft).applied hsep).2

/-- The text that `prepare` returns is read as the document that it has made. -/
theorem reread_prepare (hwf : (Item.table doc).WellFormed)
    (hparse : toml.parse content = some doc)
    (h : prepare toml content edits profile = .ok form) (hprint : Rereads toml form.content)
    (hedited : edited profile doc edits = .ok d) :
    ∃ re, toml.parse form.content = some re ∧ view re = view d := by
  obtain ⟨d', hedited', -, hcontent⟩ := prepare_ok hparse h
  obtain rfl : d = d' := Except.ok.inj (hedited.symm.trans hedited')
  obtain ⟨available, x, -, hdraft, rfl⟩ := edited_ok hedited
  cases edits with
  | nil =>
    cases hdraft
    rw [hcontent]
    exact ⟨doc, hparse, rfl⟩
  | cons e edits => exact hprint x.2 ((drafted hdraft).wellFormed hwf) hcontent.symm

theorem edited_perm (hsep : Separate (view doc) (leavesOf edits)) (hperm : edits.Perm edits')
    (h : edited profile doc edits = .ok d) :
    ∃ d', edited profile doc edits' = .ok d' ∧ view d' = view d := by
  obtain ⟨available, x, hfields, hdraft, rfl⟩ := edited_ok h
  have hdrafted := drafted hdraft
  obtain ⟨happlicable, hview⟩ := hdrafted.applied hsep
  have hleaves : (leavesOf edits).Perm (leavesOf edits') := hperm.map _
  have hsep' := hsep.perm hleaves
  obtain ⟨x', hdraft'⟩ := draft_of_applicable ((hperm.map _).nodup_iff.mp hdrafted.nodup) hsep'
    fun e he => happlicable e (hperm.mem_iff.mpr he)
  refine ⟨x'.2, ?_, ?_⟩
  · refine bind_eq_ok_iff.mpr ⟨available, hfields, ?_⟩
    exact bind_eq_ok_iff.mpr ⟨x', hdraft', rfl⟩
  · rw [((drafted hdraft').applied hsep').2, hview]
    refine overlay_perm ?_ hleaves
    rw [map_fst_leavesOf]
    exact hdrafted.nodup

/-- No edit names a guarded path. -/
theorem notMem_of_guarded (hwf : (Item.table doc).WellFormed)
    (h : edited profile doc edits = .ok d) {path : List Segment} (hguarded : Guarded profile path) :
    path ∉ edits.map (·.path) := by
  obtain ⟨available, x, hfields, hdraft, rfl⟩ := edited_ok h
  intro hmem
  obtain ⟨e, he, rfl⟩ := List.mem_map.mp hmem
  obtain ⟨v, hcheck⟩ := (drafted hdraft).checked e he
  obtain ⟨-, f, hf, hpath, hreadonly⟩ := check_ok hcheck
  obtain ⟨hoffered, -⟩ := mem_fields hwf hfields hf
  have hmeta := hoffered.readonly
  obtain ⟨name, hlast, hopen⟩ := hoffered.visible
  rw [hpath] at hmeta hlast
  rcases hguarded with hlocked | ⟨secret, hsecret, hsensitive⟩
  · rw [hreadonly, hlocked] at hmeta
    cases hmeta
  · rw [hlast] at hsecret
    cases hsecret
    rw [hopen] at hsensitive
    cases hsensitive

theorem reach_append {item : Item} {p q : List Segment} :
    item.reach (p ++ q) = (item.reach p).bind fun found => found.reach q := by
  induction p generalizing item with
  | nil => rfl
  | cons s p ih =>
    rw [List.cons_append, Item.reach, Item.reach, Option.bind_assoc]
    exact congrArg _ (funext fun c => ih)

theorem view_below_value {p q : List Segment} {v : Value} (h : view doc p = some (.value v))
    (hq : q ≠ []) : view doc (p ++ q) = none := by
  obtain ⟨item, hreach, hshape⟩ := Option.bind_eq_some_iff.mp h
  unfold view Item.view
  rw [reach_append, hreach, Option.bind_some]
  cases item with
  | value v' decor =>
    cases q with
    | nil => exact absurd rfl hq
    | cons s q => cases s <;> rfl
  | _ => cases hshape

/-- A reread document without anything else changed shows that the edits are of separate leaves. -/
theorem separate_of_reread (h : edited profile doc edits = .ok d) {re : Table}
    (hview : view re = overlay (view doc) (leavesOf edits)) :
    Separate (view doc) (leavesOf edits) := by
  obtain ⟨available, x, -, hdraft, -⟩ := edited_ok h
  have hdrafted := drafted hdraft
  have hnodup : ((leavesOf edits).map (·.1)).Nodup := by
    rw [map_fst_leavesOf]
    exact hdrafted.nodup
  have hvalue : ∀ e ∈ leavesOf edits, ∃ v, e.2 = some (.value v) := by
    intro e he
    obtain ⟨edit, hedit, rfl⟩ := List.mem_map.mp he
    obtain ⟨v, hcheck⟩ := hdrafted.checked edit hedit
    exact ⟨v, by rw [(check_ok hcheck).1]; rfl⟩
  refine separate_of_overlay hnodup ?_ ?_
  · intro e he
    obtain ⟨v, hv⟩ := hvalue e he
    simp [hv]
  · intro e he q hq
    obtain ⟨v, hv⟩ := hvalue e he
    have hat : view re e.1 = some (.value v) := by rw [hview, overlay_of_mem hnodup he, hv]
    rw [← hview]
    exact view_below_value hat hq

theorem prepare_exact_iff (hwf : (Item.table doc).WellFormed)
    (hparse : toml.parse content = some doc)
    (h : prepare toml content edits profile = .ok form) (hprint : Rereads toml form.content) :
    Exact toml profile content edits doc form ↔ Separate (view doc) (leavesOf edits) := by
  obtain ⟨d, hedited, hfields, hcontent⟩ := prepare_ok hparse h
  constructor
  · intro hexact
    obtain ⟨re, -, hview⟩ := hexact.reread
    exact separate_of_reread hedited hview
  intro hsep
  obtain ⟨re, hre, hviewRe⟩ := reread_prepare hwf hparse h hprint hedited
  have hview := edited_view hsep hedited
  refine ⟨⟨re, hre, hviewRe.trans hview⟩, ?_, ?_, ?_, ?_, ?_⟩
  · intro re' hre' path hguarded
    obtain rfl : re = re' := Option.some.inj (hre.symm.trans hre')
    rw [hviewRe, hview, overlay_of_notMem]
    rw [map_fst_leavesOf]
    exact notMem_of_guarded hwf hedited hguarded
  · intro edits' hperm d' hd'
    exact edited_perm hsep hperm hd'
  · intro edits' hperm form' re' re'' hprepare' hprint' hre' hre''
    obtain rfl : re = re' := Option.some.inj (hre.symm.trans hre')
    obtain ⟨d', hedited', hsame⟩ := edited_perm hsep hperm hedited
    obtain ⟨re₁, hre₁, hview₁⟩ := reread_prepare hwf hparse hprepare' hprint' hedited'
    obtain rfl : re₁ = re'' := Option.some.inj (hre₁.symm.trans hre'')
    rw [hview₁, hsame, hviewRe]
  · intro d' hd' f hf hown
    obtain rfl : d = d' := Except.ok.inj (hedited.symm.trans hd')
    obtain ⟨available, x, -, hdraft, rfl⟩ := edited_ok hedited
    obtain ⟨-, hshown⟩ := mem_fields ((drafted hdraft).wellFormed hwf) hfields hf
    obtain ⟨path, v, decor, hpath, hreach, hscalar⟩ := (hshown hown).reached
    rw [List.nil_append] at hpath
    rw [← hpath] at hreach
    obtain ⟨put, hresolved, hput⟩ := resolved_of_reach hreach
    exact ⟨.value v decor, put, target_of_resolved hresolved, hput, hscalar⟩
  · rintro rfl
    exact hcontent

end Prepared

namespace Sample

def spaced : Decor := ⟨some " ", some ""⟩

def settings (entries : Table) : Table := [("settings", .table entries)]

def plain (n : Int) : Table := settings [("timeout", .value (.integer n) spaced)]

/-- The key of a default stands for a table. -/
def nested : Table :=
  settings [("poll_interval_ms", .table [("token", .value (.string "x") spaced)])]

def flat : Table := settings [("poll_interval_ms", .value (.integer 5) spaced)]

def plainText : String := "[settings]\ntimeout = 50\n"

def editedText : String := "[settings]\ntimeout = 70\n"

def nestedText : String := "[settings.poll_interval_ms]\ntoken = \"x\"\n"

def flatText : String := "[settings]\npoll_interval_ms = 5\n"

/-- `toml_edit` on the texts that occur here. -/
def toml : Toml where
  parse content :=
    if content = plainText then some (plain 50)
    else if content = editedText then some (plain 70)
    else if content = nestedText then some nested
    else if content = flatText then some flat
    else none
  print
    | [("settings", .table [("timeout", .value (.integer 70) _)])] => editedText
    | [("settings", .table [("poll_interval_ms", .value (.integer 5) _)])] => flatText
    | _ => ""

def edit (name : String) (n : Int) : List Edit := [⟨[.key "settings", .key name], .int n⟩]

theorem wellFormed_settings {entries : Table} (hnodup : (entries.map (·.1)).Nodup)
    (h : ∀ e ∈ entries, e.2.WellFormed) : (Item.table (settings entries)).WellFormed := by
  refine wellFormed_table (List.nodup_singleton _) ?_
  intro e he
  obtain rfl := List.mem_singleton.mp he
  exact wellFormed_table hnodup h

theorem wellFormed_plain (n : Int) : (Item.table (plain n)).WellFormed := by
  refine wellFormed_settings (List.nodup_singleton _) ?_
  intro e he
  obtain rfl := List.mem_singleton.mp he
  exact wellFormed_value

theorem wellFormed_nested : (Item.table nested).WellFormed := by
  refine wellFormed_settings (List.nodup_singleton _) ?_
  intro e he
  obtain rfl := List.mem_singleton.mp he
  refine wellFormed_table (List.nodup_singleton _) ?_
  intro e he
  obtain rfl := List.mem_singleton.mp he
  exact wellFormed_value

theorem view_entry (name : String) (v : Value) (decor decor' : Decor) :
    view (settings [(name, .value v decor)]) = view (settings [(name, .value v decor')]) := by
  have hresolved : Resolved (settings [(name, .value v decor)]) [.key "settings", .key name] _ _ :=
    .table rfl .last
  have hview := (hresolved.view v decor).trans (hresolved.view v decor').symm
  simpa [settings, insert] using hview

theorem rereads_edited : Rereads toml editedText := by
  intro d _ hprint
  unfold toml at hprint
  dsimp only at hprint
  split at hprint
  · exact ⟨plain 70, rfl, view_entry "timeout" (.integer 70) spaced _⟩
  · simp [flatText, editedText] at hprint
  · simp [editedText] at hprint

theorem rereads_flat : Rereads toml flatText := by
  intro d _ hprint
  unfold toml at hprint
  dsimp only at hprint
  split at hprint
  · simp [flatText, editedText] at hprint
  · exact ⟨flat, rfl, view_entry "poll_interval_ms" (.integer 5) spaced _⟩
  · simp [flatText] at hprint

theorem prepared {content text : String} {edits : List Edit}
    (h : (prepare toml content edits .acquisition).toOption.map (·.content) = some text) :
    ∃ form, prepare toml content edits .acquisition = .ok form ∧ form.content = text := by
  cases hprepare : prepare toml content edits .acquisition with
  | error e =>
    rw [hprepare] at h
    cases h
  | ok form =>
    rw [hprepare] at h
    exact ⟨form, rfl, Option.some.inj h⟩

end Sample

/-- An edit of the timeout. -/
theorem prepare_exact_iff_timeout : ∃ form,
    prepare Sample.toml Sample.plainText (Sample.edit "timeout" 70) .acquisition = .ok form ∧
    Exact Sample.toml .acquisition Sample.plainText (Sample.edit "timeout" 70) (Sample.plain 50)
      form := by
  have hrun : (prepare Sample.toml Sample.plainText (Sample.edit "timeout" 70)
      .acquisition).toOption.map (·.content) = some Sample.editedText := by decide +kernel
  obtain ⟨form, hprepare, hcontent⟩ := Sample.prepared hrun
  refine ⟨form, hprepare, (prepare_exact_iff (Sample.wellFormed_plain 50) rfl hprepare ?_).mpr ?_⟩
  · rw [hcontent]
    exact Sample.rereads_edited
  · intro e he q hq
    obtain rfl := List.mem_singleton.mp he
    refine ⟨view_below_value (v := .integer 50) rfl hq, ?_⟩
    intro e' he'
    obtain rfl := List.mem_singleton.mp he'
    simpa using hq

/-- The default replaces the table, and what was in it is gone. -/
theorem prepare_drops_secret : ∃ form,
    prepare Sample.toml Sample.nestedText (Sample.edit "poll_interval_ms" 5) .acquisition =
      .ok form ∧
    Sample.toml.parse Sample.nestedText = some Sample.nested ∧
    (Item.table Sample.nested).WellFormed ∧ Rereads Sample.toml form.content ∧
    ¬ Exact Sample.toml .acquisition Sample.nestedText (Sample.edit "poll_interval_ms" 5)
      Sample.nested form := by
  have hrun : (prepare Sample.toml Sample.nestedText (Sample.edit "poll_interval_ms" 5)
      .acquisition).toOption.map (·.content) = some Sample.flatText := by decide +kernel
  obtain ⟨form, hprepare, hcontent⟩ := Sample.prepared hrun
  refine ⟨form, hprepare, rfl, Sample.wellFormed_nested, ?_, ?_⟩
  · rw [hcontent]
    exact Sample.rereads_flat
  · intro hexact
    have hsecret : Guarded .acquisition [.key "settings", .key "poll_interval_ms", .key "token"] :=
      .inr ⟨"token", rfl, by decide +kernel⟩
    have hkept := hexact.guarded Sample.flat (by rw [hcontent]; rfl) _ hsecret
    exact absurd hkept (by decide +kernel)

end RcdServer.ConfigForm
