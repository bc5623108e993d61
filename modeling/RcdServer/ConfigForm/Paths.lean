import RcdServer.ConfigForm.Form
import RcdServer.Lib.Leaves

/-!
# Paths into a document

A document is seen as what stands at each of its paths. `target` resolves a path, and a value in
the place of the item that it finds sets one leaf of the document.
-/
namespace RcdServer.ConfigForm

open Lib Lib.Run Lib.Leaves

/-! ## What stands at a path -/

def Item.child : Item → Segment → Option Item
  | .table entries, .key name => get entries name
  | .arrayOfTables tables, .index i => tables[i]?.map .table
  | _, _ => Option.none

def Item.reach : Item → List Segment → Option Item
  | item, [] => some item
  | item, s :: path => (item.child s).bind fun c => c.reach path

inductive Shape where
  | value (v : Value)
  | table
  | arrayOfTables
  deriving DecidableEq

def Item.shape : Item → Option Shape
  | .none => Option.none
  | .value v _ => some (.value v)
  | .table _ => some .table
  | .arrayOfTables _ => some .arrayOfTables

def Item.view (item : Item) (path : List Segment) : Option Shape :=
  (item.reach path).bind Item.shape

/-- The tree of the document, without the text around its values. -/
def view (doc : Table) : List Segment → Option Shape := (Item.table doc).view

/-- Keys of a table differ, and `[[..]]` stands for one table at least. -/
def Item.Sane : Item → Prop
  | .none => False
  | .value _ _ => True
  | .table entries => (entries.map (·.1)).Nodup ∧ ∀ e ∈ entries, e.2.isNone = false
  | .arrayOfTables tables => tables ≠ []

def Item.WellFormed (item : Item) : Prop := ∀ path found, item.reach path = some found → found.Sane

section Paths

variable {table : Table} {key k : String} {item : Item}

theorem lookup_insert : (insert key item table).lookup k =
    if k = key then some item else table.lookup k := by
  induction table with
  | nil =>
    by_cases hk : k = key
    · simp [insert, hk]
    · simp [insert, hk]
  | cons e table ih =>
    obtain ⟨k', i⟩ := e
    rw [insert]
    split
    · rename_i hkey
      subst hkey
      by_cases hk : k = k'
      · subst hk
        rw [if_pos rfl]
        exact List.lookup_cons_self
      · have hne : (k == k') = false := beq_eq_false_iff_ne.mpr hk
        rw [if_neg hk, List.lookup_cons, List.lookup_cons, hne]
    · rename_i hkey
      by_cases hk : k = k'
      · subst hk
        rw [if_neg hkey, List.lookup_cons_self, List.lookup_cons_self]
      · have hne : (k == k') = false := beq_eq_false_iff_ne.mpr hk
        rw [List.lookup_cons, List.lookup_cons, hne]
        exact ih

theorem get_insert (hitem : item.isNone = false) :
    get (insert key item table) k = if k = key then some item else get table k := by
  rw [get, lookup_insert]
  split
  · simp [hitem]
  · rfl

theorem insert_of_lookup (h : table.lookup key = some item) : insert key item table = table := by
  induction table with
  | nil => cases h
  | cons e table ih =>
    obtain ⟨k', i⟩ := e
    rw [insert]
    split
    · rename_i hkey
      subst hkey
      rw [List.lookup_cons_self, Option.some.injEq] at h
      rw [h]
    · rename_i hkey
      have hne : (key == k') = false := beq_eq_false_iff_ne.mpr (Ne.symm hkey)
      rw [List.lookup_cons, hne] at h
      rw [ih h]

theorem get_eq_some (h : get table key = some item) :
    table.lookup key = some item ∧ item.isNone = false := by
  rw [get, Option.filter_eq_some_iff] at h
  exact ⟨h.1, by simpa using h.2⟩

/-- The entries that are iterated over are those that are found. -/
theorem get_of_mem_iter (hnodup : (table.map (·.1)).Nodup) {e : String × Item}
    (h : e ∈ iter table) : get table e.1 = some e.2 := by
  obtain ⟨hmem, hnone⟩ := List.mem_filter.mp h
  have hlookup : table.lookup e.1 = some e.2 := by
    clear h hnone
    induction table with
    | nil => cases hmem
    | cons e' table ih =>
      rw [List.map_cons, List.nodup_cons] at hnodup
      rcases List.mem_cons.mp hmem with rfl | hmem
      · exact List.lookup_cons_self
      · have hne : (e.1 == e'.1) = false := by
          refine beq_eq_false_iff_ne.mpr fun heq => hnodup.1 ?_
          rw [← heq]
          exact List.mem_map.mpr ⟨e, hmem, rfl⟩
        rw [List.lookup_cons, hne]
        exact ih hnodup.2 hmem
  rw [get, hlookup]
  simpa using hnone

theorem map_fst_insert (table : Table) (key : String) (item : Item) :
    (insert key item table).map (·.1) = table.map (·.1) ∨
      key ∉ table.map (·.1) ∧
        (insert key item table).map (·.1) = table.map (·.1) ++ [key] := by
  induction table with
  | nil => exact .inr ⟨List.not_mem_nil, rfl⟩
  | cons e table ih =>
    obtain ⟨k', i⟩ := e
    rw [insert]
    split
    · exact .inl rfl
    · rename_i hkey
      rcases ih with hsame | ⟨hnew, happend⟩
      · left
        rw [List.map_cons, hsame, List.map_cons]
      · refine .inr ⟨?_, by rw [List.map_cons, happend, List.map_cons, List.cons_append]⟩
        rw [List.map_cons, List.mem_cons, not_or]
        exact ⟨Ne.symm hkey, hnew⟩

theorem mem_insert {e : String × Item} (h : e ∈ insert key item table) :
    e = (key, item) ∨ e ∈ table := by
  induction table with
  | nil => exact .inl (List.mem_singleton.mp h)
  | cons e' table ih =>
    obtain ⟨k', i⟩ := e'
    rw [insert] at h
    split at h
    · rename_i hkey
      rcases List.mem_cons.mp h with rfl | h
      · exact .inl (by rw [hkey])
      · exact .inr (List.mem_cons_of_mem _ h)
    · rcases List.mem_cons.mp h with rfl | h
      · exact .inr List.mem_cons_self
      · exact (ih h).imp_right (List.mem_cons_of_mem _)

theorem Item.wellFormed_iff : item.WellFormed ↔
    item.Sane ∧ ∀ s c, item.child s = some c → c.WellFormed := by
  constructor
  · intro h
    refine ⟨h [] item rfl, ?_⟩
    intro s c hc path found hfound
    exact h (s :: path) found (by rw [Item.reach, hc]; exact hfound)
  · rintro ⟨hsane, hchild⟩ path found hfound
    cases path with
    | nil =>
      cases hfound
      exact hsane
    | cons s path =>
      obtain ⟨c, hc, hreach⟩ := Option.bind_eq_some_iff.mp hfound
      exact hchild s c hc path found hreach

theorem Item.WellFormed.child (h : item.WellFormed) {s : Segment} {c : Item}
    (hc : item.child s = some c) : c.WellFormed := (Item.wellFormed_iff.mp h).2 s c hc

theorem wellFormed_value {v : Value} {decor : Decor} : (Item.value v decor).WellFormed := by
  refine Item.wellFormed_iff.mpr ⟨trivial, ?_⟩
  intro s c hc
  cases s <;> cases hc

theorem wellFormed_table (hnodup : (table.map (·.1)).Nodup)
    (h : ∀ e ∈ table, e.2.WellFormed) : (Item.table table).WellFormed := by
  refine Item.wellFormed_iff.mpr ⟨⟨hnodup, ?_⟩, ?_⟩
  · intro e he
    have hsane := h e he [] _ rfl
    cases hitem : e.2 with
    | none =>
      rw [hitem] at hsane
      exact hsane.elim
    | _ => rfl
  · intro s c hc
    cases s with
    | index i => cases hc
    | key k =>
      obtain ⟨hlookup, -⟩ := get_eq_some hc
      obtain ⟨l₁, l₂, rfl, -⟩ := List.lookup_eq_some_iff.mp hlookup
      exact h (k, c) (by simp)

theorem Item.WellFormed.insert (h : (Item.table table).WellFormed) (hitem : item.WellFormed) :
    (Item.table (insert key item table)).WellFormed := by
  have hsane := h [] _ rfl
  have hnone : item.isNone = false := by
    have := hitem [] _ rfl
    cases item with
    | none => exact this.elim
    | _ => rfl
  refine Item.wellFormed_iff.mpr ⟨⟨?_, ?_⟩, ?_⟩
  · rcases map_fst_insert table key item with hsame | ⟨hnew, happend⟩
    · rw [hsame]
      exact hsane.1
    · rw [happend]
      exact List.nodup_append.mpr ⟨hsane.1, List.nodup_singleton _, by
        rintro a ha b hb rfl
        exact hnew (List.mem_singleton.mp hb ▸ ha)⟩
  · intro e he
    rcases mem_insert he with rfl | he
    · exact hnone
    · exact hsane.2 e he
  · intro s c hc
    cases s with
    | index i => cases hc
    | key k =>
      rw [Item.child, get_insert hnone] at hc
      split at hc
      · cases hc
        exact hitem
      · exact h.child (s := .key k) hc

theorem asTable_eq_some {entries : Table} (h : item.asTable = some entries) :
    item = .table entries := by
  cases item with
  | table entries' =>
    cases h
    rfl
  | _ => cases h

theorem asArrayOfTables_eq_some {tables : List Table} (h : item.asArrayOfTables = some tables) :
    item = .arrayOfTables tables := by
  cases item with
  | arrayOfTables tables' =>
    cases h
    rfl
  | _ => cases h

end Paths

/-! ## Resolving a path -/

/-- What `target` returns. -/
inductive Resolved : Table → List Segment → Item → (Item → Table) → Prop where
  | last {table : Table} {key : String} : Resolved table [.key key]
      ((table.lookup key).getD .none) fun item => insert key item table
  | array {table child : Table} {key : String} {index : Nat} {path : List Segment} {found : Item}
      {put : Item → Table} {tables : List Table}
      (hget : get table key = some (.arrayOfTables tables))
      (hindex : tables[index]? = some child) (hchild : Resolved child path found put) :
      Resolved table (.key key :: .index index :: path) found fun item =>
        insert key (.arrayOfTables (tables.set index (put item))) table
  | table {table child : Table} {key k : String} {path : List Segment} {found : Item}
      {put : Item → Table} (hget : get table key = some (.table child))
      (hchild : Resolved child (.key k :: path) found put) :
      Resolved table (.key key :: .key k :: path) found fun item =>
        insert key (.table (put item)) table

section Targets

variable {table : Table} {path : List Segment} {found : Item} {put : Item → Table}

theorem resolved_of_target (h : target table path = .ok (found, put)) :
    Resolved table path found put := by
  induction table, path using target.induct generalizing found put with
  | case1 table key =>
    cases h
    exact .last
  | case2 table key index path hget =>
    simp [target, hget] at h
  | case3 table key index path item hget hindex =>
    simp [target, hget, hindex] at h
  | case4 table key index path item hget child hindex ih =>
    obtain ⟨tables, htables, hchild⟩ := Option.bind_eq_some_iff.mp hindex
    obtain rfl := asArrayOfTables_eq_some htables
    rw [target, hget] at h
    simp only [hindex] at h
    obtain ⟨⟨found', put'⟩, htarget, hok⟩ := bind_eq_ok_iff.mp h
    cases hok
    exact .array hget hchild (ih htarget)
  | case5 table key path hne hindex hget =>
    rw [target.eq_3 _ _ _ hne hindex, hget] at h
    cases h
  | case6 table key path hne hindex item hget htable =>
    rw [target.eq_3 _ _ _ hne hindex, hget] at h
    simp only [htable] at h
    cases h
  | case7 table key path hne hindex item hget child htable ih =>
    obtain rfl := asTable_eq_some htable
    rw [target.eq_3 _ _ _ hne hindex, hget] at h
    simp only [htable] at h
    obtain ⟨⟨found', put'⟩, htarget, hok⟩ := bind_eq_ok_iff.mp h
    cases hok
    match path, hne, hindex, ih htarget with
    | .key k :: path, _, _, hresolved => exact .table hget hresolved
    | .index i :: path, _, hindex, _ => exact (hindex i path rfl).elim
    | [], hne, _, _ => exact (hne rfl).elim
  | case8 path table hlast harray htable =>
    match path, hlast, harray, htable with
    | [], _, _, _ => cases h
    | .index i :: path, _, _, _ => cases h
    | .key k :: path, _, _, htable => exact (htable k path rfl).elim

theorem target_of_resolved (h : Resolved table path found put) :
    target table path = .ok (found, put) := by
  induction h with
  | last => rfl
  | array hget hindex _ ih =>
    simp only [target, hget, Item.asArrayOfTables, Option.bind_some, hindex, ih, Option.getD_some]
    rfl
  | table hget _ ih =>
    rw [target, hget]
    · simp only [Item.asTable, ih]
      rfl
    · simp
    · simp

theorem Resolved.wellFormed (h : Resolved table path found put) {item : Item}
    (htable : (Item.table table).WellFormed) (hitem : item.WellFormed) :
    (Item.table (put item)).WellFormed := by
  induction h with
  | last => exact htable.insert hitem
  | @array table child key index path found put tables hget hindex _ ih =>
    have harray := htable.child (s := .key key) hget
    have hchild := harray.child (s := .index index) (by rw [Item.child, hindex]; rfl)
    refine htable.insert (Item.wellFormed_iff.mpr ⟨?_, ?_⟩)
    · have hne : tables ≠ [] := harray [] _ rfl
      simpa [Item.Sane] using hne
    · intro s c hc
      cases s with
      | key k => cases hc
      | index i =>
        rw [Item.child, List.getElem?_set] at hc
        split at hc
        · split at hc
          · cases hc
            exact ih hchild
          · cases hc
        · exact harray.child (s := .index i) hc
  | @table table child key k path found put hget _ ih =>
    exact htable.insert (ih (htable.child (s := .key key) hget))

theorem view_cons_key {key : String} : view table (.key key :: path) =
    (get table key).bind fun item => item.view path := by
  unfold view Item.view
  rw [Item.reach, Item.child]
  cases get table key <;> rfl

theorem view_array_index {tables : List Table} {i : Nat} :
    (Item.arrayOfTables tables).view (.index i :: path) =
      tables[i]?.bind fun child => view child path := by
  unfold view Item.view
  rw [Item.reach, Item.child]
  cases tables[i]? <;> rfl

/-- To put a value in the place of the item sets one leaf. -/
theorem Resolved.view (h : Resolved table path found put) (v : Value) (decor : Decor) :
    view (put (.value v decor)) = setLeaf (ConfigForm.view table) path (some (.value v)) := by
  induction h with
  | @last table key =>
    funext q
    cases q with
    | nil => rw [setLeaf_nil]; rfl
    | cons s q =>
      cases s with
      | index i => rw [setLeaf_cons_ne (by simp)]; rfl
      | key k =>
        rw [view_cons_key, get_insert rfl]
        by_cases hk : k = key
        · subst hk
          rw [if_pos rfl, setLeaf_cons]
          cases q <;> simp [Item.view, Item.reach, Item.shape, Item.child, setLeaf]
        · rw [if_neg hk, setLeaf_cons_ne (by simp [hk]), view_cons_key]
  | @array table child key index path found put tables hget hindex _ ih =>
    funext q
    cases q with
    | nil => rw [setLeaf_nil]; rfl
    | cons s q =>
      cases s with
      | index i => rw [setLeaf_cons_ne (by simp)]; rfl
      | key k =>
        rw [view_cons_key, get_insert rfl]
        by_cases hk : k = key
        · subst hk
          rw [if_pos rfl, setLeaf_cons]
          cases q with
          | nil =>
            rw [setLeaf_nil, view_cons_key, hget]
            rfl
          | cons s q =>
            cases s with
            | key k' =>
              rw [setLeaf_cons_ne (by simp), view_cons_key, hget]
              rfl
            | index i =>
              rw [Option.bind_some, view_array_index, List.getElem?_set]
              by_cases hi : index = i
              · subst hi
                have hlt : index < tables.length := (List.getElem?_eq_some_iff.mp hindex).1
                rw [if_pos rfl, if_pos hlt, Option.bind_some, ih, setLeaf_cons]
                refine congrFun (congrArg (setLeaf · path _) ?_) q
                funext q
                rw [view_cons_key, hget, Option.bind_some, view_array_index, hindex,
                  Option.bind_some]
              · rw [if_neg hi, setLeaf_cons_ne (by simpa using Ne.symm hi), view_cons_key, hget,
                  Option.bind_some, view_array_index]
        · rw [if_neg hk, setLeaf_cons_ne (by simp [hk]), view_cons_key]
  | @table table child key k path found put hget _ ih =>
    funext q
    cases q with
    | nil => rw [setLeaf_nil]; rfl
    | cons s q =>
      cases s with
      | index i => rw [setLeaf_cons_ne (by simp)]; rfl
      | key k' =>
        rw [view_cons_key, get_insert rfl]
        by_cases hk : k' = key
        · subst hk
          rw [if_pos rfl, Option.bind_some, setLeaf_cons]
          have hchild :
              (fun q => ConfigForm.view table (.key k' :: q)) = ConfigForm.view child := by
            funext q
            rw [view_cons_key, hget, Option.bind_some]
            rfl
          rw [hchild]
          exact congrFun ih q
        · rw [if_neg hk, setLeaf_cons_ne (by simp [hk]), view_cons_key]

/-- Whether a path is resolved depends on what stands above it. -/
theorem Resolved.congr (h : Resolved table path found put) {table' : Table}
    (hview : ∀ r q, path = r ++ q → q ≠ [] → ConfigForm.view table' r = ConfigForm.view table r) :
    ∃ found' put', Resolved table' path found' put' := by
  induction h generalizing table' with
  | last => exact ⟨_, _, .last⟩
  | @array table child key index path found put tables hget hindex hresolved ih =>
    have hpath : path ≠ [] := by
      rintro rfl
      cases hresolved
    have hitem := hview [.key key] (.index index :: path) rfl (by simp)
    rw [view_cons_key, view_cons_key, hget, Option.bind_some] at hitem
    obtain ⟨item, hget', hshape⟩ := Option.bind_eq_some_iff.mp hitem
    obtain ⟨tables', rfl⟩ : ∃ tables', item = .arrayOfTables tables' := by
      cases item with
      | arrayOfTables tables' => exact ⟨tables', rfl⟩
      | _ => cases hshape
    have hbelow : ∀ r q, path = r ++ q → q ≠ [] →
        (tables'[index]?.bind fun c => ConfigForm.view c r) = ConfigForm.view child r := by
      intro r q hsplit hq
      have := hview (.key key :: .index index :: r) q (by rw [hsplit]; rfl) hq
      rwa [view_cons_key, view_cons_key, hget, hget', Option.bind_some, Option.bind_some,
        view_array_index, view_array_index, hindex, Option.bind_some] at this
    obtain ⟨child', hindex', -⟩ := Option.bind_eq_some_iff.mp (hbelow [] path rfl hpath)
    rw [hindex'] at hbelow
    obtain ⟨found', put', hresolved'⟩ := ih hbelow
    exact ⟨_, _, .array hget' hindex' hresolved'⟩
  | @table table child key k path found put hget hresolved ih =>
    have hitem := hview [.key key] (.key k :: path) rfl (by simp)
    rw [view_cons_key, view_cons_key, hget, Option.bind_some] at hitem
    obtain ⟨item, hget', hshape⟩ := Option.bind_eq_some_iff.mp hitem
    obtain ⟨child', rfl⟩ : ∃ child', item = .table child' := by
      cases item with
      | table child' => exact ⟨child', rfl⟩
      | _ => cases hshape
    have hbelow : ∀ r q, .key k :: path = r ++ q → q ≠ [] →
        ConfigForm.view child' r = ConfigForm.view child r := by
      intro r q hsplit hq
      have := hview (.key key :: r) q (by rw [hsplit]; rfl) hq
      rwa [view_cons_key, view_cons_key, hget, hget'] at this
    obtain ⟨found', put', hresolved'⟩ := ih hbelow
    exact ⟨_, _, .table hget' hresolved'⟩

/-- The path of a value of the document is resolved to that value. -/
theorem resolved_of_reach {v : Value} {decor : Decor}
    (h : (Item.table table).reach path = some (.value v decor)) :
    ∃ put, Resolved table path (.value v decor) put ∧ put (.value v decor) = table := by
  induction table, path using target.induct with
  | case1 table key =>
    have hget : get table key = some (.value v decor) := by
      simpa [Item.reach, Item.child] using h
    have hlookup := (get_eq_some hget).1
    have hlast : Resolved table [.key key] _ _ := .last
    rw [hlookup] at hlast
    exact ⟨_, hlast, insert_of_lookup hlookup⟩
  | case2 table key index path hget => simp [Item.reach, Item.child, hget] at h
  | case3 table key index path item hget hindex =>
    simp only [Item.reach, Item.child, hget, Option.bind_some] at h
    cases item with
    | arrayOfTables tables =>
      have hnone : tables[index]? = none := by simpa [Item.asArrayOfTables] using hindex
      simp [hnone] at h
    | _ => cases h
  | case4 table key index path item hget child hindex ih =>
    obtain ⟨tables, htables, hchild⟩ := Option.bind_eq_some_iff.mp hindex
    obtain rfl := asArrayOfTables_eq_some htables
    simp only [Item.reach, Item.child, hget, hchild, Option.bind_some, Option.map_some] at h
    obtain ⟨put, hresolved, hput⟩ := ih h
    refine ⟨_, .array hget hchild hresolved, ?_⟩
    have hset : tables.set index child = tables := by
      obtain ⟨hlt, rfl⟩ := List.getElem?_eq_some_iff.mp hchild
      exact List.set_getElem_self hlt
    rw [hput, hset]
    exact insert_of_lookup (get_eq_some hget).1
  | case5 table key path hne hindex hget => simp [Item.reach, Item.child, hget] at h
  | case6 table key path hne hindex item hget htable =>
    simp only [Item.reach, Item.child, hget, Option.bind_some] at h
    match path, hne, hindex with
    | [], hne, _ => exact (hne rfl).elim
    | .index i :: path, _, hindex => exact (hindex i path rfl).elim
    | .key k :: path, _, _ =>
      cases item with
      | table child => cases htable
      | _ => cases h
  | case7 table key path hne hindex item hget child htable ih =>
    obtain rfl := asTable_eq_some htable
    simp only [Item.reach, Item.child, hget, Option.bind_some] at h
    obtain ⟨put, hresolved, hput⟩ := ih h
    match path, hne, hindex, hresolved with
    | [], hne, _, _ => exact (hne rfl).elim
    | .index i :: path, _, hindex, _ => exact (hindex i path rfl).elim
    | .key k :: path, _, _, hresolved =>
      refine ⟨_, .table hget hresolved, ?_⟩
      rw [hput]
      exact insert_of_lookup (get_eq_some hget).1
  | case8 path table hlast harray htable =>
    match path, htable with
    | [], _ => cases h
    | .index i :: path, _ => cases h
    | .key k :: path, htable => exact (htable k path rfl).elim

end Targets

end RcdServer.ConfigForm
