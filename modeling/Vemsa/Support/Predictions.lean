import Vemsa.Support.Schemas

/-!
# Support — Predictions

`Statement.predict` runs a statement on a schema with what is known of some columns, whatever the rows
are.

* `Statement.sound`: what is predicted happens.
* `migrate_sound`: a migration predicted statement by statement goes through.
-/

namespace Vemsa.Support

/-! ### What can be told without the rows -/

/-- A schema, and the values a column of a table can have, for some columns. -/
structure Predicted where
  schema : Schema
  known : List ((String × String) × List (Option String))

/-- The columns a check reads. -/
def Check.columns : Check → List String
  | oneOf column _ => [column]
  | needs column other => [column, other]

def Index.columns (i : Index) : List String :=
  match i.unique with
  | none => []
  | some (columns, present) => present :: columns

/-- Every value is one the check takes. -/
def Check.admits (known : List ((String × String) × List (Option String))) (table : String) :
    Check → Bool
  | oneOf column values => known.any fun k =>
      k.1 = (table, column) && k.2.all fun v => v.all (· ∈ values)
  | needs column _ => known.any fun k => k.1 = (table, column) && k.2.all Option.isNone

/-- The check takes `value` in `column`, whatever else the row holds. -/
def Check.takes (column value : String) : Check → Bool
  | oneOf c values => c ≠ column || value ∈ values
  | needs c _ => c ≠ column

namespace Statement

/-- What the rows need for the statement to go through. -/
def permitted (p : Predicted) : Statement → Bool
  | createTable _ | dropConstraint .. => true
  | createIndex _ i =>
    (p.schema.indexes.any fun j => j.name = i.name) ||
      i.unique.all fun (_, present) => p.known.any fun k =>
        k.1 = (i.table, present) && k.2.all Option.isNone
  | addColumn table _ c check =>
    (p.schema.table? table).all fun t =>
      (t.columns.any fun d => d.name = c.name) ||
        ((!c.notNull || c.default.isSome) && (t.checks.all fun k => c.name ∉ k.2.columns) &&
          (p.schema.indexes.all fun i => i.table ≠ table || c.name ∉ i.columns) &&
          check.all fun k => k.2.admits [((table, c.name), [c.default])] table)
  | addConstraint table _ check => check.admits p.known table
  | update table column value _ =>
    (p.schema.tables.all fun t => t.name ≠ table || t.checks.all fun k => k.2.takes column value) &&
      p.schema.indexes.all fun i => i.table ≠ table || column ∉ i.columns

/-- No reference reads a column it sets, or a table it creates. -/
def sparesReferences (s : Schema) (st : Statement) : Bool :=
  s.tables.all fun t => t.references.all fun r =>
    !st.writes t.name r.column && !st.writes r.target r.key && !st.fresh s r.target

/-- What is known after it. -/
def learn (p : Predicted) : Statement → List ((String × String) × List (Option String))
  | addColumn table _ c _ =>
    if (p.schema.table? table).any fun t => !t.columns.any fun d => d.name = c.name then
      ((table, c.name), [c.default]) :: p.known.filter fun k => k.1 ≠ (table, c.name)
    else p.known
  | dropConstraint table name =>
    ((p.schema.table? table).elim [] fun t => t.checks.filterMap fun k =>
      match k.2 with
      | .oneOf column values =>
        if k.1 = name then some ((table, column), none :: values.map some) else none
      | .needs .. => none) ++ p.known
  | update table column value _ =>
    p.known.map fun k => if k.1 = (table, column) then (k.1, some value :: k.2) else k
  | _ => p.known

/-- One statement; `none` where the rows might not let it through. -/
def predict (st : Statement) (p : Predicted) : Option Predicted :=
  match st.alter p.schema with
  | .error _ => none
  | .ok schema =>
    if st.permitted p && st.sparesReferences p.schema then some ⟨schema, st.learn p⟩ else none

end Statement

/-- The database is as predicted. -/
structure Predicted.Fits (p : Predicted) (db : Database) : Prop where
  schema : db.schema = p.schema
  valid : db.valid = true
  known : ∀ k ∈ p.known, ∀ row ∈ db.rows k.1.1, row k.1.2 ∈ k.2

/-! ### Checks and indexes -/

section Checks

variable {row row' : Fields} {t : TableDef}

theorem Check.holds_congr {c : Check} (h : ∀ n ∈ c.columns, row n = row' n) :
    c.holds row = c.holds row' := by
  cases c with
  | oneOf column values => simp only [Check.holds, h column (by simp [Check.columns])]
  | needs column other =>
      simp only [Check.holds, h column (by simp [Check.columns]), h other (by simp [Check.columns])]

theorem Check.holds_of_admits {c : Check} {known : List ((String × String) × List (Option String))}
    {table : String} (h : c.admits known table = true)
    (hrow : ∀ k ∈ known, k.1.1 = table → row k.1.2 ∈ k.2) : c.holds row = true := by
  cases c with
  | oneOf column values =>
      obtain ⟨k, hk, hadm⟩ := List.any_eq_true.mp h
      simp only [Bool.and_eq_true, decide_eq_true_eq, List.all_eq_true] at hadm
      have hin := hrow k hk (by rw [hadm.1])
      rw [hadm.1] at hin
      exact hadm.2 _ hin
  | needs column other =>
      obtain ⟨k, hk, hadm⟩ := List.any_eq_true.mp h
      simp only [Bool.and_eq_true, decide_eq_true_eq, List.all_eq_true] at hadm
      have hin := hrow k hk (by rw [hadm.1])
      rw [hadm.1] at hin
      simp [Check.holds, hadm.2 _ hin]

theorem Check.holds_update {c : Check} {column value : String} (h : c.takes column value = true)
    (hrow : c.holds row = true) : c.holds (Function.update row column (some value)) = true := by
  cases c with
  | oneOf n values =>
      obtain rfl | hne := eq_or_ne n column
      · have hv : value ∈ values := by simpa [Check.takes] using h
        simp [Check.holds, hv]
      · simpa [Check.holds, Function.update_of_ne hne] using hrow
  | needs n other =>
      have hne : n ≠ column := by simpa [Check.takes] using h
      obtain rfl | hne' := eq_or_ne other column
      · simp [Check.holds]
      · simpa [Check.holds, Function.update_of_ne hne, Function.update_of_ne hne'] using hrow

/-- A row whose column is set to a value the checks take. -/
theorem accepts_update {column value : String} (h : t.accepts row = true)
    (hchecks : ∀ k ∈ t.checks, k.2.takes column value = true) :
    t.accepts (Function.update row column (some value)) = true := by
  obtain ⟨hcolumns, hold⟩ := accepts_iff.mp h
  refine accepts_iff.mpr ⟨fun d hd hnull => ?_, fun k hk => ?_⟩
  · obtain heq | hne := eq_or_ne d.name column
    · rw [heq, Function.update_self]
      rfl
    · rw [Function.update_of_ne hne]
      exact hcolumns d hd hnull
  · exact Check.holds_update (hchecks k hk) (hold k hk)

/-- A row whose table gets a column that no check reads but its own. -/
theorem accepts_newColumn {c : Column} {check : List (String × Check)} (h : t.accepts row = true)
    (hnew : ∀ d ∈ t.columns, d.name ≠ c.name)
    (hdefault : c.notNull = true → c.default.isSome = true)
    (hchecks : ∀ k ∈ t.checks, c.name ∉ k.2.columns)
    (hcheck : ∀ k ∈ check, k.2.holds (Function.update row c.name c.default) = true) :
    TableDef.accepts { t with columns := t.columns ++ [c], checks := t.checks ++ check }
      (Function.update row c.name c.default) = true := by
  obtain ⟨hcolumns, hold⟩ := accepts_iff.mp h
  refine accepts_iff.mpr ⟨fun d hd hnull => ?_, fun k hk => ?_⟩
  · obtain hd | hd := List.mem_append.mp hd
    · rw [Function.update_of_ne (hnew d hd)]
      exact hcolumns d hd hnull
    · obtain rfl := List.mem_singleton.mp hd
      rw [Function.update_self]
      exact hdefault hnull
  · obtain hk | hk := List.mem_append.mp hk
    · refine (Check.holds_congr fun n hn => ?_).trans (hold k hk)
      have hne : n ≠ c.name := fun heq => hchecks k hk (heq ▸ hn)
      exact Function.update_of_ne hne _ _
    · exact hcheck k hk

/-- An index only reads its columns. -/
theorem Index.holds_map {i : Index} {rows : List Fields} {f : Fields → Fields}
    (h : ∀ row ∈ rows, ∀ n ∈ i.columns, f row n = row n) : i.holds (rows.map f) = i.holds rows := by
  unfold Index.holds
  unfold Index.columns at h
  cases hi : i.unique with
  | none => rfl
  | some u =>
      obtain ⟨columns, present⟩ := u
      rw [hi] at h
      simp only [Option.all_some, List.filter_map, List.map_map]
      have hfilter : (rows.filter ((fun row => (row present).isSome) ∘ f)) =
          rows.filter fun row => (row present).isSome :=
        List.filter_congr fun row hrow => by
          simp only [Function.comp_apply, h row hrow present List.mem_cons_self]
      rw [hfilter]
      congr 2
      refine List.map_congr_left fun row hrow => List.map_congr_left fun n hn => ?_
      exact h row (List.mem_of_mem_filter hrow) n (List.mem_cons_of_mem _ hn)

/-- Rows that have no value where a unique index needs one are not in it. -/
theorem Index.holds_of_absent {i : Index} {rows : List Fields}
    (h : ∀ columns present, i.unique = some (columns, present) → ∀ row ∈ rows, row present = none) :
    i.holds rows = true := by
  unfold Index.holds
  cases hi : i.unique with
  | none => rfl
  | some u =>
      have hnil : rows.filter (fun row => (row u.2).isSome) = [] :=
        List.filter_eq_nil_iff.mpr fun row hrow => by simp [h u.1 u.2 hi row hrow]
      simp [hnil]

end Checks

/-! ### What is predicted happens -/

section Sound

variable {db : Database} {p p' : Predicted} {st : Statement} {s : Schema} {name : String}

/-- The values in a column it does not set. -/
theorem Statement.column_apply {schema : Schema} {column : String}
    (hfresh : st.fresh db.schema name = false) (hwrites : st.writes name column = false) :
    (((st.apply db schema).rows name).map fun row => row column) =
      (db.rows name).map fun row => row column := by
  simp only [Statement.apply, hfresh, Bool.false_eq_true, if_false, List.map_map]
  refine List.map_congr_left fun row _ => ?_
  cases st with
  | addColumn table _ c _ =>
      simp only [Function.comp_apply, Statement.rewrite]
      split
      case isTrue hmine =>
        have hne : c.name ≠ column := by simpa [Statement.writes, hmine.1] using hwrites
        exact Function.update_of_ne hne.symm _ _
      case isFalse => rfl
  | update table c value where_ =>
      simp only [Function.comp_apply, Statement.rewrite]
      split
      case isTrue hmine =>
        have hne : c ≠ column := by simpa [Statement.writes, hmine.1] using hwrites
        exact Function.update_of_ne hne.symm _ _
      case isFalse => rfl
  | _ => rfl

/-- A table of the altered schema refers to what it did, or is new. -/
theorem Statement.alter_tables {schema : Schema} {t : TableDef} (halter : st.alter s = .ok schema)
    (ht : t ∈ schema.tables) :
    (∃ u ∈ s.tables, u.name = t.name ∧ u.references = t.references) ∨ st.fresh s t.name = true := by
  obtain rfl | ⟨u, rfl, hno, rfl⟩ | ⟨ifNotExists, i, rfl, rfl⟩ | ⟨v, hv, u, rfl, hname, hrefs, -⟩ :=
    Statement.alter_cases halter
  · exact .inl ⟨t, ht, rfl, rfl⟩
  · obtain hin | hin := List.mem_append.mp ht
    · exact .inl ⟨t, hin, rfl, rfl⟩
    · obtain rfl := List.mem_singleton.mp hin
      exact .inr (by simp [Statement.fresh, hno])
  · exact .inl ⟨t, ht, rfl, rfl⟩
  · obtain rfl | ⟨hin, -⟩ := Schema.mem_setTable ht
    · exact .inl ⟨v, hv, hname.symm, hrefs.symm⟩
    · exact .inl ⟨t, hin, rfl, rfl⟩

/-- **References hold on**, where the statement spares their columns. -/
theorem Statement.related_apply {schema : Schema} (halter : st.alter db.schema = .ok schema)
    (hspare : st.sparesReferences db.schema = true) (hrelated : db.related = true) :
    (st.apply db schema).related = true := by
  refine related_iff.mpr fun t ht r hr => ?_
  have hempty : st.fresh db.schema t.name = true →
      r.holds (st.apply db schema).rows t.name = true := fun hfresh => by
    simp [Reference.holds, Statement.apply, hfresh]
  obtain ⟨u, hu, hname, hreferences⟩ | hfresh := Statement.alter_tables halter ht
  · cases hfresh : st.fresh db.schema t.name with
    | true => exact hempty hfresh
    | false =>
        have hur : r ∈ u.references := hreferences ▸ hr
        have hsp := List.all_eq_true.mp (List.all_eq_true.mp hspare u hu) r hur
        simp only [Bool.and_eq_true, Bool.not_eq_true'] at hsp
        obtain ⟨⟨hcolumn, hkey⟩, htarget⟩ := hsp
        rw [hname] at hcolumn
        rw [Reference.holds_congr (Statement.column_apply hfresh hcolumn)
          (Statement.column_apply htarget hkey), ← hname]
        exact related_iff.mp hrelated u hu r hur
  · exact hempty hfresh

/-- The statement does nothing. -/
theorem Predicted.Fits.same (h : p.Fits db) (hrows : ∀ name, (st.apply db p.schema).rows name = db.rows name) :
    p.Fits (st.apply db p.schema) := by
  obtain ⟨hschema, hfits, hknown⟩ := h
  refine ⟨rfl, ?_, fun k hk row hrow => hknown k hk row (hrows _ ▸ hrow)⟩
  rw [valid_iff, hschema] at hfits
  rw [valid_iff]
  exact ⟨fun t ht row hrow => hfits.1 t ht row (hrows _ ▸ hrow), fun i hi => hrows _ ▸ hfits.2 i hi⟩

theorem fits_createTable {t : TableDef} {schema : Schema} (h : p.Fits db)
    (halter : (Statement.createTable t).alter p.schema = .ok schema) :
    Predicted.Fits ⟨schema, p.known⟩ ((Statement.createTable t).apply db schema) := by
  simp only [Statement.alter] at halter
  split_ifs at halter with hthere
  case pos =>
    cases halter
    refine h.same fun name => Statement.apply_rows ?_ fun _ _ => rfl
    obtain heq | hne := eq_or_ne t.name name
    · simp [Statement.fresh, h.schema, hthere]
    · simp [Statement.fresh, hne]
  case neg =>
    obtain rfl := Except.ok.inj halter
    have hno : p.schema.table? t.name = none := by simpa using hthere
    have hname : ∀ u ∈ p.schema.tables, u.name ≠ t.name := by
      simpa [Schema.table?] using hno
    set schema : Schema := ⟨p.schema.tables ++ [t], p.schema.indexes ++ t.keyIndex⟩
    have hkeep : ∀ name, name ≠ t.name →
        ((Statement.createTable t).apply db schema).rows name = db.rows name := fun name hne =>
      Statement.apply_rows (by simp [Statement.fresh, hne.symm]) fun _ _ => rfl
    have hempty : ((Statement.createTable t).apply db schema).rows t.name = [] := by
      simp [Statement.apply, Statement.fresh, h.schema, hno]
    obtain ⟨hschema, hfits, hknown⟩ := h
    rw [valid_iff, hschema] at hfits
    refine ⟨rfl, valid_iff.mpr ⟨fun u hu row hrow => ?_, fun i hi => ?_⟩, fun k hk row hrow => ?_⟩
    · obtain hu | hu := List.mem_append.mp hu
      · rw [hkeep _ (hname u hu)] at hrow
        exact hfits.1 u hu row hrow
      · obtain rfl := List.mem_singleton.mp hu
        rw [hempty] at hrow
        cases hrow
    · obtain heq | hne := eq_or_ne i.table t.name
      · rw [heq, hempty]
        exact Index.holds_of_absent fun _ _ _ _ hrow => (List.not_mem_nil hrow).elim
      · obtain hi | hi := List.mem_append.mp hi
        · rw [hkeep _ hne]
          exact hfits.2 i hi
        · exact absurd (TableDef.table_keyIndex hi) hne
    · obtain heq | hne := eq_or_ne k.1.1 t.name
      · rw [heq, hempty] at hrow
        cases hrow
      · rw [hkeep _ hne] at hrow
        exact hknown k hk row hrow

theorem fits_createIndex {ifNotExists : Bool} {i : Index} {schema : Schema} (h : p.Fits db)
    (hok : (Statement.createIndex ifNotExists i).permitted p = true)
    (halter : (Statement.createIndex ifNotExists i).alter p.schema = .ok schema) :
    Predicted.Fits ⟨schema, p.known⟩ ((Statement.createIndex ifNotExists i).apply db schema) := by
  have hrows : ∀ schema name,
      ((Statement.createIndex ifNotExists i).apply db schema).rows name = db.rows name :=
    fun _ name => Statement.apply_rows rfl fun _ _ => rfl
  simp only [Statement.alter] at halter
  split at halter
  case isTrue =>
    split at halter
    case isTrue =>
      cases halter
      exact h.same fun name => hrows _ name
    case isFalse => cases halter
  case isFalse hnew =>
    split at halter
    case isTrue => cases halter
    case isFalse =>
      cases halter
      obtain ⟨hschema, hfits, hknown⟩ := h
      rw [valid_iff, hschema] at hfits
      refine ⟨rfl, valid_iff.mpr ⟨fun u hu row hrow => ?_, fun j hj => ?_⟩, fun k hk row hrow => ?_⟩
      · exact hfits.1 u hu row (hrows _ _ ▸ hrow)
      · rw [hrows]
        obtain hj | hj := List.mem_append.mp hj
        · exact hfits.2 j hj
        · obtain rfl := List.mem_singleton.mp hj
          -- no row is in the index yet
          refine Index.holds_of_absent fun columns present hunique row hrow => ?_
          simp only [Statement.permitted, hnew, Bool.false_eq_true, Bool.or_eq_true, false_or, hunique,
            Option.all_some, List.any_eq_true, Bool.and_eq_true, decide_eq_true_eq,
            List.all_eq_true] at hok
          obtain ⟨k, hk, hkey, hnone⟩ := hok
          have hin := hknown k hk row (hkey ▸ hrow)
          rw [hkey] at hin
          exact Option.isNone_iff_eq_none.mp (hnone _ hin)
      · exact hknown k hk row (hrows _ _ ▸ hrow)

/-- The column is new: no check and no index reads it but its own. -/
theorem fits_newColumn {table : String} {ifNotExists : Bool} {c : Column}
    {check : List (String × Check)} {t : TableDef} (h : p.Fits db) (ht : p.schema.table? table = some t)
    (hnew : ¬ (t.columns.any fun d => d.name = c.name) = true)
    (hok : (Statement.addColumn table ifNotExists c check).permitted p = true) :
    Predicted.Fits
      ⟨p.schema.setTable { t with columns := t.columns ++ [c], checks := t.checks ++ check },
        (Statement.addColumn table ifNotExists c check).learn p⟩
      ((Statement.addColumn table ifNotExists c check).apply db
        (p.schema.setTable { t with columns := t.columns ++ [c], checks := t.checks ++ check })) := by
  have hnew' : (t.columns.any fun d => d.name = c.name) = false := by simpa using hnew
  obtain ⟨htmem, rfl⟩ := Schema.name_of_table? ht
  simp only [Statement.permitted, ht, hnew', Option.all_some, Bool.false_or, Bool.and_eq_true,
    Bool.or_eq_true, Bool.not_eq_true', List.all_eq_true, decide_eq_true_eq] at hok
  obtain ⟨⟨⟨hdefault, hchecks⟩, hindexes⟩, hcheck⟩ := hok
  obtain ⟨hschema, hfits, hknown⟩ := h
  rw [valid_iff, hschema] at hfits
  set schema := p.schema.setTable { t with columns := t.columns ++ [c], checks := t.checks ++ check }
  have hmine : ((Statement.addColumn t.name ifNotExists c check).apply db schema).rows t.name =
      (db.rows t.name).map fun row => Function.update row c.name c.default := by
    simp [Statement.apply, Statement.fresh, Statement.rewrite, hschema, ht, hnew']
  have hother : ∀ name, name ≠ t.name →
      ((Statement.addColumn t.name ifNotExists c check).apply db schema).rows name = db.rows name :=
    fun name hne => Statement.apply_rows rfl fun row _ => by simp [Statement.rewrite, hne.symm]
  refine ⟨rfl, valid_iff.mpr ⟨fun u hu row hrow => ?_, fun i hi => ?_⟩, fun k hk row hrow => ?_⟩
  · obtain rfl | ⟨hu, hne⟩ := Schema.mem_setTable hu
    · rw [hmine] at hrow
      obtain ⟨row, hin, rfl⟩ := List.mem_map.mp hrow
      have hfresh : ∀ d ∈ t.columns, d.name ≠ c.name := by
        simpa only [List.any_eq_false, decide_eq_true_eq] using hnew'
      refine accepts_newColumn (hfits.1 t htmem row hin) hfresh
        (fun hnull => hdefault.resolve_left (by simp [hnull])) hchecks fun k hk => ?_
      refine Check.holds_of_admits (hcheck k hk) fun k' hk' _ => ?_
      obtain rfl := List.mem_singleton.mp hk'
      simp
    · rw [hother _ hne] at hrow
      exact hfits.1 u hu row hrow
  · obtain heq | hne := eq_or_ne i.table t.name
    · rw [heq, hmine, Index.holds_map, ← heq]
      · exact hfits.2 i hi
      · intro row _ n hn
        have hcolumn := (hindexes i hi).resolve_left (by simp [heq])
        have hne : n ≠ c.name := fun heq => hcolumn (heq ▸ hn)
        exact Function.update_of_ne hne _ _
    · rw [hother _ hne]
      exact hfits.2 i hi
  · simp only [Statement.learn, ht, Option.any_some, hnew', Bool.not_false, if_true, List.mem_cons,
      List.mem_filter, decide_eq_true_eq] at hk
    obtain rfl | ⟨hk, hkey⟩ := hk
    · rw [hmine] at hrow
      obtain ⟨row, -, rfl⟩ := List.mem_map.mp hrow
      simp
    · obtain heq | hne := eq_or_ne k.1.1 t.name
      · rw [heq, hmine] at hrow
        obtain ⟨row, hin, rfl⟩ := List.mem_map.mp hrow
        have hne : k.1.2 ≠ c.name := fun h₂ => hkey (Prod.ext heq h₂)
        rw [Function.update_of_ne hne]
        exact hknown k hk row (heq ▸ hin)
      · rw [hother _ hne] at hrow
        exact hknown k hk row hrow

theorem fits_addColumn {table : String} {ifNotExists : Bool} {c : Column} {check : List (String × Check)}
    {schema : Schema} (h : p.Fits db)
    (hok : (Statement.addColumn table ifNotExists c check).permitted p = true)
    (halter : (Statement.addColumn table ifNotExists c check).alter p.schema = .ok schema) :
    Predicted.Fits ⟨schema, (Statement.addColumn table ifNotExists c check).learn p⟩
      ((Statement.addColumn table ifNotExists c check).apply db schema) := by
  simp only [Statement.alter] at halter
  split at halter
  case h_1 => cases halter
  case h_2 t ht =>
    split at halter
    case isTrue hthere =>
      have hlearn : (Statement.addColumn table ifNotExists c check).learn p = p.known := by
        simp [Statement.learn, ht, hthere]
      split at halter
      case isFalse => cases halter
      case isTrue =>
        cases halter
        rw [hlearn]
        exact h.same fun name => Statement.apply_rows rfl fun row _ => by
          simp [Statement.rewrite, h.schema, ht, hthere]
    case isFalse hnew =>
      split at halter
      case isTrue => cases halter
      case isFalse =>
        cases halter
        exact fits_newColumn h ht hnew hok

theorem fits_dropConstraint {table name : String} {schema : Schema} (h : p.Fits db)
    (halter : (Statement.dropConstraint table name).alter p.schema = .ok schema) :
    Predicted.Fits ⟨schema, (Statement.dropConstraint table name).learn p⟩
      ((Statement.dropConstraint table name).apply db schema) := by
  have hrows : ∀ schema n,
      ((Statement.dropConstraint table name).apply db schema).rows n = db.rows n :=
    fun _ n => Statement.apply_rows rfl fun _ _ => rfl
  simp only [Statement.alter] at halter
  split at halter
  case h_1 => cases halter
  case h_2 t ht =>
    cases halter
    obtain ⟨htmem, rfl⟩ := Schema.name_of_table? ht
    obtain ⟨hschema, hfits, hknown⟩ := h
    rw [valid_iff, hschema] at hfits
    refine ⟨rfl, valid_iff.mpr ⟨fun u hu row hrow => ?_, fun i hi => ?_⟩, fun k hk row hrow => ?_⟩
    · rw [hrows] at hrow
      obtain rfl | ⟨hu, -⟩ := Schema.mem_setTable hu
      · obtain ⟨hcolumns, hchecks⟩ := accepts_iff.mp (hfits.1 t htmem row hrow)
        exact accepts_iff.mpr ⟨hcolumns, fun k hk => hchecks k (List.mem_of_mem_filter hk)⟩
      · exact hfits.1 u hu row hrow
    · rw [hrows]
      exact hfits.2 i hi
    · rw [hrows] at hrow
      simp only [Statement.learn, ht, Option.elim_some] at hk
      obtain hk | hk := List.mem_append.mp hk
      · obtain ⟨⟨n, check⟩, hc, hsome⟩ := List.mem_filterMap.mp hk
        cases check with
        | needs column other => cases hsome
        | oneOf column values =>
            simp only [Option.ite_none_right_eq_some, Option.some.injEq] at hsome
            obtain ⟨-, rfl⟩ := hsome
            -- the rows met the check until now
            have hold := (accepts_iff.mp (hfits.1 t htmem row hrow)).2 _ hc
            cases hv : row column with
            | none => exact List.mem_cons_self
            | some v =>
                rw [Check.holds, hv, Option.all_some, decide_eq_true_eq] at hold
                exact List.mem_cons_of_mem _ (List.mem_map_of_mem hold)
      · exact hknown k hk row hrow

theorem fits_addConstraint {table name : String} {check : Check} {schema : Schema} (h : p.Fits db)
    (hok : (Statement.addConstraint table name check).permitted p = true)
    (halter : (Statement.addConstraint table name check).alter p.schema = .ok schema) :
    Predicted.Fits ⟨schema, p.known⟩ ((Statement.addConstraint table name check).apply db schema) := by
  have hrows : ∀ schema n,
      ((Statement.addConstraint table name check).apply db schema).rows n = db.rows n :=
    fun _ n => Statement.apply_rows rfl fun _ _ => rfl
  simp only [Statement.alter] at halter
  split at halter
  case h_1 => cases halter
  case h_2 t ht =>
    split at halter
    case isTrue => cases halter
    case isFalse =>
      cases halter
      obtain ⟨htmem, rfl⟩ := Schema.name_of_table? ht
      obtain ⟨hschema, hfits, hknown⟩ := h
      rw [valid_iff, hschema] at hfits
      refine ⟨rfl, valid_iff.mpr ⟨fun u hu row hrow => ?_, fun i hi => ?_⟩, fun k hk row hrow => ?_⟩
      · rw [hrows] at hrow
        obtain rfl | ⟨hu, -⟩ := Schema.mem_setTable hu
        · obtain ⟨hcolumns, hchecks⟩ := accepts_iff.mp (hfits.1 t htmem row hrow)
          refine accepts_iff.mpr ⟨hcolumns, fun k hk => ?_⟩
          obtain hk | hk := List.mem_append.mp hk
          · exact hchecks k hk
          · obtain rfl := List.mem_singleton.mp hk
            exact Check.holds_of_admits hok fun k hk hkey => hknown k hk row (hkey ▸ hrow)
        · exact hfits.1 u hu row hrow
      · rw [hrows]
        exact hfits.2 i hi
      · exact hknown k hk row (hrows _ _ ▸ hrow)

theorem fits_update {table column value : String} {where_ : List (String × List String)}
    {schema : Schema} (h : p.Fits db)
    (hok : (Statement.update table column value where_).permitted p = true)
    (halter : (Statement.update table column value where_).alter p.schema = .ok schema) :
    Predicted.Fits ⟨schema, (Statement.update table column value where_).learn p⟩
      ((Statement.update table column value where_).apply db schema) := by
  simp only [Statement.alter] at halter
  split at halter
  case isTrue => cases halter
  case isFalse =>
    cases halter
    simp only [Statement.permitted, Bool.and_eq_true, List.all_eq_true, Bool.or_eq_true,
      decide_eq_true_eq] at hok
    obtain ⟨hchecks, hindexes⟩ := hok
    obtain ⟨hschema, hfits, hknown⟩ := h
    rw [valid_iff, hschema] at hfits
    have hother : ∀ name, name ≠ table →
        ((Statement.update table column value where_).apply db p.schema).rows name = db.rows name :=
      fun name hne => Statement.apply_rows rfl fun row _ => by simp [Statement.rewrite, hne.symm]
    -- a row of the table is as it was, or has the value set
    have hmine : ∀ row ∈ ((Statement.update table column value where_).apply db p.schema).rows table,
        ∃ old ∈ db.rows table, row = old ∨ row = Function.update old column (some value) := by
      intro row hrow
      obtain ⟨old, hold, rfl⟩ := List.mem_map.mp hrow
      refine ⟨old, hold, ?_⟩
      simp only [Statement.rewrite]
      split
      · exact .inr rfl
      · exact .inl rfl
    refine ⟨rfl, valid_iff.mpr ⟨fun u hu row hrow => ?_, fun i hi => ?_⟩, fun k hk row hrow => ?_⟩
    · obtain heq | hne := eq_or_ne u.name table
      · obtain ⟨old, hin, rfl | rfl⟩ := hmine row (heq ▸ hrow)
        · exact hfits.1 u hu _ (heq ▸ hin)
        · exact accepts_update (hfits.1 u hu old (heq ▸ hin))
            ((hchecks u hu).resolve_left (by simp [heq]))
      · exact hfits.1 u hu row (hother _ hne ▸ hrow)
    · obtain heq | hne := eq_or_ne i.table table
      · have hcolumn := (hindexes i hi).resolve_left (by simp [heq])
        rw [show (Statement.apply (.update table column value where_) db p.schema).rows i.table =
          (db.rows i.table).map fun row =>
            Statement.rewrite db.schema i.table row (.update table column value where_) from rfl,
          Index.holds_map]
        · exact hfits.2 i hi
        · intro row _ n hn
          have hne : n ≠ column := fun heq => hcolumn (heq ▸ hn)
          simp only [Statement.rewrite]
          split
          · exact Function.update_of_ne hne _ _
          · rfl
      · rw [hother _ hne]
        exact hfits.2 i hi
    · obtain ⟨k, hin, rfl⟩ := List.mem_map.mp hk
      have hk := hknown k hin
      obtain heq | hne := eq_or_ne k.1 (table, column)
      · rw [if_pos heq] at hrow ⊢
        simp only [heq] at hrow ⊢
        obtain ⟨old, hin, rfl | rfl⟩ := hmine row hrow
        · have hold := hk _ (by rw [heq]; exact hin)
          rw [heq] at hold
          exact List.mem_cons_of_mem _ hold
        · rw [Function.update_self]
          exact List.mem_cons_self
      · rw [if_neg hne] at hrow ⊢
        obtain heq | hne' := eq_or_ne k.1.1 table
        · obtain ⟨old, hin, rfl | rfl⟩ := hmine row (heq ▸ hrow)
          · exact hk _ (heq ▸ hin)
          · have hcol : k.1.2 ≠ column := fun h₂ => hne (Prod.ext heq h₂)
            rw [Function.update_of_ne hcol]
            exact hk old (heq ▸ hin)
        · exact hk row (hother _ hne' ▸ hrow)

/-- **What is predicted happens**, whatever the rows are. -/
theorem Statement.sound (h : p.Fits db) (hrelated : db.related = true) (hp : st.predict p = some p') :
    ∃ db', st.run db = .ok db' ∧ p'.Fits db' ∧ db'.related = true := by
  unfold Statement.predict at hp
  split at hp
  case h_1 => cases hp
  case h_2 schema halter =>
    rw [Option.ite_none_right_eq_some, Option.some.injEq, Bool.and_eq_true_iff] at hp
    obtain ⟨⟨hok, hspare⟩, rfl⟩ := hp
    have hfits : Predicted.Fits ⟨schema, st.learn p⟩ (st.apply db schema) := by
      cases st with
      | createTable t => exact fits_createTable h halter
      | createIndex ifNotExists i => exact fits_createIndex h hok halter
      | addColumn table ifNotExists c check => exact fits_addColumn h hok halter
      | dropConstraint table name => exact fits_dropConstraint h halter
      | addConstraint table name check => exact fits_addConstraint h hok halter
      | update table column value where_ => exact fits_update h hok halter
    rw [← h.schema] at halter hspare
    have hrelated' := Statement.related_apply halter hspare hrelated
    exact ⟨_, Statement.run_eq halter (fits_iff.mpr ⟨hfits.valid, hrelated'⟩), hfits, hrelated'⟩

/-- A migration predicted statement by statement. -/
def predictAll (l : List Statement) (p : Predicted) : Option Predicted :=
  l.foldlM (fun p st => st.predict p) p

/-- **A predicted migration goes through.** -/
theorem migrate_sound {l : List Statement} (h : p.Fits db) (hrelated : db.related = true)
    (hp : predictAll l p = some p') :
    ∃ db', migrate l db = .ok db' ∧ p'.Fits db' ∧ db'.related = true := by
  induction l generalizing p db with
  | nil =>
      obtain rfl := Option.some.inj hp
      exact ⟨db, rfl, h, hrelated⟩
  | cons st l ih =>
      rw [predictAll, List.foldlM_cons] at hp
      obtain ⟨q, hst, hrest⟩ := Option.bind_eq_some_iff.mp hp
      obtain ⟨db₁, hrun, h₁, hrelated₁⟩ := Statement.sound h hrelated hst
      obtain ⟨db', hmigrate, h'⟩ := ih h₁ hrelated₁ hrest
      refine ⟨db', ?_, h'⟩
      rw [migrate, List.foldlM_cons, hrun]
      exact hmigrate

end Sound

end Vemsa.Support
