import Mathlib

/-!
# Support — Schemas

Tables with columns, keys, checks, references and indexes, rows that meet them, and the statements that
change a schema under its rows.  A statement that leaves a row its table does not accept fails.

* `migrate_frame`: what a migration does not lock, it leaves as it is.
* `fits_setRows`: rows that others commit to tables it does not lock fit what it sees.
* `migrate_noop`: a migration that finds everything there changes nothing.
-/

namespace Vemsa.Support

/-! ### Schemas and rows -/

structure Column where
  name : String
  notNull : Bool := false
  /-- what existing rows get when the column is added -/
  default : Option String := none
  deriving DecidableEq

/-- A `CHECK` clause; `NULL` is not false. -/
inductive Check where
  /-- `column IN (…)` -/
  | oneOf (column : String) (values : List String)
  /-- `column IS NULL OR other IS NOT NULL` -/
  | needs (column other : String)
  deriving DecidableEq

/-- `column REFERENCES target(key)` -/
structure Reference where
  column : String
  target : String
  key : String
  deriving DecidableEq

structure TableDef where
  name : String
  columns : List Column
  checks : List (String × Check) := []
  primaryKey : List String
  references : List Reference := []
  deriving DecidableEq

/-- An index; a unique one takes the rows where `present` is not `NULL`. -/
structure Index where
  name : String
  table : String
  unique : Option (List String × String) := none
  deriving DecidableEq

structure Schema where
  tables : List TableDef
  indexes : List Index
  deriving DecidableEq

/-- The columns of a row, as text. -/
abbrev Fields : Type := String → Option String

structure Database where
  schema : Schema
  rows : String → List Fields

def Check.holds (row : Fields) : Check → Bool
  | oneOf column values => (row column).all (· ∈ values)
  | needs column other => (row column).isNone || (row other).isSome

/-- The index of the primary key. -/
def TableDef.keyIndex (t : TableDef) : List Index :=
  match t.primaryKey with
  | [] => []
  | column :: columns =>
    [{ name := t.name ++ "_pkey", table := t.name, unique := some (column :: columns, column) }]

/-- Every value of the column but `NULL` is one of the key. -/
def Reference.holds (rows : String → List Fields) (table : String) (r : Reference) : Bool :=
  ((rows table).map fun row => row r.column).all fun v =>
    v.isNone || v ∈ (rows r.target).map fun row => row r.key

def TableDef.accepts (t : TableDef) (row : Fields) : Bool :=
  (t.columns.all fun c => !c.notNull || (row c.name).isSome) && t.checks.all fun k => k.2.holds row

def Index.holds (rows : List Fields) (i : Index) : Bool :=
  i.unique.all fun (columns, present) =>
    decide ((rows.filter fun row => (row present).isSome).map fun row => columns.map row).Nodup

/-- Every row is one its table accepts, and no key comes twice. -/
def Database.valid (db : Database) : Bool :=
  (db.schema.tables.all fun t => (db.rows t.name).all t.accepts) &&
    db.schema.indexes.all fun i => i.holds (db.rows i.table)

/-- What is referred to is there. -/
def Database.related (db : Database) : Bool :=
  db.schema.tables.all fun t => t.references.all fun r => r.holds db.rows t.name

def Database.fits (db : Database) : Bool := db.valid && db.related

/-! ### Statements -/

inductive Statement where
  /-- `CREATE TABLE IF NOT EXISTS` -/
  | createTable (t : TableDef)
  /-- `CREATE INDEX` -/
  | createIndex (ifNotExists : Bool) (i : Index)
  /-- `ALTER TABLE … ADD COLUMN`, with the check the column may carry -/
  | addColumn (table : String) (ifNotExists : Bool) (c : Column) (check : List (String × Check))
  /-- `ALTER TABLE … DROP CONSTRAINT IF EXISTS` -/
  | dropConstraint (table name : String)
  /-- `ALTER TABLE … ADD CONSTRAINT … CHECK` -/
  | addConstraint (table name : String) (check : Check)
  /-- `UPDATE … SET column = value WHERE`, each of some columns is one of some values -/
  | update (table column value : String) (where_ : List (String × List String))

inductive SqlError where
  | undefinedTable
  | duplicateTable
  | duplicateColumn
  | duplicateObject
  | violation
  /-- the transaction waits for one that waits for it -/
  | deadlock
  deriving DecidableEq

def Schema.table? (s : Schema) (name : String) : Option TableDef :=
  s.tables.find? fun t => t.name = name

def Schema.setTable (s : Schema) (t : TableDef) : Schema :=
  { s with tables := s.tables.map fun u => if u.name = t.name then t else u }

namespace Statement

/-- What a statement makes of the schema. -/
def alter (s : Schema) : Statement → Except SqlError Schema
  | createTable t =>
    if (s.table? t.name).isSome then .ok s
    else if t.references.any fun r => r.target ≠ t.name && (s.table? r.target).isNone then
      .error .undefinedTable
    else .ok { tables := s.tables ++ [t], indexes := s.indexes ++ t.keyIndex }
  | createIndex ifNotExists i =>
    if s.indexes.any fun j => j.name = i.name then if ifNotExists then .ok s else .error .duplicateTable
    else if (s.table? i.table).isNone then .error .undefinedTable
    else .ok { s with indexes := s.indexes ++ [i] }
  | addColumn table ifNotExists c check =>
    match s.table? table with
    | none => .error .undefinedTable
    | some t =>
      if t.columns.any fun d => d.name = c.name then
        if ifNotExists then .ok s else .error .duplicateColumn
      else if t.checks.any fun k => check.any fun l => l.1 = k.1 then .error .duplicateObject
      else .ok (s.setTable { t with columns := t.columns ++ [c], checks := t.checks ++ check })
  | dropConstraint table name =>
    match s.table? table with
    | none => .error .undefinedTable
    | some t => .ok (s.setTable { t with checks := t.checks.filter fun k => k.1 ≠ name })
  | addConstraint table name check =>
    match s.table? table with
    | none => .error .undefinedTable
    | some t =>
      if t.checks.any fun k => k.1 = name then .error .duplicateObject
      else .ok (s.setTable { t with checks := t.checks ++ [(name, check)] })
  | update table .. => if (s.table? table).isNone then .error .undefinedTable else .ok s

/-- What it makes of the rows of a table that stays. -/
def rewrite (s : Schema) (name : String) (row : Fields) : Statement → Fields
  | addColumn table _ c _ =>
    if table = name ∧ (s.table? table).any fun t => !t.columns.any fun d => d.name = c.name then
      Function.update row c.name c.default
    else row
  | update table column value where_ =>
    if table = name ∧ where_.all fun (c, values) => (row c).any (· ∈ values) then
      Function.update row column (some value)
    else row
  | _ => row

/-- A table that is created has no rows. -/
def fresh (s : Schema) (name : String) : Statement → Bool
  | createTable t => t.name = name && (s.table? t.name).isNone
  | _ => false

/-- It sets this column of this table. -/
def writes (table column : String) : Statement → Bool
  | addColumn t _ c _ => t = table && c.name = column
  | update t c .. => t = table && c = column
  | _ => false

/-- The tables it locks against writers until its transaction ends.  An `UPDATE` only locks its rows;
its table is listed. -/
def locks (s : Schema) : Statement → List String
  | createTable t =>
    if (s.table? t.name).isSome then [] else t.name :: t.references.map Reference.target
  | createIndex _ i => [i.table]
  | addColumn table .. | dropConstraint table _ | addConstraint table .. | update table .. => [table]

/-- The rows under the altered schema. -/
def apply (st : Statement) (db : Database) (schema : Schema) : Database where
  schema := schema
  rows name :=
    if st.fresh db.schema name then [] else (db.rows name).map fun row => st.rewrite db.schema name row

def run (st : Statement) (db : Database) : Except SqlError Database :=
  match st.alter db.schema with
  | .error e => .error e
  | .ok schema =>
    if (st.apply db schema).fits then .ok (st.apply db schema) else .error .violation

end Statement

/-- The statements of a migration, in order. -/
def migrate (l : List Statement) (db : Database) : Except SqlError Database :=
  l.foldlM (fun db st => st.run db) db

/-- What they lock, on the way. -/
def migrationLocks : List Statement → Schema → List String
  | [], _ => []
  | st :: l, s =>
    st.locks s ++
      match st.alter s with
      | .error _ => []
      | .ok s' => migrationLocks l s'

/-! ### What others see and write -/

/-- What there is of a table. -/
def Database.view (db : Database) (name : String) : List Fields × List TableDef × List Index :=
  (db.rows name, db.schema.tables.filter fun t => t.name = name,
    db.schema.indexes.filter fun i => i.table = name)

/-- Other rows in some tables. -/
def Database.setRows (db : Database) (tables : List String) (rows : String → List Fields) : Database where
  schema := db.schema
  rows name := if name ∈ tables then rows name else db.rows name

/-- A table, those it refers to and those that refer to it. -/
def Schema.joined (s : Schema) (name : String) : List String :=
  name :: ((s.tables.filter fun t => t.name = name).flatMap fun t => t.references.map Reference.target) ++
    (s.tables.filter fun t => t.references.any fun r => r.target = name).map TableDef.name

/-! ### Later schemas -/

/-- It only adds columns, and those may be left out of an `INSERT`. -/
def Schema.Extends (s s' : Schema) : Prop :=
  ∀ t ∈ s.tables, ∃ t' ∈ s'.tables, t'.name = t.name ∧ t.columns <+: t'.columns ∧
    ∀ c ∈ t'.columns, c ∉ t.columns → c.notNull = false ∨ c.default.isSome = true

instance (s s' : Schema) : Decidable (Schema.Extends s s') :=
  inferInstanceAs (Decidable (∀ t ∈ s.tables, ∃ t' ∈ s'.tables, t'.name = t.name ∧
    t.columns <+: t'.columns ∧
    ∀ c ∈ t'.columns, c ∉ t.columns → c.notNull = false ∨ c.default.isSome = true))

/-- A table of the schema has the columns. -/
def Schema.Offers (s : Schema) (table : String) (columns : List String) : Prop :=
  ∃ t ∈ s.tables, t.name = table ∧ ∀ n ∈ columns, ∃ c ∈ t.columns, c.name = n

instance (s : Schema) (table : String) (columns : List String) : Decidable (s.Offers table columns) :=
  inferInstanceAs (Decidable (∃ t ∈ s.tables, t.name = table ∧ ∀ n ∈ columns, ∃ c ∈ t.columns, c.name = n))

theorem Schema.Offers.extends {s s' : Schema} {table : String} {columns : List String}
    (h : s.Offers table columns) (hs : Schema.Extends s s') : s'.Offers table columns := by
  obtain ⟨t, ht, rfl, hcolumns⟩ := h
  obtain ⟨t', ht', hname, hprefix, -⟩ := hs t ht
  refine ⟨t', ht', hname, fun n hn => ?_⟩
  obtain ⟨c, hc, hcn⟩ := hcolumns n hn
  exact ⟨c, hprefix.subset hc, hcn⟩

/-! ### Rows and statements -/

section Rows

variable {row : Fields} {t : TableDef} {db : Database} {st : Statement} {s : Schema} {name : String}

theorem accepts_iff : t.accepts row = true ↔
    (∀ c ∈ t.columns, c.notNull = true → (row c.name).isSome = true) ∧
      ∀ k ∈ t.checks, k.2.holds row = true := by
  simp only [TableDef.accepts, Bool.and_eq_true, List.all_eq_true, Bool.or_eq_true,
    Bool.not_eq_true', ← Bool.not_eq_true, imp_iff_not_or]

theorem valid_iff : db.valid = true ↔
    (∀ t ∈ db.schema.tables, ∀ row ∈ db.rows t.name, t.accepts row = true) ∧
      ∀ i ∈ db.schema.indexes, i.holds (db.rows i.table) = true := by
  simp only [Database.valid, Bool.and_eq_true, List.all_eq_true]

theorem related_iff : db.related = true ↔
    ∀ t ∈ db.schema.tables, ∀ r ∈ t.references, r.holds db.rows t.name = true := by
  simp only [Database.related, List.all_eq_true]

theorem fits_iff : db.fits = true ↔ db.valid = true ∧ db.related = true := Bool.and_eq_true_iff

/-- A reference only reads two columns. -/
theorem Reference.holds_congr {rows rows' : String → List Fields} {table : String} {r : Reference}
    (hcolumn : ((rows' table).map fun row => row r.column) = (rows table).map fun row => row r.column)
    (hkey : ((rows' r.target).map fun row => row r.key) = (rows r.target).map fun row => row r.key) :
    r.holds rows' table = r.holds rows table := by
  rw [Reference.holds, hcolumn, hkey, Reference.holds]

theorem Schema.name_of_table? {t : TableDef} (h : s.table? name = some t) :
    t ∈ s.tables ∧ t.name = name :=
  ⟨List.mem_of_find?_eq_some h, by simpa using List.find?_some h⟩

theorem Schema.mem_setTable {t u : TableDef} (h : u ∈ (s.setTable t).tables) :
    u = t ∨ u ∈ s.tables ∧ u.name ≠ t.name := by
  obtain ⟨v, hv, rfl⟩ := List.mem_map.mp h
  split
  case isTrue => exact .inl rfl
  case isFalse hne => exact .inr ⟨hv, hne⟩

/-- The rows of a table that a statement neither creates nor rewrites. -/
theorem Statement.apply_rows {schema : Schema} (hfresh : st.fresh db.schema name = false)
    (hrow : ∀ row ∈ db.rows name, st.rewrite db.schema name row = row) :
    (st.apply db schema).rows name = db.rows name := by
  simp only [Statement.apply, hfresh, Bool.false_eq_true, if_false]
  exact (List.map_congr_left hrow).trans (List.map_id' _)

theorem TableDef.table_keyIndex {t : TableDef} {i : Index} (h : i ∈ t.keyIndex) : i.table = t.name := by
  unfold TableDef.keyIndex at h
  split at h
  · cases h
  · obtain rfl := List.mem_singleton.mp h
    rfl

/-- **What a statement makes of the schema**: nothing, a table more, an index more, or another table in
the place of one, of the same name and with the same references. -/
theorem Statement.alter_cases {schema : Schema} (halter : st.alter s = .ok schema) :
    schema = s ∨
    (∃ t, st = .createTable t ∧ s.table? t.name = none ∧
      schema = ⟨s.tables ++ [t], s.indexes ++ t.keyIndex⟩) ∨
    (∃ ifNotExists i, st = .createIndex ifNotExists i ∧
      schema = { s with indexes := s.indexes ++ [i] }) ∨
    ∃ t ∈ s.tables, ∃ u : TableDef, schema = s.setTable u ∧ u.name = t.name ∧
      u.references = t.references ∧ st.locks s = [t.name] := by
  cases st with
  | createTable t =>
      simp only [Statement.alter] at halter
      split_ifs at halter with hthere
      case pos => exact .inl (Except.ok.inj halter).symm
      case neg => exact .inr (.inl ⟨t, rfl, by simpa using hthere, (Except.ok.inj halter).symm⟩)
  | createIndex ifNotExists i =>
      simp only [Statement.alter] at halter
      split_ifs at halter
      · exact .inl (Except.ok.inj halter).symm
      · exact .inr (.inr (.inl ⟨ifNotExists, i, rfl, (Except.ok.inj halter).symm⟩))
  | addColumn table ifNotExists c check =>
      simp only [Statement.alter] at halter
      split at halter
      case h_1 => cases halter
      case h_2 t ht =>
        obtain ⟨hin, rfl⟩ := Schema.name_of_table? ht
        split_ifs at halter
        · exact .inl (Except.ok.inj halter).symm
        · exact .inr (.inr (.inr ⟨t, hin, _, (Except.ok.inj halter).symm, rfl, rfl, rfl⟩))
  | dropConstraint table n =>
      simp only [Statement.alter] at halter
      split at halter
      case h_1 => cases halter
      case h_2 t ht =>
        obtain ⟨hin, rfl⟩ := Schema.name_of_table? ht
        exact .inr (.inr (.inr ⟨t, hin, _, (Except.ok.inj halter).symm, rfl, rfl, rfl⟩))
  | addConstraint table n check =>
      simp only [Statement.alter] at halter
      split at halter
      case h_1 => cases halter
      case h_2 t ht =>
        obtain ⟨hin, rfl⟩ := Schema.name_of_table? ht
        split_ifs at halter
        exact .inr (.inr (.inr ⟨t, hin, _, (Except.ok.inj halter).symm, rfl, rfl, rfl⟩))
  | update table column value where_ =>
      simp only [Statement.alter] at halter
      split_ifs at halter
      exact .inl (Except.ok.inj halter).symm

/-- It is enough that what comes out fits. -/
theorem Statement.run_eq {schema : Schema} (halter : st.alter db.schema = .ok schema)
    (hfits : (st.apply db schema).fits = true) : st.run db = .ok (st.apply db schema) := by
  simp only [Statement.run, halter, hfits, if_true]

theorem Statement.alter_of_run {db' : Database} (h : st.run db = .ok db') :
    st.alter db.schema = .ok db'.schema := by
  unfold Statement.run at h
  split at h
  case h_1 => cases h
  case h_2 schema halter =>
    split_ifs at h
    obtain rfl := Except.ok.inj h
    exact halter

/-! ### Nothing to do -/

/-- A statement that finds what it would create. -/
def Statement.isNoop (s : Schema) : Statement → Bool
  | createTable t => (s.table? t.name).isSome
  | createIndex ifNotExists i => ifNotExists && s.indexes.any fun j => j.name = i.name
  | _ => false

theorem Statement.run_noop (hfits : db.fits = true) (hnoop : st.isNoop db.schema = true) :
    st.run db = .ok db := by
  have hsame : st.alter db.schema = .ok db.schema ∧ ∀ name, (st.apply db db.schema).rows name = db.rows name := by
    cases st with
    | createTable t =>
        refine ⟨if_pos hnoop, fun name => Statement.apply_rows ?_ fun _ _ => rfl⟩
        obtain rfl | hne := eq_or_ne t.name name
        · have hthere : (db.schema.table? t.name).isSome = true := hnoop
          simp [Statement.fresh, hthere]
        · simp [Statement.fresh, hne]
    | createIndex ifNotExists i =>
        obtain ⟨hif, hthere⟩ := Bool.and_eq_true_iff.mp hnoop
        exact ⟨by simp only [Statement.alter, hthere, hif, if_true], fun name =>
          Statement.apply_rows rfl fun _ _ => rfl⟩
    | _ => cases hnoop
  have happly : st.apply db db.schema = db := by
    obtain ⟨schema, rows⟩ := db
    exact congrArg (Database.mk schema) (funext hsame.2)
  rw [Statement.run_eq hsame.1 (happly.symm ▸ hfits), happly]

theorem migrate_noop {l : List Statement} (hfits : db.fits = true)
    (hnoop : ∀ st ∈ l, st.isNoop db.schema = true) : migrate l db = .ok db := by
  induction l with
  | nil => rfl
  | cons st l ih =>
      obtain ⟨hst, hl⟩ := List.forall_mem_cons.mp hnoop
      rw [migrate, List.foldlM_cons, Statement.run_noop hfits hst]
      exact ih hl

end Rows

/-! ### What is not locked -/

section Frame

variable {db db' : Database} {st : Statement} {s : Schema} {name : String}

theorem Schema.filter_setTable {t : TableDef} (hne : t.name ≠ name) :
    ((s.setTable t).tables.filter fun u => u.name = name) = s.tables.filter fun u => u.name = name := by
  obtain ⟨tables, indexes⟩ := s
  simp only [Schema.setTable]
  induction tables with
  | nil => rfl
  | cons u tables ih =>
      rw [List.map_cons, List.filter_cons, List.filter_cons, ih]
      obtain heq | hne' := eq_or_ne u.name t.name
      · simp [heq, hne]
      · simp [hne']

/-- A statement leaves a table it does not lock as it is in the schema. -/
theorem Statement.alter_frame {schema : Schema} (halter : st.alter s = .ok schema)
    (hname : name ∉ st.locks s) :
    ((schema.tables.filter fun t => t.name = name) = s.tables.filter fun t => t.name = name) ∧
      (schema.indexes.filter fun i => i.table = name) = s.indexes.filter fun i => i.table = name := by
  obtain rfl | ⟨t, rfl, hno, rfl⟩ | ⟨ifNotExists, i, rfl, rfl⟩ | ⟨t, -, u, rfl, hu, -, hlocks⟩ :=
    Statement.alter_cases halter
  · exact ⟨rfl, rfl⟩
  · simp only [Statement.locks, hno, Option.isSome_none, Bool.false_eq_true, if_false, List.mem_cons,
      not_or] at hname
    have hne : t.name ≠ name := Ne.symm hname.1
    have hkey : t.keyIndex.filter (fun i => i.table = name) = [] :=
      List.filter_eq_nil_iff.mpr fun i hi => by simpa [TableDef.table_keyIndex hi] using hne
    simp only [List.filter_append, hkey, List.append_nil, and_true]
    simp [hne]
  · have hne : i.table ≠ name := by simpa [Statement.locks, eq_comm] using hname
    exact ⟨rfl, by simp [hne]⟩
  · have hne : u.name ≠ name := by simpa [hlocks, hu, eq_comm] using hname
    exact ⟨Schema.filter_setTable hne, rfl⟩

/-- And its rows. -/
theorem Statement.rows_frame {schema : Schema} (hname : name ∉ st.locks db.schema) :
    (st.apply db schema).rows name = db.rows name := by
  refine Statement.apply_rows ?_ fun row _ => ?_
  · cases st with
    | createTable t =>
        cases hthere : (db.schema.table? t.name).isSome with
        | true => simp [Statement.fresh, hthere]
        | false =>
            simp only [Statement.locks, hthere, Bool.false_eq_true, if_false, List.mem_cons,
              not_or] at hname
            simp [Statement.fresh, Ne.symm hname.1]
    | _ => rfl
  · cases st with
    | addColumn table ifNotExists c check =>
        have hne : table ≠ name := by simpa [Statement.locks, eq_comm] using hname
        simp [Statement.rewrite, hne]
    | update table column value where_ =>
        have hne : table ≠ name := by simpa [Statement.locks, eq_comm] using hname
        simp [Statement.rewrite, hne]
    | _ => rfl

theorem Statement.run_frame (hrun : st.run db = .ok db') (hname : name ∉ st.locks db.schema) :
    db'.view name = db.view name := by
  unfold Statement.run at hrun
  split at hrun
  case h_1 => cases hrun
  case h_2 schema halter =>
    split_ifs at hrun
    obtain rfl := Except.ok.inj hrun
    obtain ⟨htables, hindexes⟩ := Statement.alter_frame halter hname
    have hrows : (st.apply db schema).rows name = db.rows name := Statement.rows_frame hname
    exact Prod.ext hrows (Prod.ext htables hindexes)

/-- **What a migration does not lock, it leaves as it is.** -/
theorem migrate_frame {l : List Statement} (hrun : migrate l db = .ok db')
    (hname : name ∉ migrationLocks l db.schema) : db'.view name = db.view name := by
  induction l generalizing db with
  | nil =>
      cases hrun
      rfl
  | cons st l ih =>
      rw [migrate, List.foldlM_cons] at hrun
      cases hst : st.run db with
      | error e =>
          rw [hst] at hrun
          cases hrun
      | ok db₁ =>
          rw [hst] at hrun
          have halter : st.alter db.schema = .ok db₁.schema := Statement.alter_of_run hst
          simp only [migrationLocks, halter, List.mem_append, not_or] at hname
          exact (ih hrun hname.2).trans (Statement.run_frame hst hname.1)

theorem Schema.mem_joined {other : String} : other ∈ s.joined name ↔ other = name ∨
    ∃ t ∈ s.tables, ∃ r ∈ t.references,
      t.name = name ∧ other = r.target ∨ r.target = name ∧ other = t.name := by
  simp only [Schema.joined, List.mem_append, List.mem_cons, List.mem_flatMap, List.mem_filter,
    List.mem_map, List.any_eq_true, decide_eq_true_eq]
  constructor
  · rintro ((rfl | ⟨t, ⟨ht, hname⟩, r, hr, rfl⟩) | ⟨t, ⟨ht, r, hr, hname⟩, rfl⟩)
    · exact .inl rfl
    · exact .inr ⟨t, ht, r, hr, .inl ⟨hname, rfl⟩⟩
    · exact .inr ⟨t, ht, r, hr, .inr ⟨hname, rfl⟩⟩
  · rintro (rfl | ⟨t, ht, r, hr, ⟨hname, rfl⟩ | ⟨hname, rfl⟩⟩)
    · exact .inl (.inl rfl)
    · exact .inl (.inr ⟨t, ⟨ht, hname⟩, r, hr, rfl⟩)
    · exact .inr ⟨t, ⟨ht, r, hr, hname⟩, rfl⟩

/-- Two that agree on a table still do when the same rows are written. -/
theorem view_setRows {db₂ : Database} {tables : List String} {rows : String → List Fields}
    (h : db.view name = db₂.view name) :
    (db.setRows tables rows).view name = (db₂.setRows tables rows).view name := by
  have hrows : db.rows name = db₂.rows name := congrArg Prod.fst h
  have hschema : (db.view name).2 = (db₂.view name).2 := congrArg Prod.snd h
  refine Prod.ext ?_ hschema
  simp only [Database.view, Database.setRows, hrows]

/-- **Rows that others commit** fit what a transaction sees, where it sees their tables, and those that
are joined with them, as they are committed. -/
theorem fits_setRows {committed : Database} {tables : List String} {rows : String → List Fields}
    (hfits : db.fits = true) (hrows : (committed.setRows tables rows).fits = true)
    (hview : ∀ n ∈ tables, ∀ m ∈ db.schema.joined n, db.view m = committed.view m) :
    (db.setRows tables rows).fits = true := by
  obtain ⟨hvalid, hrelated⟩ := fits_iff.mp hfits
  obtain ⟨hvalid₂, hrelated₂⟩ := fits_iff.mp hrows
  rw [valid_iff] at hvalid hvalid₂
  rw [related_iff] at hrelated hrelated₂
  have hself : ∀ n ∈ tables, db.view n = committed.view n := fun n hn =>
    hview n hn n (Schema.mem_joined.mpr (.inl rfl))
  have htable : ∀ t ∈ db.schema.tables, db.view t.name = committed.view t.name →
      t ∈ committed.schema.tables := fun t ht h => by
    have hin : t ∈ (db.view t.name).2.1 := List.mem_filter.mpr ⟨ht, by simp⟩
    exact List.mem_of_mem_filter (h ▸ hin)
  refine fits_iff.mpr ⟨valid_iff.mpr ⟨fun t ht row hrow => ?_, fun i hi => ?_⟩,
    related_iff.mpr fun t ht r hr => ?_⟩
  · by_cases hin : t.name ∈ tables
    · refine hvalid₂.1 t (htable t ht (hself _ hin)) row ?_
      simpa only [Database.setRows, hin, if_true] using hrow
    · exact hvalid.1 t ht row (by simpa only [Database.setRows, hin, if_false] using hrow)
  · by_cases hin : i.table ∈ tables
    · have hi' : i ∈ (db.view i.table).2.2 := List.mem_filter.mpr ⟨hi, by simp⟩
      rw [hself _ hin] at hi'
      simpa only [Database.setRows, hin, if_true] using hvalid₂.2 i (List.mem_of_mem_filter hi')
    · simpa only [Database.setRows, hin, if_false] using hvalid.2 i hi
  · by_cases hin : t.name ∈ tables ∨ r.target ∈ tables
    · -- both ends are as committed
      have hends : db.view t.name = committed.view t.name ∧ db.view r.target = committed.view r.target := by
        obtain hin | hin := hin
        · have hjoined := Schema.mem_joined.mpr (.inr ⟨t, ht, r, hr, .inl ⟨rfl, rfl⟩⟩)
          exact ⟨hself _ hin, hview _ hin _ hjoined⟩
        · have hjoined := Schema.mem_joined.mpr (.inr ⟨t, ht, r, hr, .inr ⟨rfl, rfl⟩⟩)
          exact ⟨hview _ hin _ hjoined, hself _ hin⟩
      have hrow : ∀ n, db.view n = committed.view n →
          (db.setRows tables rows).rows n = (committed.setRows tables rows).rows n := fun n h => by
        simp only [Database.setRows, show db.rows n = committed.rows n from congrArg Prod.fst h]
      rw [Reference.holds_congr (congrArg _ (hrow _ hends.1)) (congrArg _ (hrow _ hends.2))]
      exact hrelated₂ t (htable t ht hends.1) r hr
    · obtain ⟨hcolumn, hkey⟩ := not_or.mp hin
      refine (Reference.holds_congr ?_ ?_).trans (hrelated t ht r hr)
      · simp only [Database.setRows, hcolumn, if_false]
      · simp only [Database.setRows, hkey, if_false]

end Frame

end Vemsa.Support
