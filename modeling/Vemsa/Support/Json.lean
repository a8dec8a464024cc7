import Vemsa.Support.Python

/-!
# Support — Json

JSON values as Python's `json` reads them, non-finite numbers included, and the validation of
one against a schema: a schema is a decoder, an error says where in the value it stopped and
what it complains about.

A value holds *texts*; `jsonb` takes one unless U+0000 is in a text of it.

A value *reloads* under a pair of encoder and decoder when decoding its encoding gives it back.
Reloading is a property of each part on its own (`reloads_list`, `reloads_nullable`).
-/

namespace Vemsa.Support

inductive Json where
  | null
  | bool (b : Bool)
  | num (x : PyFloat)
  | str (s : String)
  | arr (items : List Json)
  | obj (fields : List (String × Json))

/-- What a schema complains about. -/
inductive Issue where
  | missing
  | notDict
  | notList
  | notLiteral (allowed : List String)
  | notFinite
  | tooSmall (ge : ℤ)
  | notAbove (gt : ℤ)
  | scalar (message : String)
  | valueError (message : String)
deriving DecidableEq

structure ErrorDetails where
  loc : List String
  issue : Issue
deriving DecidableEq

abbrev Decoder (α : Type) := Json → Except ErrorDetails α

namespace Json

/-- `bool(value)` -/
def truthy : Json → Bool
  | null => false
  | bool b => b
  | num (.finite q) => q ≠ 0
  | num _ => true
  | str s => !s.isEmpty
  | arr items => !items.isEmpty
  | obj fields => !fields.isEmpty

/-- `value == text` -/
def isStr (text : String) : Json → Bool
  | str s => s = text
  | _ => false

/-- A float as it is written to JSON: what is not finite becomes `null`. -/
def ofFloat (x : PyFloat) : Json := if x.isFinite then num x else null

mutual

/-- The strings of a value, the names of its fields aside. -/
def texts : Json → List String
  | .str s => [s]
  | .arr items => itemTexts items
  | .obj fields => fieldTexts fields
  | _ => []

def itemTexts : List Json → List String
  | [] => []
  | item :: items => item.texts ++ itemTexts items

def fieldTexts : List (String × Json) → List String
  | [] => []
  | (_, value) :: fields => value.texts ++ fieldTexts fields

end

/-- U+0000 is in the text. -/
def hasNul (text : String) : Bool := text.toList.contains '\x00'

/-- `value::jsonb`; missing where a string has U+0000 in it, which the type does not take. -/
def jsonb (value : Json) : Option Json := if value.texts.any hasNul then none else some value

@[simp] theorem texts_str (s : String) : (str s).texts = [s] := rfl
@[simp] theorem texts_num (x : PyFloat) : (num x).texts = [] := rfl
@[simp] theorem texts_bool (b : Bool) : (bool b).texts = [] := rfl
@[simp] theorem texts_null : null.texts = [] := rfl

@[simp] theorem texts_ofFloat (x : PyFloat) : (ofFloat x).texts = [] := by
  unfold ofFloat
  split <;> rfl

@[simp] theorem texts_arr (items : List Json) : (arr items).texts = items.flatMap texts := by
  rw [texts]
  induction items with
  | nil => rfl
  | cons item items ih => rw [itemTexts, ih, List.flatMap_cons]

@[simp] theorem texts_obj (fields : List (String × Json)) :
    (obj fields).texts = fields.flatMap fun field => field.2.texts := by
  rw [texts]
  induction fields with
  | nil => rfl
  | cons field fields ih => rw [fieldTexts, ih, List.flatMap_cons]

end Json

/-! ### Decoders -/

section Decoders

variable {α : Type}

/-- The error of a part, located in the whole. -/
def under (key : String) (r : Except ErrorDetails α) : Except ErrorDetails α :=
  r.mapError fun e => { e with loc := key :: e.loc }

/-- A required field. -/
def field (key : String) (dec : Decoder α) (fields : List (String × Json)) :
    Except ErrorDetails α :=
  match fields.lookup key with
  | none => .error ⟨[key], .missing⟩
  | some value => under key (dec value)

/-- A field with a default. -/
def fieldOr (key : String) (default : α) (dec : Decoder α) (fields : List (String × Json)) :
    Except ErrorDetails α :=
  match fields.lookup key with
  | none => .ok default
  | some value => under key (dec value)

/-- `T | None` -/
def nullable (dec : Decoder α) : Decoder (Option α)
  | .null => .ok none
  | value => (dec value).map some

def listFrom (dec : Decoder α) (i : ℕ) : List Json → Except ErrorDetails (List α)
  | [] => .ok []
  | item :: items =>
    match under (toString i) (dec item) with
    | .error e => .error e
    | .ok a =>
      match listFrom dec (i + 1) items with
      | .error e => .error e
      | .ok as => .ok (a :: as)

/-- `list[T]` -/
def listOf (dec : Decoder α) : Decoder (List α)
  | .arr items => listFrom dec 0 items
  | _ => .error ⟨[], .notList⟩

/-- `Literal[...]`, with what each spelling stands for. -/
def literal (values : List (String × α)) : Decoder α
  | .str s =>
    match values.lookup s with
    | none => .error ⟨[], .notLiteral (values.map Prod.fst)⟩
    | some a => .ok a
  | _ => .error ⟨[], .notLiteral (values.map Prod.fst)⟩

/-- A model: a `dict` read field by field. -/
def dict (dec : List (String × Json) → Except ErrorDetails α) : Decoder α
  | .obj fields => dec fields
  | _ => .error ⟨[], .notDict⟩

end Decoders

/-! ### Reloading -/

section Reloads

variable {α : Type}

/-- `a` comes back from its encoding. -/
def Reloads (enc : α → Json) (dec : Decoder α) (a : α) : Prop := dec (enc a) = .ok a

theorem except_bind_eq_ok {ε β : Type} {x : Except ε α} {f : α → Except ε β} {b : β} :
    x >>= f = .ok b ↔ ∃ a, x = .ok a ∧ f a = .ok b := by
  cases x with
  | error e => simp [bind, Except.bind]
  | ok a => simp [bind, Except.bind]

theorem except_ok_bind {ε β : Type} (a : α) (f : α → Except ε β) : (.ok a >>= f) = f a := rfl

theorem under_eq_ok {key : String} {r : Except ErrorDetails α} {a : α} :
    under key r = .ok a ↔ r = .ok a := by
  cases r <;> simp [under, Except.mapError]

theorem field_eq_ok {key : String} {dec : Decoder α} {fields : List (String × Json)} {a : α} :
    field key dec fields = .ok a ↔ ∃ value, fields.lookup key = some value ∧ dec value = .ok a := by
  unfold field
  cases fields.lookup key <;> simp [under_eq_ok]

theorem listFrom_eq_ok {enc : α → Json} {dec : Decoder α} (i : ℕ) (as : List α) :
    listFrom dec i (as.map enc) = .ok as ↔ ∀ a ∈ as, Reloads enc dec a := by
  induction as generalizing i with
  | nil => simp [listFrom]
  | cons a as ih =>
      rw [List.map_cons, listFrom, List.forall_mem_cons, ← ih (i + 1), Reloads]
      cases dec (enc a) with
      | error e => simp [under, Except.mapError]
      | ok b =>
          cases listFrom dec (i + 1) (as.map enc) with
          | error e => simp [under, Except.mapError]
          | ok bs => simp [under, Except.mapError]

/-- **A list reloads when its items do.** -/
theorem reloads_list {e : α → Json} {d : Decoder α} {l : List α} :
    Reloads (fun l => .arr (l.map e)) (listOf d) l ↔ ∀ a ∈ l, Reloads e d a :=
  listFrom_eq_ok 0 l

/-- An optional value written as itself or as `null`. -/
def encOption (enc : α → Json) : Option α → Json
  | none => .null
  | some a => enc a

@[simp] theorem texts_encOption (enc : α → Json) (o : Option α) :
    (encOption enc o).texts = o.toList.flatMap fun a => (enc a).texts := by
  cases o <;> simp [encOption]

/-- **An optional value reloads when what is there does**, as long as `null` is not a value. -/
theorem reloads_nullable {e : α → Json} {d : Decoder α} (hnull : ∀ a, d .null ≠ .ok a)
    {o : Option α} :
    Reloads (encOption e) (nullable d) o ↔ ∀ a ∈ o, Reloads e d a := by
  cases o with
  | none => simp [Reloads, encOption, nullable]
  | some a =>
      simp only [Reloads, encOption, Option.mem_def, Option.some.injEq, forall_eq']
      cases henc : e a with
      | null => simpa [nullable] using hnull a
      | _ => cases hdec : d _ <;> simp [nullable, hdec, Except.map]

/-- What an encoded item must satisfy to be read, every item of a list that is read satisfies. -/
theorem forall_of_listFrom {α : Type} {enc : α → Json} {dec : Decoder α} {p : α → Prop}
    (hp : ∀ a b, dec (enc a) = .ok b → p a) (i : ℕ) (as : List α) {bs : List α}
    (h : listFrom dec i (as.map enc) = .ok bs) : ∀ a ∈ as, p a := by
  induction as generalizing i bs with
  | nil => exact fun _ h => nomatch h
  | cons a as ih =>
      rw [List.map_cons, listFrom] at h
      split at h
      · cases h
      · rename_i b hb
        split at h
        · cases h
        · rename_i bs' hbs
          exact List.forall_mem_cons.mpr ⟨hp a b (under_eq_ok.mp hb), ih (i + 1) hbs⟩

theorem forall_of_nullable_listOf {α : Type} {enc : α → Json} {dec : Decoder α} {p : α → Prop}
    (hp : ∀ a b, dec (enc a) = .ok b → p a) {o o' : Option (List α)}
    (h : nullable (listOf dec) (encOption (fun l => .arr (l.map enc)) o) = .ok o') :
    ∀ a ∈ o.getD [], p a := by
  cases o with
  | none => exact fun _ h => nomatch h
  | some l =>
      cases hl : listFrom dec 0 (l.map enc) with
      | error e => simp [nullable, encOption, listOf, hl, Except.map] at h
      | ok bs => exact forall_of_listFrom hp 0 l hl

end Reloads

end Vemsa.Support
