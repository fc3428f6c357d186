import XSocialTrader.Core.Text
import XSocialTrader.Core.Values
import XSocialTrader.Lib.JsonWriter

/-! Python's built-in operations on what `json.loads` returns. -/
namespace XSocialTrader
open Json (Value)

/-- What the interpreter and the libraries decide: the Unicode database, the float that an
integer is cut to, how deep containers may nest in `json.loads` and in `repr`, and which
texts a pydantic `str` field takes. -/
structure Runtime (F : Type) where
  text : UnicodeText
  upper : Json.Text → Json.Text
  printable : ℕ → Bool
  trunc : F → Except PyExc ℤ
  jsonDepth : ℕ
  reprDepth : ℕ
  acceptsText : Json.Text → Bool

variable {F : Type} [PyFloat F]

/-- `json.loads(raw)`. Only a syntax error is a `JSONDecodeError`. -/
def jsonLoads (rt : Runtime F) (raw : Json.Text) : Except PyExc (Value F) :=
  match Json.loads ⟨floatOfText, 4300, rt.jsonDepth⟩ raw with
  | .ok v => .ok v
  | .error .syntaxError => .error .jsonDecodeError
  | .error .digitLimit => .error .valueError
  | .error .depthLimit => .error .recursionError

section Text

/-- Lower-case hexadecimal with at least `k` digits. -/
def hexText (k n : ℕ) : Json.Text := ((Nat.toDigits 16 n).leftpad k '0').map Char.toNat

/-- One code point in `repr` of a text that is written between `quote`s. -/
def reprChar (printable : ℕ → Bool) (quote c : ℕ) : Json.Text :=
  if c = quote ∨ c = '\\'.toNat then ['\\'.toNat, c]
  else if c = 0x09 then Json.text "\\t"
  else if c = 0x0a then Json.text "\\n"
  else if c = 0x0d then Json.text "\\r"
  else if c < 0x20 ∨ c = 0x7f then Json.text "\\x" ++ hexText 2 c
  else if c < 0x7f ∨ printable c then [c]
  else if c < 0x100 then Json.text "\\x" ++ hexText 2 c
  else if c < 0x10000 then Json.text "\\u" ++ hexText 4 c
  else Json.text "\\U" ++ hexText 8 c

/-- `repr(s)`. -/
def reprText (printable : ℕ → Bool) (s : Json.Text) : Json.Text :=
  let quote := if '\''.toNat ∈ s ∧ '"'.toNat ∉ s then '"'.toNat else '\''.toNat
  [quote] ++ s.flatMap (reprChar printable quote) ++ [quote]

def joinTexts : List Json.Text → Json.Text
  | [] => []
  | [t] => t
  | t :: ts => t ++ Json.text ", " ++ joinTexts ts

mutual

/-- `repr(v)` with `d` nested calls left. -/
def reprValue (rt : Runtime F) : ℕ → Value F → Except PyExc Json.Text
  | 0, _ => .error .recursionError
  | _ + 1, .null => .ok (Json.text "None")
  | _ + 1, .bool b => .ok (Json.text (if b then "True" else "False"))
  | _ + 1, .int n => .ok (Json.text (toString n))
  | _ + 1, .float x => .ok (Json.text (PyFloat.repr x))
  | _ + 1, .str s => .ok (reprText rt.printable s)
  | d + 1, .list items => (reprItems rt d items).map fun ts =>
      Json.text "[" ++ joinTexts ts ++ Json.text "]"
  | d + 1, .object fields => (reprFields rt d fields).map fun ts =>
      Json.text "\x7b" ++ joinTexts ts ++ Json.text "\x7d"

def reprItems (rt : Runtime F) : ℕ → List (Value F) → Except PyExc (List Json.Text)
  | _, [] => .ok []
  | d, v :: vs => do
    let t ← reprValue rt d v
    let ts ← reprItems rt d vs
    return t :: ts

def reprFields (rt : Runtime F) : ℕ → List (Json.Text × Value F) → Except PyExc (List Json.Text)
  | _, [] => .ok []
  | d, (key, v) :: fields => do
    let t ← reprValue rt d v
    let ts ← reprFields rt d fields
    return (reprText rt.printable key ++ Json.text ": " ++ t) :: ts

end

/-- `str(v)`. -/
def pyStr (rt : Runtime F) : Value F → Except PyExc Json.Text
  | .str s => .ok s
  | v => reprValue rt rt.reprDepth v

end Text

section Numbers

/-- `float(v)`. -/
def jsonToFloat : Value F → Except PyExc F
  | .bool b => .ok (PyFloat.ofInt (PyValue.boolInt b))
  | .int n => floatOfInt n
  | .float x => .ok x
  | .str s => match floatOfText s with
    | some x => .ok x
    | none => .error .valueError
  | .null | .list _ | .object _ => .error .typeError

/-- `int(v)`. -/
def jsonToInt (rt : Runtime F) : Value F → Except PyExc ℤ
  | .bool b => .ok (PyValue.boolInt b)
  | .int n => .ok n
  | .float x => rt.trunc x
  | .str s => match (Json.string? s).bind (pyInt rt.text) with
    | some n => .ok n
    | none => .error .valueError
  | .null | .list _ | .object _ => .error .typeError

/-- `bool(v)`. -/
def truthy : Value F → Bool
  | .null => false
  | .bool b => b
  | .int n => n != 0
  | .float x => !PyFloat.eqInt x 0
  | .str s => !s.isEmpty
  | .list items => !items.isEmpty
  | .object fields => !fields.isEmpty

end Numbers

section Containers

omit [PyFloat F]

/-- `list(v)`. -/
def iterate : Value F → Except PyExc (List (Value F))
  | .str s => .ok (s.map fun c => .str [c])
  | .list items => .ok items
  | .object fields => .ok (fields.map fun f => .str f.1)
  | .null | .bool _ | .int _ | .float _ => .error .typeError

/-- `v.get(key)`. -/
def getField (v : Value F) (key : String) : Except PyExc (Option (Value F)) :=
  match v with
  | .object fields => .ok (fields.lookup (Json.text key))
  | _ => .error .attributeError

/-- `v[0]` of a value that is not empty. -/
def firstItem : Value F → Except PyExc (Value F)
  | .list (v :: _) => .ok v
  | .str (c :: _) => .ok (.str [c])
  | .object _ => .error .keyError
  | _ => .error .typeError

end Containers

section Stored

/-- A float as `json.dumps` writes it. -/
def jsonFloatText (x : F) : Json.Text :=
  let s := PyFloat.repr x
  Json.text (if s = "nan" then "NaN" else if s = "inf" then "Infinity"
    else if s = "-inf" then "-Infinity" else s)

/-- A key as `json.dumps` writes it. -/
def jsonKey : PyValue F → Json.Text
  | .none => Json.text "null"
  | .bool b => Json.text (if b then "true" else "false")
  | .int n => Json.text (toString n)
  | .float x => jsonFloatText x
  | .text s => s
  | .date _ | .list _ | .dict _ => []

mutual

/-- What the text of `json.dumps(value, default=str)` spells. -/
def toJson : PyValue F → Value F
  | .none => .null
  | .bool b => .bool b
  | .int n => .int n
  | .float x => .float x
  | .text s => .str s
  | .date s => .str (Json.text s)
  | .list items => .list (toJsonItems items)
  | .dict items => .object (toJsonFields items)

def toJsonItems : List (PyValue F) → List (Value F)
  | [] => []
  | v :: vs => toJson v :: toJsonItems vs

def toJsonFields : List (PyValue F × PyValue F) → List (Json.Text × Value F)
  | [] => []
  | (k, v) :: items => (jsonKey k, toJson v) :: toJsonFields items

end

mutual

/-- The Python value of a JSON value. -/
def ofJson : Value F → PyValue F
  | .null => .none
  | .bool b => .bool b
  | .int n => .int n
  | .float x => .float x
  | .str s => .text s
  | .list items => .list (ofJsonItems items)
  | .object fields => .dict (ofJsonFields fields)

def ofJsonItems : List (Value F) → List (PyValue F)
  | [] => []
  | v :: vs => ofJson v :: ofJsonItems vs

def ofJsonFields : List (Json.Text × Value F) → List (PyValue F × PyValue F)
  | [] => []
  | (k, v) :: fields => (.text k, ofJson v) :: ofJsonFields fields

end

/-- `json.loads(json.dumps(value))`. -/
def PyValue.roundTrip (v : PyValue F) : PyValue F := ofJson (Json.readBack (toJson v))

/-- `json.dumps(value)` of a value without dates. -/
def jsonDumps (v : PyValue F) : Json.Text := Json.dumps jsonFloatText (toJson v)

/-- `json.loads` gets through the text of a value in `depth` open containers: `repr` of a float
is read as that float, an integer has at most 4300 digits, no container is nested too deep. -/
def PyValue.Reloads (rt : Runtime F) (depth : ℕ) (v : PyValue F) : Prop :=
  Json.Readable ⟨floatOfText, 4300, rt.jsonDepth⟩ jsonFloatText depth (toJson v)

theorem jsonLoads_jsonDumps {rt : Runtime F} {v : PyValue F} (h : v.Reloads rt 0) :
    jsonLoads rt (jsonDumps v) = .ok (Json.readBack (toJson v)) := by
  rw [jsonLoads, jsonDumps, Json.loads_dumps h]

theorem PyValue.reloads_str (rt : Runtime F) (depth : ℕ) (s : String) :
    (PyValue.str s : PyValue F).Reloads rt depth := by
  intro code hcode
  obtain ⟨c, -, rfl⟩ := List.mem_map.mp hcode
  have hvalid : c.toNat < 0xd800 ∨ 0xdfff < c.toNat ∧ c.toNat < 0x110000 := c.valid
  omega

theorem PyValue.reloads_list {rt : Runtime F} {depth : ℕ} {items : List (PyValue F)}
    (hdepth : depth < rt.jsonDepth) (h : ∀ v ∈ items, v.Reloads rt (depth + 1)) :
    (PyValue.list items).Reloads rt depth := by
  refine ⟨hdepth, ?_⟩
  induction items with
  | nil => trivial
  | cons v vs ih =>
    rw [List.forall_mem_cons] at h
    exact ⟨h.1, ih h.2⟩

theorem PyValue.reloads_record {rt : Runtime F} {depth : ℕ} {fields : List (String × PyValue F)}
    (hdepth : depth < rt.jsonDepth) (h : ∀ f ∈ fields, f.2.Reloads rt (depth + 1)) :
    (record fields).Reloads rt depth := by
  refine ⟨hdepth, ?_⟩
  induction fields with
  | nil => trivial
  | cons f fields ih =>
    rw [List.forall_mem_cons] at h
    exact ⟨PyValue.reloads_str rt depth f.1, h.1, ih h.2⟩

theorem roundTrip_list (items : List (PyValue F)) :
    (PyValue.list items).roundTrip = .list (items.map PyValue.roundTrip) := by
  have hitems : ofJsonItems (Json.readBackItems (toJsonItems items)) =
      items.map PyValue.roundTrip := by
    induction items with
    | nil => rfl
    | cons v vs ih => rw [toJsonItems, Json.readBackItems, ofJsonItems, ih]; rfl
  rw [PyValue.roundTrip, toJson, Json.readBack, ofJson, hitems]

theorem toJson_record (fields : List (String × PyValue F)) :
    toJson (record fields) = .object (fields.map fun f => (Json.text f.1, toJson f.2)) := by
  have hfields : toJsonFields (fields.map fun f => (PyValue.str f.1, f.2)) =
      fields.map fun f => (Json.text f.1, toJson f.2) := by
    induction fields with
    | nil => rfl
    | cons f fields ih => rw [List.map_cons, toJsonFields, ih]; rfl
  rw [record, toJson, hfields]

end Stored

/-- A runtime that knows the letters of ASCII; its `str` fields take lone surrogates, too. -/
def asciiRuntime : Runtime ℚ where
  text := asciiText
  upper s := s.map fun c => if 0x61 ≤ c ∧ c ≤ 0x7a then c - 0x20 else c
  printable c := 0x20 ≤ c && c ≤ 0x7e
  trunc x := .ok (if 0 ≤ x then ⌊x⌋ else ⌈x⌉)
  jsonDepth := 900
  reprDepth := 900
  acceptsText _ := true

/-- `repr` of nine tenths is `0.9`. -/
example : (PyValue.float (9 / 10 : ℚ)).Reloads asciiRuntime 1 :=
  ⟨Or.inl ⟨false, Json.text "0.9", .fraction, by decide +kernel, rfl, Or.inl rfl⟩,
    by decide +kernel⟩

end XSocialTrader
