import Mathlib.Data.List.Basic
import Mathlib.Data.Int.Notation

/-! JSON text as a dynamic language's library reads it: one pass over the code points with
the open containers on a stack. Lone surrogates, `NaN` and the infinities are accepted, a
repeated key keeps its first place and its last value, and an integer with too many digits
or a container nested too deep is an error of its own. -/
namespace Json

/-- Code points; lone surrogates may stand in a text. -/
abbrev Text := List ℕ

/-- The code points of a string. -/
def text (s : String) : Text := s.toList.map Char.toNat

/-- The text as a string, unless a lone surrogate stands in it. -/
def string? (s : Text) : Option String :=
  if s.all fun c => decide c.isValidChar then some (String.ofList (s.map Char.ofNat)) else none

@[simp] theorem string?_text (s : String) : string? (text s) = some s := by
  have hvalid : (text s).all (fun c => decide c.isValidChar) = true := by
    simp only [text, List.all_map, List.all_eq_true, Function.comp_apply, decide_eq_true_eq]
    exact fun c _ => c.valid
  have hback : (text s).map Char.ofNat = s.toList := by
    simp only [text, List.map_map, Function.comp_def, Char.ofNat_toNat, List.map_id']
  rw [string?, if_pos hvalid, hback, String.ofList_toList]

inductive Value (F : Type) where
  | null
  | bool (b : Bool)
  | int (n : ℤ)
  | float (x : F)
  | str (s : Text)
  | list (items : List (Value F))
  | object (fields : List (Text × Value F))

inductive DecodeError where
  | syntaxError
  | digitLimit
  | depthLimit
  deriving DecidableEq, Repr

/-- What the reader takes from its host: the value of a float literal, the digits that an
integer may have and the containers that may be open at once. -/
structure Host (F : Type) where
  float : Text → Option F
  digits : ℕ
  depth : ℕ

variable {F : Type}

/-- A repeated key keeps its place and takes the new value. -/
def setField : List (Text × Value F) → Text → Value F → List (Text × Value F)
  | [], key, v => [(key, v)]
  | (k, w) :: fields, key, v =>
    if k = key then (k, v) :: fields else (k, w) :: setField fields key v

/-- An open container that waits for its next value. -/
inductive Frame (F : Type) where
  | list (done : List (Value F))
  | object (done : List (Text × Value F)) (key : Text)

/-- What a text in quotes is read for. -/
inductive Target (F : Type) where
  | value
  | key (done : List (Text × Value F))

inductive Escape where
  | plain
  | slash
  | hex (digits : List ℕ)

/-- The part of a number that was read last. `hasFraction` tells whether a fraction stands
before the exponent mark. -/
inductive Part where
  | minus
  | zero
  | whole
  | point
  | fraction
  | mark (hasFraction : Bool)
  | sign (hasFraction : Bool)
  | exponent

/-- What may come next. A container whose next separator is due is held here, the containers
around it are on the stack. `high` is a high surrogate whose pair may still follow. -/
inductive Mode (F : Type) where
  | value
  | firstItem
  | afterItem (done : List (Value F))
  | firstKey
  | nextKey (done : List (Text × Value F))
  | colon (done : List (Text × Value F)) (key : Text)
  | afterField (done : List (Text × Value F))
  | chars (target : Target F) (read : Text) (high : Option ℕ) (escape : Escape)
  | literal (todo : Text) (v : Option (Value F))
  | number (part : Part) (negative : Bool) (whole rest : Text)
  | finished (v : Value F)

structure State (F : Type) where
  mode : Mode F
  stack : List (Frame F)

def isSpace (c : ℕ) : Bool := c == 0x20 || c == 0x09 || c == 0x0a || c == 0x0d

def isDigit (c : ℕ) : Bool := 0x30 ≤ c && c ≤ 0x39

def hexDigit? (c : ℕ) : Option ℕ :=
  if isDigit c then some (c - 0x30)
  else if 0x41 ≤ c ∧ c ≤ 0x46 then some (c - 0x41 + 10)
  else if 0x61 ≤ c ∧ c ≤ 0x66 then some (c - 0x61 + 10)
  else none

def isHigh (u : ℕ) : Bool := 0xd800 ≤ u && u ≤ 0xdbff

def isLow (u : ℕ) : Bool := 0xdc00 ≤ u && u ≤ 0xdfff

/-- The code point of a surrogate pair. -/
def joinPair (high low : ℕ) : ℕ := 0x10000 + (high - 0xd800) * 0x400 + (low - 0xdc00)

def ofDigits (b : ℕ) (digits : List ℕ) : ℕ := digits.foldl (fun n d => b * n + d) 0

/-- A complete value goes to the innermost open container. -/
def place (v : Value F) : List (Frame F) → State F
  | [] => ⟨.finished v, []⟩
  | .list done :: stack => ⟨.afterItem (done ++ [v]), stack⟩
  | .object done key :: stack => ⟨.afterField (setField done key v), stack⟩

/-- A text in quotes is complete. -/
def placeText (s : Text) (stack : List (Frame F)) : Target F → State F
  | .value => place (.str s) stack
  | .key done => ⟨.colon done s, stack⟩

section Read

variable (host : Host F)

/-- The first code point of a value. -/
def beginValue (stack : List (Frame F)) (c : ℕ) : Except DecodeError (State F) :=
  if c = '"'.toNat then .ok ⟨.chars .value [] none .plain, stack⟩
  else if c = '['.toNat then
    if stack.length < host.depth then .ok ⟨.firstItem, stack⟩ else .error .depthLimit
  else if c = '{'.toNat then
    if stack.length < host.depth then .ok ⟨.firstKey, stack⟩ else .error .depthLimit
  else if c = 'n'.toNat then .ok ⟨.literal (text "ull") (some .null), stack⟩
  else if c = 't'.toNat then .ok ⟨.literal (text "rue") (some (.bool true)), stack⟩
  else if c = 'f'.toNat then .ok ⟨.literal (text "alse") (some (.bool false)), stack⟩
  else if c = 'N'.toNat then
    .ok ⟨.literal (text "aN") ((host.float (text "NaN")).map .float), stack⟩
  else if c = 'I'.toNat then
    .ok ⟨.literal (text "nfinity") ((host.float (text "Infinity")).map .float), stack⟩
  else if c = '-'.toNat then .ok ⟨.number .minus true [] [], stack⟩
  else if c = '0'.toNat then .ok ⟨.number .zero false [c] [], stack⟩
  else if isDigit c then .ok ⟨.number .whole false [c] [], stack⟩
  else .error .syntaxError

/-- A separator or the end of a container after a complete value. -/
def stepAfter (s : State F) (c : ℕ) : Except DecodeError (State F) :=
  if isSpace c then .ok s
  else match s.mode with
    | .afterItem done =>
      if c = ','.toNat then .ok ⟨.value, .list done :: s.stack⟩
      else if c = ']'.toNat then .ok (place (.list done) s.stack)
      else .error .syntaxError
    | .afterField done =>
      if c = ','.toNat then .ok ⟨.nextKey done, s.stack⟩
      else if c = '}'.toNat then .ok (place (.object done) s.stack)
      else .error .syntaxError
    | _ => .error .syntaxError

/-- One code point of a text in quotes. -/
def stepChars (stack : List (Frame F)) (target : Target F) (read : Text) (high : Option ℕ)
    (escape : Escape) (c : ℕ) : Except DecodeError (State F) :=
  let shown := read ++ high.toList
  match escape with
  | .plain =>
    if c = '"'.toNat then .ok (placeText shown stack target)
    else if c = '\\'.toNat then .ok ⟨.chars target read high .slash, stack⟩
    else if c ≤ 0x1f then .error .syntaxError
    else .ok ⟨.chars target (shown ++ [c]) none .plain, stack⟩
  | .slash =>
    if c = 'u'.toNat then .ok ⟨.chars target read high (.hex []), stack⟩
    else
      let simple :=
        if c = '"'.toNat ∨ c = '\\'.toNat ∨ c = '/'.toNat then some c
        else if c = 'b'.toNat then some 0x08
        else if c = 'f'.toNat then some 0x0c
        else if c = 'n'.toNat then some 0x0a
        else if c = 'r'.toNat then some 0x0d
        else if c = 't'.toNat then some 0x09
        else none
      match simple with
      | some x => .ok ⟨.chars target (shown ++ [x]) none .plain, stack⟩
      | none => .error .syntaxError
  | .hex digits => match hexDigit? c with
    | none => .error .syntaxError
    | some d =>
      if digits.length < 3 then .ok ⟨.chars target read high (.hex (digits ++ [d])), stack⟩
      else
        let u := ofDigits 16 (digits ++ [d])
        match high with
        | some h =>
          if isLow u then .ok ⟨.chars target (read ++ [joinPair h u]) none .plain, stack⟩
          else if isHigh u then .ok ⟨.chars target shown (some u) .plain, stack⟩
          else .ok ⟨.chars target (shown ++ [u]) none .plain, stack⟩
        | none =>
          if isHigh u then .ok ⟨.chars target read (some u) .plain, stack⟩
          else .ok ⟨.chars target (read ++ [u]) none .plain, stack⟩

/-- The part of a number that `c` continues it with. -/
def nextPart (c : ℕ) : Part → Option Part
  | .minus => if c = '0'.toNat then some .zero else if isDigit c then some .whole else none
  | .zero => if c = '.'.toNat then some .point
    else if c = 'e'.toNat ∨ c = 'E'.toNat then some (.mark false) else none
  | .whole => if isDigit c then some .whole else if c = '.'.toNat then some .point
    else if c = 'e'.toNat ∨ c = 'E'.toNat then some (.mark false) else none
  | .point => if isDigit c then some .fraction else none
  | .fraction => if isDigit c then some .fraction
    else if c = 'e'.toNat ∨ c = 'E'.toNat then some (.mark true) else none
  | .mark f => if isDigit c then some .exponent
    else if c = '+'.toNat ∨ c = '-'.toNat then some (.sign f) else none
  | .sign _ | .exponent => if isDigit c then some .exponent else none

def isWhole : Part → Bool
  | .zero | .whole => true
  | _ => false

/-- The integer of the digits read so far. -/
def readInt (negative : Bool) (whole : Text) : Except DecodeError ℤ :=
  if whole.length ≤ host.digits then
    let n := (ofDigits 10 (whole.map (· - 0x30)) : ℤ)
    .ok (if negative then -n else n)
  else .error .digitLimit

/-- The number that ends here. `none` is a syntax error right behind it, which is found
after an integer before it has been read. -/
def closeNumber (part : Part) (negative : Bool) (whole rest : Text) :
    Except DecodeError (Option (Value F)) :=
  match part with
  | .zero | .whole => (readInt host negative whole).map fun n => some (.int n)
  | .fraction | .exponent =>
    .ok ((host.float ((if negative then text "-" else []) ++ whole ++ rest)).map .float)
  | .point | .mark false | .sign false => (readInt host negative whole).map fun _ => none
  | .minus | .mark true | .sign true => .ok none

def stepNumber (stack : List (Frame F)) (part : Part) (negative : Bool) (whole rest : Text)
    (c : ℕ) : Except DecodeError (State F) :=
  match nextPart c part with
  | some part' =>
    if isWhole part' then .ok ⟨.number part' negative (whole ++ [c]) rest, stack⟩
    else .ok ⟨.number part' negative whole (rest ++ [c]), stack⟩
  | none => match part with
    | .minus =>
      if c = 'I'.toNat then
        .ok ⟨.literal (text "nfinity") ((host.float (text "-Infinity")).map .float), stack⟩
      else .error .syntaxError
    | part => match closeNumber host part negative whole rest with
      | .error e => .error e
      | .ok none => .error .syntaxError
      | .ok (some v) => stepAfter (place v stack) c

def step (s : State F) (c : ℕ) : Except DecodeError (State F) :=
  match s.mode with
  | .value => if isSpace c then .ok s else beginValue host s.stack c
  | .firstItem =>
    if isSpace c then .ok s
    else if c = ']'.toNat then .ok (place (.list []) s.stack)
    else beginValue host (.list [] :: s.stack) c
  | .firstKey =>
    if isSpace c then .ok s
    else if c = '}'.toNat then .ok (place (.object []) s.stack)
    else if c = '"'.toNat then .ok ⟨.chars (.key []) [] none .plain, s.stack⟩
    else .error .syntaxError
  | .nextKey done =>
    if isSpace c then .ok s
    else if c = '"'.toNat then .ok ⟨.chars (.key done) [] none .plain, s.stack⟩
    else .error .syntaxError
  | .colon done key =>
    if isSpace c then .ok s
    else if c = ':'.toNat then .ok ⟨.value, .object done key :: s.stack⟩
    else .error .syntaxError
  | .afterItem _ | .afterField _ | .finished _ => stepAfter s c
  | .chars target read high escape => stepChars s.stack target read high escape c
  | .literal (x :: todo) v =>
    if c = x then match todo, v with
      | [], some v => .ok (place v s.stack)
      | [], none => .error .syntaxError
      | _ :: _, v => .ok ⟨.literal todo v, s.stack⟩
    else .error .syntaxError
  | .literal [] _ => .error .syntaxError
  | .number part negative whole rest => stepNumber host s.stack part negative whole rest c

/-- The text ends here. -/
def finish (s : State F) : Except DecodeError (Value F) :=
  match s.mode with
  | .finished v => .ok v
  | .number part negative whole rest =>
    match closeNumber host part negative whole rest, s.stack with
    | .error e, _ => .error e
    | .ok (some v), [] => .ok v
    | .ok _, _ => .error .syntaxError
  | _ => .error .syntaxError

/-- The value that a text stands for. -/
def loads (raw : Text) : Except DecodeError (Value F) :=
  (raw.foldlM (step host) ⟨.value, []⟩).bind (finish host)

end Read

end Json
