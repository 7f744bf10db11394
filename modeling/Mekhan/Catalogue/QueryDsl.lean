import Mekhan.Infra.Double
import Mekhan.Infra.JsonMap
import Mekhan.Infra.QuotedWords
import Mekhan.Infra.Utf8Text
import Mekhan.Infra.WhiteSpace

/-!
# The query language of the catalogue

`service/src/catalogue/query_dsl.rs`: the compiler of the query language, from the text of a query to
the query parameters. What can panic returns an error: a slice that is not at a character boundary, a
subtraction of lengths below zero, a duration or a date out of range.

A text is the list of its characters; offsets into it are in bytes. How a JSON value is written is a
parameter, and so is the registry of data types. An object keeps the order in which its keys were
inserted, which is seen in the text of the containment query alone.
-/

namespace Mekhan

namespace QueryDsl

open Infra

abbrev Text := List Char

instance : LawfulBEq Text := inferInstance

/-- What the parser can panic at, as Rust's slices and arithmetic do. -/
inductive Panic where
  | charBoundary
  | subtraction
  | duration
  | date
  deriving DecidableEq

/-! ## Terms -/

/-- The operators of a condition. -/
inductive QueryOp where
  | eq
  | ne
  | gt
  | gte
  | lt
  | lte
  | contains
  | startsWith
  | endsWith
  | in
  | notIn
  | isNull
  | isNotNull
  deriving DecidableEq

/-- The terms that ask for something contained in the metadata. -/
inductive ContainName where
  | format
  | col
  | dim
  | pii
  | attr
  deriving DecidableEq

/-- A term of the query, with its text as typed. -/
inductive QueryTerm where
  | search (text raw : Text)
  | filter (field : Text) (op : QueryOp) (value raw : Text)
  | contain (term : ContainName) (key : Option Text) (value raw : Text)
  | datatype (name raw : Text)
  deriving DecidableEq

/-- A word that is no term, and where it stands. -/
structure ParseError where
  raw : Text
  index : Nat
  message : String
  deriving DecidableEq

/-! ## Texts -/

/-- `&v[start..]` -/
def sliceFrom (v : Text) (start : Nat) : Except Panic Text :=
  match splitAt? v start with
  | some parts => .ok parts.2
  | none => .error .charBoundary

/-- `&v[..stop]` -/
def sliceTo (v : Text) (stop : Nat) : Except Panic Text :=
  match splitAt? v stop with
  | some parts => .ok parts.1
  | none => .error .charBoundary

/-- `&v[start..stop]` -/
def slice (v : Text) (start stop : Nat) : Except Panic Text := do
  let head ← sliceTo v stop
  sliceFrom head start

/-- `v.len() - 1` -/
def lenMinusOne (v : Text) : Except Panic Nat :=
  if byteLen v = 0 then .error .subtraction else .ok (byteLen v - 1)

/-- `char_indices`, from an offset on. -/
def charIndicesFrom : Nat → Text → List (Nat × Char)
  | _, [] => []
  | i, c :: rest => (i, c) :: charIndicesFrom (i + c.utf8Size) rest

/-- The characters with their byte positions. -/
def charIndices (v : Text) : List (Nat × Char) := charIndicesFrom 0 v

/-- `str::find` of a character. -/
def find (c : Char) (v : Text) : Option Nat :=
  ((charIndices v).find? fun entry => entry.2 = c).map Prod.fst

def stripSuffix (suffix v : Text) : Option Text :=
  if suffix <:+ v then some (v.take (v.length - suffix.length)) else none

/-- `splitn(2, c)`: the part before the first `c`, and the part after it if there is one. -/
def splitFirst (c : Char) (v : Text) : Text × Option Text :=
  match v.dropWhile (· ≠ c) with
  | [] => (v, none)
  | _ :: rest => (v.takeWhile (· ≠ c), some rest)

def isAsciiAlphabetic (c : Char) : Bool := ('a' ≤ c && c ≤ 'z') || ('A' ≤ c && c ≤ 'Z')

/-! ## The shape of fields and values -/

/-- Fields whose values may be sizes. -/
def isBytesField (field : Text) : Bool :=
  field = "size_bytes".toList || "_bytes".toList.isSuffixOf field

/-- Fields whose values may be dates. -/
def isAtField (field : Text) : Bool := "_at".toList.isSuffixOf field

/-- `^\d+(\.\d+)?$` -/
def isNumUnsigned (s : Text) : Bool :=
  let parts := splitFirst '.' s
  if parts.1 = [] ∨ ¬ parts.1.all F64.isDigit then false
  else
    match parts.2 with
    | none => true
    | some frac => frac ≠ [] && frac.all F64.isDigit

/-- `^-?\d+(\.\d+)?$` -/
def isNum (s : Text) : Bool :=
  match s with
  | '-' :: rest => isNumUnsigned rest
  | _ => isNumUnsigned s

/-- The power of 1024 that a unit stands for. -/
def byteExponent (unit : Char) : Option Nat :=
  if unit = 'k' then some 1
  else if unit = 'm' then some 2
  else if unit = 'g' then some 3
  else if unit = 't' then some 4
  else none

/-- The number before the last character, if that is a number. -/
def leadingNumber (s : Text) : Except Panic (Option F64) := do
  let number ← sliceTo s (← lenMinusOne s)
  if number = [] ∨ ¬ isNumUnsigned number then pure none else pure (F64.parse number)

/-- A size with a suffix: its mantissa, and the power of 1024. -/
def parseByte (s : Text) : Except Panic (Option (F64 × Nat)) :=
  let lower := s.map Char.toLower
  let body := match stripSuffix ['i', 'b'] lower with
    | some stripped => stripped
    | none => (stripSuffix ['b'] lower).getD lower
  match body.getLast?.bind byteExponent with
  | none => pure none
  | some exp => do
    let mantissa ← leadingNumber body
    pure (mantissa.map fun m => (m, exp))

/-- A relative date: its magnitude and its unit. -/
def parseRelDate (s : Text) : Except Panic (Option (F64 × Char)) :=
  match s with
  | '-' :: rest =>
    match rest.getLast? with
    | none => pure none
    | some unit =>
      if unit ∉ ['m', 'h', 'd', 'w', 'y'] then pure none
      else do
        let magnitude ← leadingNumber rest
        pure (magnitude.map fun m => (m, unit))
  | _ => pure none

/-- `^\d{4}-\d{2}-\d{2}([T ].*)?$`, by bytes; an ASCII byte is always a character. -/
def isIsoDate (s : Text) : Bool :=
  let digit (i : Nat) : Bool := (charAt? s i).any F64.isDigit
  if byteLen s < 10 then false
  else if !([0, 1, 2, 3, 5, 6, 8, 9].all digit && charAt? s 4 = some '-' && charAt? s 7 = some '-') then
    false
  else byteLen s = 10 || charAt? s 10 = some 'T' || charAt? s 10 = some ' '

/-- What may stand behind `<` and `>`. -/
def isComparableValue (field value : Text) : Except Panic Bool := do
  if isNum value then return true
  if isBytesField field then
    if (← parseByte value).isSome then return true
  if isAtField field then
    if (← parseRelDate value).isSome then return true
    if isIsoDate value then return true
  return false

/-! ## Tokens -/

/-- Tokens by their position in characters. -/
def tokenize (input : Text) : List Word := Word.words isWhitespace (fun _ => 1) input

/-- A value without its quotes, and whether it had any. -/
structure Unquoted where
  value : Text
  quoted : Bool
  error : Option String

/-- The quote has to be closed at the end of the word. -/
def unquote (v : Text) : Except Panic Unquoted := do
  if v.head? ≠ some '"' then return ⟨v, false, none⟩
  match ((charIndices v).drop 1).find? fun entry => entry.2 = '"' with
  | none => return ⟨← sliceFrom v 1, true, some "unterminated quote"⟩
  | some (stop, _) =>
    if stop ≠ (← lenMinusOne v) then
      return ⟨v, true, some "unexpected characters after closing quote"⟩
    else return ⟨← slice v 1 stop, true, none⟩

/-! ## Classification -/

/-- A word is a term, or an error. -/
inductive Classified where
  | term (term : QueryTerm)
  | error (message : String)

/-- The operators as they are typed. -/
inductive OpText where
  | gte
  | lte
  | bangEq
  | bangColon
  | gt
  | lt
  | tilde
  | caret
  | dollar
  | colon
  deriving DecidableEq

def OpText.len : OpText → Nat
  | .gte | .lte | .bangEq | .bangColon => 2
  | _ => 1

/-- The fields that are sugar for containment. -/
def containName (field : Text) : Option ContainName :=
  [("format", ContainName.format), ("col", .col), ("dim", .dim), ("pii", .pii), ("attr", .attr)].findSome?
    fun entry => if entry.1.toList = field then some entry.2 else none

def isFieldStart (c : Char) : Bool := isAsciiAlphabetic c || c = '_'

def isFieldChar (c : Char) : Bool := isAsciiAlphabetic c || F64.isDigit c || c = '_' || c = '.'

/-- The operator a text starts with, the ones with two characters first. -/
def matchOp : Text → Option OpText
  | '>' :: '=' :: _ => some .gte
  | '<' :: '=' :: _ => some .lte
  | '!' :: '=' :: _ => some .bangEq
  | '!' :: ':' :: _ => some .bangColon
  | '>' :: _ => some .gt
  | '<' :: _ => some .lt
  | '~' :: _ => some .tilde
  | '^' :: _ => some .caret
  | '$' :: _ => some .dollar
  | ':' :: _ => some .colon
  | _ => none

/-- A field, an operator and the rest; the longest operator wins. -/
def matchFilter (raw : Text) : Option (Text × OpText × Text) :=
  match raw with
  | [] => none
  | first :: tail =>
    if isFieldStart first then
      let field := first :: tail.takeWhile isFieldChar
      let after := tail.dropWhile isFieldChar
      (matchOp after).map fun op => (field, op, after.drop op.len)
    else none

/-- What the sugared terms do with their value. -/
def sugared (make : Text → QueryTerm) (rest : Text) : Except Panic Classified := do
  let u ← unquote rest
  match u.error with
  | some e => return .error e
  | none => if u.value = [] then return .error "missing value" else return .term (make u.value)

/-- An `attr` term has a key of its own. -/
def classifyContain (name : ContainName) (rest raw : Text) : Except Panic Classified := do
  if name = .attr then
    match find '=' rest with
    | none => return .error "attr term requires KEY=VALUE"
    | some 0 => return .error "attr term requires KEY=VALUE"
    | some pos =>
      let key ← sliceTo rest pos
      let value ← sliceFrom rest (pos + 1)
      sugared (fun v => .contain .attr (some key) v raw) value
  else sugared (fun v => .contain name none v raw) rest

/-- What an operator means where the value says nothing else. -/
def baseOp : OpText → QueryOp
  | .colon => .eq
  | .bangEq | .bangColon => .ne
  | .tilde => .contains
  | .caret => .startsWith
  | .dollar => .endsWith
  | .gt => .gt
  | .gte => .gte
  | .lt => .lt
  | .lte => .lte

/-- The operators whose value has to be comparable. -/
def QueryOp.isComparison : QueryOp → Bool
  | .gt | .gte | .lt | .lte => true
  | _ => false

/-- The operator of a value that is not quoted, where that is not a null check. -/
def listOp (op : QueryOp) (value : Text) : QueryOp :=
  if ',' ∈ value then
    match op with
    | .eq => .in
    | .ne => .notIn
    | op => op
  else op

/-- `null`, `*` and lists turn an equality into another operator. -/
def classifyFilter (field : Text) (opText : OpText) (rest raw : Text) : Except Panic Classified := do
  if rest = [] then return .error "missing value"
  let u ← unquote rest
  match u.error with
  | some e => return .error e
  | none =>
    let base := baseOp opText
    if !u.quoted && base = .eq && u.value = "null".toList then
      return .term (.filter field .isNull [] raw)
    if !u.quoted && base = .eq && u.value = "*".toList then
      return .term (.filter field .isNotNull [] raw)
    let op := if u.quoted then base else listOp base u.value
    if op.isComparison then
      if !(← isComparableValue field u.value) then
        return .error ("non-numeric value \"" ++ String.ofList u.value ++
          "\" for comparison on field \"" ++ String.ofList field ++ "\"")
    return .term (.filter field op u.value raw)

/-- A quoted word searches; so does a word without an operator. -/
def classifyToken (raw : Text) : Except Panic Classified := do
  if raw.head? = some '"' then
    let u ← unquote raw
    match u.error with
    | some e => return .error e
    | none => return .term (.search u.value raw)
  match matchFilter raw with
  | some (field, op, rest) =>
    if op = .colon && field = "datatype".toList then
      sugared (fun name => .datatype name raw) rest
    else
      match (if op = .colon then containName field else none) with
      | some name => classifyContain name rest raw
      | none => classifyFilter field op rest raw
  | none =>
    if raw.any fun c => c = ':' || c = '<' || c = '>' || c = '"' then
      return .error "could not parse term"
    else return .term (.search raw raw)

/-! ## Containment -/

def text (v : Text) : Json := .str (String.ofList v)

/-- The metadata that an artifact has to contain. -/
def containFragment (name : ContainName) (key : Option Text) (value : Text) : Json :=
  match name with
  | .format => .obj [("format", text value)]
  | .col => .obj [("column_names", .arr [text value])]
  | .dim => .obj [("dimensions", .arr [.obj [("name", text value)]])]
  | .pii =>
    .obj [("columns", .arr [.obj [("classifications", .arr [.obj [("category", text value)]])]])]
  | .attr =>
    .obj [("attributes", .obj [(String.ofList (key.getD []),
      .obj [("type", .str "String"), ("value", text value)])])]

mutual

/-- Objects merge by their keys, arrays are concatenated, anything else is a conflict. -/
def tryMerge (a : Json) : Json → Option Json
  | .arr bs =>
    match a with
    | .null => some (.arr bs)
    | .arr as => some (.arr (as ++ bs))
    | _ => none
  | .obj bm =>
    match a with
    | .null => some (.obj bm)
    | .obj am => (mergeEntries am bm).map .obj
    | _ => none
  | b =>
    match a with
    | .null => some b
    | _ => none

/-- Merges a fragment's entries one after the other; one conflict fails all. -/
def mergeEntries (out : List (String × Json)) : List (String × Json) → Option (List (String × Json))
  | [] => some out
  | (k, v) :: bm => do
    let merged ← tryMerge ((out.lookup k).getD .null) v
    mergeEntries (out.filter (fun e => e.1 ≠ k) ++ [(k, merged)]) bm

end

/-! ## Parsing -/

def ContainName.str : ContainName → String
  | .format => "format"
  | .col => "col"
  | .dim => "dim"
  | .pii => "pii"
  | .attr => "attr"

/-- The terms and errors so far, and the merged fragments. -/
structure ParseState where
  terms : List QueryTerm
  errors : List ParseError
  containAcc : Json
  hasDatatype : Bool

def ParseState.fail (st : ParseState) (tok : Word) (message : String) : ParseState :=
  { st with errors := st.errors ++ [⟨tok.text, tok.start, message⟩] }

/-- What the loop of `parse_query` does with a token. -/
def parseToken (st : ParseState) (tok : Word) : Except Panic ParseState := do
  match ← classifyToken tok.text with
  | .error message => return st.fail tok message
  | .term term =>
    match term with
    | .contain name key value _ =>
      match tryMerge st.containAcc (containFragment name key value) with
      | some acc => return { st with containAcc := acc, terms := st.terms ++ [term] }
      | none => return st.fail tok ("duplicate " ++ name.str ++ " term")
    | .datatype .. =>
      if st.hasDatatype then return st.fail tok "duplicate datatype term"
      else return { st with hasDatatype := true, terms := st.terms ++ [term] }
    | _ => return { st with terms := st.terms ++ [term] }

/-- All words in turn; an error does not stop the parser. -/
def parseQuery (input : Text) : Except Panic (List QueryTerm × List ParseError) := do
  let st ← (tokenize input).foldlM parseToken ⟨[], [], .obj [], false⟩
  return (st.terms, st.errors)

/-! ## Times -/

/-- The seconds since the epoch at which the calendar of `chrono` starts and ends. -/
def minSeconds : Int := -8334601228800

/-- The last second `chrono` can represent. -/
def maxSeconds : Int := 8210266876799

/-- A `DateTime<Utc>`, in nanoseconds since the epoch. -/
structure UtcTime where
  nanos : Int
  min_le : minSeconds * 10 ^ 9 ≤ nanos
  lt_max : nanos < (maxSeconds + 1) * 10 ^ 9

/-- `Duration::milliseconds`, in nanoseconds. -/
def durationMilliseconds (ms : Int) : Except Panic Int :=
  if ms < -(2 ^ 63 - 1) then .error .duration else .ok (ms * 10 ^ 6)

/-- `DateTime - TimeDelta` -/
def UtcTime.sub (now : UtcTime) (duration : Int) : Except Panic UtcTime :=
  if h : minSeconds * 10 ^ 9 ≤ now.nanos - duration ∧
      now.nanos - duration < (maxSeconds + 1) * 10 ^ 9 then
    .ok ⟨now.nanos - duration, h.1, h.2⟩
  else .error .date

/-- Year, month and day of a day since the epoch, in the proleptic Gregorian calendar. -/
def civil (day : Int) : Int × Nat × Nat :=
  -- Years start in March here, so that the day a leap year adds comes last.
  let shifted := day + 719468
  let era := shifted / 146097
  let dayOfEra := (shifted % 146097).toNat
  let yearOfEra := (dayOfEra - dayOfEra / 1460 + dayOfEra / 36524 - dayOfEra / 146096) / 365
  let dayOfYear := dayOfEra - (365 * yearOfEra + yearOfEra / 4 - yearOfEra / 100)
  let shiftedMonth := (5 * dayOfYear + 2) / 153
  let month := if shiftedMonth < 10 then shiftedMonth + 3 else shiftedMonth - 9
  let year := era * 400 + yearOfEra + (if month ≤ 2 then 1 else 0)
  (year, month, dayOfYear - (153 * shiftedMonth + 2) / 5 + 1)

def padded (width n : Nat) : String :=
  let digits := toString n
  String.ofList (List.replicate (width - digits.length) '0') ++ digits

/-- `%Y`: a sign where the year has not four digits. -/
def yearText (year : Int) : String :=
  if 0 ≤ year ∧ year ≤ 9999 then padded 4 year.toNat
  else (if year < 0 then "-" else "+") ++ padded 4 year.natAbs

/-- `%Y-%m-%dT%H:%M:%S%.3fZ` -/
def UtcTime.format (t : UtcTime) : Text :=
  let seconds := t.nanos / 10 ^ 9
  let millis := (t.nanos % 10 ^ 9 / 10 ^ 6).toNat
  let ofDay := (seconds % 86400).toNat
  let date := civil (seconds / 86400)
  (yearText date.1 ++ "-" ++ padded 2 date.2.1 ++ "-" ++ padded 2 date.2.2 ++ "T" ++
    padded 2 (ofDay / 3600) ++ ":" ++ padded 2 (ofDay / 60 % 60) ++ ":" ++ padded 2 (ofDay % 60) ++
      "." ++ padded 3 millis ++ "Z").toList

/-! ## Compilation -/

/-- Milliseconds of a unit of a relative date. -/
def unitMs (unit : Char) : Nat :=
  if unit = 'm' then 60000
  else if unit = 'h' then 3600000
  else if unit = 'd' then 86400000
  else if unit = 'w' then 7 * 86400000
  else if unit = 'y' then 365 * 86400000
  else 0

/-- Rounded, and saturated at the ends of the range. -/
def deltaMs (magnitude : F64) (unit : Char) : Int :=
  ((magnitude.mul (F64.ofNat (unitMs unit))).round).toI64

/-- Sizes become bytes, relative dates become moments. -/
def coerceValue (field value : Text) (now : UtcTime) : Except Panic Text := do
  if isBytesField field then
    if let some (mantissa, exp) ← parseByte value then
      return (toString ((mantissa.mul (F64.ofNat (1024 ^ exp))).round).toI64).toList
  if isAtField field then
    if let some (magnitude, unit) ← parseRelDate value then
      let duration ← durationMilliseconds (deltaMs magnitude unit)
      let time ← now.sub duration
      return time.format
  return value

/-- A value as the store's filter takes it. -/
inductive FilterValue where
  | string (v : Text)
  | int (i : Int)
  | float (f : F64)
  | bool (b : Bool)
  | stringList (vs : List Text)
  | null
  deriving DecidableEq

/-- `str::parse::<i64>` -/
def parseI64 (v : Text) : Option Int :=
  let (neg, digits) := F64.splitSign v
  if digits = [] ∨ ¬ digits.all F64.isDigit then none
  else
    let i : Int := if neg then -F64.digitsToNat digits else F64.digitsToNat digits
    if -2 ^ 63 ≤ i ∧ i < 2 ^ 63 then some i else none

/-- The operator decides which kind of value is expected. -/
def toFilterValue (op : QueryOp) (value : Text) : FilterValue :=
  match op with
  | .isNull | .isNotNull => .null
  | .in | .notIn => .stringList ((value.splitOn ',').map trim)
  | .contains | .startsWith | .endsWith => .string value
  | .eq | .ne | .gt | .gte | .lt | .lte =>
    if value = "true".toList then .bool true
    else if value = "false".toList then .bool false
    else
      match parseI64 value, F64.parse value with
      | some i, _ => .int i
      | none, some f => .float f
      | none, none => .string value

/-- The operators of a filter condition are those of the language. -/
structure FilterCondition where
  field : Text
  operator : QueryOp
  value : FilterValue
  deriving DecidableEq

/-- What the catalogue's store is asked. -/
structure QueryParams where
  page : Nat
  pageSize : Nat
  filter : Option (List FilterCondition)
  fileMetadata : Option String
  search : Option Text
  deriving DecidableEq

/-- What has been compiled of the terms so far. -/
structure CompileState where
  searchParts : List Text
  conditions : List FilterCondition
  metadata : Json

def CompileState.addCondition (st : CompileState) (condition : FilterCondition) : CompileState :=
  { st with conditions := st.conditions ++ [condition] }

/-- The condition of a data type; one that does not resolve matches nothing. -/
def datatypeCondition (digests : Option (List Text)) : FilterCondition :=
  match digests with
  | some [digest] => ⟨"meta.schema".toList, .eq, .string digest⟩
  | some (digest :: more) => ⟨"meta.schema".toList, .in, .stringList (digest :: more)⟩
  | _ => ⟨"meta.schema".toList, .eq, .string []⟩

/-- The value of a filter term, against the current time. -/
def coerced (field : Text) (op : QueryOp) (value : Text) (now : UtcTime) : Except Panic Text :=
  match op with
  | .in | .notIn => do
    let values ← (value.splitOn ',').mapM fun v => coerceValue field v now
    return [','].intercalate values
  | .isNull | .isNotNull => return value
  | _ => coerceValue field value now

variable (now : UtcTime) (resolveDatatype : Text → Option (List Text))

/-- What the loop of `compile_terms` does with a term. -/
def compileTerm (st : CompileState) : QueryTerm → Except Panic CompileState
  | .search text _ => return { st with searchParts := st.searchParts ++ [text] }
  | .datatype name _ => return st.addCondition (datatypeCondition (resolveDatatype name))
  | .filter field op value _ => do
    let v ← coerced field op value now
    return st.addCondition ⟨field, op, toFilterValue op v⟩
  | .contain .format _ value _ =>
    return st.addCondition ⟨"meta.format".toList, .eq, .string (value.map Char.toLower)⟩
  | .contain name key value _ =>
    -- Conflicts are reported by the parser; the first writer is kept.
    return { st with metadata := (tryMerge st.metadata (containFragment name key value)).getD st.metadata }

/-- Searches are joined, containments merged into one value. -/
def compileTerms (jsonText : Json → String) (terms : List QueryTerm) : Except Panic QueryParams := do
  let st ← terms.foldlM (compileTerm now resolveDatatype) ⟨[], [], .null⟩
  let search := trim ([' '].intercalate st.searchParts)
  pure
    { page := 0
      pageSize := 20
      filter := if st.conditions = [] then none else some st.conditions
      fileMetadata := if st.metadata = .null then none else some (jsonText st.metadata)
      search := if search = [] then none else some search }

/-- Terms with an error are left out of the query. -/
def compileQuery (jsonText : Json → String) (dsl : Text) : Except Panic QueryParams := do
  let (terms, _) ← parseQuery dsl
  compileTerms now resolveDatatype jsonText terms

end QueryDsl

end Mekhan
