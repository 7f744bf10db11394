import Mekhan.Catalogue.QueryDsl
import Mekhan.Infra.Pattern

/-!
# The query language in the browser

`app/src/lib/components/data/query-language.ts`: the parser of the query language that the data browser
shows its terms with. Its types are those of the compiler on the server.

A string is the list of its characters. It is read by UTF-16 code units, but every character the parser
looks for is a single one, so only the positions of tokens depend on it. Regular expressions are
patterns. Objects have a prototype: `Object.prototype` unless it has been set, and with it the members
every object inherits.
-/

namespace Mekhan

namespace QueryLanguage

open Infra QueryDsl

/-! ## Regular expressions -/

/-- `\s` -/
def isSpace (c : Char) : Bool :=
  let n := c.toNat
  (9 ≤ n && n ≤ 13) || n == 0x20 || n == 0xA0 || n == 0x1680 || (0x2000 ≤ n && n ≤ 0x200A) ||
    n == 0x2028 || n == 0x2029 || n == 0x202F || n == 0x205F || n == 0x3000 || n == 0xFEFF

/-- What `.` does not match. -/
def isLineTerminator (c : Char) : Bool := c = '\n' || c = '\r' || c.toNat == 0x2028 || c.toNat == 0x2029

def dot : Pattern Char := .one fun c => !isLineTerminator c

/-- `\d` -/
def digit : Pattern Char := .one F64.isDigit

def char (c : Char) : Pattern Char := .one fun d => d = c

/-- `\d+(\.\d+)?` -/
def unsignedRe : Pattern Char := .seq (.plus digit) (.opt (.seq (char '.') (.plus digit)))

def numRe : Pattern Char := .seq (.opt (char '-')) unsignedRe

/-- Letters are compared without regard to case. -/
def byteRe : Pattern Char :=
  .seq unsignedRe (.seq (.one fun c => c.toLower ∈ ['k', 'm', 'g', 't'])
    (.opt (.seq (.opt (.one fun c => c.toLower = 'i')) (.one fun c => c.toLower = 'b'))))

def relDateRe : Pattern Char :=
  .seq (char '-') (.seq unsignedRe (.one fun c => c ∈ ['m', 'h', 'd', 'w', 'y']))

def isoDateRe : Pattern Char :=
  .seq (.times digit 4) (.seq (char '-') (.seq (.times digit 2) (.seq (char '-')
    (.seq (.times digit 2) (.opt (.seq (.one fun c => c = 'T' || c = ' ') (.many dot)))))))

/-- `[A-Za-z_][A-Za-z0-9_.]*` -/
def fieldRe : Pattern Char := .seq (.one isFieldStart) (.many (.one isFieldChar))

/-- The operators, in the order of the alternatives. -/
def opTexts : List (Text × OpText) :=
  [(['>', '='], .gte), (['<', '='], .lte), (['!', '='], .bangEq), (['!', ':'], .bangColon),
    (['>'], .gt), (['<'], .lt), (['~'], .tilde), (['^'], .caret), (['$'], .dollar), ([':'], .colon)]

/-- The first alternative that is followed by no line terminator. -/
def execOp (after : Text) : Option (OpText × Text) :=
  opTexts.findSome? fun op =>
    let rest := after.drop op.1.length
    if op.1.isPrefixOf after && rest.all fun c => !isLineTerminator c then some (op.2, rest) else none

/-- `FILTER_RE.exec`: the longest field that the rest of the expression matches after. -/
def filterRe (raw : Text) : Option (Text × OpText × Text) :=
  (List.range (raw.length + 1)).reverse.findSome? fun n =>
    if fieldRe.test (raw.take n) then (execOp (raw.drop n)).map fun m => (raw.take n, m.1, m.2)
    else none

/-! ## Tokens -/

/-- Positions count UTF-16 units here, bytes there. -/
def utf16Size (c : Char) : Nat := if c.toNat < 0x10000 then 1 else 2

def tokenize (input : Text) : List Word := Word.words isSpace utf16Size input

/-- As in the service, where no position can be inside a character. -/
def unquote (v : Text) : Unquoted :=
  if v.head? ≠ some '"' then ⟨v, false, none⟩
  else
    match (v.drop 1).findIdx? (· = '"') with
    | none => ⟨v.drop 1, true, some "unterminated quote"⟩
    | some i =>
      let stop := i + 1
      if stop ≠ v.length - 1 then ⟨v, true, some "unexpected characters after closing quote"⟩
      else ⟨(v.take stop).drop 1, true, none⟩

/-! ## Classification -/

/-- Regular expressions decide where the service parses. -/
def isComparableValue (field value : Text) : Bool :=
  if numRe.test value then true
  else if isBytesField field && byteRe.test value then true
  else isAtField field && (relDateRe.test value || isoDateRe.test value)

/-- A term whose value is the rest of the word without its quotes. -/
def sugared (make : Text → QueryTerm) (rest : Text) : Classified :=
  let u := unquote rest
  match u.error with
  | some e => .error e
  | none => if u.value = [] then .error "missing value" else .term (make u.value)

def classifyContain (name : ContainName) (rest raw : Text) : Classified :=
  if name = .attr then
    match rest.findIdx? (· = '=') with
    | none => .error "attr term requires KEY=VALUE"
    | some 0 => .error "attr term requires KEY=VALUE"
    | some eq => sugared (fun v => .contain .attr (some (rest.take eq)) v raw) (rest.drop (eq + 1))
  else sugared (fun v => .contain name none v raw) rest

def classifyFilter (field : Text) (opText : OpText) (rest raw : Text) : Classified :=
  if rest = [] then .error "missing value"
  else
    let u := unquote rest
    match u.error with
    | some e => .error e
    | none =>
      let base := baseOp opText
      if !u.quoted && base = .eq && u.value = "null".toList then .term (.filter field .isNull [] raw)
      else if !u.quoted && base = .eq && u.value = "*".toList then
        .term (.filter field .isNotNull [] raw)
      else
        let op := if u.quoted then base else listOp base u.value
        if op.isComparison && !isComparableValue field u.value then
          .error ("non-numeric value \"" ++ String.ofList u.value ++
            "\" for comparison on field \"" ++ String.ofList field ++ "\"")
        else .term (.filter field op u.value raw)

def classifyToken (raw : Text) : Classified :=
  if raw.head? = some '"' then
    let u := unquote raw
    match u.error with
    | some e => .error e
    | none => .term (.search u.value raw)
  else
    match filterRe raw with
    | some (field, op, rest) =>
      if op = .colon && field = "datatype".toList then sugared (fun name => .datatype name raw) rest
      else
        match (if op = .colon then containName field else none) with
        | some name => classifyContain name rest raw
        | none => classifyFilter field op rest raw
    | none =>
      if raw.any fun c => c = ':' || c = '<' || c = '>' || c = '"' then .error "could not parse term"
      else .term (.search raw raw)

/-! ## Objects -/

/-- A value of the language, an object with its prototype. -/
inductive JsValue where
  | undefined
  | string (v : Text)
  | array (items : List JsValue)
  /-- Its own properties, and its prototype where that is not `Object.prototype`. -/
  | object (own : List (Text × JsValue)) (proto : Option JsValue)
  | objectPrototype
  /-- A method of `Object.prototype`. -/
  | method

namespace JsValue

/-- The key whose assignment sets the prototype. -/
def protoKey : Text := "__proto__".toList

/-- What every object inherits. -/
def methodNames : List Text :=
  ["constructor".toList, "hasOwnProperty".toList, "isPrototypeOf".toList,
    "propertyIsEnumerable".toList, "toLocaleString".toList, "toString".toList, "valueOf".toList,
    "__defineGetter__".toList, "__defineSetter__".toList, "__lookupGetter__".toList,
    "__lookupSetter__".toList]

instance (key : Text) : Decidable (key ∈ methodNames) := inferInstance

/-- What an object has under a key from `Object.prototype`. -/
def inherited (key : Text) : JsValue :=
  if key = protoKey then objectPrototype else if key ∈ methodNames then method else undefined

/-- `o[key]` -/
def get (key : Text) : JsValue → JsValue
  | object own none => (own.lookup key).getD (inherited key)
  | object own (some proto) => (own.lookup key).getD (if key = protoKey then proto else proto.get key)
  | _ => undefined

/-- `o[key] = v`: without a property of its own, `__proto__` sets the prototype. -/
def set (o : JsValue) (key : Text) (v : JsValue) : JsValue :=
  match o with
  | object own proto =>
    if (own.lookup key).isSome then
      object (own.map fun e => if e.1 = key then (key, v) else e) proto
    else if key = protoKey then
      match v with
      | object .. | objectPrototype => object own (some v)
      | _ => object own proto
    else object (own ++ [(key, v)]) proto
  | o => o

/-- `{ ...o }` -/
def spread : JsValue → JsValue
  | object own _ => object own none
  | _ => object [] none

end JsValue

mutual

/-- Arrays and objects are joined; any other two values are in conflict. -/
def tryMerge (a : JsValue) : JsValue → Option JsValue
  | .array bs =>
    match a with
    | .undefined => some (.array bs)
    | .array as => some (.array (as ++ bs))
    | _ => none
  | .object own proto =>
    match a with
    | .undefined => some (.object own proto)
    | .object .. | .objectPrototype => mergeEntries a.spread own
    | _ => none
  | .objectPrototype =>
    match a with
    | .undefined => some .objectPrototype
    | .object .. | .objectPrototype => some a.spread
    | _ => none
  | b =>
    match a with
    | .undefined => some b
    | _ => none

/-- As the service, over the object's own keys. -/
def mergeEntries (out : JsValue) : List (Text × JsValue) → Option JsValue
  | [] => some out
  | (k, v) :: entries => do
    let merged ← tryMerge (out.get k) v
    mergeEntries (out.set k merged) entries

end

def containFragment (name : ContainName) (key : Option Text) (value : Text) : JsValue :=
  let object (own : List (Text × JsValue)) : JsValue := .object own none
  match name with
  | .format => object [("format".toList, .string value)]
  | .col => object [("column_names".toList, .array [.string value])]
  | .dim => object [("dimensions".toList, .array [object [("name".toList, .string value)]])]
  | .pii =>
    object [("columns".toList, .array [object [("classifications".toList,
      .array [object [("category".toList, .string value)]])]])]
  | .attr =>
    object [("attributes".toList, object [(key.getD [],
      object [("type".toList, .string "String".toList), ("value".toList, .string value)])])]

/-! ## Parsing -/

structure ParseState where
  terms : List QueryTerm
  errors : List ParseError
  containAcc : JsValue
  hasDatatype : Bool

def ParseState.fail (st : ParseState) (tok : Word) (message : String) : ParseState :=
  { st with errors := st.errors ++ [⟨tok.text, tok.start, message⟩] }

/-- `containAcc ?? {}` -/
def orEmpty : JsValue → JsValue
  | .undefined => .object [] none
  | v => v

/-- What the loop of `parseQuery` does with a token. -/
def parseToken (st : ParseState) (tok : Word) : ParseState :=
  match classifyToken tok.text with
  | .error message => st.fail tok message
  | .term term =>
    match term with
    | .contain name key value _ =>
      match tryMerge (orEmpty st.containAcc) (containFragment name key value) with
      | some acc => { st with containAcc := acc, terms := st.terms ++ [term] }
      | none => st.fail tok ("duplicate " ++ name.str ++ " term")
    | .datatype .. =>
      if st.hasDatatype then st.fail tok "duplicate datatype term"
      else { st with hasDatatype := true, terms := st.terms ++ [term] }
    | _ => { st with terms := st.terms ++ [term] }

/-- As the service's, but nothing panics. -/
def parseQuery (input : Text) : List QueryTerm × List ParseError :=
  let st := (tokenize input).foldl parseToken ⟨[], [], .undefined, false⟩
  (st.terms, st.errors)

/-! ## Formatting -/

/-- Quotes inside the text stay as they are. -/
def quoteText (v : Text) : Text := '"' :: (v ++ ['"'])

/-- `/[\s"]/` -/
def hasSpaceOrQuote (v : Text) : Bool := v.any fun c => isSpace c || c = '"'

/-- Quotes where the text would not be one word. -/
def quoteIfNeeded (v : Text) : Text := if v = [] || hasSpaceOrQuote v then quoteText v else v

/-- Also quotes what the parser would read as another operator. -/
def formatFilterValue (v : Text) (op : QueryOp) : Text :=
  let needsQuote := v = [] || hasSpaceOrQuote v ||
    ((op = .eq || op = .ne) && (v = "null".toList || v = "*".toList || v.contains ','))
  if needsQuote then quoteText v else v

/-- A search text is quoted if it would be read as another term. -/
def formatTerm : QueryTerm → Text
  | .search text _ =>
    if text ≠ [] ∧ ¬hasSpaceOrQuote text then
      match classifyToken text with
      | .term (.search ..) => text
      | _ => quoteText text
    else quoteText text
  | .datatype name _ => "datatype:".toList ++ quoteIfNeeded name
  | .contain .attr key value _ =>
    "attr:".toList ++ (key.getD "undefined".toList ++ '=' :: quoteIfNeeded value)
  | .contain name _ value _ => name.str.toList ++ ':' :: quoteIfNeeded value
  | .filter field op value _ =>
    match op with
    | .isNull => field ++ ":null".toList
    | .isNotNull => field ++ ":*".toList
    | .in => field ++ ':' :: value
    | .notIn => field ++ "!=".toList ++ value
    | .eq => field ++ ':' :: formatFilterValue value .eq
    | .ne => field ++ "!=".toList ++ formatFilterValue value .ne
    | .contains => field ++ '~' :: quoteIfNeeded value
    | .startsWith => field ++ '^' :: quoteIfNeeded value
    | .endsWith => field ++ '$' :: quoteIfNeeded value
    | .gt => field ++ '>' :: formatFilterValue value .gt
    | .gte => field ++ ">=".toList ++ formatFilterValue value .gte
    | .lt => field ++ '<' :: formatFilterValue value .lt
    | .lte => field ++ "<=".toList ++ formatFilterValue value .lte

/-- The terms with blanks between. -/
def formatQuery (terms : List QueryTerm) : Text := [' '].intercalate (terms.map formatTerm)

end QueryLanguage

end Mekhan
