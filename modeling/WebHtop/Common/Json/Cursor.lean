import WebHtop.Common.Json.Parser
import WebHtop.Lib.Reader

/-!
# The cursor of the JSON parser

The functions of common/json/parser.cpp with `pos` as an index, also where they fail, and with the
accesses of the second pass over a string as accesses. The other parser of this development is on
the unread text; both agree on every input. A loop over one class of characters ends where the class
does. Other loops take fuel for the bytes that are left, and `levels` is how many activations of
ParseValue may still be nested behind their check of the depth; neither runs out.

The last three fields of a cursor are observations, which no function reads: how many calls of
ParseValue got past its checks, how many of these have not returned, and the most there were of them
at a time.
-/

namespace WebHtop.Common

open WebHtop.Lib WebHtop.Lib.Decimal

structure Cursor where
  input : Bytes
  depth : Nat := 0
  nodes : Nat := 0
  pos : Nat := 0
  passed : Nat := 0
  active : Nat := 0
  deepest : Nat := 0

namespace Cursor

def atEnd (s : Cursor) : Bool := s.pos ≥ s.input.length

def peek (s : Cursor) : UInt8 := s.input.getD s.pos 0

def advance (n : Nat) (s : Cursor) : Cursor := { s with pos := s.pos + n }

/-- `while (!AtEnd() && p(input[pos])) ++pos`. -/
def skip (p : UInt8 → Bool) (s : Cursor) : Cursor :=
  s.advance ((s.input.drop s.pos).takeWhile p).length

def skipWhitespace (s : Cursor) : Cursor :=
  s.skip fun c => c = ch ' ' || c = ch '\t' || c = ch '\n' || c = ch '\r'

def here : Reader Cursor Cursor := fun s => (.value s, s)

def expect (c : UInt8) : Reader Cursor Unit := fun s =>
  if s.atEnd ∨ s.peek ≠ c then (.failed, s) else (.value (), s.advance 1)

/-! ## Strings -/

/-- The first loop of ParseString; the value is `needs_decode`. -/
def firstPass : (fuel : Nat) → Bool → Reader Cursor Bool
  | 0, _ => fun s => (.running, s)
  | fuel + 1, needsDecode => fun s =>
    if s.atEnd ∨ s.peek = ch '"' then (.value needsDecode, s)
    else if s.peek = ch '\\' then
      let s := s.advance 1
      if s.atEnd then (.failed, s)
      else
        let esc := s.peek
        let s := s.advance 1
        if esc = ch 'u' then
          if s.pos + 4 > s.input.length then (.failed, s)
          else if ((s.input.drop s.pos).take 4).all fun d => (hexDigit d).isSome then
            firstPass fuel true (s.advance 4)
          else (.failed, s)
        else firstPass fuel true s
    else if s.peek < 0x20 then (.failed, s)
    else if s.peek ≥ 128 then
      let length := utf8Length s.input s.pos
      if length = 0 then (.failed, s) else firstPass fuel needsDecode (s.advance length)
    else firstPass fuel needsDecode (s.advance 1)

/-- `case 'u'` of the second loop, from the index behind the escape. -/
def unicodeAt (raw : Bytes) : Reader Nat Bytes := fun i =>
  match parseHex4 (raw.drop i) with
  | none => (.failed, i)
  | some cp =>
    let i := i + 4
    if 0xD800 ≤ cp ∧ cp ≤ 0xDBFF then
      if i + 6 ≤ raw.length ∧ raw[i]? = some (ch '\\') ∧ raw[i + 1]? = some (ch 'u') then
        match parseHex4 (raw.drop (i + 2)) with
        | none => (.failed, i)
        | some low =>
          if low < 0xDC00 ∨ low > 0xDFFF then (.failed, i)
          else
            match encodeUtf8 (0x10000 + ((cp - 0xD800) <<< 10) + (low - 0xDC00)) with
            | none => (.failed, i + 6)
            | some b => (.value b, i + 6)
      else (.failed, i)
    else if 0xDC00 ≤ cp ∧ cp ≤ 0xDFFF then (.failed, i)
    else
      match encodeUtf8 cp with
      | none => (.failed, i)
      | some b => (.value b, i)

/-- The body of the second loop, and what it appends. The state is the index, which must stay inside
of `raw` where `raw[i]` is read. -/
def decodeUnit (raw : Bytes) : Reader Nat Bytes := fun i =>
  match raw[i]? with
  | none => (.outside, i)
  | some c =>
    if c ≠ ch '\\' then (.value [c], i + 1)
    else
      match raw[i + 1]? with
      | none => (.outside, i + 1)
      | some esc =>
        match escapeByte esc with
        | some b => (.value [b], i + 2)
        | none => if esc = ch 'u' then unicodeAt raw (i + 2) else (.failed, i + 2)

/-- The second loop of ParseString. -/
def secondPass (raw : Bytes) : (fuel : Nat) → Bytes → Reader Nat Bytes
  | 0, _ => fun i => (.running, i)
  | fuel + 1, decoded => fun i =>
    if i < raw.length then
      (decodeUnit raw >>= fun b => secondPass raw fuel (decoded ++ b)) i
    else (.value decoded, i)

def decode (raw : Bytes) : Reader Cursor Bytes := fun s =>
  ((secondPass raw (raw.length + 1) [] 0).1, s)

def parseString : Reader Cursor Bytes := do
  expect (ch '"')
  let start ← here
  let needsDecode ← firstPass (start.input.length - start.pos + 1) false
  expect (ch '"')
  let s ← here
  let raw := (s.input.drop start.pos).take (s.pos - start.pos - 1)
  if needsDecode then decode raw else pure raw

/-! ## Numbers -/

def skipSign (s : Cursor) : Cursor := if s.peek = ch '-' then s.advance 1 else s

def parseInt : Reader Cursor Unit := fun s =>
  if isDigit s.peek = false then (.failed, s)
  else if s.peek = ch '0' then
    let s := s.advance 1
    if s.atEnd = false ∧ isDigit s.peek then (.failed, s) else (.value (), s)
  else (.value (), s.skip isDigit)

/-- The digits that a fraction or an exponent must have. -/
def someDigits : Reader Cursor Bool := fun s =>
  if s.atEnd ∨ isDigit s.peek = false then (.failed, s) else (.value true, s.skip isDigit)

def parseFrac : Reader Cursor Bool := fun s =>
  if s.atEnd = false ∧ s.peek = ch '.' then someDigits (s.advance 1) else (.value false, s)

def skipExpSign (s : Cursor) : Cursor :=
  if s.atEnd = false ∧ (s.peek = ch '+' ∨ s.peek = ch '-') then s.advance 1 else s

def parseExp : Reader Cursor Bool := fun s =>
  if s.atEnd = false ∧ (s.peek = ch 'e' ∨ s.peek = ch 'E') then someDigits (s.advance 1).skipExpSign
  else (.value false, s)

variable {D : Type} [Double D]

/-- The conversion of the characters of a number. -/
def convert (num : Bytes) (isFloat : Bool) : Option (JSONValue D) :=
  if isFloat then ((Double.fromChars num).filter fun d => Double.isFinite d).map .double
  else if num.head? = some (ch '-') then (fromCharsInt64 num).map .int64
  else (fromCharsUInt64 num).map .uint64

def ofOption {α : Type} : Option α → Reader Cursor α
  | none => Reader.fail
  | some a => pure a

def parseNumber : Reader Cursor (JSONValue D) := do
  let start ← here
  Reader.modify skipSign
  parseInt
  let hasFrac ← parseFrac
  let hasExp ← parseExp
  let s ← here
  ofOption (convert ((s.input.drop start.pos).take (s.pos - start.pos)) (hasFrac || hasExp))

/-! ## Values -/

/-- The loop of ParseArray. -/
def parseItems (value : Reader Cursor (JSONValue D)) :
    (fuel : Nat) → List (JSONValue D) → Reader Cursor (JSONValue D)
  | 0, _ => fun s => (.running, s)
  | fuel + 1, arr => do
    let v ← value
    Reader.modify skipWhitespace
    let s ← here
    if s.peek = ch ']' then do
      Reader.modify (advance 1)
      pure (.array (arr ++ [v]))
    else if s.peek = ch ',' then do
      Reader.modify (advance 1)
      Reader.modify skipWhitespace
      let s ← here
      if s.peek = ch ']' then Reader.fail else parseItems value fuel (arr ++ [v])
    else Reader.fail

def parseArray (value : Reader Cursor (JSONValue D)) : Reader Cursor (JSONValue D) := do
  expect (ch '[')
  Reader.modify skipWhitespace
  let s ← here
  if s.peek = ch ']' then do
    Reader.modify (advance 1)
    pure (.array [])
  else parseItems value (s.input.length - s.pos + 1) []

/-- What ParseObject checks of a key; the keys of `obj` are the set `keys` of the source. -/
def refused (obj : List (Bytes × JSONValue D)) (key : Bytes) : Bool :=
  decide (obj.length ≥ 4096) || (obj.map Prod.fst).contains key

/-- The loop of ParseObject. -/
def parseMembers (value : Reader Cursor (JSONValue D)) :
    (fuel : Nat) → List (Bytes × JSONValue D) → Reader Cursor (JSONValue D)
  | 0, _ => fun s => (.running, s)
  | fuel + 1, obj => do
    Reader.modify skipWhitespace
    let key ← parseString
    if refused obj key then Reader.fail
    else do
      Reader.modify skipWhitespace
      expect (ch ':')
      Reader.modify skipWhitespace
      let v ← value
      Reader.modify skipWhitespace
      let s ← here
      if s.peek = ch '}' then do
        Reader.modify (advance 1)
        pure (.object (obj ++ [(key, v)]))
      else if s.peek = ch ',' then do
        Reader.modify (advance 1)
        Reader.modify skipWhitespace
        let s ← here
        if s.peek = ch '}' then Reader.fail else parseMembers value fuel (obj ++ [(key, v)])
      else Reader.fail

def parseObject (value : Reader Cursor (JSONValue D)) : Reader Cursor (JSONValue D) := do
  expect (ch '{')
  Reader.modify skipWhitespace
  let s ← here
  if s.peek = ch '}' then do
    Reader.modify (advance 1)
    pure (.object [])
  else parseMembers value (s.input.length - s.pos + 1) []

def keyword (text : Bytes) (v : JSONValue D) : Reader Cursor (JSONValue D) := fun s =>
  if (s.input.drop s.pos).take text.length = text then (.value v, s.advance text.length)
  else (.failed, s)

/-- The switch on the next character. -/
def parseSwitch (value : Reader Cursor (JSONValue D)) : Reader Cursor (JSONValue D) := do
  let s ← here
  let c := s.peek
  if c = ch 'n' then keyword (lit "null") .null
  else if c = ch 't' then keyword (lit "true") (.bool true)
  else if c = ch 'f' then keyword (lit "false") (.bool false)
  else if c = ch '"' then do
    let text ← parseString
    pure (.string text)
  else if c = ch '[' then parseArray value
  else if c = ch '{' then parseObject value
  else if c = ch '-' ∨ isDigit c then parseNumber
  else Reader.fail

/-- Behind the checks of ParseValue and its DepthGuard. -/
def enter (s : Cursor) : Cursor :=
  { s with
    nodes := s.nodes + 1
    depth := s.depth + 1
    passed := s.passed + 1
    active := s.active + 1
    deepest := max s.deepest (s.active + 1) }

/-- The destructor of DepthGuard. -/
def leave (s : Cursor) : Cursor := { s with depth := s.depth - 1, active := s.active - 1 }

/-- The checks of ParseValue and its DepthGuard around the rest of it. -/
def guarded (body : Reader Cursor (JSONValue D)) : Reader Cursor (JSONValue D) := fun s =>
  if s.depth ≥ 64 then (.failed, s)
  else if s.nodes + 1 > 1000000 then (.failed, { s with nodes := s.nodes + 1 })
  else
    let r := body s.enter
    (r.1, r.2.leave)

def parseValue : (levels : Nat) → Reader Cursor (JSONValue D)
  | 0 => guarded fun s => (.running, s)
  | levels + 1 => guarded do
    Reader.modify skipWhitespace
    parseSwitch (parseValue levels)

def parse (input : Bytes) : Outcome (JSONValue D) × Cursor :=
  if input.length > 8 * 1024 * 1024 then (.failed, { input })
  else
    (do
      let root ← parseValue 64
      Reader.modify skipWhitespace
      let s ← here
      if s.atEnd then pure root else Reader.fail : Reader Cursor (JSONValue D)) { input }

end Cursor

end WebHtop.Common
