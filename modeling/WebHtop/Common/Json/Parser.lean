import WebHtop.Common.Json.Value
import WebHtop.Common.Utf8

/-!
# The JSON parser

common/json/parser.cpp. The cursor is the unread suffix of the input, so `pos` is the
length of the input less that of `rest`. A token that fails leaves the cursor at its
start: the parser gives up at the first failure and reads nothing more. Loops and
recursion take fuel, one unit a call or turn; `parse` gives enough of it.
-/

namespace WebHtop.Common

open WebHtop.Lib.Decimal

/-- HexDigit_. -/
def hexDigit (c : UInt8) : Option Nat :=
  if c ≥ ch '0' ∧ c ≤ ch '9' then some (c.toNat - 48)
  else if c ≥ ch 'a' ∧ c ≤ ch 'f' then some (c.toNat - 97 + 10)
  else if c ≥ ch 'A' ∧ c ≤ ch 'F' then some (c.toNat - 65 + 10)
  else none

/-- ParseHex4_, on the segment from its start position on. -/
def parseHex4 (raw : Bytes) : Option Nat :=
  if raw.length < 4 then none
  else (raw.take 4).foldlM (fun res c => (hexDigit c).map fun digit => res <<< 4 ||| digit) 0

structure ParserState where
  rest : Bytes
  depth : Nat := 0
  nodes : Nat := 0

def skipWhitespace : Bytes → Bytes
  | [] => []
  | c :: cs =>
    if c = ch ' ' ∨ c = ch '\t' ∨ c = ch '\n' ∨ c = ch '\r' then skipWhitespace cs else c :: cs

/-! ## Strings -/

/-- The first pass of ParseString: the length of the raw segment up to a quotation mark
or the end of input, and whether it has escapes. -/
def scanString : Nat → Bytes → Option (Nat × Bool)
  | 0, _ => none
  | _ + 1, [] => some (0, false)
  | fuel + 1, c :: cs =>
    if c = ch '"' then some (0, false)
    else if c = ch '\\' then
      match cs with
      | [] => none
      | esc :: cs =>
        if esc = ch 'u' then
          if cs.length < 4 then none
          else if (cs.take 4).all fun d => (hexDigit d).isSome then
            (scanString fuel (cs.drop 4)).map fun r => (r.1 + 6, true)
          else none
        else (scanString fuel cs).map fun r => (r.1 + 2, true)
    else if c < 0x20 then none
    else if c ≥ 128 then
      let length := utf8Length (c :: cs) 0
      if length = 0 then none
      else (scanString fuel ((c :: cs).drop length)).map fun r => (r.1 + length, r.2)
    else (scanString fuel cs).map fun r => (r.1 + 1, r.2)

/-- `outside`: the pass would read behind the end of the raw segment. -/
inductive Decoded where
  | text (b : Bytes)
  | malformed
  | outside

def Decoded.prepend (b : Bytes) : Decoded → Decoded
  | .text d => .text (b ++ d)
  | .malformed => .malformed
  | .outside => .outside

/-- The two-character escapes of the second pass. -/
def escapeByte (esc : UInt8) : Option UInt8 :=
  if esc = ch '"' then some (ch '"')
  else if esc = ch '\\' then some (ch '\\')
  else if esc = ch '/' then some (ch '/')
  else if esc = ch 'b' then some 8
  else if esc = ch 'f' then some 12
  else if esc = ch 'n' then some 10
  else if esc = ch 'r' then some 13
  else if esc = ch 't' then some 9
  else none

/-- `case 'u'` of the second pass, behind the two bytes of the escape: the encoded code
point and the rest of the segment. -/
def unicodeEscape (raw : Bytes) : Option (Bytes × Bytes) :=
  match parseHex4 raw with
  | none => none
  | some cp =>
    let rest := raw.drop 4
    if 0xD800 ≤ cp ∧ cp ≤ 0xDBFF then
      if 6 ≤ rest.length ∧ rest.take 2 = [ch '\\', ch 'u'] then
        match parseHex4 (rest.drop 2) with
        | none => none
        | some low =>
          if low < 0xDC00 ∨ low > 0xDFFF then none
          else
            (encodeUtf8 (0x10000 + ((cp - 0xD800) <<< 10) + (low - 0xDC00))).map
              fun b => (b, rest.drop 6)
      else none
    else if 0xDC00 ≤ cp ∧ cp ≤ 0xDFFF then none
    else (encodeUtf8 cp).map fun b => (b, rest)

/-- The second pass of ParseString, over the raw segment. -/
def decodeString : Nat → Bytes → Decoded
  | 0, _ => .malformed
  | _ + 1, [] => .text []
  | fuel + 1, c :: cs =>
    if c ≠ ch '\\' then (decodeString fuel cs).prepend [c]
    else
      match cs with
      | [] => .outside
      | esc :: cs =>
        match escapeByte esc with
        | some b => (decodeString fuel cs).prepend [b]
        | none =>
          if esc = ch 'u' then
            match unicodeEscape cs with
            | none => .malformed
            | some (b, cs) => (decodeString fuel cs).prepend b
          else .malformed

/-- ParseString: the decoded string and the input behind it. -/
def parseString (rest : Bytes) : Option (Bytes × Bytes) :=
  match rest with
  | [] => none
  | q :: body =>
    if q = ch '"' then
      match scanString (body.length + 1) body with
      | none => none
      | some (n, needsDecode) =>
        match body.drop n with
        | [] => none
        | q :: after =>
          if q = ch '"' then
            let raw := body.take n
            if needsDecode then
              match decodeString (raw.length + 1) raw with
              | .text d => some (d, after)
              | .malformed => none
              | .outside => none
            else some (raw, after)
          else none
    else none

/-! ## Numbers -/

/-- `std::from_chars` for `std::uint64_t` and `std::int64_t`. -/
def fromCharsUInt64 (t : Bytes) : Option UInt64 :=
  let digits := t.takeWhile isDigit
  if digits = [] ∨ value digits ≥ 2 ^ 64 then none else some (UInt64.ofNat (value digits))

def fromCharsInt64 (t : Bytes) : Option Int64 :=
  if t.head? = some (ch '-') then
    let digits := t.tail.takeWhile isDigit
    if digits = [] ∨ value digits > 2 ^ 63 then none
    else some (Int64.ofInt (-(value digits : Int)))
  else
    let digits := t.takeWhile isDigit
    if digits = [] ∨ value digits ≥ 2 ^ 63 then none else some (Int64.ofInt (value digits))

def skipSign (rest : Bytes) : Bytes :=
  match rest with
  | c :: cs => if c = ch '-' then cs else c :: cs
  | [] => []

def scanInt (rest : Bytes) : Option Bytes :=
  match rest with
  | [] => none
  | c :: cs =>
    if isDigit c = false then none
    else if c = ch '0' then
      match cs with
      | d :: ds => if isDigit d then none else some (d :: ds)
      | [] => some []
    else some (rest.dropWhile isDigit)

/-- The fraction: whether there is one, and what follows. -/
def scanFrac (rest : Bytes) : Option (Bool × Bytes) :=
  match rest with
  | c :: cs =>
    if c = ch '.' then
      match cs with
      | d :: ds => if isDigit d then some (true, (d :: ds).dropWhile isDigit) else none
      | [] => none
    else some (false, rest)
  | [] => some (false, [])

def skipExpSign (rest : Bytes) : Bytes :=
  match rest with
  | c :: cs => if c = ch '+' ∨ c = ch '-' then cs else c :: cs
  | [] => []

def scanExp (rest : Bytes) : Option (Bool × Bytes) :=
  match rest with
  | c :: cs =>
    if c = ch 'e' ∨ c = ch 'E' then
      match skipExpSign cs with
      | d :: ds => if isDigit d then some (true, (d :: ds).dropWhile isDigit) else none
      | [] => none
    else some (false, rest)
  | [] => some (false, [])

variable {D : Type} [Double D]

/-- ParseNumber: the number and the input behind it. -/
def parseNumber (rest : Bytes) : Option (JSONValue D × Bytes) := do
  let afterInt ← scanInt (skipSign rest)
  let (hasFrac, afterFrac) ← scanFrac afterInt
  let (hasExp, after) ← scanExp afterFrac
  let num := rest.take (rest.length - after.length)
  if hasFrac || hasExp then
    let d ← Double.fromChars num
    if Double.isFinite d then some (.double d, after) else none
  else if num.head? = some (ch '-') then
    let i ← fromCharsInt64 num
    some (.int64 i, after)
  else
    let u ← fromCharsUInt64 num
    some (.uint64 u, after)

/-! ## Values -/

/-- A keyword of the switch in ParseValue. -/
def keyword (text : Bytes) (v : JSONValue D) (st : ParserState) :
    Option (JSONValue D) × ParserState :=
  if st.rest.take text.length = text then
    (some v, { st with rest := st.rest.drop text.length })
  else (none, st)

def token {α : Type} (r : Option (α × Bytes)) (f : α → JSONValue D) (st : ParserState) :
    Option (JSONValue D) × ParserState :=
  match r with
  | none => (none, st)
  | some (a, rest) => (some (f a), { st with rest })

mutual

def parseValue (fuel : Nat) (st : ParserState) : Option (JSONValue D) × ParserState :=
  match fuel with
  | 0 => (none, st)
  | fuel + 1 =>
    if st.depth ≥ 64 then (none, st)
    else
      let st := { st with nodes := st.nodes + 1 }
      if st.nodes > 1000000 then (none, st)
      else
        let r := parseSwitch fuel
          { st with depth := st.depth + 1, rest := skipWhitespace st.rest }
        (r.1, { r.2 with depth := r.2.depth - 1 })
termination_by structural fuel

/-- The switch on the next character. -/
def parseSwitch (fuel : Nat) (st : ParserState) : Option (JSONValue D) × ParserState :=
  match fuel with
  | 0 => (none, st)
  | fuel + 1 =>
    match st.rest with
    | [] => (none, st)
    | c :: _ =>
      if c = ch 'n' then keyword (lit "null") .null st
      else if c = ch 't' then keyword (lit "true") (.bool true) st
      else if c = ch 'f' then keyword (lit "false") (.bool false) st
      else if c = ch '"' then token (parseString st.rest) .string st
      else if c = ch '[' then parseArray fuel st
      else if c = ch '{' then parseObject fuel st
      else if c = ch '-' ∨ isDigit c then token (parseNumber st.rest) id st
      else (none, st)
termination_by structural fuel

def parseArray (fuel : Nat) (st : ParserState) : Option (JSONValue D) × ParserState :=
  match fuel with
  | 0 => (none, st)
  | fuel + 1 =>
    match st.rest with
    | [] => (none, st)
    | c :: cs =>
      if c = ch '[' then
        let st := { st with rest := skipWhitespace cs }
        if st.rest.head? = some (ch ']') then (some (.array []), { st with rest := st.rest.tail })
        else parseItems fuel [] st
      else (none, st)
termination_by structural fuel

/-- The loop of ParseArray; `arr` holds the elements so far. -/
def parseItems (fuel : Nat) (arr : List (JSONValue D)) (st : ParserState) :
    Option (JSONValue D) × ParserState :=
  match fuel with
  | 0 => (none, st)
  | fuel + 1 =>
    match parseValue fuel st with
    | (none, st) => (none, st)
    | (some v, st) =>
      let st := { st with rest := skipWhitespace st.rest }
      match st.rest with
      | [] => (none, st)
      | c :: cs =>
        if c = ch ']' then (some (.array (arr ++ [v])), { st with rest := cs })
        else if c = ch ',' then
          let st := { st with rest := skipWhitespace cs }
          if st.rest.head? = some (ch ']') then (none, st) else parseItems fuel (arr ++ [v]) st
        else (none, st)
termination_by structural fuel

def parseObject (fuel : Nat) (st : ParserState) : Option (JSONValue D) × ParserState :=
  match fuel with
  | 0 => (none, st)
  | fuel + 1 =>
    match st.rest with
    | [] => (none, st)
    | c :: cs =>
      if c = ch '{' then
        let st := { st with rest := skipWhitespace cs }
        if st.rest.head? = some (ch '}') then (some (.object []), { st with rest := st.rest.tail })
        else parseMembers fuel [] st
      else (none, st)
termination_by structural fuel

/-- The loop of ParseObject; the keys of `obj` are the set `keys` of the source. -/
def parseMembers (fuel : Nat) (obj : List (Bytes × JSONValue D)) (st : ParserState) :
    Option (JSONValue D) × ParserState :=
  match fuel with
  | 0 => (none, st)
  | fuel + 1 =>
    match parseString (skipWhitespace st.rest) with
    | none => (none, st)
    | some (key, rest) =>
      if obj.length ≥ 4096 ∨ key ∈ obj.map Prod.fst then (none, st)
      else
        match skipWhitespace rest with
        | [] => (none, st)
        | c :: cs =>
          if c = ch ':' then
            match parseValue fuel { st with rest := skipWhitespace cs } with
            | (none, st) => (none, st)
            | (some v, st) =>
              let st := { st with rest := skipWhitespace st.rest }
              match st.rest with
              | [] => (none, st)
              | c :: cs =>
                if c = ch '}' then
                  (some (.object (obj ++ [(key, v)])), { st with rest := cs })
                else if c = ch ',' then
                  let st := { st with rest := skipWhitespace cs }
                  if st.rest.head? = some (ch '}') then (none, st)
                  else parseMembers fuel (obj ++ [(key, v)]) st
                else (none, st)
          else (none, st)
termination_by structural fuel

end

/-- Parse. -/
def parse (input : Bytes) : Option (JSONValue D) :=
  if input.length > 8 * 1024 * 1024 then none
  else
    match parseValue (4 * input.length) { rest := input } with
    | (none, _) => none
    | (some root, st) => if skipWhitespace st.rest = [] then some root else none

end WebHtop.Common
