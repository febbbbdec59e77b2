import WebHtop.Common.Json.Value
import WebHtop.Common.Utf8

/-!
# The JSON writer

`AppendEscapedString_`, `AppendIndent_`, `SerializeTo_` and `ToString` of
common/json/utils.cpp. Each function gives the text it appends to `out`; a value is
`none` where the source throws.
-/

namespace WebHtop.Common

open WebHtop.Lib.Decimal

/-- A digit of `%x`. -/
def hexChar (n : Nat) : UInt8 := UInt8.ofNat (if n < 10 then n + 48 else n + 87)

/-- `"\\u%04x"`. -/
def formatUnicode (c : UInt8) : Bytes :=
  lit "\\u" ++ [ch '0', ch '0', hexChar (c.toNat / 16), hexChar (c.toNat % 16)]

/-- The switch on a byte below 128. -/
def escapeAscii (c : UInt8) : Bytes :=
  if c = ch '"' then lit "\\\""
  else if c = ch '\\' then lit "\\\\"
  else if c = 8 then lit "\\b"
  else if c = 12 then lit "\\f"
  else if c = 10 then lit "\\n"
  else if c = 13 then lit "\\r"
  else if c = 9 then lit "\\t"
  else if c < 0x20 then formatUnicode c
  else [c]

/-- The loop of AppendEscapedString_, one unit of fuel a turn. -/
def escapeLoop : Nat → Bytes → Bytes
  | 0, _ => []
  | _ + 1, [] => []
  | fuel + 1, c :: sw =>
    if c ≥ 128 then
      let length := utf8Length (c :: sw) 0
      if length ≠ 0 then (c :: sw).take length ++ escapeLoop fuel ((c :: sw).drop length)
      else formatUnicode c ++ escapeLoop fuel sw
    else escapeAscii c ++ escapeLoop fuel sw

def appendEscapedString (sw : Bytes) : Bytes :=
  [ch '"'] ++ escapeLoop sw.length sw ++ [ch '"']

def appendIndent (indent : Int32) (level : Nat) : Bytes :=
  if 0 ≤ indent.toInt then ch '\n' :: List.replicate (indent.toInt.toNat * level) (ch ' ') else []

/-- `std::to_string`. -/
def intToString (i : Int) : Bytes :=
  if i < 0 then ch '-' :: numeral i.natAbs else numeral i.natAbs

variable {D : Type} [Double D]

/-- The buffer of `std::to_chars` has 64 bytes. -/
def doubleText (d : D) : Option Bytes :=
  if Double.isFinite d = false then none
  else if (Double.toChars d).length > 64 then none
  else some (Double.toChars d)

theorem doubleText_eq {d : D} {x : Bytes} (h : doubleText d = some x) :
    Double.isFinite d = true ∧ x = Double.toChars d := by
  unfold doubleText at h
  split_ifs at h with hf
  exact ⟨Bool.of_not_eq_false hf, (Option.some.inj h).symm⟩

namespace JSONValue

mutual

/-- SerializeTo_. -/
def serializeTo (indent : Int32) (level : Nat) (v : JSONValue D) : Option Bytes :=
  match v with
  | .null => some (lit "null")
  | .bool b => some (if b then lit "true" else lit "false")
  | .int64 i => some (intToString i.toInt)
  | .uint64 u => some (intToString u.toNat)
  | .double d => doubleText d
  | .string s => some (appendEscapedString s)
  | .array items =>
    if items.isEmpty then some (lit "[]")
    else do
      let text ← serializeItems indent level items
      some (lit "[" ++ text ++ appendIndent indent level ++ lit "]")
  | .object members =>
    if members.isEmpty then some (lit "\x7b\x7d")
    else do
      let text ← serializeMembers indent level members
      some (lit "\x7b" ++ text ++ appendIndent indent level ++ lit "\x7d")
termination_by structural v

def serializeItems (indent : Int32) (level : Nat) (vs : List (JSONValue D)) : Option Bytes :=
  match vs with
  | [] => some []
  | v :: vs => do
    let text ← serializeTo indent (level + 1) v
    let rest ← serializeItems indent level vs
    some (appendIndent indent (level + 1) ++ text ++ (if vs.isEmpty then [] else lit ",") ++ rest)
termination_by structural vs

def serializeMembers (indent : Int32) (level : Nat) (ms : List (Bytes × JSONValue D)) :
    Option Bytes :=
  match ms with
  | [] => some []
  | (key, v) :: ms => do
    let text ← serializeTo indent (level + 1) v
    let rest ← serializeMembers indent level ms
    some (appendIndent indent (level + 1) ++ appendEscapedString key ++
      (if 0 ≤ indent.toInt then lit ": " else lit ":") ++ text ++
      (if ms.isEmpty then [] else lit ",") ++ rest)
termination_by structural ms

end

/-- ToString. -/
def toString (v : JSONValue D) (indent : Int32 := -1) : Option Bytes := serializeTo indent 0 v

end JSONValue
end WebHtop.Common
