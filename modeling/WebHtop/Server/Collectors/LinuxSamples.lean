import WebHtop.Lib.Istream
import WebHtop.Lib.Table
import WebHtop.Common.Arithmetic
import WebHtop.Common.Models.Snapshot

/-!
# Parsing procfs

The pure functions of server/collectors/linux_samples.cpp, in the branch for a library
without saturating arithmetic, which C++20 selects.
-/

namespace WebHtop.Server.Collectors

open WebHtop.Lib WebHtop.Common

/-! ## Lines, tokens and numbers -/

/-- `Parse` into an unsigned type with values below `limit`. -/
def parseUnsigned (limit : Nat) (s : Bytes) : Option Nat :=
  if s ≠ [] ∧ s.all Decimal.isDigit ∧ Decimal.value s < limit then some (Decimal.value s) else none

/-- `Parse` into a signed type of that many bits. -/
def parseSigned (bits : Nat) : Bytes → Option Int
  | 0x2D :: t =>
    if t ≠ [] ∧ t.all Decimal.isDigit ∧ Decimal.value t ≤ 2 ^ (bits - 1) then
      some (-(Decimal.value t : Int))
    else none
  | s => (parseUnsigned (2 ^ (bits - 1)) s).map fun n => n

/-- A carriage return at the end of a line is dropped. -/
def chomp (line : Bytes) : Bytes := if line.getLast? = some (ch '\r') then line.dropLast else line

/-- The line in front, and the text behind it. -/
def nextLine (s : Bytes) : Bytes × Bytes :=
  (chomp (s.takeWhile fun c => c ≠ ch '\n'), (s.dropWhile fun c => c ≠ ch '\n').tail)

/-- The lines that a loop over NextLine sees. -/
def nextLines (s : Bytes) : List Bytes := (Istream.lines s).map chomp

def isBlank (c : UInt8) : Bool := c = ch ' ' || c = ch '\t'

/-- One of `" \t\r\n"`. -/
def isDelimiter (c : UInt8) : Bool := isBlank c || c = ch '\r' || c = ch '\n'

/-- The token in front, and the text behind it. -/
def nextToken (s : Bytes) : Bytes × Bytes :=
  let s := s.dropWhile isBlank
  (s.takeWhile fun c => !isDelimiter c, s.dropWhile fun c => !isDelimiter c)

/-- The tokens up to the first empty one, at most `fuel`. -/
def nextTokens : Nat → Bytes → List Bytes
  | 0, _ => []
  | fuel + 1, s =>
    match nextToken s with
    | ([], _) => []
    | (token, rest) => token :: nextTokens fuel rest

/-- Exactly `count` tokens, none of them empty. -/
def fields : Nat → Bytes → Option (List Bytes)
  | 0, _ => some []
  | count + 1, s =>
    match nextToken s with
    | ([], _) => none
    | (token, rest) => (fields count rest).map fun tokens => token :: tokens

/-! ## /proc/stat -/

/-- `std::array<std::uint64_t, 8>`. -/
abbrev CpuTimes := {times : List UInt64 // times.length = 8}

/-- An ordered map; -1 is the aggregate. -/
abbrev CpuSample := Table Int CpuTimes

/-- `emplace`: an entry that is there stays as it is. -/
def emplace (id : Int) (times : CpuTimes) : CpuSample → CpuSample
  | [] => [(id, times)]
  | e :: rest =>
    if id < e.1 then (id, times) :: e :: rest
    else if id = e.1 then e :: rest
    else e :: emplace id times rest

def readTimes : (count : Nat) → Bytes → Option {times : List UInt64 // times.length = count}
  | 0, _ => some ⟨[], rfl⟩
  | count + 1, line =>
    let (field, line) := nextToken line
    (parseUnsigned (2 ^ 64) field).bind fun n =>
      (readTimes count line).map fun times =>
        ⟨UInt64.ofNat n :: times.val, congrArg Nat.succ times.property⟩

/-- The key of a CPU line. -/
def cpuId (label : Bytes) : Option Int :=
  if label = lit "cpu" then some (-1)
  else if (lit "cpu").isPrefixOf label then (parseSigned 32 (label.drop 3)).filter fun id => 0 ≤ id
  else none

def cpuLine (line : Bytes) : Option (Int × CpuTimes) :=
  let (label, line) := nextToken line
  (cpuId label).bind fun id => (readTimes 8 line).map fun times => (id, times)

def parseCpu (text : Bytes) : CpuSample :=
  (nextLines text).foldl
    (fun result line =>
      match cpuLine line with
      | some (id, times) => emplace id times result
      | none => result)
    []

section

variable {D : Type} [Arithmetic D]

/-- The sums over the counters from index `i` on; `none` when one decreased. -/
def cpuDeltas : Nat → List (UInt64 × UInt64) → D → D → Option (D × D)
  | _, [], total, idle => some (total, idle)
  | i, (now, previous) :: rest, total, idle =>
    if now < previous then none
    else
      let delta : D := Double.ofUInt64 (now - previous)
      let idle := if i = 3 ∨ i = 4 then Arithmetic.add idle delta else idle
      cpuDeltas (i + 1) rest (Arithmetic.add total delta) idle

def cpuUsage (now previous : CpuTimes) : Option D :=
  (cpuDeltas 0 (now.val.zip previous.val) zero zero).bind fun (total, idle) =>
    if Arithmetic.le total (zero : D) then none
    else
      some (Arithmetic.div (Arithmetic.mul (Arithmetic.ofInt 100) (Arithmetic.sub total idle)) total)

def counterRate (now previous : UInt64) (seconds : D) : Option D :=
  if now < previous ∨ Arithmetic.le seconds (zero : D) ∨ Double.isFinite seconds = false then none
  else some (Arithmetic.div (Double.ofUInt64 (now - previous)) seconds)

end

/-! ## /proc/PID/stat -/

structure ProcessSample where
  pid : Int32
  name : Bytes
  state : UInt8
  ticks : UInt64
  starttime : UInt64
  rssPages : UInt64
  threads : UInt32

/-- `text.find(c)`. -/
def find (text : Bytes) (c : UInt8) : Option Nat := text.findIdx? fun d => d = c

/-- `text.rfind(c)`. -/
def rfind (text : Bytes) (c : UInt8) : Option Nat :=
  (text.reverse.findIdx? fun d => d = c).map fun i => text.length - 1 - i

/-- Spaces at the end are dropped. -/
def dropSpaces (s : Bytes) : Bytes := (s.reverse.dropWhile fun c => c = ch ' ').reverse

/-- The fields behind the name. -/
def processFields (pid : Int) (name : Bytes) (tokens : List Bytes) : Option ProcessSample := do
  let field := fun i => tokens.getD i []
  if (field 0).length ≠ 1 then none
  else
    let user ← parseUnsigned (2 ^ 64) (field 11)
    let system ← parseUnsigned (2 ^ 64) (field 12)
    let threads ← parseUnsigned (2 ^ 32) (field 17)
    let starttime ← parseUnsigned (2 ^ 64) (field 19)
    let rss ← parseSigned 64 (field 21)
    if user > 2 ^ 64 - 1 - system then none
    else
      some
        { pid := Int32.ofInt pid
          name
          state := (field 0).headD 0
          ticks := UInt64.ofNat (user + system)
          starttime := UInt64.ofNat starttime
          rssPages := UInt64.ofNat rss.toNat
          threads := UInt32.ofNat threads }

def parseProcess (text : Bytes) : Option ProcessSample := do
  let opening ← find text (ch '(')
  let closing ← rfind text (ch ')')
  if closing ≤ opening ∨ opening < 2 then none
  else
    let pid ← parseSigned 32 (dropSpaces (text.take opening))
    if pid ≤ 0 then none
    else
      let name := (text.drop (opening + 1)).take (closing - opening - 1)
      let tokens ← fields 22 (text.drop (closing + 1))
      processFields pid name tokens

/-! ## Pressure -/

section

variable {D : Type} [Arithmetic D]

/-- `key=value` with a percentage as value. -/
def pressureToken (token : Bytes) : Option (Bytes × D) := do
  let equal ← find token (ch '=')
  let n : D ← Double.fromChars (token.drop (equal + 1))
  if !Double.isFinite n || Double.lt n (zero : D) || Double.lt (Arithmetic.ofInt 100) n then none
  else some (token.take equal, n)

def setPressure (type : Bytes) (result : PressureMetrics D) (token : Bytes) : PressureMetrics D :=
  match pressureToken token with
  | none => result
  | some (key, n) =>
    if type = lit "some" ∧ key = lit "avg10" then { result with someAvg10 := some n }
    else if type = lit "some" ∧ key = lit "avg60" then { result with someAvg60 := some n }
    else if type = lit "some" ∧ key = lit "avg300" then { result with someAvg300 := some n }
    else if type = lit "full" ∧ key = lit "avg10" then { result with fullAvg10 := some n }
    else result

def parsePressure (resource text : Bytes) : PressureMetrics D :=
  (nextLines text).foldl
    (fun result line =>
      let (type, line) := nextToken line
      (nextTokens line.length line).foldl (setPressure type) result)
    { resource, someAvg10 := none, someAvg60 := none, someAvg300 := none, fullAvg10 := none }

end

end WebHtop.Server.Collectors
