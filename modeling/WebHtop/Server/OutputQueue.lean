import WebHtop.Common.Bytes
import WebHtop.Lib.Runs

/-!
# The latest-wins output queue

`OutputQueue` of server/transport/output_queue.hpp: one buffer in flight, one
replaceable pending buffer. A history records what was pushed and what was
consumed, so that the queue's promises can be stated about whole runs.
-/

namespace WebHtop.Server

open WebHtop.Lib

/-- A `std::shared_ptr<std::string const>`. `sequence` names the generation the
bytes frame (`none` for an HTTP response); the queue never looks at it. -/
structure Buffer where
  sequence : Option Nat := none
  bytes : Bytes
  size_lt : bytes.length < 2 ^ 63 := by decide
  deriving DecidableEq

structure OutputQueue where
  current : Option Buffer := none
  pending : Option Buffer := none
  offset : Nat := 0
  deriving DecidableEq

namespace OutputQueue

/-- Returns true when an unsent snapshot was superseded. -/
def push (q : OutputQueue) (buffer : Buffer) : Bool × OutputQueue :=
  match q.current with
  | none => (false, { q with current := some buffer, offset := 0 })
  | some _ =>
    if q.offset = 0 then (true, { q with current := some buffer })
    else (q.pending.isSome, { q with pending := some buffer })

def front (q : OutputQueue) : Bytes :=
  match q.current with
  | none => []
  | some b => b.bytes.drop q.offset

/-- `none` is the `std::logic_error` of an over-consumed queue. -/
def consume (q : OutputQueue) (size : Nat) : Option OutputQueue :=
  match q.current with
  | none => none
  | some b =>
    if size > q.front.length then none
    else if q.offset + size = b.bytes.length then
      some { current := q.pending, pending := none, offset := 0 }
    else some { q with offset := q.offset + size }

def empty (q : OutputQueue) : Bool := q.current.isNone

def bytes (q : OutputQueue) : Nat :=
  (match q.current with | none => 0 | some b => b.bytes.length - q.offset) +
    (match q.pending with | none => 0 | some b => b.bytes.length)

/-- The buffers still queued, in the order they will be sent. -/
def items (q : OutputQueue) : List Buffer := q.current.toList ++ q.pending.toList

/-- A pending buffer exists only behind a partly sent one, and a buffer in front
always has bytes left. -/
structure Valid (q : OutputQueue) : Prop where
  pending_started : q.pending ≠ none → 0 < q.offset
  offset_lt : ∀ b, q.current = some b → q.offset < b.bytes.length
  idle : q.current = none → q.pending = none ∧ q.offset = 0
  nonempty : ∀ b, q.pending = some b → b.bytes ≠ []

theorem valid_empty : Valid {} := ⟨by simp, by simp, by simp, by simp⟩

theorem valid_push {q : OutputQueue} (hq : q.Valid) {b : Buffer} (hb : b.bytes ≠ []) :
    (q.push b).2.Valid := by
  have hpos : 0 < b.bytes.length := List.length_pos_iff.mpr hb
  unfold push
  cases hc : q.current with
  | none =>
      have hi := hq.idle hc
      exact ⟨by simp [hi.1], by simpa using hpos, by simp, by simp [hi.1]⟩
  | some c =>
      by_cases ho : q.offset = 0
      · have hp : q.pending = none := by
          by_contra h
          have := hq.pending_started h
          omega
        simp only [ho, ↓reduceIte]
        exact ⟨by simp [hp], by simp; omega, by simp, by simp [hp]⟩
      · simp only [ho, ↓reduceIte]
        exact ⟨fun _ => Nat.pos_of_ne_zero ho, fun b' h' => hq.offset_lt b' (hc.trans h'), by simp,
          by simpa using hb⟩

theorem front_length {q : OutputQueue} {b : Buffer} (hc : q.current = some b) :
    q.front.length = b.bytes.length - q.offset := by
  simp [front, hc]

/-- What `Consume` does within its precondition: it moves the offset, or finishes
the buffer in front and promotes the pending one. -/
theorem consume_cases {q : OutputQueue} (hq : q.Valid) {b : Buffer} (hc : q.current = some b)
    {size : Nat} (hs : size ≤ q.front.length) :
    (q.offset + size < b.bytes.length ∧
      q.consume size = some { q with offset := q.offset + size }) ∨
    (q.offset + size = b.bytes.length ∧
      q.consume size = some { current := q.pending, pending := none, offset := 0 }) := by
  have hl := front_length hc
  have ho := hq.offset_lt b hc
  have hn : ¬ size > q.front.length := by omega
  unfold consume
  simp only [hc, hn, ↓reduceIte]
  by_cases he : q.offset + size = b.bytes.length
  · exact .inr ⟨he, by simp [he]⟩
  · exact .inl ⟨by omega, by simp [he]⟩

theorem valid_consume {q q' : OutputQueue} (hq : q.Valid) {size : Nat}
    (h : q.consume size = some q') : q'.Valid := by
  cases hc : q.current with
  | none => simp [consume, hc] at h
  | some b =>
      have hs : size ≤ q.front.length := by
        by_contra hn
        simp [consume, hc, Nat.lt_of_not_le hn] at h
      rcases consume_cases hq hc hs with ⟨hlt, he⟩ | ⟨heq, he⟩
      · obtain rfl := Option.some.inj (he.symm.trans h)
        refine ⟨fun hp => ?_, ?_, by simp [hc], hq.nonempty⟩
        · have := hq.pending_started hp
          simp only
          omega
        · intro b' hb'
          obtain rfl := Option.some.inj (hc.symm.trans hb')
          exact hlt
      · obtain rfl := Option.some.inj (he.symm.trans h)
        refine ⟨by simp, ?_, by simp, by simp⟩
        intro b' hb'
        exact List.length_pos_iff.mpr (hq.nonempty b' hb')

theorem bytes_eq_zero {q : OutputQueue} (hq : q.Valid) : q.bytes = 0 ↔ q.empty = true := by
  cases hc : q.current with
  | none => simp [bytes, empty, hc, (hq.idle hc).1]
  | some b =>
      have ho := hq.offset_lt b hc
      simp only [bytes, empty, hc, Option.isNone_some, Bool.false_eq_true, iff_false]
      omega

theorem bytes_consume {q q' : OutputQueue} (hq : q.Valid) {size : Nat}
    (h : q.consume size = some q') : q'.bytes + size = q.bytes := by
  cases hc : q.current with
  | none => simp [consume, hc] at h
  | some b =>
      have hs : size ≤ q.front.length := by
        by_contra hn
        simp [consume, hc, Nat.lt_of_not_le hn] at h
      have ho := hq.offset_lt b hc
      rcases consume_cases hq hc hs with ⟨hlt, he⟩ | ⟨heq, he⟩
      · obtain rfl := Option.some.inj (he.symm.trans h)
        simp only [bytes, hc]
        omega
      · obtain rfl := Option.some.inj (he.symm.trans h)
        simp only [bytes, hc]
        cases q.pending <;> simp only <;> omega

end OutputQueue
end WebHtop.Server
