import WebHtop.Server.OutputQueue

/-!
# Histories of the output queue

A history carries, next to the queue, what a caller can observe: the buffers
pushed, the pushes that reported a superseded snapshot, the bytes consumed and
the buffers whose last byte was consumed. Nothing in it steers the queue.
-/

namespace WebHtop.Server

open WebHtop.Lib

structure History where
  queue : OutputQueue := {}
  pushed : List Buffer := []
  superseded : Nat := 0
  finished : List Buffer := []
  consumed : Bytes := []

inductive QueueOp where
  | push (buffer : Buffer)
  | consume (size : Nat)

namespace History

def push (h : History) (b : Buffer) : History :=
  { h with
    queue := (h.queue.push b).2
    pushed := h.pushed ++ [b]
    superseded := h.superseded + if (h.queue.push b).1 then 1 else 0 }

/-- The buffer in front is finished when this consumption reaches its end. -/
def consume (h : History) (size : Nat) : Option History :=
  (h.queue.consume size).map fun q =>
    { h with
      queue := q
      finished := h.finished ++
        h.queue.current.toList.filter fun b => h.queue.offset + size = b.bytes.length
      consumed := h.consumed ++ h.queue.front.take size }

/-- Non-empty buffers are pushed; a non-empty queue is consumed within its front. -/
inductive Step : History → QueueOp → History → Prop
  | push {h : History} {b : Buffer} : b.bytes ≠ [] → Step h (.push b) (h.push b)
  | consume {h h' : History} {size : Nat} : h.queue.empty = false →
      size ≤ h.queue.front.length → h.consume size = some h' → Step h (.consume size) h'

/-- The sent part of the buffer in front. -/
def partSent (h : History) : Bytes :=
  match h.queue.current with
  | none => []
  | some b => b.bytes.take h.queue.offset

/-- The accounting a history keeps. -/
structure Kept (h : History) : Prop where
  valid : h.queue.Valid
  order : (h.finished ++ h.queue.items).Sublist h.pushed
  content : h.consumed = h.finished.flatMap Buffer.bytes ++ h.partSent
  newest : (h.finished ++ h.queue.items).getLast? = h.pushed.getLast?
  count : h.pushed.length = h.finished.length + h.superseded + h.queue.items.length

theorem kept_init : Kept {} :=
  ⟨OutputQueue.valid_empty, by simp [OutputQueue.items], by simp [partSent],
    by simp [OutputQueue.items], by simp [OutputQueue.items]⟩

theorem kept_push {h : History} (hk : h.Kept) {b : Buffer} (hb : b.bytes ≠ []) :
    (h.push b).Kept := by
  obtain ⟨hv, ho, hcon, hnew, hcnt⟩ := hk
  have hv' := OutputQueue.valid_push hv hb
  cases hc : h.queue.current with
  | none =>
      have hi := hv.idle hc
      have hit : h.queue.items = [] := by simp [OutputQueue.items, hc, hi.1]
      have hq : h.queue.push b = (false, { h.queue with current := some b, offset := 0 }) := by
        simp [OutputQueue.push, hc]
      rw [hit, List.append_nil] at ho
      refine ⟨hv', ?_, ?_, ?_, ?_⟩
      · simpa [push, hq, OutputQueue.items, hi.1] using ho.append_right [b]
      · simpa [push, hq, partSent, hc] using hcon
      · simp [push, hq, OutputQueue.items, hi.1]
      · simp [push, hq, OutputQueue.items, hi.1, hcnt]
        omega
  | some c =>
      by_cases hoff : h.queue.offset = 0
      · have hp : h.queue.pending = none := by
          by_contra hne
          have := hv.pending_started hne
          omega
        have hq : h.queue.push b = (true, { h.queue with current := some b }) := by
          simp [OutputQueue.push, hc, hoff]
        have hit : h.queue.items = [c] := by simp [OutputQueue.items, hc, hp]
        rw [hit] at ho hcnt
        refine ⟨hv', ?_, ?_, ?_, ?_⟩
        · have hf := (List.sublist_append_left h.finished [c]).trans ho
          simpa [push, hq, OutputQueue.items, hp] using hf.append_right [b]
        · simpa [push, hq, partSent, hc, hoff] using hcon
        · simp [push, hq, OutputQueue.items, hp]
        · simp [push, hq, OutputQueue.items, hp, hcnt]
          omega
      · have hq : h.queue.push b = (h.queue.pending.isSome, { h.queue with pending := some b }) := by
          simp [OutputQueue.push, hc, hoff]
        refine ⟨hv', ?_, ?_, ?_, ?_⟩
        · have hf : (h.finished ++ [c]).Sublist h.pushed := by
            refine List.Sublist.trans ?_ ho
            simp [OutputQueue.items, hc]
          simpa [push, hq, OutputQueue.items, hc] using hf.append_right [b]
        · simpa [push, hq, partSent, hc] using hcon
        · simp [push, hq, OutputQueue.items, hc, List.getLast?_append]
        · cases hp : h.queue.pending <;>
            simp [push, hq, OutputQueue.items, hc, hp] at hcnt ⊢ <;> omega

theorem kept_consume {h h' : History} (hk : h.Kept) {size : Nat}
    (hne : h.queue.empty = false) (hs : size ≤ h.queue.front.length)
    (he : h.consume size = some h') : h'.Kept := by
  obtain ⟨hv, ho, hcon, hnew, hcnt⟩ := hk
  obtain ⟨q, hq, rfl⟩ := Option.map_eq_some_iff.mp he
  have hv' := OutputQueue.valid_consume hv hq
  obtain ⟨b, hc⟩ : ∃ b, h.queue.current = some b := by
    cases hb : h.queue.current with
    | none => simp [OutputQueue.empty, hb] at hne
    | some b => exact ⟨b, rfl⟩
  have hfront : h.queue.front = b.bytes.drop h.queue.offset := by simp [OutputQueue.front, hc]
  have hsent : h.partSent ++ h.queue.front.take size = b.bytes.take (h.queue.offset + size) := by
    rw [hfront, List.take_add]
    simp [partSent, hc]
  rcases OutputQueue.consume_cases hv hc hs with ⟨hlt, hq'⟩ | ⟨heq, hq'⟩
  · obtain rfl := Option.some.inj (hq'.symm.trans hq)
    have hfin : (h.queue.current.toList.filter fun b => h.queue.offset + size = b.bytes.length)
        = [] := by
      simp [hc]
      omega
    rw [hfin]
    simp only [List.append_nil]
    refine ⟨hv', ho, ?_, hnew, hcnt⟩
    rw [hcon, List.append_assoc, hsent]
    simp [partSent, hc]
  · obtain rfl := Option.some.inj (hq'.symm.trans hq)
    have hfin : (h.queue.current.toList.filter fun b => h.queue.offset + size = b.bytes.length)
        = [b] := by
      simp [hc, heq]
    rw [hfin]
    have hit : h.queue.items = [b] ++ h.queue.pending.toList := by simp [OutputQueue.items, hc]
    rw [hit] at ho hnew hcnt
    refine ⟨hv', ?_, ?_, ?_, ?_⟩
    · simpa [OutputQueue.items] using ho
    · rw [hcon, List.append_assoc, hsent, heq, List.take_length]
      cases h.queue.pending <;> simp [partSent]
    · simpa [OutputQueue.items] using hnew
    · simp [OutputQueue.items] at hcnt ⊢
      omega

theorem kept_step {h h' : History} {op : QueueOp} (hk : h.Kept) (hs : Step h op h') : h'.Kept := by
  cases hs with
  | push hb => exact kept_push hk hb
  | consume hne hle he => exact kept_consume hk hne hle he

theorem kept_run {h : History} {ops : List QueueOp} (hr : Run Step {} ops h) : h.Kept :=
  hr.invariant kept_init kept_step

/-- Consuming moves bytes from the queue to the consumer and loses none. -/
theorem consumed_bytes {h h' : History} {sizes : List Nat} (hv : h.queue.Valid)
    (hr : Run Step h (sizes.map .consume) h') :
    h'.queue.Valid ∧ h'.consumed.length + h'.queue.bytes = h.consumed.length + h.queue.bytes := by
  generalize hops : sizes.map QueueOp.consume = ops at hr
  induction hr generalizing sizes with
  | nil => exact ⟨hv, rfl⟩
  | @snoc es t e u hrun hstep ih =>
      obtain ⟨front, last, rfl, hes, hlast⟩ := List.map_eq_append_iff.mp hops
      obtain ⟨n, rest, rfl, rfl, hnil⟩ := List.map_eq_cons_iff.mp hlast
      obtain ⟨hvt, hbytes⟩ := ih hes
      cases hstep with
      | consume hne hle he =>
          obtain ⟨q, hq, rfl⟩ := Option.map_eq_some_iff.mp he
          refine ⟨OutputQueue.valid_consume hvt hq, ?_⟩
          have hb := OutputQueue.bytes_consume hvt hq
          simp only [List.length_append, List.length_take]
          omega

/-- Consuming the whole front finishes a buffer, so at most two consumptions
empty the queue. -/
theorem drain (h : History) (hv : h.queue.Valid) :
    ∃ (sizes : List Nat) (h' : History),
      Run Step h (sizes.map .consume) h' ∧ h'.queue.empty = true := by
  have once : ∀ h : History, h.queue.Valid → h.queue.empty = false →
      ∃ h', Step h (.consume h.queue.front.length) h' ∧ h'.queue.current = h.queue.pending ∧
        h'.queue.pending = none := by
    intro h hv hne
    obtain ⟨b, hc⟩ : ∃ b, h.queue.current = some b := by
      cases hb : h.queue.current with
      | none => simp [OutputQueue.empty, hb] at hne
      | some b => exact ⟨b, rfl⟩
    have ho := hv.offset_lt b hc
    have hl := OutputQueue.front_length hc
    rcases OutputQueue.consume_cases hv hc (Nat.le_refl _) with ⟨hlt, _⟩ | ⟨_, hq⟩
    · omega
    · exact ⟨_, .consume hne (Nat.le_refl _) (by simp only [consume, hq, Option.map_some]; rfl), rfl, rfl⟩
  cases he : h.queue.empty with
  | true => exact ⟨[], h, .nil, he⟩
  | false =>
      obtain ⟨h1, hs1, hc1, hp1⟩ := once h hv he
      have hv1 : h1.queue.Valid :=
        have hr1 : Run Step h ([h.queue.front.length].map .consume) h1 := Run.single hs1
        (consumed_bytes hv hr1).1
      cases he1 : h1.queue.empty with
      | true => exact ⟨[h.queue.front.length], h1, Run.single hs1, he1⟩
      | false =>
          obtain ⟨h2, hs2, hc2, _⟩ := once h1 hv1 he1
          refine ⟨[h.queue.front.length, h1.queue.front.length], h2,
            Run.trans (Run.single hs1) (Run.single hs2), ?_⟩
          rw [OutputQueue.empty, hc2, hp1]
          rfl

/-- What any history of the queue guarantees: the consumed bytes are whole pushed
buffers in push order followed by a proper prefix of the buffer in front; the
newest buffer is last in the queue or was the last one finished; every push is
accounted for; and `Bytes` is exactly what is left to consume. -/
theorem latest_wins {h : History} {ops : List QueueOp} (hr : Run Step {} ops h) :
    (∃ part, h.consumed = h.finished.flatMap Buffer.bytes ++ part ∧
        (h.finished ++ h.queue.items).Sublist h.pushed ∧
        match h.queue.current with
        | none => part = []
        | some b => part <+: b.bytes ∧ part ≠ b.bytes) ∧
    (∀ b, h.pushed.getLast? = some b →
        h.queue.items.getLast? = some b ∨ h.queue.items = [] ∧ h.finished.getLast? = some b) ∧
    (h.pushed.length = h.finished.length + h.superseded + h.queue.items.length ∧
        h.queue.items.length ≤ 2) ∧
    (∀ (sizes : List Nat) (h' : History), Run Step h (sizes.map .consume) h' →
        h'.consumed.length + h'.queue.bytes = h.consumed.length + h.queue.bytes) ∧
    (∃ (sizes : List Nat) (h' : History), Run Step h (sizes.map .consume) h' ∧
        h'.queue.empty = true ∧
        h'.consumed.length = h.consumed.length + h.queue.bytes) := by
  obtain ⟨hv, ho, hcon, hnew, hcnt⟩ := kept_run hr
  refine ⟨⟨h.partSent, hcon, ho, ?_⟩, ?_, ⟨hcnt, ?_⟩, ?_, ?_⟩
  · cases hc : h.queue.current with
    | none => simp [partSent, hc]
    | some b =>
        have hlt := hv.offset_lt b hc
        simp only [partSent, hc]
        refine ⟨List.take_prefix _ _, fun he => ?_⟩
        have hl := congrArg List.length he
        rw [List.length_take] at hl
        omega
  · intro b hb
    rw [← hnew] at hb
    cases hi : h.queue.items with
    | nil => exact .inr ⟨rfl, by simpa [hi] using hb⟩
    | cons c cs =>
        left
        rw [hi, List.getLast?_append_of_ne_nil _ (by simp)] at hb
        exact hb
  · cases hc : h.queue.current <;> cases hp : h.queue.pending <;> simp [OutputQueue.items, hc, hp]
  · exact fun sizes h' hr' => (consumed_bytes hv hr').2
  · obtain ⟨sizes, h', hr', he⟩ := drain h hv
    obtain ⟨hv', hb⟩ := consumed_bytes hv hr'
    have hz := (OutputQueue.bytes_eq_zero hv').mpr he
    exact ⟨sizes, h', hr', he, by omega⟩

/-- A frame cut after one byte, with a newer frame waiting behind it. -/
def cutFrame : History :=
  let h := push {} { bytes := [1, 2] }
  push { h with queue := { h.queue with offset := 1 }, consumed := [1] } { bytes := [3] }

theorem cutFrame_run : Run Step {} [.push { bytes := [1, 2] }, .consume 1, .push { bytes := [3] }]
    cutFrame :=
  .snoc (.snoc (.snoc .nil (.push (by decide))) (.consume (by decide) (by decide) rfl))
    (.push (by decide))

theorem latest_wins_cutFrame : cutFrame.queue.bytes = 2 ∧ cutFrame.queue.items.length ≤ 2 :=
  ⟨by decide, (latest_wins cutFrame_run).2.2.1.2⟩

end History
end WebHtop.Server
