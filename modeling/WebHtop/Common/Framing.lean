import WebHtop.Lib.Stream
import WebHtop.Common.Bytes

/-!
# Length-prefixed frames

`Frame` and `FrameDecoder` of common/src/protocol.cpp, and the loop over one received
chunk in `StreamConnection::Handle`.
-/

namespace WebHtop.Common

open WebHtop.Lib

def kMaxPayload : Nat := 8 * 1024 * 1024

/-- `none` is the `std::length_error`. -/
def frame (payload : Bytes) : Option Bytes :=
  if payload = [] ∨ payload.length > kMaxPayload then none
  else
    let n := payload.length % 2 ^ 32
    let out := (List.range 4).map fun i => UInt8.ofNat ((n >>> (24 - 8 * i)) &&& 0xff)
    some (out ++ payload)

structure FrameDecoder where
  expected : Nat := 0
  headerBytes : Nat := 0
  payload : Bytes := []
  deriving DecidableEq

namespace FrameDecoder

/-- The header loop of Feed; `expected_` is 32 bits wide. `none` is the
`std::length_error`. -/
def feedHeader (d : FrameDecoder) (consumed : Nat) : Bytes → Option (Nat × FrameDecoder)
  | [] => some (consumed, d)
  | b :: bytes =>
    if d.headerBytes < 4 then
      let d :=
        { d with
          expected := (d.expected <<< 8 ||| b.toNat) % 2 ^ 32
          headerBytes := d.headerBytes + 1 }
      if d.headerBytes = 4 ∧ (d.expected = 0 ∨ d.expected > kMaxPayload) then none
      else feedHeader d (consumed + 1) bytes
    else some (consumed, d)

/-- The number of bytes consumed, and the decoder after them. -/
def feed (d : FrameDecoder) (bytes : Bytes) : Option (Nat × FrameDecoder) := do
  let (consumed, d) ← d.feedHeader 0 bytes
  if d.headerBytes = 4 then
    let count := min (bytes.length - consumed) (d.expected - d.payload.length)
    some (consumed + count, { d with payload := d.payload ++ (bytes.drop consumed).take count })
  else some (consumed, d)

def complete (d : FrameDecoder) : Bool := d.expected != 0 && d.payload.length == d.expected

def reset (_ : FrameDecoder) : FrameDecoder := { expected := 0, headerBytes := 0, payload := [] }

end FrameDecoder

/-- The loop of Handle over one chunk: the payloads it takes, and the decoder it ends
with unless Feed throws. `none` is a loop still running after `fuel` turns. -/
def handleChunk : Nat → FrameDecoder → Bytes → Option (List Bytes × Option FrameDecoder)
  | _, d, [] => some ([], some d)
  | 0, _, _ :: _ => none
  | fuel + 1, d, b :: bytes =>
    match d.feed (b :: bytes) with
    | none => some ([], none)
    | some (consumed, d) =>
      if d.complete then
        (handleChunk fuel d.reset ((b :: bytes).drop consumed)).map fun r =>
          (d.payload :: r.1, r.2)
      else handleChunk fuel d ((b :: bytes).drop consumed)

/-- Chunk after chunk; a throw disconnects. -/
def handleChunks (d : FrameDecoder) : List Bytes → Option (List Bytes × Option FrameDecoder)
  | [] => some ([], some d)
  | chunk :: chunks =>
    match handleChunk chunk.length d chunk with
    | none => none
    | some (payloads, none) => some (payloads, none)
    | some (payloads, some d) =>
      (handleChunks d chunks).map fun r => (payloads ++ r.1, r.2)

/-! ## The wire format -/

/-- The number a big-endian byte string writes. -/
def bigEndian (b : Bytes) : Nat := b.foldl (fun n c => n * 256 + c.toNat) 0

def validLength (n : Nat) : Prop := 1 ≤ n ∧ n ≤ kMaxPayload

instance (n : Nat) : Decidable (validLength n) := inferInstanceAs (Decidable (_ ∧ _))

/-- The front of a stream of frames: four length bytes, then that many payload bytes. -/
def frontFrame (b : Bytes) : Front UInt8 Bytes :=
  if b.length < 4 then .more
  else if ¬ validLength (bigEndian (b.take 4)) then .bad
  else if b.length - 4 < bigEndian (b.take 4) then .more
  else .item ((b.drop 4).take (bigEndian (b.take 4))) ((b.drop 4).drop (bigEndian (b.take 4)))

theorem selfDelimiting_frontFrame : SelfDelimiting frontFrame := by
  have htake : ∀ b b' : Bytes, ¬ b.length < 4 → (b ++ b').take 4 = b.take 4 := fun b b' h =>
    List.take_append_of_le_length (by omega)
  refine ⟨?_, ?_, ?_⟩
  · intro b x r b' h
    unfold frontFrame at h ⊢
    split at h
    · simp at h
    rename_i h4
    split at h
    · simp at h
    rename_i hv
    split at h
    · simp at h
    rename_i hlen
    obtain ⟨rfl, rfl⟩ := Front.item.inj h
    have hlong : ¬ (b ++ b').length < 4 := by
      rw [List.length_append]
      omega
    have hwhole : ¬ (b ++ b').length - 4 < bigEndian (b.take 4) := by
      rw [List.length_append]
      omega
    have hd : (b ++ b').drop 4 = b.drop 4 ++ b' := List.drop_append_of_le_length (by omega)
    have hl : bigEndian (b.take 4) ≤ (b.drop 4).length := by
      rw [List.length_drop]
      omega
    simp only [htake b b' h4, hlong, hv, hwhole, ↓reduceIte, hd]
    rw [List.take_append_of_le_length hl, List.drop_append_of_le_length hl]
  · intro b b' h
    unfold frontFrame at h ⊢
    split at h
    · simp at h
    rename_i h4
    have hlong : ¬ (b ++ b').length < 4 := by
      rw [List.length_append]
      omega
    split at h
    · rename_i hv
      simp only [htake b b' h4, hlong, hv, ↓reduceIte, not_false_eq_true]
    · split at h <;> simp at h
  · intro b x r h
    unfold frontFrame at h
    split at h
    · simp at h
    split at h
    · simp at h
    split at h
    · simp at h
    obtain ⟨rfl, rfl⟩ := Front.item.inj h
    simp only [List.length_drop]
    omega

theorem bigEndian_snoc (b : Bytes) (c : UInt8) :
    bigEndian (b ++ [c]) = bigEndian b * 256 + c.toNat := by
  simp [bigEndian]

theorem bigEndian_lt (b : Bytes) : bigEndian b < 256 ^ b.length := by
  induction b using List.reverseRecOn with
  | nil => decide
  | append_singleton b c ih =>
      have hc := c.toNat_lt
      rw [bigEndian_snoc, List.length_append, List.length_singleton, Nat.pow_succ]
      omega

/-- The shift keeps all it has read while fewer than four bytes are in. -/
theorem shift_in {n : Nat} (hn : n < 2 ^ 24) (c : UInt8) :
    (n <<< 8 ||| c.toNat) % 2 ^ 32 = n * 256 + c.toNat := by
  have hc := c.toNat_lt
  rw [← Nat.shiftLeft_add_eq_or_of_lt (by omega), Nat.shiftLeft_eq]
  omega

/-! ## The decoder holds what it has seen of a frame -/

/-- The decoder's three members as a reading of the bytes since the last frame. -/
structure Holds (d : FrameDecoder) (seen : Bytes) : Prop where
  header : d.headerBytes = min seen.length 4
  expected : d.expected = bigEndian (seen.take 4)
  payload : d.payload = seen.drop 4
  valid : 4 ≤ seen.length → validLength (bigEndian (seen.take 4))
  within : seen.length - 4 ≤ bigEndian (seen.take 4)

theorem holds_init : Holds {} [] :=
  ⟨rfl, rfl, rfl, by simp, Nat.zero_le _⟩

namespace FrameDecoder

variable {d : FrameDecoder} {seen : Bytes}

theorem feedHeader_done (h : d.headerBytes = 4) (n : Nat) (bytes : Bytes) :
    d.feedHeader n bytes = some (n, d) := by
  cases bytes <;> simp [feedHeader, h]

theorem feedHeader_spec (h : Holds d seen) (hs : seen.length < 4) (n : Nat) (bytes : Bytes) :
    if (seen ++ bytes).length < 4 then
      ∃ d', d.feedHeader n bytes = some (n + bytes.length, d') ∧ Holds d' (seen ++ bytes)
    else if validLength (bigEndian ((seen ++ bytes).take 4)) then
      ∃ d', d.feedHeader n bytes = some (n + (4 - seen.length), d') ∧
        Holds d' ((seen ++ bytes).take 4)
    else d.feedHeader n bytes = none := by
  induction bytes generalizing d seen n with
  | nil =>
      simp only [List.append_nil, hs, ↓reduceIte]
      exact ⟨d, rfl, h⟩
  | cons b bytes ih =>
      have htake : seen.take 4 = seen := List.take_of_length_le (by omega)
      have hhead := h.header
      have hlt : bigEndian seen < 2 ^ 24 := by
        have hpow : (256 : Nat) ^ seen.length ≤ 256 ^ 3 := Nat.pow_le_pow_right (by decide) (by omega)
        have := bigEndian_lt seen
        omega
      have hexp : (d.expected <<< 8 ||| b.toNat) % 2 ^ 32 = bigEndian (seen ++ [b]) := by
        rw [h.expected, htake, shift_in hlt, bigEndian_snoc]
      have hopen : d.headerBytes < 4 := by omega
      have htake1 : (seen ++ [b]).take 4 = seen ++ [b] := List.take_of_length_le (by simp; omega)
      have hpay : d.payload = (seen ++ [b]).drop 4 := by
        rw [h.payload, List.drop_of_length_le (by omega), List.drop_of_length_le (by simp; omega)]
      have hsplit : seen ++ b :: bytes = (seen ++ [b]) ++ bytes := by simp
      rw [feedHeader, if_pos hopen, hexp, hsplit]
      simp only
      by_cases hlast : seen.length = 3
      · -- The fourth byte decides.
        have hlen : (seen ++ [b]).length = 4 := by simp [hlast]
        have hlong : ¬ ((seen ++ [b]) ++ bytes).length < 4 := by
          rw [List.length_append]
          omega
        have hfour : ((seen ++ [b]) ++ bytes).take 4 = seen ++ [b] := by
          rw [List.take_append_of_le_length (by omega), htake1]
        have hcount : d.headerBytes + 1 = 4 := by omega
        rw [if_neg hlong, hfour]
        by_cases hv : validLength (bigEndian (seen ++ [b]))
        · have hgood : ¬ (d.headerBytes + 1 = 4 ∧ (bigEndian (seen ++ [b]) = 0 ∨
              bigEndian (seen ++ [b]) > kMaxPayload)) := by
            obtain ⟨h1, h2⟩ := hv
            omega
          rw [if_pos hv, if_neg hgood, feedHeader_done hcount]
          refine ⟨_, by rw [hlast], ?_⟩
          exact ⟨by simp only [hlen]; omega, by rw [htake1], hpay, fun _ => htake1.symm ▸ hv, by omega⟩
        · have hbad : d.headerBytes + 1 = 4 ∧ (bigEndian (seen ++ [b]) = 0 ∨
              bigEndian (seen ++ [b]) > kMaxPayload) := by
            unfold validLength at hv
            omega
          rw [if_neg hv, if_pos hbad]
      · have hnot : ¬ (d.headerBytes + 1 = 4 ∧ (bigEndian (seen ++ [b]) = 0 ∨
            bigEndian (seen ++ [b]) > kMaxPayload)) := by omega
        have hlen : (seen ++ [b]).length = seen.length + 1 := by simp
        have hh : Holds { d with
            expected := bigEndian (seen ++ [b]), headerBytes := d.headerBytes + 1 } (seen ++ [b]) :=
          ⟨by simp only [hlen]; omega, by rw [htake1], hpay, by omega, by omega⟩
        rw [if_neg hnot]
        have := ih hh (by omega) (n + 1)
        rw [hlen] at this
        simp only [List.length_cons]
        rw [show n + (bytes.length + 1) = n + 1 + bytes.length by omega,
          show n + (4 - seen.length) = n + 1 + (4 - (seen.length + 1)) by omega]
        exact this

/-- Complete says that the whole payload is in. -/
theorem complete_iff (h : Holds d seen) :
    d.complete = true ↔ 4 ≤ seen.length ∧ seen.length - 4 = bigEndian (seen.take 4) := by
  have hl : d.payload.length = seen.length - 4 := by rw [h.payload, List.length_drop]
  simp only [complete, Bool.and_eq_true, bne_iff_ne, ne_eq, beq_iff_eq, hl, h.expected]
  constructor
  · rintro ⟨hne, heq⟩
    omega
  · rintro ⟨h4, heq⟩
    have := (h.valid h4).1
    omega

theorem frontFrame_more (h : Holds d seen) : frontFrame seen = .more ↔ d.complete = false := by
  rw [← Bool.not_eq_true, complete_iff h]
  have hw := h.within
  unfold frontFrame
  by_cases h4 : seen.length < 4
  · simp only [h4, ↓reduceIte, true_iff]
    omega
  · have hv := h.valid (by omega)
    simp only [h4, hv, not_true_eq_false, ↓reduceIte]
    split
    · simp only [true_iff]
      omega
    · simp only [reduceCtorEq, false_iff]
      omega

/-- The second half of Feed, once the header is in. -/
theorem feedPayload_spec (h : Holds d seen) (h4 : 4 ≤ seen.length) (bytes : Bytes) {count : Nat}
    (hcount : count = min bytes.length (d.expected - d.payload.length)) {d' : FrameDecoder}
    (hd' : d' = { d with payload := d.payload ++ bytes.take count }) :
    Holds d' (seen ++ bytes.take count) ∧
      (d'.complete = true ∧ frontFrame (seen ++ bytes) = .item d'.payload (bytes.drop count) ∨
        d'.complete = false ∧ count = bytes.length) := by
  have hpl : d.payload.length = seen.length - 4 := by rw [h.payload, List.length_drop]
  have hexp := h.expected
  have hwithin := h.within
  have htake : (bytes.take count).length = count := by
    rw [List.length_take]
    omega
  have hlen : (seen ++ bytes.take count).length = seen.length + count := by
    rw [List.length_append, htake]
  have hhead : (seen ++ bytes.take count).take 4 = seen.take 4 :=
    List.take_append_of_le_length h4
  have hholds : Holds d' (seen ++ bytes.take count) := by
    rw [hd']
    refine ⟨?_, ?_, ?_, ?_, ?_⟩
    · have := h.header
      simp only [hlen]
      omega
    · rw [hhead]
      exact hexp
    · simp only [h.payload, List.drop_append_of_le_length h4]
    · rw [hhead]
      exact fun _ => h.valid h4
    · rw [hhead, hlen]
      omega
  refine ⟨hholds, ?_⟩
  by_cases hfull : seen.length + count - 4 = bigEndian (seen.take 4)
  · left
    have hcomp : d'.complete = true := (complete_iff hholds).mpr ⟨by omega, by rw [hlen, hhead]; exact hfull⟩
    refine ⟨hcomp, ?_⟩
    have hhead' : (seen ++ bytes).take 4 = seen.take 4 := List.take_append_of_le_length h4
    have hlong : ¬ (seen ++ bytes).length < 4 := by
      rw [List.length_append]
      omega
    have hwhole : ¬ (seen ++ bytes).length - 4 < bigEndian (seen.take 4) := by
      rw [List.length_append]
      omega
    have hdrop : (seen ++ bytes).drop 4 = seen.drop 4 ++ bytes := List.drop_append_of_le_length h4
    have hrest : bigEndian (seen.take 4) = (seen.drop 4).length + count := by
      rw [List.length_drop]
      omega
    simp only [frontFrame, hlong, hhead', h.valid h4, hwhole, ↓reduceIte, not_true_eq_false, hdrop,
      hd', h.payload]
    rw [hrest, List.take_length_add_append, List.drop_length_add_append]
  · right
    have hopen : d'.complete = false := by
      rw [← Bool.not_eq_true, complete_iff hholds, hlen, hhead]
      omega
    exact ⟨hopen, by omega⟩

/-- One Feed: it throws on a bad length, else it takes at least one byte, and stops
short of the span only behind a complete payload. -/
theorem feed_spec (h : Holds d seen) (hm : d.complete = false) {bytes : Bytes} (hb : bytes ≠ []) :
    (d.feed bytes = none ∧ frontFrame (seen ++ bytes) = .bad) ∨
    ∃ n d', d.feed bytes = some (n, d') ∧ 1 ≤ n ∧ n ≤ bytes.length ∧
      Holds d' (seen ++ bytes.take n) ∧
      (d'.complete = true ∧ frontFrame (seen ++ bytes) = .item d'.payload (bytes.drop n) ∨
        d'.complete = false ∧ n = bytes.length) := by
  have hpos : 0 < bytes.length := List.length_pos_iff.mpr hb
  have hpl : d.payload.length = seen.length - 4 := by rw [h.payload, List.length_drop]
  by_cases h4 : 4 ≤ seen.length
  · right
    have hdone : d.headerBytes = 4 := by
      rw [h.header]
      omega
    have hroom : d.payload.length < d.expected := by
      have hnot := (complete_iff h).not.mp (by simp [hm])
      have := h.within
      rw [h.expected]
      omega
    obtain ⟨hholds, hend⟩ := feedPayload_spec h h4 bytes rfl rfl
    refine ⟨_, _, ?_, ?_, ?_, hholds, hend⟩
    · simp [feed, feedHeader_done hdone, hdone]
    · omega
    · omega
  · have hspec := feedHeader_spec h (by omega) 0 bytes
    rw [List.length_append] at hspec
    by_cases hshort : seen.length + bytes.length < 4
    · -- The span ends inside the header.
      right
      rw [if_pos hshort] at hspec
      obtain ⟨d', hf, hh⟩ := hspec
      have hopen : ¬ d'.headerBytes = 4 := by
        rw [hh.header, List.length_append]
        omega
      refine ⟨bytes.length, d', ?_, hpos, Nat.le_refl _, ?_, .inr ⟨?_, rfl⟩⟩
      · simp [feed, hf, hopen]
      · rwa [List.take_length]
      · rw [← Bool.not_eq_true, complete_iff hh, List.length_append]
        omega
    · rw [if_neg hshort] at hspec
      by_cases hv : validLength (bigEndian ((seen ++ bytes).take 4))
      · right
        rw [if_pos hv] at hspec
        obtain ⟨d', hf, hh⟩ := hspec
        generalize hk : 4 - seen.length = k at hf
        have hhead : (seen ++ bytes).take 4 = seen ++ bytes.take k := by
          rw [List.take_append, List.take_of_length_le (by omega), hk]
        rw [hhead] at hh
        have hhl : (seen ++ bytes.take k).length = 4 := by
          rw [List.length_append, List.length_take]
          omega
        have hdone : d'.headerBytes = 4 := by
          rw [hh.header, hhl]
          rfl
        obtain ⟨hholds, hend⟩ := feedPayload_spec hh (by omega) (bytes.drop k) rfl rfl
        generalize hc : min (bytes.drop k).length (d'.expected - d'.payload.length) = count
          at hholds hend
        rw [List.append_assoc, List.take_append_drop, List.drop_drop] at hend
        rw [List.append_assoc, ← List.take_add] at hholds
        rw [List.length_drop] at hc hend
        refine ⟨k + count, _, ?_, by omega, by omega, hholds, ?_⟩
        · simp [feed, hf, hdone, hc]
        · rcases hend with hend | ⟨hopen, hall⟩
          · exact .inl hend
          · exact .inr ⟨hopen, by omega⟩
      · left
        rw [if_neg hv] at hspec
        refine ⟨by simp [feed, hspec], ?_⟩
        have hlong : ¬ (seen ++ bytes).length < 4 := by
          rw [List.length_append]
          omega
        simp only [frontFrame, hlong, hv, ↓reduceIte, not_false_eq_true]

/-- The states the decoder goes through, however it is driven. -/
inductive Reached : FrameDecoder → Prop
  | init : Reached {}
  | feed {d d' : FrameDecoder} {bytes : Bytes} {n : Nat} :
      Reached d → d.feed bytes = some (n, d') → Reached d'
  | reset {d : FrameDecoder} : Reached d → Reached d.reset

theorem feed_complete (h : Holds d seen) (hc : d.complete = true) (bytes : Bytes) :
    d.feed bytes = some (0, d) := by
  obtain ⟨h4, hall⟩ := (complete_iff h).mp hc
  have hpl : d.payload.length = seen.length - 4 := by rw [h.payload, List.length_drop]
  have hdone : d.headerBytes = 4 := by
    rw [h.header]
    omega
  have hfull : d.expected - d.payload.length = 0 := by
    rw [h.expected]
    omega
  obtain ⟨expected, headerBytes, payload⟩ := d
  simp only at hdone hfull
  subst hdone
  simp [feed, feedHeader_done, hfull]

theorem feed_nil (d : FrameDecoder) : d.feed [] = some (0, d) := by
  obtain ⟨expected, headerBytes, payload⟩ := d
  by_cases hdone : headerBytes = 4 <;> simp [feed, feedHeader, hdone]

theorem holds_reached (h : Reached d) : ∃ seen, Holds d seen := by
  induction h with
  | init => exact ⟨[], holds_init⟩
  | @feed d d' bytes n _ hf ih =>
      obtain ⟨seen, hh⟩ := ih
      cases hc : d.complete with
      | true =>
          rw [feed_complete hh hc] at hf
          obtain ⟨-, rfl⟩ := Prod.mk.inj (Option.some.inj hf)
          exact ⟨seen, hh⟩
      | false =>
          by_cases hb : bytes = []
          · rw [hb, feed_nil] at hf
            obtain ⟨-, rfl⟩ := Prod.mk.inj (Option.some.inj hf)
            exact ⟨seen, hh⟩
          · rcases feed_spec hh hc hb with ⟨hbad, _⟩ | ⟨n', e, he, _, _, hhe, _⟩
            · simp [hbad] at hf
            · rw [he] at hf
              obtain ⟨-, rfl⟩ := Prod.mk.inj (Option.some.inj hf)
              exact ⟨_, hhe⟩
  | reset _ _ => exact ⟨[], holds_init⟩

end FrameDecoder

open FrameDecoder

/-- How a driven decoder relates to the stream: after a bad length there is none,
else it holds the undecided rest. -/
def Ends (rest : Option Bytes) : Option FrameDecoder → Prop
  | none => rest = none
  | some d => ∃ seen, rest = some seen ∧ Holds d seen ∧ d.complete = false

theorem handleChunk_spec {fuel : Nat} {d : FrameDecoder} {seen bytes : Bytes}
    (hfuel : bytes.length ≤ fuel) (h : Holds d seen) (hm : d.complete = false) :
    ∃ d', handleChunk fuel d bytes = some ((cut frontFrame (seen ++ bytes)).1, d') ∧
      Ends (cut frontFrame (seen ++ bytes)).2 d' := by
  induction fuel generalizing d seen bytes with
  | zero =>
      obtain rfl := List.eq_nil_of_length_eq_zero (Nat.le_zero.mp hfuel)
      have hc := SelfDelimiting.cut_more ((frontFrame_more h).mpr hm)
      rw [List.append_nil, hc]
      exact ⟨some d, rfl, seen, rfl, h, hm⟩
  | succ fuel ih =>
      cases bytes with
      | nil =>
          have hc := SelfDelimiting.cut_more ((frontFrame_more h).mpr hm)
          rw [List.append_nil, hc]
          exact ⟨some d, rfl, seen, rfl, h, hm⟩
      | cons b bytes =>
          rcases feed_spec h hm (List.cons_ne_nil b bytes) with ⟨hf, hbad⟩ |
            ⟨n, d', hf, hpos, hle, hh, ⟨hc, hitem⟩ | ⟨hc, hall⟩⟩
          · rw [SelfDelimiting.cut_bad hbad]
            exact ⟨none, by simp [handleChunk, hf], rfl⟩
          · -- A whole frame: the decoder starts over on the rest of the chunk.
            have hshort : ((b :: bytes).drop n).length ≤ fuel := by
              rw [List.length_drop]
              omega
            obtain ⟨e, he, hends⟩ := ih hshort holds_init rfl
            rw [List.nil_append] at he hends
            rw [selfDelimiting_frontFrame.cut_item hitem]
            have hreset : d'.reset = {} := rfl
            exact ⟨e, by simp only [handleChunk, hf, hc, ↓reduceIte, hreset, he, Option.map_some],
              hends⟩
          · have hdrop : (b :: bytes).drop n = [] := List.drop_of_length_le (by omega)
            have htake : (b :: bytes).take n = b :: bytes := List.take_of_length_le (by omega)
            have hnil : ([] : Bytes).length ≤ fuel := Nat.zero_le _
            obtain ⟨e, he, hends⟩ := ih hnil (htake ▸ hh) hc
            rw [List.append_nil] at he hends
            exact ⟨e, by simp only [handleChunk, hf, hc, Bool.false_eq_true, ↓reduceIte, hdrop, he],
              hends⟩

theorem handleChunks_spec {d : FrameDecoder} {seen : Bytes} (h : Holds d seen)
    (hm : d.complete = false) (chunks : List Bytes) :
    ∃ d', handleChunks d chunks = some ((cut frontFrame (seen ++ chunks.flatten)).1, d') ∧
      Ends (cut frontFrame (seen ++ chunks.flatten)).2 d' := by
  induction chunks generalizing d seen with
  | nil =>
      have hc := SelfDelimiting.cut_more ((frontFrame_more h).mpr hm)
      rw [List.flatten_nil, List.append_nil, hc]
      exact ⟨some d, rfl, seen, rfl, h, hm⟩
  | cons chunk chunks ih =>
      obtain ⟨d', hd', hends⟩ := handleChunk_spec (Nat.le_refl chunk.length) h hm
      rw [List.flatten_cons, ← List.append_assoc]
      cases d' with
      | none =>
          rw [selfDelimiting_frontFrame.cut_append_bad hends]
          exact ⟨none, by simp only [handleChunks, hd'], hends⟩
      | some d' =>
          obtain ⟨rest, hrest, hh, hopen⟩ := hends
          obtain ⟨e, he, hends⟩ := ih hh hopen
          rw [selfDelimiting_frontFrame.cut_append hrest]
          exact ⟨e, by simp only [handleChunks, hd', he, Option.map_some], hends⟩

/-! ## Frame writes what the decoder reads -/

theorem kMaxPayload_eq : kMaxPayload = 8388608 := by simp [kMaxPayload]

theorem octet (n k : Nat) : (UInt8.ofNat ((n >>> k) &&& 0xff)).toNat = n / 2 ^ k % 256 := by
  rw [UInt8.toNat_ofNat', Nat.shiftRight_eq_div_pow]
  have hmask : n / 2 ^ k &&& 0xff = n / 2 ^ k % 256 := Nat.and_two_pow_sub_one_eq_mod _ 8
  rw [hmask]
  omega

theorem frame_spec {payload : Bytes} (hv : validLength payload.length) :
    ∃ header, frame payload = some (header ++ payload) ∧ header.length = 4 ∧
      bigEndian header = payload.length := by
  obtain ⟨hpos, hmax⟩ := hv
  have hgood : ¬ (payload = [] ∨ payload.length > kMaxPayload) := by
    rw [← List.length_eq_zero_iff]
    omega
  rw [kMaxPayload_eq] at hmax
  refine ⟨_, by rw [frame, if_neg hgood], by simp, ?_⟩
  simp only [List.range_succ, List.range_zero, List.nil_append, List.map_cons, List.map_nil,
    bigEndian, List.cons_append, List.foldl_cons, List.foldl_nil, octet]
  omega

theorem cut_frame {payload f : Bytes} (hv : validLength payload.length)
    (hf : frame payload = some f) (rest : Bytes) :
    cut frontFrame (f ++ rest) =
      (payload :: (cut frontFrame rest).1, (cut frontFrame rest).2) := by
  obtain ⟨header, hh, hlen, hval⟩ := frame_spec hv
  obtain rfl := Option.some.inj (hh.symm.trans hf)
  have htake : (header ++ payload ++ rest).take 4 = header := by
    rw [List.append_assoc, List.take_append_of_le_length (by omega), List.take_of_length_le (by omega)]
  have hdrop : (header ++ payload ++ rest).drop 4 = payload ++ rest := by
    rw [List.append_assoc, ← hlen, List.drop_left]
  have hlong : ¬ (header ++ payload ++ rest).length < 4 := by
    simp only [List.length_append]
    omega
  have hwhole : ¬ (header ++ payload ++ rest).length - 4 < payload.length := by
    simp only [List.length_append]
    omega
  have hitem : frontFrame (header ++ payload ++ rest) = .item payload rest := by
    simp only [frontFrame, hlong, htake, hval, hv, hwhole, hdrop, ↓reduceIte, not_true_eq_false,
      List.take_left, List.drop_left]
  exact selfDelimiting_frontFrame.cut_item hitem

theorem cut_frames {payloads : List Bytes} (hv : ∀ p ∈ payloads, validLength p.length) :
    ∃ frames, payloads.mapM frame = some frames ∧
      cut frontFrame frames.flatten = (payloads, some []) := by
  induction payloads with
  | nil => exact ⟨[], rfl, rfl⟩
  | cons p payloads ih =>
      have hp := hv p List.mem_cons_self
      obtain ⟨header, hf, _⟩ := frame_spec hp
      obtain ⟨frames, hfs, hcut⟩ := ih fun q hq => hv q (List.mem_cons_of_mem p hq)
      refine ⟨(header ++ p) :: frames, by simp [hf, hfs], ?_⟩
      rw [List.flatten_cons, cut_frame hp hf, hcut]

/-- The decoder driven by Handle delivers, under every chunking, the payloads of the
whole frames of the stream in front of the first bad length, and throws exactly when
such a length is complete; a Feed that returns has moved on; and what Frame wrote is
delivered as it was. -/
theorem decoder_delivers :
    (∀ chunks : List Bytes, ∃ d : Option FrameDecoder,
      handleChunks {} chunks = some ((cut frontFrame chunks.flatten).1, d) ∧
        (d = none ↔ (cut frontFrame chunks.flatten).2 = none)) ∧
    (∀ (d : FrameDecoder) (bytes : Bytes) (n : Nat) (d' : FrameDecoder), Reached d →
      d.complete = false → bytes ≠ [] → d.feed bytes = some (n, d') →
        1 ≤ n ∧ n ≤ bytes.length) ∧
    (∀ payloads : List Bytes, (∀ p ∈ payloads, validLength p.length) →
      ∃ frames, payloads.mapM frame = some frames ∧
        ∀ chunks : List Bytes, chunks.flatten = frames.flatten →
          ∃ d, handleChunks {} chunks = some (payloads, some d)) := by
  have hdrive := fun chunks => handleChunks_spec holds_init rfl chunks
  simp only [List.nil_append] at hdrive
  refine ⟨?_, ?_, ?_⟩
  · intro chunks
    obtain ⟨d, hd, hends⟩ := hdrive chunks
    refine ⟨d, hd, ?_⟩
    cases d with
    | none =>
        have hnone : (cut frontFrame chunks.flatten).2 = none := hends
        simp [hnone]
    | some d =>
        obtain ⟨rest, hrest, _⟩ := hends
        simp [hrest]
  · intro d bytes n d' hr hm hb hf
    obtain ⟨seen, hh⟩ := holds_reached hr
    rcases feed_spec hh hm hb with ⟨hbad, _⟩ | ⟨n', e, he, hpos, hle, _⟩
    · simp [hbad] at hf
    · rw [he] at hf
      obtain ⟨rfl, -⟩ := Prod.mk.inj (Option.some.inj hf)
      exact ⟨hpos, hle⟩
  · intro payloads hv
    obtain ⟨frames, hf, hcut⟩ := cut_frames hv
    refine ⟨frames, hf, fun chunks hc => ?_⟩
    obtain ⟨d, hd, hends⟩ := hdrive chunks
    rw [hc, hcut] at hd hends
    cases d with
    | none => simp [Ends] at hends
    | some d => exact ⟨d, hd⟩

end WebHtop.Common
