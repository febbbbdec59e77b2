import WebHtop.Common.Json.Strings
import WebHtop.Common.Json.Tokens
import WebHtop.Lib.Runs

/-!
# The two passes over a string

The first loop of ParseString runs over whole escapes and whole sequences, so the segment in front
of the closing quotation mark can be cut at the same places by the second loop, whose accesses then
stay inside of it.
-/

namespace WebHtop.Common

open WebHtop.Lib WebHtop.Lib.Json

namespace Cursor

/-! ## The first pass -/

/-- What the first pass makes of the unread text, by the scan of it. -/
inductive Scanned (b : Bool) (s : Cursor) : Option (Nat × Bool) → Outcome Bool × Cursor → Prop
  | value {n : Nat} {e : Bool} (h : n ≤ s.rest.length) :
      Scanned b s (some (n, e)) (.value (b || e), s.advance n)
  | failed {n : Nat} (h : n ≤ s.rest.length) : Scanned b s none (.failed, s.advance n)

theorem Scanned.shift {b b' : Bool} {s : Cursor} {k : Nat} {g : Bool → Bool}
    {scan : Option (Nat × Bool)} {r : Outcome Bool × Cursor} (h : Scanned b' (s.advance k) scan r)
    (hk : k ≤ s.rest.length) (hg : ∀ e, (b' || e) = (b || g e)) :
    Scanned b s (scan.map fun x => (x.1 + k, g x.2)) r := by
  have hrest : (s.advance k).rest.length = s.rest.length - k := by
    rw [rest_advance, List.length_drop]
  cases h with
  | @value n e hn =>
    rw [advance_advance, hg, Nat.add_comm k n]
    exact .value (by omega)
  | @failed n hn =>
    rw [advance_advance, Nat.add_comm k n]
    exact .failed (by omega)

theorem scanned_end (b : Bool) (s : Cursor) : Scanned b s (some (0, false)) (.value b, s) := by
  have h : Scanned b s (some (0, false)) (.value (b || false), s.advance 0) :=
    .value (Nat.zero_le _)
  rwa [Bool.or_false] at h

theorem firstPass_scan {fuel : Nat} {b : Bool} {s : Cursor} (h : s.rest.length < fuel) :
    Scanned b s (scanString fuel s.rest) (firstPass fuel b s) := by
  induction fuel generalizing b s with
  | zero => omega
  | succ fuel ih =>
    cases hrest : s.rest with
    | nil =>
      simp only [firstPass, scanString, (rest_nil hrest).1, true_or, if_true]
      exact scanned_end b s
    | cons c cs =>
      obtain ⟨hend, hpeek, hnext⟩ := rest_cons hrest
      have hlength := congrArg List.length hrest
      rw [List.length_cons] at hlength
      -- What follows a unit of `k` bytes.
      have hunit {b' : Bool} {g : Bool → Bool} (k : Nat) (hpos : 0 < k) (hk : k ≤ s.rest.length)
          (hg : ∀ e, (b' || e) = (b || g e)) :
          Scanned b s ((scanString fuel ((c :: cs).drop k)).map fun r => (r.1 + k, g r.2))
            (firstPass fuel b' (s.advance k)) := by
        have hstep := ih (b := b') (s := s.advance k) (by rw [rest_advance, List.length_drop]; omega)
        rw [rest_advance, hrest] at hstep
        exact hstep.shift hk hg
      have hescaped (e : Bool) : (true || e) = (b || true) := by simp
      simp only [firstPass, scanString, hend, hpeek, Bool.false_eq_true, false_or]
      split
      · exact scanned_end b s
      split
      · cases cs with
        | nil =>
          rw [if_pos (rest_nil hnext).1]
          exact .failed (by omega)
        | cons esc cs =>
          obtain ⟨hend', hpeek', hnext'⟩ := rest_cons hnext
          rw [List.length_cons] at hlength
          simp only [hend', hpeek', Bool.false_eq_true, if_false, advance_advance]
          split
          · have hdigits : (s.advance (1 + 1)).rest = cs := by rw [← advance_advance, hnext']
            have hroom : (s.advance (1 + 1)).pos + 4 > (s.advance (1 + 1)).input.length ↔
                cs.length < 4 := by
              rw [advance_pos, advance_input]
              rw [rest_length] at hlength
              omega
            rw [show (s.advance (1 + 1)).input.drop (s.advance (1 + 1)).pos = cs from hdigits]
            simp only [hroom]
            split
            · exact .failed (by omega)
            split
            · exact hunit 6 (by omega) (by omega) hescaped
            · exact .failed (by omega)
          · exact hunit 2 (by omega) (by omega) hescaped
      split
      · exact .failed (n := 0) (Nat.zero_le _)
      split
      · have hutf8 : utf8Length s.input s.pos = utf8Length (c :: cs) 0 := by
          rw [utf8Length_drop, ← hrest]
          rfl
        rw [hutf8]
        split
        · exact .failed (n := 0) (Nat.zero_le _)
        · rename_i hpos
          have hle : utf8Length (c :: cs) 0 ≤ s.rest.length := by
            rw [hrest]
            exact utf8Length_le _
          exact hunit _ (Nat.pos_of_ne_zero hpos) hle fun _ => rfl
      · exact hunit 1 (by omega) (by omega) fun _ => rfl

/-! ## The alignment of the second pass -/

/-- A suffix of the segment where the second loop may stand: every backslash begins an escape. -/
inductive Aligned : Bytes → Prop
  | nil : Aligned []
  | plain {c : UInt8} {r : Bytes} : c ≠ ch '\\' → Aligned r → Aligned (c :: r)
  | escape {esc : UInt8} {r : Bytes} : esc ≠ ch 'u' → Aligned r → Aligned (ch '\\' :: esc :: r)
  | unicode {h r : Bytes} {n : Nat} : Hex4 h n → Aligned r →
      Aligned (ch '\\' :: ch 'u' :: (h ++ r))

theorem aligned_append {pre r : Bytes} (hpre : ∀ b ∈ pre, b ≠ ch '\\') (hr : Aligned r) :
    Aligned (pre ++ r) := by
  induction pre with
  | nil => exact hr
  | cons b pre ih =>
    apply Aligned.plain (hpre b List.mem_cons_self)
    exact ih fun c hc => hpre c (List.mem_cons_of_mem b hc)

theorem aligned_of_segment {raw : Bytes} {e : Bool} (h : Segment raw e) : Aligned raw := by
  induction h with
  | nil => exact .nil
  | char c hc _ ih => exact aligned_append (fun b hb => (hc.bytes hb).2.1) ih
  | escape hesc _ ih => exact .escape hesc ih
  | unicode hh _ ih => exact .unicode hh ih

theorem Aligned.of_plain {c : UInt8} {r : Bytes} (hc : c ≠ ch '\\') (hr : Aligned (c :: r)) :
    Aligned r := by
  cases hr with
  | plain _ hr => exact hr
  | escape _ _ => exact absurd rfl hc
  | unicode _ _ => exact absurd rfl hc

theorem Aligned.of_escape {esc : UInt8} {r : Bytes} (hesc : esc ≠ ch 'u')
    (hr : Aligned (ch '\\' :: esc :: r)) : Aligned r := by
  cases hr with
  | plain hc _ => exact absurd rfl hc
  | escape _ hr => exact hr
  | unicode _ _ => exact absurd rfl hesc

theorem Aligned.of_unicode {h r : Bytes} {n : Nat} (hh : Hex4 h n)
    (hr : Aligned (ch '\\' :: ch 'u' :: (h ++ r))) : Aligned r := by
  generalize hx : ch '\\' :: ch 'u' :: (h ++ r) = x at hr
  cases hr with
  | nil => cases hx
  | plain hc _ => exact absurd (List.cons.inj hx).1.symm hc
  | escape hesc _ => exact absurd (List.cons.inj (List.cons.inj hx).2).1.symm hesc
  | unicode hh' hr =>
    obtain ⟨-, rfl⟩ :=
      List.append_inj (List.cons.inj (List.cons.inj hx).2).2 (by rw [hh.length, hh'.length])
    exact hr

/-- The escape at a backslash has its letter, and its four digits where it must have them. -/
def Followed (raw : Bytes) (i : Nat) : Prop :=
  ∃ esc, raw[i + 1]? = some esc ∧ (esc = ch 'u' → (parseHex4 (raw.drop (i + 2))).isSome)

theorem Aligned.followed {raw : Bytes} {i : Nat} (h : Aligned (raw.drop i))
    (hi : raw[i]? = some (ch '\\')) : Followed raw i := by
  rw [← List.head?_drop] at hi
  have hsecond : raw[i + 1]? = (raw.drop i)[1]? := by rw [List.getElem?_drop]
  have hbehind : raw.drop (i + 2) = (raw.drop i).drop 2 := by rw [List.drop_drop]
  unfold Followed
  rw [hsecond, hbehind]
  generalize raw.drop i = r at h hi
  cases h with
  | nil => cases hi
  | plain hc _ => exact absurd (Option.some.inj hi) hc
  | @escape esc r hesc _ => exact ⟨esc, rfl, fun hu => absurd hu hesc⟩
  | unicode hh _ =>
    refine ⟨ch 'u', rfl, fun _ => ?_⟩
    rw [List.drop_succ_cons, List.drop_succ_cons, List.drop_zero, parseHex4_hex4 hh]
    rfl

theorem Aligned.behind_unicode {raw : Bytes} {i : Nat} (h : Aligned (raw.drop i))
    (hi : raw[i]? = some (ch '\\')) (hu : raw[i + 1]? = some (ch 'u')) :
    Aligned (raw.drop (i + 6)) := by
  rw [← List.head?_drop] at hi
  rw [← List.getElem?_drop] at hu
  rw [← List.drop_drop]
  generalize raw.drop i = r at h hi hu
  cases h with
  | nil => cases hi
  | plain hc _ => exact absurd (Option.some.inj hi) hc
  | escape hesc _ => exact absurd (Option.some.inj hu) hesc
  | unicode hh hr =>
    rw [List.drop_succ_cons, List.drop_succ_cons]
    rwa [show 4 = List.length _ from hh.length.symm, List.drop_left]

/-! ## The units of the second pass -/

/-- `case 'u'` at an index, by the escape on the text behind it. -/
inductive Unescapes (raw : Bytes) (i : Nat) : Outcome Bytes × Nat → Prop
  | value {b : Bytes} {j : Nat} (hi : i < j) (hj : j ≤ raw.length)
      (h : unicodeEscape (raw.drop i) = some (b, raw.drop j)) : Unescapes raw i (.value b, j)
  | failed {j : Nat} (h : unicodeEscape (raw.drop i) = none) : Unescapes raw i (.failed, j)

theorem parseHex4_room {raw : Bytes} {i n : Nat} (h : parseHex4 (raw.drop i) = some n) :
    i + 4 ≤ raw.length := by
  unfold parseHex4 at h
  split at h
  · cases h
  · rename_i hlength
    rw [List.length_drop] at hlength
    omega

theorem pair_iff {raw : Bytes} {i : Nat} :
    (i + 6 ≤ raw.length ∧ raw[i]? = some (ch '\\') ∧ raw[i + 1]? = some (ch 'u')) ↔
      6 ≤ (raw.drop i).length ∧ (raw.drop i).take 2 = [ch '\\', ch 'u'] := by
  rw [show raw[i + 1]? = (raw.drop i)[1]? by rw [List.getElem?_drop],
    show raw[i]? = (raw.drop i)[0]? by rw [List.getElem?_drop, Nat.add_zero]]
  have hroom : i + 6 ≤ raw.length ↔ 6 ≤ (raw.drop i).length := by
    rw [List.length_drop]
    omega
  rw [hroom]
  refine and_congr_right fun hlength => ?_
  match raw.drop i, hlength with
  | a :: b :: r, _ => simp

theorem Unescapes.of_map {raw : Bytes} {i j : Nat} {o : Option Bytes} (hi : i < j)
    (hj : j ≤ raw.length) :
    unicodeEscape (raw.drop i) = (o.map fun b => (b, raw.drop j)) →
      Unescapes raw i (match o with | none => (.failed, j) | some b => (.value b, j)) := by
  intro h
  cases o with
  | none => exact .failed h
  | some b => exact .value hi hj h

theorem unicodeAt_unescapes (raw : Bytes) (i : Nat) : Unescapes raw i (unicodeAt raw i) := by
  obtain ⟨r, hr⟩ : ∃ r, unicodeEscape (raw.drop i) = r := ⟨_, rfl⟩
  have hescape := hr
  unfold unicodeEscape at hescape
  unfold unicodeAt
  cases hcp : parseHex4 (raw.drop i) with
  | none =>
    simp only [hcp] at hescape ⊢
    exact .failed (hr.trans hescape.symm)
  | some cp =>
    have hroom := parseHex4_room hcp
    simp only [hcp, List.drop_drop, ← pair_iff] at hescape ⊢
    split
    · rename_i hhigh
      rw [if_pos hhigh] at hescape
      split
      · rename_i hmark
        rw [if_pos hmark] at hescape
        cases hlow : parseHex4 (raw.drop (i + 4 + 2)) with
        | none =>
          simp only [hlow] at hescape ⊢
          exact .failed (hr.trans hescape.symm)
        | some low =>
          simp only [hlow] at hescape ⊢
          split
          · rename_i hrange
            rw [if_pos hrange] at hescape
            exact .failed (hr.trans hescape.symm)
          · rename_i hrange
            rw [if_neg hrange] at hescape
            generalize encodeUtf8 _ = o at hescape ⊢
            exact .of_map (by omega) (by omega) (hr.trans hescape.symm)
      · rename_i hmark
        rw [if_neg hmark] at hescape
        exact .failed (hr.trans hescape.symm)
    · rename_i hhigh
      rw [if_neg hhigh] at hescape
      split
      · rename_i hlow
        rw [if_pos hlow] at hescape
        exact .failed (hr.trans hescape.symm)
      · rename_i hlow
        rw [if_neg hlow] at hescape
        exact .of_map (by omega) hroom (hr.trans hescape.symm)

/-- What a turn of the second loop can do. -/
inductive Decodes (raw : Bytes) (i : Nat) : Outcome Bytes × Nat → Prop
  | plain {c : UInt8} (h : raw.drop i = c :: raw.drop (i + 1)) (hc : c ≠ ch '\\') :
      Decodes raw i (.value [c], i + 1)
  | escape {esc b : UInt8} (h : raw.drop i = ch '\\' :: esc :: raw.drop (i + 2))
      (hroom : i + 2 ≤ raw.length) (hb : escapeByte esc = some b) :
      Decodes raw i (.value [b], i + 2)
  | unknown {esc : UInt8} (h : raw.drop i = ch '\\' :: esc :: raw.drop (i + 2))
      (hesc : esc ≠ ch 'u') (hb : escapeByte esc = none) : Decodes raw i (.failed, i + 2)
  | unicode {r : Outcome Bytes × Nat} (h : raw.drop i = ch '\\' :: ch 'u' :: raw.drop (i + 2))
      (hr : Unescapes raw (i + 2) r) : Decodes raw i r
  | outside {j : Nat} (h : raw.drop i = [ch '\\']) : Decodes raw i (.outside, j)

theorem decodeUnit_decodes {raw : Bytes} {i : Nat} (hi : i < raw.length) :
    Decodes raw i (decodeUnit raw i) := by
  have hdrop : raw.drop i = raw[i] :: raw.drop (i + 1) := List.drop_eq_getElem_cons hi
  have hc : raw[i]? = some raw[i] := List.getElem?_eq_getElem hi
  generalize raw[i] = c at hdrop hc
  simp only [decodeUnit, hc]
  split
  · rename_i hplain
    exact .plain hdrop hplain
  · rename_i hslash
    obtain rfl : c = ch '\\' := not_ne_iff.mp hslash
    cases hesc : raw[i + 1]? with
    | none =>
      rw [List.drop_eq_nil_of_le (List.getElem?_eq_none_iff.mp hesc)] at hdrop
      exact .outside hdrop
    | some esc =>
      obtain ⟨hroom, rfl⟩ := List.getElem?_eq_some_iff.mp hesc
      rw [List.drop_eq_getElem_cons hroom] at hdrop
      generalize raw[i + 1] = esc at hdrop
      simp only
      cases hb : escapeByte esc with
      | some b => exact .escape hdrop hroom hb
      | none =>
        simp only
        split
        · rename_i hu
          subst hu
          exact .unicode hdrop (unicodeAt_unescapes raw (i + 2))
        · rename_i hu
          exact .unknown hdrop hu hb

/-- A turn of the second loop. -/
def Turns (raw : Bytes) (i : Nat) (b : Bytes) (j : Nat) : Prop :=
  i < raw.length ∧ decodeUnit raw i = (.value b, j)

/-- The step lemma of the second loop: a turn goes from alignment to alignment. -/
theorem Turns.aligned {raw b : Bytes} {i j : Nat} (hturn : Turns raw i b j)
    (ha : Aligned (raw.drop i)) : Aligned (raw.drop j) ∧ i < j ∧ j ≤ raw.length := by
  obtain ⟨hi, hunit⟩ := hturn
  have hdecodes := decodeUnit_decodes hi
  rw [hunit] at hdecodes
  cases hdecodes with
  | plain h hc =>
    rw [h] at ha
    exact ⟨ha.of_plain hc, by omega, by omega⟩
  | escape h hroom hb =>
    rw [h] at ha
    exact ⟨ha.of_escape (by intro hu; rw [hu] at hb; cases hb), by omega, hroom⟩
  | unicode h hr =>
    rw [h] at ha
    cases hr with
    | value hj hend hu =>
      refine ⟨?_, by omega, hend⟩
      rcases unicodeEscape_cases hu with ⟨c, g, hg, heq, rfl⟩ |
        ⟨c, g, g', high, low, hg, hg', -, -, -, -, -, heq, rfl⟩
      · rw [heq] at ha
        exact ha.of_unicode hg
      · rw [heq] at ha
        exact (ha.of_unicode hg).of_unicode hg'

/-! ## The second pass -/

theorem secondPass_turn {raw : Bytes} {i : Nat} (hi : i < raw.length) (fuel : Nat)
    (decoded : Bytes) :
    secondPass raw (fuel + 1) decoded i =
      (decodeUnit raw >>= fun b => secondPass raw fuel (decoded ++ b)) i := if_pos hi

theorem secondPass_end {raw : Bytes} {i : Nat} (hi : ¬ i < raw.length) (fuel : Nat)
    (decoded : Bytes) : secondPass raw (fuel + 1) decoded i = (.value decoded, i) := if_neg hi

/-- The end of the second loop, by the decoding of the text in front of it. -/
inductive Ends (raw decoded : Bytes) : Decoded → Outcome Bytes × Nat → Prop
  | text (d : Bytes) : Ends raw decoded (.text d) (.value (decoded ++ d), raw.length)
  | malformed {j : Nat} : Ends raw decoded .malformed (.failed, j)
  | outside {j : Nat} : Ends raw decoded .outside (.outside, j)

theorem Ends.prepend {raw decoded b : Bytes} {d : Decoded} {r : Outcome Bytes × Nat}
    (h : Ends raw (decoded ++ b) d r) : Ends raw decoded (d.prepend b) r := by
  cases h with
  | text d =>
    rw [List.append_assoc]
    exact .text (b ++ d)
  | malformed => exact .malformed
  | outside => exact .outside

theorem secondPass_ends {raw : Bytes} {fuel : Nat} {decoded : Bytes} {i : Nat}
    (hi : i ≤ raw.length) (hf : raw.length - i < fuel) :
    Ends raw decoded (decodeString fuel (raw.drop i)) (secondPass raw fuel decoded i) := by
  induction fuel generalizing decoded i with
  | zero => omega
  | succ fuel ih =>
    by_cases hlt : i < raw.length
    · rw [secondPass_turn hlt]
      have hunit := decodeUnit_decodes hlt
      -- What follows a unit that ends at `j`.
      have hnext {b : Bytes} {j : Nat} (hr : decodeUnit raw i = (.value b, j)) (hj : i < j)
          (hend : j ≤ raw.length) :
          Ends raw decoded ((decodeString fuel (raw.drop j)).prepend b)
            ((decodeUnit raw >>= fun b => secondPass raw fuel (decoded ++ b)) i) := by
        rw [Reader.bind_of_value hr]
        exact (ih hend (by omega)).prepend
      generalize hr : decodeUnit raw i = r at hunit
      cases hunit with
      | @plain c h hc =>
        have hstep : decodeString (fuel + 1) (raw.drop i) =
            (decodeString fuel (raw.drop (i + 1))).prepend [c] := by
          rw [h]
          exact decodeString_plain [c] (fun b hb => List.mem_singleton.mp hb ▸ hc) fuel _
        rw [hstep]
        exact hnext hr (by omega) (by omega)
      | @escape esc b h hroom hb =>
        have hstep : decodeString (fuel + 1) (raw.drop i) =
            (decodeString fuel (raw.drop (i + 2))).prepend [b] := by
          rw [h]
          exact decodeString_escape hb fuel _
        rw [hstep]
        exact hnext hr (by omega) hroom
      | unknown h hesc hb =>
        have hstep : decodeString (fuel + 1) (raw.drop i) = .malformed := by
          rw [h]
          exact decodeString_unknown hesc hb fuel _
        rw [hstep, Reader.bind_of_failed hr]
        exact .malformed
      | unicode h hunescapes =>
        cases hunescapes with
        | @value b j hj hend hu =>
          have hstep : decodeString (fuel + 1) (raw.drop i) =
              (decodeString fuel (raw.drop j)).prepend b := by
            rw [h]
            refine (decodeString_unicode fuel _).trans ?_
            rw [hu]
          rw [hstep]
          exact hnext hr (by omega) hend
        | failed hu =>
          have hstep : decodeString (fuel + 1) (raw.drop i) = .malformed := by
            rw [h]
            refine (decodeString_unicode fuel _).trans ?_
            rw [hu]
          rw [hstep, Reader.bind_of_failed hr]
          exact .malformed
      | outside h =>
        rw [h, Reader.bind_of_outside hr]
        exact .outside
    · rw [List.drop_eq_nil_of_le (by omega), secondPass_end hlt, show i = raw.length by omega]
      have h : Ends raw decoded (.text []) (.value (decoded ++ []), raw.length) := .text []
      rwa [List.append_nil] at h

/-- The second pass goes on from where its turns come to. -/
theorem secondPass_run {raw : Bytes} {bs : List Bytes} {i : Nat} (hr : Run (Turns raw) 0 bs i) :
    ∀ fuel, secondPass raw (fuel + bs.length) [] 0 = secondPass raw fuel bs.flatten i := by
  induction hr with
  | nil => exact fun fuel => rfl
  | @snoc bs i b j _ hturn ih =>
    intro fuel
    rw [List.length_append, List.length_singleton, ← Nat.add_assoc, Nat.add_right_comm, ih,
      secondPass_turn hturn.1, Reader.bind_of_value hturn.2, List.flatten_append,
      List.flatten_singleton]

/-- The invariant of the second loop over an aligned segment. -/
theorem run_aligned {raw : Bytes} {bs : List Bytes} {i : Nat} (ha : Aligned raw)
    (hr : Run (Turns raw) 0 bs i) : Aligned (raw.drop i) ∧ i ≤ raw.length :=
  hr.invariant (I := fun i => Aligned (raw.drop i) ∧ i ≤ raw.length) ⟨ha, Nat.zero_le _⟩
    fun hI hturn => ⟨(hturn.aligned hI.1).1, (hturn.aligned hI.1).2.2⟩

theorem secondPass_inside {raw : Bytes} {fuel : Nat} {decoded : Bytes} {i j : Nat}
    (ha : Aligned (raw.drop i)) : secondPass raw fuel decoded i ≠ (.outside, j) := by
  induction fuel generalizing decoded i with
  | zero => simp [secondPass]
  | succ fuel ih =>
    by_cases hlt : i < raw.length
    · rw [secondPass_turn hlt]
      have hunit := decodeUnit_decodes hlt
      cases hr : decodeUnit raw i with
      | mk o k =>
        cases o with
        | value b =>
          rw [Reader.bind_of_value hr]
          exact ih (Turns.aligned ⟨hlt, hr⟩ ha).1
        | failed =>
          rw [Reader.bind_of_failed hr]
          simp
        | outside =>
          rw [hr] at hunit
          cases hunit with
          | unicode _ hr => cases hr
          | outside h =>
            rw [h] at ha
            cases ha with
            | plain hc _ => exact absurd rfl hc
        | running =>
          rw [hr] at hunit
          cases hunit with
          | unicode _ hr => cases hr
    · rw [secondPass_end hlt]
      simp

/-! ## Both passes -/

/-- Over an aligned segment the second pass comes to the end of it or fails. -/
theorem secondPass_aligned {raw : Bytes} (ha : Aligned raw) :
    (∃ d, decodeString (raw.length + 1) raw = .text d ∧
      secondPass raw (raw.length + 1) [] 0 = (.value d, raw.length)) ∨
    (decodeString (raw.length + 1) raw = .malformed ∧
      ∃ j, secondPass raw (raw.length + 1) [] 0 = (.failed, j)) := by
  have hends : Ends raw [] (decodeString (raw.length + 1) raw)
      (secondPass raw (raw.length + 1) [] 0) :=
    secondPass_ends (Nat.zero_le _) (Nat.lt_succ_self _)
  generalize hd : decodeString (raw.length + 1) raw = decoded at hends
  generalize hr : secondPass raw (raw.length + 1) [] 0 = r at hends
  cases hends with
  | text d => exact .inl ⟨d, rfl, rfl⟩
  | @malformed j => exact .inr ⟨rfl, j, rfl⟩
  | outside => exact absurd hr (secondPass_inside ha)

theorem firstPass_segment {s t : Cursor} {b : Bool} {fuel : Nat} (hf : s.rest.length < fuel)
    (h : firstPass fuel false s = (.value b, t)) :
    ∃ raw, s.rest = raw ++ t.rest ∧ t = s.advance raw.length ∧ Segment raw b := by
  have hscanned : Scanned false s (scanString fuel s.rest) (firstPass fuel false s) :=
    firstPass_scan hf
  generalize hscan : scanString fuel s.rest = scan at hscanned
  rw [h] at hscanned
  cases hscanned with
  | value hn =>
    obtain ⟨raw, after, hrest, rfl, hraw⟩ := segment_of_scanString hscan
    refine ⟨raw, ?_, rfl, hraw⟩
    rw [rest_advance, hrest, List.drop_left]

/-- The text between the quotation marks, once both are found. -/
theorem parseString_closed {s : Cursor} {raw after : Bytes} {e : Bool}
    (hrest : s.rest = ch '"' :: (raw ++ ch '"' :: after))
    (hpass : firstPass ((s.advance 1).rest.length + 1) false (s.advance 1) =
      (.value e, s.advance (1 + raw.length))) :
    s.parseString = (if e then decode raw else pure raw) (s.advance (raw.length + 2)) := by
  obtain ⟨-, -, hbody⟩ := rest_cons hrest
  have hbehind : (s.advance (1 + raw.length)).rest = ch '"' :: after := by
    rw [← advance_advance, rest_advance, hbody, List.drop_left]
  have htaken : (((s.advance (1 + raw.length)).advance 1).input.drop (s.advance 1).pos).take
      (((s.advance (1 + raw.length)).advance 1).pos - (s.advance 1).pos - 1) = raw := by
    show (s.advance 1).rest.take _ = raw
    rw [hbody, advance_pos, advance_pos, advance_pos]
    exact List.take_left' (by omega)
  rw [rest_length] at hpass
  rw [parseString, Reader.bind_of_value (expect_value hrest), here_bind,
    Reader.bind_of_value hpass, Reader.bind_of_value (expect_value hbehind), here_bind]
  simp only [htaken]
  rw [advance_advance, show 1 + raw.length + 1 = raw.length + 2 by omega]

/-- ParseString with an index takes what ParseString on the unread text takes. -/
theorem parseString_takes (s : Cursor) : Takes 1 s (Common.parseString s.rest) s.parseString := by
  cases hrest : s.rest with
  | nil =>
    have h : s.parseString = (.failed, s) :=
      Reader.bind_of_failed (expect_failed fun r hr => by rw [hrest] at hr; cases hr)
    rw [h]
    exact .failed (n := 0) (Nat.zero_le _)
  | cons q body =>
    by_cases hq : q = ch '"'
    swap
    · have h : s.parseString = (.failed, s) := Reader.bind_of_failed (expect_failed_of hrest hq)
      rw [h, Common.parseString, if_neg hq]
      exact .failed (n := 0) (Nat.zero_le _)
    subst hq
    have hlength := congrArg List.length hrest
    rw [List.length_cons] at hlength
    obtain ⟨-, -, hbody⟩ := rest_cons hrest
    have hscanned : Scanned false (s.advance 1) (scanString (body.length + 1) body)
        (firstPass (body.length + 1) false (s.advance 1)) := by
      rw [← hbody]
      exact firstPass_scan (Nat.lt_succ_self _)
    have hroom : (s.advance 1).input.length - (s.advance 1).pos + 1 = body.length + 1 := by
      rw [← hbody, rest_length]
    rw [show Common.parseString (ch '"' :: body) = _ from parseString_quote body]
    generalize hscan : scanString (body.length + 1) body = scan at hscanned
    generalize hpass : firstPass (body.length + 1) false (s.advance 1) = r at hscanned
    have hopen : s.parseString = _ := Reader.bind_of_value (expect_value hrest)
    rw [here_bind, hroom] at hopen
    cases hscanned with
    | failed h =>
      rw [hopen, Reader.bind_of_failed hpass, advance_advance]
      exact .failed (by rw [hbody] at h; omega)
    | @value n e h =>
      rw [hbody] at h
      rw [advance_advance, Bool.false_or] at hpass
      have hafter : (s.advance (1 + n)).rest = body.drop n := by
        rw [← advance_advance, rest_advance, hbody]
      dsimp only
      cases hquote : body.drop n with
      | nil =>
        rw [hquote] at hafter
        have hfail : expect (ch '"') (s.advance (1 + n)) = (.failed, s.advance (1 + n)) :=
          expect_failed fun r hr => by rw [hafter] at hr; cases hr
        rw [hopen, Reader.bind_of_value hpass, Reader.bind_of_failed hfail]
        exact .failed (by omega)
      | cons q after =>
        rw [hquote] at hafter
        dsimp only
        by_cases hq : q = ch '"'
        swap
        · rw [hopen, Reader.bind_of_value hpass, Reader.bind_of_failed (expect_failed_of hafter hq),
            if_neg hq]
          exact .failed (by omega)
        subst hq
        obtain ⟨raw, after', hsplit, rfl, hraw⟩ := segment_of_scanString hscan
        rw [hsplit, List.drop_left] at hquote
        subst hquote hsplit
        rw [← hbody] at hpass
        rw [parseString_closed hrest hpass, if_pos rfl, List.take_left]
        have hvalue (d : Bytes) :
            Takes 1 s (some (d, after)) (.value d, s.advance (raw.length + 2)) := by
          have hbehind : s.rest.drop (raw.length + 2) = after := by
            rw [hrest, List.drop_succ_cons, ← List.drop_drop, List.drop_left]
            rfl
          rw [← hbehind]
          exact .value (by omega) (by rw [List.length_append] at hlength; simp at hlength; omega)
        cases e with
        | false => exact hvalue raw
        | true =>
          rw [if_pos rfl, if_pos rfl, decode]
          rcases secondPass_aligned (aligned_of_segment hraw) with ⟨d, htext, hpass⟩ |
            ⟨hmalformed, j, hpass⟩
          · rw [htext, hpass]
            exact hvalue d
          · rw [hmalformed, hpass]
            exact .failed (by rw [List.length_append] at hlength; simp at hlength; omega)

/-- The segment between two indices of the first pass. -/
def segment (start stop : Cursor) : Bytes := (start.input.drop start.pos).take (stop.pos - start.pos)

/-- The passes agree. In front of the closing quotation mark that the first one finds, the second one
has what it reads behind every backslash, also in the second escape of a surrogate pair, and it comes
to the end of the segment or fails. What ParseString takes is a segment between quotation marks, and
its value is well formed. -/
theorem parseString_passes (s : Cursor) :
    (∀ start stop needsDecode, expect (ch '"') s = (.value (), start) →
      firstPass (start.input.length - start.pos + 1) false start = (.value needsDecode, stop) →
      stop.atEnd = false →
      (∀ bs i, Run (Turns (segment start stop)) 0 bs i → i ≤ (segment start stop).length ∧
        ((segment start stop)[i]? = some (ch '\\') → Followed (segment start stop) i ∧
          ((segment start stop)[i + 1]? = some (ch 'u') →
            (segment start stop)[i + 6]? = some (ch '\\') →
            Followed (segment start stop) (i + 6)))) ∧
      ∃ o j, secondPass (segment start stop) ((segment start stop).length + 1) [] 0 = (o, j) ∧
        (o = .failed ∨ (∃ d, o = .value d) ∧ j = (segment start stop).length)) ∧
    s.parseString.1.Settled ∧
    ∀ d t, s.parseString = (.value d, t) →
      (∃ raw e, Segment raw e ∧ s.rest = ch '"' :: (raw ++ ch '"' :: t.rest) ∧
        t.pos = s.pos + raw.length + 2) ∧ Utf8.WellFormed d := by
  refine ⟨?_, (parseString_takes s).settled, ?_⟩
  · intro start stop needsDecode _ hpass hstop
    obtain ⟨raw, hrest, rfl, hraw⟩ := firstPass_segment
      (by rw [rest_length]; exact Nat.lt_succ_self _) hpass
    have hsegment : segment start (start.advance raw.length) = raw := by
      rw [segment, show start.input.drop start.pos = start.rest from rfl, hrest, advance_pos,
        Nat.add_sub_cancel_left, List.take_left]
    have ha := aligned_of_segment hraw
    rw [hsegment]
    constructor
    · intro bs i hr
      obtain ⟨hi, hend⟩ := run_aligned ha hr
      refine ⟨hend, fun hslash => ⟨hi.followed hslash, fun hu hpair => ?_⟩⟩
      exact (hi.behind_unicode hslash hu).followed hpair
    · rcases secondPass_aligned ha with ⟨d, -, h⟩ | ⟨-, j, h⟩
      · exact ⟨_, _, h, .inr ⟨⟨d, rfl⟩, rfl⟩⟩
      · exact ⟨_, _, h, .inl rfl⟩
  · intro d t h
    have htakes := parseString_takes s
    generalize hstring : Common.parseString s.rest = r at htakes
    rw [h] at htakes
    cases htakes with
    | @value _ n hpos hn =>
      obtain ⟨body, hrest, hbody⟩ := parseString_iff.mp hstring
      obtain ⟨raw, e, rfl, hraw, -⟩ := segment_of_stringBody hbody
      refine ⟨⟨raw, e, hraw, ?_, ?_⟩, hbody.wellFormed⟩
      · rw [rest_advance]
        exact hrest
      · have hlength := congrArg List.length hrest
        rw [List.length_cons, List.length_append, List.length_cons, List.length_drop] at hlength
        rw [advance_pos]
        omega

example : (parseString { input := ch '"' :: 0xC3 :: 0xA9 :: lit "\\n\\u00e9\\ud83d\\ude00\" " }).1 =
    .value [0xC3, 0xA9, 10, 0xC3, 0xA9, 0xF0, 0x9F, 0x98, 0x80] := rfl

end Cursor

end WebHtop.Common
