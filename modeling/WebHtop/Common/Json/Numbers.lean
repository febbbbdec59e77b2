import WebHtop.Common.Json.Grammar
import WebHtop.Common.Json.Parser

/-!
# Numbers as the parser reads them

A number ends where no rule of the grammar can go on, so the scanner reads it back from
any text in which something else follows.
-/

namespace WebHtop.Common

open WebHtop.Lib WebHtop.Lib.Json WebHtop.Lib.Decimal

def NoDigit (r : Bytes) : Prop := ∀ c, r.head? = some c → isDigit c = false

/-- What may follow a number without becoming a part of it. -/
def Delimited (r : Bytes) : Prop :=
  ∀ c, r.head? = some c → isDigit c = false ∧ c ≠ 0x2E ∧ c ≠ 0x65 ∧ c ≠ 0x45

theorem Delimited.noDigit {r : Bytes} (h : Delimited r) : NoDigit r := fun c hc => (h c hc).1

theorem digits_span (s : Bytes) : ∃ ds, s = ds ++ s.dropWhile isDigit ∧ Digits ds :=
  ⟨s.takeWhile isDigit, List.takeWhile_append_dropWhile.symm, List.all_eq_true.mp List.all_takeWhile⟩

theorem dropWhile_digits {ds r : Bytes} (hd : Digits ds) (hr : NoDigit r) :
    (ds ++ r).dropWhile isDigit = r := by
  rw [List.dropWhile_append_of_pos hd]
  cases r with
  | nil => rfl
  | cons c r => rw [List.dropWhile_cons_of_neg (by simp [hr c rfl])]

theorem takeWhile_digits {ds : Bytes} (hd : Digits ds) : ds.takeWhile isDigit = ds := by
  have h : (ds ++ []).takeWhile isDigit = _ := List.takeWhile_append_of_pos hd
  simpa using h

/-! ## The three parts -/

theorem intPart_of_scanInt {s r : Bytes} (h : scanInt s = some r) :
    ∃ i, s = i ++ r ∧ IntPart i := by
  cases s with
  | nil => cases h
  | cons c cs =>
      simp only [scanInt] at h
      split at h
      · cases h
      rename_i hdigit
      rw [Bool.not_eq_false] at hdigit
      split at h
      · rename_i hzero
        obtain rfl : c = 0x30 := hzero
        refine ⟨[0x30], ?_, .inl rfl⟩
        cases cs with
        | nil => cases h; rfl
        | cons d ds =>
            dsimp only at h
            split at h
            · cases h
            · cases h; rfl
      · rename_i hzero
        obtain ⟨ds, hcs, hd⟩ := digits_span cs
        refine ⟨c :: ds, ?_, .inr ⟨c, ds, rfl, hdigit, hzero, hd⟩⟩
        rw [List.dropWhile_cons_of_pos hdigit] at h
        obtain rfl := Option.some.inj h
        rw [List.cons_append, ← hcs]

theorem scanInt_intPart {i r : Bytes} (h : IntPart i) (hr : NoDigit r) :
    scanInt (i ++ r) = some r := by
  rcases h with rfl | ⟨c, ds, rfl, hc, hz, hd⟩
  · cases r with
    | nil => rfl
    | cons c r =>
        have hz : isDigit 0x30 = true := rfl
        simp only [List.cons_append, List.nil_append, scanInt, hz, hr c rfl]
        rfl
  · have hz' : ¬ c = ch '0' := hz
    simp only [List.cons_append, scanInt]
    rw [if_neg (by simp [hc]), if_neg hz', List.dropWhile_cons_of_pos hc, dropWhile_digits hd hr]

theorem fracPart_of_scanFrac {s r : Bytes} {b : Bool} (h : scanFrac s = some (b, r)) :
    ∃ f, s = f ++ r ∧ FracPart f ∧ (b = false ↔ f = []) := by
  cases s with
  | nil =>
      obtain ⟨rfl, rfl⟩ := Prod.mk.inj (Option.some.inj h)
      exact ⟨[], rfl, .inl rfl, by simp⟩
  | cons c cs =>
      simp only [scanFrac] at h
      split at h
      · rename_i hdot
        obtain rfl : c = 0x2E := hdot
        cases cs with
        | nil => cases h
        | cons d ds =>
            dsimp only at h
            split at h
            · rename_i hdigit
              obtain ⟨rfl, rfl⟩ := Prod.mk.inj (Option.some.inj h)
              obtain ⟨ts, hds, ht⟩ := digits_span ds
              rw [List.dropWhile_cons_of_pos hdigit]
              refine ⟨0x2E :: d :: ts, by simp [← hds], .inr ⟨d :: ts, rfl, by simp, ?_⟩, by simp⟩
              exact List.forall_mem_cons.mpr ⟨hdigit, ht⟩
            · cases h
      · obtain ⟨rfl, rfl⟩ := Prod.mk.inj (Option.some.inj h)
        exact ⟨[], rfl, .inl rfl, by simp⟩

theorem scanFrac_fracPart {f r : Bytes} (h : FracPart f) (hr : NoDigit r)
    (hdot : f = [] → r.head? ≠ some 0x2E) :
    scanFrac (f ++ r) = some (!f.isEmpty, r) := by
  rcases h with rfl | ⟨ds, rfl, hne, hd⟩
  · cases r with
    | nil => rfl
    | cons c r =>
        have hc : ¬ c = ch '.' := fun hc => hdot rfl (by rw [hc]; rfl)
        simp only [List.nil_append, scanFrac]
        rw [if_neg hc]
        rfl
  · obtain ⟨d, ts, rfl⟩ := List.exists_cons_of_ne_nil hne
    have hdigit : isDigit d = true := hd d List.mem_cons_self
    simp only [List.cons_append, scanFrac]
    rw [if_pos (show (0x2E : UInt8) = ch '.' from rfl), if_pos hdigit, ← List.cons_append, dropWhile_digits hd hr]
    rfl

theorem skipExpSign_cases (s : Bytes) : ∃ sign, s = sign ++ skipExpSign s ∧
    (sign = [] ∨ sign = [0x2B] ∨ sign = [0x2D]) := by
  cases s with
  | nil => exact ⟨[], rfl, .inl rfl⟩
  | cons c cs =>
      rw [skipExpSign]
      split
      · rename_i hc
        rcases hc with hc | hc
        · obtain rfl : c = 0x2B := hc
          exact ⟨[0x2B], rfl, .inr (.inl rfl)⟩
        · obtain rfl : c = 0x2D := hc
          exact ⟨[0x2D], rfl, .inr (.inr rfl)⟩
      · exact ⟨[], rfl, .inl rfl⟩

theorem digit_not_sign {d : UInt8} (h : isDigit d = true) : ¬ (d = ch '+' ∨ d = ch '-') := by
  rintro (rfl | rfl)
  · cases h
  · cases h

theorem skipExpSign_sign {sign : Bytes} (h : sign = [] ∨ sign = [0x2B] ∨ sign = [0x2D]) {d : UInt8}
    (hd : isDigit d = true) (ds : Bytes) : skipExpSign (sign ++ d :: ds) = d :: ds := by
  rcases h with rfl | rfl | rfl
  · exact if_neg (digit_not_sign hd)
  · rfl
  · rfl

theorem expPart_of_scanExp {s r : Bytes} {b : Bool} (h : scanExp s = some (b, r)) :
    ∃ e, s = e ++ r ∧ ExpPart e ∧ (b = false ↔ e = []) := by
  cases s with
  | nil =>
      obtain ⟨rfl, rfl⟩ := Prod.mk.inj (Option.some.inj h)
      exact ⟨[], rfl, .inl rfl, by simp⟩
  | cons c cs =>
      simp only [scanExp] at h
      obtain ⟨sign, hcs, hsign⟩ := skipExpSign_cases cs
      split at h
      · rename_i he
        have hc : c = 0x65 ∨ c = 0x45 := he
        split at h
        · rename_i d ds hskip
          rw [hskip] at hcs
          split at h
          · rename_i hdigit
            obtain ⟨rfl, rfl⟩ := Prod.mk.inj (Option.some.inj h)
            obtain ⟨ts, hds, ht⟩ := digits_span ds
            rw [List.dropWhile_cons_of_pos hdigit]
            refine ⟨c :: (sign ++ d :: ts), by simp [← hds, hcs],
              .inr ⟨c, sign, d :: ts, rfl, hc, hsign, by simp, ?_⟩, by simp⟩
            exact List.forall_mem_cons.mpr ⟨hdigit, ht⟩
          · cases h
        · cases h
      · obtain ⟨rfl, rfl⟩ := Prod.mk.inj (Option.some.inj h)
        exact ⟨[], rfl, .inl rfl, by simp⟩

theorem scanExp_expPart {e r : Bytes} (h : ExpPart e) (hr : NoDigit r)
    (he : e = [] → r.head? ≠ some 0x65 ∧ r.head? ≠ some 0x45) :
    scanExp (e ++ r) = some (!e.isEmpty, r) := by
  rcases h with rfl | ⟨c, sign, ds, rfl, hc, hsign, hne, hd⟩
  · obtain ⟨h1, h2⟩ := he rfl
    cases r with
    | nil => rfl
    | cons c r =>
        have hc : ¬ (c = ch 'e' ∨ c = ch 'E') := by
          rintro (hc | hc)
          · exact h1 (by rw [hc]; rfl)
          · exact h2 (by rw [hc]; rfl)
        simp only [List.nil_append, scanExp]
        rw [if_neg hc]
        rfl
  · obtain ⟨d, ts, rfl⟩ := List.exists_cons_of_ne_nil hne
    have hdigit : isDigit d = true := hd d List.mem_cons_self
    have hc' : c = ch 'e' ∨ c = ch 'E' := hc
    have hdrop := dropWhile_digits hd hr
    simp only [List.cons_append, List.append_assoc, scanExp]
    rw [if_pos hc', skipExpSign_sign hsign hdigit]
    dsimp only
    rw [if_pos hdigit, ← List.cons_append, hdrop]
    rfl

/-! ## Conversion -/

theorem fromCharsUInt64_digits {i : Bytes} (h : IntPart i) :
    fromCharsUInt64 i =
      if value i < 2 ^ 64 then some (UInt64.ofNat (value i)) else none := by
  obtain ⟨hd, hne⟩ := h.digits
  simp only [fromCharsUInt64, takeWhile_digits hd, hne, false_or]
  split_ifs <;> first | rfl | omega

theorem fromCharsInt64_digits {i : Bytes} (h : IntPart i) :
    fromCharsInt64 (0x2D :: i) =
      if value i ≤ 2 ^ 63 then some (Int64.ofInt (-(value i : Int))) else none := by
  obtain ⟨hd, hne⟩ := h.digits
  have hhead : (0x2D :: i).head? = some (ch '-') := rfl
  rw [fromCharsInt64, if_pos hhead]
  simp only [List.tail_cons, takeWhile_digits hd, hne, false_or]
  split_ifs <;> first | rfl | omega

theorem skipSign_cases (s : Bytes) :
    ∃ sign, s = sign ++ skipSign s ∧ (sign = [] ∨ sign = [0x2D]) := by
  cases s with
  | nil => exact ⟨[], rfl, .inl rfl⟩
  | cons c cs =>
      rw [skipSign]
      split
      · rename_i hc
        obtain rfl : c = 0x2D := hc
        exact ⟨[0x2D], rfl, .inr rfl⟩
      · exact ⟨[], rfl, .inl rfl⟩

/-! ## ParseNumber -/

variable {D : Type} [Double D]

/-- The conversion of a scanned number. -/
def convert (num : Bytes) (isFloat : Bool) : Option (JSONValue D) :=
  if isFloat then
    (Double.fromChars num).bind fun d => if Double.isFinite d then some (.double d) else none
  else if num.head? = some (ch '-') then (fromCharsInt64 num).map .int64
  else (fromCharsUInt64 num).map .uint64

theorem parseNumber_parts {sign i f e after : Bytes} {b b' : Bool}
    (hskip : skipSign (sign ++ (i ++ (f ++ (e ++ after)))) = i ++ (f ++ (e ++ after)))
    (hi : scanInt (i ++ (f ++ (e ++ after))) = some (f ++ (e ++ after)))
    (hf : scanFrac (f ++ (e ++ after)) = some (b, e ++ after))
    (he : scanExp (e ++ after) = some (b', after)) :
    parseNumber (D := D) (sign ++ (i ++ (f ++ (e ++ after)))) =
      (convert (sign ++ i ++ f ++ e) (b || b')).map fun v => (v, after) := by
  have hassoc : sign ++ (i ++ (f ++ (e ++ after))) = sign ++ i ++ f ++ e ++ after := by simp
  have hnum : (sign ++ (i ++ (f ++ (e ++ after)))).take
      ((sign ++ (i ++ (f ++ (e ++ after)))).length - after.length) = sign ++ i ++ f ++ e := by
    rw [hassoc, List.length_append, Nat.add_sub_cancel, List.take_left]
  simp only [parseNumber, hskip, hi, hf, he, Option.bind_eq_bind, Option.bind_some, hnum, convert]
  split
  · cases Double.fromChars (D := D) (sign ++ i ++ f ++ e) with
    | none => rfl
    | some d =>
        simp only [Option.bind_some]
        split <;> rfl
  · split
    · cases fromCharsInt64 (sign ++ i ++ f ++ e) <;> rfl
    · cases fromCharsUInt64 (sign ++ i ++ f ++ e) <;> rfl

theorem skipSign_sign {sign i : Bytes} (hsign : sign = [] ∨ sign = [0x2D]) (hi : IntPart i)
    (r : Bytes) : skipSign (sign ++ (i ++ r)) = i ++ r := by
  obtain ⟨c, cs, rfl, hc⟩ := hi.head
  rcases hsign with rfl | rfl
  · exact if_neg fun h => digit_not_sign hc (.inr h)
  · rfl

theorem intPart_head_ne {i : Bytes} (hi : IntPart i) : ¬ i.head? = some (ch '-') := by
  obtain ⟨c, cs, rfl, hc⟩ := hi.head
  exact fun h => digit_not_sign hc (.inr (Option.some.inj h))

theorem convert_number {sign i f e : Bytes} (hsign : sign = [] ∨ sign = [0x2D]) (hi : IntPart i)
    (hf : FracPart f) (he : ExpPart e) {b : Bool} (hb : b = false ↔ f = [] ∧ e = [])
    {v : JSONValue D} (h : convert (sign ++ i ++ f ++ e) b = some v) :
    Number (sign ++ i ++ f ++ e) v := by
  cases b with
  | true =>
      simp only [convert, if_true] at h
      obtain ⟨d, hd, hfinite⟩ := Option.bind_eq_some_iff.mp h
      split at hfinite
      · rename_i hfin
        obtain rfl := Option.some.inj hfinite
        exact .real hsign hi hf he (fun hn => by simpa using hb.mpr hn) hd hfin
      · cases hfinite
  | false =>
      obtain ⟨rfl, rfl⟩ := hb.mp rfl
      simp only [convert, Bool.false_eq_true, if_false, List.append_nil] at h ⊢
      rcases hsign with rfl | rfl
      · rw [List.nil_append] at h ⊢
        rw [if_neg (intPart_head_ne hi), fromCharsUInt64_digits hi] at h
        split at h
        · rename_i hlt
          obtain rfl := Option.some.inj h
          exact .nonneg hi hlt
        · cases h
      · rw [List.singleton_append] at h ⊢
        rw [if_pos (show (0x2D :: i).head? = some (ch '-') from rfl), fromCharsInt64_digits hi] at h
        split at h
        · rename_i hle
          obtain rfl := Option.some.inj h
          exact .neg hi hle
        · cases h

theorem number_convert {x : Bytes} {v : JSONValue D} (h : Number x v) :
    ∃ sign i f e, x = sign ++ i ++ f ++ e ∧ (sign = [] ∨ sign = [0x2D]) ∧ IntPart i ∧ FracPart f ∧
      ExpPart e ∧ convert x (!f.isEmpty || !e.isEmpty) = some v := by
  cases h with
  | nonneg hi hlt =>
      refine ⟨[], x, [], [], by simp, .inl rfl, hi, .inl rfl, .inl rfl, ?_⟩
      simp only [convert, List.isEmpty_nil, Bool.not_true, Bool.or_false, Bool.false_eq_true,
        if_false]
      rw [if_neg (intPart_head_ne hi), fromCharsUInt64_digits hi, if_pos hlt]
      rfl
  | @neg i hi hle =>
      refine ⟨[0x2D], i, [], [], by simp, .inr rfl, hi, .inl rfl, .inl rfl, ?_⟩
      have hhead : (0x2D :: i).head? = some (ch '-') := rfl
      simp only [convert, List.isEmpty_nil, Bool.not_true, Bool.or_false, Bool.false_eq_true,
        if_false]
      rw [if_pos hhead, fromCharsInt64_digits hi, if_pos hle]
      rfl
  | @real sign i f e d hsign hi hf he hne hd hfin =>
      refine ⟨sign, i, f, e, rfl, hsign, hi, hf, he, ?_⟩
      have hfloat : (!f.isEmpty || !e.isEmpty) = true := by
        cases f with
        | nil =>
            cases e with
            | nil => exact absurd ⟨rfl, rfl⟩ hne
            | cons c e => rfl
        | cons c f => rfl
      rw [hfloat]
      simp only [convert, if_true, hd, Option.bind_some, hfin]

/-- ParseNumber reads a number of the grammar. -/
theorem number_of_parseNumber {rest after : Bytes} {v : JSONValue D}
    (h : parseNumber rest = some (v, after)) : ∃ x, rest = x ++ after ∧ Number x v := by
  obtain ⟨sign, hrest, hsign⟩ := skipSign_cases rest
  have h' := h
  simp only [parseNumber, Option.bind_eq_bind, Option.bind_eq_some_iff] at h'
  obtain ⟨s1, hi, ⟨b, s2⟩, hf, ⟨b', s3⟩, he, hlast⟩ := h'
  obtain ⟨i, hi', hint⟩ := intPart_of_scanInt hi
  obtain ⟨f, rfl, hfrac, hfb⟩ := fracPart_of_scanFrac hf
  obtain ⟨e, rfl, hexp, heb⟩ := expPart_of_scanExp he
  rw [hi'] at hrest hi
  rw [hrest, parseNumber_parts (hrest ▸ hi') hi hf he] at h
  obtain ⟨w, hw, hr⟩ := Option.map_eq_some_iff.mp h
  obtain ⟨rfl, rfl⟩ := Prod.mk.inj hr
  refine ⟨sign ++ i ++ f ++ e, by simp [hrest], convert_number hsign hint hfrac hexp ?_ hw⟩
  rw [Bool.or_eq_false_iff, hfb, heb]

/-- ParseNumber reads every number of the grammar in front of a delimiter. -/
theorem parseNumber_number {x after : Bytes} {v : JSONValue D} (h : Number x v)
    (ha : Delimited after) : parseNumber (x ++ after) = some (v, after) := by
  obtain ⟨sign, i, f, e, rfl, hsign, hi, hf, he, hv⟩ := number_convert h
  have hexp : NoDigit (e ++ after) ∧ (f = [] → (e ++ after).head? ≠ some 0x2E) := by
    rcases he with rfl | ⟨c, s, ds, rfl, rfl | rfl, _⟩
    · exact ⟨ha.noDigit, fun _ h => (ha _ h).2.1 rfl⟩
    · exact ⟨fun c hc => by obtain rfl := Option.some.inj hc; rfl, fun _ h => by cases h⟩
    · exact ⟨fun c hc => by obtain rfl := Option.some.inj hc; rfl, fun _ h => by cases h⟩
  have hfrac : NoDigit (f ++ (e ++ after)) := by
    rcases hf with rfl | ⟨ds, rfl, _⟩
    · exact hexp.1
    · exact fun c hc => by obtain rfl := Option.some.inj hc; rfl
  have hscan := parseNumber_parts (D := D) (skipSign_sign hsign hi _)
    (scanInt_intPart hi hfrac) (scanFrac_fracPart hf hexp.1 hexp.2)
    (scanExp_expPart he ha.noDigit fun _ => ⟨fun h => (ha _ h).2.2.1 rfl, fun h => (ha _ h).2.2.2 rfl⟩)
  rw [hv] at hscan
  simpa using hscan

end WebHtop.Common
