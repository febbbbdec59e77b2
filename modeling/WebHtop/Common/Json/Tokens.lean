import WebHtop.Common.Json.Cursor

/-!
# Tokens at the cursor

The scanners of the parser with an index take what the scanners on the unread text take, and a
failure leaves the index inside of the input as well.
-/

namespace WebHtop.Common

open WebHtop.Lib WebHtop.Lib.Decimal

namespace Cursor

/-! ## The unread text -/

def rest (s : Cursor) : Bytes := s.input.drop s.pos

@[simp] theorem advance_input (n : Nat) (s : Cursor) : (s.advance n).input = s.input := rfl

@[simp] theorem advance_pos (n : Nat) (s : Cursor) : (s.advance n).pos = s.pos + n := rfl

theorem advance_advance (m n : Nat) (s : Cursor) : (s.advance m).advance n = s.advance (m + n) := by
  simp only [advance, Nat.add_assoc]

theorem rest_advance (n : Nat) (s : Cursor) : (s.advance n).rest = s.rest.drop n := by
  rw [rest, rest, List.drop_drop]
  rfl

theorem rest_length (s : Cursor) : s.rest.length = s.input.length - s.pos := List.length_drop

theorem rest_nil {s : Cursor} (h : s.rest = []) : s.atEnd = true ∧ s.peek = 0 := by
  have hle : s.input.length ≤ s.pos := List.drop_eq_nil_iff.mp h
  refine ⟨decide_eq_true hle, ?_⟩
  rw [peek, List.getD_eq_getElem?_getD, List.getElem?_eq_none hle]
  rfl

theorem rest_cons {s : Cursor} {c : UInt8} {cs : Bytes} (h : s.rest = c :: cs) :
    s.atEnd = false ∧ s.peek = c ∧ (s.advance 1).rest = cs := by
  have hlength := congrArg List.length h
  rw [rest_length, List.length_cons] at hlength
  have hget : s.input[s.pos]? = some c := by
    rw [← List.head?_drop, show s.input.drop s.pos = c :: cs from h]
    rfl
  refine ⟨decide_eq_false ?_, ?_, ?_⟩
  · omega
  · rw [peek, List.getD_eq_getElem?_getD, hget]
    rfl
  · rw [rest_advance, h]
    rfl

/-! ## What a token takes -/

/-- A token at the cursor by the token of the unread text; it takes at least `k` bytes. -/
inductive Takes {α : Type} (k : Nat) (s : Cursor) : Option (α × Bytes) → Outcome α × Cursor → Prop
  | value {a : α} {n : Nat} (hk : k ≤ n) (h : n ≤ s.rest.length) :
      Takes k s (some (a, s.rest.drop n)) (.value a, s.advance n)
  | failed {n : Nat} (h : n ≤ s.rest.length) : Takes k s none (.failed, s.advance n)

variable {α β : Type} {k l : Nat} {s : Cursor}

theorem takes_failed (k : Nat) (s : Cursor) : Takes k s (none : Option (α × Bytes)) (.failed, s) :=
  .failed (n := 0) (Nat.zero_le _)

theorem takes_value (a : α) (s : Cursor) : Takes 0 s (some (a, s.rest)) (.value a, s) :=
  .value (n := 0) (Nat.zero_le _) (Nat.zero_le _)

theorem takes_one {c : UInt8} {cs : Bytes} (a : α) (h : s.rest = c :: cs) :
    Takes 1 s (some (a, cs)) (.value a, s.advance 1) := by
  have htakes : Takes 1 s (some (a, s.rest.drop 1)) (.value a, s.advance 1) :=
    .value (Nat.le_refl _) (by rw [h]; simp)
  rwa [h] at htakes

theorem Takes.settled {o : Option (α × Bytes)} {r : Outcome α × Cursor} (h : Takes k s o r) :
    r.1.Settled := by
  cases h with
  | value _ _ => trivial
  | failed _ => trivial

theorem Takes.weaken {o : Option (α × Bytes)} {r : Outcome α × Cursor} (h : Takes k s o r)
    (hk : l ≤ k) : Takes l s o r := by
  cases h with
  | value hn h => exact .value (Nat.le_trans hk hn) h
  | failed h => exact .failed h

theorem Takes.shift {n : Nat} {o : Option (α × Bytes)} {r : Outcome α × Cursor}
    (h : Takes l (s.advance n) o r) (hk : k ≤ n) (hn : n ≤ s.rest.length) :
    Takes (k + l) s o r := by
  have hrest : (s.advance n).rest.length = s.rest.length - n := by
    rw [rest_advance, List.length_drop]
  cases h with
  | value hl hm =>
    rw [rest_advance, List.drop_drop, advance_advance]
    exact .value (by omega) (by omega)
  | failed hm =>
    rw [advance_advance]
    exact .failed (by omega)

/-- Tokens in a row. -/
theorem Takes.bind {m : Reader Cursor α} {f : α → Reader Cursor β} {o : Option (α × Bytes)}
    {g : α × Bytes → Option (β × Bytes)} (hm : Takes k s o (m s))
    (hf : ∀ a n, n ≤ s.rest.length →
      Takes l (s.advance n) (g (a, (s.advance n).rest)) (f a (s.advance n))) :
    Takes (k + l) s (o.bind g) ((m >>= f) s) := by
  generalize hr : m s = r at hm
  cases hm with
  | @value a n hk hn =>
    rw [Reader.bind_of_value hr, ← rest_advance]
    exact (hf a n hn).shift hk hn
  | failed hn =>
    rw [Reader.bind_of_failed hr]
    exact .failed hn

theorem here_bind (f : Cursor → Reader Cursor α) (s : Cursor) : (here >>= f) s = f s s := rfl

theorem modify_bind (g : Cursor → Cursor) (f : PUnit → Reader Cursor α) (s : Cursor) :
    (Reader.modify g >>= f) s = f ⟨⟩ (g s) := rfl

theorem expect_value {c : UInt8} {s : Cursor} {r : Bytes} (h : s.rest = c :: r) :
    expect c s = (.value (), s.advance 1) := by
  obtain ⟨hend, hpeek, -⟩ := rest_cons h
  simp [expect, hend, hpeek]

theorem expect_failed {c : UInt8} {s : Cursor} (h : ∀ r, s.rest ≠ c :: r) :
    expect c s = (.failed, s) := by
  cases hrest : s.rest with
  | nil => simp [expect, (rest_nil hrest).1]
  | cons q r =>
    obtain ⟨-, hpeek, -⟩ := rest_cons hrest
    have hq : q ≠ c := fun hq => h r (hq ▸ hrest)
    simp [expect, hpeek, hq]

theorem expect_failed_of {c q : UInt8} {s : Cursor} {r : Bytes} (h : s.rest = q :: r)
    (hq : q ≠ c) : expect c s = (.failed, s) :=
  expect_failed fun _ hr => hq (List.cons.inj (h.symm.trans hr)).1


/-! ## Classes of characters -/

theorem rest_skip (p : UInt8 → Bool) (s : Cursor) : (s.skip p).rest = s.rest.dropWhile p := by
  have hdrop (text : Bytes) : text.drop (text.takeWhile p).length = text.dropWhile p := by
    induction text with
    | nil => rfl
    | cons c cs ih =>
      rw [List.takeWhile_cons, List.dropWhile_cons]
      split
      · exact ih
      · rfl
  rw [skip, rest_advance]
  exact hdrop s.rest

theorem skip_takes {p : UInt8 → Bool} (a : α) (hk : k ≤ (s.rest.takeWhile p).length) :
    Takes k s (some (a, s.rest.dropWhile p)) (.value a, s.skip p) := by
  rw [← rest_skip, skip, rest_advance]
  exact .value hk (List.takeWhile_sublist p).length_le

theorem rest_skipWhitespace (s : Cursor) :
    s.skipWhitespace.rest = Common.skipWhitespace s.rest := by
  rw [skipWhitespace, rest_skip]
  induction s.rest with
  | nil => rfl
  | cons c cs ih =>
    rw [List.dropWhile_cons, Common.skipWhitespace]
    simp only [Bool.or_eq_true, decide_eq_true_eq, or_assoc]
    split
    · exact ih
    · rfl

/-! ## Numbers -/

theorem skipSign_takes (s : Cursor) :
    Takes 0 s (some (PUnit.unit, Common.skipSign s.rest)) (Reader.modify skipSign s) := by
  show Takes 0 s _ (.value PUnit.unit, s.skipSign)
  cases hrest : s.rest with
  | nil =>
    have hpeek : ¬ s.peek = ch '-' := by rw [(rest_nil hrest).2]; decide
    rw [skipSign, if_neg hpeek, Common.skipSign, ← hrest]
    exact takes_value _ s
  | cons c cs =>
    rw [skipSign, (rest_cons hrest).2.1, Common.skipSign]
    split
    · exact (takes_one PUnit.unit hrest).weaken (Nat.zero_le _)
    · rw [← hrest]
      exact takes_value _ s

theorem parseInt_takes (s : Cursor) :
    Takes 1 s ((scanInt s.rest).map fun r => ((), r)) (parseInt s) := by
  cases hrest : s.rest with
  | nil =>
    have hpeek : isDigit s.peek = false := by rw [(rest_nil hrest).2]; rfl
    rw [parseInt, if_pos hpeek]
    exact takes_failed 1 s
  | cons c cs =>
    obtain ⟨-, hpeek, hnext⟩ := rest_cons hrest
    simp only [parseInt, scanInt, hpeek]
    split
    · exact takes_failed 1 s
    rename_i hdigit
    split
    · cases cs with
      | nil =>
        rw [if_neg (by simp [(rest_nil hnext).1])]
        exact takes_one () hrest
      | cons d ds =>
        obtain ⟨hend, hpeel, -⟩ := rest_cons hnext
        simp only [hend, hpeel, true_and]
        split
        · exact .failed (n := 1) (by rw [hrest]; simp)
        · exact takes_one () hrest
    · rw [← hrest]
      exact skip_takes () (by rw [hrest, List.takeWhile_cons_of_pos (by simpa using hdigit)]; simp)

/-- The digits at the end of a fraction or an exponent, on the unread text. -/
def scanDigits : Bytes → Option (Bool × Bytes)
  | d :: ds => if isDigit d then some (true, (d :: ds).dropWhile isDigit) else none
  | [] => none

theorem someDigits_takes (s : Cursor) : Takes 1 s (scanDigits s.rest) (someDigits s) := by
  cases hrest : s.rest with
  | nil =>
    rw [someDigits, if_pos (.inl (rest_nil hrest).1)]
    exact takes_failed 1 s
  | cons d ds =>
    obtain ⟨hend, hpeek, -⟩ := rest_cons hrest
    simp only [someDigits, scanDigits, hend, hpeek, Bool.false_eq_true, false_or]
    cases hd : isDigit d with
    | false => exact takes_failed 1 s
    | true =>
      simp only [Bool.true_eq_false, if_false, if_true]
      rw [← hrest]
      exact skip_takes true (by rw [hrest, List.takeWhile_cons_of_pos hd]; simp)

theorem parseFrac_takes (s : Cursor) : Takes 0 s (scanFrac s.rest) (parseFrac s) := by
  cases hrest : s.rest with
  | nil =>
    rw [parseFrac, if_neg (by simp [(rest_nil hrest).1]), scanFrac, ← hrest]
    exact takes_value false s
  | cons c cs =>
    obtain ⟨hend, hpeek, hnext⟩ := rest_cons hrest
    simp only [parseFrac, scanFrac, hend, hpeek, true_and]
    split
    · have hdigits := someDigits_takes (s.advance 1)
      rw [hnext] at hdigits
      exact (hdigits.shift (Nat.zero_le 1) (by rw [hrest]; simp)).weaken (Nat.zero_le _)
    · rw [← hrest]
      exact takes_value false s

theorem skipExpSign_takes (s : Cursor) :
    Takes 0 s (some (PUnit.unit, Common.skipExpSign s.rest)) (Reader.modify skipExpSign s) := by
  show Takes 0 s _ (.value PUnit.unit, s.skipExpSign)
  cases hrest : s.rest with
  | nil =>
    rw [skipExpSign, if_neg (by simp [(rest_nil hrest).1]), Common.skipExpSign, ← hrest]
    exact takes_value _ s
  | cons c cs =>
    obtain ⟨hend, hpeek, -⟩ := rest_cons hrest
    simp only [skipExpSign, hend, hpeek, Common.skipExpSign, true_and]
    split
    · exact (takes_one PUnit.unit hrest).weaken (Nat.zero_le _)
    · rw [← hrest]
      exact takes_value _ s

theorem parseExp_takes (s : Cursor) : Takes 0 s (scanExp s.rest) (parseExp s) := by
  cases hrest : s.rest with
  | nil =>
    rw [parseExp, if_neg (by simp [(rest_nil hrest).1]), scanExp, ← hrest]
    exact takes_value false s
  | cons c cs =>
    obtain ⟨hend, hpeek, hnext⟩ := rest_cons hrest
    simp only [parseExp, scanExp, hend, hpeek, true_and]
    split
    · have hsigned : Takes (0 + 1) (s.advance 1) (scanDigits (Common.skipExpSign cs))
          ((Reader.modify skipExpSign >>= fun _ => someDigits) (s.advance 1)) := by
        rw [← hnext]
        exact (skipExpSign_takes (s.advance 1)).bind (g := fun r => scanDigits r.2)
          fun _ n _ => someDigits_takes _
      exact (hsigned.shift (Nat.zero_le 1) (by rw [hrest]; simp)).weaken (Nat.zero_le _)
    · rw [← hrest]
      exact takes_value false s

variable {D : Type} [Double D]

/-- ParseNumber on the unread text as tokens in a row. -/
theorem parseNumber_eq (rest : Bytes) :
    Common.parseNumber (D := D) rest =
      (some (PUnit.unit, Common.skipSign rest)).bind fun signed =>
        ((scanInt signed.2).map fun r => ((), r)).bind fun afterInt =>
          (scanFrac afterInt.2).bind fun afterFrac =>
            (scanExp afterFrac.2).bind fun after =>
              (convert (rest.take (rest.length - after.2.length)) (afterFrac.1 || after.1)).map
                fun v => (v, after.2) := by
  unfold Common.parseNumber
  rw [Option.bind_some]
  cases scanInt (Common.skipSign rest) with
  | none => rfl
  | some afterInt =>
    cases hfrac : scanFrac afterInt with
    | none => simp [hfrac]
    | some afterFrac =>
      obtain ⟨hasFrac, afterFrac⟩ := afterFrac
      cases hexp : scanExp afterFrac with
      | none => simp [hfrac, hexp]
      | some after =>
        obtain ⟨hasExp, after⟩ := after
        simp only [Option.bind_eq_bind, Option.bind_some, Option.map_some, hfrac, hexp, convert]
        generalize rest.take (rest.length - after.length) = num
        split
        · cases Double.fromChars (D := D) num with
          | none => rfl
          | some d =>
            simp only [Option.bind_some, Option.filter_some]
            split <;> simp_all
        split
        · cases fromCharsInt64 num <;> rfl
        · cases fromCharsUInt64 num <;> rfl

theorem ofOption_takes (o : Option α) (s : Cursor) :
    Takes 0 s (o.map fun a => (a, s.rest)) (ofOption o s) := by
  cases o with
  | none => exact takes_failed 0 s
  | some a => exact takes_value a s

/-- ParseNumber with an index takes what ParseNumber on the unread text takes. -/
theorem parseNumber_takes (s : Cursor) :
    Takes 1 s (Common.parseNumber (D := D) s.rest) s.parseNumber := by
  have hlength (n : Nat) (t : Cursor) : (t.advance n).rest.length = t.rest.length - n := by
    rw [rest_advance, List.length_drop]
  rw [parseNumber_eq, parseNumber, here_bind]
  refine (skipSign_takes s).bind (l := 1) fun _ n₁ hn₁ => ?_
  refine (parseInt_takes _).bind (l := 0) fun _ n₂ hn₂ => ?_
  refine (parseFrac_takes _).bind (l := 0) fun hasFrac n₃ hn₃ => ?_
  refine (parseExp_takes _).bind (l := 0) fun hasExp n₄ hn₄ => ?_
  rw [hlength] at hn₂ hn₃ hn₄
  rw [hlength] at hn₃ hn₄
  rw [hlength] at hn₄
  have htaken : s.rest.length - (s.rest.length - (n₁ + n₂ + n₃ + n₄)) =
      s.pos + (n₁ + n₂ + n₃ + n₄) - s.pos := by omega
  rw [here_bind]
  simp only [advance_advance, hlength, htaken]
  exact ofOption_takes _ _

end Cursor

end WebHtop.Common
