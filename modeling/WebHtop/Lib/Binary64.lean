import WebHtop.Lib.Rounding
import WebHtop.Lib.Decimal

/-!
# Binary64 arithmetic

The numbers of IEEE 754 binary64 as rationals that rounding leaves alone, with the
infinities and one NaN, and its operations rounded to nearest, ties to even. Decimal texts
are read by exact rational value; the shortest text that reads back is found by search.
-/

namespace WebHtop.Lib

/-- The absolute value of a finite number. -/
def Magnitude : Type := {q : ℚ // 0 ≤ q ∧ nearest q = q ∧ q < 2 ^ 1024}

instance : DecidableEq Magnitude := fun a b =>
  decidable_of_iff (a.val = b.val) Subtype.ext_iff.symm

inductive Binary64 where
  | nan
  | infinite (negative : Bool)
  | finite (negative : Bool) (magnitude : Magnitude)
  deriving DecidableEq

namespace Binary64

def isFinite : Binary64 → Bool
  | finite _ _ => true
  | _ => false

/-- The rational that a finite number is. -/
def val : Binary64 → ℚ
  | finite negative m => if negative then -m.val else m.val
  | _ => 0

/-- Round a rational; `sign` is the sign of an exact zero. -/
def round (sign : Bool) (q : ℚ) : Binary64 :=
  let negative := if q = 0 then sign else decide (q < 0)
  if h : nearest |q| < 2 ^ 1024 then
    finite negative ⟨nearest |q|, nearest_nonneg (abs_nonneg q), nearest_nearest (abs_nonneg q), h⟩
  else infinite negative

def ofInt (i : ℤ) : Binary64 := round false i

def neg : Binary64 → Binary64
  | nan => nan
  | infinite negative => infinite !negative
  | finite negative m => finite (!negative) m

def add : Binary64 → Binary64 → Binary64
  | nan, _ => nan
  | _, nan => nan
  | infinite a, infinite b => if a = b then infinite a else nan
  | infinite a, finite _ _ => infinite a
  | finite _ _, infinite b => infinite b
  | finite a x, finite b y => round (a && b) ((finite a x).val + (finite b y).val)

def sub (a b : Binary64) : Binary64 := add a b.neg

def mul : Binary64 → Binary64 → Binary64
  | nan, _ => nan
  | _, nan => nan
  | infinite a, infinite b => infinite (a ^^ b)
  | infinite a, finite b y => if y.val = 0 then nan else infinite (a ^^ b)
  | finite a x, infinite b => if x.val = 0 then nan else infinite (a ^^ b)
  | finite a x, finite b y => round (a ^^ b) ((finite a x).val * (finite b y).val)

def div : Binary64 → Binary64 → Binary64
  | nan, _ => nan
  | _, nan => nan
  | infinite _, infinite _ => nan
  | infinite a, finite b _ => infinite (a ^^ b)
  | finite a _, infinite b => round (a ^^ b) 0
  | finite a x, finite b y =>
    if y.val = 0 then if x.val = 0 then nan else infinite (a ^^ b)
    else round (a ^^ b) ((finite a x).val / (finite b y).val)

def lt : Binary64 → Binary64 → Bool
  | nan, _ => false
  | _, nan => false
  | infinite a, infinite b => a && !b
  | infinite a, finite _ _ => a
  | finite _ _, infinite b => !b
  | finite a x, finite b y => (finite a x).val < (finite b y).val

/-! ## Decimal text -/

/-- `digits[.digits][e[sign]digits]` with a digit in front of the exponent, as its value. -/
def decimalValue (t : List UInt8) : Option ℚ :=
  let whole := t.takeWhile Decimal.isDigit
  let behind := t.dropWhile Decimal.isDigit
  let (fraction, rest) :=
    match behind with
    | 0x2E :: more => (more.takeWhile Decimal.isDigit, more.dropWhile Decimal.isDigit)
    | _ => ([], behind)
  let significant : ℚ := Decimal.value (whole ++ fraction)
  if whole ++ fraction = [] then none
  else
    match rest with
    | [] => some (significant * 10 ^ (-(fraction.length : ℤ)))
    | e :: exponent =>
      let (negative, digits) :=
        match exponent with
        | 0x2D :: digits => (true, digits)
        | 0x2B :: digits => (false, digits)
        | digits => (false, digits)
      if (e = 0x65 ∨ e = 0x45) ∧ digits ≠ [] ∧ digits.all Decimal.isDigit then
        let size : ℤ := Decimal.value digits
        some (significant * 10 ^ ((if negative then -size else size) - fraction.length))
      else none

def lower (c : UInt8) : UInt8 := if 0x41 ≤ c ∧ c ≤ 0x5A then c + 0x20 else c

/-- `std::from_chars` on a whole text; a result out of range is an error. -/
def fromChars (t : List UInt8) : Option Binary64 :=
  let negative := t.head? = some 0x2D
  let body := if negative then t.tail else t
  let word := body.map lower
  if word = [0x69, 0x6E, 0x66] ∨ word = [0x69, 0x6E, 0x66, 0x69, 0x6E, 0x69, 0x74, 0x79] then
    some (infinite negative)
  else if word = [0x6E, 0x61, 0x6E] then some nan
  else
    (decimalValue body).bind fun q =>
      let d := round negative (if negative then -q else q)
      if d.isFinite ∧ (d.val = 0 → q = 0) then some d else none

/-- `strtod` on the characters that a stream has collected: the value that is stored, and
whether the extraction succeeds. -/
def fromStream (t : List UInt8) : Binary64 × Bool :=
  let negative := t.head? = some 0x2D
  let body := if negative ∨ t.head? = some 0x2B then t.tail else t
  match decimalValue body with
  | none => (ofInt 0, false)
  | some q =>
    let d := round negative (if negative then -q else q)
    if d.isFinite then (d, true)
    else
      let largest : ℚ := 2 ^ 1024 - 2 ^ 971
      (round negative (if negative then -largest else largest), false)

/-- A decimal of `n` digits next to `q` that rounds to `q`, the nearer one of two. -/
def decimalNear (q : ℚ) (n : ℕ) : Option (ℕ × ℤ) :=
  let k := Int.log 10 q - (n - 1)
  let below := ⌊q / 10 ^ k⌋₊
  let candidates := [below, below + 1].filter fun c : ℕ => nearest (c * 10 ^ k) = q
  let near : Option ℕ :=
    match candidates with
    | [] => none
    | [c] => some c
    | c :: c' :: _ => some (if q - c * 10 ^ k ≤ c' * 10 ^ k - q then c else c')
  near.map fun c => if c = 10 ^ n then (1, k + n) else (c, k)

/-- The shortest digits that read back as `q`, and the exponent of the last one. -/
def shortest (q : ℚ) : ℕ × ℤ := ((List.range' 1 17).findSome? (decimalNear q)).getD (0, 0)

def fixedText (q : ℚ) (digits : List UInt8) (k : ℤ) : List UInt8 :=
  if q.isInt then Decimal.numeral q.num.toNat
  else
    let point := digits.length + k
    if 0 < point then digits.take point.toNat ++ 0x2E :: digits.drop point.toNat
    else 0x30 :: 0x2E :: (List.replicate (-point).toNat 0x30 ++ digits)

def scientificText (digits : List UInt8) (k : ℤ) : List UInt8 :=
  let exponent := k + digits.length - 1
  let size := Decimal.numeral exponent.natAbs
  digits.take 1 ++ (if digits.length = 1 then [] else 0x2E :: digits.drop 1) ++
    [0x65, if exponent < 0 then 0x2D else 0x2B] ++ (if size.length = 1 then [0x30] else []) ++ size

/-- `std::to_chars`: the shortest digits, in fixed notation unless scientific is shorter. -/
def toChars : Binary64 → List UInt8
  | nan => [0x6E, 0x61, 0x6E]
  | infinite negative => (if negative then [0x2D] else []) ++ [0x69, 0x6E, 0x66]
  | finite negative m =>
    let (c, k) := shortest m.val
    let digits := Decimal.numeral c
    let fixed := fixedText m.val digits k
    let scientific := scientificText digits k
    (if negative then [0x2D] else []) ++
      if m.val = 0 then [0x30]
      else if scientific.length < fixed.length then scientific else fixed

/-- `std::fixed` with a precision: the decimal nearest to `q`, ties to even. -/
def fixedDecimal (negative : Bool) (q : ℚ) (precision : ℕ) : List UInt8 :=
  let scaled := (roundEven (q * 10 ^ precision)).toNat
  let digits := Decimal.numeral scaled
  let padded := List.replicate (precision + 1 - digits.length) 0x30 ++ digits
  let whole := padded.take (padded.length - precision)
  (if negative then [0x2D] else []) ++ whole ++
    if precision = 0 then [] else 0x2E :: padded.drop (padded.length - precision)

def fixed (d : Binary64) (precision : ℕ) : List UInt8 :=
  match d with
  | nan => [0x6E, 0x61, 0x6E]
  | infinite negative => (if negative then [0x2D] else []) ++ [0x69, 0x6E, 0x66]
  | finite negative m => fixedDecimal negative m.val precision

def le : Binary64 → Binary64 → Bool
  | nan, _ => false
  | _, nan => false
  | infinite a, infinite b => a || !b
  | infinite a, finite _ _ => a
  | finite _ _, infinite b => !b
  | finite a x, finite b y => (finite a x).val ≤ (finite b y).val

def ceil : Binary64 → Binary64
  | finite negative m => round negative ⌈(finite negative m).val⌉
  | d => d

/-- `static_cast<int>`: the fraction is cut off. -/
def trunc (d : Binary64) : ℤ := if d.val < 0 then ⌈d.val⌉ else ⌊d.val⌋

/-! ## Numbers that are not negative -/

/-- The finite number `q`, without a minus sign. -/
def Is (d : Binary64) (q : ℚ) : Prop := ∃ m : Magnitude, d = finite false m ∧ m.val = q

variable {a b d : Binary64} {x y q : ℚ}

theorem Is.finite (h : Is d q) : d.isFinite = true := by
  obtain ⟨m, rfl, -⟩ := h
  rfl

theorem Is.nonneg (h : Is d q) : 0 ≤ q := by
  obtain ⟨m, -, rfl⟩ := h
  exact m.property.1

theorem Is.val (h : Is d q) : d.val = q := by
  obtain ⟨m, rfl, rfl⟩ := h
  rfl

theorem Is.lt (ha : Is a x) (hb : Is b y) : lt a b = true ↔ x < y := by
  obtain ⟨m, rfl, rfl⟩ := ha
  obtain ⟨n, rfl, rfl⟩ := hb
  simp [Binary64.lt, Binary64.val]

theorem is_round (h0 : 0 ≤ q) (h1 : nearest q < 2 ^ 1024) : Is (round false q) (nearest q) := by
  have hsign : (if q = 0 then false else decide (q < 0)) = false := by
    simp [not_lt.mpr h0]
  have habs : nearest |q| < 2 ^ 1024 := by rwa [abs_of_nonneg h0]
  refine ⟨⟨nearest |q|, nearest_nonneg (abs_nonneg q), nearest_nearest (abs_nonneg q), habs⟩, ?_, ?_⟩
  · simp only [round, hsign, habs, ↓reduceDIte]
  · simp only [abs_of_nonneg h0]

theorem Is.mul (ha : Is a x) (hb : Is b y) (h : nearest (x * y) < 2 ^ 1024) :
    Is (mul a b) (nearest (x * y)) := by
  have h0 := mul_nonneg ha.nonneg hb.nonneg
  obtain ⟨m, rfl, rfl⟩ := ha
  obtain ⟨n, rfl, rfl⟩ := hb
  exact is_round h0 h

theorem Is.div (ha : Is a x) (hb : Is b y) (hy : y ≠ 0) (h : nearest (x / y) < 2 ^ 1024) :
    Is (div a b) (nearest (x / y)) := by
  have h0 := div_nonneg ha.nonneg hb.nonneg
  obtain ⟨m, rfl, rfl⟩ := ha
  obtain ⟨n, rfl, rfl⟩ := hb
  have : Binary64.div (Binary64.finite false m) (Binary64.finite false n) =
      round false (m.val / n.val) := by
    simp [Binary64.div, Binary64.val, hy]
  rw [this]
  exact is_round h0 h

theorem Is.add (ha : Is a x) (hb : Is b y) (h : nearest (x + y) < 2 ^ 1024) :
    Is (add a b) (nearest (x + y)) := by
  have h0 := add_nonneg ha.nonneg hb.nonneg
  obtain ⟨m, rfl, rfl⟩ := ha
  obtain ⟨n, rfl, rfl⟩ := hb
  exact is_round h0 h

theorem Is.sub (ha : Is a x) (hb : Is b y) (hle : y ≤ x) (h : nearest (x - y) < 2 ^ 1024) :
    Is (sub a b) (nearest (x - y)) := by
  have h0 := sub_nonneg.mpr hle
  obtain ⟨m, rfl, rfl⟩ := ha
  obtain ⟨n, rfl, rfl⟩ := hb
  have hsub : Binary64.sub (Binary64.finite false m) (Binary64.finite false n) =
      round false (m.val - n.val) := by
    simp [Binary64.sub, neg, Binary64.add, Binary64.val, sub_eq_add_neg]
  rw [hsub]
  exact is_round h0 h

/-- Rounding leaves a finite number alone. -/
theorem Is.nearest (h : Is d q) : nearest q = q := by
  obtain ⟨m, -, rfl⟩ := h
  exact m.property.2.1

theorem Is.le (ha : Is a x) (hb : Is b y) : le a b = true ↔ x ≤ y := by
  obtain ⟨m, rfl, rfl⟩ := ha
  obtain ⟨n, rfl, rfl⟩ := hb
  simp [Binary64.le, Binary64.val]

/-- A bound that keeps a rounded result finite. -/
theorem nearest_lt_overflow {e : ℤ} (h0 : 0 ≤ q) (he : -1074 ≤ e) (h : q ≤ 2 ^ e) (h1024 : e < 1024) :
    nearest q < 2 ^ 1024 := by
  refine (nearest_le_two_zpow h0 he h).trans_lt ?_
  have : (2 : ℚ) ^ e < 2 ^ (1024 : ℤ) := zpow_lt_zpow_right₀ (by norm_num) h1024
  exact_mod_cast this

/-! ## Numbers that may be negative -/

theorem exists_finite (h : a.isFinite = true) : ∃ negative m, a = finite negative m := by
  cases a with
  | finite negative m => exact ⟨negative, m, rfl⟩
  | nan => cases h
  | infinite negative => cases h

theorem lt_finite (ha : a.isFinite = true) (hb : b.isFinite = true) :
    lt a b = true ↔ a.val < b.val := by
  obtain ⟨s, m, rfl⟩ := exists_finite ha
  obtain ⟨t, n, rfl⟩ := exists_finite hb
  exact decide_eq_true_iff

theorem le_finite (ha : a.isFinite = true) (hb : b.isFinite = true) :
    le a b = true ↔ a.val ≤ b.val := by
  obtain ⟨s, m, rfl⟩ := exists_finite ha
  obtain ⟨t, n, rfl⟩ := exists_finite hb
  exact decide_eq_true_iff

theorem round_finite {sign : Bool} (h : nearest |q| < 2 ^ 1024) : (round sign q).isFinite = true := by
  simp only [round, h, ↓reduceDIte, isFinite]

theorem round_nonpos {sign : Bool} (hq : q ≤ 0) : (round sign q).val ≤ 0 := by
  by_cases h : nearest |q| < 2 ^ 1024
  · have hn := nearest_nonneg (abs_nonneg q)
    rcases hq.eq_or_lt with rfl | hneg
    · cases sign <;> simp [round, val, nearest_zero]
    · simp only [round, hneg.ne, hneg, h, ↓reduceIte, ↓reduceDIte, decide_true, val]
      linarith
  · simp only [round, h, ↓reduceDIte, val, le_refl]

theorem abs_val_finite (negative : Bool) (m : Magnitude) : |(finite negative m).val| = m.val := by
  cases negative <;> simp [val, abs_of_nonneg m.property.1]

theorem abs_val_round {sign : Bool} : |(round sign q).val| ≤ nearest |q| := by
  have hn := nearest_nonneg (abs_nonneg q)
  by_cases h : nearest |q| < 2 ^ 1024
  · have hr : ∃ negative, round sign q =
        finite negative ⟨nearest |q|, hn, nearest_nearest (abs_nonneg q), h⟩ :=
      ⟨if q = 0 then sign else decide (q < 0), by simp only [round, h, ↓reduceDIte]⟩
    obtain ⟨negative, hr⟩ := hr
    rw [hr]
    exact (abs_val_finite negative _).le
  · simpa only [round, h, ↓reduceDIte, val, abs_zero] using hn

theorem div_nonpos (ha : a.isFinite = true) (hval : a.val ≤ 0) (hb : Is b y) (hy : 0 < y)
    (h : nearest |a.val / y| < 2 ^ 1024) : (div a b).isFinite = true ∧ (div a b).val ≤ 0 := by
  obtain ⟨n, rfl, rfl⟩ := hb
  cases a with
  | nan => cases ha
  | infinite negative => cases ha
  | finite negative m =>
    have hdiv : div (finite negative m) (finite false n) =
        round negative ((finite negative m).val / n.val) := by
      simp [div, val, hy.ne']
    rw [hdiv]
    exact ⟨round_finite h, round_nonpos (div_nonpos_of_nonpos_of_nonneg hval hy.le)⟩

theorem le_of_nonpos (ha : a.isFinite = true) (hval : a.val ≤ 0) (hb : Is b y) : le a b = true := by
  have hy := hb.nonneg
  obtain ⟨n, rfl, rfl⟩ := hb
  cases a with
  | nan => cases ha
  | infinite negative => cases ha
  | finite negative m => exact decide_eq_true (hval.trans hy)

theorem is_ofNat {n : ℕ} (h : n ≤ 2 ^ 64) : Is (ofInt n) (nearest n) := by
  have hq : ((n : ℤ) : ℚ) = n := Int.cast_natCast n
  rw [ofInt, hq]
  refine is_round (Nat.cast_nonneg n) (nearest_lt_overflow (e := 64) (Nat.cast_nonneg n) (by norm_num) ?_ (by norm_num))
  exact_mod_cast h

/-- A literal. -/
theorem is_natCast {n : ℕ} (h : n ≤ 2 ^ 53) : Is (ofInt n) n := by
  have hexact : nearest ((n : ℤ) * 2 ^ (0 : ℤ)) = (n : ℤ) * 2 ^ (0 : ℤ) :=
    nearest_exact (by positivity) (by exact_mod_cast h) (by norm_num)
  rw [zpow_zero, mul_one, Int.cast_natCast] at hexact
  have := is_ofNat (h.trans (by norm_num))
  rwa [hexact] at this

end Binary64
end WebHtop.Lib
