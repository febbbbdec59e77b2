import WebHtop.Lib.Decimal

/-!
# Formatted input

`std::istream` over a string in the "C" locale: lines, words and numbers taken from the
front of the text. An extraction gives what it stores and the text behind it; `none` is the
failure state, in which every further extraction fails.
-/

namespace WebHtop.Lib.Istream

open Decimal

/-- `std::isspace`. -/
def isSpace (c : UInt8) : Bool := c = 0x20 || (0x09 ≤ c && c ≤ 0x0D)

def skip (t : List UInt8) : List UInt8 := t.dropWhile isSpace

/-- The lines that a loop over `std::getline` sees. -/
def lines : List UInt8 → List (List UInt8)
  | [] => []
  | c :: t =>
    if c = 0x0A then [] :: lines t
    else
      match lines t with
      | [] => [[c]]
      | line :: rest => (c :: line) :: rest

/-- `>>` into a string. -/
def word (t : List UInt8) : Option (List UInt8 × List UInt8) :=
  let t := skip t
  if t = [] then none
  else some (t.takeWhile fun c => !isSpace c, t.dropWhile fun c => !isSpace c)

/-- The text behind a sign. -/
def unsign (t : List UInt8) : List UInt8 :=
  if t.head? = some 0x2D ∨ t.head? = some 0x2B then t.tail else t

/-- `>>` into an unsigned integer with values below `limit`; a minus sign wraps. -/
def unsigned (limit : ℕ) (t : List UInt8) : Option (ℕ × List UInt8) :=
  let t := skip t
  let body := unsign t
  let digits := body.takeWhile isDigit
  if digits = [] ∨ limit ≤ value digits then none
  else
    some (if t.head? = some 0x2D then (limit - value digits) % limit else value digits,
      body.dropWhile isDigit)

/-- What `>>` leaves in an unsigned integer that held 0: the largest value on overflow. -/
def unsignedStored (limit : ℕ) (t : List UInt8) : ℕ :=
  match unsigned limit t with
  | some (n, _) => n
  | none => if (unsign (skip t)).takeWhile isDigit = [] then 0 else limit - 1

/-- `count` unsigned integers in a row. -/
def unsigneds (limit : ℕ) : ℕ → List UInt8 → Option (List ℕ)
  | 0, _ => some []
  | count + 1, t =>
    (unsigned limit t).bind fun (n, t) => (unsigneds limit count t).map fun ns => n :: ns

/-- The characters that can still belong to a number, and the text behind them. -/
def collect (point exponent mantissa : Bool) : List UInt8 → List UInt8 × List UInt8
  | [] => ([], [])
  | c :: t =>
    if c = 0x2E then
      if point || exponent then ([], c :: t)
      else
        let (text, rest) := collect true exponent mantissa t
        (c :: text, rest)
    else if isDigit c then
      let (text, rest) := collect point exponent true t
      (c :: text, rest)
    else if (c = 0x65 || c = 0x45) && !exponent && mantissa then
      match t with
      | [] => ([c], [])
      | s :: t' =>
        if s = 0x2D || s = 0x2B then
          let (text, rest) := collect point true mantissa t'
          (0x65 :: s :: text, rest)
        else
          let (text, rest) := collect point true mantissa (s :: t')
          (0x65 :: text, rest)
    else ([], c :: t)

/-- `>>` into a floating-point number, which `convert` makes of the characters: what is
stored, if anything, and the text behind, unless the extraction fails. -/
def real {α : Type} (convert : List UInt8 → α × Bool) (t : Option (List UInt8)) :
    Option α × Option (List UInt8) :=
  match t.map skip with
  | none => (none, none)
  | some [] => (none, none)
  | some (c :: t) =>
    let sign := if c = 0x2D ∨ c = 0x2B then [c] else []
    let body := if sign = [] then c :: t else t
    let zeros := body.takeWhile fun c => c = 0x30
    let (text, rest) := collect false false (zeros ≠ []) (body.dropWhile fun c => c = 0x30)
    let (stored, good) := convert (sign ++ zeros.take 1 ++ text)
    (some stored, if good then some rest else none)

/-- The characters that `>>` takes for a floating-point number, and the text behind them. -/
def numeral (t : List UInt8) : Option (List UInt8 × List UInt8) :=
  match skip t with
  | [] => none
  | c :: t =>
    let sign := if c = 0x2D ∨ c = 0x2B then [c] else []
    let body := if sign = [] then c :: t else t
    let zeros := body.takeWhile fun c => c = 0x30
    let (text, rest) := collect false false (zeros ≠ []) (body.dropWhile fun c => c = 0x30)
    some (sign ++ zeros.take 1 ++ text, rest)

/-- The numbers that `count` extractions in a row reach, as characters. -/
def numerals {α : Type} (convert : List UInt8 → α × Bool) : ℕ → Option (List UInt8) → List (List UInt8)
  | 0, _ => []
  | count + 1, t =>
    match t.bind numeral with
    | none => []
    | some (characters, rest) =>
      characters :: numerals convert count (if (convert characters).2 then some rest else none)

theorem real_eq {α : Type} (convert : List UInt8 → α × Bool) (t : Option (List UInt8)) :
    real convert t =
      match t.bind numeral with
      | none => (none, none)
      | some (characters, rest) =>
        (some (convert characters).1, if (convert characters).2 then some rest else none) := by
  cases t with
  | none => rfl
  | some t =>
    rw [real, Option.map_some, Option.bind_some, numeral]
    cases skip t <;> rfl

/-- The first of the numbers, and those behind it. -/
theorem forall_numerals {α : Type} (convert : List UInt8 → α × Bool) (count : ℕ)
    (t : Option (List UInt8)) (P : α → Prop) :
    (∀ characters ∈ numerals convert (count + 1) t, P (convert characters).1) ↔
      (∀ d, (real convert t).1 = some d → P d) ∧
        ∀ characters ∈ numerals convert count (real convert t).2, P (convert characters).1 := by
  rw [numerals, real_eq]
  cases t.bind numeral with
  | none => cases count <;> simp [numerals]
  | some taken => simp

/-! ## Lines -/

/-- The lines of a text of rows with a line end each, and of what stands behind them. -/
theorem lines_rows {rows : List (List UInt8)} (h : ∀ row ∈ rows, (0x0A : UInt8) ∉ row)
    (last : List UInt8) :
    lines ((rows.flatMap fun row => row ++ [0x0A]) ++ last) = rows ++ lines last := by
  induction rows with
  | nil => rfl
  | cons row rows ih =>
    obtain ⟨hrow, hrows⟩ := List.forall_mem_cons.mp h
    rw [List.flatMap_cons, List.append_assoc, List.append_assoc]
    induction row with
    | nil => exact congrArg ([] :: ·) (ih hrows)
    | cons c row ihrow =>
      rw [List.mem_cons, not_or] at hrow
      have hline := ihrow (List.forall_mem_cons.mpr ⟨hrow.2, hrows⟩) hrow.2
      rw [List.cons_append, lines, if_neg fun hc => hrow.1 hc.symm, hline]
      rfl

/-- The lines of a text whose rows end each with a line end. -/
theorem lines_terminated {rows : List (List UInt8)} (h : ∀ row ∈ rows, (0x0A : UInt8) ∉ row) :
    lines (rows.flatMap fun row => row ++ [0x0A]) = rows := by
  have hrows := lines_rows h []
  rwa [List.append_nil, lines, List.append_nil] at hrows

/-- A last line does not need its end. -/
theorem lines_unterminated {last : List UInt8} (hne : last ≠ []) (h : (0x0A : UInt8) ∉ last) :
    lines last = [last] := by
  induction last with
  | nil => exact absurd rfl hne
  | cons c last ih =>
    rw [List.mem_cons, not_or] at h
    rw [lines, if_neg fun hc => h.1 hc.symm]
    cases last with
    | nil => rfl
    | cons d last => rw [ih (List.cons_ne_nil _ _) h.2]

/-! ## Words -/

/-- The text is these words with white space around them. -/
def Words : List UInt8 → List (List UInt8) → Prop
  | t, [] => t.all isSpace = true
  | t, w :: ws => ∃ spaces rest, t = spaces ++ w ++ rest ∧ spaces.all isSpace = true ∧ w ≠ [] ∧
      w.all (fun c => !isSpace c) = true ∧ (∀ c ∈ rest.head?, isSpace c = true) ∧ Words rest ws

theorem words_nil_iff {t : List UInt8} : Words t [] ↔ word t = none := by
  rw [Words, word, skip]
  constructor
  · intro h
    have hdrop : (t ++ []).dropWhile isSpace = [].dropWhile isSpace :=
      List.dropWhile_append_of_pos (List.all_eq_true.mp h)
    rw [List.append_nil] at hdrop
    rw [hdrop]
    rfl
  · intro h
    have hdrop : t.dropWhile isSpace = [] := by
      by_contra hne
      rw [if_neg hne] at h
      cases h
    rw [← List.takeWhile_append_dropWhile (p := isSpace) (l := t), hdrop, List.append_nil]
    exact List.all_takeWhile

theorem words_cons_iff {t w : List UInt8} {ws : List (List UInt8)} :
    Words t (w :: ws) ↔ ∃ rest, word t = some (w, rest) ∧ Words rest ws := by
  rw [Words]
  constructor
  · rintro ⟨spaces, rest, rfl, hspaces, hne, hw, hrest, hws⟩
    refine ⟨rest, ?_, hws⟩
    obtain ⟨c, w', rfl⟩ := List.exists_cons_of_ne_nil hne
    have hc : isSpace c = false := by simpa using (List.all_eq_true.mp hw) c List.mem_cons_self
    have hskip : skip (spaces ++ (c :: w') ++ rest) = c :: w' ++ rest := by
      rw [skip, List.append_assoc,
        List.dropWhile_append_of_pos fun d hd => (List.all_eq_true.mp hspaces) d hd]
      rw [List.cons_append, List.dropWhile_cons_of_neg (by simp [hc])]
    have hbreak : rest.takeWhile (fun c => !isSpace c) = [] ∧
        rest.dropWhile (fun c => !isSpace c) = rest := by
      cases rest with
      | nil => exact ⟨rfl, rfl⟩
      | cons d rest =>
        have hd : isSpace d = true := hrest d rfl
        simp [hd]
    rw [word, hskip, if_neg (by simp), List.takeWhile_append_of_pos (List.all_eq_true.mp hw),
      List.dropWhile_append_of_pos (List.all_eq_true.mp hw), hbreak.1, hbreak.2, List.append_nil]
  · rintro ⟨rest, hword, hws⟩
    rw [word] at hword
    split at hword
    · cases hword
    · rename_i hne
      obtain ⟨rfl, rfl⟩ := Prod.mk.inj (Option.some.inj hword)
      refine ⟨t.takeWhile isSpace, _, ?_, List.all_takeWhile, ?_, List.all_takeWhile, ?_, hws⟩
      · rw [List.append_assoc, List.takeWhile_append_dropWhile, skip,
          List.takeWhile_append_dropWhile]
      · have hhead := List.head?_dropWhile_not isSpace t
        obtain ⟨c, t', ht⟩ := List.exists_cons_of_ne_nil hne
        rw [skip] at ht
        rw [ht] at hhead
        rw [skip, ht, List.takeWhile_cons_of_pos (by simpa using hhead)]
        exact List.cons_ne_nil _ _
      · intro c hc
        have hhead := List.head?_dropWhile_not (fun c => !isSpace c) (skip t)
        rw [Option.mem_def.mp hc] at hhead
        simpa using hhead

end WebHtop.Lib.Istream
