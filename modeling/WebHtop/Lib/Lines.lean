import Mathlib.Algebra.BigOperators.Group.List.Basic
import Mathlib.Data.Int.Log
import Mathlib.Data.List.Induction
import Mathlib.Data.List.Nodup
import Mathlib.Data.List.SplitBy
import Mathlib.Data.Nat.Digits.Lemmas
import Mathlib.Data.Rat.Floor
import Mathlib.Tactic.FieldSimp
import Mathlib.Tactic.Linarith
import Mathlib.Tactic.Positivity

/-!
# Lines that a pair ends

Text cut at a pair of different elements, such as a carriage return and a line feed: a first line,
further lines that are not empty, and the rest, which starts with the pair or does not contain it.
The first empty line of a text is where a search for two pairs in a row finds it.
-/

namespace WebHtop.Lib.Lines

variable {α : Type} [DecidableEq α]

/-- The offset at which a pattern starts for the first time. -/
def find (pattern : List α) : List α → Option Nat
  | [] => if pattern = [] then some 0 else none
  | c :: t => if pattern.isPrefixOf (c :: t) then some 0 else (find pattern t).map (· + 1)

/-- The pair does not occur in a line. -/
def Line (a b : α) (line : List α) : Prop := ¬ [a, b] <:+: line

/-- Lines with their ends. -/
def terminated (a b : α) (rows : List (List α)) : List α := rows.flatMap fun row => row ++ [a, b]

/-- A line and further lines with their ends, and the rest. -/
def headed (a b : α) (first : List α) (rows : List (List α)) (rest : List α) : List α :=
  first ++ [a, b] ++ terminated a b rows ++ rest

/-- The lines behind the first one. -/
def Rows (a b : α) (rows : List (List α)) : Prop := ∀ row ∈ rows, Line a b row ∧ row ≠ []

/-! ## Searching -/

theorem find_eq_none_iff {pattern t : List α} : find pattern t = none ↔ ¬ pattern <:+: t := by
  induction t with
  | nil =>
    rw [find, List.infix_nil]
    split
    · simp_all
    · simp_all
  | cons c t ih =>
    rw [find, List.infix_cons_iff]
    split
    · rename_i h
      simp [List.isPrefixOf_iff_prefix.mp h]
    · rename_i h
      have h : ¬ pattern <+: c :: t := fun hp => h (List.isPrefixOf_iff_prefix.mpr hp)
      rw [Option.map_eq_none_iff, ih]
      simp [h]

/-- The text around the first occurrence. -/
theorem find_some {pattern t : List α} {n : Nat} (h : find pattern t = some n) :
    t = t.take n ++ pattern ++ t.drop (n + pattern.length) := by
  induction t generalizing n with
  | nil =>
    rw [find] at h
    split at h
    · simp_all
    · cases h
  | cons c t ih =>
    rw [find] at h
    split at h
    · rename_i hp
      obtain ⟨rest, hrest⟩ := List.isPrefixOf_iff_prefix.mp hp
      obtain rfl := Option.some.inj h
      rw [← hrest]
      simp
    · obtain ⟨m, hm, rfl⟩ := Option.map_eq_some_iff.mp h
      have hadd : m + 1 + pattern.length = m + pattern.length + 1 := by omega
      rw [hadd, List.take_succ_cons, List.drop_succ_cons, List.cons_append, List.cons_append,
        ← ih hm]

/-- Nothing before the first occurrence contains the pattern. -/
theorem find_front {pattern t : List α} {n : Nat} (hne : pattern ≠ [])
    (h : find pattern t = some n) : ¬ pattern <:+: t.take n := by
  induction t generalizing n with
  | nil => simp [hne]
  | cons c t ih =>
    rw [find] at h
    split at h
    · obtain rfl := Option.some.inj h
      simp [hne]
    · rename_i hp
      obtain ⟨m, hm, rfl⟩ := Option.map_eq_some_iff.mp h
      rw [List.take_succ_cons, List.infix_cons_iff, not_or]
      refine ⟨fun hfront => hp (List.isPrefixOf_iff_prefix.mpr ?_), ih hm⟩
      exact hfront.trans ((List.prefix_cons_inj c).mpr (List.take_prefix m t))

/-- More text changes nothing once the pattern is found. -/
theorem find_append {pattern t : List α} {n : Nat} (h : find pattern t = some n) (r : List α) :
    find pattern (t ++ r) = some n := by
  induction t generalizing n with
  | nil =>
    rw [find] at h
    split at h
    · rename_i hnil
      obtain rfl := Option.some.inj h
      cases r with
      | nil => simp [find, hnil]
      | cons d r => simp [find, hnil]
    · cases h
  | cons c t ih =>
    rw [find] at h
    rw [List.cons_append, find]
    split at h
    · rename_i hp
      have hp' : pattern.isPrefixOf (c :: (t ++ r)) = true :=
        List.isPrefixOf_iff_prefix.mpr
          ((List.isPrefixOf_iff_prefix.mp hp).trans (List.prefix_append (c :: t) r))
      rw [if_pos hp', ← Option.some.inj h]
    · rename_i hp
      obtain ⟨m, hm, rfl⟩ := Option.map_eq_some_iff.mp h
      split
      · rename_i hp'
        -- The pattern found later lies inside `t`, so it is not longer than `c :: t`.
        have hlength := congrArg List.length (find_some hm)
        simp only [List.length_append] at hlength
        have hfront := List.isPrefixOf_iff_prefix.mp hp'
        have hshort : pattern <+: c :: t := by
          refine List.prefix_of_prefix_length_le hfront (List.prefix_append (c :: t) r) ?_
          rw [List.length_cons]
          omega
        exact absurd (List.isPrefixOf_iff_prefix.mpr hshort) hp
      · rw [ih hm]
        rfl

/-! ## Lines -/

variable {a b : α}

omit [DecidableEq α] in
theorem line_of_not_mem {line : List α} (h : a ∉ line) : Line a b line := by
  rintro ⟨before, after, rfl⟩
  exact h (by simp)

omit [DecidableEq α] in
theorem Line.tail {c : α} {line : List α} (h : Line a b (c :: line)) : Line a b line :=
  fun hi => h (hi.trans (List.suffix_cons c line).isInfix)

omit [DecidableEq α] in
/-- The pair starts neither in a line nor across its end. -/
theorem Line.not_start (hab : a ≠ b) {c : α} {line : List α} (h : Line a b (c :: line))
    (rest : List α) : ¬ [a, b] <+: c :: line ++ a :: rest := by
  intro hp
  cases line with
  | nil =>
    rw [List.cons_append, List.nil_append, List.cons_prefix_cons, List.cons_prefix_cons] at hp
    exact hab hp.2.1.symm
  | cons d line =>
    rw [List.cons_append, List.cons_append, List.cons_prefix_cons, List.cons_prefix_cons] at hp
    obtain ⟨rfl, rfl, -⟩ := hp
    exact h ⟨[], line, rfl⟩

theorem find_line (hab : a ≠ b) {line : List α} (h : Line a b line) (rest : List α) :
    find [a, b] (line ++ [a, b] ++ rest) = some line.length := by
  induction line with
  | nil => simp [find]
  | cons c line ih =>
    have hp := h.not_start hab (b :: rest)
    rw [← List.isPrefixOf_iff_prefix] at hp
    have htail : find [a, b] (line ++ a :: b :: rest) = some line.length := by
      simpa using ih h.tail
    simp only [List.append_assoc, List.cons_append, List.nil_append] at hp ⊢
    rw [find, if_neg hp, htail]
    rfl

/-- The search for an empty line skips a line. -/
theorem find_blank_line (hab : a ≠ b) {line : List α} (h : Line a b line) (rest : List α) :
    find [a, b, a, b] (line ++ [a, b] ++ rest) =
      if [a, b] <+: rest then some line.length
      else (find [a, b, a, b] rest).map (· + (line.length + 2)) := by
  induction line with
  | nil =>
    have hfirst : [a, b, a, b].isPrefixOf (a :: b :: rest) = [a, b].isPrefixOf rest := by
      simp [List.isPrefixOf]
    have hsecond : [a, b, a, b].isPrefixOf (b :: rest) = false := by
      simp [List.isPrefixOf, hab]
    show find [a, b, a, b] (a :: (b :: rest)) = _
    rw [find]
    by_cases hp : [a, b] <+: rest
    · rw [if_pos hp, if_pos (hfirst.trans (List.isPrefixOf_iff_prefix.mpr hp))]
      rfl
    · have hp' : ¬ [a, b].isPrefixOf rest = true := fun hp' => hp (List.isPrefixOf_iff_prefix.mp hp')
      rw [if_neg hp, if_neg (fun hpre => hp' (hfirst.symm.trans hpre)), find, hsecond,
        if_neg Bool.false_ne_true, Option.map_map]
      rfl
  | cons c line ih =>
    have hp := h.not_start hab (b :: rest)
    have hp4 : ¬ [a, b, a, b].isPrefixOf (c :: (line ++ [a, b] ++ rest)) = true := by
      rw [List.isPrefixOf_iff_prefix]
      intro hp4
      refine hp (List.IsPrefix.trans ⟨[a, b], rfl⟩ ?_)
      simpa using hp4
    show find [a, b, a, b] (c :: (line ++ [a, b] ++ rest)) = _
    rw [find, if_neg hp4, ih h.tail]
    split
    · rfl
    · rw [Option.map_map, List.length_cons]
      refine congrArg (fun f => Option.map f _) (funext fun n => ?_)
      show n + (line.length + 2) + 1 = n + (line.length + 1 + 2)
      omega

theorem find_le {pattern before after : List α} :
    ∃ n, find pattern (before ++ pattern ++ after) = some n ∧ n ≤ before.length := by
  induction before with
  | nil =>
    refine ⟨0, ?_, le_rfl⟩
    have hp : pattern.isPrefixOf (pattern ++ after) = true :=
      List.isPrefixOf_iff_prefix.mpr (List.prefix_append pattern after)
    rw [List.nil_append]
    cases h : pattern ++ after with
    | nil => simp [find, (List.append_eq_nil_iff.mp h).1]
    | cons c t => rw [find, ← h, if_pos hp]
  | cons c before ih =>
    obtain ⟨n, hn, hle⟩ := ih
    rw [List.cons_append, List.cons_append, find]
    split
    · exact ⟨0, rfl, Nat.zero_le _⟩
    · exact ⟨n + 1, by rw [hn]; rfl, Nat.succ_le_succ hle⟩

/-! ## Texts of lines -/

omit [DecidableEq α] in
theorem headed_cons (first row : List α) (rows : List (List α)) (rest : List α) :
    headed a b first (row :: rows) rest = first ++ [a, b] ++ headed a b row rows rest := by
  simp [headed, terminated]

omit [DecidableEq α] in
theorem length_headed (first : List α) (rows : List (List α)) (rest : List α) :
    (headed a b first rows rest).length =
      first.length + 2 + (terminated a b rows).length + rest.length := by
  simp only [headed, List.length_append, List.length_cons, List.length_nil]

omit [DecidableEq α] in
/-- A text whose first line is not empty does not start with the pair. -/
theorem headed_not_start (hab : a ≠ b) {row : List α} (h : Line a b row) (hne : row ≠ [])
    (rows : List (List α)) (rest : List α) : ¬ [a, b] <+: headed a b row rows rest := by
  obtain ⟨c, line, rfl⟩ := List.exists_cons_of_ne_nil hne
  have hp := h.not_start hab (b :: (terminated a b rows ++ rest))
  simpa [headed] using hp

/-- The search for an empty line skips all lines that are not empty. -/
theorem find_blank (hab : a ≠ b) {first : List α} {rows : List (List α)} (hfirst : Line a b first)
    (hrows : Rows a b rows) (rest : List α) :
    find [a, b, a, b] (headed a b first rows rest) =
      if [a, b] <+: rest then some (first.length + (terminated a b rows).length)
      else (find [a, b, a, b] rest).map
        (· + (first.length + 2 + (terminated a b rows).length)) := by
  induction rows generalizing first with
  | nil => simpa [headed, terminated] using find_blank_line hab hfirst rest
  | cons row rows ih =>
    obtain ⟨hline, hne⟩ := hrows row List.mem_cons_self
    have hrest : Rows a b rows := fun r hr => hrows r (List.mem_cons_of_mem row hr)
    have hlength : (terminated a b (row :: rows)).length =
        row.length + 2 + (terminated a b rows).length := by
      simp only [terminated, List.flatMap_cons, List.length_append, List.length_cons,
        List.length_nil]
    rw [headed_cons, find_blank_line hab hfirst,
      if_neg (headed_not_start hab hline hne rows rest), ih hline hrest]
    split
    · rw [Option.map_some]
      refine congrArg some ?_
      omega
    · rw [Option.map_map]
      refine congrArg (fun f => Option.map f _) (funext fun n => ?_)
      show n + (row.length + 2 + (terminated a b rows).length) + (first.length + 2) = n + _
      omega

omit [DecidableEq α] in
theorem Line.not_blank {line : List α} (h : Line a b line) : ¬ [a, b, a, b] <:+: line :=
  fun hi => h (List.IsInfix.trans ⟨[], [a, b], rfl⟩ hi)

/-- A text of lines without an empty one. -/
theorem find_no_blank (hab : a ≠ b) {first : List α} {rows : List (List α)}
    (hfirst : Line a b first) (hrows : Rows a b rows) {rest : List α} (hrest : Line a b rest) :
    find [a, b, a, b] (headed a b first rows rest) = none := by
  have hp : ¬ [a, b] <+: rest := fun hp => hrest hp.isInfix
  rw [find_blank hab hfirst hrows, if_neg hp, find_eq_none_iff.mpr hrest.not_blank, Option.map_none]

/-- Every text with the pair in it is such a text of lines. -/
theorem exists_headed (hab : a ≠ b) {text : List α} (h : ¬ Line a b text) :
    ∃ first rows rest, Line a b first ∧ Rows a b rows ∧ ([a, b] <+: rest ∨ Line a b rest) ∧
      text = headed a b first rows rest := by
  have hfind : find [a, b] text ≠ none := by
    rw [ne_eq, find_eq_none_iff]
    exact h
  obtain ⟨n, hn⟩ := Option.ne_none_iff_exists'.mp hfind
  have hfirst : Line a b (text.take n) := find_front (by simp) hn
  have htext := find_some hn
  generalize hrest : text.drop (n + [a, b].length) = rest at htext
  by_cases hstop : [a, b] <+: rest ∨ Line a b rest
  · refine ⟨text.take n, [], rest, hfirst, by simp [Rows], hstop, ?_⟩
    simpa [headed, terminated] using htext
  · obtain ⟨hp, hline⟩ := not_or.mp hstop
    have hshorter : rest.length < text.length := by
      rw [htext]
      simp only [List.length_append, List.length_cons]
      omega
    obtain ⟨row, rows, rest', hrow, hrows, hend, hheaded⟩ := exists_headed hab hline
    have hne : row ≠ [] := by
      rintro rfl
      exact hp ⟨terminated a b rows ++ rest', by simp [hheaded, headed]⟩
    refine ⟨text.take n, row :: rows, rest', hfirst, ?_, hend, ?_⟩
    · intro r hr
      rcases List.mem_cons.mp hr with rfl | hr
      · exact ⟨hrow, hne⟩
      · exact hrows r hr
    · rw [headed_cons, ← hheaded]
      exact htext
termination_by text.length

end WebHtop.Lib.Lines
