import WebHtop.Server.Collectors.CpuTopology
import WebHtop.Server.Collectors.ProcessStat

/-!
# The lines of /proc/stat

The grammar of a CPU line, and `ParseCpu` as a map from texts to maps: any text that renders a map,
with whatever lines between, is parsed into that map, and in any text each key takes its value from
its first line. `NextToken` stops in front of a carriage return and `NextLine` drops one at the end
of a line; neither makes a difference to a CPU line.
-/

namespace WebHtop.Server.Collectors

open WebHtop.Lib WebHtop.Common

/-! ## The grammar -/

/-- `cpu`, or `cpu` and the digits of a core. -/
inductive Label : Int → Bytes → Prop
  | aggregate : Label (-1) (lit "cpu")
  | core {id : Int} {digits : Bytes} (hdigits : Signed digits id) (hlow : 0 ≤ id)
      (hhigh : id < 2 ^ 31) : Label id (lit "cpu" ++ digits)

/-- Counters, each behind blanks, and whatever follows the last one. -/
inductive Counters : List UInt64 → Bytes → Prop
  | rest {s : Bytes} (h : ∀ c ∈ s.head?, isDelimiter c = true) : Counters [] s
  | field {blanks digits s : Bytes} {n : UInt64} {times : List UInt64} (hne : blanks ≠ [])
      (hblanks : Blanks blanks) (hdigits : Unsigned digits n.toNat) (hs : Counters times s) :
      Counters (n :: times) (blanks ++ (digits ++ s))

/-- A well-formed line for the key. -/
def CpuLine (id : Int) (times : CpuTimes) (line : Bytes) : Prop :=
  ∃ blanks label s, line = blanks ++ (label ++ s) ∧ Blanks blanks ∧ Label id label ∧
    Counters times.val s

/-- A blank line, or one whose first token does not start with cpu. -/
def OtherLine (line : Bytes) : Prop := ¬ lit "cpu" <+: line.dropWhile isBlank

/-- A line and the entry that it stands for. -/
inductive Line : Option (Int × CpuTimes) → Bytes → Prop
  | cpu {id : Int} {times : CpuTimes} {line : Bytes} (h : CpuLine id times line) :
      Line (some (id, times)) line
  | other {line : Bytes} (h : OtherLine line) : Line none line

/-- A text with the entries in the order of their lines. The last line may lack its end. -/
inductive Renders : List (Int × CpuTimes) → Bytes → Prop
  | last {o : Option (Int × CpuTimes)} {line : Bytes} (h : Line o line) (hline : ch '\n' ∉ line) :
      Renders o.toList line
  | line {o : Option (Int × CpuTimes)} {line ending text : Bytes} {entries : List (Int × CpuTimes)}
      (h : Line o line) (hline : ch '\n' ∉ line) (hending : ending = lit "\n" ∨ ending = lit "\r\n")
      (htext : Renders entries text) : Renders (o.toList ++ entries) (line ++ (ending ++ text))

/-! ## Tokens -/

/-- A token is what stands between blanks and a delimiter. -/
theorem nextToken_split (s : Bytes) :
    ∃ blanks, s = blanks ++ ((nextToken s).1 ++ (nextToken s).2) ∧ Blanks blanks ∧
      (∀ c ∈ (nextToken s).1, isDelimiter c = false) ∧
      ∀ c ∈ (nextToken s).2.head?, isDelimiter c = true := by
  refine ⟨s.takeWhile isBlank, ?_, ?_, ?_, ?_⟩
  · show s = s.takeWhile isBlank ++ (List.takeWhile _ (s.dropWhile isBlank) ++ _)
    rw [nextToken, List.takeWhile_append_dropWhile, List.takeWhile_append_dropWhile]
  · exact List.all_eq_true.mp List.all_takeWhile
  · intro c hc
    have := List.all_eq_true.mp (List.all_takeWhile (l := s.dropWhile isBlank)) c hc
    simpa using this
  · intro c hc
    have hhead := List.head?_dropWhile_not (fun c => !isDelimiter c) (s.dropWhile isBlank)
    rw [show ((s.dropWhile isBlank).dropWhile (fun c => !isDelimiter c)).head? = some c from hc]
      at hhead
    simpa using hhead

/-- A carriage return behind a line is never part of a token. -/
theorem nextToken_cr (s : Bytes) :
    nextToken (s ++ [ch '\r']) = ((nextToken s).1, (nextToken s).2 ++ [ch '\r']) := by
  have hskip : (s ++ [ch '\r']).dropWhile isBlank = s.dropWhile isBlank ++ [ch '\r'] := by
    induction s with
    | nil => rfl
    | cons c s ih =>
      rw [List.cons_append, List.dropWhile_cons, List.dropWhile_cons]
      split
      · exact ih
      · rfl
  unfold nextToken
  simp only [hskip]
  generalize s.dropWhile isBlank = t
  induction t with
  | nil => rfl
  | cons c t ih =>
    rw [List.cons_append, List.takeWhile_cons, List.takeWhile_cons, List.dropWhile_cons,
      List.dropWhile_cons]
    split
    · exact Prod.ext (congrArg (c :: ·) (Prod.ext_iff.mp ih).1) (Prod.ext_iff.mp ih).2
    · rfl

theorem readTimes_cr (count : Nat) (s : Bytes) : readTimes count (s ++ [ch '\r']) = readTimes count s := by
  induction count generalizing s with
  | zero => rfl
  | succ count ih => simp only [readTimes, nextToken_cr, ih]

theorem cpuLine_cr (line : Bytes) : cpuLine (line ++ [ch '\r']) = cpuLine line := by
  simp only [cpuLine, nextToken_cr, readTimes_cr]

theorem cpuLine_chomp (line : Bytes) : cpuLine (chomp line) = cpuLine line := by
  unfold chomp
  split
  · rename_i hlast
    conv_rhs => rw [← List.dropLast_append_getLast? _ hlast]
    exact (cpuLine_cr _).symm
  · rfl

/-! ## One line -/

theorem digit_not_delimiter {c : UInt8} (h : Decimal.isDigit c = true) : isDelimiter c = false := by
  simp only [Decimal.isDigit, Bool.and_eq_true, decide_eq_true_eq] at h
  have hne (d : Char) (hd : d.toNat < 48) : ¬ c = ch d := by
    rintro rfl
    have hsmall : (ch d).toNat = d.toNat := Utf8.toNat_ofNat (by omega)
    omega
  simp [isDelimiter, isBlank, hne ' ' (by decide), hne '\t' (by decide), hne '\r' (by decide),
    hne '\n' (by decide)]

theorem field_of_unsigned {digits : Bytes} {n : Nat} (h : Unsigned digits n) : Field digits :=
  ⟨h.1, fun c hc => digit_not_delimiter (List.all_eq_true.mp h.2.1 c hc)⟩

theorem field_of_signed {digits : Bytes} {id : Int} (h : Signed digits id) : Field digits := by
  rcases h with ⟨n, hn, -⟩ | ⟨rest, n, rfl, hn, -⟩
  · exact field_of_unsigned hn
  · exact ⟨List.cons_ne_nil _ _, List.forall_mem_cons.mpr ⟨rfl, (field_of_unsigned hn).2⟩⟩

theorem Label.field {id : Int} {label : Bytes} (h : Label id label) : Field label := by
  have hcpu : ∀ c ∈ lit "cpu", isDelimiter c = false := by
    intro c hc
    have hall : (lit "cpu").all (fun c => !isDelimiter c) = true := rfl
    simpa using List.all_eq_true.mp hall c hc
  cases h with
  | aggregate => exact ⟨List.cons_ne_nil _ _, hcpu⟩
  | core hdigits hlow hhigh =>
    exact ⟨List.cons_ne_nil _ _, List.forall_mem_append.mpr ⟨hcpu, (field_of_signed hdigits).2⟩⟩

theorem unsigned_of_parse {limit n : Nat} {s : Bytes} (h : parseUnsigned limit s = some n) :
    Unsigned s n ∧ n < limit := by
  unfold parseUnsigned at h
  split at h
  · rename_i hs
    obtain rfl := Option.some.inj h
    exact ⟨⟨hs.1, hs.2.1, rfl⟩, hs.2.2⟩
  · cases h

theorem signed_of_parse {bits : Nat} {s : Bytes} {i : Int} (h : parseSigned bits s = some i) :
    Signed s i := by
  unfold parseSigned at h
  split at h
  · rename_i t
    split at h
    · rename_i ht
      exact .inr ⟨t, _, rfl, ⟨ht.1, ht.2.1, rfl⟩, (Option.some.inj h).symm⟩
    · cases h
  · obtain ⟨j, hj, rfl⟩ := Option.map_eq_some_iff.mp h
    obtain ⟨n, hn, hj⟩ := Option.bind_eq_some_iff.mp hj
    obtain rfl := Option.some.inj hj
    exact .inl ⟨n, (unsigned_of_parse hn).1, rfl⟩

theorem cpuId_iff {label : Bytes} {id : Int} : cpuId label = some id ↔ Label id label := by
  constructor
  · intro h
    have hrange := cpuId_range h
    unfold cpuId at h
    split_ifs at h with hcpu hprefix
    · obtain rfl := Option.some.inj h
      rw [hcpu]
      exact .aggregate
    · obtain ⟨digits, rfl⟩ := List.isPrefixOf_iff_prefix.mp hprefix
      obtain ⟨hparse, hlow⟩ := Option.filter_eq_some_iff.mp h
      exact .core (signed_of_parse hparse) (of_decide_eq_true hlow) (MetricsCollector.parseSigned_lt hparse)
  · intro h
    cases h with
    | aggregate => rfl
    | @core id digits hdigits hlow hhigh =>
      have hne : lit "cpu" ++ digits ≠ lit "cpu" := by
        intro heq
        exact (field_of_signed hdigits).1 (List.append_right_eq_self.mp heq)
      have hprefix : (lit "cpu").isPrefixOf (lit "cpu" ++ digits) = true :=
        List.isPrefixOf_iff_prefix.mpr (List.prefix_append _ _)
      have hdrop : (lit "cpu" ++ digits).drop 3 = digits := rfl
      rw [cpuId, if_neg hne, if_pos hprefix, hdrop, parseSigned_of hdigits (by norm_num; omega) hhigh]
      exact Option.filter_eq_some_iff.mpr ⟨rfl, decide_eq_true hlow⟩

theorem Counters.head {times : List UInt64} {s : Bytes} (h : Counters times s) :
    ∀ c ∈ s.head?, isDelimiter c = true := by
  cases h with
  | rest h => exact h
  | @field blanks digits s n times hne hblanks hdigits hs =>
    obtain ⟨b, blanks, rfl⟩ := List.exists_cons_of_ne_nil hne
    intro c hc
    obtain rfl := Option.some.inj hc
    simp [isDelimiter, hblanks b List.mem_cons_self]

theorem readTimes_of {times : List UInt64} {s : Bytes} (h : Counters times s) :
    ∀ {count : Nat} (hcount : times.length = count), readTimes count s = some ⟨times, hcount⟩ := by
  induction h with
  | rest h =>
    rintro count rfl
    rfl
  | @field blanks digits s n times hne hblanks hdigits hs ih =>
    rintro count rfl
    have htoken := nextToken_blanks hblanks (field_of_unsigned hdigits) hs.head
    have hparse := parseUnsigned_of hdigits n.toNat_lt
    have hrest := ih rfl
    simp only [List.length_cons, readTimes, htoken, hparse, Option.bind_some, hrest, Option.map_some,
      UInt64.ofNat_toNat]

/-- What is read behind a token is a row of counters. -/
theorem counters_of_read {count : Nat} {s : Bytes} {times : {t : List UInt64 // t.length = count}}
    (hhead : ∀ c ∈ s.head?, isDelimiter c = true) (h : readTimes count s = some times) :
    Counters times.val s := by
  induction count generalizing s with
  | zero =>
    obtain rfl := Option.some.inj h
    exact .rest hhead
  | succ count ih =>
    obtain ⟨n, hn, h⟩ := Option.bind_eq_some_iff.mp h
    obtain ⟨rest, hrest, rfl⟩ := Option.map_eq_some_iff.mp h
    obtain ⟨hunsigned, hlt⟩ := unsigned_of_parse hn
    obtain ⟨blanks, hsplit, hblanks, htoken, hbehind⟩ := nextToken_split s
    have hcounters := ih hbehind hrest
    have hne : blanks ≠ [] := by
      rintro rfl
      obtain ⟨c, t, hct⟩ := List.exists_cons_of_ne_nil hunsigned.1
      have hct : (nextToken s).1 = c :: t := hct
      rw [List.nil_append, hct] at hsplit
      have hdelimiter := hhead c (by rw [hsplit]; rfl)
      have hplain := htoken c (hct ▸ List.mem_cons_self)
      exact absurd hdelimiter (by simp [hplain])
    have hnat : (UInt64.ofNat n).toNat = n := UInt64.toNat_ofNat_of_lt' hlt
    rw [hsplit]
    exact .field hne hblanks (hnat.symm ▸ hunsigned) hcounters

/-- The code reads an entry off exactly the well-formed lines. -/
theorem cpuLine_iff {line : Bytes} {id : Int} {times : CpuTimes} :
    cpuLine line = some (id, times) ↔ CpuLine id times line := by
  constructor
  · intro h
    obtain ⟨id', hid, h⟩ := Option.bind_eq_some_iff.mp h
    obtain ⟨times', htimes, heq⟩ := Option.map_eq_some_iff.mp h
    obtain ⟨rfl, rfl⟩ := Prod.mk.inj heq
    obtain ⟨blanks, hsplit, hblanks, -, hbehind⟩ := nextToken_split line
    exact ⟨blanks, _, _, hsplit, hblanks, cpuId_iff.mp hid, counters_of_read hbehind htimes⟩
  · intro ⟨blanks, label, s, hline, hblanks, hlabel, hcounters⟩
    have htoken := nextToken_blanks hblanks hlabel.field hcounters.head
    rw [← hline] at htoken
    simp only [cpuLine, htoken, cpuId_iff.mpr hlabel, Option.bind_some,
      readTimes_of hcounters times.property, Option.map_some]

theorem cpuLine_other {line : Bytes} (h : OtherLine line) : cpuLine line = none := by
  rw [Option.eq_none_iff_forall_ne_some]
  intro ⟨id, times⟩ he
  obtain ⟨blanks, label, s, rfl, hblanks, hlabel, hcounters⟩ := cpuLine_iff.mp he
  apply h
  have hcpu : ∃ digits, label = lit "cpu" ++ digits := by
    cases hlabel with
    | aggregate => exact ⟨[], rfl⟩
    | @core id digits => exact ⟨digits, rfl⟩
  obtain ⟨digits, rfl⟩ := hcpu
  rw [List.dropWhile_append_of_pos hblanks, List.append_assoc]
  exact List.prefix_append _ _

theorem cpuLine_line {o : Option (Int × CpuTimes)} {line : Bytes} (h : Line o line) :
    cpuLine line = o := by
  cases h with
  | cpu h => exact cpuLine_iff.mpr h
  | other h => exact cpuLine_other h

/-! ## The loop -/

/-- What a line does to the sample. -/
def addLine (result : CpuSample) (line : Bytes) : CpuSample :=
  match cpuLine line with
  | some (id, times) => emplace id times result
  | none => result

/-- The loop of ParseCpu; `none` when it is cut off. -/
def cpuLoop : (rounds : Nat) → Bytes → CpuSample → Option CpuSample
  | 0, _, _ => none
  | rounds + 1, remaining, result =>
    if remaining = [] then some result
    else
      let (line, remaining) := nextLine remaining
      cpuLoop rounds remaining (addLine result line)

theorem lines_cons {s : Bytes} (h : s ≠ []) :
    Istream.lines s = (s.takeWhile fun c => c ≠ ch '\n') ::
      Istream.lines (s.dropWhile fun c => c ≠ ch '\n').tail := by
  induction s with
  | nil => exact absurd rfl h
  | cons c s ih =>
    rw [Istream.lines]
    by_cases hc : c = ch '\n'
    · rw [if_pos (show c = 0x0A from hc), List.takeWhile_cons_of_neg (by simp [hc]), List.dropWhile_cons_of_neg (by simp [hc])]
      rfl
    · rw [if_neg (show ¬ c = 0x0A from hc), List.takeWhile_cons_of_pos (by simp [hc]), List.dropWhile_cons_of_pos (by simp [hc])]
      cases s with
      | nil => rfl
      | cons d s => rw [ih (List.cons_ne_nil d s)]

theorem nextLines_cons {s : Bytes} (h : s ≠ []) :
    nextLines s = (nextLine s).1 :: nextLines (nextLine s).2 := by
  rw [nextLines, lines_cons h]
  rfl

theorem nextLine_length {s : Bytes} (h : s ≠ []) : (nextLine s).2.length < s.length := by
  have hle : (s.dropWhile fun c => c ≠ ch '\n').length ≤ s.length :=
    (List.dropWhile_sublist _).length_le
  have hpos : 0 < s.length := List.length_pos_iff.mpr h
  show (s.dropWhile fun c => c ≠ ch '\n').tail.length < s.length
  rw [List.length_tail]
  omega

/-- Each round takes a line off the text, so the loop ends after at most as many rounds as there
are bytes. -/
theorem cpuLoop_of_lt {rounds : Nat} {text : Bytes} (h : text.length < rounds) (result : CpuSample) :
    cpuLoop rounds text result = some ((nextLines text).foldl addLine result) := by
  induction rounds generalizing text result with
  | zero => omega
  | succ rounds ih =>
    rw [cpuLoop]
    split
    · rename_i hnil
      rw [hnil]
      rfl
    · rename_i hne
      have hlength := nextLine_length hne
      rw [nextLines_cons hne, List.foldl_cons]
      exact ih (Nat.lt_of_lt_of_le hlength (Nat.lt_succ_iff.mp h)) _

theorem cpuLoop_ends (text : Bytes) : cpuLoop (text.length + 1) text [] = some (parseCpu text) :=
  cpuLoop_of_lt (Nat.lt_succ_self _) []

/-! ## The map -/

theorem get_of_lt {t : CpuSample} {k : Int} (h : ∀ k' ∈ t.map Prod.fst, k < k') : t.get k = none := by
  rw [Option.eq_none_iff_forall_ne_some]
  intro times hget
  have hlt := h k (List.mem_map_of_mem (f := Prod.fst) (Table.mem_of_get hget))
  exact absurd hlt (lt_irrefl k)

theorem emplace_get {id : Int} {times : CpuTimes} {t : CpuSample}
    (h : (t.map Prod.fst).Pairwise (· < ·)) (k : Int) :
    (emplace id times t).get k = (t.get k).or (if id = k then some times else none) := by
  induction t with
  | nil => rfl
  | cons e t ih =>
    obtain ⟨hfirst, hrest⟩ := List.pairwise_cons.mp h
    have hcons (t : CpuSample) : Table.get (e :: t) k = if e.1 = k then some e.2 else t.get k := rfl
    rw [emplace]
    by_cases hlt : id < e.1
    · rw [if_pos hlt, Table.get]
      by_cases hk : id = k
      · -- The new entry stands in front of all others.
        have hnone : Table.get (e :: t) k = none := by
          apply get_of_lt
          rw [← hk]
          exact List.forall_mem_cons.mpr ⟨hlt, fun k' hk' => hlt.trans (hfirst k' hk')⟩
        rw [hnone, if_pos hk]
        rfl
      · rw [if_neg hk, if_neg hk, Option.or_none]
    by_cases heq : id = e.1
    · rw [if_neg hlt, if_pos heq]
      by_cases hk : id = k
      · rw [hcons, if_pos (heq.symm.trans hk)]
        rfl
      · rw [if_neg hk, Option.or_none]
    · rw [if_neg hlt, if_neg heq, hcons, hcons]
      split
      · rfl
      · exact ih hrest

theorem addLine_ordered {t : CpuSample} (h : CpuOrdered t) (line : Bytes) :
    CpuOrdered (addLine t line) := by
  unfold addLine
  cases hline : cpuLine line with
  | none => exact h
  | some e =>
    obtain ⟨id, times⟩ := e
    exact h.emplace (cpuLine_range hline)

/-- The first line of a key stands. -/
theorem foldl_get (lines : List Bytes) {t : CpuSample} (h : CpuOrdered t) (k : Int) :
    (lines.foldl addLine t).get k =
      (t.get k).or (Table.get (lines.filterMap cpuLine : Table Int CpuTimes) k) := by
  induction lines generalizing t with
  | nil => exact (Option.or_none).symm
  | cons line lines ih =>
    rw [List.foldl_cons, ih (addLine_ordered h line), List.filterMap_cons]
    unfold addLine
    cases hline : cpuLine line with
    | none => rfl
    | some e =>
      obtain ⟨id, times⟩ := e
      dsimp only
      rw [emplace_get h.sorted, Option.or_assoc, Table.get]
      split
      · rfl
      · rfl

theorem parseCpu_get (text : Bytes) (k : Int) :
    (parseCpu text).get k =
      Table.get ((nextLines text).filterMap cpuLine : Table Int CpuTimes) k := by
  have hempty : CpuOrdered [] := ⟨List.Pairwise.nil, List.forall_mem_nil _⟩
  exact foldl_get (nextLines text) hempty k

/-- Ordered samples are determined by what they hold. -/
theorem CpuOrdered.ext {t t' : CpuSample} (h : CpuOrdered t) (h' : CpuOrdered t')
    (hget : ∀ k, t.get k = t'.get k) : t = t' := by
  have hnodup {t : CpuSample} (h : CpuOrdered t) : t.keys.Nodup := h.sorted.imp ne_of_lt
  have hmem : ∀ e, e ∈ t ↔ e ∈ t' := by
    intro ⟨k, times⟩
    constructor
    · intro he
      exact Table.mem_of_get ((hget k).symm.trans (Table.get_of_mem (hnodup h) he))
    · intro he
      exact Table.mem_of_get ((hget k).trans (Table.get_of_mem (hnodup h') he))
  have hperm : t.Perm t' :=
    (List.perm_ext_iff_of_nodup (hnodup h).of_map (hnodup h').of_map).mpr hmem
  have hsorted {t : CpuSample} (h : CpuOrdered t) : t.Pairwise fun a b => a.1 < b.1 :=
    List.pairwise_map.mp h.sorted
  exact hperm.eq_of_pairwise (fun a b _ _ hab hba => absurd (hab.trans hba) (lt_irrefl _))
    (hsorted h) (hsorted h')

/-! ## Texts -/

theorem not_line_end {line : Bytes} (h : ch '\n' ∉ line) :
    ∀ c ∈ line, decide (c ≠ ch '\n') = true := by
  intro c hc
  apply decide_eq_true
  rintro rfl
  exact h hc

theorem lines_of_line {line text : Bytes} (h : ch '\n' ∉ line) :
    Istream.lines (line ++ ch '\n' :: text) = line :: Istream.lines text := by
  have hne : line ++ ch '\n' :: text ≠ [] := by simp
  rw [lines_cons hne, List.takeWhile_append_of_pos (not_line_end h),
    List.dropWhile_append_of_pos (not_line_end h), List.takeWhile_cons_of_neg (by simp),
    List.dropWhile_cons_of_neg (by simp), List.append_nil, List.tail_cons]

theorem lines_of_last {line : Bytes} (h : ch '\n' ∉ line) (hne : line ≠ []) :
    Istream.lines line = [line] := by
  have htake : (line ++ []).takeWhile (fun c => c ≠ ch '\n') = line ++ [] :=
    List.takeWhile_append_of_pos (not_line_end h)
  have hdrop : (line ++ []).dropWhile (fun c => c ≠ ch '\n') = [] :=
    List.dropWhile_append_of_pos (not_line_end h)
  rw [List.append_nil] at htake hdrop
  rw [lines_cons hne, htake, hdrop]
  rfl

theorem filterMap_chomp (lines : List Bytes) :
    (lines.map chomp).filterMap cpuLine = lines.filterMap cpuLine := by
  rw [List.filterMap_map]
  exact congrArg (List.filterMap · lines) (funext cpuLine_chomp)

theorem filterMap_line {x : Bytes} {o : Option (Int × CpuTimes)} (h : cpuLine x = o)
    (lines : List Bytes) :
    (x :: lines).filterMap cpuLine = o.toList ++ lines.filterMap cpuLine := by
  rw [List.filterMap_cons, h]
  cases o <;> rfl

theorem filterMap_of_renders {entries : List (Int × CpuTimes)} {text : Bytes}
    (h : Renders entries text) : (Istream.lines text).filterMap cpuLine = entries := by
  induction h with
  | @last o line h hline =>
    have hread := cpuLine_line h
    cases line with
    | nil =>
      obtain rfl : none = o := hread
      rfl
    | cons c line =>
      rw [lines_of_last hline (List.cons_ne_nil c line), filterMap_line hread, List.filterMap_nil,
        List.append_nil]
  | @line o line ending text entries h hline hending htext ih =>
    have hread := cpuLine_line h
    rcases hending with rfl | rfl
    · have hlines : Istream.lines (line ++ (lit "\n" ++ text)) = line :: Istream.lines text :=
        lines_of_line hline
      rw [hlines, filterMap_line hread, ih]
    · have hcr : ch '\n' ∉ line ++ [ch '\r'] := by
        rw [List.mem_append, not_or]
        exact ⟨hline, by decide⟩
      have hlines : Istream.lines (line ++ (lit "\r\n" ++ text)) =
          (line ++ [ch '\r']) :: Istream.lines text := by
        rw [← lines_of_line hcr, List.append_assoc]
        rfl
      rw [hlines, filterMap_line ((cpuLine_cr line).trans hread), ih]

/-- The first well-formed line of the key has the value. -/
def FirstLine (id : Int) (times : CpuTimes) (lines : List Bytes) : Prop :=
  ∃ before line after, lines = before ++ line :: after ∧ CpuLine id times line ∧
    ∀ l ∈ before, ∀ times', ¬ CpuLine id times' l

theorem firstLine_cons {id : Int} {times : CpuTimes} {line : Bytes} {lines : List Bytes} :
    FirstLine id times (line :: lines) ↔
      CpuLine id times line ∨ (∀ times', ¬ CpuLine id times' line) ∧ FirstLine id times lines := by
  constructor
  · intro ⟨before, l, after, hsplit, hl, hbefore⟩
    cases before with
    | nil =>
      obtain ⟨rfl, -⟩ := List.cons.inj hsplit
      exact .inl hl
    | cons b before =>
      obtain ⟨rfl, hlines⟩ := List.cons.inj hsplit
      obtain ⟨hb, hbefore⟩ := List.forall_mem_cons.mp hbefore
      exact .inr ⟨hb, before, l, after, hlines, hl, hbefore⟩
  · intro h
    rcases h with hl | ⟨hline, before, l, after, rfl, hl, hbefore⟩
    · exact ⟨[], line, lines, rfl, hl, List.forall_mem_nil _⟩
    · exact ⟨line :: before, l, after, rfl, hl, List.forall_mem_cons.mpr ⟨hline, hbefore⟩⟩

theorem get_filterMap (lines : List Bytes) (id : Int) (times : CpuTimes) :
    Table.get (lines.filterMap cpuLine : Table Int CpuTimes) id = some times ↔
      FirstLine id times lines := by
  induction lines with
  | nil =>
    constructor
    · intro h
      cases h
    · intro ⟨before, line, after, hsplit, _⟩
      simp at hsplit
  | cons line lines ih =>
    rw [firstLine_cons, List.filterMap_cons, ← ih, ← cpuLine_iff]
    simp only [← cpuLine_iff]
    cases hline : cpuLine line with
    | none => simp
    | some e =>
      obtain ⟨id', times'⟩ := e
      rw [Table.get]
      by_cases hid : id' = id
      · simp [hid]
      · simp [hid]

theorem label_aggregate {label : Bytes} (h : Label (-1) label) : label = lit "cpu" := by
  generalize hid : (-1 : Int) = id at h
  cases h with
  | aggregate => rfl
  | core hdigits hlow hhigh => omega

/-- A text that renders a map, its lines in any order and with any other lines between, is parsed
into that map. In any text the loop ends, an entry stands for the first well-formed line of its
key, and only the label of the aggregate stands for the aggregate. -/
theorem parseCpu_exact :
    (∀ (m : CpuSample) (entries : List (Int × CpuTimes)) (text : Bytes), CpuOrdered m →
      entries.Perm m → Renders entries text → parseCpu text = m) ∧
    ∀ text : Bytes,
      cpuLoop (text.length + 1) text [] = some (parseCpu text) ∧
      (∀ id times, (id, times) ∈ parseCpu text ↔ FirstLine id times (nextLines text)) ∧
      ∀ times, (-1, times) ∈ parseCpu text → ∃ line ∈ nextLines text,
        (nextToken line).1 = lit "cpu" ∧ CpuLine (-1) times line := by
  have hnodup {t : CpuSample} (h : CpuOrdered t) : t.keys.Nodup := h.sorted.imp ne_of_lt
  have hfirst (text : Bytes) (id : Int) (times : CpuTimes) :
      (id, times) ∈ parseCpu text ↔ FirstLine id times (nextLines text) := by
    rw [← get_filterMap, ← parseCpu_get]
    exact ⟨Table.get_of_mem (hnodup (parseCpu_ordered text)), Table.mem_of_get⟩
  refine ⟨?_, fun text => ⟨cpuLoop_ends text, hfirst text, ?_⟩⟩
  · intro m entries text hm hperm hrenders
    apply (parseCpu_ordered text).ext hm
    intro k
    rw [parseCpu_get, nextLines, filterMap_chomp, filterMap_of_renders hrenders]
    exact Table.get_perm (hnodup hm) hperm.symm
  · intro times hmem
    obtain ⟨before, line, after, hlines, hline, -⟩ := (hfirst text _ _).mp hmem
    refine ⟨line, ?_, ?_, hline⟩
    · rw [hlines]
      exact List.mem_append_right before List.mem_cons_self
    · obtain ⟨blanks, label, s, rfl, hblanks, hlabel, hcounters⟩ := hline
      rw [nextToken_blanks hblanks hlabel.field hcounters.head]
      exact label_aggregate hlabel

/-- Tabs, a carriage return, an empty line and further fields. -/
theorem parseCpu_exact_sample :
    parseCpu (lit "cpu  10\t20  30 40 50 60 70 80 9000 9000\r\n\ncpu7 1 2 3 4 5 6 7 8  \n") =
      [(-1, ⟨[10, 20, 30, 40, 50, 60, 70, 80], rfl⟩), (7, ⟨[1, 2, 3, 4, 5, 6, 7, 8], rfl⟩)] := by
  have hall : CpuLine (-1) ⟨[10, 20, 30, 40, 50, 60, 70, 80], rfl⟩
      (lit "cpu  10\t20  30 40 50 60 70 80 9000 9000") := cpuLine_iff.mp rfl
  have hcore : CpuLine 7 ⟨[1, 2, 3, 4, 5, 6, 7, 8], rfl⟩ (lit "cpu7 1 2 3 4 5 6 7 8  ") :=
    cpuLine_iff.mp rfl
  have hempty : Line none [] := .other (by simp [OtherLine, lit])
  have hrenders := Renders.line (.cpu hall) (by decide) (.inr rfl)
    (Renders.line hempty (by decide) (.inl rfl)
      (Renders.line (.cpu hcore) (by decide) (.inl rfl) (.last hempty (by decide))))
  refine parseCpu_exact.1 _ _ _ ⟨?_, ?_⟩ (.refl _) hrenders
  · decide
  · decide

end WebHtop.Server.Collectors
