import WebHtop.Server.Collectors.LinuxSamples

/-!
# Stat records of processes

A record as the kernel writes it, with any bytes for the name. The name ends at the last closing
parenthesis, which no later field contains, so the fields behind it are found whatever the name
looks like.
-/

namespace WebHtop.Server.Collectors

open WebHtop.Lib WebHtop.Common

/-! ## Searching -/

theorem find_front {before after : Bytes} {c : UInt8} (h : ∀ d ∈ before, d ≠ c) :
    find (before ++ c :: after) c = some before.length := by
  have hnone : before.findIdx? (fun d => decide (d = c)) = none :=
    List.findIdx?_eq_none_iff.mpr fun d hd => decide_eq_false (h d hd)
  rw [find, List.findIdx?_append, hnone, List.findIdx?_cons]
  simp

theorem rfind_back {before after : Bytes} {c : UInt8} (h : ∀ d ∈ after, d ≠ c) :
    rfind (before ++ c :: after) c = some before.length := by
  have hfront : find (after.reverse ++ c :: before.reverse) c = some after.reverse.length :=
    find_front fun d hd => h d (List.mem_reverse.mp hd)
  have hreverse : (before ++ c :: after).reverse = after.reverse ++ c :: before.reverse := by simp
  rw [find] at hfront
  rw [rfind, hreverse, hfront, Option.map_some, List.length_append, List.length_cons, List.length_reverse]
  exact congrArg some (by omega)

/-! ## Tokens -/

/-- A field of a record: not empty, and without the bytes that separate fields. -/
def Field (f : Bytes) : Prop := f ≠ [] ∧ ∀ c ∈ f, isDelimiter c = false

/-- Spaces and tabs. -/
def Blanks (s : Bytes) : Prop := ∀ c ∈ s, isBlank c = true

theorem nextToken_blanks {blanks f rest : Bytes} (hblanks : Blanks blanks) (h : Field f)
    (hrest : ∀ c ∈ rest.head?, isDelimiter c = true) :
    nextToken (blanks ++ (f ++ rest)) = (f, rest) := by
  obtain ⟨c, t, rfl⟩ := List.exists_cons_of_ne_nil h.1
  have hc : isBlank c = false := by
    have := h.2 c List.mem_cons_self
    simp only [isDelimiter, Bool.or_eq_false_iff] at this
    exact this.1.1
  have hskip : (blanks ++ ((c :: t) ++ rest)).dropWhile isBlank = (c :: t) ++ rest := by
    rw [List.dropWhile_append_of_pos hblanks, List.cons_append,
      List.dropWhile_cons_of_neg (by simp [hc])]
  have hfield : ∀ d ∈ c :: t, (!isDelimiter d) = true := fun d hd => by rw [h.2 d hd]; rfl
  have htake : rest.takeWhile (fun c => !isDelimiter c) = [] := by
    cases rest with
    | nil => rfl
    | cons d rest => rw [List.takeWhile_cons_of_neg (by simp [hrest d rfl])]
  have hdrop : rest.dropWhile (fun c => !isDelimiter c) = rest := by
    cases rest with
    | nil => rfl
    | cons d rest => rw [List.dropWhile_cons_of_neg (by simp [hrest d rfl])]
  rw [nextToken]
  simp only [hskip]
  rw [List.takeWhile_append_of_pos hfield, List.dropWhile_append_of_pos hfield, htake, hdrop,
    List.append_nil]

theorem nextToken_field {f rest : Bytes} (h : Field f) (hrest : ∀ c ∈ rest.head?, isDelimiter c = true) :
    nextToken (ch ' ' :: (f ++ rest)) = (f, rest) :=
  nextToken_blanks (List.forall_mem_singleton.mpr rfl) h hrest

/-- Fields, each behind a space. -/
def spaced (fs : List Bytes) : Bytes := fs.flatMap fun f => ch ' ' :: f

theorem spaced_head {fs : List Bytes} {rest : Bytes} (hrest : ∀ c ∈ rest.head?, isDelimiter c = true) :
    ∀ c ∈ (spaced fs ++ rest).head?, isDelimiter c = true := by
  cases fs with
  | nil => exact hrest
  | cons f fs =>
    intro c hc
    obtain rfl := Option.some.inj hc
    rfl

theorem fields_spaced {fs : List Bytes} {rest : Bytes} (h : ∀ f ∈ fs, Field f)
    (hrest : ∀ c ∈ rest.head?, isDelimiter c = true) :
    fields fs.length (spaced fs ++ rest) = some fs := by
  induction fs with
  | nil => rfl
  | cons f fs ih =>
    have hf := h f List.mem_cons_self
    have hspaced : spaced (f :: fs) ++ rest = ch ' ' :: (f ++ (spaced fs ++ rest)) := by
      simp [spaced]
    rw [hspaced, List.length_cons, fields, nextToken_field hf (spaced_head hrest)]
    obtain ⟨c, t, rfl⟩ := List.exists_cons_of_ne_nil hf.1
    dsimp only
    rw [ih fun g hg => h g (List.mem_cons_of_mem _ hg)]
    rfl

/-! ## Numbers -/

/-- Decimal digits that write the number. -/
def Unsigned (f : Bytes) (n : Nat) : Prop :=
  f ≠ [] ∧ f.all Decimal.isDigit = true ∧ Decimal.value f = n

/-- An optional minus sign and decimal digits that write the integer. -/
def Signed (f : Bytes) (i : Int) : Prop :=
  (∃ n, Unsigned f n ∧ i = n) ∨ ∃ digits n, f = ch '-' :: digits ∧ Unsigned digits n ∧ i = -(n : Int)

theorem parseUnsigned_of {f : Bytes} {n limit : Nat} (h : Unsigned f n) (hlt : n < limit) :
    parseUnsigned limit f = some n := by
  obtain ⟨hne, hdigits, rfl⟩ := h
  rw [parseUnsigned, if_pos ⟨hne, hdigits, hlt⟩]

theorem parseSigned_of {f : Bytes} {i : Int} {bits : Nat} (h : Signed f i)
    (hlow : -2 ^ (bits - 1) ≤ i) (hhigh : i < 2 ^ (bits - 1)) : parseSigned bits f = some i := by
  rcases h with ⟨n, hn, rfl⟩ | ⟨digits, n, rfl, ⟨hne, hdigits, rfl⟩, rfl⟩
  · have hparse : parseUnsigned (2 ^ (bits - 1)) f = some n :=
      parseUnsigned_of hn (by exact_mod_cast hhigh)
    unfold parseSigned
    split
    · obtain ⟨-, hdigits, -⟩ := hn
      exact absurd hdigits (by simp [Decimal.isDigit])
    · rw [hparse]
      rfl
  · have hle : Decimal.value digits ≤ 2 ^ (bits - 1) := by
      have : (Decimal.value digits : Int) ≤ 2 ^ (bits - 1) := by omega
      exact_mod_cast this
    have hcons : parseSigned bits (ch '-' :: digits) =
        if digits ≠ [] ∧ digits.all Decimal.isDigit ∧ Decimal.value digits ≤ 2 ^ (bits - 1) then
          some (-(Decimal.value digits : Int)) else none := rfl
    rw [hcons, if_pos ⟨hne, hdigits, hle⟩]

theorem unsigned_numeral (n : Nat) : Unsigned (Decimal.numeral n) n :=
  ⟨Decimal.numeral_ne_nil n, List.all_eq_true.mpr fun _ hc => Decimal.isDigit_numeral hc,
    Decimal.value_numeral n⟩

/-! ## Records -/

/-- A stat record. The name is any byte string; the later fields have no closing parenthesis. -/
structure StatRecord where
  pid : Int32
  comm : Bytes
  state : UInt8
  fields : List Bytes
  newline : Bool
  pid_pos : 0 < pid.toInt
  state_ok : state ≠ ch ')' ∧ isDelimiter state = false
  fields_length : 21 ≤ fields.length
  fields_ok : ∀ f ∈ fields, Field f ∧ ∀ c ∈ f, c ≠ ch ')'

namespace StatRecord

def front (r : StatRecord) : Bytes := Decimal.numeral r.pid.toInt.toNat ++ lit " "

def ending (r : StatRecord) : Bytes := if r.newline then lit "\n" else []

def behind (r : StatRecord) : Bytes := spaced ([r.state] :: r.fields) ++ r.ending

/-- `pid (comm) state f1 f2 ...` -/
def text (r : StatRecord) : Bytes := r.front ++ lit "(" ++ r.comm ++ lit ")" ++ r.behind

theorem ending_head (r : StatRecord) : ∀ c ∈ r.ending.head?, isDelimiter c = true := by
  intro c hc
  unfold ending at hc
  split at hc
  · obtain rfl := Option.some.inj hc
    rfl
  · cases hc

theorem front_plain (r : StatRecord) : ∀ d ∈ r.front, d ≠ ch '(' := by
  intro d hd
  rcases List.mem_append.mp hd with hd | hd
  · have := Decimal.isDigit_numeral hd
    rintro rfl
    cases this
  · obtain rfl := List.mem_singleton.mp hd
    decide

theorem behind_plain (r : StatRecord) : ∀ d ∈ r.behind, d ≠ ch ')' := by
  intro d hd
  rcases List.mem_append.mp hd with hd | hd
  · obtain ⟨f, hf, hd⟩ := List.mem_flatMap.mp hd
    rcases List.mem_cons.mp hd with rfl | hd
    · decide
    · rcases List.mem_cons.mp hf with rfl | hf
      · obtain rfl := List.mem_singleton.mp hd
        exact r.state_ok.1
      · exact (r.fields_ok f hf).2 d hd
  · unfold ending at hd
    split at hd
    · obtain rfl := List.mem_singleton.mp hd
      decide
    · cases hd

theorem text_opening (r : StatRecord) :
    r.text = r.front ++ ch '(' :: (r.comm ++ ch ')' :: r.behind) := by
  have hopen : lit "(" = [ch '('] := rfl
  have hclose : lit ")" = [ch ')'] := rfl
  simp only [text, hopen, hclose, List.append_assoc, List.cons_append, List.nil_append]

theorem text_closing (r : StatRecord) :
    r.text = (r.front ++ ch '(' :: r.comm) ++ ch ')' :: r.behind := by
  rw [text_opening, List.append_assoc, List.cons_append]

/-- The parentheses that are found, and what they cut off. -/
theorem split_text (r : StatRecord) :
    find r.text (ch '(') = some r.front.length ∧
      rfind r.text (ch ')') = some (r.front.length + 1 + r.comm.length) ∧
      r.text.take r.front.length = r.front ∧
      (r.text.drop (r.front.length + 1)).take r.comm.length = r.comm ∧
      r.text.drop (r.front.length + 1 + r.comm.length + 1) = r.behind := by
  have hlength : (r.front ++ ch '(' :: r.comm).length = r.front.length + 1 + r.comm.length := by
    rw [List.length_append, List.length_cons]
    omega
  refine ⟨?_, ?_, ?_, ?_, ?_⟩
  · rw [text_opening]
    exact find_front r.front_plain
  · rw [text_closing, rfind_back r.behind_plain, hlength]
  · rw [text_opening, List.take_left]
  · rw [text_opening, ← List.drop_drop, List.drop_left, List.drop_one, List.tail_cons, List.take_left]
  · rw [← hlength, ← List.drop_drop, text_closing, List.drop_left, List.drop_one, List.tail_cons]

theorem fields_behind (r : StatRecord) :
    Collectors.fields 22 r.behind = some ([r.state] :: r.fields.take 21) := by
  have hsplit : r.behind = spaced ([r.state] :: r.fields.take 21) ++ (spaced (r.fields.drop 21) ++ r.ending) := by
    rw [behind, ← List.append_assoc, spaced, spaced, spaced, ← List.flatMap_append, List.cons_append,
      List.take_append_drop]
  have hlength : ([r.state] :: r.fields.take 21).length = 22 := by
    rw [List.length_cons, List.length_take, Nat.min_eq_left r.fields_length]
  have hfields : ∀ f ∈ [r.state] :: r.fields.take 21, Field f := by
    intro f hf
    rcases List.mem_cons.mp hf with rfl | hf
    · refine ⟨by simp, fun c hc => ?_⟩
      obtain rfl := List.mem_singleton.mp hc
      exact r.state_ok.2
    · exact (r.fields_ok f (List.mem_of_mem_take hf)).1
  rw [hsplit, ← hlength]
  exact fields_spaced hfields (spaced_head r.ending_head)

theorem parseSigned_pid (r : StatRecord) : parseSigned 32 (dropSpaces r.front) = some r.pid.toInt := by
  have hpid := r.pid_pos
  have hlt := r.pid.toInt_lt
  have hnat : (r.pid.toInt.toNat : Int) = r.pid.toInt := Int.toNat_of_nonneg hpid.le
  have hdrop : dropSpaces r.front = Decimal.numeral r.pid.toInt.toNat := by
    have hspace : lit " " = [ch ' '] := rfl
    rw [front, dropSpaces, List.reverse_append, hspace, List.reverse_singleton, List.singleton_append,
      List.dropWhile_cons_of_pos (by simp)]
    obtain ⟨c, t, hct⟩ := List.exists_cons_of_ne_nil
      (show (Decimal.numeral r.pid.toInt.toNat).reverse ≠ [] by
        simpa using Decimal.numeral_ne_nil r.pid.toInt.toNat)
    have hdigit : Decimal.isDigit c = true :=
      Decimal.isDigit_numeral (List.mem_reverse.mp (hct ▸ List.mem_cons_self))
    have hnot : c ≠ ch ' ' := by
      rintro rfl
      cases hdigit
    rw [hct, List.dropWhile_cons_of_neg (by simp [hnot]), ← hct, List.reverse_reverse]
  rw [hdrop]
  exact parseSigned_of (.inl ⟨_, unsigned_numeral _, hnat.symm⟩) (by norm_num; omega) (by norm_num; omega)

/-- The numbers that the program reads from the record. -/
structure Values (r : StatRecord) (utime stime threads starttime : Nat) (rss : Int) : Prop where
  utime_text : Unsigned (r.fields.getD 10 []) utime
  stime_text : Unsigned (r.fields.getD 11 []) stime
  threads_text : Unsigned (r.fields.getD 16 []) threads
  starttime_text : Unsigned (r.fields.getD 18 []) starttime
  rss_text : Signed (r.fields.getD 20 []) rss
  ticks_lt : utime + stime < 2 ^ 64
  threads_lt : threads < 2 ^ 32
  starttime_lt : starttime < 2 ^ 64
  rss_range : -2 ^ 63 ≤ rss ∧ rss < 2 ^ 63

theorem processFields_record (r : StatRecord) {utime stime threads starttime : Nat} {rss : Int}
    (h : Values r utime stime threads starttime rss) :
    processFields r.pid.toInt r.comm ([r.state] :: r.fields.take 21) =
      some
        { pid := r.pid
          name := r.comm
          state := r.state
          ticks := UInt64.ofNat (utime + stime)
          starttime := UInt64.ofNat starttime
          rssPages := UInt64.ofNat rss.toNat
          threads := UInt32.ofNat threads } := by
  have hfield : ∀ i < 21, (([r.state] :: r.fields.take 21).getD (i + 1) []) = r.fields.getD i [] := by
    intro i hi
    rw [List.getD_cons_succ, List.getD_eq_getElem?_getD, List.getD_eq_getElem?_getD, List.getElem?_take_of_lt hi]
  have hticks := h.ticks_lt
  have hsum : utime ≤ 18446744073709551615 - stime := by omega
  unfold processFields
  dsimp only
  rw [hfield 10 (by omega), hfield 11 (by omega), hfield 16 (by omega), hfield 18 (by omega),
    hfield 20 (by omega), parseUnsigned_of h.utime_text (by omega), parseUnsigned_of h.stime_text (by omega),
    parseUnsigned_of h.threads_text h.threads_lt, parseUnsigned_of h.starttime_text h.starttime_lt,
    parseSigned_of h.rss_text h.rss_range.1 h.rss_range.2]
  simp [hsum]

/-- Two records with one text differ at most in what is not read. -/
theorem split_unique {r r' : StatRecord} (h : r'.text = r.text) :
    r'.pid = r.pid ∧ r'.comm = r.comm ∧ r'.state = r.state ∧ r'.fields.take 21 = r.fields.take 21 := by
  obtain ⟨hopening, hclosing, hfront, hcomm, hbehind⟩ := r.split_text
  obtain ⟨hopening', hclosing', hfront', hcomm', hbehind'⟩ := r'.split_text
  rw [h] at hopening' hclosing' hfront' hcomm' hbehind'
  have hlength : r'.front.length = r.front.length :=
    Option.some.inj (hopening'.symm.trans hopening)
  have hcommLength : r'.comm.length = r.comm.length := by
    have := Option.some.inj (hclosing'.symm.trans hclosing)
    omega
  rw [hlength, hcommLength] at hbehind' hcomm'
  rw [hlength] at hfront'
  have hpid : r'.pid.toInt = r.pid.toInt := by
    have := r'.parseSigned_pid
    rw [← hfront', hfront, r.parseSigned_pid] at this
    exact (Option.some.inj this).symm
  have hfields := r'.fields_behind
  rw [← hbehind', hbehind, r.fields_behind] at hfields
  obtain ⟨hstate, hrest⟩ := List.cons.inj (Option.some.inj hfields)
  exact ⟨Int32.toInt_inj.mp hpid, hcomm'.symm.trans hcomm, (List.singleton_inj.mp hstate).symm, hrest.symm⟩

/-- A record is parsed into its fields, and its text is split in no other way. -/
theorem parse_exact (r : StatRecord) {utime stime threads starttime : Nat} {rss : Int}
    (h : Values r utime stime threads starttime rss) :
    parseProcess r.text =
        some
          { pid := r.pid
            name := r.comm
            state := r.state
            ticks := UInt64.ofNat (utime + stime)
            starttime := UInt64.ofNat starttime
            rssPages := UInt64.ofNat rss.toNat
            threads := UInt32.ofNat threads } ∧
      ∀ r' : StatRecord, r'.text = r.text → r'.pid = r.pid ∧ r'.comm = r.comm ∧ r'.state = r.state ∧
        r'.fields.take 21 = r.fields.take 21 := by
  refine ⟨?_, fun r' => split_unique⟩
  obtain ⟨hopening, hclosing, hfront, hcomm, hbehind⟩ := r.split_text
  have hpid := r.pid_pos
  have hguard : ¬ (r.front.length + 1 + r.comm.length ≤ r.front.length ∨ r.front.length < 2) := by
    have hne := List.length_pos_iff.mpr (Decimal.numeral_ne_nil r.pid.toInt.toNat)
    have hlength : r.front.length = (Decimal.numeral r.pid.toInt.toNat).length + 1 :=
      List.length_append
    omega
  have hdiff : r.front.length + 1 + r.comm.length - r.front.length - 1 = r.comm.length := by omega
  unfold parseProcess
  rw [hopening, hclosing]
  simp only [Option.bind_eq_bind, Option.bind_some]
  rw [if_neg hguard, hfront, r.parseSigned_pid, hdiff, hcomm, hbehind, r.fields_behind]
  simp only [Option.bind_some]
  rw [if_neg (not_le.mpr hpid)]
  exact r.processFields_record h

/-- A process that calls itself by what looks like a record. -/
def disguised : StatRecord where
  pid := 42
  comm := lit ") R 1 (a) S 2"
  state := ch 'S'
  fields := List.replicate 20 (lit "7") ++ [lit "-3"]
  newline := true
  pid_pos := by decide
  state_ok := by decide
  fields_length := by decide
  fields_ok := by
    intro f hf
    rcases List.mem_append.mp hf with hf | hf
    · obtain rfl := (List.mem_replicate.mp hf).2
      refine ⟨⟨by decide, fun c hc => ?_⟩, fun c hc => ?_⟩
      all_goals
        obtain rfl := List.mem_singleton.mp hc
        decide
    · obtain rfl := List.mem_singleton.mp hf
      refine ⟨⟨by decide, fun c hc => ?_⟩, fun c hc => ?_⟩
      all_goals
        rcases List.mem_pair.mp hc with rfl | rfl
        all_goals decide

theorem parse_exact_disguised :
    (parseProcess (lit "42 () R 1 (a) S 2) S 7 7 7 7 7 7 7 7 7 7 7 7 7 7 7 7 7 7 7 7 -3\n")).map
      (fun p => (p.name, p.ticks, p.rssPages)) = some (lit ") R 1 (a) S 2", 14, 0) := by
  have hseven : Unsigned (lit "7") 7 := ⟨by decide, by decide, by decide⟩
  have hrss : Signed (lit "-3") (-3) := .inr ⟨lit "3", 3, rfl, ⟨by decide, by decide, by decide⟩, rfl⟩
  have h := (parse_exact disguised
    { utime_text := hseven, stime_text := hseven, threads_text := hseven, starttime_text := hseven
      rss_text := hrss, ticks_lt := by decide, threads_lt := by decide, starttime_lt := by decide
      rss_range := by decide }).1
  exact congrArg (Option.map fun p => (p.name, p.ticks, p.rssPages)) h

end StatRecord

end WebHtop.Server.Collectors
