import WebHtop.Common.Json.Reread
import WebHtop.Common.Json.Truncation
import WebHtop.Common.Models.Sizes
import WebHtop.Lib.Istream
import WebHtop.Tools.Scheduler

/-!
# The lines of the reader

The text that tools/scheduler/main.cpp writes, held against the parser of the program.
-/

namespace WebHtop.Tools

open WebHtop.Lib WebHtop.Common WebHtop.Common.JSONValue

variable {D : Type}

/-- The numbers with a comma in front of each but the first. -/
def separated : List UInt64 → Bytes
  | [] => []
  | n :: ns => intToString n.toNat ++ ns.flatMap fun n => lit "," ++ intToString n.toNat

/-- A line without its end. -/
def Line.text (l : Line) (cpus : Nat) : Bytes :=
  lit "\x7b\"type\":\"scheduler_histogram\",\"scope\":\"system\",\"timestamp\":" ++
    intToString l.timestamp.toInt ++ lit ",\"samples\":" ++ intToString (l.samples cpus).toNat ++
    lit ",\"unmatched_switches\":" ++ intToString (l.unmatchedSwitches cpus).toNat ++
    lit ",\"update_failures\":" ++ intToString (l.updateFailures cpus).toNat ++
    lit ",\"log2_us_buckets\":[" ++ separated (l.log2UsBuckets cpus) ++ lit "]\x7d"

/-- A column in the text of a line, with what is written in front of its number. -/
structure Piece where
  front : Bytes
  column : Column

/-- The operands of a line in their order, up to the last number. -/
def Line.pieces (l : Line) : List Piece :=
  [⟨lit "\x7b\"type\":\"scheduler_histogram\",\"scope\":\"system\",\"timestamp\":" ++
      intToString l.timestamp.toInt ++ lit ",\"samples\":", .counters 0⟩,
    ⟨lit ",\"unmatched_switches\":", .counters 1⟩, ⟨lit ",\"update_failures\":", .counters 2⟩] ++
    (List.range 64).map fun bucket =>
      ⟨if bucket = 0 then lit ",\"log2_us_buckets\":[" else lit ",", .histogram bucket⟩

/-- The lookups of a column are complete. -/
def Line.complete (l : Line) (cpus : Nat) (column : Column) : Bool :=
  (List.range cpus).all fun cpu => (l.taken.get (column cpu)).isSome

/-- The operands from left to right, until ReadCounter throws. -/
def Line.written (l : Line) (cpus : Nat) : List Piece → Bytes
  | [] => []
  | piece :: pieces =>
    piece.front ++
      if l.complete cpus piece.column then
        intToString (l.total cpus piece.column).toNat ++ l.written cpus pieces
      else []

/-- The line in which a lookup has failed. -/
def Profiler.brokenLine (cpus : Nat) (p : Profiler) : Option Bytes :=
  p.broken.map fun l => l.written cpus l.pieces

/-- What has been written to `std::cout`. -/
def Profiler.output (cpus : Nat) (p : Profiler) : Bytes :=
  (p.reports.flatMap fun r => r.line.text cpus ++ lit "\n") ++ (p.brokenLine cpus).getD []

/-- The document of a line. -/
def Line.tree (l : Line) (cpus : Nat) : JSONValue D := .object [
  (lit "type", .string (lit "scheduler_histogram")),
  (lit "scope", .string (lit "system")),
  (lit "timestamp", .int64 l.timestamp),
  (lit "samples", .uint64 (l.samples cpus)),
  (lit "unmatched_switches", .uint64 (l.unmatchedSwitches cpus)),
  (lit "update_failures", .uint64 (l.updateFailures cpus)),
  (lit "log2_us_buckets", .array ((l.log2UsBuckets cpus).map .uint64))]

section

variable [Double D]

theorem serializeItems_separated (level : Nat) (n : UInt64) (ns : List UInt64) :
    serializeItems (D := D) (-1) level ((n :: ns).map .uint64) = some (separated (n :: ns)) := by
  have hindent (level : Nat) : appendIndent (-1) level = [] := rfl
  induction ns generalizing n with
  | nil => simp [serializeItems, serializeTo, separated, hindent]
  | cons m ns ih =>
    rw [List.map_cons, serializeItems, serializeTo, ih]
    simp [separated, hindent]

omit [Double D] in
theorem lit_append (s t : String) (b : Bytes) : lit s ++ (lit t ++ b) = lit (s ++ t) ++ b := by
  rw [← List.append_assoc, lit, lit, lit, ← List.map_append, ← String.toList_append]

omit [Double D] in
theorem escaped_plain {s : String} (h : (lit s).all isPlain = true) :
    appendEscapedString (lit s) = lit ("\"" ++ s ++ "\"") := by
  have hsplit : lit ("\"" ++ s ++ "\"") = lit "\"" ++ lit s ++ lit "\"" := by
    simp [lit, String.toList_append]
  rw [appendEscapedString, escapeLoop_plain h, hsplit]
  rfl

theorem Line.toString_tree (l : Line) (cpus : Nat) :
    (l.tree (D := D) cpus).toString = some (l.text cpus) := by
  obtain ⟨n, ns, hbuckets⟩ : ∃ n ns, l.log2UsBuckets cpus = n :: ns := ⟨_, _, rfl⟩
  have hindent (level : Nat) : appendIndent (-1) level = [] := rfl
  have hcolon : ¬ 0 ≤ (-1 : Int32).toInt := by decide
  have hitems := serializeItems_separated (D := D) 1 n ns
  rw [List.map_cons] at hitems
  simp only [tree, JSONValue.toString, serializeTo, serializeMembers, hbuckets, hindent, if_neg hcolon,
    List.isEmpty_cons, List.isEmpty_nil, List.map_cons, Bool.false_eq_true, ite_false, ite_true]
  simp only [Nat.zero_add, hitems, bind, Option.bind_some, Option.some.injEq, text, hbuckets,
    List.append_assoc, List.nil_append]
  simp (disch := decide) only [escaped_plain, lit_append, String.reduceAppend]
  rfl

/-! ## Reading the lines -/

/-- What a reader of the line gets. -/
def Line.document (l : Line) (cpus : Nat) : JSONValue D := .object [
  (lit "type", .string (lit "scheduler_histogram")),
  (lit "scope", .string (lit "system")),
  (lit "timestamp", integer l.timestamp.toInt),
  (lit "samples", .uint64 (l.samples cpus)),
  (lit "unmatched_switches", .uint64 (l.unmatchedSwitches cpus)),
  (lit "update_failures", .uint64 (l.updateFailures cpus)),
  (lit "log2_us_buckets", .array ((l.log2UsBuckets cpus).map .uint64))]

omit [Double D] in
theorem rereadItems_uint64 (ns : List UInt64) :
    rereadItems (D := D) integer .double (ns.map .uint64) = ns.map .uint64 := by
  induction ns with
  | nil => rfl
  | cons n ns ih =>
    rw [List.map_cons, rereadItems, ih]
    exact congrArg (· :: _) (back_uint64 n)

omit [Double D] in
theorem Line.back_tree (l : Line) (cpus : Nat) :
    back .double (l.tree (D := D) cpus) = l.document cpus := by
  have hnumber (u : UInt64) : back (D := D) .double (.uint64 u) = .uint64 u := back_uint64 u
  simp only [back] at hnumber
  simp only [back, tree, document, reread, rereadMembers, rereadItems_uint64]
  simp only [reread] at hnumber
  simp only [hnumber]

theorem sum_widths_le (ns : List UInt64) :
    ((ns.map fun n => intWidth n.toNat).map (· + 1)).sum ≤ 21 * ns.length := by
  induction ns with
  | nil => exact Nat.le_refl 0
  | cons n ns ih =>
    have hn := intWidth_uint64_le n
    rw [List.map_cons, List.map_cons, List.sum_cons, List.length_cons]
    omega

/-- The tree of a line is small. -/
theorem Line.tree_written (l : Line) (cpus : Nat) : ∃ width, Written (l.tree (D := D) cpus)
    [.string (lit "scheduler_histogram"), .string (lit "system")] width 72 3 ∧ width ≤ 2000 := by
  have hlength : (l.log2UsBuckets cpus).length = 64 := by
    rw [log2UsBuckets, List.length_map, List.length_range]
  have hrows := Written.rows (Written.uint64 (D := D)) (l.log2UsBuckets cpus)
  rw [hlength] at hrows
  have hwidths := sum_widths_le (l.log2UsBuckets cpus)
  have hlist : listWidth ((l.log2UsBuckets cpus).map fun n => intWidth n.toNat) ≤ 1345 := by
    unfold listWidth
    split
    · decide
    · omega
  have hnone : (l.log2UsBuckets cpus).flatMap (fun _ => ([] : List (Common.Part D))) = [] := by simp
  rw [hnone] at hrows
  refine ⟨_, .object 102 (by rfl) (.cons (.string _) (.cons (.string _) (.cons (.int64 _)
    (.cons (.uint64 _) (.cons (.uint64 _) (.cons (.uint64 _) (.cons hrows .nil))))))), ?_⟩
  have hi := intWidth_int64_le l.timestamp
  have h0 := intWidth_uint64_le (l.samples cpus)
  have h1 := intWidth_uint64_le (l.unmatchedSwitches cpus)
  have h2 := intWidth_uint64_le (l.updateFailures cpus)
  have htype : literalWidth (lit "scheduler_histogram") = 21 := by decide
  have hscope : literalWidth (lit "system") = 8 := by decide
  omega

variable [LawfulDouble D]

theorem Line.parse_text (l : Line) (cpus : Nat) :
    parse (D := D) (l.text cpus) = some (l.document cpus) := by
  obtain ⟨width, hw, hwidth⟩ := l.tree_written (D := D) cpus
  have htext := l.toString_tree (D := D) cpus
  have hlength := (toString_compact htext).1
  rw [hw.width] at hlength
  have hclean : (l.tree (D := D) cpus).Clean fun _ => False := by
    refine (hw.clean _).mpr ?_
    simp only [List.forall_mem_cons]
    exact ⟨Json.wellFormed_of_ascii (by decide), Json.wellFormed_of_ascii (by decide),
      List.forall_mem_nil _⟩
  rw [← l.back_tree cpus]
  exact parse_toString (fun _ _ h => h.elim) (fun _ => ⟨by simp [nodes], by simp [depth], by simp [KeysWithin]⟩) hclean
    (hw.depth.trans (by decide)) (hw.nodes.trans_le (by decide)) hw.keys htext (by omega)

end

theorem Line.not_mem_text (l : Line) (cpus : Nat) : (0x0A : UInt8) ∉ l.text cpus := fun h =>
  absurd ((toString_compact (l.toString_tree (D := Integral) cpus)).2 _ h) (by decide)

/-! ## A line that is broken off -/

/-- The operands with all their numbers. -/
def Line.spelt (l : Line) (cpus : Nat) (pieces : List Piece) : Bytes :=
  pieces.flatMap fun piece => piece.front ++ intToString (l.total cpus piece.column).toNat

theorem Line.written_prefix (l : Line) (cpus : Nat) (pieces : List Piece) :
    l.written cpus pieces <+: l.spelt cpus pieces := by
  induction pieces with
  | nil => exact List.prefix_refl _
  | cons piece pieces ih =>
    rw [written, spelt, List.flatMap_cons, List.append_assoc, List.prefix_append_right_inj]
    split
    · rw [List.prefix_append_right_inj]
      exact ih
    · exact List.nil_prefix

/-- The text of a line ends behind its operands. -/
theorem Line.text_eq (l : Line) (cpus : Nat) : l.text cpus = l.spelt cpus l.pieces ++ lit "]\x7d" := by
  have hbuckets : l.spelt cpus ((List.range 64).map fun bucket =>
      ⟨if bucket = 0 then lit ",\"log2_us_buckets\":[" else lit ",", .histogram bucket⟩) =
      lit ",\"log2_us_buckets\":[" ++ separated (l.log2UsBuckets cpus) := by
    rw [spelt, log2UsBuckets, List.range_succ_eq_map, List.map_cons, List.map_cons, List.flatMap_cons,
      separated, List.map_map, List.map_map, List.flatMap_map, List.flatMap_map]
    simp
  rw [spelt, pieces, List.flatMap_append, ← spelt, ← spelt, hbuckets]
  simp [spelt, text, samples, unmatchedSwitches, updateFailures]

/-- The operands end in front of the first number that could not be read. -/
theorem Line.written_cut (l : Line) (cpus : Nat) {pieces : List Piece}
    (h : ∃ piece ∈ pieces, l.complete cpus piece.column = false) :
    ∃ front piece back, pieces = front ++ piece :: back ∧
      (∀ other ∈ front, l.complete cpus other.column = true) ∧
      l.complete cpus piece.column = false ∧
      l.written cpus pieces = l.spelt cpus front ++ piece.front := by
  induction pieces with
  | nil =>
    obtain ⟨_, hnone, _⟩ := h
    cases hnone
  | cons piece pieces ih =>
    cases hcomplete : l.complete cpus piece.column with
    | false =>
      refine ⟨[], piece, pieces, rfl, List.forall_mem_nil _, hcomplete, ?_⟩
      rw [written, hcomplete]
      simp [spelt]
    | true =>
      obtain ⟨other, hother, hmissing⟩ := h
      have hmem : other ∈ pieces := by
        rcases List.mem_cons.mp hother with rfl | hmem
        · rw [hcomplete] at hmissing
          cases hmissing
        · exact hmem
      obtain ⟨front, cut, back, rfl, hfront, hcut, hwritten⟩ := ih ⟨other, hmem, hmissing⟩
      refine ⟨piece :: front, cut, back, rfl, List.forall_mem_cons.mpr ⟨hcomplete, hfront⟩, hcut, ?_⟩
      rw [written, hcomplete, if_pos rfl, hwritten]
      simp [spelt]

/-- What has been written of the line is a beginning of its text, and no document. -/
theorem Line.parse_written [Double D] [LawfulDouble D] (l : Line) (cpus : Nat) :
    (0x0A : UInt8) ∉ l.written cpus l.pieces ∧ l.written cpus l.pieces ≠ [] ∧
      parse (D := D) (l.written cpus l.pieces) = none := by
  obtain ⟨rest, hrest⟩ := l.written_prefix cpus l.pieces
  have htext : l.text cpus = l.written cpus l.pieces ++ (rest ++ lit "]\x7d") := by
    rw [l.text_eq cpus, ← hrest, List.append_assoc]
  refine ⟨fun h => l.not_mem_text cpus ?_, ?_, parse_truncated (l.toString_tree cpus) htext ?_⟩
  · rw [htext]
    exact List.mem_append_left _ h
  · simp [written, pieces, lit]
  · simp [lit]

theorem nodup_cells (cpus : Nat) : (cells cpus).Nodup := by
  have hapart : columns.Pairwise fun a b => ∀ i j, a i ≠ b j := by
    refine List.pairwise_append.mpr ⟨by simp, List.pairwise_map.mpr ?_, ?_⟩
    · exact List.nodup_range.imp fun hne i j h => hne (Cell.histogram.inj h).1
    · simp
  refine List.nodup_flatMap.mpr ⟨fun column hcolumn => Report.Whole.nodup_column hcolumn cpus, ?_⟩
  refine hapart.imp fun {a b} hne => ?_
  intro cell ha hb
  obtain ⟨i, -, rfl⟩ := List.mem_map.mp ha
  obtain ⟨j, -, h⟩ := List.mem_map.mp hb
  exact hne i j h.symm

theorem Line.columns_pieces (l : Line) : l.pieces.map Piece.column = columns := by
  rw [pieces, List.map_append, List.map_map, columns]
  rfl

/-- A line that is broken off lacks a number. -/
theorem Profiler.Orderly.missing {cpus : Nat} {p : Profiler} (h : p.Orderly cpus) {l : Line}
    (hl : p.broken = some l) : ∃ piece ∈ l.pieces, l.complete cpus piece.column = false := by
  obtain ⟨rest, hkeys, hrest⟩ := h.broken l hl
  obtain ⟨cell, rest, rfl⟩ := List.exists_cons_of_ne_nil hrest
  have hcell : cell ∈ cells cpus := by
    rw [← hkeys]
    exact List.mem_append_right _ List.mem_cons_self
  have hnone : l.taken.get cell = none := by
    rw [Table.get_eq_none]
    intro htaken
    have hnodup := nodup_cells cpus
    rw [← hkeys] at hnodup
    exact (List.nodup_append'.mp hnodup).2.2 htaken List.mem_cons_self
  obtain ⟨column, hcolumn, hentry⟩ := List.mem_flatMap.mp hcell
  obtain ⟨cpu, hcpu, rfl⟩ := List.mem_map.mp hentry
  rw [← l.columns_pieces] at hcolumn
  obtain ⟨piece, hpiece, rfl⟩ := List.mem_map.mp hcolumn
  refine ⟨piece, hpiece, List.all_eq_false.mpr ⟨cpu, hcpu, ?_⟩⟩
  rw [hnone]
  exact Bool.false_ne_true

/-- The output of every run is one line a report, and each line is read as its numbers. Where a lookup
has failed, a piece of one more line follows: it ends in front of the first number that could not be
read, and no reader takes it for a document. -/
theorem Profiler.output_parses [Double D] [LawfulDouble D] (cpus : Nat) (moments : List Moment) :
    (Istream.lines ((run cpus moments).output cpus)).map (parse (D := D)) =
        ((run cpus moments).reports.map fun r => some (r.line.document cpus)) ++
          ((run cpus moments).broken.map fun _ => none).toList ∧
      ∀ l, (run cpus moments).broken = some l → ∃ front piece back,
        l.pieces = front ++ piece :: back ∧
        (∀ other ∈ front, l.complete cpus other.column = true) ∧
        l.complete cpus piece.column = false ∧
        (run cpus moments).brokenLine cpus = some (l.spelt cpus front ++ piece.front) := by
  have horderly := run_orderly cpus moments
  generalize run cpus moments = p at horderly
  constructor
  · have houtput : p.output cpus =
        ((p.reports.map fun r => r.line.text cpus).flatMap fun row => row ++ [0x0A]) ++
          (p.brokenLine cpus).getD [] := by
      have hend : lit "\n" = [0x0A] := rfl
      rw [List.flatMap_map, output, hend]
    have hrows : ∀ row ∈ p.reports.map fun r => r.line.text cpus, (0x0A : UInt8) ∉ row := by
      intro row hrow
      obtain ⟨r, -, rfl⟩ := List.mem_map.mp hrow
      exact r.line.not_mem_text cpus
    have hreports : (p.reports.map fun r => r.line.text cpus).map (parse (D := D)) =
        p.reports.map fun r => some (r.line.document cpus) := by
      rw [List.map_map]
      refine List.map_congr_left fun r _ => ?_
      rw [Function.comp_apply, r.line.parse_text cpus]
    rw [houtput, Istream.lines_rows hrows, List.map_append, hreports]
    congr 1
    cases hbroken : p.broken with
    | none => simp [brokenLine, hbroken, Istream.lines]
    | some l =>
      obtain ⟨hend, hne, hparse⟩ := l.parse_written (D := D) cpus
      rw [brokenLine, hbroken, Option.map_some, Option.getD_some,
        Istream.lines_unterminated hne hend, List.map_singleton, hparse]
      rfl
  · intro l hl
    obtain ⟨front, piece, back, hpieces, hfront, hmissing, hwritten⟩ :=
      l.written_cut cpus (horderly.missing hl)
    refine ⟨front, piece, back, hpieces, hfront, hmissing, ?_⟩
    rw [brokenLine, hl, Option.map_some, hwritten]

/-- One line is whole; in the next one the lookup of `unmatched_switches` fails. -/
def cutShort : List Moment :=
  [.handled (.wakeup 0 7 1000 ⟨false, []⟩), .begins 5] ++ List.replicate 67 .looks ++
    [.begins 6, .looks, .fails, .begins 7]

theorem Profiler.output_parses_cutShort :
    (run 1 cutShort).reports.length = 1 ∧
      (run 1 cutShort).brokenLine 1 = some
        (lit "\x7b\"type\":\"scheduler_histogram\",\"scope\":\"system\"," ++
          lit "\"timestamp\":6,\"samples\":0,\"unmatched_switches\":") ∧
      (Istream.lines ((run 1 cutShort).output 1)).map (parse (D := Integral)) =
        ((run 1 cutShort).reports.map fun r => some (r.line.document 1)) ++ [none] := by
  have hbroken : (run 1 cutShort).broken.isSome = true := by decide +kernel
  obtain ⟨l, hl⟩ := Option.isSome_iff_exists.mp hbroken
  have hlines := (output_parses (D := Integral) 1 cutShort).1
  rw [hl] at hlines
  exact ⟨by decide +kernel, by decide +kernel, hlines⟩

end WebHtop.Tools
