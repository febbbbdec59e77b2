import WebHtop.Lib.Utf8
import WebHtop.Common.Arithmetic

/-!
# The canvas

`Sanitize`, `Utf8` and `Canvas` of client/ui/terminal_ui.cpp. A canvas carries what the
renderer relies on: as many cells as it has places, a glyph of the fixed repertoire in each,
and no write outside. Coordinates, sizes and limits are any integers.
-/

namespace WebHtop.Client.Ui

open WebHtop.Lib WebHtop.Common

/-! ## Glyphs -/

/-- A character of one column. -/
abbrev Printable := {c : UInt8 // 32 ≤ c ∧ c < 127}

/-- Remote text as data, never as terminal instructions. -/
def sanitize (text : Bytes) : List Printable :=
  text.map fun c => if h : 32 ≤ c ∧ c < 127 then ⟨c, h⟩ else ⟨ch '?', by decide⟩

def sanitized (text : Bytes) : Bytes := (sanitize text).map Subtype.val

/-- The box-drawing characters of the renderer. -/
def boxDrawing : List Char := ['─', '│', '┌', '┐', '└', '┘', '━']

/-- What may stand in a cell: printable ASCII, a box-drawing character, or a block. -/
def Drawable (g : UInt32) : Prop :=
  (32 ≤ g.toNat ∧ g.toNat ≤ 126) ∨ g ∈ boxDrawing.map Char.val ∨
    (0x2581 ≤ g.toNat ∧ g.toNat ≤ 0x2588)

instance (g : UInt32) : Decidable (Drawable g) := inferInstanceAs (Decidable (_ ∨ _ ∨ _))

/-- `char32_t` as far as it is drawn. -/
abbrev Glyph := {g : UInt32 // Drawable g}

def glyph (c : Char) (h : Drawable c.val := by decide) : Glyph := ⟨c.val, h⟩

theorem Printable.drawable (c : Printable) : Drawable c.val.toUInt32 := by
  obtain ⟨c, h0, h1⟩ := c
  have hlow : 32 ≤ c.toNat := UInt8.le_iff_toNat_le.mp h0
  have hhigh : c.toNat < 127 := UInt8.lt_iff_toNat_lt.mp h1
  left
  rw [UInt8.toNat_toUInt32]
  exact ⟨hlow, Nat.le_of_lt_succ hhigh⟩

def Printable.glyph (c : Printable) : Glyph := ⟨c.val.toUInt32, c.drawable⟩

inductive Color where
  | normal
  | muted
  | cyan
  | green
  | amber
  | red
  | white
  deriving DecidableEq

structure Cell where
  glyph : Glyph := Ui.glyph ' '
  color : Color := .normal

instance : Inhabited Cell := ⟨{}⟩

/-- The bytes of a character up to U+FFFF. -/
def utf8 (c : UInt32) : Bytes :=
  if c < 128 then [c.toUInt8]
  else if c < 2048 then
    [((0xc0 : UInt32) ||| (c >>> 6)).toUInt8, ((0x80 : UInt32) ||| (c &&& 63)).toUInt8]
  else
    [((0xe0 : UInt32) ||| (c >>> 12)).toUInt8, ((0x80 : UInt32) ||| ((c >>> 6) &&& 63)).toUInt8,
      ((0x80 : UInt32) ||| (c &&& 63)).toUInt8]

/-! ## Canvas -/

/-- `written` has the index of every cell that was assigned, the last first. -/
structure Canvas (w h : Nat) where
  cells : List Cell
  written : List Nat
  size : cells.length = w * h
  inside : ∀ i ∈ written, i < cells.length

/-- `static_cast<int>` of a size. -/
def toInt (n : Nat) : Int := Int.bmod n (2 ^ 32)

/-- The integers from `a` on that are below `b`. -/
def span (a b : Int) : List Int := (List.range (b - a).toNat).map fun i => a + i

def clampInt (v lo hi : Int) : Int := if v < lo then lo else if hi < v then hi else v

/-- An int as a double. -/
def real {D : Type} [Double D] (i : Int) : D := Double.ofInt64 (Int64.ofInt i)

theorem clampInt_bounds (v : Int) {lo hi : Int} (h : lo ≤ hi) :
    lo ≤ clampInt v lo hi ∧ clampInt v lo hi ≤ hi := by
  unfold clampInt
  split
  · omega
  · split <;> omega

theorem index_lt {w h : Nat} {x y : Int} (hx : 0 ≤ x ∧ x < w) (hy : 0 ≤ y ∧ y < h) :
    (y * w + x).toNat < w * h := by
  obtain ⟨x, rfl⟩ := Int.eq_ofNat_of_zero_le hx.1
  obtain ⟨y, rfl⟩ := Int.eq_ofNat_of_zero_le hy.1
  have hxw : x < w := by omega
  have hyh : y + 1 ≤ h := by omega
  have hrow := Nat.mul_le_mul_right w hyh
  have hindex : ((y : Int) * w + x).toNat = y * w + x := by
    rw [← Int.natCast_mul, ← Int.natCast_add, Int.toNat_natCast]
  rw [hindex, Nat.mul_comm w h]
  rw [Nat.add_mul, Nat.one_mul] at hrow
  omega

namespace Canvas

variable {D : Type} [Arithmetic D] {w h : Nat}

def blank (w h : Nat) : Canvas w h where
  cells := List.replicate (w * h) {}
  written := []
  size := List.length_replicate
  inside := by simp

def put (c : Canvas w h) (x y : Int) (glyph : Glyph) (color : Color := .normal) : Canvas w h :=
  if hin : (0 ≤ x ∧ x < w) ∧ 0 ≤ y ∧ y < h then
    let i := (y * w + x).toNat
    { cells := c.cells.set i { glyph, color }
      written := i :: c.written
      size := by rw [List.length_set, c.size]
      inside := by
        intro j hj
        rw [List.length_set]
        rcases List.mem_cons.mp hj with rfl | hj
        · rw [c.size]
          exact index_lt hin.1 hin.2
        · exact c.inside j hj }
  else c

/-- The loop of Text: `limit--` and `x++` at every character. -/
def putAll (c : Canvas w h) (x y : Int) (color : Color) (limit : Int) :
    List Printable → Canvas w h
  | [] => c
  | p :: rest =>
    if limit ≤ 0 then c
    else (c.put x y p.glyph color).putAll (x + 1) y color (limit - 1) rest

def text (c : Canvas w h) (x y : Int) (text : Bytes) (color : Color := .normal)
    (limit : Int := 10000) : Canvas w h :=
  c.putAll x y color limit (sanitize text)

def box (c : Canvas w h) (x y width height : Int) (title : Bytes) : Canvas w h :=
  let c := (span 1 (width - 1)).foldl
    (fun c i =>
      (c.put (x + i) y (glyph '─') .muted).put (x + i) (y + height - 1) (glyph '─') .muted) c
  let c := (span 1 (height - 1)).foldl
    (fun c i =>
      (c.put x (y + i) (glyph '│') .muted).put (x + width - 1) (y + i) (glyph '│') .muted) c
  let c := c.put x y (glyph '┌') .muted
  let c := c.put (x + width - 1) y (glyph '┐') .muted
  let c := c.put x (y + height - 1) (glyph '└') .muted
  let c := c.put (x + width - 1) (y + height - 1) (glyph '┘') .muted
  c.text (x + 2) y title .cyan (width - 4)

def bar (c : Canvas w h) (x y width : Int) (percent : D) (color : Color := .cyan) : Canvas w h :=
  let filled := Arithmetic.trunc (Arithmetic.div
    (Arithmetic.mul (Arithmetic.clamp percent zero (real 100)) (real width)) (real 100))
  (span 0 width).foldl
    (fun c i =>
      c.put (x + i) y (if i < filled then glyph '━' else glyph '─')
        (if i < filled then color else .muted)) c

/-- The character of one to eight eighths. -/
def eighths (n : Int) (h : 1 ≤ n ∧ n ≤ 8) : Glyph :=
  ⟨UInt32.ofNat (0x2580 + n.toNat), by
    right
    right
    rw [UInt32.toNat_ofNat', Nat.mod_eq_of_lt (by omega)]
    omega⟩

def block (part : D) : Glyph :=
  let n := Arithmetic.trunc (Arithmetic.ceil (Arithmetic.mul part (real 8)))
  eighths (clampInt n 1 8) (clampInt_bounds n (by decide))

def trend (c : Canvas w h) (x y width height : Int) (history : List D) (color : Color)
    (scale : D := real 100) : Canvas w h :=
  let size := (width % 2 ^ 64).toNat
  let start := if history.length > size then history.length - size else 0
  (history.drop start).zipIdx.foldl
    (fun c (n, i) =>
      if Double.isFinite n then
        let bars := Arithmetic.mul
          (Arithmetic.clamp
            (Arithmetic.div n (Arithmetic.max scale (Arithmetic.div (real 1) (real 1000))))
            zero (real 1))
          (real height)
        (span 0 height).foldl
          (fun c j =>
            let part := Arithmetic.sub bars (real j)
            if Double.lt zero part then
              c.put (x + toInt i) (y + height - 1 - j) (block part) color
            else c) c
      else c) c

/-! ## String -/

def row (c : Canvas w h) (y : Nat) : List Cell := (c.cells.drop (y * w)).take w

end Canvas

/-- The entry of `colors`. -/
def Color.code : Color → Bytes
  | normal => lit "\x1b[38;2;172;185;199m"
  | muted => lit "\x1b[38;2;73;91;112m"
  | cyan => lit "\x1b[38;2;84;196;208m"
  | green => lit "\x1b[38;2;135;192;143m"
  | amber => lit "\x1b[38;2;219;175;97m"
  | red => lit "\x1b[38;2;227;123;128m"
  | white => lit "\x1b[38;2;228;235;241m"

def opening : Bytes := lit "\x1b[H\x1b[48;2;13;19;28m"

def closing : Bytes := lit "\x1b[0m"

def newline (ansi : Bool) : Bytes := if ansi then lit "\r\n" else lit "\n"

/-- The cells of a row behind one of color `current`. -/
def rowText (ansi : Bool) (current : Color) : List Cell → Bytes
  | [] => []
  | cell :: cells =>
    let change := ansi && current ≠ cell.color
    (if change then cell.color.code else []) ++ utf8 cell.glyph ++
      rowText ansi (if change then cell.color else current) cells

namespace Canvas

def string (c : Canvas w h) (ansi : Bool) : Bytes :=
  (if ansi then opening else []) ++
    ((List.range h).flatMap fun y =>
      (if ansi then Color.white.code else []) ++ rowText ansi .white (c.row y) ++
        if y + 1 < h then newline ansi else []) ++
    if ansi then closing else []

end Canvas

/-! ## Without the escape sequences -/

/-- The fixed escape sequences of the renderer. -/
def escapes : List Bytes :=
  [opening, closing, Color.code .normal, Color.code .muted, Color.code .cyan, Color.code .green,
    Color.code .amber, Color.code .red, Color.code .white]

/-- The text without these sequences, behind `skip` bytes of one. -/
def strip : Nat → Bytes → Bytes
  | _, [] => []
  | skip + 1, _ :: t => strip skip t
  | 0, c :: t =>
    match escapes.find? fun e => e.isPrefixOf (c :: t) with
    | some e => strip (e.length - 1) t
    | none => c :: strip 0 t

theorem strip_skip (s t : Bytes) : strip s.length (s ++ t) = strip 0 t := by
  induction s with
  | nil => rfl
  | cons c s ih => exact ih

/-- No sequence is the beginning of another one. -/
theorem escapes_separate : ∀ e ∈ escapes, ∀ e' ∈ escapes, e <+: e' → e = e' := by
  decide

theorem escapes_head : ∀ e ∈ escapes, e.head? = some 0x1b := by
  decide

theorem strip_escape {e : Bytes} (he : e ∈ escapes) (t : Bytes) : strip 0 (e ++ t) = strip 0 t := by
  have hfind : escapes.find? (fun e' => e'.isPrefixOf (e ++ t)) = some e := by
    cases h : escapes.find? fun e' => e'.isPrefixOf (e ++ t) with
    | none =>
      have := List.find?_eq_none.mp h e he
      exact absurd (List.isPrefixOf_iff_prefix.mpr (List.prefix_append e t)) this
    | some e' =>
      have hfound := List.find?_some (p := fun e' : Bytes => e'.isPrefixOf (e ++ t)) h
      have hprefix : e' <+: e ++ t := List.isPrefixOf_iff_prefix.mp hfound
      have hmem := List.mem_of_find?_eq_some h
      rcases List.prefix_or_prefix_of_prefix hprefix (List.prefix_append e t) with hle | hle
      · rw [escapes_separate e' hmem e he hle]
      · rw [escapes_separate e he e' hmem hle]
  have hhead := escapes_head e he
  cases e with
  | nil => cases hhead
  | cons c s =>
    rw [List.cons_append, strip]
    rw [List.cons_append] at hfind
    rw [hfind]
    exact strip_skip s t

theorem strip_plain {c : UInt8} (h : c ≠ 0x1b) (t : Bytes) : strip 0 (c :: t) = c :: strip 0 t := by
  have hfind : escapes.find? (fun e => e.isPrefixOf (c :: t)) = none := by
    refine List.find?_eq_none.mpr fun e he hprefix => ?_
    have hhead := escapes_head e he
    obtain ⟨s, hs⟩ := List.isPrefixOf_iff_prefix.mp hprefix
    cases e with
    | nil => cases hhead
    | cons c' s' =>
      obtain ⟨rfl, -⟩ := List.cons.inj hs
      exact h (Option.some.inj hhead)
  rw [strip, hfind]

theorem strip_text {s : Bytes} (h : ∀ c ∈ s, c ≠ 0x1b) (t : Bytes) :
    strip 0 (s ++ t) = s ++ strip 0 t := by
  induction s with
  | nil => rfl
  | cons c s ih =>
    rw [List.forall_mem_cons] at h
    rw [List.cons_append, strip_plain h.1, ih h.2, List.cons_append]

/-! ## The text of a canvas -/

/-- The repertoire as a list. -/
def drawables : List UInt32 :=
  (List.range' 32 95 ++ List.range' 0x2581 8).map UInt32.ofNat ++ boxDrawing.map Char.val

theorem mem_drawables (g : Glyph) : g.val ∈ drawables := by
  obtain ⟨g, hg⟩ := g
  have hself : UInt32.ofNat g.toNat = g := UInt32.ofNat_toNat
  rcases hg with hascii | hbox | hblock
  · refine List.mem_append_left _ (List.mem_map.mpr ⟨g.toNat, ?_, hself⟩)
    refine List.mem_append_left _ (List.mem_range'_1.mpr ?_)
    omega
  · exact List.mem_append_right _ hbox
  · refine List.mem_append_left _ (List.mem_map.mpr ⟨g.toNat, ?_, hself⟩)
    refine List.mem_append_right _ (List.mem_range'_1.mpr ?_)
    omega

theorem drawables_valid : drawables.all (fun g => decide g.isValidChar) = true := by
  decide

theorem glyph_valid (g : Glyph) : g.val.isValidChar :=
  of_decide_eq_true (List.all_eq_true.mp drawables_valid g.val (mem_drawables g))

/-- A glyph as a Unicode character. -/
def Glyph.char (g : Glyph) : Char := ⟨g.val, glyph_valid g⟩

theorem drawables_utf8 : drawables.all (fun g =>
    decide (utf8 g = Utf8.encodeNat g.toNat) && (utf8 g).all fun b => b != 0x1b) = true := by
  decide

theorem glyph_utf8 (g : Glyph) :
    utf8 g.val = Utf8.encodeNat g.val.toNat ∧ ∀ b ∈ utf8 g.val, b ≠ 0x1b := by
  have hg := List.all_eq_true.mp drawables_utf8 g.val (mem_drawables g)
  obtain ⟨hencode, hplain⟩ := Bool.and_eq_true_iff.mp hg
  refine ⟨of_decide_eq_true hencode, fun b hb => ?_⟩
  simpa using List.all_eq_true.mp hplain b hb

theorem utf8_encode (g : Glyph) : utf8 g.val = Utf8.encode (Glyph.char g) :=
  (glyph_utf8 g).1

theorem utf8_plain (g : Glyph) : ∀ b ∈ utf8 g.val, b ≠ 0x1b :=
  (glyph_utf8 g).2

theorem code_mem (color : Color) : color.code ∈ escapes := by
  cases color <;> simp [escapes]

/-- The characters of some cells. -/
def chars (cells : List Cell) : List Char := cells.map fun cell => Glyph.char cell.glyph

theorem strip_rowText (ansi : Bool) (current : Color) (cells : List Cell) (t : Bytes) :
    strip 0 (rowText ansi current cells ++ t) = Utf8.encodeAll (chars cells) ++ strip 0 t := by
  induction cells generalizing current with
  | nil => rfl
  | cons cell cells ih =>
    have hcells : Utf8.encodeAll (chars (cell :: cells)) =
        utf8 cell.glyph ++ Utf8.encodeAll (chars cells) := by
      rw [utf8_encode]
      exact Utf8.encodeAll_cons _ _
    rw [hcells, rowText]
    cases ansi && decide (current ≠ cell.color) with
    | true =>
      simp only [↓reduceIte, List.append_assoc]
      rw [strip_escape (code_mem _), strip_text (utf8_plain _), ih]
    | false =>
      simp only [Bool.false_eq_true, ↓reduceIte, List.nil_append, List.append_assoc]
      rw [strip_text (utf8_plain _), ih]

theorem newline_plain (ansi : Bool) : ∀ b ∈ newline ansi, b ≠ 0x1b := by
  have hplain : (newline ansi).all (fun b => b != 0x1b) = true := by cases ansi <;> rfl
  intro b hb
  simpa using List.all_eq_true.mp hplain b hb

theorem intercalate_snoc (sep : Bytes) (lines : List Bytes) (last : Bytes) :
    sep.intercalate (lines ++ [last]) = (lines.flatMap fun line => line ++ sep) ++ last := by
  induction lines with
  | nil => simp
  | cons line lines ih =>
    rw [List.flatMap_cons, List.cons_append]
    cases lines with
    | nil => simp [List.intercalate]
    | cons line' lines =>
      rw [List.cons_append, List.intercalate_cons_cons, ← List.cons_append, ih]
      simp only [List.append_assoc]

namespace Canvas

variable {w h : Nat}

/-- The rows as text. -/
def lines (c : Canvas w h) : List (List Char) := (List.range h).map fun y => chars (c.row y)

theorem length_row (c : Canvas w h) {y : Nat} (hy : y < h) : (c.row y).length = w := by
  have hrow := Nat.mul_le_mul_right w (show y + 1 ≤ h from hy)
  rw [Nat.add_mul, Nat.one_mul] at hrow
  rw [row, List.length_take, List.length_drop, c.size, Nat.mul_comm w h]
  omega

theorem strip_guarded {e : Bytes} (he : e ∈ escapes) (ansi : Bool) (t : Bytes) :
    strip 0 ((if ansi then e else []) ++ t) = strip 0 t := by
  cases ansi with
  | true => exact strip_escape he t
  | false => rfl

/-- What String writes for a row, before the line break. -/
def rowString (c : Canvas w h) (ansi : Bool) (y : Nat) : Bytes :=
  (if ansi then Color.white.code else []) ++ rowText ansi .white (c.row y)

theorem strip_rowString (c : Canvas w h) (ansi : Bool) (y : Nat) (t : Bytes) :
    strip 0 (c.rowString ansi y ++ t) = Utf8.encodeAll (chars (c.row y)) ++ strip 0 t := by
  rw [rowString, List.append_assoc, strip_guarded (code_mem _), strip_rowText]

theorem strip_rows (c : Canvas w h) (ansi : Bool) (ys : List Nat) (t : Bytes) :
    strip 0 ((ys.flatMap fun y => c.rowString ansi y ++ newline ansi) ++ t) =
      (ys.flatMap fun y => Utf8.encodeAll (chars (c.row y)) ++ newline ansi) ++ strip 0 t := by
  induction ys with
  | nil => rfl
  | cons y ys ih =>
    simp only [List.flatMap_cons, List.append_assoc]
    rw [strip_rowString, strip_text (newline_plain ansi), ih]

theorem string_eq (c : Canvas w (h + 1)) (ansi : Bool) :
    c.string ansi = (if ansi then opening else []) ++
      (((List.range h).flatMap fun y => c.rowString ansi y ++ newline ansi) ++
        (c.rowString ansi h ++ ((if ansi then closing else []) ++ []))) := by
  have hbreaks : ((List.range h).flatMap fun y =>
      (if ansi then Color.white.code else []) ++ rowText ansi .white (c.row y) ++
        if y + 1 < h + 1 then newline ansi else []) =
      (List.range h).flatMap fun y => c.rowString ansi y ++ newline ansi := by
    refine List.flatMap_congr fun y hy => ?_
    rw [if_pos (Nat.succ_lt_succ (List.mem_range.mp hy)), rowString]
  rw [string, List.range_succ, List.flatMap_append, hbreaks]
  simp only [List.flatMap_cons, List.flatMap_nil, lt_irrefl, ↓reduceIte, List.append_nil,
    List.append_assoc, rowString]

/-- Without the escape sequences a canvas is its rows, with line breaks between them. -/
theorem strip_string (c : Canvas w (h + 1)) (ansi : Bool) :
    strip 0 (c.string ansi) = (newline ansi).intercalate (c.lines.map Utf8.encodeAll) := by
  have hlines : c.lines.map Utf8.encodeAll =
      (List.range h).map (fun y => Utf8.encodeAll (chars (c.row y))) ++
        [Utf8.encodeAll (chars (c.row h))] := by
    rw [lines, List.map_map, List.range_succ, List.map_append]
    rfl
  rw [string_eq, strip_guarded (by simp [escapes]), strip_rows, strip_rowString,
    strip_guarded (by simp [escapes]), hlines, intercalate_snoc, List.flatMap_map]
  simp [strip]

end Canvas
end WebHtop.Client.Ui
