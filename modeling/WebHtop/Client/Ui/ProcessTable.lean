import WebHtop.Client.Ui.Render
import WebHtop.Common.Validation

/-!
# The process explorer

What stands in the cells of the process table, in the workspace and on the overview: the processes
that the filter passes, in the order of the view, from the first row that the scroll leaves. The order
is settled by the rows alone, so the sort of the source has no choice where no two processes share a
number.
-/

namespace WebHtop.Client.Ui

open WebHtop.Lib WebHtop.Common

/-! ## Cells -/

namespace Canvas

variable {D : Type} [Arithmetic D] {w h : Nat} {x y : Nat}

def cellAt (c : Canvas w h) (x y : Nat) : Cell := c.cells.getD (y * w + x) default

theorem cellAt_blank (x y : Nat) : (blank w h).cellAt x y = {} := by
  rw [cellAt, blank, List.getD_eq_getElem?_getD, List.getElem?_replicate]
  split <;> rfl

theorem cellAt_put (c : Canvas w h) (hx : x < w) (hy : y < h) (x' y' : Int) (glyph : Glyph)
    (color : Color) : (c.put x' y' glyph color).cellAt x y =
      if x' = x ∧ y' = y then { glyph, color } else c.cellAt x y := by
  unfold put
  split
  · rename_i hin
    obtain ⟨x', rfl⟩ := Int.eq_ofNat_of_zero_le hin.1.1
    obtain ⟨y', rfl⟩ := Int.eq_ofNat_of_zero_le hin.2.1
    have hx' : x' < w := by omega
    have hindex : ((y' : Int) * w + x').toNat = y' * w + x' := by
      rw [← Int.natCast_mul, ← Int.natCast_add, Int.toNat_natCast]
    have hsame : y' * w + x' = y * w + x ↔ (x' : Int) = x ∧ (y' : Int) = y := by
      constructor
      · intro heq
        have hmod := congrArg (· % w) heq
        have hdiv := congrArg (· / w) heq
        simp only [Nat.mul_add_mod_self_right, Nat.mod_eq_of_lt hx', Nat.mod_eq_of_lt hx] at hmod
        simp only [Nat.mul_comm _ w, Nat.mul_add_div (Nat.zero_lt_of_lt hx), Nat.div_eq_of_lt hx',
          Nat.div_eq_of_lt hx] at hdiv
        omega
      · rintro ⟨hx, hy⟩
        rw [Int.ofNat_inj.mp hx, Int.ofNat_inj.mp hy]
    have hlt : y * w + x < c.cells.length := by
      have := index_lt (w := w) (h := h) (x := x) (y := y) (by omega) (by omega)
      rw [c.size]
      rwa [← Int.natCast_mul, ← Int.natCast_add, Int.toNat_natCast] at this
    show (c.cells.set ((y' : Int) * w + x').toNat { glyph, color }).getD (y * w + x) default = _
    rw [List.getD_eq_getElem?_getD, hindex, List.getElem?_set]
    by_cases heq : y' * w + x' = y * w + x
    · rw [if_pos heq, if_pos (heq ▸ hlt), if_pos (hsame.mp heq), Option.getD_some]
    · rw [if_neg heq, if_neg fun h => heq (hsame.mpr h), cellAt, List.getD_eq_getElem?_getD]
  · rename_i hout
    rw [if_neg]
    rintro ⟨rfl, rfl⟩
    exact hout ⟨⟨by omega, by omega⟩, by omega, by omega⟩

/-- The character of a text that falls on a column. -/
def inText (text : Bytes) (x' limit : Int) (x : Nat) : Option Printable :=
  if x' ≤ x ∧ x - x' < limit then (sanitize text)[(x - x').toNat]? else none

theorem cellAt_putAll (c : Canvas w h) (hx : x < w) (hy : y < h) (x' y' : Int) (color : Color)
    (limit : Int) (ps : List Printable) : (c.putAll x' y' color limit ps).cellAt x y =
      if y' = y then
        ((if x' ≤ x ∧ x - x' < limit then ps[(x - x').toNat]? else none).map fun p =>
          { glyph := p.glyph, color }).getD (c.cellAt x y)
      else c.cellAt x y := by
  induction ps generalizing c x' limit with
  | nil => simp [putAll]
  | cons p rest ih =>
    rw [putAll]
    by_cases hlimit : limit ≤ 0
    · rw [if_pos hlimit, if_neg (show ¬ (x' ≤ (x : Int) ∧ (x : Int) - x' < limit) by omega)]
      simp
    · rw [if_neg hlimit, ih, cellAt_put c hx hy]
      by_cases hrow : y' = y
      · simp only [hrow, and_true, ite_true]
        rcases lt_trichotomy (x : Int) x' with hlt | heq | hgt
        · rw [if_neg (by omega), if_neg (by omega), if_neg (by omega)]
        · subst heq
          rw [if_neg (by omega), if_pos (by omega)]
          simp [Int.not_le.mp hlimit]
        · have hindex : ((x : Int) - x').toNat = ((x : Int) - (x' + 1)).toNat + 1 := by omega
          rw [if_neg (show ¬ x' = (x : Int) by omega), hindex, List.getElem?_cons_succ]
          congr 2
          by_cases hfits : (x : Int) - x' < limit
          · rw [if_pos (by omega), if_pos (by omega)]
          · rw [if_neg (by omega), if_neg (by omega)]
      · simp only [hrow, and_false, if_false]

theorem cellAt_text (c : Canvas w h) (hx : x < w) (hy : y < h) (x' y' : Int) (text : Bytes)
    (color : Color) (limit : Int) : (c.text x' y' text color limit).cellAt x y =
      if y' = y then ((inText text x' limit x).map fun p => { glyph := p.glyph, color }).getD
        (c.cellAt x y)
      else c.cellAt x y := cellAt_putAll c hx hy x' y' color limit (sanitize text)

theorem cellAt_text_ne (c : Canvas w h) (hx : x < w) (hy : y < h) {x' y' : Int} {text : Bytes}
    {color : Color} {limit : Int} (h : y' ≠ y) :
    (c.text x' y' text color limit).cellAt x y = c.cellAt x y := by
  rw [cellAt_text c hx hy, if_neg h]

/-- A loop whose turns leave a cell alone. -/
theorem cellAt_foldl {α : Type} {f : Canvas w h → α → Canvas w h} {l : List α} (c : Canvas w h)
    (hf : ∀ c a, a ∈ l → (f c a).cellAt x y = c.cellAt x y) :
    (l.foldl f c).cellAt x y = c.cellAt x y := by
  induction l generalizing c with
  | nil => rfl
  | cons a l ih =>
    rw [List.foldl_cons, ih _ fun c b hb => hf c b (List.mem_cons_of_mem a hb)]
    exact hf c a List.mem_cons_self

theorem mem_span {a b i : Int} (h : i ∈ span a b) : a ≤ i ∧ i < b := by
  obtain ⟨n, hn, rfl⟩ : ∃ n : Nat, (n : Int) < b - a ∧ a + n = i := by simpa [span] using h
  omega

/-- A box leaves alone what is inside and what is above or below. -/
theorem cellAt_box (c : Canvas w h) (hx : x < w) (hy : y < h) {x' y' width height : Int}
    {title : Bytes} (hrow : (y : Int) ≠ y' ∧ (y : Int) ≠ y' + height - 1)
    (hcolumn : (x : Int) ≠ x' ∧ (x : Int) ≠ x' + width - 1 ∨ (y : Int) < y' ∨ y' + height - 1 < y) :
    (c.box x' y' width height title).cellAt x y = c.cellAt x y := by
  have hput (c : Canvas w h) (a b : Int) (g : Glyph) (color : Color) (hne : ¬ (a = x ∧ b = y)) :
      (c.put a b g color).cellAt x y = c.cellAt x y := by
    rw [cellAt_put c hx hy, if_neg hne]
  unfold box
  rw [cellAt_text_ne _ hx hy (by omega), hput _ _ _ _ _ (by omega), hput _ _ _ _ _ (by omega),
    hput _ _ _ _ _ (by omega), hput _ _ _ _ _ (by omega), cellAt_foldl, cellAt_foldl]
  · intro c i hi
    rw [hput _ _ _ _ _ (by omega), hput _ _ _ _ _ (by omega)]
  · intro c i hi
    have := mem_span hi
    rw [hput _ _ _ _ _ (by omega), hput _ _ _ _ _ (by omega)]

/-- A trend stays in its rows. -/
theorem cellAt_trend (c : Canvas w h) (hx : x < w) (hy : y < h) {x' y' width height : Int}
    {history : List D} {color : Color} {scale : D}
    (hrow : (y : Int) < y' ∨ y' + height - 1 < y) :
    (c.trend x' y' width height history color scale).cellAt x y = c.cellAt x y := by
  unfold trend
  refine cellAt_foldl c fun c a _ => ?_
  dsimp only
  split
  · refine cellAt_foldl c fun c j hj => ?_
    have := mem_span hj
    split
    · rw [cellAt_put c hx hy, if_neg (by omega)]
    · rfl
  · rfl

/-- Rows of text, one below the other. -/
theorem cellAt_rows {α : Type} (f : α → Bytes) (color : α → Color) (x' y' limit : Int)
    (hx : x < w) (hy : y < h) (items : List α) (n : Nat) (c : Canvas w h) :
    ((items.zipIdx n).foldl
      (fun c (a, (i : Nat)) => c.text x' (y' + i) (f a) (color a) limit) c).cellAt x y =
      if y' + n ≤ y then
        (items[((y : Int) - (y' + n)).toNat]?.bind fun a => (inText (f a) x' limit x).map fun p =>
          { glyph := p.glyph, color := color a }).getD (c.cellAt x y)
      else c.cellAt x y := by
  induction items generalizing n c with
  | nil => simp
  | cons a items ih =>
    rw [List.zipIdx_cons, List.foldl_cons, ih, cellAt_text c hx hy]
    rcases lt_trichotomy (y : Int) (y' + n) with hlt | heq | hgt
    · rw [if_neg (by omega), if_neg (by omega), if_neg (by omega)]
    · rw [if_neg (by omega), if_pos (by omega), if_pos heq.ge, show ((y : Int) - (y' + n)).toNat = 0 by omega]
      rfl
    · have hindex : ((y : Int) - (y' + n)).toNat = ((y : Int) - (y' + (n + 1 : Nat))).toNat + 1 := by
        omega
      rw [if_pos (by omega), if_neg (by omega), if_pos (by omega), hindex, List.getElem?_cons_succ]

end Canvas

/-! ## The table on the screen -/

section

variable {D : Type} [Arithmetic D] {w h x y : Nat}

def rowColor (p : ProcessInfo D) : Color := if Arithmetic.le (real 100) p.cpuPercent then .amber else .normal

/-- The table from the first row on that the scroll leaves. -/
def scrolled (v : ViewState D) (s : SystemSnapshot D) : List (ProcessInfo D) :=
  (visible v s).drop (min v.scroll.toNat ((visible v s).length - 1))

/-- The cell of a row of the table, `base` where its text has ended. -/
def rowCell (v : ViewState D) (s : SystemSnapshot D) (x' limit : Int) (base : Cell) (i x : Nat) : Cell :=
  ((scrolled v s)[i]?.bind fun p => (Canvas.inText (processText p) x' limit x).map fun c =>
    { glyph := c.glyph, color := rowColor p }).getD base

/-- The table in its box. -/
theorem cellAt_processes (c : Canvas w h) {v : ViewState D} {s : SystemSnapshot D}
    (hv : v.snapshot = some s) (hx : x < w) (hy : y < h) {x' y' width height : Int} {i : Nat}
    (hcolumn : x' + 2 ≤ x ∧ x < x' + width - 1) (hrow : (y : Int) = y' + 2 + i ∧ i + 4 < height) :
    (processes c v x' y' width height).cellAt x y =
      rowCell v s (x' + 2) (width - 4) (c.cellAt x y) i x := by
  unfold processes
  rw [hv]
  dsimp only
  rw [Canvas.cellAt_text_ne _ hx hy (by omega), eachRow]
  refine (Canvas.cellAt_rows processText rowColor (x' + 2) (y' + 2) (width - 4) hx hy _ 0 _).trans ?_
  have hindex : ((y : Int) - (y' + 2 + (0 : Nat))).toNat = i := by omega
  rw [if_pos (by omega), hindex, Canvas.cellAt_text_ne _ hx hy (by omega),
    Canvas.cellAt_box _ hx hy (by omega) (by omega), List.getElem?_take, if_pos (by omega)]
  rfl

/-- The other boxes of the overview end above the table. -/
theorem cellAt_overview (c : Canvas w h) {v : ViewState D} {s : SystemSnapshot D}
    (hv : v.snapshot = some s) (hx : x < w) (hy : y < h) {width height : Int} {i : Nat}
    (hcolumn : (2 : Int) ≤ x ∧ x < width - 1) (hrow : y = 21 + i ∧ i + 26 < height) :
    (overview c v s width height).cellAt x y = rowCell v s 2 (width - 4) (c.cellAt x y) i x := by
  have htext {x' y' limit : Int} {text : Bytes} {color : Color} (c : Canvas w h) (hy' : y' < 19) :
      (c.text x' y' text color limit).cellAt x y = c.cellAt x y :=
    Canvas.cellAt_text_ne c hx hy (by omega)
  have hbox {x' y' width height : Int} {title : Bytes} (c : Canvas w h) (hy' : y' + height ≤ 19)
      (h0 : 0 ≤ height) : (c.box x' y' width height title).cellAt x y = c.cellAt x y :=
    Canvas.cellAt_box c hx hy (by omega) (by omega)
  have htrend {x' y' width height : Int} {history : List D} {color : Color} {scale : D}
      (c : Canvas w h) (hy' : y' + height ≤ 19) :
      (c.trend x' y' width height history color scale).cellAt x y = c.cellAt x y :=
    Canvas.cellAt_trend c hx hy (by omega)
  unfold overview
  dsimp only
  rw [cellAt_processes _ hv hx hy (i := i) (by omega) (by omega)]
  congr 1
  rw [htrend _ (by decide), htext _ (by decide), hbox _ (by decide) (by decide), htext _ (by decide),
    htext _ (by decide), htext _ (by decide), hbox _ (by decide) (by decide), htrend _ (by decide),
    htext _ (by decide), hbox _ (by decide) (by decide), htrend _ (by decide), htext _ (by decide),
    hbox _ (by decide) (by decide)]

/-- What Render draws around the page is above and below it. -/
theorem cellAt_draw {v : ViewState D} {cell : Cell} (hx : x < w) (hy : y < h)
    (hrow : 3 ≤ y ∧ y + 2 < h)
    (hpage : ∀ c : Canvas w h, c.cellAt x y = {} → (page c v w h).cellAt x y = cell) :
    (draw v w h).cellAt x y = cell := by
  unfold draw
  dsimp only
  rw [Canvas.cellAt_text_ne _ hx hy (by omega), Canvas.cellAt_text_ne _ hx hy (by omega)]
  apply hpage
  rw [Canvas.cellAt_text_ne _ hx hy (by omega), Canvas.cellAt_text_ne _ hx hy (by omega),
    Canvas.cellAt_text_ne _ hx hy (by omega), Canvas.cellAt_text_ne _ hx hy (by omega),
    Canvas.cellAt_blank]

/-- The rows of the table in the workspace of the processes and on the overview. -/
structure Drawn (v : ViewState D) (s : SystemSnapshot D) (w h : Nat) : Prop where
  workspace : v.page = 2 → ∀ i x, i + 11 < h → 2 ≤ x → x + 1 < w →
    (draw v w h).cellAt x (6 + i) = rowCell v s 2 (w - 4) {} i x
  overview : v.page = 1 → ∀ i x, i + 26 < h → 2 ≤ x → x + 1 < w →
    (draw v w h).cellAt x (21 + i) = rowCell v s 2 (w - 4) {} i x

theorem drawn {v : ViewState D} {s : SystemSnapshot D} (hv : v.snapshot = some s)
    (hhelp : v.help = false) (hw : 80 ≤ w) (hh : 26 ≤ h) : Drawn v s w h := by
  have hsize : ¬ ((w : Int) < 80 ∨ (h : Int) < 26) := by omega
  constructor
  · intro hpage i x hi hx2 hx
    refine cellAt_draw (by omega) (by omega) (by omega) fun c hc => ?_
    have htable : (processes c v 0 4 w (h - 7)).cellAt x (6 + i) =
        rowCell v s 2 (w - 4) (c.cellAt x (6 + i)) i x :=
      cellAt_processes c hv (by omega) (by omega) (by omega) (by omega)
    rw [hc] at htable
    rw [page, if_neg hsize, if_neg (by simp [hhelp]), hv]
    dsimp only
    rw [if_neg (by rw [hpage]; decide), if_pos hpage]
    exact htable
  · intro hpage i x hi hx2 hx
    refine cellAt_draw (by omega) (by omega) (by omega) fun c hc => ?_
    have htable : (overview c v s w h).cellAt x (21 + i) =
        rowCell v s 2 (w - 4) (c.cellAt x (21 + i)) i x :=
      cellAt_overview c hv (by omega) (by omega) (by omega) (by omega)
    rw [hc] at htable
    rw [page, if_neg hsize, if_neg (by simp [hhelp]), hv]
    dsimp only
    rw [if_pos hpage]
    exact htable

end

/-! ## The order of the rows -/

/-- What the table is sorted by, the largest first. -/
def rank (sort : Bytes) (p : ProcessInfo Binary64) : ℚ :=
  if sort = lit "cpu" then p.cpuPercent.val
  else if sort = lit "memory" then p.memoryBytes.toNat
  else if sort = lit "threads" then p.threadCount.toNat
  else 0

def Precedes (sort : Bytes) (a b : ProcessInfo Binary64) : Prop :=
  rank sort b < rank sort a ∨ rank sort a = rank sort b ∧ a.pid.toInt < b.pid.toInt

instance (sort : Bytes) (a b : ProcessInfo Binary64) : Decidable (Precedes sort a b) :=
  inferInstanceAs (Decidable (_ ∨ _))

/-- A comparison by one number and then by another. -/
theorem two_keys {c r : Prop} [Decidable c] {p q : Bool} {x y : ℚ} (hc : c ↔ x ≠ y)
    (hp : p = true ↔ y < x) (hq : q = true ↔ r) :
    (if c then p else q) = true ↔ y < x ∨ x = y ∧ r := by
  by_cases h : x = y
  · rw [if_neg fun hx => hc.mp hx h, hq]
    simp [h]
  · rw [if_pos (hc.mpr h), hp]
    simp [h]

/-- Between finite numbers the comparison of the source is an order. -/
theorem processLess_iff (sort : Bytes) {a b : ProcessInfo Binary64}
    (ha : a.cpuPercent.isFinite = true) (hb : b.cpuPercent.isFinite = true) :
    processLess sort a b = true ↔ Precedes sort a b := by
  have hlt : Double.lt b.cpuPercent a.cpuPercent = true ↔ b.cpuPercent.val < a.cpuPercent.val :=
    Binary64.lt_finite hb ha
  have hab : Arithmetic.le a.cpuPercent b.cpuPercent = true ↔ a.cpuPercent.val ≤ b.cpuPercent.val :=
    Binary64.le_finite ha hb
  have hba : Arithmetic.le b.cpuPercent a.cpuPercent = true ↔ b.cpuPercent.val ≤ a.cpuPercent.val :=
    Binary64.le_finite hb ha
  have hne : Arithmetic.ne a.cpuPercent b.cpuPercent = true ↔ a.cpuPercent.val ≠ b.cpuPercent.val := by
    rw [Arithmetic.ne, Bool.not_eq_true', ← Bool.not_eq_true, Bool.and_eq_true, hab, hba, Ne,
      le_antisymm_iff]
  have hmemory : decide (b.memoryBytes < a.memoryBytes) = true ↔
      (b.memoryBytes.toNat : ℚ) < a.memoryBytes.toNat := by
    rw [decide_eq_true_iff, UInt64.lt_iff_toNat_lt, Nat.cast_lt]
  have hmemory' : a.memoryBytes ≠ b.memoryBytes ↔ (a.memoryBytes.toNat : ℚ) ≠ b.memoryBytes.toNat := by
    rw [Ne, Ne, Nat.cast_inj, UInt64.toNat_inj]
  have hthreads : decide (b.threadCount < a.threadCount) = true ↔
      (b.threadCount.toNat : ℚ) < a.threadCount.toNat := by
    rw [decide_eq_true_iff, UInt32.lt_iff_toNat_lt, Nat.cast_lt]
  have hthreads' : a.threadCount ≠ b.threadCount ↔
      (a.threadCount.toNat : ℚ) ≠ b.threadCount.toNat := by
    rw [Ne, Ne, Nat.cast_inj, UInt32.toNat_inj]
  have hpid : decide (a.pid.toInt < b.pid.toInt) = true ↔ a.pid.toInt < b.pid.toInt :=
    decide_eq_true_iff
  unfold processLess Precedes rank
  by_cases hcpu : sort = lit "cpu"
  · have h1 : ¬ lit "cpu" = lit "memory" := by decide
    have h2 : ¬ lit "cpu" = lit "threads" := by decide
    simp only [hcpu, h1, h2, true_and, false_and, if_true, if_false]
    exact two_keys hne hlt hpid
  by_cases hsort : sort = lit "memory"
  · have h1 : ¬ lit "memory" = lit "cpu" := by decide
    have h2 : ¬ lit "memory" = lit "threads" := by decide
    simp only [hsort, h1, h2, true_and, false_and, if_true, if_false]
    exact two_keys hmemory' hmemory hpid
  by_cases hsort' : sort = lit "threads"
  · have h1 : ¬ lit "threads" = lit "cpu" := by decide
    have h2 : ¬ lit "threads" = lit "memory" := by decide
    simp only [hsort', h1, h2, true_and, false_and, if_true, if_false]
    exact two_keys hthreads' hthreads hpid
  · simp only [hcpu, hsort, hsort', false_and, if_false]
    simp

theorem Precedes.asymm {sort : Bytes} {a b : ProcessInfo Binary64} (h : Precedes sort a b) :
    ¬ Precedes sort b a := by
  unfold Precedes at h ⊢
  grind

theorem Precedes.total {sort : Bytes} {a b : ProcessInfo Binary64} (h : ¬ Precedes sort a b)
    (h' : ¬ Precedes sort b a) : rank sort a = rank sort b ∧ a.pid = b.pid := by
  unfold Precedes at h h'
  have hrank : rank sort a = rank sort b := le_antisymm (by grind) (by grind)
  refine ⟨hrank, Int32.toInt_inj.mp ?_⟩
  grind

/-- A process list as Decode lets it through. -/
structure Listed (s : SystemSnapshot Binary64) : Prop where
  length_le : s.process.processes.length ≤ 10000
  finite : ∀ p ∈ s.process.processes, p.cpuPercent.isFinite = true

theorem listed_of_decode {tree : JSONValue Binary64} {s : SystemSnapshot Binary64}
    (h : decodeTree tree = .ok s) : Listed s := by
  obtain ⟨ha, rfl, -⟩ := Decode.decodeTree_ok.mp h
  have hprocess := section_eq (ha.objects (lit "process") (by decide)) ProcessMetrics.fromJson
  constructor
  · rw [SystemSnapshot.fromJson, hprocess]
    exact processList_reads ha.processList
  · rw [SystemSnapshot.fromJson, hprocess]
    intro p hp
    obtain ⟨row, hrow, rfl⟩ := List.mem_map.mp hp
    have hcheck := of_decide_eq_true (Decode.require_ok.mp (ha.processes row hrow))
    obtain ⟨d, hd, -⟩ := (Option.any_eq_true _ _).mp hcheck.2.2.1
    obtain ⟨hfinite, heq⟩ := double_reads hd
    exact (congrArg Double.isFinite heq).trans hfinite

/-- The rows that the filter of a view passes. -/
def filtered (v : ViewState Binary64) (s : SystemSnapshot Binary64) : List (ProcessInfo Binary64) :=
  s.process.processes.filter fun p =>
    v.filter = [] ∨ v.filter <:+: sanitized p.name ∨ v.filter <:+: intToString p.pid.toInt

/-- No row precedes one above it. -/
def Ordered (sort : Bytes) (l : List (ProcessInfo Binary64)) : Prop :=
  l.Pairwise fun a b => ¬ Precedes sort b a

section

variable {v : ViewState Binary64} {s : SystemSnapshot Binary64}

theorem visible_perm : (visible v s).Perm (filtered v s) := List.mergeSort_perm _ _

theorem visible_ordered (hs : Listed s) : Ordered v.sort (visible v s) := by
  have hfinite : ∀ p ∈ filtered v s, p.cpuPercent.isFinite = true := fun p hp =>
    hs.finite p (List.mem_filter.mp hp).1
  -- Rows that are not finite do not occur, so the sort is one by the order of the rationals.
  have hsame : visible v s = (filtered v s).mergeSort fun a b => decide ¬ Precedes v.sort b a := by
    have hmap := List.map_mergeSort (r := fun a b => !processLess v.sort b a)
      (s := fun a b => decide ¬ Precedes v.sort b a) (f := id) (l := filtered v s) fun a ha b hb => by
        rw [id, id, decide_not, ← Bool.eq_iff_iff.mpr
          ((processLess_iff v.sort (hfinite b hb) (hfinite a ha)).trans decide_eq_true_iff.symm)]
    rwa [List.map_id, List.map_id] at hmap
  rw [Ordered, hsame]
  refine (List.pairwise_mergeSort ?_ ?_ (filtered v s)).imp fun h => of_decide_eq_true h
  · intro a b c hab hbc
    rw [decide_eq_true_eq] at hab hbc ⊢
    unfold Precedes at hab hbc ⊢
    grind
  · intro a b
    rw [Bool.or_eq_true, decide_eq_true_eq, decide_eq_true_eq, ← not_and_or]
    exact fun h => h.1.asymm h.2

/-- The rows in order, where no two have one number. -/
theorem ordered_unique {sort : Bytes} {l l' : List (ProcessInfo Binary64)} (h : Ordered sort l)
    (h' : Ordered sort l') (hperm : l'.Perm l) (hn : (l.map ProcessInfo.pid).Nodup) : l' = l := by
  refine List.Perm.eq_of_pairwise (fun a b ha hb hab hba => ?_) h' h hperm
  have hpid := (Precedes.total hba hab).2
  exact List.inj_on_of_nodup_map hn (hperm.mem_iff.mp ha) hb hpid

/-- Every row comes first for the scroll that is its place. -/
theorem exists_scroll (hs : Listed s) {p : ProcessInfo Binary64} (hp : p ∈ filtered v s) :
    ∃ scroll : UInt64, (scrolled { v with scroll } s)[0]? = some p := by
  obtain ⟨k, hk, rfl⟩ := List.getElem_of_mem (visible_perm.mem_iff.mpr hp)
  have hlength : (visible v s).length ≤ 10000 :=
    visible_perm.length_eq.trans_le ((List.length_filter_le _ _).trans hs.length_le)
  have hscroll : (UInt64.ofNat k).toNat = k :=
    UInt64.toNat_ofNat_of_lt' (show k < 2 ^ 64 by omega)
  refine ⟨UInt64.ofNat k, ?_⟩
  show ((visible v s).drop (min (UInt64.ofNat k).toNat ((visible v s).length - 1)))[0]? = _
  rw [hscroll, Nat.min_eq_left (by omega), List.getElem?_drop, Nat.add_zero, List.getElem?_eq_getElem hk]

/-- The process table of a decoded snapshot: it is the processes that the filter passes, in the order of
the view, which is the only one if no two processes have one number; its rows stand on the screen from
the first on that the scroll leaves, and every process can be scrolled to. -/
theorem explorer_shows {w h : Nat} (hs : Listed s) (hv : v.snapshot = some s) (hhelp : v.help = false)
    (hw : 80 ≤ w) (hh : 26 ≤ h) :
    (visible v s).Perm (filtered v s) ∧ Ordered v.sort (visible v s) ∧
      ((s.process.processes.map ProcessInfo.pid).Nodup →
        ∀ l, l.Perm (filtered v s) → Ordered v.sort l → l = visible v s) ∧
      Drawn v s w h ∧
      ∀ p ∈ filtered v s, ∃ scroll : UInt64, (scrolled { v with scroll } s)[0]? = some p := by
  refine ⟨visible_perm, visible_ordered hs, fun hn l hperm hl => ?_, drawn hv hhelp hw hh,
    fun p hp => exists_scroll hs hp⟩
  have hsub : ((visible v s).map ProcessInfo.pid).Nodup :=
    (visible_perm.map _).nodup_iff.mpr ((List.filter_sublist.map _).nodup hn)
  exact ordered_unique (visible_ordered hs) hl (hperm.trans visible_perm.symm) hsub

/-- Two processes, the second of which holds more memory. -/
def twoRows : SystemSnapshot Binary64 :=
  let row (pid : Int32) (memoryBytes : UInt64) : ProcessInfo Binary64 :=
    { starttimeTicks := 7, cpuValid := true, pid, name := lit "a", state := 83, cpuPercent := zero
      memoryBytes, memoryPercent := zero, threadCount := 1 }
  { SystemSnapshot.fromJson (.object []) with process := ⟨0, 2, 0, [row 1 4096, row 2 8192]⟩ }

def byMemory : ViewState Binary64 :=
  { snapshot := some twoRows, diagnostics := none, cpuHistory := [], memoryHistory := [], rxHistory := []
    connection := [], filter := [], sort := lit "memory", ageSeconds := zero, diagnosticsAge := zero
    page := 2 }

theorem explorer_shows_memory :
    (visible byMemory twoRows).Perm (filtered byMemory twoRows) ∧
      Ordered byMemory.sort (visible byMemory twoRows) ∧ Drawn byMemory twoRows 80 26 := by
  have hlisted : Listed twoRows := ⟨by decide, by decide +kernel⟩
  obtain ⟨hperm, hordered, -, hdrawn, -⟩ :=
    explorer_shows (w := 80) (h := 26) hlisted (v := byMemory) rfl rfl (by decide) (by decide)
  exact ⟨hperm, hordered, hdrawn⟩

end

end WebHtop.Client.Ui
