import Mathlib.Algebra.BigOperators.Group.List.Basic
import Mathlib.Data.List.GetD
import Demiplane.Ink.Layout

/-!
`render_table`. Every line that it writes is put together from pieces that take a number of
columns each and that anything may be written behind, so that their widths add up to the width
of the table.
-/

namespace Demiplane.Ink

open Text

structure Glyphs where
  horizontal : Text
  vertical : Text
  topLeft : Text
  topRight : Text
  bottomLeft : Text
  bottomRight : Text
  teeTop : Text
  teeBottom : Text
  teeLeft : Text
  teeRight : Text
  cross : Text

/-- `border::ascii`. -/
def Glyphs.ascii : Glyphs where
  horizontal := Text.ascii "-"
  vertical := Text.ascii "|"
  topLeft := Text.ascii "+"
  topRight := Text.ascii "+"
  bottomLeft := Text.ascii "+"
  bottomRight := Text.ascii "+"
  teeTop := Text.ascii "+"
  teeBottom := Text.ascii "+"
  teeLeft := Text.ascii "+"
  teeRight := Text.ascii "+"
  cross := Text.ascii "+"

def Glyphs.all (g : Glyphs) : List Text :=
  [g.horizontal, g.vertical, g.topLeft, g.topRight, g.bottomLeft, g.bottomRight, g.teeTop,
    g.teeBottom, g.teeLeft, g.teeRight, g.cross]

structure TableRenderOptions where
  glyphs : Glyphs := .ascii
  headerStylePrefix : Text := []
  minWidth : ℕ := 0
  terminate : Bool := false
  defaultCellAlign : Align := .left
  columnAligns : List Align := []

def cellAlignFor (opts : TableRenderOptions) (c : ℕ) : Align :=
  opts.columnAligns.getD c opts.defaultCellAlign

section

variable (headers : List Text) (cells : List (List Text)) (opts : TableRenderOptions)

def colCount : ℕ := if headers = [] then cells.length else headers.length

def rowCount : ℕ := if cells = [] then 0 else (cells.getD 0 []).length

/-- The two inner loops over a column. -/
def widen (width : ℕ) (column : List Text) : ℕ :=
  column.foldl (fun width cell =>
    (lines cell).foldl (fun width line => max width (visibleWidth line)) width) width

/-- `col_widths[c]` behind the loop. -/
def colWidth (c : ℕ) : ℕ :=
  let width := opts.minWidth
  let width := if c < headers.length then max width (visibleWidth (headers.getD c [])) else width
  if c < cells.length then widen width (cells.getD c []) else width

/-- `row_heights[r]` behind the loop. -/
def rowHeight (r : ℕ) : ℕ :=
  (List.range (colCount headers cells)).foldl (fun height c =>
    if c < cells.length ∧ r < (cells.getD c []).length then
      max height (lines ((cells.getD c []).getD r [])).length
    else height) 1

def emitBorder (left junction right : Text) : Text :=
  let n := colCount headers cells
  left ++
    (List.range n).flatMap (fun c =>
      (List.replicate (colWidth headers cells opts c + 2) opts.glyphs.horizontal).flatten ++
        if c + 1 < n then junction else []) ++
    right ++ [10]

def emitCellLine (text : Text) (width : ℕ) (a : Align) : Text :=
  opts.glyphs.vertical ++ [32] ++ pad text width a ++ [32]

def emitHeader (c : ℕ) : Text :=
  let headerText := if c < headers.length then headers.getD c [] else []
  let width := colWidth headers cells opts c
  if opts.headerStylePrefix ≠ [] then
    opts.glyphs.vertical ++ [32] ++
      colorize opts.headerStylePrefix (pad headerText width .left) ++ [32]
  else emitCellLine opts headerText width .left

/-- `split_cells[c]` in row `r`. -/
def splitCells (r c : ℕ) : List Text :=
  if c < cells.length ∧ r < (cells.getD c []).length then
    lines ((cells.getD c []).getD r [])
  else [[]]

def emitRow (r : ℕ) : Text :=
  let n := colCount headers cells
  (List.range (rowHeight headers cells r)).flatMap fun lineIdx =>
    (List.range n).flatMap (fun c =>
      emitCellLine opts ((splitCells cells r c).getD lineIdx []) (colWidth headers cells opts c)
        (cellAlignFor opts c)) ++
      opts.glyphs.vertical ++ [10]

/-- What has been written before the last newline is taken away again. -/
def tableText : Text :=
  let g := opts.glyphs
  emitBorder headers cells opts g.topLeft g.teeTop g.topRight ++
    (if headers ≠ [] then
      (List.range (colCount headers cells)).flatMap (emitHeader headers cells opts) ++
        g.vertical ++ [10] ++
        (if rowCount cells > 0 then emitBorder headers cells opts g.teeLeft g.cross g.teeRight
        else [])
    else []) ++
    (List.range (rowCount cells)).flatMap (fun r =>
      emitRow headers cells opts r ++
        if r + 1 < rowCount cells then emitBorder headers cells opts g.teeLeft g.cross g.teeRight
        else []) ++
    emitBorder headers cells opts g.bottomLeft g.teeBottom g.bottomRight

def renderTable : Text :=
  if headers = [] ∧ cells = [] then []
  else
    let out := tableText headers cells opts
    if opts.terminate = false ∧ out ≠ [] ∧ out.getLast? = some 10 then out.dropLast else out

/-- The width that every line of the table is to have. -/
def tableWidth : ℕ :=
  ((List.range (colCount headers cells)).map fun c => colWidth headers cells opts c + 3).sum + 1

end

/-- What a table may be rendered from. -/
structure Renderable (headers : List Text) (cells : List (List Text)) (opts : TableRenderOptions) :
    Prop where
  headers : ∀ text ∈ headers, 10 ∉ text ∧ Complete text
  cells : ∀ column ∈ cells, ∀ cell ∈ column, ∀ line ∈ lines cell, Complete line
  glyphs : ∀ glyph ∈ opts.glyphs.all, visibleWidth glyph = 1 ∧ 10 ∉ glyph ∧ Closed glyph
  style : opts.headerStylePrefix = [] ∨ IsSgr opts.headerStylePrefix

/-! ### Widths of the columns -/

theorem foldl_max_le {γ : Type*} (f : γ → ℕ) (l : List γ) (w : ℕ) :
    w ≤ l.foldl (fun w c => max w (f c)) w ∧
      ∀ c ∈ l, f c ≤ l.foldl (fun w c => max w (f c)) w := by
  induction l generalizing w with
  | nil => simp
  | cons c l ih =>
    obtain ⟨hstart, hall⟩ := ih (max w (f c))
    rw [List.foldl_cons]
    refine ⟨(Nat.le_max_left _ _).trans hstart, fun d hd => ?_⟩
    rcases List.mem_cons.1 hd with rfl | hd
    · exact (Nat.le_max_right _ _).trans hstart
    · exact hall d hd

/-- A column is as wide as its widest line, and it never gets narrower. -/
theorem le_widen (column : List Text) (w : ℕ) :
    w ≤ widen w column ∧
      ∀ cell ∈ column, ∀ line ∈ lines cell, visibleWidth line ≤ widen w column := by
  induction column generalizing w with
  | nil => simp [widen]
  | cons cell column ih =>
    obtain ⟨hfirst, hlines⟩ := foldl_max_le visibleWidth (lines cell) w
    obtain ⟨hstart, hall⟩ :=
      ih ((lines cell).foldl (fun width line => max width (visibleWidth line)) w)
    refine ⟨hfirst.trans hstart, fun cell' hcell line hline => ?_⟩
    rcases List.mem_cons.1 hcell with rfl | hcell
    · exact (hlines line hline).trans hstart
    · exact hall cell' hcell line hline

section

variable {headers : List Text} {cells : List (List Text)} {opts : TableRenderOptions}

theorem header_le_colWidth {c : ℕ} (hc : c < headers.length) :
    visibleWidth (headers.getD c []) ≤ colWidth headers cells opts c := by
  unfold colWidth
  dsimp only
  rw [if_pos hc]
  split_ifs
  · exact (Nat.le_max_right _ _).trans (le_widen _ _).1
  · exact Nat.le_max_right _ _

theorem line_le_colWidth {c : ℕ} (hc : c < cells.length) {cell line : Text}
    (hcell : cell ∈ cells.getD c []) (hline : line ∈ lines cell) :
    visibleWidth line ≤ colWidth headers cells opts c := by
  unfold colWidth
  dsimp only
  rw [if_pos hc]
  exact (le_widen _ _).2 cell hcell line hline

theorem getD_mem {γ : Type*} {l : List γ} {i : ℕ} (h : i < l.length) (d : γ) : l.getD i d ∈ l := by
  rw [List.getD_eq_getElem _ _ h]
  exact List.getElem_mem h

/-- What is written into a cell fits in. -/
theorem Renderable.splitCells (h : Renderable headers cells opts) (r c i : ℕ) :
    Complete ((splitCells cells r c).getD i []) ∧ 10 ∉ (splitCells cells r c).getD i [] ∧
      visibleWidth ((splitCells cells r c).getD i []) ≤ colWidth headers cells opts c := by
  have hempty : Complete [] ∧ (10 : UInt8) ∉ ([] : Text) ∧
      visibleWidth [] ≤ colWidth headers cells opts c :=
    ⟨rfl, by simp, Nat.zero_le _⟩
  unfold Ink.splitCells
  split_ifs with hin
  · obtain ⟨hc, hr⟩ := hin
    have hcell := getD_mem hr []
    by_cases hi : i < (lines ((cells.getD c []).getD r [])).length
    · have hline := getD_mem hi []
      exact ⟨h.cells _ (getD_mem hc []) _ hcell _ hline, not_mem_of_mem_lines hline,
        line_le_colWidth hc hcell hline⟩
    · rw [List.getD_eq_default _ _ (by omega)]
      exact hempty
  · cases i <;> exact hempty

/-! ### The lines of a table -/

theorem Renderable.glyph (h : Renderable headers cells opts) {glyph : Text}
    (hmem : glyph ∈ opts.glyphs.all) : Block 1 glyph := by
  obtain ⟨hwidth, hnewline, hcomplete, hlast⟩ := h.glyphs glyph hmem
  exact ⟨⟨hcomplete, hnewline, hwidth⟩, hlast⟩

theorem Renderable.vertical (h : Renderable headers cells opts) : Block 1 opts.glyphs.vertical :=
  h.glyph (by simp [Glyphs.all])

theorem Renderable.emitCellLine (h : Renderable headers cells opts) {text : Text} {width : ℕ}
    (hcomplete : Complete text) (hnewline : 10 ∉ text) (hle : visibleWidth text ≤ width)
    (a : Align) : Block (width + 3) (emitCellLine opts text width a) := by
  have hcell : Block (width + 1) (pad text width a ++ [32]) :=
    Block.after (run_pad hcomplete hnewline hle a) block_space (.inr (by decide)) (.inl (by simp))
  have hline := (h.vertical.append block_space).append hcell
  rw [← List.append_assoc, show 1 + 1 + (width + 1) = width + 3 by omega] at hline
  exact hline

theorem Renderable.emitHeader (h : Renderable headers cells opts) (c : ℕ) :
    Block (colWidth headers cells opts c + 3) (emitHeader headers cells opts c) := by
  have htext : Complete (if c < headers.length then headers.getD c [] else []) ∧
      10 ∉ (if c < headers.length then headers.getD c [] else []) ∧
      visibleWidth (if c < headers.length then headers.getD c [] else []) ≤
        colWidth headers cells opts c := by
    split_ifs with hc
    · obtain ⟨hnewline, hcomplete⟩ := h.headers _ (getD_mem hc [])
      exact ⟨hcomplete, hnewline, header_le_colWidth hc⟩
    · exact ⟨rfl, by simp, Nat.zero_le _⟩
  unfold Ink.emitHeader
  dsimp only
  generalize (if c < headers.length then headers.getD c [] else []) = text at htext ⊢
  obtain ⟨hcomplete, hnewline, hle⟩ := htext
  split_ifs with hstyle
  · -- the style in front of the text and the reset behind it take no columns
    have hpadded := Block.after (run_pad hcomplete hnewline hle .left) isSgr_reset.block
      (.inr (by decide)) (.inl (by decide))
    have hcolored := ((h.style.resolve_left hstyle).block.append hpadded).append block_space
    have hline := (h.vertical.append block_space).append hcolored
    rw [show 1 + 1 + (0 + (colWidth headers cells opts c + 0) + 1) =
      colWidth headers cells opts c + 3 by omega] at hline
    simpa [colorize] using hline
  · exact h.emitCellLine hcomplete hnewline hle .left

/-- The rows that a text consists of, each of them ended by a newline. -/
def Rectangular (w : ℕ) (out : Text) : Prop :=
  ∃ rows : List Text, out = rows.flatMap (· ++ [10]) ∧ ∀ row ∈ rows, Block w row

theorem rectangular_nil (w : ℕ) : Rectangular w [] := ⟨[], rfl, by simp⟩

theorem Block.rectangular {w : ℕ} {row : Text} (h : Block w row) : Rectangular w (row ++ [10]) :=
  ⟨[row], by simp, by simpa using h⟩

theorem Rectangular.append {w : ℕ} {a b : Text} (ha : Rectangular w a) (hb : Rectangular w b) :
    Rectangular w (a ++ b) := by
  obtain ⟨rows, rfl, hrows⟩ := ha
  obtain ⟨more, rfl, hmore⟩ := hb
  refine ⟨rows ++ more, by simp, fun row hrow => ?_⟩
  rcases List.mem_append.1 hrow with hrow | hrow
  · exact hrows row hrow
  · exact hmore row hrow

theorem rectangular_flatMap {γ : Type*} {w : ℕ} {f : γ → Text} (l : List γ)
    (h : ∀ c ∈ l, Rectangular w (f c)) : Rectangular w (l.flatMap f) := by
  induction l with
  | nil => exact rectangular_nil w
  | cons c l ih =>
    rw [List.flatMap_cons]
    exact (h c List.mem_cons_self).append (ih fun c hc => h c (List.mem_cons_of_mem _ hc))

/-- The junctions of a border stand where the cells of a row have one more bar. -/
theorem sum_border (w : ℕ → ℕ) {n : ℕ} (hn : n ≠ 0) :
    ((List.range n).map fun c => (w c + 2) * 1 + if c + 1 < n then 1 else 0).sum + 1 =
      ((List.range n).map fun c => w c + 3).sum := by
  obtain ⟨m, rfl⟩ := Nat.exists_eq_succ_of_ne_zero hn
  have hinner : ((List.range m).map fun c => (w c + 2) * 1 + if c + 1 < m + 1 then 1 else 0) =
      (List.range m).map fun c => w c + 3 := by
    refine List.map_congr_left fun c hc => ?_
    have hlt := List.mem_range.1 hc
    rw [if_pos (by omega)]
    omega
  rw [Nat.succ_eq_add_one, List.range_succ, List.map_append, List.map_append, List.sum_append,
    List.sum_append, hinner]
  simp
  omega

theorem colCount_ne_zero (h : ¬ (headers = [] ∧ cells = [])) : colCount headers cells ≠ 0 := by
  unfold colCount
  split_ifs with hheaders
  · exact fun hzero => h ⟨hheaders, List.length_eq_zero_iff.1 hzero⟩
  · simpa using hheaders

theorem Renderable.emitBorder (h : Renderable headers cells opts)
    (hne : ¬ (headers = [] ∧ cells = [])) {left junction right : Text} (hleft : Block 1 left)
    (hjunction : Block 1 junction) (hright : Block 1 right) :
    Rectangular (tableWidth headers cells opts)
      (emitBorder headers cells opts left junction right) := by
  have hcolumns := block_flatMap (l := List.range (colCount headers cells))
    (f := fun c => (List.replicate (colWidth headers cells opts c + 2)
      opts.glyphs.horizontal).flatten ++ if c + 1 < colCount headers cells then junction else [])
    (w := fun c => (colWidth headers cells opts c + 2) * 1 +
      if c + 1 < colCount headers cells then 1 else 0)
    fun c _ => by
      refine (block_flatten_replicate (h.glyph (by simp [Glyphs.all])) _).append ?_
      split_ifs
      · exact hjunction
      · exact block_nil
  have hsum := sum_border (colWidth headers cells opts) (colCount_ne_zero hne)
  have hrow := ((hleft.append hcolumns).append hright).rectangular
  rwa [show 1 + _ + 1 = tableWidth headers cells opts by unfold tableWidth; omega] at hrow

theorem Renderable.emitRow (h : Renderable headers cells opts) (r : ℕ) :
    Rectangular (tableWidth headers cells opts) (emitRow headers cells opts r) := by
  refine rectangular_flatMap _ fun i _ => ?_
  have hcells := block_flatMap (l := List.range (colCount headers cells))
    (w := fun c => colWidth headers cells opts c + 3) fun c _ => by
      obtain ⟨hcomplete, hnewline, hle⟩ := h.splitCells r c i
      exact h.emitCellLine hcomplete hnewline hle (cellAlignFor opts c)
  exact (hcells.append h.vertical).rectangular

theorem Renderable.tableText (h : Renderable headers cells opts)
    (hne : ¬ (headers = [] ∧ cells = [])) :
    Rectangular (tableWidth headers cells opts) (tableText headers cells opts) := by
  have hmiddle : Rectangular (tableWidth headers cells opts) (Ink.emitBorder headers cells opts
      opts.glyphs.teeLeft opts.glyphs.cross opts.glyphs.teeRight) :=
    h.emitBorder hne (h.glyph (by simp [Glyphs.all])) (h.glyph (by simp [Glyphs.all]))
      (h.glyph (by simp [Glyphs.all]))
  have hheaders := block_flatMap (l := List.range (colCount headers cells))
    (w := fun c => colWidth headers cells opts c + 3) fun c _ => h.emitHeader c
  unfold Ink.tableText
  dsimp only
  refine ((Rectangular.append ?_ ?_).append (rectangular_flatMap _ fun r _ => ?_)).append ?_
  · exact h.emitBorder hne (h.glyph (by simp [Glyphs.all])) (h.glyph (by simp [Glyphs.all]))
      (h.glyph (by simp [Glyphs.all]))
  · split_ifs
    · exact (hheaders.append h.vertical).rectangular.append hmiddle
    · exact (hheaders.append h.vertical).rectangular.append (rectangular_nil _)
    · exact rectangular_nil _
  · refine (h.emitRow r).append ?_
    split_ifs
    · exact hmiddle
    · exact rectangular_nil _
  · exact h.emitBorder hne (h.glyph (by simp [Glyphs.all])) (h.glyph (by simp [Glyphs.all]))
      (h.glyph (by simp [Glyphs.all]))

/-- The newline that may be taken away at the end does not change the lines. -/
theorem getlines_renderTable (h : Renderable headers cells opts)
    (hne : ¬ (headers = [] ∧ cells = [])) :
    ∀ line ∈ getlines 10 (renderTable headers cells opts),
      visibleWidth line = tableWidth headers cells opts := by
  obtain ⟨rows, hrows, hblock⟩ := h.tableText hne
  have hfree : ∀ row ∈ rows, (10 : UInt8) ∉ row ∧ row ≠ [] := by
    intro row hrow
    refine ⟨(hblock row hrow).newlineFree, ?_⟩
    rintro rfl
    have hwidth := (hblock [] hrow).width
    unfold tableWidth at hwidth
    exact absurd hwidth (Nat.succ_ne_zero _).symm
  have hlines : getlines 10 (renderTable headers cells opts) = rows := by
    unfold renderTable
    rw [if_neg hne]
    dsimp only
    split_ifs with hdrop
    · have hsome : rows ≠ [] := by
        rintro rfl
        exact hdrop.2.1 hrows
      rw [hrows, flatMap_eq_intercalate hsome, List.dropLast_concat, getlines_intercalate _ hfree]
    · rw [hrows, getlines_flatMap _ fun row hrow => (hfree row hrow).1]
  intro line hline
  rw [hlines] at hline
  exact (hblock line hline).width

/-- All lines of a table have the same width, whatever its texts, its columns and its options
are, as long as no text and no glyph stops within an escape sequence. -/
theorem renderTable_rectangular (h : Renderable headers cells opts) :
    ∀ line ∈ getlines 10 (renderTable headers cells opts),
      visibleWidth line =
        ((List.range (colCount headers cells)).map fun c =>
          colWidth headers cells opts c + 3).sum + 1 := by
  by_cases hne : headers = [] ∧ cells = []
  · intro line hline
    rw [renderTable, if_pos hne, getlines_of_none rfl] at hline
    cases hline
  · exact getlines_renderTable h hne

end

/-- Two columns of different heights, one of them with a cell of two lines. -/
def sampleCells : List (List Text) := [[ascii "a\nbc", 27 :: ascii "[1md" ++ reset], [ascii "e"]]

def sampleOptions : TableRenderOptions :=
  { headerStylePrefix := 27 :: ascii "[1;94m", minWidth := 2, columnAligns := [.right] }

theorem renderTable_sample_rectangular :
    renderTable [ascii "x", ascii "yyy"] sampleCells sampleOptions ≠ [] ∧
      ∀ line ∈ getlines 10 (renderTable [ascii "x", ascii "yyy"] sampleCells sampleOptions),
        visibleWidth line =
          ((List.range (colCount [ascii "x", ascii "yyy"] sampleCells)).map fun c =>
            colWidth [ascii "x", ascii "yyy"] sampleCells sampleOptions c + 3).sum + 1 := by
  refine ⟨by decide +kernel, renderTable_rectangular ⟨by decide, by decide, by decide, .inr ?_⟩⟩
  exact ⟨ascii "1;94", by decide, by decide, by decide⟩

/-- A bar that stops within an escape sequence: it is one column wide by itself, and hides what
is written behind it. -/
def openBar : TableRenderOptions :=
  { glyphs := { Glyphs.ascii with vertical := ascii "|" ++ [27, 91] } }

theorem renderTable_openBar_uneven :
    (∀ glyph ∈ openBar.glyphs.all, visibleWidth glyph = 1 ∧ 10 ∉ glyph) ∧
      ∃ line ∈ getlines 10 (renderTable [ascii "m"] [] openBar),
        visibleWidth line ≠ ((List.range (colCount [ascii "m"] [])).map fun c =>
          colWidth [ascii "m"] [] openBar c + 3).sum + 1 := by
  have htext : renderTable [ascii "m"] [] openBar =
      [10].intercalate [ascii "+---+", ascii "|" ++ [27, 91] ++ ascii " m |" ++ [27, 91],
        ascii "+---+"] := by
    decide +kernel
  refine ⟨by decide, ascii "|" ++ [27, 91] ++ ascii " m |" ++ [27, 91], ?_, by decide⟩
  rw [htext, getlines_intercalate _ (by decide)]
  simp

end Demiplane.Ink
