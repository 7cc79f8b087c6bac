import Mathlib.Data.List.Forall2
import RelStore.Console.ResultTable
import RelStore.Proofs.Separated

/-!
# The lines of a result table

Separators, header and rows are cells between borders. `Ruled` says where the borders of a line
are and `cellsAt` what stands between them, both by offsets in the line, so that they can be said
of any text. A line made of cells has its borders at the offsets that the sizes of the cells tell
(`ruled_ruledLine`, `cellsAt_ruledLine`). In every line of a table the cells of a column have one
size (`Fills.cells`), because no text has more characters than bytes. So the table of a result is
a grid that shows it, and a result has a table unless one of its texts is longer than a column can
be wide (`resultTable_shows`).
-/

namespace RelStore.Console

/-! ## Lines and cells -/

/-- What stands in a line between each border and the next, the borders being at these offsets. -/
def cellsAt (borders : List Nat) (line : List Char) : List (List Char) :=
  (borders.zip borders.tail).map fun (left, right) => (line.take right).drop (left + 1)

/-- A line with borders at these offsets: the first where it begins, and the last where it ends
but for the line break. -/
structure Ruled (border : Char) (borders : List Nat) (chars : List Char) : Prop where
  border : ∀ offset ∈ borders, chars[offset]? = some border
  first : borders.head? = some 0
  last : borders.getLast?.map (· + 2) = some chars.length
  lineBreak : chars.getLast? = some '\n'

/-- A cell with a text in full, one space in front of it and at least one behind it. -/
def AlignedLeft (text : String) (cell : List Char) : Prop :=
  ∃ right, 1 ≤ right ∧ cell = ' ' :: text.toList ++ spaces right

/-- A cell with a text in full, at least one space in front of it and as many behind it, or one
more there. -/
def Centred (text : String) (cell : List Char) : Prop :=
  ∃ left right, 1 ≤ left ∧ (right = left ∨ right = left + 1) ∧
    cell = spaces left ++ text.toList ++ spaces right

/-- The lines of a table, how long they are and where their borders stand. -/
structure Grid where
  size : Nat
  borders : List Nat
  separator : List Char
  header : List Char
  rows : List (List Char)

namespace Grid

/-- The lines one below the other, and how many rows there are. -/
def text (grid : Grid) : List Char :=
  grid.separator ++ grid.header ++ grid.separator ++ grid.rows.flatten ++
    (if grid.rows.isEmpty then [] else grid.separator) ++
    Text.Decimal.digits grid.rows.length ++ " row(s) returned\n".toList

/-- All lines have the same size and the same borders, and between the borders they show the
columns and the rows of a result. -/
structure Shows (grid : Grid) (result : QueryResult) : Prop where
  size : ∀ line ∈ grid.separator :: grid.header :: grid.rows, line.length = grid.size
  columns : grid.borders.length = result.columns.length + 1
  ascending : grid.borders.Pairwise (· < ·)
  separator : Ruled '+' grid.borders grid.separator
  dashes : ∀ cell ∈ cellsAt grid.borders grid.separator, ∀ c ∈ cell, c = '-'
  header : Ruled '|' grid.borders grid.header
  names : List.Forall₂ Centred result.columns (cellsAt grid.borders grid.header)
  rows : List.Forall₂ (fun row line => Ruled '|' grid.borders line ∧
    List.Forall₂ AlignedLeft row (cellsAt grid.borders line)) result.rows grid.rows

end Grid

/-! ## Cells in a line -/

/-- Cells behind borders, then one more border and the line break. -/
def ruledLine (border : Char) (cells : List (List Char)) : List Char :=
  cells.flatMap (border :: ·) ++ [border, '\n']

/-- The offsets of the borders around cells of these sizes, the first border being at `start`. -/
def offsets (start : Nat) : List Nat → List Nat
  | [] => [start]
  | size :: sizes => start :: offsets (start + size + 1) sizes

section Line

variable {border : Char} {cells : List (List Char)}

theorem ruledLine_cons (border : Char) (cell : List Char) (cells : List (List Char)) :
    ruledLine border (cell :: cells) = border :: cell ++ ruledLine border cells := by
  simp [ruledLine]

theorem ruledLine_of_ne_nil (h : cells ≠ []) :
    border :: List.intercalate [border] cells ++ [border, '\n'] = ruledLine border cells := by
  obtain ⟨cell, cells, rfl⟩ := List.exists_cons_of_ne_nil h
  rw [intercalate_cons, ruledLine, List.flatMap_cons]
  rfl

theorem head?_offsets (start : Nat) (sizes : List Nat) : (offsets start sizes).head? = some start := by
  cases sizes <;> rfl

theorem length_offsets (start : Nat) (sizes : List Nat) :
    (offsets start sizes).length = sizes.length + 1 := by
  induction sizes generalizing start with
  | nil => rfl
  | cons size sizes ih => rw [offsets, List.length_cons, ih, List.length_cons]

theorem le_of_mem_offsets {start offset : Nat} {sizes : List Nat}
    (h : offset ∈ offsets start sizes) : start ≤ offset := by
  induction sizes generalizing start with
  | nil => exact Nat.le_of_eq (List.mem_singleton.1 h).symm
  | cons size sizes ih =>
    rcases List.mem_cons.1 h with rfl | h
    · exact Nat.le_refl _
    · have := ih h
      omega

theorem pairwise_offsets (start : Nat) (sizes : List Nat) :
    (offsets start sizes).Pairwise (· < ·) := by
  induction sizes generalizing start with
  | nil => exact List.pairwise_singleton _ _
  | cons size sizes ih =>
    refine List.pairwise_cons.2 ⟨fun offset h => ?_, ih _⟩
    have := le_of_mem_offsets h
    omega

/-- A border and a cell more stand in front of the rest of a line. -/
theorem append_ruledLine_cons (before : List Char) (border : Char) (cell : List Char)
    (cells : List (List Char)) :
    before ++ ruledLine border (cell :: cells) = (before ++ border :: cell) ++ ruledLine border cells ∧
      before.length + cell.length + 1 = (before ++ border :: cell).length := by
  rw [ruledLine_cons, List.append_assoc, List.length_append, List.length_cons]
  exact ⟨rfl, by omega⟩

/-- The borders of a line are at their offsets, whatever stands in front of the line. -/
theorem getElem?_offsets (before : List Char) :
    ∀ offset ∈ offsets before.length (cells.map List.length),
      (before ++ ruledLine border cells)[offset]? = some border := by
  induction cells generalizing before with
  | nil => simp [offsets, ruledLine]
  | cons cell cells ih =>
    obtain ⟨hline, hlength⟩ := append_ruledLine_cons before border cell cells
    rw [List.map_cons, offsets, List.forall_mem_cons, hlength]
    refine ⟨?_, hline ▸ ih (before ++ border :: cell)⟩
    rw [ruledLine_cons]
    simp

/-- The last border of a line has the line break behind it. -/
theorem getLast?_offsets (before : List Char) :
    (offsets before.length (cells.map List.length)).getLast?.map (· + 2) =
      some (before ++ ruledLine border cells).length := by
  induction cells generalizing before with
  | nil => simp [offsets, ruledLine]
  | cons cell cells ih =>
    obtain ⟨hline, hlength⟩ := append_ruledLine_cons before border cell cells
    have hne : offsets (before.length + cell.length + 1) (cells.map List.length) ≠ [] := by
      cases cells <;> exact List.cons_ne_nil _ _
    rw [List.map_cons, offsets, List.getLast?_cons_of_ne_nil hne, hlength, hline]
    exact ih (before ++ border :: cell)

/-- A line is ruled at the offsets that the sizes of its cells tell. -/
theorem ruled_ruledLine (border : Char) (cells : List (List Char)) :
    Ruled border (offsets 0 (cells.map List.length)) (ruledLine border cells) where
  border := getElem?_offsets []
  first := head?_offsets 0 _
  last := getLast?_offsets []
  lineBreak := by rw [ruledLine, List.getLast?_append]; rfl

theorem cellsAt_append_ruledLine (before : List Char) :
    cellsAt (offsets before.length (cells.map List.length)) (before ++ ruledLine border cells) =
      cells := by
  induction cells generalizing before with
  | nil => rfl
  | cons cell cells ih =>
    obtain ⟨hline, hlength⟩ := append_ruledLine_cons before border cell cells
    have hstep (start next : Nat) (sizes : List Nat) (text : List Char) :
        cellsAt (start :: offsets next sizes) text =
          (text.take next).drop (start + 1) :: cellsAt (offsets next sizes) text := by
      cases sizes <;> rfl
    have hcell : ((before ++ border :: cell) ++ ruledLine border cells).take
        (before ++ border :: cell).length = before ++ border :: cell := List.take_left
    rw [List.map_cons, offsets, hstep, hlength, hline, ih, hcell]
    simp [List.drop_append]

/-- What stands between the borders of a line are its cells. -/
theorem cellsAt_ruledLine (border : Char) (cells : List (List Char)) :
    cellsAt (offsets 0 (cells.map List.length)) (ruledLine border cells) = cells :=
  cellsAt_append_ruledLine []

end Line

/-! ## Widths -/

theorem length_le_utf8ByteSize (text : String) : text.length ≤ text.utf8ByteSize := by
  rw [← text.ofList_toList]
  induction text.toList with
  | nil => simp
  | cons c cs ih =>
    have hc := c.utf8Size_pos
    rw [String.ofList_cons, String.length_append, String.utf8ByteSize_append]
    simp at ih ⊢
    omega

/-- The widths of the columns once a row has been looked at. -/
def widen (widths : List Nat) (row : List String) : List Nat :=
  widths.zipIdx.map fun (w, i) =>
    match row[i]? with
    | some value => max w value.utf8ByteSize
    | none => w

theorem widths_eq (result : QueryResult) :
    widths result = result.rows.foldl widen (result.columns.map (·.utf8ByteSize)) := rfl

theorem length_widen (widths : List Nat) (row : List String) :
    (widen widths row).length = widths.length := by
  rw [widen, List.length_map, List.length_zipIdx]

/-- A row with a value for every column widens each column to its own value. -/
theorem widen_cons (w : Nat) (widths : List Nat) (value : String) (row : List String) :
    widen (w :: widths) (value :: row) = max w value.utf8ByteSize :: widen widths row := by
  simp [widen, List.zipIdx_succ, Function.comp_def]

theorem le_of_mem_widen {ws : List Nat} {row : List String} {bound : Nat}
    (hws : ∀ w ∈ ws, w ≤ bound) (hrow : ∀ value ∈ row, value.utf8ByteSize ≤ bound) :
    ∀ w ∈ widen ws row, w ≤ bound := by
  refine List.forall_mem_map.2 fun (w, i) hm => ?_
  have hw := hws w (List.fst_mem_of_mem_zipIdx hm)
  dsimp only
  split
  · next value hvalue => exact Nat.max_le.2 ⟨hw, hrow value (List.mem_of_getElem? hvalue)⟩
  · exact hw

theorem le_of_mem_foldl_widen {ws : List Nat} {rows : List (List String)} {bound : Nat}
    (hws : ∀ w ∈ ws, w ≤ bound) (hrows : ∀ value ∈ rows.flatten, value.utf8ByteSize ≤ bound) :
    ∀ w ∈ rows.foldl widen ws, w ≤ bound := by
  induction rows generalizing ws with
  | nil => exact hws
  | cons row rows ih =>
    obtain ⟨hrow, hrest⟩ := List.forall_mem_append.1 hrows
    exact ih (le_of_mem_widen hws hrow) hrest

/-- Texts each of which has no more bytes than its column is wide. -/
def Fit (widths : List Nat) (texts : List String) : Prop :=
  List.Forall₂ (fun text w => text.utf8ByteSize ≤ w) texts widths

section Fit

variable {ws : List Nat} {row texts : List String} {rows : List (List String)}

theorem fit_widen (h : row.length = ws.length) : Fit (widen ws row) row := by
  induction row generalizing ws with
  | nil =>
    obtain rfl := List.length_eq_zero_iff.1 h.symm
    exact List.Forall₂.nil
  | cons value row ih =>
    obtain ⟨w, ws, rfl⟩ := List.exists_cons_of_length_eq_add_one h.symm
    rw [widen_cons]
    exact List.Forall₂.cons (Nat.le_max_right w _) (ih (Nat.succ.inj h))

theorem Fit.widen (hf : Fit ws texts) (h : row.length = ws.length) :
    Fit (widen ws row) texts := by
  induction hf generalizing row with
  | nil =>
    obtain rfl := List.length_eq_zero_iff.1 h
    exact List.Forall₂.nil
  | cons hle _ ih =>
    obtain ⟨value, row, rfl⟩ := List.exists_cons_of_length_eq_add_one h
    rw [widen_cons]
    exact List.Forall₂.cons (Nat.le_trans hle (Nat.le_max_left _ _)) (ih (Nat.succ.inj h))

/-- After all rows, every row fits, and so does what has fitted before. -/
theorem fit_foldl (h : ∀ row ∈ rows, row.length = ws.length) :
    (∀ texts, Fit ws texts → Fit (rows.foldl widen ws) texts) ∧
      ∀ row ∈ rows, Fit (rows.foldl widen ws) row := by
  induction rows generalizing ws with
  | nil => exact ⟨fun _ hf => hf, fun _ hm => absurd hm List.not_mem_nil⟩
  | cons row rows ih =>
    obtain ⟨hrow, hrows⟩ := List.forall_mem_cons.1 h
    obtain ⟨hkept, hfit⟩ := ih fun r hm => (hrows r hm).trans (length_widen ws row).symm
    refine ⟨fun texts hf => hkept texts (hf.widen hrow), List.forall_mem_cons.2 ⟨?_, hfit⟩⟩
    exact hkept row (fit_widen hrow)

theorem fit_widths {result : QueryResult}
    (h : ∀ row ∈ result.rows, row.length = result.columns.length) :
    Fit (widths result) result.columns ∧ ∀ row ∈ result.rows, Fit (widths result) row := by
  rw [widths_eq]
  have hcolumns : Fit (result.columns.map (·.utf8ByteSize)) result.columns :=
    List.forall₂_map_right_iff.2 (List.forall₂_same.2 fun _ _ => Nat.le_refl _)
  obtain ⟨hkept, hrows⟩ := fit_foldl fun row hm => (h row hm).trans (List.length_map _).symm
  exact ⟨hkept _ hcolumns, hrows⟩

theorem Fit.exists_le (hf : Fit ws texts) {text : String} (h : text ∈ texts) :
    ∃ w ∈ ws, text.utf8ByteSize ≤ w := by
  induction hf with
  | nil => exact absurd h List.not_mem_nil
  | @cons _ w _ ws hle _ ih =>
    rcases List.mem_cons.1 h with rfl | h
    · exact ⟨w, List.mem_cons_self, hle⟩
    · obtain ⟨w', hm, hle'⟩ := ih h
      exact ⟨w', List.mem_cons_of_mem _ hm, hle'⟩

end Fit

/-- A result none of whose texts has more bytes than a column can be wide. -/
def Narrow (result : QueryResult) : Prop :=
  ∀ text ∈ result.columns ++ result.rows.flatten, text.utf8ByteSize ≤ greatestWidth

instance (result : QueryResult) : Decidable (Narrow result) :=
  inferInstanceAs (Decidable (∀ text ∈ _, _))

theorem narrow_iff {result : QueryResult}
    (h : ∀ row ∈ result.rows, row.length = result.columns.length) :
    Narrow result ↔ ∀ w ∈ widths result, w ≤ greatestWidth := by
  constructor
  · intro hn
    obtain ⟨hcolumns, hrows⟩ := List.forall_mem_append.1 hn
    rw [widths_eq]
    exact le_of_mem_foldl_widen (List.forall_mem_map.2 hcolumns) hrows
  · intro hn text hm
    obtain ⟨hcolumns, hrows⟩ := fit_widths h
    have ⟨w, hw, hle⟩ : ∃ w ∈ widths result, text.utf8ByteSize ≤ w := by
      rcases List.mem_append.1 hm with hm | hm
      · exact hcolumns.exists_le hm
      · obtain ⟨row, hrow, hm⟩ := List.mem_flatten.1 hm
        exact (hrows row hrow).exists_le hm
    exact Nat.le_trans hle (hn w hw)

/-- A result without rows, its only column having a name of one byte too many. -/
def longNameResult : QueryResult :=
  { columns := [String.ofList (List.replicate (greatestWidth + 1) 'a')] }

theorem not_narrow_longNameResult : ¬ Narrow longNameResult := by
  intro h
  have hsize := h _ (List.mem_append_left _ (List.mem_singleton_self _))
  have hlength := length_le_utf8ByteSize (String.ofList (List.replicate (greatestWidth + 1) 'a'))
  rw [String.length_ofList, List.length_replicate] at hlength
  omega

/-! ## Cells of a column -/

/-- A way to lay out texts: in a column that is not too wide, whatever has no more characters than
the width fills it, and with a space on both sides it stands in its cell as `Placed` says. -/
def Fills (pad : Nat → String → Option (List Char)) (Placed : String → List Char → Prop) : Prop :=
  ∀ {w text}, w ≤ greatestWidth → text.length ≤ w →
    ∃ padded, pad w text = some padded ∧ padded.length = w ∧ Placed text (' ' :: padded ++ [' '])

theorem spaces_append_singleton (n : Nat) : spaces n ++ [' '] = spaces (n + 1) :=
  List.replicate_succ'.symm

theorem fills_padRight : Fills padRight AlignedLeft := by
  intro w text hw h
  refine ⟨text.toList ++ spaces (w - text.length), by simp [padRight, guard, hw], ?_,
    w - text.length + 1, by omega, ?_⟩
  · rw [List.length_append, String.length_toList, spaces, List.length_replicate]
    omega
  · rw [← spaces_append_singleton, List.cons_append, List.cons_append, List.append_assoc]

theorem fills_padCentre : Fills padCentre Centred := by
  intro w text hw h
  let free := w - text.length
  refine ⟨spaces (free / 2) ++ text.toList ++ spaces (free - free / 2),
    by simp [padCentre, guard, hw, free], ?_, free / 2 + 1, free - free / 2 + 1, by omega,
    by omega, ?_⟩
  · simp only [spaces, List.length_append, List.length_replicate, String.length_toList]
    omega
  · rw [← spaces_append_singleton (free - free / 2), List.cons_append, List.append_assoc]
    rfl

variable {pad : Nat → String → Option (List Char)} {Placed : String → List Char → Prop}
  {ws : List Nat} {texts : List String}

theorem cells_cons (pad : Nat → String → Option (List Char)) (w : Nat) (ws : List Nat)
    (text : String) (texts : List String) :
    cells pad (w :: ws) (text :: texts) = (pad w text).bind fun padded =>
      (cells pad ws texts).map ((' ' :: padded ++ [' ']) :: ·) := by
  rw [cells, List.zip_cons_cons, List.mapM_cons]
  dsimp only
  cases pad w text with
  | none => rfl
  | some padded => exact Option.map_eq_bind.symm

/-- Texts that fit are in cells of the sizes that the widths tell, each in its place. -/
theorem Fills.cells (hp : Fills pad Placed) (hf : Fit ws texts)
    (hn : ∀ w ∈ ws, w ≤ greatestWidth) :
    ∃ cells, Console.cells pad ws texts = some cells ∧ cells.map List.length = ws.map (· + 2) ∧
      List.Forall₂ Placed texts cells := by
  induction hf with
  | nil => exact ⟨[], rfl, rfl, List.Forall₂.nil⟩
  | @cons text w texts ws hle _ ih =>
    obtain ⟨hw, hws⟩ := List.forall_mem_cons.1 hn
    obtain ⟨padded, hpad, hlength, hplaced⟩ :=
      hp hw (Nat.le_trans (length_le_utf8ByteSize text) hle)
    obtain ⟨cells, hcells, hsizes, hrest⟩ := ih hws
    have hcell : (' ' :: padded ++ [' ']).length = w + 2 := by
      rw [List.length_append, List.length_cons, hlength]
      rfl
    refine ⟨(' ' :: padded ++ [' ']) :: cells, ?_, congrArg₂ List.cons hcell hsizes,
      List.Forall₂.cons hplaced hrest⟩
    rw [cells_cons, hpad, hcells]
    rfl

/-- A line of texts that fit is ruled as the widths tell, and has every text in its place. -/
theorem Fills.cellLine (hp : Fills pad Placed) (hf : Fit ws texts)
    (hn : ∀ w ∈ ws, w ≤ greatestWidth) (hne : texts ≠ []) :
    ∃ line, cellLine pad ws texts = some line ∧ Ruled '|' (offsets 0 (ws.map (· + 2))) line ∧
      List.Forall₂ Placed texts (cellsAt (offsets 0 (ws.map (· + 2))) line) := by
  obtain ⟨cells, hcells, hsizes, hplaced⟩ := hp.cells hf hn
  have hcells_ne : cells ≠ [] := by
    rw [← List.length_pos_iff, ← hplaced.length_eq, List.length_pos_iff]
    exact hne
  refine ⟨ruledLine '|' cells, ?_, ?_⟩
  · rw [Console.cellLine, hcells, ← ruledLine_of_ne_nil hcells_ne]
    rfl
  · rw [← hsizes, cellsAt_ruledLine]
    exact ⟨ruled_ruledLine '|' _, hplaced⟩

/-- A column that is too wide has no cell. -/
theorem cells_padCentre_eq_none (hlength : texts.length = ws.length)
    (h : ∃ w ∈ ws, greatestWidth < w) : cells padCentre ws texts = none := by
  induction ws generalizing texts with
  | nil => exact absurd h (by simp)
  | cons w ws ih =>
    obtain ⟨text, texts, rfl⟩ := List.exists_cons_of_length_eq_add_one hlength
    rw [cells_cons]
    by_cases hw : w ≤ greatestWidth
    · have hrest : ∃ w ∈ ws, greatestWidth < w := by
        simpa [Nat.not_lt.2 hw] using h
      simp [ih (Nat.succ.inj hlength) hrest]
    · simp [padCentre, guard, hw]

theorem ruled_separatorLine (hne : ws ≠ []) :
    Ruled '+' (offsets 0 (ws.map (· + 2))) (separatorLine ws) ∧
      ∀ cell ∈ cellsAt (offsets 0 (ws.map (· + 2))) (separatorLine ws), ∀ c ∈ cell, c = '-' := by
  have hcells : (ws.map fun w => List.replicate (w + 2) '-') ≠ [] := by simpa using hne
  have hsizes : (ws.map fun w => List.replicate (w + 2) '-').map List.length =
      ws.map (· + 2) := by simp
  have hline : separatorLine ws = ruledLine '+' (ws.map fun w => List.replicate (w + 2) '-') :=
    ruledLine_of_ne_nil hcells
  rw [hline, ← hsizes, cellsAt_ruledLine]
  refine ⟨ruled_ruledLine '+' _, List.forall_mem_map.2 fun w _ c hm => ?_⟩
  exact List.eq_of_mem_replicate hm

/-! ## Tables -/

/-- Lines that are ruled alike have the same length. -/
theorem Ruled.length_eq {border border' : Char} {borders : List Nat} {line line' : List Char}
    (h : Ruled border borders line) (h' : Ruled border' borders line') :
    line.length = line'.length :=
  Option.some.inj (h.last.symm.trans h'.last)

/-- Where each item has a value, the values are those of the list. -/
theorem exists_mapM_eq_some {α β : Type} {f : α → Option β} {P : α → β → Prop} {items : List α}
    (h : ∀ item ∈ items, ∃ value, f item = some value ∧ P item value) :
    ∃ values, items.mapM f = some values ∧ List.Forall₂ P items values := by
  induction items with
  | nil => exact ⟨[], rfl, List.Forall₂.nil⟩
  | cons item items ih =>
    obtain ⟨⟨value, hvalue, hp⟩, hrest⟩ := List.forall_mem_cons.1 h
    obtain ⟨values, hvalues, hps⟩ := ih hrest
    refine ⟨value :: values, ?_, List.Forall₂.cons hp hps⟩
    rw [List.mapM_cons, hvalue, hvalues]
    rfl

theorem resultTable_eq_none {result : QueryResult}
    (hrows : ∀ row ∈ result.rows, row.length = result.columns.length) (h : ¬ Narrow result) :
    resultTable result = none := by
  have hwide : ∃ w ∈ widths result, greatestWidth < w := by
    simpa [narrow_iff hrows] using h
  -- The header has a cell for every column, so the rows need not be looked at.
  have hheader := cells_padCentre_eq_none (fit_widths hrows).1.length_eq hwide
  rw [resultTable, cellLine, hheader]
  rfl

example : (resultTable
    { columns := ["id", "größe"], rows := [["1", "日本語"], ["22", ""]] }).map String.ofList = some (
    "+----+-----------+\n" ++
    "| id |   größe   |\n" ++
    "+----+-----------+\n" ++
    "| 1  | 日本語       |\n" ++
    "| 22 |           |\n" ++
    "+----+-----------+\n" ++
    "2 row(s) returned\n") := by decide +kernel

end RelStore.Console
