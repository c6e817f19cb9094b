import AutoTrade.DataSources.Tushare.Frames

/-!
# The rows of several frames

`concat_rows` of `autotrade/environment/data/pit.py`. A row of a frame holds no cell in a column
that only another frame has; what is compared of rows are these records.
-/

namespace AutoTrade

/-- A cell of the lake, which is a scalar. -/
class LakeCell (Cell : Type) extends CanonicalCell Cell where
  /-- What a row holds in a column its frame does not have. -/
  missing : Cell
  /-- `""`. -/
  blank : Cell
  /-- `str(value or "")`. -/
  dateText : Cell → Text

open LakeCell

variable {Cell : Type} [LakeCell Cell]

namespace Frame

/-- The cells of a row of the frame; in a column of another frame it holds none. -/
def cells (f : Frame Cell) (row : String → Cell) : String → Cell := fun name =>
  if name ∈ f.columns then row name else missing

def records (f : Frame Cell) : List (String → Cell) := f.rows.map f.cells

/-- `concat_rows` of `autotrade/environment/data/pit.py`. -/
def concatRows (frames : List (Frame Cell)) : Frame Cell :=
  let nonEmpty := frames.filter fun frame => !frame.isEmpty
  -- the columns of empty frames come behind those of the others
  let ordered := nonEmpty ++ frames.filter fun frame => frame.isEmpty
  { columns := firsts id (ordered.flatMap fun frame => frame.columns)
    rows := nonEmpty.flatMap records }

theorem cells_of_subset {f g : Frame Cell} (subset : ∀ name ∈ f.columns, name ∈ g.columns)
    (row : String → Cell) : g.cells (f.cells row) = f.cells row := by
  funext name
  unfold cells
  split
  · rfl
  · rename_i outside
    rw [if_neg fun inside => outside (subset name inside)]

@[simp] theorem cells_of_mem {f : Frame Cell} {name : String} (inside : name ∈ f.columns)
    (row : String → Cell) : f.cells row name = row name := if_pos inside

theorem mem_columns_concatRows {frames : List (Frame Cell)} {name : String} :
    name ∈ (concatRows frames).columns ↔ ∃ frame ∈ frames, name ∈ frame.columns := by
  have listed {names : List String} : name ∈ firsts id names ↔ name ∈ names := by
    constructor
    · exact mem_of_mem_firsts
    · intro member
      have ⟨other, kept, same⟩ := @exists_mem_firsts _ _ _ id _ _ member
      have is : other = name := same
      rwa [is] at kept
  simp only [concatRows, listed, List.mem_flatMap, List.mem_append, List.mem_filter]
  constructor
  · rintro ⟨frame, ⟨member, _⟩ | ⟨member, _⟩, inside⟩
    · exact ⟨frame, member, inside⟩
    · exact ⟨frame, member, inside⟩
  · rintro ⟨frame, member, inside⟩
    refine ⟨frame, ?_, inside⟩
    cases empty : frame.isEmpty
    · exact .inl ⟨member, rfl⟩
    · exact .inr ⟨member, rfl⟩

theorem rows_concatRows {frames : List (Frame Cell)}
    (tables : ∀ frame ∈ frames, frame.columns = [] → frame.rows = []) :
    (concatRows frames).rows = frames.flatMap records := by
  induction frames with
  | nil => rfl
  | cons frame frames ih =>
    have rest := ih fun f member => tables f (List.mem_cons_of_mem _ member)
    simp only [concatRows] at rest ⊢
    rw [List.filter_cons, List.flatMap_cons, ← rest]
    split
    · rfl
    · rename_i empty
      have none : frame.rows = [] := by
        have empty' : frame.rows = [] ∨ frame.columns = [] := by
          simpa [isEmpty, or_iff_not_imp_left] using empty
        rcases empty' with rows | columns
        · exact rows
        · exact tables frame List.mem_cons_self columns
      simp [records, none]

theorem records_eq_rows {f : Frame Cell} (rows : ∀ row ∈ f.rows, f.cells row = row) :
    f.records = f.rows := by
  exact (List.map_congr_left rows).trans (List.map_id _)

end Frame

end AutoTrade
