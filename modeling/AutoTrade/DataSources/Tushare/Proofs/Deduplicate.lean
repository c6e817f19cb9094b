import AutoTrade.DataSources.Tushare.Frames
import AutoTrade.Environment.Data.RevisionValue
import Mathlib.Data.Multiset.Basic

/-!
# One row for each key

`deduplicate_keys` keeps the least row of each key, as long as a column has one text for the
cells that a dict takes for one; `0.0` and `-0.0` are such cells with two texts.
-/

namespace AutoTrade

open CanonicalCell

variable {Cell : Type} [CanonicalCell Cell]

namespace Frame

/-- The canonical text of a row, cell by cell. -/
def cellTexts (columns : List String) (row : String → Cell) : List Text :=
  columns.map fun column => canonical (row column)

/-- What a frame holds, in any order of its rows. -/
def content (f : Frame Cell) : Multiset (List Text) :=
  (f.rows.map (cellTexts f.columns) : List (List Text))

/-- The keys of the rows; a frame without one of the key columns has none. -/
def presentKeys (f : Frame Cell) (keys : List String) : List (List Text) :=
  if keys.all (· ∈ f.columns) then f.rows.map (cellTexts keys) else []

/-- One row is left of every key, which it is does not depend on the order of the rows, and no
row is dropped of what is left. -/
structure Deduplicates (f : Frame Cell) (keys : List String) : Prop where
  one : ∀ key ∈ f.presentKeys keys,
    ((deduplicateKeys f keys).1.rows.filter fun row => cellTexts keys row = key).length = 1
  unordered : ∀ g : Frame Cell, g.columns = f.columns → g.rows.Perm f.rows →
    (deduplicateKeys g keys).1.content = (deduplicateKeys f keys).1.content
  once : (deduplicateKeys (deduplicateKeys f keys).1 keys).1 = (deduplicateKeys f keys).1

/-- The cells of a column that a dict takes for one key have one canonical text. -/
def Uniform (f : Frame Cell) : Prop :=
  ∀ name ∈ f.columns, ∀ c ∈ f.column name, ∀ d ∈ f.column name, hashable c = true →
    hashable d = true → code c = code d → canonical c = canonical d

/-- A frame of columns of another one, with cells of these. -/
def DrawnFrom (g f : Frame Cell) : Prop :=
  ∀ name ∈ g.columns, name ∈ f.columns ∧ ∀ c ∈ g.column name, c ∈ f.column name

theorem DrawnFrom.uniform {g f : Frame Cell} (drawn : g.DrawnFrom f) (uniform : f.Uniform) :
    g.Uniform := by
  intro name inside c member d member'
  have ⟨column, cells⟩ := drawn name inside
  exact uniform name column c (cells c member) d (cells d member')

omit [CanonicalCell Cell] in
theorem DrawnFrom.of_rows {g f : Frame Cell} (columns : g.columns = f.columns)
    (rows : ∀ row ∈ g.rows, row ∈ f.rows) : g.DrawnFrom f := by
  intro name inside
  refine ⟨columns ▸ inside, ?_⟩
  intro c member
  have ⟨row, here, same⟩ := List.mem_map.mp member
  exact List.mem_map.mpr ⟨row, rows row here, same⟩

section Uniform

variable {f g : Frame Cell} {keys : List String}

theorem Uniform.seriesText_eq (uniform : f.Uniform) {name : String} (inside : name ∈ f.columns)
    {c : Cell} (member : c ∈ f.column name) : seriesText (f.column name) c = canonical c := by
  unfold seriesText
  split
  · rename_i hashed
    have all := List.all_eq_true.mp hashed
    cases found : (f.column name).find? fun d => code d = code c with
    | none =>
      have other := List.find?_eq_none.mp found c member
      simp at other
    | some d =>
      have is : code d = code c := by simpa using List.find?_some found
      have first := List.mem_of_find?_eq_some found
      exact uniform name inside d first c member (all d first) (all c member) is
  · rfl

theorem Uniform.keyOf_eq (uniform : f.Uniform) (columns : ∀ key ∈ keys, key ∈ f.columns)
    {row : String → Cell} (member : row ∈ f.rows) :
    keyOf keys (f.rowText row) = cellTexts keys row := by
  apply List.map_congr_left
  intro key inside
  rw [rowText, if_pos (columns key inside)]
  exact uniform.seriesText_eq (columns key inside) (List.mem_map_of_mem member)

/-- What is kept of a frame: the least row of every key. -/
structure Least (f : Frame Cell) (keys : List String) (kept : Frame Cell) : Prop where
  columns : kept.columns = f.columns
  rows : ∀ row ∈ kept.rows, row ∈ f.rows
  distinct : (kept.rows.map (cellTexts keys)).Nodup
  every : ∀ row ∈ f.rows, ∃ left ∈ kept.rows, cellTexts keys left = cellTexts keys row
  least : ∀ left ∈ kept.rows, ∀ row ∈ f.rows, cellTexts keys row = cellTexts keys left →
    cellTexts f.columns left ≤ cellTexts f.columns row

theorem Least.of_distinct (distinct : (f.rows.map (cellTexts keys)).Nodup) : f.Least keys f where
  columns := rfl
  rows _ := id
  distinct := distinct
  every row member := ⟨row, member, rfl⟩
  least left member row member' same := by
    rw [List.inj_on_of_nodup_map distinct member' member same]

theorem deduplicateKeys_eq_self
    (left : f.isEmpty = true ∨ ¬ keys.all (fun key => decide (key ∈ f.columns)) = true) :
    (deduplicateKeys f keys).1 = f := by
  unfold deduplicateKeys
  rw [if_pos left]

theorem deduplicateKeys_eq (columns : ∀ key ∈ keys, key ∈ f.columns) (filled : f.isEmpty = false) :
    (deduplicateKeys f keys).1 =
      if (f.texts.map (keyOf keys)).Nodup then f
      else { f with rows := (((firsts (fun row => keyOf keys (f.rowText row.1))
        (f.rows.zipIdx.insertionSort fun x y =>
          keyOf f.columns (f.rowText x.1) ≤ keyOf f.columns (f.rowText y.1))).insertionSort
            fun x y => x.2 ≤ y.2).map Prod.fst) } := by
  have all : keys.all (fun key => decide (key ∈ f.columns)) = true := by simpa using columns
  unfold deduplicateKeys
  rw [if_neg (by simp [filled, all])]
  split <;> rfl

theorem Uniform.least (uniform : f.Uniform) (named : keys ≠ [])
    (columns : ∀ key ∈ keys, key ∈ f.columns) : f.Least keys (deduplicateKeys f keys).1 := by
  have texts : f.texts.map (keyOf keys) = f.rows.map (cellTexts keys) := by
    rw [texts, List.map_map]
    exact List.map_congr_left fun row member => uniform.keyOf_eq columns member
  cases filled : f.isEmpty with
  | true =>
    rw [deduplicateKeys_eq_self (.inl filled)]
    apply Least.of_distinct
    simp only [isEmpty, Bool.or_eq_true, List.isEmpty_iff] at filled
    rcases filled with empty | empty
    · simp [empty]
    · obtain ⟨key, member⟩ := List.exists_mem_of_ne_nil keys named
      have inside := columns key member
      rw [empty] at inside
      cases inside
  | false =>
    rw [deduplicateKeys_eq columns filled, texts]
    split
    · exact Least.of_distinct ‹_›
    · let key (row : (String → Cell) × Nat) : List Text := keyOf keys (f.rowText row.1)
      let ordered := f.rows.zipIdx.insertionSort fun x y =>
        keyOf f.columns (f.rowText x.1) ≤ keyOf f.columns (f.rowText y.1)
      have members {row : String → Cell} :
          row ∈ ((firsts key ordered).insertionSort fun x y => x.2 ≤ y.2).map Prod.fst ↔
            ∃ n, (row, n) ∈ firsts key ordered := by
        simp [List.mem_insertionSort]
      have inside {row : (String → Cell) × Nat} (member : row ∈ ordered) : row.1 ∈ f.rows := by
        rw [List.mem_insertionSort] at member
        exact List.fst_mem_of_mem_zipIdx member
      have listed {row : String → Cell} (member : row ∈ f.rows) : ∃ n, (row, n) ∈ ordered := by
        obtain ⟨n, bound, is⟩ := List.mem_iff_getElem.mp member
        have here : (row, n) ∈ f.rows.zipIdx :=
          List.mem_zipIdx_iff_getElem?.mpr (by simp [← is, bound])
        exact ⟨n, (List.mem_insertionSort _).mpr here⟩
      have cells {row : (String → Cell) × Nat} (member : row ∈ ordered) :
          key row = cellTexts keys row.1 := uniform.keyOf_eq columns (inside member)
      refine ⟨rfl, ?_, ?_, ?_, ?_⟩
      · intro row member
        obtain ⟨n, kept⟩ := members.mp member
        exact inside (mem_of_mem_firsts kept)
      · have sorted := (List.perm_insertionSort (fun x y : (String → Cell) × Nat => x.2 ≤ y.2)
          (firsts key ordered)).map key
        have distinct := sorted.symm.nodup (nodup_firsts ordered)
        rw [List.map_map]
        have same : ((firsts key ordered).insertionSort fun x y => x.2 ≤ y.2).map key =
            ((firsts key ordered).insertionSort fun x y => x.2 ≤ y.2).map
              (cellTexts keys ∘ Prod.fst) := by
          apply List.map_congr_left
          intro row member
          rw [List.mem_insertionSort] at member
          exact cells (mem_of_mem_firsts member)
        exact same ▸ distinct
      · intro row member
        obtain ⟨n, queued⟩ := listed member
        obtain ⟨left, kept, same⟩ := @exists_mem_firsts _ _ _ key _ _ queued
        refine ⟨left.1, members.mpr ⟨left.2, kept⟩, ?_⟩
        rw [← cells (mem_of_mem_firsts kept), same, cells queued]
      · intro left member row member' same
        obtain ⟨n, kept⟩ := members.mp member
        obtain ⟨m, queued⟩ := listed member'
        have first := mem_of_mem_firsts kept
        have sorted : ordered.Pairwise fun x y =>
            keyOf f.columns (f.rowText x.1) ≤ keyOf f.columns (f.rowText y.1) :=
          List.pairwise_insertionSort _ _
        have alike : key (row, m) = key (left, n) := by rw [cells queued, cells first, same]
        have le := firsts_least (r := fun x y : (String → Cell) × Nat =>
            keyOf f.columns (f.rowText x.1) ≤ keyOf f.columns (f.rowText y.1))
          (fun _ => Std.Refl.refl _) sorted kept queued alike
        rwa [uniform.keyOf_eq (fun _ => id) member',
          uniform.keyOf_eq (fun _ => id) (inside first)] at le

theorem cellTexts_congr {row row' : String → Cell} (columns : ∀ key ∈ keys, key ∈ f.columns)
    (same : cellTexts f.columns row = cellTexts f.columns row') :
    cellTexts keys row = cellTexts keys row' := by
  have cells := List.map_inj_left.mp same
  exact List.map_congr_left fun key member => cells key (columns key member)

theorem Least.mem_content {kept : Frame Cell} (least : f.Least keys kept) {x : List Text} :
    x ∈ kept.content ↔ ∃ row ∈ f.rows, cellTexts f.columns row = x ∧
      ∀ row' ∈ f.rows, cellTexts keys row' = cellTexts keys row →
        x ≤ cellTexts f.columns row' := by
  simp only [content, Multiset.mem_coe, List.mem_map, least.columns]
  constructor
  · rintro ⟨row, member, rfl⟩
    exact ⟨row, least.rows row member, rfl, least.least row member⟩
  · rintro ⟨row, member, rfl, first⟩
    have ⟨left, kept, same⟩ := least.every row member
    refine ⟨left, kept, Std.Antisymm.antisymm _ _ ?_ (first left (least.rows left kept) same)⟩
    exact least.least left kept row member same.symm

theorem Least.nodup_content {kept : Frame Cell} (least : f.Least keys kept)
    (columns : ∀ key ∈ keys, key ∈ f.columns) : (kept.rows.map (cellTexts kept.columns)).Nodup := by
  apply List.Nodup.map_on
  · intro row member row' member' same
    rw [least.columns] at same
    exact List.inj_on_of_nodup_map least.distinct member member' (cellTexts_congr columns same)
  · exact List.Nodup.of_map _ least.distinct

theorem Least.content_eq {kept kept' : Frame Cell} (least : f.Least keys kept)
    (least' : g.Least keys kept') (columns : ∀ key ∈ keys, key ∈ f.columns)
    (same : g.columns = f.columns) (perm : g.rows.Perm f.rows) : kept'.content = kept.content := by
  apply Multiset.coe_eq_coe.mpr
  apply (List.perm_ext_iff_of_nodup (least'.nodup_content (same ▸ columns))
    (least.nodup_content columns)).mpr
  intro x
  have left := least'.mem_content (x := x)
  have right := least.mem_content (x := x)
  simp only [content, Multiset.mem_coe] at left right
  rw [left, right, same]
  simp only [perm.mem_iff]

theorem Uniform.deduplicates (uniform : f.Uniform) (named : keys ≠ []) : f.Deduplicates keys := by
  by_cases columns : ∀ key ∈ keys, key ∈ f.columns
  · have least := uniform.least named columns
    constructor
    · intro key member
      rw [presentKeys, if_pos (by simpa using columns)] at member
      have ⟨row, inside, is⟩ := List.mem_map.mp member
      have ⟨left, kept, same⟩ := least.every row inside
      have only : ((deduplicateKeys f keys).1.rows.map (cellTexts keys)).count key = 1 :=
        List.count_eq_one_of_mem least.distinct (List.mem_map.mpr ⟨left, kept, same.trans is⟩)
      rw [List.count_eq_length_filter, List.filter_map, List.length_map] at only
      rw [← only]
      congr 2
      funext row
      by_cases same : cellTexts keys row = key <;> simp [same]
    · intro g same perm
      have uniform' : g.Uniform :=
        (DrawnFrom.of_rows same fun row => perm.mem_iff.mp).uniform uniform
      exact least.content_eq (uniform'.least named (same ▸ columns)) columns same perm
    · have uniform' : (deduplicateKeys f keys).1.Uniform :=
        (DrawnFrom.of_rows least.columns least.rows).uniform uniform
      have columns' : ∀ key ∈ keys, key ∈ (deduplicateKeys f keys).1.columns :=
        least.columns ▸ columns
      have texts : (deduplicateKeys f keys).1.texts.map (keyOf keys) =
          (deduplicateKeys f keys).1.rows.map (cellTexts keys) := by
        rw [texts, List.map_map]
        exact List.map_congr_left fun row member => uniform'.keyOf_eq columns' member
      cases filled : (deduplicateKeys f keys).1.isEmpty with
      | true => exact deduplicateKeys_eq_self (.inl filled)
      | false => rw [deduplicateKeys_eq columns' filled, texts, if_pos least.distinct]
  · have unchanged {g : Frame Cell} (same : g.columns = f.columns) :
        (deduplicateKeys g keys).1 = g := by
      apply deduplicateKeys_eq_self
      right
      simpa [same] using columns
    constructor
    · intro key member
      rw [presentKeys, if_neg (by simpa using columns)] at member
      cases member
    · intro g same perm
      rw [unchanged same, unchanged rfl, content, content, same]
      exact Multiset.coe_eq_coe.mpr (perm.map _)
    · rw [unchanged rfl, unchanged rfl]

theorem not_deduplicates {c d : Cell} (name : String) (hashed : hashable c = true)
    (hashed' : hashable d = true) (alike : code c = code d) (differ : canonical c ≠ canonical d) :
    ¬ (⟨[name], [fun _ => c, fun _ => d]⟩ : Frame Cell).Deduplicates [name] := by
  intro claimed
  have first : seriesText [c, d] c = canonical c := by simp [seriesText, hashed, hashed']
  have second : seriesText [c, d] d = canonical c := by simp [seriesText, hashed, hashed', alike]
  have present : [canonical d] ∈
      (⟨[name], [fun _ => c, fun _ => d]⟩ : Frame Cell).presentKeys [name] := by
    simp [presentKeys, cellTexts]
  have kept : (deduplicateKeys (⟨[name], [fun _ => c, fun _ => d]⟩ : Frame Cell) [name]).1.rows =
      [fun _ => c] := by
    simp [deduplicateKeys, isEmpty, texts, rowText, column, keyOf, first, second, firsts,
      List.zipIdx_cons]
  have one := claimed.one _ present
  rw [kept] at one
  simp [cellTexts, differ] at one

/-- Every frame drawn from the cells of a frame has one row left of every key, whatever order
its rows come in, exactly if its columns are uniform. -/
theorem deduplicates_iff_uniform (f : Frame Cell) :
    (∀ g : Frame Cell, g.DrawnFrom f → ∀ key more, g.Deduplicates (key :: more)) ↔ f.Uniform := by
  constructor
  · intro claimed name inside c member d member' hashed hashed' alike
    by_contra differ
    apply not_deduplicates name hashed hashed' alike differ
    apply claimed
    intro name' inside'
    rw [List.mem_singleton.mp inside']
    refine ⟨inside, ?_⟩
    intro e here
    simp only [column, List.map_cons, List.map_nil, List.mem_cons, List.not_mem_nil, or_false] at here
    rcases here with rfl | rfl
    · exact member
    · exact member'
  · intro uniform g drawn key more
    exact (drawn.uniform uniform).deduplicates (List.cons_ne_nil _ _)

end Uniform

end Frame

/-- A cell that holds a whole number as a float, as Python writes it below 10^16. -/
structure WholeFloat where
  negative : Bool
  whole : Nat
  short : whole < 10 ^ 16

namespace WholeFloat

/-- `str` of the float. -/
def text (x : WholeFloat) : Text :=
  (if x.negative then ['-'] else []) ++ JsonNumber.digitsOf x.whole ++ ".0".toList

instance : CanonicalCell WholeFloat where
  canonical x :=
    match RevisionValue.canonicalRevisionValue RevisionValue.asciiDigits x.text with
    | .ok t => t
    | .error _ => []
  str := text
  hashable _ := true
  Code := Bool × Nat
  -- the two zeros are equal
  code x := (x.negative && x.whole ≠ 0, x.whole)
  decidableCode := inferInstance

/-- Rows of a code and a value. -/
def rows (values : List (WholeFloat × WholeFloat)) : Frame WholeFloat :=
  ⟨["code", "value"], values.map fun pair column => if column = "code" then pair.1 else pair.2⟩

def one : WholeFloat := ⟨false, 1, by decide⟩
def two : WholeFloat := ⟨false, 2, by decide⟩
def zero : WholeFloat := ⟨false, 0, by decide⟩
def minusZero : WholeFloat := ⟨true, 0, by decide⟩
def minusFive : WholeFloat := ⟨true, 5, by decide⟩

/-- Served in another order, another row of a key is kept. -/
theorem kept_row_depends_on_order : ¬ ∀ (f : Frame WholeFloat) (key : String) (more : List String),
    f.Deduplicates (key :: more) := by
  intro claimed
  have unordered := (claimed (rows [(one, zero), (two, minusZero), (two, minusFive)]) "code" []).unordered
    (rows [(two, minusZero), (two, minusFive), (one, zero)]) rfl (by
      exact (@List.perm_append_comm _ [_, _] [_]))
  exact absurd unordered (by decide)

end WholeFloat

end AutoTrade
