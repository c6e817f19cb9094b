import AutoTrade.Environment.Proofs.TimeviewNames

/-!
# A directory of parts

A directory is described by the spans its files stand for. Spans that follow one another from part
0 on are read back in that order, each row on part 0's schema.
-/

namespace AutoTrade

namespace Timeview

variable {Row : Type} {schema : PartSchema Row} {plan : PartPlan Row}

/-- The parts of a span, concatenated on part 0's schema where there are several. -/
def spanPart (schema : PartSchema Row) (plan : PartPlan Row) (span : Span) : Part Row :=
  if span.1 = span.2 then plan.part span.1
  else (List.range' span.1 (span.2 + 1 - span.1)).flatMap fun seq =>
    (plan.part seq).map (List.map schema.project)

def fileOf (schema : PartSchema Row) (plan : PartPlan Row) (span : Span) :
    Text × Written (Part Row) :=
  (spanName span, .whole (spanPart schema plan span))

/-- What a read makes of the rows of a part. -/
def partRows (schema : PartSchema Row) (plan : PartPlan Row) (seq : Nat) : List Row :=
  (plan.part seq).flatten.map schema.project

/-- The rows of the parts published so far, in the order of their publication. -/
def publishedRows (schema : PartSchema Row) (plan : PartPlan Row) (count : Nat) : List Row :=
  (List.range count).flatMap (partRows schema plan)

/-- Spans that follow one another from part `a` on, up to part `b`. -/
inductive Covers : Nat → List Span → Nat → Prop where
  | nil (a : Nat) : Covers a [] a
  | cons {a b c : Nat} {spans : List Span} (order : a ≤ b) (rest : Covers (b + 1) spans c) :
      Covers a ((a, b) :: spans) c

/-- The parts from `a` on, each by itself. -/
def singles (a b : Nat) : List Span := (List.range' a (b - a)).map fun seq => (seq, seq)

theorem singles_self (a : Nat) : singles a a = [] := by
  simp [singles]

variable {a b : Nat}

theorem singles_succ (le : a ≤ b) : singles a (b + 1) = singles a b ++ [(b, b)] := by
  rw [singles, show b + 1 - a = b - a + 1 by omega, List.range'_1_concat, List.map_append,
    List.map_singleton, show a + (b - a) = b by omega, singles]

theorem mem_singles {span : Span} :
    span ∈ singles a b ↔ span.1 = span.2 ∧ a ≤ span.1 ∧ span.1 < b := by
  simp only [singles, List.mem_map, List.mem_range'_1, Prod.ext_iff]
  constructor
  · rintro ⟨seq, bounds, first, last⟩
    omega
  · intro single
    exact ⟨span.1, by omega, rfl, single.1⟩

namespace Covers

theorem append {a b c : Nat} {spans spans' : List Span} (covers : Covers a spans b)
    (covers' : Covers b spans' c) : Covers a (spans ++ spans') c := by
  induction covers with
  | nil => exact covers'
  | cons order rest ih => exact .cons order (ih covers')

theorem singles {a b : Nat} (le : a ≤ b) : Covers a (singles a b) b := by
  induction b, le using Nat.le_induction with
  | base =>
    rw [singles_self]
    exact .nil a
  | succ b le ih =>
    rw [singles_succ le]
    exact ih.append (.cons le_rfl (.nil _))

variable {spans : List Span} {a b : Nat}

theorem le (covers : Covers a spans b) : a ≤ b := by
  induction covers with
  | nil => exact le_rfl
  | cons order rest ih => omega

theorem bounds (covers : Covers a spans b) {span : Span} (member : span ∈ spans) :
    a ≤ span.1 ∧ span.1 ≤ span.2 ∧ span.2 < b := by
  induction covers with
  | nil => cases member
  | cons order rest ih =>
    have end' := rest.le
    rcases List.mem_cons.mp member with rfl | later
    · exact ⟨le_rfl, order, end'⟩
    · have inside := ih later
      omega

theorem exists_span (covers : Covers a spans b) {seq : Nat} (from' : a ≤ seq) (until' : seq < b) :
    ∃ span ∈ spans, span.1 ≤ seq ∧ seq ≤ span.2 := by
  induction covers with
  | nil => omega
  | @cons a b c spans order rest ih =>
    by_cases here : seq ≤ b
    · exact ⟨(a, b), List.mem_cons_self, from', here⟩
    · have ⟨span, member, inside⟩ := ih (by omega) until'
      exact ⟨span, List.mem_cons_of_mem _ member, inside⟩

theorem ascending (covers : Covers a spans b) :
    spans.Pairwise fun span span' => span.1 < span'.1 := by
  induction covers with
  | nil => exact List.Pairwise.nil
  | cons order rest ih =>
    refine List.pairwise_cons.mpr ⟨fun span member => ?_, ih⟩
    have later := (rest.bounds member).1
    omega

end Covers

theorem map_project_project (rows : List Row) :
    (rows.map schema.project).map schema.project = rows.map schema.project := by
  rw [List.map_map]
  exact List.map_congr_left fun row _ => schema.project_project row

theorem rows_merged (seqs : List Nat) :
    ((seqs.flatMap fun seq => (plan.part seq).map (List.map schema.project)).flatten).map
        schema.project = seqs.flatMap (partRows schema plan) := by
  induction seqs with
  | nil => rfl
  | cons seq seqs ih =>
    rw [List.flatMap_cons, List.flatMap_cons, List.flatten_append, List.map_append, ih]
    rw [← List.map_flatten, map_project_project, partRows]

theorem rows_spanPart (span : Span) :
    (spanPart schema plan span).flatten.map schema.project =
      (List.range' span.1 (span.2 + 1 - span.1)).flatMap (partRows schema plan) := by
  rw [spanPart]
  split
  · rename_i single
    rw [← single, show span.1 + 1 - span.1 = 1 by omega, List.range'_one, List.flatMap_singleton,
      partRows]
  · exact rows_merged _

theorem Covers.rows {spans : List Span} (covers : Covers a spans b) :
    (spans.flatMap fun span => (spanPart schema plan span).flatten.map schema.project) =
      (List.range' a (b - a)).flatMap (partRows schema plan) := by
  induction covers with
  | nil => simp
  | @cons a b c spans order rest ih =>
    have until' := rest.le
    rw [List.flatMap_cons, ih, rows_spanPart, ← List.flatMap_append]
    congr 1
    have parts := @List.range'_append_1 a (b + 1 - a) (c - (b + 1))
    rw [show a + (b + 1 - a) = b + 1 by omega] at parts
    rw [parts]
    congr 1
    omega

theorem rowCount_append (part part' : Part Row) :
    rowCount (part ++ part') = rowCount part + rowCount part' := by
  simp [rowCount]

theorem rowCount_spanPart (span : Span) :
    rowCount (spanPart schema plan span) =
      ((List.range' span.1 (span.2 + 1 - span.1)).map fun seq => rowCount (plan.part seq)).sum := by
  have merged : ∀ seqs : List Nat,
      rowCount (seqs.flatMap fun seq => (plan.part seq).map (List.map schema.project)) =
        (seqs.map fun seq => rowCount (plan.part seq)).sum := by
    intro seqs
    induction seqs with
    | nil => rfl
    | cons seq seqs ih =>
      rw [List.flatMap_cons, rowCount_append, ih, List.map_cons, List.sum_cons]
      simp [rowCount, Function.comp_def]
  rw [spanPart]
  split
  · rename_i single
    rw [← single, show span.1 + 1 - span.1 = 1 by omega]
    simp
  · exact merged _

/-- The directory holds a file for each of the spans, and no other. -/
def Holds (schema : PartSchema Row) (plan : PartPlan Row) (dir : Dict Text (Written (Part Row)))
    (spans : List Span) : Prop :=
  dir.entries.Perm (spans.map (fileOf schema plan))

namespace Holds

variable {dir : Dict Text (Written (Part Row))} {spans : List Span}

theorem keys (holds : Holds schema plan dir spans) : dir.keys.Perm (spans.map spanName) := by
  have names := List.Perm.map Prod.fst holds
  rw [List.map_map] at names
  exact names

theorem get? (holds : Holds schema plan dir spans) {span : Span} (member : span ∈ spans) :
    dir.get? (spanName span) = some (.whole (spanPart schema plan span)) :=
  Dict.mem_entries_iff.mp (holds.mem_iff.mpr (List.mem_map_of_mem member))

theorem set (holds : Holds schema plan dir spans) {span : Span} (fresh : span ∉ spans) :
    Holds schema plan (dir.set (spanName span) (.whole (spanPart schema plan span)))
      (spans ++ [span]) := by
  have absent : spanName span ∉ dir.keys := by
    rw [holds.keys.mem_iff, List.mem_map_of_injective spanName_injective]
    exact fresh
  rw [Holds, Dict.entries_set_of_fresh absent, List.map_append]
  exact List.Perm.append_right _ holds

theorem erase {span : Span} (holds : Holds schema plan dir (span :: spans)) :
    Holds schema plan (dir.erase (spanName span)) spans := by
  have found := holds.get? List.mem_cons_self
  exact ((Dict.entries_perm_erase found).symm.trans holds).cons_inv

theorem perm (holds : Holds schema plan dir spans) {spans' : List Span} (same : spans.Perm spans') :
    Holds schema plan dir spans' := by
  exact List.Perm.trans holds (same.map _)

end Holds

theorem pairwise_names {spans : List Span} (covers : Covers a spans b) (few : b ≤ 10000) :
    (spans.map (fileOf schema plan)).Pairwise fun file file' => file.1 ≤ file'.1 := by
  refine List.pairwise_map.mpr (covers.ascending.imp_of_mem ?_)
  intro span span' member member' before
  have small : span'.1 < 10000 := by
    have inside := covers.bounds member'
    omega
  exact (spanName_lt small before).le

theorem readDir_eq {dir : Dict Text (Written (Part Row))} {spans : List Span} {count : Nat}
    (holds : Holds schema plan dir spans) (covers : Covers 0 spans count) (few : count ≤ 10000) :
    readDir schema dir = some (publishedRows schema plan count) := by
  have total : Std.Total fun a b : Text × Written (Part Row) => a.1 ≤ b.1 :=
    ⟨fun a b => le_total a.1 b.1⟩
  have trans : IsTrans (Text × Written (Part Row)) fun a b => a.1 ≤ b.1 := ⟨fun _ _ _ => le_trans⟩
  have ordered : dir.entries.insertionSort (fun a b => a.1 ≤ b.1) =
      spans.map (fileOf schema plan) := by
    apply List.Perm.eq_of_pairwise ?_ (List.pairwise_insertionSort _ _) (pairwise_names covers few)
    · exact (List.perm_insertionSort _ _).trans holds
    · intro file file' member member' before after
      have inside := holds.mem_iff.mp ((List.perm_insertionSort _ _).mem_iff.mp member)
      have ⟨span, _, made⟩ := List.mem_map.mp inside
      have ⟨span', _, made'⟩ := List.mem_map.mp member'
      have same : spanName span = spanName span' := by
        rw [← made, ← made'] at before after
        exact le_antisymm before after
      rw [← made, ← made', spanName_injective same]
  have whole : (spans.map (fileOf schema plan)).mapM (fun entry => entry.2.content?) =
      some (spans.map (spanPart schema plan)) := by
    rw [List.mapM_map]
    exact List.mapM_pure
  rw [readDir, ordered, whole]
  simp only [Option.map_some, Option.some.injEq, List.flatMap_map, List.map_flatMap]
  rw [covers.rows, publishedRows, List.range_eq_range', Nat.sub_zero]

end Timeview

end AutoTrade
