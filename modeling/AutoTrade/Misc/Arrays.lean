import AutoTrade.Misc.Runs
import AutoTrade.Misc.Sorted
import Mathlib.Data.List.Dedup
import Mathlib.Data.List.Flatten
import Mathlib.Data.List.Induction
import Mathlib.Data.List.TakeWhile

/-!
# Columns of codes

Arrays taken apart by indices: a column as codes into its distinct values, the order
that sorts one, and an array split where a running total says.
-/

namespace AutoTrade

namespace Arrays

variable {α β : Type} {ε : Type}

/-- `array[indices]`. -/
def gather (array : List α) (indices : List Nat) : List α := indices.filterMap fun i => array[i]?

/-- The values in the order they are first met. -/
def firstMet [DecidableEq α] (values : List α) : List α :=
  values.foldl (fun raw v => if v ∈ raw then raw else raw ++ [v]) []

/-- Each value's place among the values in the order they are first met. -/
def factorize [DecidableEq α] (values : List α) : List Nat × List α :=
  let raw := firstMet values
  (values.map fun v => raw.idxOf v, raw)

/-- The distinct values in ascending order. -/
def sortedDistinct [LinearOrder α] (values : List α) : List α :=
  values.dedup.insertionSort (· ≤ ·)

/-- A value's place among the sorted values. -/
def code [LinearOrder α] (uniques : List α) (v : α) : Nat := uniques.idxOf v

/-- Each value, normalized, as its place among the sorted normalized values. -/
def normalizedCodes [DecidableEq α] [LinearOrder β] (values : List α)
    (normalize : α → Except ε β) : Except ε (List Nat × List β) := do
  let coded := factorize values
  let normalized ← coded.2.mapM normalize
  let uniques := sortedDistinct normalized
  let inverse := normalized.map (code uniques)
  return (gather inverse coded.1, uniques)

/-- The indices of the keys in the order of the keys, equal keys in their own order. -/
def argsort [LinearOrder α] (keys : List α) : List Nat :=
  (keys.zipIdx.insertionSort fun a b => a.1 ≤ b.1).map Prod.snd

/-- The running totals behind `total`. -/
def cumsum (total : Nat) : List Nat → List Nat
  | [] => []
  | n :: rest => (total + n) :: cumsum (total + n) rest

/-- The parts of an array behind `start`, up to each bound, and the rest. -/
def splitAt (array : List α) (start : Nat) : List Nat → List (List α)
  | [] => [array.drop start]
  | bound :: bounds => (array.take bound).drop start :: splitAt array bound bounds

/-- How often each code below `length` stands among the codes. -/
def bincount (codes : List Nat) (length : Nat) : List Nat :=
  (List.range length).map fun code => codes.count code

theorem getElem?_gather {array : List α} {indices : List Nat}
    (inside : ∀ i ∈ indices, i < array.length) (k : Nat) :
    (gather array indices)[k]? = indices[k]?.bind fun i => array[i]? := by
  induction indices generalizing k with
  | nil => rfl
  | cons i rest ih =>
    have here := inside i List.mem_cons_self
    have some : array[i]? = some array[i] := List.getElem?_eq_getElem here
    have later := ih fun j member => inside j (List.mem_cons_of_mem i member)
    unfold gather at later ⊢
    rw [List.filterMap_cons_some some]
    cases k with
    | zero => simp [some]
    | succ k => simpa using later k

theorem gather_map (f : α → β) (array : List α) (indices : List Nat) :
    gather (array.map f) indices = (gather array indices).map f := by
  unfold gather
  rw [List.map_filterMap]
  simp only [List.getElem?_map]

theorem gather_range (array : List α) : gather array (List.range array.length) = array := by
  apply List.ext_getElem?
  intro k
  rw [getElem?_gather fun i member => List.mem_range.mp member]
  by_cases inside : k < array.length
  · simp [inside]
  · simp [inside]

theorem perm_gather {array : List α} {indices : List Nat}
    (perm : indices.Perm (List.range array.length)) : (gather array indices).Perm array := by
  have arranged := perm.filterMap fun i => array[i]?
  exact arranged.trans (List.Perm.of_eq (gather_range array))

theorem zipWith_map_map {γ δ : Type} (f : β → γ → δ) (g : α → β) (h : α → γ) (l : List α) :
    List.zipWith f (l.map g) (l.map h) = l.map fun a => f (g a) (h a) := by
  induction l with
  | nil => rfl
  | cons a l ih => simp [ih]

theorem filter_range_takeWhile {p : α → Bool} {l : List α}
    (closed : l.Pairwise fun a b => p b = true → p a = true) :
    ((List.range l.length).filter fun k => l[k]?.any p) = List.range (l.takeWhile p).length := by
  induction l using List.reverseRecOn with
  | nil => rfl
  | append_singleton l last ih =>
    obtain ⟨earlier, -, before⟩ := List.pairwise_append.mp closed
    have same : ((List.range l.length).filter fun k => (l ++ [last])[k]?.any p) =
        (List.range l.length).filter fun k => l[k]?.any p := by
      apply List.filter_congr
      intro k member
      rw [List.getElem?_append_left (List.mem_range.mp member)]
    rw [List.length_append, List.length_singleton, List.range_succ, List.filter_append, same,
      ih earlier]
    by_cases holds : p last
    · have all : ∀ a ∈ l, p a := fun a member =>
        before a member last (List.mem_singleton.mpr rfl) holds
      rw [List.takeWhile_append_of_pos all, List.takeWhile_eq_self_iff.mpr all]
      simp [holds, List.range_succ]
    · have stops : (l ++ [last]).takeWhile p = l.takeWhile p := by
        rw [List.takeWhile_append]
        split_ifs with whole
        · rw [List.takeWhile_cons_of_neg holds, List.append_nil]
          exact ((List.takeWhile_prefix p).eq_of_length whole).symm
        · rfl
      simp [stops, holds]

variable {l : List α}

theorem nodup_map_congr {γ : Type} {f : α → β} {g : α → γ}
    (same : ∀ a ∈ l, ∀ b ∈ l, f a = f b ↔ g a = g b) : (l.map f).Nodup ↔ (l.map g).Nodup := by
  simp only [List.Nodup, List.pairwise_map]
  constructor
  · intro distinct
    exact distinct.imp_of_mem fun member member' differ equal =>
      differ ((same _ member _ member').mpr equal)
  · intro distinct
    exact distinct.imp_of_mem fun member member' differ equal =>
      differ ((same _ member _ member').mp equal)

theorem length_dedup_eq_iff [DecidableEq α] : l.dedup.length = l.length ↔ l.Nodup := by
  constructor
  · intro same
    exact List.dedup_eq_self.mp ((List.dedup_sublist l).eq_of_length same)
  · intro distinct
    rw [List.dedup_eq_self.mpr distinct]

variable {values : List α} {v : α}

theorem mem_firstMet [DecidableEq α] : v ∈ firstMet values ↔ v ∈ values := by
  unfold firstMet
  induction values using List.reverseRecOn with
  | nil => simp
  | append_singleton values w ih =>
    rw [List.foldl_append, List.foldl_cons, List.foldl_nil, List.mem_append, ← ih]
    split_ifs with met
    · constructor
      · exact .inl
      · rintro (earlier | last)
        · exact earlier
        · exact List.mem_singleton.mp last ▸ met
    · simp

theorem mem_sortedDistinct [LinearOrder α] : v ∈ sortedDistinct values ↔ v ∈ values := by
  simp [sortedDistinct]

theorem sortedDistinct_pairwise [LinearOrder α] (values : List α) :
    (sortedDistinct values).Pairwise (· < ·) := by
  have sorted := List.pairwise_insertionSort (· ≤ ·) values.dedup
  have distinct : (sortedDistinct values).Nodup :=
    (List.perm_insertionSort _ _).nodup_iff.mpr (List.nodup_dedup values)
  exact (sorted.and distinct).imp fun h => lt_of_le_of_ne h.1 h.2

theorem sortedDistinct_nodup [LinearOrder α] (values : List α) : (sortedDistinct values).Nodup :=
  (sortedDistinct_pairwise values).imp ne_of_lt

theorem sortedDistinct_congr [LinearOrder α] {values values' : List α}
    (same : ∀ v, v ∈ values ↔ v ∈ values') : sortedDistinct values = sortedDistinct values' := by
  have perm : (sortedDistinct values).Perm (sortedDistinct values') := by
    apply (List.perm_ext_iff_of_nodup _ _).mpr
    · intro v
      rw [mem_sortedDistinct, mem_sortedDistinct, same]
    · exact sortedDistinct_nodup values
    · exact sortedDistinct_nodup values'
  exact perm.eq_of_pairwise (fun a b _ _ lt gt => absurd (lt.trans gt) (lt_irrefl a))
    (sortedDistinct_pairwise values) (sortedDistinct_pairwise values')

theorem getElem?_idxOf_of_mem [DecidableEq α] (member : v ∈ values) :
    values[values.idxOf v]? = some v := by
  have inside := List.idxOf_lt_length_of_mem member
  rw [List.getElem?_eq_getElem inside, List.getElem_idxOf inside]

variable {uniques : List α}

theorem code_lt_length [LinearOrder α] (member : v ∈ uniques) :
    code uniques v < uniques.length := List.idxOf_lt_length_of_mem member

theorem getElem?_code [LinearOrder α] (member : v ∈ uniques) :
    uniques[code uniques v]? = some v := getElem?_idxOf_of_mem member

theorem code_injOn [LinearOrder α] {v w : α} (member : v ∈ uniques) (member' : w ∈ uniques) :
    code uniques v = code uniques w ↔ v = w := by
  constructor
  · intro same
    have found := getElem?_code member
    rw [same, getElem?_code member'] at found
    exact (Option.some.inj found).symm
  · rintro rfl
    rfl

theorem code_le_code [LinearOrder α] (sorted : uniques.Pairwise (· < ·)) {v w : α}
    (member : v ∈ uniques) (member' : w ∈ uniques) :
    code uniques v ≤ code uniques w ↔ v ≤ w := by
  have inside := List.idxOf_lt_length_of_mem member
  have inside' := List.idxOf_lt_length_of_mem member'
  have order := List.pairwise_iff_getElem.mp sorted
  constructor
  · intro le
    rcases le.lt_or_eq with less | same
    · have := order _ _ inside inside' less
      simp only [List.getElem_idxOf] at this
      exact this.le
    · exact ((code_injOn member member').mp same).le
  · intro le
    by_contra more
    have := order _ _ inside' inside (Nat.lt_of_not_le more)
    simp only [List.getElem_idxOf] at this
    exact absurd this (not_lt.mpr le)

variable {normalize : α → Except ε β}

theorem normalizedCodes_isOk [DecidableEq α] [LinearOrder β] :
    (∃ coded, normalizedCodes values normalize = .ok coded) ↔
      ∀ v ∈ values, ∃ n, normalize v = .ok n := by
  have reads := @mapM_isOk _ _ _ normalize (firstMet values)
  simp only [mem_firstMet] at reads
  rw [← reads]
  simp only [normalizedCodes, factorize, bind_eq_ok, pure_eq_ok]
  constructor
  · rintro ⟨-, normalized, read, -⟩
    exact ⟨normalized, read⟩
  · rintro ⟨normalized, read⟩
    exact ⟨_, normalized, read, rfl⟩

theorem normalizedCodes_eq_error [DecidableEq α] [LinearOrder β] {e : ε}
    (stops : normalizedCodes values normalize = .error e) :
    ∃ v ∈ values, normalize v = .error e := by
  unfold normalizedCodes at stops
  cases read : (factorize values).2.mapM normalize with
  | error e' =>
    simp only [read] at stops
    cases stops
    obtain ⟨v, member, here⟩ := mapM_eq_error read
    exact ⟨v, mem_firstMet.mp member, here⟩
  | ok normalized =>
    simp only [read] at stops
    cases stops

variable {R : α → β → Prop}

theorem getElem?_of_forall₂ {g : α → Option β} (finds : ∀ a b, R a b → g a = some b) {bs : List β}
    (pairs : List.Forall₂ R l bs) (i : Nat) : bs[i]? = l[i]?.bind g := by
  induction pairs generalizing i with
  | nil => rfl
  | cons here _ ih =>
    cases i with
    | zero => simp [finds _ _ here]
    | succ i => simpa using ih i

theorem mem_of_forall₂ {bs : List β} (functional : ∀ a b b', R a b → R a b' → b = b')
    (pairs : List.Forall₂ R l bs) {b : β} :
    b ∈ bs ↔ ∃ a ∈ l, R a b := by
  induction pairs with
  | nil => simp
  | cons here _ ih =>
    rw [List.mem_cons, ih, List.exists_mem_cons_iff]
    apply or_congr_left
    exact ⟨fun same => same ▸ here, fun there => functional _ _ _ there here⟩

variable {codes : List Nat}

theorem normalizedCodes_spec [DecidableEq α] [LinearOrder β] {uniques : List β}
    (coded : normalizedCodes values normalize = .ok (codes, uniques)) :
    ∃ normalized : List β, List.Forall₂ (fun v n => normalize v = .ok n) values normalized ∧
      uniques = sortedDistinct normalized ∧ codes = normalized.map (code uniques) := by
  obtain ⟨normalized, read⟩ : ∃ normalized, values.mapM normalize = .ok normalized :=
    mapM_isOk.mpr (normalizedCodes_isOk.mp ⟨_, coded⟩)
  simp only [normalizedCodes, factorize, bind_eq_ok, pure_eq_ok, Prod.mk.injEq] at coded
  obtain ⟨raw, readRaw, codes', rfl⟩ := coded
  rw [mapM_eq_ok] at read readRaw
  have functional (v : α) (n n' : β) (h : normalize v = .ok n) (h' : normalize v = .ok n') :
      n = n' := Except.ok.inj (h.symm.trans h')
  have finds (v : α) (n : β) (h : normalize v = .ok n) : (normalize v).toOption = some n := by
    rw [h]
    rfl
  have uniques : sortedDistinct raw = sortedDistinct normalized := by
    apply sortedDistinct_congr
    intro n
    rw [mem_of_forall₂ functional read, mem_of_forall₂ functional readRaw]
    simp only [mem_firstMet]
  refine ⟨normalized, read, uniques, ?_⟩
  rw [← codes']
  have inside : ∀ i ∈ values.map fun v => (firstMet values).idxOf v,
      i < (raw.map (code (sortedDistinct raw))).length := by
    intro i member
    obtain ⟨v, inList, rfl⟩ := List.mem_map.mp member
    rw [List.length_map, ← readRaw.length_eq]
    exact List.idxOf_lt_length_of_mem (mem_firstMet.mpr inList)
  apply List.ext_getElem?
  intro k
  rw [getElem?_gather inside, List.getElem?_map, List.getElem?_map, getElem?_of_forall₂ finds read]
  cases value : values[k]? with
  | none => rfl
  | some v =>
    have met := getElem?_idxOf_of_mem (mem_firstMet.mpr (List.mem_of_getElem? value))
    simp [getElem?_of_forall₂ finds readRaw, met]

theorem normalizedCodes_map [DecidableEq α] [LinearOrder β] {f : α → β}
    (reads : ∀ v ∈ values, normalize v = .ok (f v)) :
    normalizedCodes values normalize = .ok
      (values.map fun v => code (sortedDistinct (values.map f)) (f v),
        sortedDistinct (values.map f)) := by
  obtain ⟨⟨codes, uniques⟩, coded⟩ := normalizedCodes_isOk.mpr fun v member =>
    ⟨f v, reads v member⟩
  obtain ⟨normalized, read, rfl, rfl⟩ := normalizedCodes_spec coded
  have same : normalized = values.map f := by
    clear coded
    induction read with
    | nil => rfl
    | cons here _ ih =>
      rw [List.map_cons, ← ih fun v member => reads v (List.mem_cons_of_mem _ member)]
      rw [Except.ok.inj (here.symm.trans (reads _ List.mem_cons_self))]
  rw [coded, same, List.map_map]
  rfl

theorem perm_argsort [LinearOrder α] (keys : List α) :
    (argsort keys).Perm (List.range keys.length) := by
  have places : keys.zipIdx.map Prod.snd = List.range keys.length := by
    rw [List.zipIdx_eq_zip_range', List.map_snd_zip (by simp), List.range_eq_range']
  exact places ▸ (List.perm_insertionSort _ _).map Prod.snd

theorem mem_argsort [LinearOrder α] {keys : List α} {i : Nat} :
    i ∈ argsort keys ↔ i < keys.length := by
  rw [(perm_argsort keys).mem_iff, List.mem_range]

theorem gather_argsort [LinearOrder α] (keys : List α) :
    gather keys (argsort keys) = (keys.zipIdx.insertionSort fun a b => a.1 ≤ b.1).map Prod.fst := by
  unfold gather argsort
  rw [List.filterMap_map]
  apply List.filterMap_eq_map_iff_forall_eq_some.mpr
  intro pair member
  have inside := (List.mem_insertionSort _).mp member
  exact List.mem_zipIdx_iff_getElem?.mp inside

theorem sorted_argsort [LinearOrder α] (keys : List α) :
    (gather keys (argsort keys)).Pairwise (· ≤ ·) := by
  have total : Std.Total fun a b : α × Nat => a.1 ≤ b.1 := ⟨fun a b => le_total a.1 b.1⟩
  have trans : IsTrans (α × Nat) fun a b => a.1 ≤ b.1 := ⟨fun _ _ _ => le_trans⟩
  rw [gather_argsort, List.pairwise_map]
  exact List.pairwise_insertionSort _ _

theorem filter_insertionSort [LinearOrder α] (pairs : List (α × Nat)) (key : α) :
    (pairs.insertionSort fun a b => a.1 ≤ b.1).filter (fun pair => pair.1 = key) =
      pairs.filter fun pair => pair.1 = key := by
  have total : Std.Total fun a b : α × Nat => a.1 ≤ b.1 := ⟨fun a b => le_total a.1 b.1⟩
  have trans : IsTrans (α × Nat) fun a b => a.1 ≤ b.1 := ⟨fun _ _ _ => le_trans⟩
  have alike : (pairs.filter fun pair => pair.1 = key).Pairwise fun a b => a.1 ≤ b.1 := by
    apply List.pairwise_of_forall_mem_list
    intro a member b member'
    have here := (List.mem_filter.mp member).2
    have there := (List.mem_filter.mp member').2
    rw [decide_eq_true_eq] at here there
    rw [here, there]
  have kept := (List.sublist_insertionSort alike List.filter_sublist).filter
    fun pair : α × Nat => decide (pair.1 = key)
  rw [List.filter_filter] at kept
  simp only [Bool.and_self] at kept
  exact (kept.eq_of_length
    ((List.perm_insertionSort _ _).filter fun pair : α × Nat =>
      decide (pair.1 = key)).length_eq.symm).symm

theorem filter_argsort [LinearOrder α] (keys : List α) (key : α) :
    (argsort keys).filter (fun i => keys[i]? = some key) =
      (List.range keys.length).filter fun i => keys[i]? = some key := by
  have places : List.range keys.length = keys.zipIdx.map Prod.snd := by
    rw [List.zipIdx_eq_zip_range', List.map_snd_zip (by simp), List.range_eq_range']
  have keyed {pairs : List (α × Nat)} (all : ∀ pair ∈ pairs, pair ∈ keys.zipIdx) :
      (pairs.map Prod.snd).filter (fun i => keys[i]? = some key) =
        (pairs.filter fun pair => pair.1 = key).map Prod.snd := by
    rw [List.filter_map]
    apply congrArg (List.map Prod.snd)
    apply List.filter_congr
    rintro ⟨key', i⟩ member
    have found := List.mem_zipIdx_iff_getElem?.mp (all _ member)
    simp [found]
  rw [places, keyed fun pair member => member, argsort,
    keyed fun pair member => (List.mem_insertionSort _).mp member, filter_insertionSort]

theorem splitAt_cumsum {pieces : List (List α)} (filled : pieces ≠ []) (before : List α) :
    splitAt (before ++ pieces.flatten) before.length
        (cumsum before.length (pieces.map List.length)).dropLast = pieces := by
  induction pieces generalizing before with
  | nil => exact absurd rfl filled
  | cons piece rest ih =>
    cases rest with
    | nil => simp [cumsum, splitAt]
    | cons next rest =>
      have later := ih (by simp) (before ++ piece)
      have first : ((before ++ (piece :: next :: rest).flatten).take
          (before.length + piece.length)).drop before.length = piece := by
        simp [List.take_append]
      rw [List.length_append] at later
      simp only [List.map_cons, cumsum, List.dropLast_cons_cons, splitAt, first] at later ⊢
      rw [List.flatten_cons, ← List.append_assoc, later]

theorem count_eq_length_filter [DecidableEq α] (keys : List α) (key : α) :
    keys.count key = ((List.range keys.length).filter fun i => keys[i]? = some key).length := by
  induction keys using List.reverseRecOn with
  | nil => rfl
  | append_singleton keys last ih =>
    have earlier : ((List.range keys.length).filter fun i => (keys ++ [last])[i]? = some key) =
        (List.range keys.length).filter fun i => keys[i]? = some key := by
      apply List.filter_congr
      intro i member
      rw [List.getElem?_append_left (List.mem_range.mp member)]
    rw [List.count_append, ih, List.length_append, List.length_singleton, List.range_succ,
      List.filter_append, List.length_append, earlier, List.count_singleton]
    by_cases here : last = key <;> simp [here]

theorem flatten_indices {n : Nat} (below : ∀ code ∈ codes, code < n) :
    ((List.range n).map fun code => (List.range codes.length).filter fun i =>
      codes[i]? = some code).flatten = argsort codes := by
  have coded : ∀ i ∈ argsort codes, codes[i]? = some (codes.getD i 0) := by
    intro i member
    have inside := mem_argsort.mp member
    simp [List.getElem?_eq_getElem inside, List.getD_eq_getElem?_getD]
  have sorted : (argsort codes).Pairwise fun i j => codes.getD i 0 ≤ codes.getD j 0 := by
    have keys := sorted_argsort codes
    have values : gather codes (argsort codes) = (argsort codes).map fun i => codes.getD i 0 :=
      List.filterMap_eq_map_iff_forall_eq_some.mpr coded
    rwa [values, List.pairwise_map] at keys
  have classes := flatMap_filter_of_sorted (f := fun i => codes.getD i 0)
    (argsort codes) sorted (List.pairwise_lt_range (n := n)) fun i member =>
      List.mem_range.mpr (below _ (List.mem_of_getElem? (coded i member)))
  rw [← classes, List.flatMap_def]
  apply congrArg List.flatten
  apply List.map_congr_left
  intro code _
  rw [← filter_argsort]
  apply List.filter_congr
  intro i member
  rw [coded i member, decide_eq_decide, Option.some.injEq]

theorem split_argsort {n : Nat} (some : n ≠ 0) (below : ∀ code ∈ codes, code < n) :
    splitAt (argsort codes) 0 (cumsum 0 (bincount codes n)).dropLast =
      (List.range n).map fun code => (List.range codes.length).filter fun i =>
        codes[i]? = Option.some code := by
  have lengths : bincount codes n = ((List.range n).map fun code =>
      (List.range codes.length).filter fun i => codes[i]? = Option.some code).map List.length := by
    simp [bincount, count_eq_length_filter]
  have split := @splitAt_cumsum _ ((List.range n).map fun code =>
    (List.range codes.length).filter fun i => codes[i]? = Option.some code) (by simp [some]) []
  rw [List.nil_append, flatten_indices below, ← lengths] at split
  exact split

end Arrays

end AutoTrade
