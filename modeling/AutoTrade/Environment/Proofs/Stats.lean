import AutoTrade.Environment.Replay.Stats
import AutoTrade.Misc.Runs
import AutoTrade.Misc.Sorted
import Mathlib.Algebra.BigOperators.Group.List.Basic
import Mathlib.Tactic.FieldSimp

/-!
# The years of a replay and the whole of it

Every day of a curve is reported in one year, and the returns of the years compound to the whole
return. Their trades and turnover add up to the whole only if no fill lies in a year without a
day: such a year is left out with all that was traded in it.
-/

namespace AutoTrade

namespace Stats

/-- Where a day is placed; past the last window, if in none. -/
def placeOf (windows : List (Nat × Nat)) (day : Nat) : Nat :=
  windows.findIdx fun window => window.1 ≤ day ∧ day ≤ window.2

variable {windows : List (Nat × Nat)}

theorem windowIndex_eq_ok {day i : Nat} :
    windowIndex day windows = .ok i ↔ placeOf windows day = i ∧ i < windows.length := by
  unfold windowIndex placeOf
  constructor
  · intro placed
    split at placed
    · rename_i index found
      obtain rfl := Except.ok.inj placed
      have ⟨inside, here, before⟩ := List.findIdx?_eq_some_iff_getElem.mp found
      refine ⟨(List.findIdx_eq inside).mpr ⟨here, fun j earlier => ?_⟩, inside⟩
      simpa using before j earlier
    · cases placed
  · rintro ⟨rfl, inside⟩
    rw [List.findIdx?_eq_some_of_exists (List.findIdx_lt_length.mp inside)]

theorem byWindow_eq_ok {α : Type} {items : List (Nat × α)} {buckets : List (List (Nat × α))} :
    byWindow windows items = .ok buckets ↔
      (∀ item ∈ items, placeOf windows item.1 < windows.length) ∧
        buckets = (List.range windows.length).map fun i =>
          items.filter fun item => placeOf windows item.1 = i := by
  have made : (∀ item ∈ items, placeOf windows item.1 < windows.length) →
      (items.mapM fun item => do
        let index ← windowIndex item.1 windows
        return (index, item)) = .ok (items.map fun item => (placeOf windows item.1, item)) := by
    intro inside
    refine mapM_eq_map fun item member => ?_
    rw [windowIndex_eq_ok.mpr ⟨rfl, inside item member⟩]
    rfl
  have taken : ∀ i, ((items.map fun item => (placeOf windows item.1, item)).filter
      (·.1 = i)).map Prod.snd = items.filter fun item => placeOf windows item.1 = i := by
    intro i
    rw [List.filter_map, List.map_map]
    exact List.map_id _
  unfold byWindow
  constructor
  · intro ran
    have ⟨placed, each, same⟩ := bind_eq_ok.mp ran
    have inside : ∀ item ∈ items, placeOf windows item.1 < windows.length := by
      intro item member
      have ⟨_, _, one⟩ := mem_of_mapM each member
      have ⟨index, found, _⟩ := bind_eq_ok.mp one
      have ⟨same, inside⟩ := windowIndex_eq_ok.mp found
      rwa [same]
    obtain rfl := Except.ok.inj (each.symm.trans (made inside))
    refine ⟨inside, (Except.ok.inj same).symm.trans (List.map_congr_left fun i _ => taken i)⟩
  · rintro ⟨inside, rfl⟩
    rw [made inside]
    exact congrArg Except.ok (List.map_congr_left fun i _ => taken i)

/-- A year's row is about its days. -/
structure Reports (row : SubWindow) (block : List (Nat × ℚ)) : Prop where
  tradeDays : row.tradeDays = block.length
  start : block.head?.map Prod.fst = some row.start
  stop : block.getLast?.map Prod.fst = some row.stop

section

variable {sqrt : ℚ → ℚ} {kind : String} {initial : ℚ} {windowStart windowEnd : Nat}

theorem reports_yearRows (opening : ℚ) (parts : List ((Nat × Nat) × List (Nat × ℚ) × ℚ × Nat)) :
    List.Forall₂ Reports (yearRows sqrt kind initial windowStart windowEnd opening parts)
      ((parts.map (·.2.1)).filter (· ≠ [])) := by
  induction parts generalizing opening with
  | nil => exact .nil
  | cons part parts ih =>
    have ⟨window, block, traded, exits⟩ := part
    cases block with
    | nil => exact ih opening
    | cons first others =>
      refine .cons ⟨rfl, rfl, ?_⟩ (ih _)
      rw [List.getLast?_cons, List.getLastD_eq_getLast?]
      rfl

/-- The equity each year with a day closes at. -/
def closingsOf (blocks : List (List (Nat × ℚ))) : List ℚ :=
  blocks.filterMap fun block => block.getLast?.map Prod.snd

variable {parts : List ((Nat × Nat) × List (Nat × ℚ) × ℚ × Nat)}

theorem yearRows_eq_nil (none : closingsOf (parts.map (·.2.1)) = []) (opening : ℚ) :
    yearRows sqrt kind initial windowStart windowEnd opening parts = [] := by
  induction parts generalizing opening with
  | nil => rfl
  | cons part parts ih =>
    have ⟨window, block, traded, exits⟩ := part
    cases block with
    | nil => exact ih none opening
    | cons first others =>
      rw [List.map_cons, closingsOf, List.filterMap_cons, List.getLast?_cons] at none
      cases none

theorem prod_yearRows {opening : ℚ} (positive : 0 < opening)
    (each : ∀ closing ∈ (closingsOf (parts.map (·.2.1))).dropLast, 0 < closing) :
    ((yearRows sqrt kind initial windowStart windowEnd opening parts).map (1 + ·.return')).prod =
      (closingsOf (parts.map (·.2.1))).getLastD opening / opening := by
  induction parts generalizing opening with
  | nil => exact (div_self positive.ne').symm
  | cons part parts ih =>
    have ⟨window, block, traded, exits⟩ := part
    cases block with
    | nil => exact ih positive each
    | cons first others =>
      have closings : closingsOf (((window, first :: others, traded, exits) :: parts).map (·.2.1)) =
          (others.getLastD first).2 :: closingsOf (parts.map (·.2.1)) := by
        unfold closingsOf
        rw [List.map_cons, List.filterMap_cons, List.getLast?_cons, List.getLastD_eq_getLast?]
        rfl
      rw [closings] at each ⊢
      rw [yearRows, List.map_cons, List.prod_cons, List.getLastD_cons]
      dsimp only
      rw [if_pos positive, add_sub_cancel]
      cases rest : closingsOf (parts.map (·.2.1)) with
      | nil => rw [yearRows_eq_nil rest, List.map_nil, List.prod_nil, mul_one, List.getLastD_nil]
      | cons closing closings =>
        rw [rest] at each
        have above := each _ List.mem_cons_self
        rw [ih above fun c member => each c (List.mem_cons_of_mem _ (rest ▸ member)), rest,
          div_mul_div_comm, mul_comm, mul_div_mul_right _ _ above.ne']

theorem sums_yearRows (opening : ℚ) (parts : List ((Nat × Nat) × List (Nat × ℚ) × ℚ × Nat)) :
    ((yearRows sqrt kind initial windowStart windowEnd opening parts).map
        SubWindow.tradeCount).sum =
      (parts.map fun part => if part.2.1 = [] then 0 else part.2.2.2).sum ∧
    ((yearRows sqrt kind initial windowStart windowEnd opening parts).map SubWindow.turnover).sum =
      if 0 < initial then
        (parts.map fun part => if part.2.1 = [] then 0 else part.2.2.1).sum / initial
      else 0 := by
  induction parts generalizing opening with
  | nil => simp [yearRows]
  | cons part parts ih =>
    have ⟨window, block, traded, exits⟩ := part
    cases block with
    | nil =>
      have ⟨count, notional⟩ := ih opening
      refine ⟨count.trans (by simp), notional.trans (by simp)⟩
    | cons first others =>
      have ⟨count, notional⟩ := ih (others.getLastD first).2
      constructor
      · change exits + List.sum _ = (if first :: others = [] then 0 else exits) + List.sum _
        rw [if_neg (List.cons_ne_nil _ _), count]
      · change (if 0 < initial then traded / initial else 0) + List.sum _ = if 0 < initial then
          ((if first :: others = [] then 0 else traded) + List.sum _) / initial else 0
        rw [if_neg (List.cons_ne_nil _ _), notional]
        by_cases positive : 0 < initial
        · rw [if_pos positive, if_pos positive, if_pos positive, add_div]
        · rw [if_neg positive, if_neg positive, if_neg positive, add_zero]

end

section

variable (curve : List CurveRow) (yearWindows : List (Nat × Nat))

/-- The years a curve is read in. -/
def yearsRead : List (Nat × Nat) :=
  match days curve with
  | [] => yearWindows
  | first :: others =>
    if yearWindows ≠ [] then yearWindows else julyJuneWindows first.1 (others.getLastD first).1

/-- The days of the curve, year by year. -/
def blocks : List (List (Nat × ℚ)) :=
  (List.range (yearsRead curve yearWindows).length).map fun i =>
    (days curve).filter fun day => placeOf (yearsRead curve yearWindows) day.1 = i

/-- Whether the curve has a day in the year of a date. -/
def sharesYear (date : Nat) : Bool :=
  (days curve).any fun day =>
    placeOf (yearsRead curve yearWindows) day.1 = placeOf (yearsRead curve yearWindows) date

/-- A fill in a year with a day. -/
def reported (order : ExecutionRecord) : Bool :=
  ((fillDate order).map (sharesYear curve yearWindows)).getD false

/-- The fills that no year's row counts. -/
def lost (orders : List ExecutionRecord) : List ExecutionRecord :=
  (filled orders).filter fun order => ¬ reported curve yearWindows order

end

section

variable (curve : List CurveRow) (yearWindows : List (Nat × Nat))

/-- Every year opens above zero. -/
def Solvent : Prop :=
  (∀ row ∈ curve.head?, 0 < row.initialEquity) ∧
    ∀ closing ∈ (closingsOf (blocks curve yearWindows)).dropLast, 0 < closing

/-- The last of the years closes where the curve does. -/
def EndsLast : Prop :=
  ∀ last ∈ curve.getLast?,
    (closingsOf (blocks curve yearWindows)).getLastD (initialEquity curve) = last.equity

/-- The fills outside the years with a day realize nothing, and trade nothing on balance. -/
def NoneLost (orders : List ExecutionRecord) : Prop :=
  (∀ order ∈ lost curve yearWindows orders, order.realizedPnl = none) ∧
    (0 < initialEquity curve → ((lost curve yearWindows orders).map filledNotional).sum = 0)

end

section

variable {sqrt : ℚ → ℚ} {curve : List CurveRow} {orders : List ExecutionRecord} {initial : ℚ}
  {start stop : Option Nat} {yearWindows : List (Nat × Nat)} {rows : List SubWindow}

theorem windowsOf_eq_ok {first last : Nat} {windows : List (Nat × Nat)}
    (ran : windowsOf yearWindows first last = .ok windows) :
    windows = if yearWindows ≠ [] then yearWindows else julyJuneWindows first last := by
  unfold windowsOf at ran
  split at ran
  · rename_i some
    rw [if_pos some]
    have each := mapM_eq_ok.mp ran
    clear ran some
    induction each with
    | nil => rfl
    | @cons window bound windows bounds one _ ih =>
      unfold windowBounds at one
      split at one
      · cases one
      · rw [Except.ok.inj one, ih]
  · rename_i none
    rw [if_neg none]
    exact (Except.ok.inj ran).symm

theorem exactSubWindows_parts
    (ran : exactSubWindows sqrt curve orders initial start stop yearWindows = .ok rows) :
    days curve = [] ∧ rows = [] ∨ days curve ≠ [] ∧ (∀ day ∈ days curve,
        placeOf (yearsRead curve yearWindows) day.1 < (yearsRead curve yearWindows).length) ∧
      (∀ fill ∈ datedFills orders,
        placeOf (yearsRead curve yearWindows) fill.1 < (yearsRead curve yearWindows).length) ∧
      ∃ kind windowStart windowEnd parts,
        rows = yearRows sqrt kind initial windowStart windowEnd initial parts ∧
        parts.map Prod.snd = (List.range (yearsRead curve yearWindows).length).map fun i =>
          let fills := (datedFills orders).filter fun fill =>
            placeOf (yearsRead curve yearWindows) fill.1 = i
          ((days curve).filter fun day => placeOf (yearsRead curve yearWindows) day.1 = i,
            (fills.map fun fill => filledNotional fill.2).sum,
            (fills.filter fun fill => fill.2.realizedPnl ≠ none).length) := by
  unfold exactSubWindows at ran
  cases here : days curve with
  | nil =>
    rw [here] at ran
    exact .inl ⟨rfl, (Except.ok.inj ran).symm⟩
  | cons first others =>
    rw [here] at ran
    have ⟨windows, read, ran⟩ := bind_eq_ok.mp ran
    have years : windows = yearsRead curve yearWindows := by
      unfold yearsRead
      rw [here]
      exact windowsOf_eq_ok read
    subst years
    have ⟨buckets, placed, ran⟩ := bind_eq_ok.mp ran
    have ⟨totals, counted, ran⟩ := bind_eq_ok.mp ran
    have ⟨fills, placed', counted⟩ := bind_eq_ok.mp counted
    obtain ⟨inside, rfl⟩ := byWindow_eq_ok.mp placed
    obtain ⟨inside', rfl⟩ := byWindow_eq_ok.mp placed'
    obtain rfl := Except.ok.inj counted
    refine .inr ⟨List.cons_ne_nil _ _, inside, inside', _, _, _, _, (Except.ok.inj ran).symm, ?_⟩
    rw [List.map_snd_zip]
    · rw [List.map_map, List.zip_map']
      rfl
    · simp

theorem fills_perm (fills : List (Nat × ExecutionRecord)) (inside : ∀ fill ∈ fills,
      placeOf (yearsRead curve yearWindows) fill.1 < (yearsRead curve yearWindows).length) :
    ((List.range (yearsRead curve yearWindows).length).map fun i =>
      if ((days curve).filter fun day => placeOf (yearsRead curve yearWindows) day.1 = i) = []
      then [] else fills.filter fun fill =>
        placeOf (yearsRead curve yearWindows) fill.1 = i).flatten.Perm
      (fills.filter fun fill => sharesYear curve yearWindows fill.1) := by
  refine List.Perm.trans (.of_eq (congrArg List.flatten (List.map_congr_left fun i _ => ?_)))
    (classes_perm (f := fun fill : Nat × ExecutionRecord =>
      placeOf (yearsRead curve yearWindows) fill.1)
      fun fill member => inside fill (List.mem_filter.mp member).1)
  rw [List.filter_filter]
  unfold sharesYear
  split
  · rename_i empty
    rw [List.filter_eq_nil_iff] at empty
    refine (List.filter_eq_nil_iff.mpr fun fill _ shared => ?_).symm
    simp only [Bool.and_eq_true, decide_eq_true_eq, List.any_eq_true] at shared
    have ⟨same, day, member, there⟩ := shared
    exact empty day member (decide_eq_true (there.trans same))
  · rename_i some
    have ⟨day, there⟩ := List.exists_mem_of_ne_nil _ some
    have ⟨member, same⟩ := List.mem_filter.mp there
    have same := of_decide_eq_true same
    refine List.filter_congr fun fill _ => ?_
    by_cases here : placeOf (yearsRead curve yearWindows) fill.1 = i
    · simp only [here, decide_true, Bool.true_and]
      exact (List.any_eq_true.mpr ⟨day, member, decide_eq_true same⟩).symm
    · simp only [here, decide_false, Bool.false_and]

theorem reported_fills (shared : Nat → Bool) (l : List ExecutionRecord) :
    ((l.filterMap fun order => (fillDate order).map (·, order)).filter fun fill =>
      shared fill.1).map Prod.snd =
    l.filter fun order => ((fillDate order).map shared).getD false := by
  induction l with
  | nil => rfl
  | cons order l ih =>
    cases dated : fillDate order with
    | none => simp [dated, ih]
    | some date => cases here : shared date <;> simp [dated, here, ih]

theorem sum_fills {β : Type} [AddCommMonoid β] (figure : ExecutionRecord → β)
    (inside : ∀ fill ∈ datedFills orders,
      placeOf (yearsRead curve yearWindows) fill.1 < (yearsRead curve yearWindows).length) :
    ((List.range (yearsRead curve yearWindows).length).map fun i =>
      if ((days curve).filter fun day => placeOf (yearsRead curve yearWindows) day.1 = i) = []
      then 0 else (((datedFills orders).filter fun fill =>
        placeOf (yearsRead curve yearWindows) fill.1 = i).map fun fill => figure fill.2).sum).sum =
    (((filled orders).filter fun order => reported curve yearWindows order).map figure).sum := by
  have those := (fills_perm (datedFills orders) inside).map fun fill => figure fill.2
  have named : ((datedFills orders).filter fun fill => sharesYear curve yearWindows fill.1).map
      (fun fill => figure fill.2) =
        ((filled orders).filter fun order => reported curve yearWindows order).map figure := by
    have same := congrArg (List.map figure)
      (reported_fills (sharesYear curve yearWindows) (filled orders))
    rwa [List.map_map] at same
  rw [← named]
  refine Eq.trans ?_ those.sum_eq
  rw [List.map_flatten, List.sum_flatten, List.map_map, List.map_map]
  refine congrArg List.sum (List.map_congr_left fun i _ => ?_)
  rw [Function.comp_apply, Function.comp_apply]
  split <;> rfl

theorem length_filter_exits {α : Type} (order : α → ExecutionRecord) (l : List α) :
    (l.filter fun a => (order a).realizedPnl ≠ none).length =
      (l.map fun a => if (order a).realizedPnl = none then 0 else 1).sum := by
  induction l with
  | nil => rfl
  | cons a l ih =>
    rw [List.map_cons, List.sum_cons, ← ih]
    by_cases here : (order a).realizedPnl = none
    · rw [if_pos here, List.filter_cons_of_neg (by simpa using here), zero_add]
    · rw [if_neg here, List.filter_cons_of_pos (by simpa using here), List.length_cons, add_comm]

theorem counted_spec
    (ran : exactSubWindows sqrt curve orders initial start stop yearWindows = .ok rows) :
    (rows.map SubWindow.tradeCount).sum =
      (((filled orders).filter fun order => reported curve yearWindows order).filter
        (·.realizedPnl ≠ none)).length ∧
    (rows.map SubWindow.turnover).sum = if 0 < initial then
      (((filled orders).filter fun order => reported curve yearWindows order).map
        filledNotional).sum / initial else 0 := by
  rcases exactSubWindows_parts ran with ⟨empty, rfl⟩ |
    ⟨_, inside, inside', kind, windowStart, windowEnd, parts, rfl, made⟩
  · have none : ((filled orders).filter fun order => reported curve yearWindows order) = [] := by
      refine List.filter_eq_nil_iff.mpr fun order _ => ?_
      unfold reported sharesYear
      rw [empty]
      cases fillDate order <;> simp
    rw [none]
    simp
  · have ⟨count, notional⟩ :=
      @sums_yearRows sqrt kind initial windowStart windowEnd initial parts
    have counts : (parts.map fun part => if part.2.1 = [] then 0 else part.2.2.2) =
        (parts.map Prod.snd).map fun part => if part.1 = [] then 0 else part.2.2 := by
      rw [List.map_map]
      rfl
    have notionals : (parts.map fun part => if part.2.1 = [] then 0 else part.2.2.1) =
        (parts.map Prod.snd).map fun part => if part.1 = [] then 0 else part.2.1 := by
      rw [List.map_map]
      rfl
    rw [count, notional, counts, notionals, made, List.map_map, List.map_map]
    constructor
    · rw [length_filter_exits (fun order => order), ← sum_fills _ inside']
      refine congrArg List.sum (List.map_congr_left fun i _ => ?_)
      rw [Function.comp_apply]
      dsimp only
      rw [length_filter_exits fun fill : Nat × ExecutionRecord => fill.2]
    · rw [← sum_fills _ inside']
      rfl

theorem blocks_eq_nil (empty : days curve = []) :
    (blocks curve yearWindows).filter (· ≠ []) = [] := by
  refine List.filter_eq_nil_iff.mpr fun block member => ?_
  have ⟨i, _, same⟩ := List.mem_map.mp member
  rw [empty] at same
  simp [← same]

theorem closings_eq_nil (empty : days curve = []) :
    closingsOf (blocks curve yearWindows) = [] := by
  refine List.filterMap_eq_nil_iff.mpr fun block member => ?_
  have ⟨i, _, same⟩ := List.mem_map.mp member
  rw [empty] at same
  simp [← same]

theorem blocks_eq {parts : List ((Nat × Nat) × List (Nat × ℚ) × ℚ × Nat)}
    {totals : Nat → ℚ × Nat}
    (made : parts.map Prod.snd = (List.range (yearsRead curve yearWindows).length).map fun i =>
      ((days curve).filter fun day => placeOf (yearsRead curve yearWindows) day.1 = i, totals i)) :
    parts.map (·.2.1) = blocks curve yearWindows := by
  have firsts := congrArg (List.map Prod.fst) made
  rwa [List.map_map, List.map_map] at firsts

theorem days_spec
    (ran : exactSubWindows sqrt curve orders initial start stop yearWindows = .ok rows) :
    List.Forall₂ Reports rows ((blocks curve yearWindows).filter (· ≠ [])) ∧
      ((blocks curve yearWindows).filter (· ≠ [])).flatten.Perm
        (curve.filterMap fun row => row.tradeDate.map (·, row.equity)) ∧
      ((blocks curve yearWindows).filter (· ≠ [])).Pairwise fun v w =>
        ∀ d ∈ v, ∀ e ∈ w, d.1 ≠ e.1 := by
  have sorted : (days curve).Perm
      (curve.filterMap fun row => row.tradeDate.map (·, row.equity)) := List.mergeSort_perm _ _
  have apart : (blocks curve yearWindows).Pairwise fun v w => ∀ d ∈ v, ∀ e ∈ w, d.1 ≠ e.1 := by
    refine List.pairwise_map.mpr (List.nodup_range.imp fun different d here e there same => ?_)
    have first := of_decide_eq_true (List.mem_filter.mp here).2
    have second := of_decide_eq_true (List.mem_filter.mp there).2
    rw [same] at first
    exact different (first.symm.trans second)
  have all : (∀ day ∈ days curve,
      placeOf (yearsRead curve yearWindows) day.1 < (yearsRead curve yearWindows).length) →
      ((blocks curve yearWindows).filter (· ≠ [])).flatten.Perm
        (curve.filterMap fun row => row.tradeDate.map (·, row.equity)) := by
    intro inside
    rw [List.flatten_filter_ne_nil]
    exact (classes_perm (f := fun day : Nat × ℚ =>
      placeOf (yearsRead curve yearWindows) day.1) inside).trans sorted
  rcases exactSubWindows_parts ran with ⟨empty, rfl⟩ |
    ⟨_, inside, _, kind, windowStart, windowEnd, parts, rfl, made⟩
  · refine ⟨?_, all fun day member => ?_, apart.filter _⟩
    · rw [blocks_eq_nil empty]
      exact .nil
    · rw [empty] at member
      cases member
  · refine ⟨?_, all inside, apart.filter _⟩
    rw [← blocks_eq made]
    exact reports_yearRows initial parts

theorem returns_spec (ran : exactSubWindows sqrt curve orders (initialEquity curve) start stop
      yearWindows = .ok rows) (solvent : Solvent curve yearWindows) :
    (rows.map (1 + ·.return')).prod = 1 + totalReturn curve ↔ EndsLast curve yearWindows := by
  have ⟨funded, above⟩ := solvent
  have ends : (rows.map (1 + ·.return')).prod = 1 ∧ days curve = [] ∨
      0 < initialEquity curve ∧ (rows.map (1 + ·.return')).prod =
        (closingsOf (blocks curve yearWindows)).getLastD (initialEquity curve) /
          initialEquity curve := by
    rcases exactSubWindows_parts ran with ⟨empty, rfl⟩ |
      ⟨some, _, _, kind, windowStart, windowEnd, parts, rfl, made⟩
    · exact .inl ⟨rfl, empty⟩
    · have positive : 0 < initialEquity curve := by
        cases curve with
        | nil => exact absurd (by simp [days]) some
        | cons row curve => exact funded row rfl
      rw [← blocks_eq made] at above ⊢
      exact .inr ⟨positive, prod_yearRows positive above⟩
  unfold totalReturn EndsLast
  cases ended : curve.getLast? with
  | none =>
    obtain rfl := List.getLast?_eq_none_iff.mp ended
    rcases ends with ⟨one, _⟩ | ⟨positive, _⟩
    · simp [one]
    · exact absurd positive (lt_irrefl 0)
  | some last =>
    have positive : 0 < initialEquity curve := by
      cases curve with
      | nil => cases ended
      | cons row curve => exact funded row rfl
    have compounded : (rows.map (1 + ·.return')).prod =
        (closingsOf (blocks curve yearWindows)).getLastD (initialEquity curve) /
          initialEquity curve := by
      rcases ends with ⟨one, empty⟩ | ⟨_, compounded⟩
      · rw [one, closings_eq_nil empty, List.getLastD_nil, div_self positive.ne']
      · exact compounded
    simp only [if_pos positive, Option.mem_some_iff, forall_eq']
    rw [compounded, add_sub_cancel, div_left_inj' positive.ne']

end

/-- The years of a replay compose to the whole of it. -/
structure Composes (curve : List CurveRow) (orders : List ExecutionRecord)
    (rows : List SubWindow) : Prop where
  /-- Every day of the curve falls in exactly one. -/
  days : ∃ years : List (List (Nat × ℚ)), List.Forall₂ Reports rows years ∧
    years.flatten.Perm (curve.filterMap fun row => row.tradeDate.map (·, row.equity)) ∧
    years.Pairwise fun v w => ∀ d ∈ v, ∀ e ∈ w, d.1 ≠ e.1
  returns : (rows.map (1 + ·.return')).prod = 1 + totalReturn curve
  trades : (rows.map SubWindow.tradeCount).sum = tradeCount orders
  turnover : (rows.map SubWindow.turnover).sum = turnover (initialEquity curve) orders

section

variable {sqrt : ℚ → ℚ} {curve : List CurveRow} {orders : List ExecutionRecord}
  {start stop : Option Nat} {yearWindows : List (Nat × Nat)} {rows : List SubWindow}

theorem totals_spec (ran : exactSubWindows sqrt curve orders (initialEquity curve) start stop
      yearWindows = .ok rows) :
    ((rows.map SubWindow.tradeCount).sum = tradeCount orders ∧
      (rows.map SubWindow.turnover).sum = turnover (initialEquity curve) orders) ↔
    NoneLost curve yearWindows orders := by
  have ⟨count, notional⟩ := counted_spec ran
  have split : ((filled orders).filter (fun order => reported curve yearWindows order) ++
      lost curve yearWindows orders).Perm (filled orders) := by
    simpa [lost] using List.filter_append_perm (reported curve yearWindows) (filled orders)
  have exits := (split.filter (·.realizedPnl ≠ none)).length_eq
  have traded := (split.map filledNotional).sum_eq
  rw [List.filter_append, List.length_append] at exits
  rw [List.map_append, List.sum_append] at traded
  unfold NoneLost tradeCount turnover
  rw [count, notional, ← exits, ← traded]
  refine and_congr ?_ ?_
  · rw [Nat.left_eq_add, List.length_eq_zero_iff, List.filter_eq_nil_iff]
    simp
  · by_cases positive : 0 < initialEquity curve
    · rw [if_pos positive, if_pos positive, div_left_inj' positive.ne', left_eq_add]
      exact ⟨fun zero _ => zero, fun zero => zero positive⟩
    · rw [if_neg positive, if_neg positive]
      exact ⟨fun _ above => absurd above positive, fun _ => rfl⟩

/-- Where every year opens above zero, the years of a replay compose to the whole of it just if
the last of them ends the curve and no fill lies in a year without a day; and that they lose no
fill is needed in any case. -/
theorem sub_windows_compose_iff (ran : exactSubWindows sqrt curve orders (initialEquity curve)
      start stop yearWindows = .ok rows) :
    (Composes curve orders rows → NoneLost curve yearWindows orders) ∧
      (Solvent curve yearWindows → (Composes curve orders rows ↔
        EndsLast curve yearWindows ∧ NoneLost curve yearWindows orders)) := by
  refine ⟨fun composes => (totals_spec ran).mp ⟨composes.trades, composes.turnover⟩,
    fun solvent => ?_⟩
  constructor
  · intro composes
    exact ⟨(returns_spec ran solvent).mp composes.returns,
      (totals_spec ran).mp ⟨composes.trades, composes.turnover⟩⟩
  · rintro ⟨ends, kept⟩
    have ⟨trades, turned⟩ := (totals_spec ran).mpr kept
    exact ⟨⟨_, days_spec ran⟩, (returns_spec ran solvent).mpr ends, trades, turned⟩

end

def twoYears : List (Nat × Nat) := [(20200701, 20210630), (20210701, 20220630)]

/-- A sale filled in July 2021. -/
def julySale : ExecutionRecord := ⟨"filled", "2021-07-05T09:30:00+08:00", some 11, 100, some 100⟩

def twoYearCurve : List CurveRow := [⟨some 20210104, 1000, 1100⟩, ⟨some 20210705, 1000, 990⟩]

/-- A replay of both years composes. -/
theorem two_years_compose : ∃ rows,
    exactSubWindows id twoYearCurve [julySale] (initialEquity twoYearCurve) none none twoYears =
      .ok rows ∧ Composes twoYearCurve [julySale] rows := by
  have sorted : days twoYearCurve = [(20210104, 1100), (20210705, 990)] :=
    List.mergeSort_of_pairwise (by decide)
  have each : blocks twoYearCurve twoYears = [[(20210104, 1100)], [(20210705, 990)]] := by
    unfold blocks yearsRead
    rw [sorted]
    decide +kernel
  have ⟨rows, ran⟩ : ∃ rows, exactSubWindows id twoYearCurve [julySale]
      (initialEquity twoYearCurve) none none twoYears = .ok rows := by
    unfold exactSubWindows
    rw [sorted]
    exact ⟨_, rfl⟩
  refine ⟨rows, ran, ((sub_windows_compose_iff ran).2 ⟨?_, ?_⟩).mpr ⟨?_, ?_, ?_⟩⟩
  · rintro row ⟨⟩
    norm_num
  · rw [each]
    decide +kernel
  · rintro last ⟨⟩
    rw [each]
    rfl
  all_goals
    have none : lost twoYearCurve twoYears [julySale] = [] := by
      unfold lost reported sharesYear yearsRead
      rw [sorted]
      decide +kernel
    rw [none]
    simp

/-- A sale in a year without a day is left out of every year's row. -/
theorem sale_without_day_lost : ∃ rows,
    exactSubWindows id [⟨some 20210104, 1000, 1100⟩] [julySale] 1000 none none twoYears =
      .ok rows ∧ ¬ Composes [⟨some 20210104, 1000, 1100⟩] [julySale] rows := by
  have sorted : days [⟨some 20210104, 1000, 1100⟩] = [(20210104, 1100)] :=
    List.mergeSort_singleton _
  unfold exactSubWindows
  rw [sorted]
  refine ⟨_, rfl, fun composes => ?_⟩
  have trades := composes.trades
  revert trades
  decide +kernel

end Stats

end AutoTrade
