import AutoTrade.Environment.Proofs.Holdings
import AutoTrade.Environment.Replay.NullControl
import AutoTrade.Misc.Fifo

/-!
# The trade skeleton

The pairing of fills keeps, for each name, a ledger of its buys taken first in, first out. Shares
an ex-date created are sold like any others, so a sale may reach into what was bought on its own
day.
-/

namespace AutoTrade

namespace NullControl

/-- The buys of a name, with what each sale took of them. -/
abbrev BuyLedger := List (Fifo.Entry Execution Execution)

variable {symbol : Symbol} {fills : List Execution} {fill : Execution} {ledger : BuyLedger}

/-- What the pairing keeps of a buy that still has shares. -/
def lotOf (e : Fifo.Entry Execution Execution) : OpenLot :=
  ⟨e.left, e.item.price.getD 0, e.item.matchedAt, e.item.session, e.item.limitPrice⟩

/-- The trip of the shares a sale took of a buy. -/
def closedTrip (buy sale : Execution) (shares : Int) : RoundTrip :=
  { symbol := sale.symbol, quantity := shares, price := buy.price.getD 0, entryAt := buy.matchedAt,
    exitAt := some sale.matchedAt, entrySession := buy.session, entryLimit := buy.limitPrice,
    exitSession := sale.session, exitLimit := sale.limitPrice }

def closedTrips (e : Fifo.Entry Execution Execution) : List RoundTrip :=
  e.taken.map fun part => closedTrip e.item part.1 part.2

def openLotsOf (ledger : BuyLedger) : List OpenLot :=
  (ledger.filter fun e => e.left ≠ 0).map lotOf

/-- One fill on the ledger of a name. -/
def ledgerFill (symbol : Symbol) (ledger : BuyLedger) (fill : Execution) :
    BuyLedger :=
  if fill.symbol = symbol then
    match fill.action with
    | .buy => ledger ++ [⟨fill, [], fill.quantity⟩]
    | .sell => (Fifo.take fill fill.quantity ledger).1
  else ledger

def ledgerOf (symbol : Symbol) (fills : List Execution) : BuyLedger :=
  fills.foldl (ledgerFill symbol) []

theorem closeLots_eq_take (sale : Execution) {shares : Int} (wanted : 0 ≤ shares)
    (left : ∀ e ∈ ledger, 0 ≤ e.left) :
    ∃ made, closeLots sale shares (openLotsOf ledger) =
        (made, openLotsOf (Fifo.take sale shares ledger).1, (Fifo.take sale shares ledger).2) ∧
      ((Fifo.take sale shares ledger).1.flatMap closedTrips).Perm
        (ledger.flatMap closedTrips ++ made) := by
  induction ledger generalizing shares with
  | nil =>
    refine ⟨[], ?_, .refl _⟩
    rcases wanted.eq_or_lt with none | some
    · simp [openLotsOf, closeLots, Fifo.take, ← none]
    · simp [openLotsOf, closeLots, Fifo.take, some]
  | cons e ledger ih =>
    obtain ⟨here, later⟩ := List.forall_mem_cons.mp left
    rw [Fifo.take]
    by_cases spent : e.left = 0
    · have nothing : ¬ 0 < min shares e.left := by omega
      obtain ⟨made, closes, trips⟩ := ih wanted later
      refine ⟨made, ?_, ?_⟩
      · simp only [openLotsOf, if_neg nothing] at closes ⊢
        rw [List.filter_cons_of_neg (by simpa using spent), closes,
          List.filter_cons_of_neg (by simpa using spent)]
      · simp only [if_neg nothing, List.flatMap_cons, List.append_assoc]
        exact trips.append_left _
    have opened : openLotsOf (e :: ledger) = lotOf e :: openLotsOf ledger := by
      simp only [openLotsOf]
      rw [List.filter_cons_of_pos (by simpa using spent), List.map_cons]
    rw [opened, closeLots]
    by_cases some : 0 < shares
    · have takes : 0 < min shares e.left := by omega
      simp only [if_pos some, if_pos takes]
      by_cases all : (lotOf e).quantity - min shares (lotOf e).quantity = 0
      · obtain ⟨made, closes, trips⟩ := @ih (shares - min shares e.left) (by omega) later
        refine ⟨closedTrip e.item sale (min shares e.left) :: made, ?_, ?_⟩
        · simp only [if_pos all]
          rw [show (lotOf e).quantity = e.left from rfl, closes]
          have gone : e.left - min shares e.left = 0 := all
          simp only [openLotsOf]
          rw [List.filter_cons_of_neg (by simpa using gone)]
          rfl
        · simp only [List.flatMap_cons, closedTrips, List.map_append, List.map_cons, List.map_nil,
            List.append_assoc]
          refine List.Perm.append_left _ ?_
          exact (trips.cons _).trans List.perm_middle.symm
      · have rest : e.left - min shares e.left ≠ 0 := all
        have enough : shares - min shares e.left = 0 := by omega
        refine ⟨[closedTrip e.item sale (min shares e.left)], ?_, ?_⟩
        · simp only [if_neg all]
          rw [enough, Fifo.take_nonpos le_rfl]
          simp only [openLotsOf]
          rw [List.filter_cons_of_pos (by simpa using rest)]
          rfl
        · rw [enough, Fifo.take_nonpos le_rfl]
          simp only [List.flatMap_cons, closedTrips, List.map_append, List.map_cons, List.map_nil,
            List.append_assoc]
          exact List.Perm.append_left _ List.perm_append_comm
    · have nothing : ¬ 0 < min shares e.left := by omega
      refine ⟨[], ?_, ?_⟩
      · rw [if_neg some]
        simp only [if_neg nothing]
        rw [Fifo.take_nonpos (by omega), opened]
        simp only
        rw [show shares = 0 by omega]
      · simp only [if_neg nothing]
        rw [Fifo.take_nonpos (by omega), List.append_nil]

/-- The pairing agrees with the ledger of a name. -/
structure Pairs (symbol : Symbol) (ledger : BuyLedger) (pairing : Pairing) :
    Prop where
  lots : (pairing.openLots.get? symbol).getD [] = openLotsOf ledger
  trips : (pairing.trips.filter fun trip => trip.symbol = symbol).Perm (ledger.flatMap closedTrips)

theorem symbol_of_closed (sale : Execution) (shares : Int) (lots : List OpenLot) :
    ∀ trip ∈ (closeLots sale shares lots).1, trip.symbol = sale.symbol := by
  induction lots generalizing shares with
  | nil => simp [closeLots]
  | cons lot lots ih =>
    rw [closeLots]
    by_cases some : 0 < shares
    · rw [if_pos some]
      simp only
      split_ifs
      · exact List.forall_mem_cons.mpr ⟨rfl, ih _⟩
      · simp
    · rw [if_neg some]
      simp

theorem pairs_step {pairing : Pairing} (pairs : Pairs symbol ledger pairing)
    (left : ∀ e ∈ ledger, 0 ≤ e.left) (wanted : 0 < fill.quantity) :
    Pairs symbol (ledgerFill symbol ledger fill) (pairFill pairing fill) := by
  unfold ledgerFill pairFill
  by_cases mine : fill.symbol = symbol
  · subst mine
    rw [if_pos rfl]
    cases action : fill.action with
    | buy =>
      constructor
      · have some : fill.quantity ≠ 0 := by omega
        simp only [Dict.get?_set, if_pos, Option.getD_some, pairs.lots, openLotsOf]
        rw [List.filter_append, List.map_append, List.filter_cons_of_pos (by simpa using some)]
        rfl
      · simp only [List.flatMap_append, List.flatMap_cons, List.flatMap_nil, closedTrips,
          List.map_nil, List.append_nil]
        exact pairs.trips
    | sell =>
      obtain ⟨made, closes, trips⟩ := closeLots_eq_take fill wanted.le left
      have mine := symbol_of_closed fill fill.quantity (openLotsOf ledger)
      rw [closes] at mine
      constructor
      · simp only [pairs.lots, closes]
        split_ifs with known
        · simp
        · have unknown : pairing.openLots.get? fill.symbol = none := by
            simpa using known
          have empty := pairs.lots
          rw [unknown, Option.getD_none] at empty
          rw [← empty, closeLots] at closes
          rw [unknown, Option.getD_none]
          exact congrArg (·.2.1) closes
      · simp only [pairs.lots, closes, List.filter_append]
        have kept : (made.filter fun trip => trip.symbol = fill.symbol) = made :=
          List.filter_eq_self.mpr (by simpa using mine)
        rw [kept]
        exact (pairs.trips.append_right made).trans trips.symm
  · rw [if_neg mine]
    cases action : fill.action with
    | buy =>
      refine ⟨?_, pairs.trips⟩
      simp only [Dict.get?_set, if_neg mine]
      exact pairs.lots
    | sell =>
      constructor
      · simp only
        split_ifs
        · rw [Dict.get?_set, if_neg mine]
          exact pairs.lots
        · exact pairs.lots
      · have none (lots : List OpenLot) : ((closeLots fill fill.quantity lots).1.filter
            fun trip => trip.symbol = symbol) = [] := by
          rw [List.filter_eq_nil_iff]
          intro trip member
          simp [symbol_of_closed fill _ _ trip member, mine]
        simp only [List.filter_append, none, List.append_nil]
        exact pairs.trips

/-- The buys of a name, in order. -/
def buysOf (symbol : Symbol) (fills : List Execution) : List Execution :=
  fills.filter fun fill => fill.symbol = symbol ∧ fill.action = .buy

/-- A ledger keeps every buy of a name whole, and its sales took them first in, first out. -/
structure Tracked (symbol : Symbol) (fills : List Execution)
    (ledger : BuyLedger) : Prop where
  items : ledger.map Fifo.Entry.item = buysOf symbol fills
  sound : ∀ e ∈ ledger, e.Sound Execution.quantity
  sales : ∀ e ∈ ledger, ∀ part ∈ e.taken,
    part.1 ∈ fills ∧ part.1.symbol = symbol ∧ part.1.action = .sell
  fifo : ledger.Pairwise (Fifo.Before fun sale sale' => sale.matchedAt ≤ sale'.matchedAt)

namespace Tracked

theorem left_nonneg (tracked : Tracked symbol fills ledger) : ∀ e ∈ ledger, 0 ≤ e.left :=
  fun e member => (tracked.sound e member).left_nonneg

theorem buy (tracked : Tracked symbol fills ledger) (wanted : 0 < fill.quantity)
    (mine : fill.symbol = symbol) (buys : fill.action = .buy) :
    Tracked symbol (fills ++ [fill]) (ledger ++ [⟨fill, [], fill.quantity⟩]) := by
  constructor
  · rw [List.map_append, tracked.items, buysOf, buysOf, List.filter_append,
      List.filter_cons_of_pos (by simp [mine, buys])]
    rfl
  · intro e member
    rcases List.mem_append.mp member with before | new
    · exact tracked.sound e before
    · rw [List.mem_singleton.mp new]
      exact ⟨by simp [Fifo.Entry.used], by simp, wanted.le⟩
  · intro e member part inside
    rcases List.mem_append.mp member with before | new
    · exact (tracked.sales e before part inside).imp_left (List.mem_append_left _)
    · rw [List.mem_singleton.mp new] at inside
      cases inside
  · refine List.pairwise_append.mpr ⟨tracked.fifo, List.pairwise_singleton _ _, ?_⟩
    intro e _ e' new used
    rw [List.mem_singleton.mp new] at used
    exact absurd rfl used

theorem sell (tracked : Tracked symbol fills ledger)
    (latest : ∀ before ∈ fills, before.matchedAt ≤ fill.matchedAt)
    (mine : fill.symbol = symbol) (sells : fill.action = .sell) :
    Tracked symbol (fills ++ [fill]) (Fifo.take fill fill.quantity ledger).1 := by
  constructor
  · rw [Fifo.take_items, tracked.items, buysOf, buysOf, List.filter_append,
      List.filter_cons_of_neg (by simp [sells])]
    simp
  · exact Fifo.take_sound tracked.sound
  · intro e' member part inside
    obtain ⟨e, before, grown⟩ := Fifo.mem_take member
    cases grown with
    | same => exact (tracked.sales e' before part inside).imp_left (List.mem_append_left _)
    | part n positive most =>
      rcases List.mem_append.mp inside with old | new
      · exact (tracked.sales e before part old).imp_left (List.mem_append_left _)
      · rw [List.mem_singleton.mp new]
        exact ⟨by simp, mine, sells⟩
  · refine Fifo.take_ordered le_rfl ?_ tracked.left_nonneg tracked.fifo
    intro e member part inside
    exact latest part.1 (tracked.sales e member part inside).1

theorem other (tracked : Tracked symbol fills ledger) (others : fill.symbol ≠ symbol) :
    Tracked symbol (fills ++ [fill]) ledger := by
  refine ⟨?_, tracked.sound, ?_, tracked.fifo⟩
  · rw [tracked.items, buysOf, buysOf, List.filter_append,
      List.filter_cons_of_neg (by simp [others])]
    simp
  · intro e member part inside
    exact (tracked.sales e member part inside).imp_left (List.mem_append_left _)

theorem step (tracked : Tracked symbol fills ledger) (wanted : 0 < fill.quantity)
    (latest : ∀ before ∈ fills, before.matchedAt ≤ fill.matchedAt) :
    Tracked symbol (fills ++ [fill]) (ledgerFill symbol ledger fill) := by
  rw [ledgerFill]
  by_cases mine : fill.symbol = symbol
  · rw [if_pos mine]
    cases side : fill.action with
    | buy => exact tracked.buy wanted mine side
    | sell => exact tracked.sell latest mine side
  · rw [if_neg mine]
    exact tracked.other mine

end Tracked

/-- What the fills of a run are: of positive shares, in the order of their instants. -/
structure Chronological (fills : List Execution) : Prop where
  positive : ∀ fill ∈ fills, 0 < fill.quantity
  sorted : fills.Pairwise fun a b => a.matchedAt ≤ b.matchedAt

namespace Chronological

theorem init (order : Chronological (fills ++ [fill])) : Chronological fills :=
  ⟨fun before member => order.positive before (List.mem_append_left _ member),
    (List.pairwise_append.mp order.sorted).1⟩

theorem last_pos (order : Chronological (fills ++ [fill])) : 0 < fill.quantity :=
  order.positive fill (by simp)

theorem latest (order : Chronological (fills ++ [fill])) :
    ∀ before ∈ fills, before.matchedAt ≤ fill.matchedAt := by
  intro before member
  exact (List.pairwise_append.mp order.sorted).2.2 before member fill (by simp)

end Chronological

theorem ledgerOf_append (symbol : Symbol) (fills : List Execution) (fill : Execution) :
    ledgerOf symbol (fills ++ [fill]) = ledgerFill symbol (ledgerOf symbol fills) fill := by
  rw [ledgerOf, List.foldl_append]
  rfl

theorem tracked_ledgerOf (symbol : Symbol) (order : Chronological fills) :
    Tracked symbol fills (ledgerOf symbol fills) := by
  induction fills using List.reverseRecOn with
  | nil => exact ⟨rfl, by simp [ledgerOf], by simp [ledgerOf], .nil⟩
  | append_singleton fills fill ih =>
    rw [ledgerOf_append]
    exact (ih order.init).step order.last_pos order.latest

theorem pairs_ledgerOf (symbol : Symbol) (order : Chronological fills) :
    Pairs symbol (ledgerOf symbol fills) (fills.foldl pairFill {}) := by
  induction fills using List.reverseRecOn with
  | nil => exact ⟨rfl, .refl _⟩
  | append_singleton fills fill ih =>
    rw [ledgerOf_append, List.foldl_append]
    exact pairs_step (ih order.init) (tracked_ledgerOf symbol order.init).left_nonneg order.last_pos

theorem shares_closeLots (sale : Execution) {shares : Int} (wanted : 0 ≤ shares)
    (lots : List OpenLot) :
    ((closeLots sale shares lots).1.map RoundTrip.quantity).sum + (closeLots sale shares lots).2.2 =
      shares := by
  induction lots generalizing shares with
  | nil => rcases wanted.eq_or_lt with none | some <;> simp [closeLots, *]
  | cons lot lots ih =>
    rw [closeLots]
    by_cases some : 0 < shares
    · rw [if_pos some]
      simp only
      by_cases all : lot.quantity - min shares lot.quantity = 0
      · have rest := @ih (shares - min shares lot.quantity) (by omega)
        simp only [if_pos all, List.map_cons, List.sum_cons]
        omega
      · simp only [if_neg all, List.map_cons, List.map_nil, List.sum_cons, List.sum_nil]
        omega
    · simp only [if_neg some, List.map_nil, List.sum_nil]
      omega

/-- The shares the fills of a run sold. -/
def soldShares (fills : List Execution) : Int :=
  ((fills.filter fun fill => fill.action = .sell).map Execution.quantity).sum

theorem shares_pairing (order : Chronological fills) :
    ((fills.foldl pairFill {}).trips.map RoundTrip.quantity).sum +
      (fills.foldl pairFill {}).unpairedSellShares = soldShares fills := by
  induction fills using List.reverseRecOn with
  | nil => rfl
  | append_singleton fills fill ih =>
    have before := ih order.init
    rw [List.foldl_append, List.foldl_cons, List.foldl_nil, soldShares, List.filter_append]
    generalize fills.foldl pairFill {} = pairing at before ⊢
    rw [soldShares] at before
    rw [pairFill]
    cases side : fill.action with
    | buy =>
      rw [List.filter_cons_of_neg (by simp [side])]
      simpa using before
    | sell =>
      have closes := shares_closeLots fill order.last_pos.le
        ((pairing.openLots.get? fill.symbol).getD [])
      rw [List.filter_cons_of_pos (by simp [side])]
      simp only [List.map_append, List.sum_append, List.map_cons, List.sum_cons, List.filter_nil,
        List.map_nil, List.sum_nil]
      omega

/-- A fill counted with the shares of a name bought, and those a sale was paired with. -/
def countFill (symbol : Symbol) (counts : Int × Int) (fill : Execution) : Int × Int :=
  if fill.symbol = symbol then
    match fill.action with
    | .buy => (counts.1 + fill.quantity, counts.2)
    | .sell => (counts.1, min (counts.2 + fill.quantity) counts.1)
  else counts

/-- The sold shares of a name that were bought, whenever they were. -/
def pairedShares (symbol : Symbol) (fills : List Execution) : Int :=
  (fills.foldl (countFill symbol) (0, 0)).2

/-- The shares of a name bought on the days before one. -/
def boughtBefore (symbol : Symbol) (day : Nat) (fills : List Execution) : Int :=
  (((buysOf symbol fills).filter fun buy => buy.matchedAt.day < day).map Execution.quantity).sum

/-- No sale of a run takes the name below what was bought on its own day. -/
def SalesReachBack (fills : List Execution) : Prop :=
  ∀ earlier sale, earlier ++ [sale] <+: fills → sale.action = .sell →
    pairedShares sale.symbol (earlier ++ [sale]) ≤
      boughtBefore sale.symbol sale.matchedAt.day earlier

theorem salesReachBack_iff (fills : List Execution) : SalesReachBack fills ↔
    ∀ n : Fin fills.length, (fills.get n).action = .sell →
      pairedShares (fills.get n).symbol (fills.take (n + 1)) ≤
        boughtBefore (fills.get n).symbol (fills.get n).matchedAt.day (fills.take n) := by
  constructor
  · intro reach n sells
    have here := List.take_append_getElem n.isLt
    rw [← here]
    exact reach _ _ (here ▸ List.take_prefix _ fills) sells
  · rintro reach earlier sale ⟨later, rfl⟩ sells
    have here := reach ⟨earlier.length, by simp⟩
    have whole : earlier.take (earlier.length + 1) = earlier := List.take_of_length_le (by simp)
    simpa [sells, List.take_append, whole] using here

instance (fills : List Execution) : Decidable (SalesReachBack fills) :=
  decidable_of_iff _ (salesReachBack_iff fills).symm

theorem counts_eq (symbol : Symbol) (order : Chronological fills) :
    fills.foldl (countFill symbol) (0, 0) =
      (((ledgerOf symbol fills).map fun e => e.item.quantity).sum,
        ((ledgerOf symbol fills).map Fifo.Entry.used).sum) := by
  induction fills using List.reverseRecOn with
  | nil => rfl
  | append_singleton fills fill ih =>
    have tracked := tracked_ledgerOf symbol order.init
    rw [List.foldl_append, List.foldl_cons, List.foldl_nil, ih order.init, ledgerOf_append]
    generalize ledgerOf symbol fills = ledger at tracked ⊢
    rw [countFill, ledgerFill]
    by_cases mine : fill.symbol = symbol
    · rw [if_pos mine, if_pos mine]
      cases side : fill.action with
      | buy => simp [Fifo.Entry.used]
      | sell =>
        have items : ((Fifo.take fill fill.quantity ledger).1.map Fifo.Entry.item).map
            Execution.quantity = (ledger.map Fifo.Entry.item).map Execution.quantity := by
          rw [Fifo.take_items]
        rw [List.map_map, List.map_map] at items
        have used := Fifo.used_take_eq_min fill order.last_pos.le tracked.sound
        exact Prod.ext (congrArg List.sum items).symm used.symm
    · rw [if_neg mine, if_neg mine]

/-- Every sale of a ledger comes on a later day than the buy it takes from. -/
def LaterParts (ledger : BuyLedger) : Prop :=
  ∀ e ∈ ledger, ∀ part ∈ e.taken, e.item.matchedAt.day < part.1.matchedAt.day

theorem day_le {a b : Instant} (le : a ≤ b) : a.day ≤ b.day :=
  Instant.le_dayEnd.mp (le.trans (Instant.le_dayEnd.mpr le_rfl))

theorem Tracked.days (tracked : Tracked symbol fills ledger) (order : Chronological fills) :
    ledger.Pairwise fun e e' => e.item.matchedAt.day ≤ e'.item.matchedAt.day := by
  have sorted : (ledger.map Fifo.Entry.item).Pairwise fun a b => a.matchedAt ≤ b.matchedAt := by
    rw [tracked.items]
    exact order.sorted.filter _
  exact (List.pairwise_map.mp sorted).imp day_le

theorem laterParts_take (tracked : Tracked symbol fills ledger)
    (order : Chronological (fills ++ [fill])) (mine : fill.symbol = symbol)
    (sells : fill.action = .sell) :
    LaterParts (Fifo.take fill fill.quantity ledger).1 ↔ LaterParts ledger ∧
      ((Fifo.take fill fill.quantity ledger).1.map Fifo.Entry.used).sum ≤
        boughtBefore symbol fill.matchedAt.day fills := by
  have after := tracked.sell order.latest mine sells
  have items :
      (Fifo.take fill fill.quantity ledger).1.map Fifo.Entry.item = buysOf symbol fills := by
    rw [Fifo.take_items, tracked.items]
  have reach : (∀ e ∈ (Fifo.take fill fill.quantity ledger).1, e.taken ≠ [] →
        e.item.matchedAt.day < fill.matchedAt.day) ↔
      ((Fifo.take fill fill.quantity ledger).1.map Fifo.Entry.used).sum ≤
        boughtBefore symbol fill.matchedAt.day fills := by
    rw [boughtBefore, ← items, List.filter_map, List.map_map]
    exact @Fifo.taken_early_iff _ _ _ _ _ (fun buy => buy.matchedAt.day < fill.matchedAt.day) _
      after.sound after.fifo ((after.days order).imp fun le lt => lt_of_le_of_lt le lt)
  rw [← reach]
  constructor
  · intro later
    constructor
    · intro e member part inside
      obtain ⟨e', there, grown⟩ := Fifo.exists_of_take member
      rw [← grown.item_eq]
      exact later e' there part (grown.taken_subset inside)
    · intro e member used
      obtain ⟨part, inside⟩ := List.exists_mem_of_ne_nil _ used
      refine (later e member part inside).trans_le ?_
      rcases List.mem_append.mp (after.sales e member part inside).1 with before | now
      · exact day_le (order.latest part.1 before)
      · rw [List.mem_singleton.mp now]
  · rintro ⟨later, early⟩ e' member part inside
    obtain ⟨e, before, grown⟩ := Fifo.mem_take member
    cases grown with
    | same => exact later e' before part inside
    | part n positive most =>
      rcases List.mem_append.mp inside with old | now
      · exact later e before part old
      · rw [List.mem_singleton.mp now]
        exact early _ member (List.ne_nil_of_mem inside)

theorem laterParts_ledgerFill (symbol : Symbol) (order : Chronological (fills ++ [fill])) :
    LaterParts (ledgerOf symbol (fills ++ [fill])) ↔ LaterParts (ledgerOf symbol fills) ∧
      (fill.symbol = symbol → fill.action = .sell → pairedShares symbol (fills ++ [fill]) ≤
        boughtBefore symbol fill.matchedAt.day fills) := by
  have tracked := tracked_ledgerOf symbol order.init
  rw [pairedShares, counts_eq symbol order, ledgerOf_append]
  generalize ledgerOf symbol fills = ledger at tracked ⊢
  rw [ledgerFill]
  by_cases mine : fill.symbol = symbol
  · rw [if_pos mine]
    cases side : fill.action with
    | buy => simp [LaterParts, or_imp, forall_and]
    | sell => simpa [mine] using laterParts_take tracked order mine side
  · simp [mine]

theorem salesReachBack_append (fills : List Execution) (fill : Execution) :
    SalesReachBack (fills ++ [fill]) ↔ SalesReachBack fills ∧
      (fill.action = .sell → pairedShares fill.symbol (fills ++ [fill]) ≤
        boughtBefore fill.symbol fill.matchedAt.day fills) := by
  constructor
  · intro reach
    refine ⟨?_, reach fills fill (List.prefix_refl _)⟩
    intro earlier sale before
    exact reach earlier sale (before.trans (List.prefix_append fills [fill]))
  · rintro ⟨reach, last⟩ earlier sale before sells
    rcases List.prefix_concat_iff.mp before with whole | within
    · obtain ⟨rfl, rfl⟩ := List.append_singleton_inj.mp whole
      exact last sells
    · exact reach earlier sale within sells

theorem laterParts_iff (order : Chronological fills) :
    (∀ symbol, LaterParts (ledgerOf symbol fills)) ↔ SalesReachBack fills := by
  induction fills using List.reverseRecOn with
  | nil =>
    refine iff_of_true (fun symbol => by simp [LaterParts, ledgerOf]) ?_
    intro earlier sale before
    simp at before
  | append_singleton fills fill ih =>
    rw [salesReachBack_append, ← ih order.init]
    simp only [laterParts_ledgerFill _ order, forall_and]
    exact and_congr_right fun _ => forall_eq'

/-- The trips of a buy: those its sales close, and the one of the shares still open. -/
def wholeTrips (e : Fifo.Entry Execution Execution) : List RoundTrip :=
  closedTrips e ++ if e.left ≠ 0 then [openTrip e.item.symbol (lotOf e)] else []

theorem filter_openTrips (symbol : Symbol) (entries : List (Symbol × List OpenLot))
    (nodup : (entries.map Prod.fst).Nodup) :
    ((entries.flatMap fun entry => entry.2.map (openTrip entry.1)).filter
        fun trip => trip.symbol = symbol) =
      ((Dict.lookup symbol entries).getD []).map (openTrip symbol) := by
  induction entries with
  | nil => rfl
  | cons entry entries ih =>
    obtain ⟨name, lots⟩ := entry
    obtain ⟨fresh, nodup⟩ := List.nodup_cons.mp nodup
    rw [List.flatMap_cons, List.filter_append, ih nodup, Dict.lookup]
    by_cases mine : name = symbol
    · subst mine
      have none : Dict.lookup name entries = none := by
        rw [← Option.not_isSome_iff_eq_none, Dict.lookup_isSome]
        exact fresh
      have all : ((lots.map (openTrip name)).filter fun trip => trip.symbol = name) =
          lots.map (openTrip name) := by
        rw [List.filter_eq_self]
        simp [openTrip]
      simp [none, all]
    · have others : ((lots.map (openTrip name)).filter fun trip => trip.symbol = symbol) = [] := by
        rw [List.filter_eq_nil_iff]
        simp [openTrip, mine]
      rw [others, if_neg mine, List.nil_append]

theorem flatMap_wholeTrips (ledger : BuyLedger) (symbol : Symbol)
    (mine : ∀ e ∈ ledger, e.item.symbol = symbol) :
    (ledger.flatMap wholeTrips).Perm
      (ledger.flatMap closedTrips ++ (openLotsOf ledger).map (openTrip symbol)) := by
  induction ledger with
  | nil => exact .refl _
  | cons e ledger ih =>
    obtain ⟨here, later⟩ := List.forall_mem_cons.mp mine
    have rest := ih later
    rw [List.flatMap_cons, List.flatMap_cons, wholeTrips, List.append_assoc, List.append_assoc,
      openLotsOf]
    refine List.Perm.append_left _ ?_
    by_cases open' : e.left ≠ 0
    · rw [if_pos open', List.filter_cons_of_pos (by simpa using open'), here]
      exact (rest.cons _).trans List.perm_middle.symm
    · rw [if_neg open', List.filter_cons_of_neg (by simpa using open')]
      exact rest

theorem skeleton_perm (executions : List Execution) :
    (tradeSkeleton executions).1.Perm (((fillsOf executions).foldl pairFill {}).trips ++
      ((fillsOf executions).foldl pairFill {}).openLots.entries.flatMap fun entry =>
        entry.2.map (openTrip entry.1)) := by
  exact List.perm_insertionSort _ _

/-- A ledger accounts for the trips of a name in a skeleton. -/
structure AccountsFor (symbol : Symbol) (executions : List Execution)
    (ledger : BuyLedger) : Prop
    extends Tracked symbol (fillsOf executions) ledger where
  trips : ((tradeSkeleton executions).1.filter fun trip => trip.symbol = symbol).Perm
    (ledger.flatMap wholeTrips)

variable {executions : List Execution}

theorem accountsFor_ledgerOf (symbol : Symbol) (order : Chronological (fillsOf executions)) :
    AccountsFor symbol executions (ledgerOf symbol (fillsOf executions)) := by
  have tracked := tracked_ledgerOf symbol order
  have pairs := pairs_ledgerOf symbol order
  refine ⟨tracked, ((skeleton_perm executions).filter _).trans ?_⟩
  have mine : ∀ e ∈ ledgerOf symbol (fillsOf executions), e.item.symbol = symbol := by
    intro e member
    have bought : e.item ∈ buysOf symbol (fillsOf executions) := by
      rw [← tracked.items]
      exact List.mem_map_of_mem member
    have passes := (List.mem_filter.mp bought).2
    exact (of_decide_eq_true passes).1
  refine List.Perm.trans ?_ (flatMap_wholeTrips _ symbol mine).symm
  rw [List.filter_append, filter_openTrips symbol _ (Dict.nodup _)]
  exact pairs.trips.append (.of_eq (congrArg _ pairs.lots))

/-- What pairing the fills of a run promises: every buy is split into its trips, first in, first
out; its closed trips and the unpaired shares are the shares sold; and no trip ends on its day. -/
structure SkeletonHolds (executions : List Execution) : Prop where
  ledgers : ∀ symbol, ∃ ledger, AccountsFor symbol executions ledger
  sold : (((tradeSkeleton executions).1.filter fun trip => trip.exitAt.isSome).map
      RoundTrip.quantity).sum + (tradeSkeleton executions).2 = soldShares (fillsOf executions)
  later : ∀ trip ∈ (tradeSkeleton executions).1, ∀ day, trip.exitDate = some day →
    trip.entryDate < day

theorem closed_of_paired {pairing : Pairing}
    (pairs : ∀ symbol, ∃ ledger, Pairs symbol ledger pairing) :
    ∀ trip ∈ pairing.trips, trip.exitAt.isSome := by
  intro trip member
  obtain ⟨ledger, pairs⟩ := pairs trip.symbol
  have inside := pairs.trips.mem_iff.mp (List.mem_filter.mpr ⟨member, by simp⟩)
  obtain ⟨e, -, there⟩ := List.mem_flatMap.mp inside
  obtain ⟨part, -, rfl⟩ := List.mem_map.mp there
  rfl

theorem sold_skeleton (order : Chronological (fillsOf executions)) :
    (((tradeSkeleton executions).1.filter fun trip => trip.exitAt.isSome).map
      RoundTrip.quantity).sum + (tradeSkeleton executions).2 = soldShares (fillsOf executions) := by
  have closed := closed_of_paired fun symbol => ⟨_, pairs_ledgerOf symbol order⟩
  rw [((skeleton_perm executions).filter _ |>.map _).sum_eq, List.filter_append,
    List.filter_eq_self.mpr closed]
  have none (entries : List (Symbol × List OpenLot)) :
      ((entries.flatMap fun entry => entry.2.map (openTrip entry.1)).filter
        fun trip => trip.exitAt.isSome) = [] := by
    rw [List.filter_eq_nil_iff]
    intro trip member
    obtain ⟨entry, -, there⟩ := List.mem_flatMap.mp member
    obtain ⟨lot, -, rfl⟩ := List.mem_map.mp there
    simp [openTrip]
  rw [none, List.append_nil]
  exact shares_pairing order

theorem later_iff (order : Chronological (fillsOf executions)) :
    (∀ trip ∈ (tradeSkeleton executions).1, ∀ day, trip.exitDate = some day →
      trip.entryDate < day) ↔ ∀ symbol, LaterParts (ledgerOf symbol (fillsOf executions)) := by
  constructor
  · intro later symbol e member part inside
    have trip : closedTrip e.item part.1 part.2 ∈
        (tradeSkeleton executions).1.filter fun trip => trip.symbol = symbol := by
      rw [(accountsFor_ledgerOf symbol order).trips.mem_iff]
      refine List.mem_flatMap.mpr ⟨e, member, List.mem_append_left _ ?_⟩
      exact List.mem_map_of_mem inside
    exact later _ (List.mem_of_mem_filter trip) _ rfl
  · intro later trip member day exit
    have inside := (accountsFor_ledgerOf trip.symbol order).trips.mem_iff.mp
      (List.mem_filter.mpr ⟨member, by simp⟩)
    obtain ⟨e, here, there⟩ := List.mem_flatMap.mp inside
    rcases List.mem_append.mp there with closed | opened
    · obtain ⟨part, taken, same⟩ := List.mem_map.mp closed
      rw [← same] at exit ⊢
      obtain rfl := Option.some.inj exit
      exact later trip.symbol e here part taken
    · split_ifs at opened
      · rw [List.mem_singleton.mp opened] at exit
        cases exit
      · cases opened

variable {profile : BrokerProfile}

theorem quantity_pos_of_run {ops : List BrokerOp} {s : BrokerRun}
    (run : BrokerRun.ofOps profile ops = .ok s) : ∀ e ∈ s.executions, 0 < e.quantity := by
  refine foldlM_invariant (P := fun s : BrokerRun => ∀ e ∈ s.executions, 0 < e.quantity) ?_ run
    (by simp [BrokerRun.new])
  intro op _ s s' step positive
  cases op with
  | openDay day bars events =>
    obtain ⟨b, -, rfl⟩ := except_map_eq_ok.mp step
    exact positive
  | mark field bars =>
    obtain rfl := Except.ok.inj step
    exact positive
  | execute order bar matchedAt rawPrice =>
    obtain ⟨⟨b, e⟩, executed, rfl⟩ := except_map_eq_ok.mp step
    intro e' member
    rcases List.mem_append.mp member with before | now
    · exact positive e' before
    · rw [List.mem_singleton.mp now, (DailyBroker.execute_frame executed).quantity_eq]
      exact order.quantity_pos

theorem chronological_of_run {ops : List BrokerOp} {s : BrokerRun}
    (run : BrokerRun.ofOps profile ops = .ok s) : Chronological (fillsOf s.executions) := by
  refine ⟨?_, Agenda.sorted_byTime _⟩
  intro fill member
  have filled := (Agenda.perm_byTime _).mem_iff.mp member
  exact quantity_pos_of_run run fill (List.mem_of_mem_filter filled)

/-- The skeleton of a run of the broker is sound exactly when no sale of it takes a name below
what was bought on the day of the sale: a sale of shares an ex-date created is paired with those
buys all the same. -/
theorem skeleton_holds_iff (profile : BrokerProfile) (ops : List BrokerOp) (s : BrokerRun)
    (run : BrokerRun.ofOps profile ops = .ok s) :
    SkeletonHolds s.executions ↔ SalesReachBack (fillsOf s.executions) := by
  have order := chronological_of_run run
  rw [← laterParts_iff order, ← later_iff order]
  refine ⟨SkeletonHolds.later, ?_⟩
  intro later
  exact ⟨fun symbol => ⟨_, accountsFor_ledgerOf symbol order⟩, sold_skeleton order, later⟩

/-- A lot sold on a later day is a sound trip. -/
theorem skeleton_holds_round_trip : ∃ s, BrokerRun.ofOps {} roundTrip = .ok s ∧
    SkeletonHolds s.executions := by
  have booked : ∃ s ∈ (BrokerRun.ofOps {} roundTrip).toOption,
      SalesReachBack (fillsOf s.executions) := by
    decide +kernel
  obtain ⟨s, done, reach⟩ := booked
  have run := toOption_eq_some.mp done
  exact ⟨s, run, (skeleton_holds_iff {} roundTrip s run).mpr reach⟩

/-- A lot doubled by an ex-date; the day after, another is bought and as much sold as is offered. -/
def bonusSale : List BrokerOp :=
  [.openDay 20240102 (fun _ => some (levelBar 10)) fun _ => {},
    levelTrade .buy 100 20240102 10 roundLot_pos,
    .mark Bar.close fun _ => some (levelBar 10),
    .openDay 20240103 (fun _ => some (levelBar 5)) fun _ => {},
    .mark Bar.close fun _ => some (levelBar 5),
    .openDay 20240104 (fun _ => some (levelBar 5)) fun _ => {},
    levelTrade .buy 100 20240104 5 roundLot_pos,
    levelTrade .sell 200 20240104 5 (by decide)]

/-- The sale is filled, and ends a trip on the day it began. -/
theorem bonus_sale_same_day : ∃ s, BrokerRun.ofOps {} bonusSale = .ok s ∧
    (s.executions.map Execution.status = [.filled, .filled, .filled]) ∧
    ¬ SkeletonHolds s.executions := by
  have booked : ∃ s ∈ (BrokerRun.ofOps {} bonusSale).toOption,
      s.executions.map Execution.status = [.filled, .filled, .filled] ∧
        ∃ trip ∈ (tradeSkeleton s.executions).1, trip.exitDate = some trip.entryDate := by
    decide +kernel
  obtain ⟨s, done, filled, trip, member, same⟩ := booked
  refine ⟨s, toOption_eq_some.mp done, filled, ?_⟩
  intro holds
  exact absurd (holds.later trip member _ same) (lt_irrefl _)

end NullControl

end AutoTrade
