import AutoTrade.Common.Time
import Mathlib.Data.List.Basic

/-!
# Refresh nodes

`autotrade/environment/data/contracts.py`: when the jobs that land a dataset run, up to which
stamp its rows are therefore visible, and when the next of the jobs will have run. A day is
counted from the first of January of the year 1, a Monday; a time is its microseconds since then
in Beijing, which has kept eight hours ahead of UTC since 1991.
-/

namespace AutoTrade

/-- A `datetime`: its own wall clock, and how far that is ahead of UTC if it says. -/
structure WallTime where
  micros : Int
  offset : Option Int

/-- `when.replace(tzinfo=CN_TZ)` of one without a timezone, else `when.astimezone(CN_TZ)`. -/
def WallTime.cn (t : WallTime) : Int :=
  match t.offset with
  | none => t.micros
  | some ahead => t.micros - ahead + 8 * 60 * microsPerMinute

/-- `date.weekday()`, from Monday. -/
def weekday (day : Int) : Int := day % 7

/-- `RefreshNode`, its start as a minute of the day. -/
structure RefreshNode where
  name : String
  start : Nat
  durationMinutes : Nat
  deriving DecidableEq

namespace RefreshNode

variable (node : RefreshNode)

def startAt (day : Int) : Int := day * microsPerDay + node.start * microsPerMinute

def readyAt (day : Int) : Int := node.startAt day + node.durationMinutes * microsPerMinute

end RefreshNode

/-- `REFRESH_NODES`. -/
def refreshNodes : List RefreshNode :=
  [⟨"cn_evening_full", 23 * 60 + 35, 210⟩,
    ⟨"cn_nightly_text_full", 23 * 60 + 15, 15⟩,
    ⟨"cn_nightly_anns_full", 23 * 60 + 15, 15⟩,
    ⟨"cn_nightly_disclosure_full", 9 * 60 + 45, 10⟩,
    ⟨"cn_nightly_global_full", 23 * 60 + 25, 15⟩,
    ⟨"cn_nightly_pit_event_build", 3 * 60 + 35, 30⟩,
    ⟨"cn_preopen_board_backfill_0850", 8 * 60 + 50, 5⟩,
    ⟨"cn_preopen_margin_secs_backfill_0903", 9 * 60 + 3, 2⟩,
    ⟨"cn_preopen_margin_secs_retry_0913", 9 * 60 + 13, 2⟩,
    ⟨"cn_preopen_margin_backfill_0905", 9 * 60 + 5, 2⟩,
    ⟨"cn_preopen_margin_retry_0915", 9 * 60 + 15, 2⟩,
    ⟨"cn_open_auction_capture_0927", 9 * 60 + 27, 4⟩]

def eveningNode : String := "cn_evening_full"

def pitEventNode : String := "cn_nightly_pit_event_build"

def textNode : String := "cn_nightly_text_full"

/-- `NODE_ACTIVE_WEEKDAYS`. -/
def nodeActiveWeekdays : List (String × List Int) :=
  [(eveningNode, [0, 1, 2, 3, 4]), (pitEventNode, [1, 2, 3, 4, 5])]

/-- Whether a node runs on a day: on every day when no weekdays are listed for it. -/
def runsOn (name : String) (day : Int) : Bool :=
  match nodeActiveWeekdays.lookup name with
  | some weekdays => weekday day ∈ weekdays
  | none => true

/-- `DOMAIN_REFRESH_NODES`. -/
def domainRefreshNodes : List (String × List String) :=
  [("daily", [eveningNode]),
    ("intraday_1min", [eveningNode]),
    ("macro", [eveningNode]),
    ("auction", []),
    ("fundamentals", [pitEventNode])]

/-- `EVENT_DATASET_REFRESH_NODES`. -/
def eventDatasetRefreshNodes : List (String × List String) :=
  [("margin_secs",
      ["cn_preopen_margin_secs_backfill_0903", "cn_preopen_margin_secs_retry_0913"]),
    ("margin", ["cn_preopen_margin_backfill_0905", "cn_preopen_margin_retry_0915"]),
    ("margin_detail", ["cn_preopen_margin_backfill_0905", "cn_preopen_margin_retry_0915"]),
    ("kpl_list", [eveningNode, "cn_preopen_board_backfill_0850"]),
    ("limit_step", [eveningNode, "cn_preopen_board_backfill_0850"]),
    ("limit_cpt_list", [eveningNode, "cn_preopen_board_backfill_0850"]),
    ("top10_holders", ["cn_nightly_disclosure_full"]),
    ("top10_floatholders", ["cn_nightly_disclosure_full"]),
    ("stk_holdernumber", ["cn_nightly_disclosure_full"]),
    ("stk_holdertrade", ["cn_nightly_disclosure_full"]),
    ("report_rc", [textNode])]

/-- `TEXT_DATASET_REFRESH_NODES`. -/
def textDatasetRefreshNodes : List (String × List String) := [("anns_d", ["cn_nightly_anns_full"])]

/-- `MACRO_DATASET_REFRESH_NODES`. -/
def macroDatasetRefreshNodes : List (String × List String) :=
  [("index_global", ["cn_nightly_global_full"]),
    ("fx_daily", ["cn_nightly_global_full"]),
    ("us_tycr", ["cn_nightly_global_full"]),
    ("us_trycr", ["cn_nightly_global_full"]),
    ("us_tbr", ["cn_nightly_global_full"]),
    ("us_tltr", ["cn_nightly_global_full"]),
    ("eco_cal", ["cn_nightly_global_full"])]

/-- `REFRESH_NODES[name]`, or the `KeyError`'s name. -/
def refreshNode (name : String) : Except String RefreshNode :=
  match refreshNodes.find? (·.name = name) with
  | some node => .ok node
  | none => .error name

/-- `node_visible_cutoff`. -/
def nodeVisibleCutoff (node : RefreshNode) (now : WallTime) : Option Int :=
  let baseDay := now.cn / microsPerDay
  ((List.range 10).find? fun (delta : Nat) =>
    runsOn node.name (baseDay - delta) && node.readyAt (baseDay - delta) ≤ now.cn).map
    fun delta => node.startAt (baseDay - delta)

/-- `visible_cutoff`. -/
def visibleCutoff (names : List String) (now : WallTime) : Except String (Option Int) := do
  let cutoffs ← names.mapM fun name => do
    let node ← refreshNode name
    return nodeVisibleCutoff node now
  return cutoffs.reduceOption.max?

/-- `next_visible_boundary`. -/
def nextVisibleBoundary (names : List String) (now : WallTime) : Except String (Option Int) := do
  let baseDay := now.cn / microsPerDay
  let candidates ← names.mapM fun name => do
    let node ← refreshNode name
    let days := (List.range 12).map fun (delta : Nat) => baseDay + (delta - 1)
    return ((days.filter (runsOn name)).map node.readyAt).filter (now.cn < ·)
  return candidates.flatten.min?

/-- The nodes a table names for a dataset, or those of the datasets it leaves out. -/
def nodesOf (table : List (String × List String)) (others : List String) (dataset : String) :
    List String := (table.lookup dataset).getD others

def domainVisibleCutoff (domain : String) : WallTime → Except String (Option Int) :=
  visibleCutoff (nodesOf domainRefreshNodes [eveningNode] domain)

def domainNextVisibleBoundary (domain : String) : WallTime → Except String (Option Int) :=
  nextVisibleBoundary (nodesOf domainRefreshNodes [eveningNode] domain)

def eventDatasetVisibleCutoff (dataset : String) : WallTime → Except String (Option Int) :=
  visibleCutoff (nodesOf eventDatasetRefreshNodes [eveningNode] dataset)

def eventDatasetNextVisibleBoundary (dataset : String) : WallTime → Except String (Option Int) :=
  nextVisibleBoundary (nodesOf eventDatasetRefreshNodes [eveningNode] dataset)

def macroDatasetVisibleCutoff (dataset : String) : WallTime → Except String (Option Int) :=
  visibleCutoff (nodesOf macroDatasetRefreshNodes [eveningNode] dataset)

def macroDatasetNextVisibleBoundary (dataset : String) : WallTime → Except String (Option Int) :=
  nextVisibleBoundary (nodesOf macroDatasetRefreshNodes [eveningNode] dataset)

def textDatasetVisibleCutoff (dataset : String) : WallTime → Except String (Option Int) :=
  visibleCutoff (nodesOf textDatasetRefreshNodes [textNode] dataset)

def textDatasetNextVisibleBoundary (dataset : String) : WallTime → Except String (Option Int) :=
  nextVisibleBoundary (nodesOf textDatasetRefreshNodes [textNode] dataset)

end AutoTrade
