import Mathlib.Data.List.Sort
import Mathlib.Data.List.TakeWhile

/-!
# An agenda of timed items

Items wait on an agenda by their times, an earlier one of the same time first. A pass
takes every item whose time has come. `assigned` says which pass takes an item without
running the agenda: the first one, after the item was added, whose cutoff is at or past
the item's time. The runs of `Agenda.Ran` take exactly those.
-/

namespace AutoTrade

namespace Agenda

variable {α τ : Type} [LinearOrder τ] {time : α → τ}

/-- The items in the order they come due, an earlier one of the same time first. -/
def byTime (time : α → τ) (items : List α) : List α :=
  items.insertionSort fun x y => time x ≤ time y

theorem perm_byTime (items : List α) : (byTime time items).Perm items :=
  List.perm_insertionSort _ _

theorem sorted_byTime (items : List α) :
    (byTime time items).Pairwise fun x y => time x ≤ time y := by
  have : Std.Total fun x y : α => time x ≤ time y := ⟨fun x y => le_total (time x) (time y)⟩
  have : IsTrans α fun x y => time x ≤ time y := ⟨fun _ _ _ => le_trans⟩
  exact List.pairwise_insertionSort _ _

theorem filter_byTime_time (t : τ) (items : List α) :
    (byTime time items).filter (fun x => time x = t) = items.filter fun x => time x = t := by
  have alike : (items.filter fun x => time x = t).Pairwise fun x y => time x ≤ time y := by
    refine List.pairwise_of_forall_mem_list fun x hx y hy => ?_
    simp only [List.mem_filter, decide_eq_true_eq] at hx hy
    rw [hx.2, hy.2]
  have : Std.Total fun x y : α => time x ≤ time y := ⟨fun x y => le_total (time x) (time y)⟩
  have : IsTrans α fun x y => time x ≤ time y := ⟨fun _ _ _ => le_trans⟩
  have kept := (List.sublist_insertionSort alike List.filter_sublist).filter fun x => time x = t
  rw [List.filter_filter] at kept
  simp only [Bool.and_self] at kept
  exact (kept.eq_of_length ((perm_byTime items).filter _).length_eq.symm).symm

theorem eq_of_sorted {l m : List α} (left : l.Pairwise fun x y => time x ≤ time y)
    (right : m.Pairwise fun x y => time x ≤ time y)
    (alike : ∀ t, l.filter (fun x => time x = t) = m.filter fun x => time x = t) : l = m := by
  induction l generalizing m with
  | nil =>
    refine (List.eq_nil_iff_forall_not_mem.mpr fun y member => ?_).symm
    have there : y ∈ m.filter fun x => time x = time y := List.mem_filter.mpr ⟨member, by simp⟩
    rw [← alike] at there
    simp at there
  | cons x l ih =>
    cases m with
    | nil =>
      have here := alike (time x)
      simp at here
    | cons y m =>
      obtain ⟨leastLeft, left⟩ := List.pairwise_cons.mp left
      obtain ⟨leastRight, rest⟩ := List.pairwise_cons.mp right
      have inRight : x ∈ y :: m := by
        have there : x ∈ (x :: l).filter fun z => time z = time x :=
          List.mem_filter.mpr ⟨List.mem_cons_self, by simp⟩
        rw [alike] at there
        exact (List.mem_filter.mp there).1
      have inLeft : y ∈ x :: l := by
        have there : y ∈ (y :: m).filter fun z => time z = time y :=
          List.mem_filter.mpr ⟨List.mem_cons_self, by simp⟩
        rw [← alike] at there
        exact (List.mem_filter.mp there).1
      have same : time x = time y := by
        refine le_antisymm ?_ ?_
        · rcases List.mem_cons.mp inLeft with rfl | member
          · exact le_rfl
          · exact leastLeft y member
        · rcases List.mem_cons.mp inRight with rfl | member
          · exact le_rfl
          · exact leastRight x member
      have first := alike (time x)
      rw [List.filter_cons_of_pos (by simp), List.filter_cons_of_pos (by simp [same])] at first
      obtain ⟨rfl, -⟩ := List.cons.inj first
      congr 1
      refine ih left rest fun t => ?_
      have here := alike t
      by_cases atT : time x = t
      · rw [List.filter_cons_of_pos (by simpa using atT),
          List.filter_cons_of_pos (by simpa using atT)] at here
        exact (List.cons.inj here).2
      · rwa [List.filter_cons_of_neg (by simpa using atT),
          List.filter_cons_of_neg (by simpa using atT)] at here

theorem byTime_byTime_append (items later : List α) :
    byTime time (byTime time items ++ later) = byTime time (items ++ later) := by
  refine eq_of_sorted (sorted_byTime _) (sorted_byTime _) fun t => ?_
  rw [filter_byTime_time, filter_byTime_time, List.filter_append, List.filter_append,
    filter_byTime_time]

theorem filter_byTime (p : α → Bool) (items : List α) :
    (byTime time items).filter p = byTime time (items.filter p) := by
  refine eq_of_sorted ((sorted_byTime items).filter p) (sorted_byTime _) fun t => ?_
  rw [filter_byTime_time, List.filter_comm, filter_byTime_time, List.filter_comm]

theorem byTime_append_of_le {items later : List α}
    (sorted : items.Pairwise fun x y => time x ≤ time y)
    (after : ∀ x ∈ items, ∀ y ∈ later, time x ≤ time y) :
    byTime time (items ++ later) = items ++ byTime time later := by
  refine eq_of_sorted (sorted_byTime _) ?_ fun t => ?_
  · refine List.pairwise_append.mpr ⟨sorted, sorted_byTime _, fun x hx y hy => ?_⟩
    exact after x hx y ((perm_byTime later).mem_iff.mp hy)
  · rw [filter_byTime_time, List.filter_append, List.filter_append, filter_byTime_time]

/-- The items a pass takes off an agenda. -/
def due (time : α → τ) (cutoff : τ) (items : List α) : List α :=
  items.takeWhile fun x => time x ≤ cutoff

/-- What a pass leaves on an agenda. -/
def left (time : α → τ) (cutoff : τ) (items : List α) : List α :=
  items.dropWhile fun x => time x ≤ cutoff

theorem due_append_left (time : α → τ) (cutoff : τ) (items : List α) :
    due time cutoff items ++ left time cutoff items = items := List.takeWhile_append_dropWhile

theorem time_due {cutoff : τ} {items : List α} {x : α} (member : x ∈ due time cutoff items) :
    time x ≤ cutoff := by simpa using List.mem_takeWhile_imp member

theorem time_left {cutoff : τ} {items : List α}
    (sorted : items.Pairwise fun x y => time x ≤ time y) :
    ∀ x ∈ left time cutoff items, cutoff < time x := by
  induction items with
  | nil => simp [left]
  | cons y items ih =>
    obtain ⟨least, sorted⟩ := List.pairwise_cons.mp sorted
    by_cases reached : time y ≤ cutoff
    · rw [left, List.dropWhile_cons_of_pos (by simpa using reached)]
      exact ih sorted
    · rw [left, List.dropWhile_cons_of_neg (by simpa using reached)]
      intro x member
      rcases List.mem_cons.mp member with rfl | member
      · exact not_le.mp reached
      · exact (not_le.mp reached).trans_le (least x member)

theorem due_eq_filter {cutoff : τ} {items : List α}
    (sorted : items.Pairwise fun x y => time x ≤ time y) :
    due time cutoff items = items.filter fun x => time x ≤ cutoff := by
  conv_rhs => rw [← due_append_left time cutoff items, List.filter_append]
  rw [List.filter_eq_self.mpr fun x member => by simpa using time_due member,
    List.filter_eq_nil_iff.mpr fun x member => by simpa using time_left sorted x member,
    List.append_nil]

theorem left_eq_filter {cutoff : τ} {items : List α}
    (sorted : items.Pairwise fun x y => time x ≤ time y) :
    left time cutoff items = items.filter fun x => cutoff < time x := by
  conv_rhs => rw [← due_append_left time cutoff items, List.filter_append]
  rw [List.filter_eq_nil_iff.mpr fun x member => by simpa using time_due member,
    List.filter_eq_self.mpr fun x member => by simpa using time_left sorted x member,
    List.nil_append]

theorem sorted_left {cutoff : τ} {items : List α}
    (sorted : items.Pairwise fun x y => time x ≤ time y) :
    (left time cutoff items).Pairwise fun x y => time x ≤ time y :=
  sorted.sublist (List.dropWhile_sublist _)

/-- What happens to an agenda, a pass with what it took. -/
inductive Event (α τ : Type) where
  | add (items : List α)
  | pass (cutoff : τ) (taken : List α)

namespace Event

def added : Event α τ → List α
  | add items => items
  | pass _ _ => []

def taken : Event α τ → List α
  | add _ => []
  | pass _ taken => taken

def cutoff : Event α τ → Option τ
  | add _ => none
  | pass cutoff _ => some cutoff

/-- A pass at or past `t`. -/
def reaches (t : τ) : Event α τ → Bool
  | add _ => false
  | pass cutoff _ => t ≤ cutoff

end Event

/-- Every item ever added, in the order it was, with the first later pass to reach it. -/
def assigned (time : α → τ) : List (Event α τ) → List (α × Option Nat)
  | [] => []
  | event :: later =>
    event.added.map (fun x => (x, (later.findIdx? (Event.reaches (time x))).map (· + 1))) ++
      (assigned time later).map fun entry => (entry.1, entry.2.map (· + 1))

/-- The items a pass is to take, or with none those no pass reached. -/
def assignedTo (time : α → τ) (place : Option Nat) (events : List (Event α τ)) : List α :=
  ((assigned time events).filter fun entry => entry.2 = place).map Prod.fst

/-- The events an empty agenda may go through, and what they leave on it. -/
inductive Ran (time : α → τ) : List (Event α τ) → List α → Prop where
  | start : Ran time [] []
  | add {events : List (Event α τ)} {items : List α} (ran : Ran time events items)
      (added : List α) : Ran time (events ++ [.add added]) (byTime time (items ++ added))
  | pass {events : List (Event α τ)} {items : List α} (ran : Ran time events items) (cutoff : τ) :
      Ran time (events ++ [.pass cutoff (due time cutoff items)]) (left time cutoff items)

theorem map_fst_assigned (events : List (Event α τ)) :
    (assigned time events).map Prod.fst = events.flatMap Event.added := by
  induction events with
  | nil => rfl
  | cons event later ih =>
    rw [assigned, List.map_append, List.flatMap_cons, ← ih]
    simp [Function.comp_def]

theorem assigned_append_add (events : List (Event α τ)) (items : List α) :
    assigned time (events ++ [.add items]) =
      assigned time events ++ items.map fun x => (x, none) := by
  induction events with
  | nil => simp [assigned, Event.added]
  | cons event later ih =>
    rw [List.cons_append, assigned, assigned, ih]
    simp [List.findIdx?_append, Event.reaches, List.findIdx?_cons]

theorem assigned_append_pass (events : List (Event α τ)) (cutoff : τ) (taken : List α) :
    assigned time (events ++ [.pass cutoff taken]) =
      (assigned time events).map fun entry =>
        (entry.1, entry.2.or (if time entry.1 ≤ cutoff then some events.length else none)) := by
  induction events with
  | nil => simp [assigned, Event.added]
  | cons event later ih =>
    rw [List.cons_append, assigned, assigned, ih, List.map_append, List.map_map, List.map_map,
      List.map_map]
    congr 1
    · refine List.map_congr_left fun x _ => ?_
      cases found : later.findIdx? (Event.reaches (time x)) with
      | none =>
        by_cases reached : time x ≤ cutoff <;>
          simp [List.findIdx?_append, found, Event.reaches, List.findIdx?_cons, reached]
      | some k => simp [List.findIdx?_append, found]
    · refine List.map_congr_left fun entry _ => ?_
      cases place : entry.2 with
      | none => by_cases reached : time entry.1 ≤ cutoff <;> simp [place, reached]
      | some k => simp [place]

theorem place_lt {events : List (Event α τ)} {entry : α × Option Nat} {k : Nat}
    (member : entry ∈ assigned time events) (there : entry.2 = some k) : k < events.length := by
  induction events generalizing entry k with
  | nil => simp [assigned] at member
  | cons event later ih =>
    rw [assigned, List.mem_append, List.mem_map, List.mem_map] at member
    rcases member with ⟨x, -, rfl⟩ | ⟨older, earlier, rfl⟩
    · obtain ⟨j, found, rfl⟩ := Option.map_eq_some_iff.mp there
      have bound := (List.findIdx?_eq_some_iff_getElem.mp found).1
      simpa using bound
    · obtain ⟨j, place, rfl⟩ := Option.map_eq_some_iff.mp there
      simpa using ih earlier place

theorem assignedTo_add (events : List (Event α τ)) (items : List α) :
    assignedTo time none (events ++ [.add items]) = assignedTo time none events ++ items := by
  rw [assignedTo, assigned_append_add, List.filter_append, List.map_append, List.filter_map,
    List.map_map]
  simp [assignedTo, Function.comp_def]

theorem assignedTo_some_add (k : Nat) (events : List (Event α τ)) (items : List α) :
    assignedTo time (some k) (events ++ [.add items]) = assignedTo time (some k) events := by
  rw [assignedTo, assigned_append_add, List.filter_append, List.map_append]
  simp [assignedTo]

theorem assignedTo_pass (events : List (Event α τ)) (cutoff : τ) (taken : List α) :
    assignedTo time none (events ++ [.pass cutoff taken]) =
      (assignedTo time none events).filter fun x => cutoff < time x := by
  rw [assignedTo, assigned_append_pass, List.filter_map, List.map_map, assignedTo,
    List.filter_map, List.filter_filter]
  refine congrArg _ (List.filter_congr fun entry _ => ?_)
  cases place : entry.2 with
  | none =>
    rcases le_or_gt (time entry.1) cutoff with reached | reached
    · simp [place, reached]
    · simp [place, reached, not_le.mpr reached]
  | some k => simp [place]

theorem assignedTo_this_pass (events : List (Event α τ)) (cutoff : τ) (taken : List α) :
    assignedTo time (some events.length) (events ++ [.pass cutoff taken]) =
      (assignedTo time none events).filter fun x => time x ≤ cutoff := by
  rw [assignedTo, assigned_append_pass, List.filter_map, List.map_map, assignedTo,
    List.filter_map, List.filter_filter]
  refine congrArg _ (List.filter_congr fun entry member => ?_)
  cases place : entry.2 with
  | none => by_cases reached : time entry.1 ≤ cutoff <;> simp [place, reached]
  | some k => simp [place, (place_lt member place).ne]

theorem assignedTo_some_pass {k : Nat} {events : List (Event α τ)} (earlier : k < events.length)
    (cutoff : τ) (taken : List α) :
    assignedTo time (some k) (events ++ [.pass cutoff taken]) = assignedTo time (some k) events := by
  rw [assignedTo, assigned_append_pass, List.filter_map, List.map_map, assignedTo]
  refine congrArg _ (List.filter_congr fun entry _ => ?_)
  cases place : entry.2 with
  | none => by_cases reached : time entry.1 ≤ cutoff <;> simp [place, reached, earlier.ne']
  | some j => simp [place]

namespace Ran

variable {events : List (Event α τ)} {items : List α}

theorem items_eq (ran : Ran time events items) :
    items = byTime time (assignedTo time none events) := by
  induction ran with
  | start => rfl
  | add _ added ih => rw [ih, byTime_byTime_append, assignedTo_add]
  | pass _ cutoff ih =>
    rw [ih, left_eq_filter (sorted_byTime _), filter_byTime, assignedTo_pass]

theorem taken_eq (ran : Ran time events items) {k : Nat} {cutoff : τ} {taken : List α}
    (here : events[k]? = some (.pass cutoff taken)) :
    taken = byTime time (assignedTo time (some k) events) := by
  induction ran with
  | start => simp at here
  | add _ added ih =>
    rw [List.getElem?_append] at here
    split at here
    · rw [ih here, assignedTo_some_add]
    · cases List.mem_singleton.mp (List.mem_of_getElem? here)
  | @pass events items before cutoff' ih =>
    rcases lt_or_ge k events.length with earlier | late
    · rw [List.getElem?_append_left earlier] at here
      rw [ih here, assignedTo_some_pass earlier]
    · rw [List.getElem?_append_right late] at here
      have place := (List.getElem?_eq_some_iff.mp here).1
      obtain rfl : k = events.length := by
        rw [List.length_singleton] at place
        omega
      simp only [Nat.sub_self, List.getElem?_cons_zero, Option.some.injEq, Event.pass.injEq] at here
      obtain ⟨rfl, rfl⟩ := here
      rw [assignedTo_this_pass, ← filter_byTime, ← before.items_eq,
        due_eq_filter (before.items_eq ▸ sorted_byTime _)]

/-- No item is added for a time before a pass that is over. -/
def Timely (time : α → τ) (events : List (Event α τ)) : Prop :=
  events.Pairwise fun event later => ∀ cutoff ∈ event.cutoff, ∀ x ∈ later.added, cutoff ≤ time x

theorem taken_reached (ran : Ran time events items) :
    ∀ x ∈ events.flatMap Event.taken, ∃ event ∈ events, ∃ cutoff ∈ event.cutoff, time x ≤ cutoff := by
  induction ran with
  | start => simp
  | add _ added ih =>
    intro x member
    simp only [List.flatMap_append, List.flatMap_singleton, Event.taken, List.append_nil] at member
    obtain ⟨event, inEvents, reached⟩ := ih x member
    exact ⟨event, List.mem_append_left _ inEvents, reached⟩
  | pass _ cutoff ih =>
    intro x member
    simp only [List.flatMap_append, List.flatMap_singleton, Event.taken, List.mem_append] at member
    rcases member with earlier | now
    · obtain ⟨event, inEvents, reached⟩ := ih x earlier
      exact ⟨event, List.mem_append_left _ inEvents, reached⟩
    · exact ⟨_, List.mem_append_right _ (List.mem_singleton_self _), cutoff, rfl, time_due now⟩

theorem in_order (ran : Ran time events items) (timely : Timely time events) :
    events.flatMap Event.taken ++ items = byTime time (events.flatMap Event.added) := by
  induction ran with
  | start => rfl
  | @add events items before added ih =>
    obtain ⟨earlier, -, after⟩ := List.pairwise_append.mp timely
    have whole := ih earlier
    have sorted : (byTime time (events.flatMap Event.added)).Pairwise fun x y => time x ≤ time y :=
      sorted_byTime _
    rw [← whole] at sorted
    obtain ⟨takenSorted, -, across⟩ := List.pairwise_append.mp sorted
    simp only [List.flatMap_append, List.flatMap_singleton, Event.taken, Event.added, List.append_nil]
    rw [← byTime_byTime_append (events.flatMap Event.added), ← whole, List.append_assoc,
      byTime_append_of_le takenSorted]
    intro x inTaken y inRest
    rcases List.mem_append.mp inRest with waiting | new
    · exact across x inTaken y waiting
    · obtain ⟨event, inEvents, cutoff, passed, reached⟩ := before.taken_reached x inTaken
      exact reached.trans (after event inEvents _ (List.mem_singleton_self _) cutoff passed y new)
  | @pass events items before cutoff ih =>
    have whole := ih (List.pairwise_append.mp timely).1
    simp only [List.flatMap_append, List.flatMap_singleton, Event.taken, Event.added, List.append_nil]
    rw [List.append_assoc, due_append_left, whole]

end Ran

end Agenda

end AutoTrade
