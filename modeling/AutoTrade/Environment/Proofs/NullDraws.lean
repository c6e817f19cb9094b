import AutoTrade.Environment.Replay.NullControl

/-!
# A draw is local in the trips

The twin of a trip counts the trips of its identity before it, so what it draws is read off the
trips of its identity alone; and its exit looks at the other holders of its name, to see only
whether one was held beside it.
-/

namespace AutoTrade

namespace NullControl

variable {generator : Generator} {seed : Int} {draw : Nat} {identity : Identity}

/-- The names trips draw from the counts of their twins on, each at its place. -/
def drawsFrom (generator : Generator) (seed : Int) (draw : Nat) (twins : Identity → Nat) :
    Nat → List (RoundTrip × List (Symbol × Int)) → List Drawn
  | _, [] => []
  | place, next :: rest =>
    let identity := next.1.identity
    let counted := Function.update twins identity (twins identity + 1)
    let later := drawsFrom generator seed draw counted (place + 1) rest
    match next.2 with
    | [] => later
    | name :: names =>
      let at' := generator.integers (generator.tripSeed seed draw identity (twins identity))
        names.length
      let picked := (name :: names).get at'
      ⟨place, next.1, picked.1, picked.2⟩ :: later

/-- The counts a state keeps. -/
def DrawState.counts (state : DrawState) (identity : Identity) : Nat :=
  (state.twins.get? identity).getD 0

/-- The holders of each name are what drew it. -/
def DrawState.Held (state : DrawState) : Prop :=
  ∀ symbol, (state.holders.get? symbol).getD [] = state.drawn.filter fun d => d.symbol = symbol

theorem counts_set (state : DrawState) (n : Nat) :
    (fun other => ((state.twins.set identity n).get? other).getD 0) =
      Function.update state.counts identity n := by
  funext other
  rw [Dict.get?_set, Function.update_apply]
  by_cases same : identity = other
  · simp [same]
  · simp [same, Ne.symm same, DrawState.counts]

theorem foldl_drawTrip (trips : List (RoundTrip × List (Symbol × Int))) (state : DrawState)
    (held : state.Held) :
    let final := trips.foldl (drawTrip generator seed draw) state
    final.drawn = state.drawn ++ drawsFrom generator seed draw state.counts state.place trips ∧
      final.dropped + final.drawn.length =
        state.dropped + state.drawn.length + trips.length ∧ final.Held := by
  induction trips generalizing state with
  | nil => simp [drawsFrom, held]
  | cons next rest ih =>
    obtain ⟨trip, pool⟩ := next
    rw [List.foldl_cons]
    cases pool with
    | nil =>
      obtain ⟨drawn, count, later⟩ := ih (drawTrip generator seed draw state (trip, [])) held
      refine ⟨?_, ?_, later⟩
      · rw [drawn, drawsFrom, ← counts_set]
        rfl
      · rw [count, List.length_cons]
        simp only [drawTrip]
        omega
    | cons name names =>
      have still : (drawTrip generator seed draw state (trip, name :: names)).Held := by
        intro symbol
        simp only [drawTrip]
        rw [Dict.get?_set, List.filter_append]
        split_ifs with same
        · subst same
          rw [Option.getD_some, held, List.filter_cons_of_pos (by simp), List.filter_nil]
        · rw [held symbol, List.filter_cons_of_neg (by simpa using same), List.filter_nil,
            List.append_nil]
      obtain ⟨drawn, count, later⟩ := ih _ still
      refine ⟨?_, ?_, later⟩
      · rw [drawn, drawsFrom, ← counts_set]
        simp only [drawTrip, List.append_assoc, List.cons_append, List.nil_append]
        rfl
      · rw [count, List.length_cons]
        simp only [drawTrip, List.length_append, List.length_cons, List.length_nil]
        omega

/-- What a trip draws, its place aside. -/
def Drawn.content (d : Drawn) : RoundTrip × Symbol × Int := (d.trip, d.symbol, d.quantity)

theorem drawsFrom_content (twins twins' : Identity → Nat) (place place' : Nat)
    (trips : List (RoundTrip × List (Symbol × Int))) (same : twins identity = twins' identity) :
    ((drawsFrom generator seed draw twins place trips).filter fun d =>
        d.trip.identity = identity).map Drawn.content =
      (drawsFrom generator seed draw twins' place' (trips.filter fun next =>
        next.1.identity = identity)).map Drawn.content := by
  induction trips generalizing twins twins' place place' with
  | nil => rfl
  | cons next rest ih =>
    obtain ⟨trip, pool⟩ := next
    by_cases mine : trip.identity = identity
    · have counted : Function.update twins trip.identity (twins trip.identity + 1) identity =
          Function.update twins' trip.identity (twins' trip.identity + 1) identity := by
        rw [mine, Function.update_self, Function.update_self, same]
      have later := ih _ _ (place + 1) (place' + 1) counted
      rw [List.filter_cons_of_pos (by simpa using mine), drawsFrom, drawsFrom]
      cases pool with
      | nil => exact later
      | cons name names =>
        simp only
        rw [List.filter_cons_of_pos (by simpa using mine), List.map_cons, List.map_cons, later,
          mine, same]
        rfl
    · have apart : Function.update twins trip.identity (twins trip.identity + 1) identity =
          twins' identity := by
        rw [Function.update_of_ne (Ne.symm mine), same]
      have later := ih _ twins' (place + 1) place' apart
      rw [List.filter_cons_of_neg (by simpa using mine), drawsFrom]
      cases pool with
      | nil => exact later
      | cons name names =>
        simp only
        rw [List.filter_cons_of_neg (by simpa using mine)]
        exact later

theorem drawsFrom_places (twins : Identity → Nat) (place : Nat)
    (trips : List (RoundTrip × List (Symbol × Int))) :
    (∀ d ∈ drawsFrom generator seed draw twins place trips, place ≤ d.place ∧
      ∃ pool, trips[d.place - place]? = some (d.trip, pool) ∧ (d.symbol, d.quantity) ∈ pool) ∧
      (drawsFrom generator seed draw twins place trips).Pairwise
        fun d d' => d.place < d'.place := by
  induction trips generalizing twins place with
  | nil => exact ⟨by simp [drawsFrom], List.Pairwise.nil⟩
  | cons next rest ih =>
    obtain ⟨trip, pool⟩ := next
    obtain ⟨places, increasing⟩ :=
      ih (Function.update twins trip.identity (twins trip.identity + 1)) (place + 1)
    have later : ∀ d ∈ drawsFrom generator seed draw
        (Function.update twins trip.identity (twins trip.identity + 1)) (place + 1) rest,
        place < d.place ∧ ∃ pool', ((trip, pool) :: rest)[d.place - place]? = some (d.trip, pool') ∧
          (d.symbol, d.quantity) ∈ pool' := by
      intro d member
      obtain ⟨least, pool', found, among⟩ := places d member
      refine ⟨least, pool', ?_, among⟩
      rw [show d.place - place = (d.place - (place + 1)) + 1 by omega, List.getElem?_cons_succ]
      exact found
    rw [drawsFrom]
    cases pool with
    | nil => exact ⟨fun d member => ⟨(later d member).1.le, (later d member).2⟩, increasing⟩
    | cons name names =>
      constructor
      · intro d member
        rcases List.mem_cons.mp member with rfl | member
        · refine ⟨le_rfl, name :: names, ?_, ?_⟩
          · simp
          · exact List.get_mem _ _
        · exact ⟨(later d member).1.le, (later d member).2⟩
      · exact List.pairwise_cons.mpr ⟨fun d member => (later d member).1, increasing⟩

/-- A drawn trip with the orders of its legs. -/
structure Replacement where
  drawn : Drawn
  entry : OrderRecord
  exit : Option OrderRecord

namespace Replacement

def legs (r : Replacement) : List OrderRecord := r.entry :: r.exit.toList

/-- Whether another replacement of the name is held beside a trip that ends. -/
def beside (rs : List Replacement) (r : Replacement) : Bool :=
  r.drawn.trip.exitAt.any
    (heldBeside ((rs.map drawn).filter fun d => d.symbol = r.drawn.symbol) r.drawn)

end Replacement

variable {sellable : RoundTrip → Symbol → Int → Except NullError Int}
  {carriedLimit : Option ℚ → Symbol → Symbol → Nat → Except NullError (Option ℚ)}

variable {holders : Dict Symbol (List Drawn)} {orders orders' : Orders}

theorem queueLegs_eq_ok {d : Drawn} :
    queueLegs sellable carriedLimit holders orders d = .ok orders' ↔
      ∃ r : Replacement, r.drawn = d ∧ entryOrder carriedLimit d = .ok r.entry ∧
        exitOrder sellable carriedLimit ((holders.get? d.symbol).getD []) d = .ok r.exit ∧
        orders' = r.legs.foldl queue orders := by
  simp only [queueLegs, bind_eq_ok, pure_eq_ok]
  constructor
  · rintro ⟨buy, bought, sale, sold, rfl⟩
    exact ⟨⟨d, buy, sale⟩, rfl, bought, sold, rfl⟩
  · rintro ⟨r, rfl, bought, sold, rfl⟩
    exact ⟨r.entry, bought, r.exit, sold, rfl⟩

theorem foldlM_queueLegs {drawn : List Drawn}
    (queued : drawn.foldlM (queueLegs sellable carriedLimit holders) orders = .ok orders') :
    ∃ rs : List Replacement, rs.map Replacement.drawn = drawn ∧
      (∀ r ∈ rs, entryOrder carriedLimit r.drawn = .ok r.entry ∧
        exitOrder sellable carriedLimit ((holders.get? r.drawn.symbol).getD []) r.drawn =
          .ok r.exit) ∧
      orders' = (rs.flatMap Replacement.legs).foldl queue orders := by
  induction drawn generalizing orders with
  | nil => exact ⟨[], rfl, by simp, (by simpa using queued : orders = orders').symm⟩
  | cons d drawn ih =>
    obtain ⟨next, first, later⟩ := foldlM_cons_eq_ok.mp queued
    obtain ⟨r, rfl, bought, sold, rfl⟩ := queueLegs_eq_ok.mp first
    obtain ⟨rs, rfl, each, rfl⟩ := ih later
    refine ⟨r :: rs, rfl, List.forall_mem_cons.mpr ⟨⟨bought, sold⟩, each⟩, ?_⟩
    rw [List.flatMap_cons, List.foldl_append]

theorem get?_queued (orders : Orders) (legs : List OrderRecord) (day : Nat) :
    ((legs.foldl queue orders).get? day).getD [] =
      (orders.get? day).getD [] ++ legs.filter fun leg => leg.executeAt.day = day := by
  induction legs generalizing orders with
  | nil => simp
  | cons leg legs ih =>
    rw [List.foldl_cons, ih, queue, Dict.get?_set]
    by_cases today : leg.executeAt.day = day
    · rw [if_pos today, List.filter_cons_of_pos (by simpa using today), today]
      simp
    · rw [if_neg today, List.filter_cons_of_neg (by simpa using today)]

/-- The replacements of a draw: which trips they replace, in order, and the orders they make. -/
structure Replaces (skeleton : List RoundTrip) (out : Orders × Nat) (rs : List Replacement) :
    Prop where
  places : ∀ r ∈ rs, skeleton[r.drawn.place]? = some r.drawn.trip
  increasing : rs.Pairwise fun r r' => r.drawn.place < r'.drawn.place
  counted : out.2 + rs.length = skeleton.length
  queued : ∀ day, ((out.1.get? day).getD []).Perm
    ((rs.flatMap Replacement.legs).filter fun leg => leg.executeAt.day = day)

/-- The trips of an identity. -/
def tripsOf (identity : Identity) (skeleton : List RoundTrip) : List RoundTrip :=
  skeleton.filter fun trip => trip.identity = identity

/-- The replacements of the trips of an identity. -/
def replacing (identity : Identity) (rs : List Replacement) : List Replacement :=
  rs.filter fun r => r.drawn.trip.identity = identity

/-- Two replacements of a trip take the same name and shares and buy alike; and they sell alike,
unless another trip of the name is held beside one of them alone. -/
structure Alike (rs rs' : List Replacement) (r r' : Replacement) : Prop where
  content : r.drawn.content = r'.drawn.content
  entry : r.entry = r'.entry
  exit : r.beside rs = r'.beside rs' → r.exit = r'.exit

theorem entryOrder_congr {d d' : Drawn} (same : d.content = d'.content) :
    entryOrder carriedLimit d = entryOrder carriedLimit d' := by
  obtain ⟨place, trip, symbol, quantity⟩ := d
  obtain ⟨place', trip', symbol', quantity'⟩ := d'
  cases same
  rfl

theorem exitOrder_congr {d d' : Drawn} {holders holders' : List Drawn}
    (same : d.content = d'.content)
    (beside : d.trip.exitAt.any (heldBeside holders d) =
      d'.trip.exitAt.any (heldBeside holders' d')) :
    exitOrder sellable carriedLimit holders d = exitOrder sellable carriedLimit holders' d' := by
  obtain ⟨place, trip, symbol, quantity⟩ := d
  obtain ⟨place', trip', symbol', quantity'⟩ := d'
  cases same
  cases ended : trip.exitAt with
  | none => simp [exitOrder, ended]
  | some exitAt =>
    simp only [ended, Option.any_some] at beside
    simp only [exitOrder, ended, exitShares, beside]
    rfl

variable {pools : List (List (Symbol × Int))} {skeleton : List RoundTrip}

theorem replaces_of_draw {out : Orders × Nat} (even : skeleton.length = pools.length)
    (run : ordersFromPools generator seed draw sellable carriedLimit skeleton pools = .ok out) :
    ∃ rs, Replaces skeleton out rs ∧
      rs.map Replacement.drawn =
        drawsFrom generator seed draw (fun _ => 0) 0 (skeleton.zip pools) ∧
      ∀ r ∈ rs, entryOrder carriedLimit r.drawn = .ok r.entry ∧
        exitOrder sellable carriedLimit
          ((rs.map Replacement.drawn).filter fun d => d.symbol = r.drawn.symbol) r.drawn =
            .ok r.exit := by
  simp only [ordersFromPools, bind_eq_ok, pure_eq_ok] at run
  obtain ⟨orders, queued, rfl⟩ := run
  obtain ⟨drawn, count, held⟩ :=
    @foldl_drawTrip generator seed draw (skeleton.zip pools) {} fun _ => rfl
  obtain ⟨rs, same, each, rfl⟩ := foldlM_queueLegs queued
  rw [List.nil_append] at drawn
  have start : DrawState.counts {} = fun _ => 0 := rfl
  rw [start] at drawn
  obtain ⟨places, increasing⟩ :=
    @drawsFrom_places generator seed draw (fun _ => 0) 0 (skeleton.zip pools)
  rw [← drawn, ← same] at places increasing
  have inOrder : rs.Pairwise fun r r' => r.drawn.place < r'.drawn.place := by
    rw [List.pairwise_map] at increasing
    exact increasing
  refine ⟨rs, ⟨?_, inOrder, ?_, ?_⟩, same.trans drawn, ?_⟩
  · intro r member
    obtain ⟨-, pool, found, -⟩ := places r.drawn (List.mem_map_of_mem member)
    exact (List.getElem?_zip_eq_some.mp found).1
  · have length := congrArg List.length same
    rw [List.length_map] at length
    simp only [List.length_zip, ← even, Nat.min_self] at count
    simp only [length]
    simpa using count
  · intro day
    have made := get?_queued Dict.empty (rs.flatMap Replacement.legs) day
    rw [Dict.get?_empty, Option.getD_none, List.nil_append] at made
    rw [Dict.get?_mapValues, ← made]
    cases ((rs.flatMap Replacement.legs).foldl queue Dict.empty).get? day with
    | none => exact .refl _
    | some orders => exact List.perm_insertionSort _ _
  · intro r member
    have legs := each r member
    rw [held, ← same] at legs
    exact legs

variable {pool : RoundTrip → Except NullError (List (Symbol × Int))}

theorem zip_filter_eq (read : skeleton.mapM pool = .ok pools) :
    (skeleton.zip pools).filter (fun next => next.1.identity = identity) =
      (tripsOf identity skeleton).map fun trip => (trip, (pool trip).toOption.getD []) := by
  have each := mapM_eq_ok.mp read
  induction each with
  | nil => rfl
  | @cons trip names skeleton pools here later ih =>
    have rest := ih (mapM_eq_ok.mpr later)
    rw [List.zip_cons_cons]
    by_cases mine : trip.identity = identity
    · rw [List.filter_cons_of_pos (by simpa using mine), tripsOf,
        List.filter_cons_of_pos (by simpa using mine), List.map_cons, rest, here]
      rfl
    · rw [List.filter_cons_of_neg (by simpa using mine), tripsOf,
        List.filter_cons_of_neg (by simpa using mine), rest]
      rfl

theorem forall₂_of_map_eq {α β : Type} {f : α → β} {R : α → α → Prop} {l l' : List α}
    (same : l.map f = l'.map f) (related : ∀ a ∈ l, ∀ b ∈ l', f a = f b → R a b) :
    List.Forall₂ R l l' := by
  induction l generalizing l' with
  | nil =>
    rw [List.map_nil, eq_comm, List.map_eq_nil_iff] at same
    rw [same]
    exact .nil
  | cons a l ih =>
    cases l' with
    | nil => cases same
    | cons b l' =>
      obtain ⟨first, rest⟩ := List.cons_eq_cons.mp same
      refine .cons (related a List.mem_cons_self b List.mem_cons_self first) (ih rest ?_)
      intro a' member b' member'
      exact related a' (List.mem_cons_of_mem a member) b' (List.mem_cons_of_mem b member')

theorem content_of_draws {skeleton skeleton' : List RoundTrip}
    {pools pools' : List (List (Symbol × Int))} {rs rs' : List Replacement}
    (read : skeleton.mapM pool = .ok pools) (read' : skeleton'.mapM pool = .ok pools')
    (alike : tripsOf identity skeleton = tripsOf identity skeleton')
    (drawn : rs.map Replacement.drawn =
      drawsFrom generator seed draw (fun _ => 0) 0 (skeleton.zip pools))
    (drawn' : rs'.map Replacement.drawn =
      drawsFrom generator seed draw (fun _ => 0) 0 (skeleton'.zip pools')) :
    (replacing identity rs).map (fun r => r.drawn.content) =
      (replacing identity rs').map fun r => r.drawn.content := by
  have contents : ∀ rs : List Replacement,
      (replacing identity rs).map (fun r => r.drawn.content) =
        ((rs.map Replacement.drawn).filter fun d => d.trip.identity = identity).map
          Drawn.content := by
    intro rs
    rw [List.filter_map, List.map_map]
    rfl
  rw [contents, contents, drawn, drawn', drawsFrom_content _ (fun _ => 0) 0 0 _ rfl,
    drawsFrom_content _ (fun _ => 0) 0 0 _ rfl, zip_filter_eq read, zip_filter_eq read', alike]

/-- Three names on one day. -/
def threeNames : Universe where
  rows := ["600000.SH", "600001.SH", "600002.SH"].map fun symbol =>
    ⟨symbol, 20240102, some 10, some 10, some 10, some 1⟩
  distinct := by decide

/-- A trip that is still open. -/
def heldTrip (symbol : Symbol) : RoundTrip :=
  { symbol, quantity := 100, price := 10, entryAt := ⟨20240102, 0, by decide⟩, exitAt := none }

end NullControl

end AutoTrade
