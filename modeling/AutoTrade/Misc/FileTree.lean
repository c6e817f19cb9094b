import AutoTrade.Misc.Dict

/-!
# Trees of files with symbolic links

Directories, files and links, by their place. A path is walked one step after the other, through the
links that it comes upon: by the system, which follows so many links and no more, and by a function
that only reads links, and finds the place of a path whether or not there is anything at it. They
agree wherever the system gets to.
-/

namespace AutoTrade.FileTree

/-- A step of a path. -/
inductive Step (ν : Type) where
  | stay
  | up
  | down (name : ν)
  deriving DecidableEq

/-- A place: the names that lead there from the root, past no link. -/
abbrev Place (ν : Type) := List ν

/-- What a link says. -/
structure Target (ν : Type) where
  absolute : Bool
  steps : List (Step ν)
  deriving DecidableEq

/-- Where the steps of a link that is in a directory start. -/
def Target.start {ν : Type} (target : Target ν) (cur : Place ν) : Place ν :=
  if target.absolute then [] else cur

inductive Kind (α : Type) where
  | file (content : α)
  | directory
  | other

variable {ν α : Type} [DecidableEq ν]

/-- A tree: where a link is there is nothing else, and everything is in a directory. -/
structure Tree (ν α : Type) [DecidableEq ν] where
  links : Dict (Place ν) (Target ν)
  nodes : Dict (Place ν) (Kind α)
  root : nodes.get? [] = some .directory
  apart : ∀ {place target}, links.get? place = some target → nodes.get? place = none
  link_nested : ∀ {place name target}, links.get? (place ++ [name]) = some target →
    nodes.get? place = some .directory
  node_nested : ∀ {place name kind}, nodes.get? (place ++ [name]) = some kind →
    nodes.get? place = some .directory

inductive Errno where
  | noEntry
  | notDirectory
  | isDirectory
  | exists'
  | tooManyLinks
  | access
  deriving DecidableEq

/-- The steps from a place lead to a place, with as many steps in all. -/
inductive Leads (links : Dict (Place ν) (Target ν)) :
    Place ν → List (Step ν) → Place ν → Nat → Prop where
  | done {cur : Place ν} : Leads links cur [] cur 0
  | stay {cur place : Place ν} {rest : List (Step ν)} {n : Nat}
      (leads : Leads links cur rest place n) : Leads links cur (.stay :: rest) place (n + 1)
  | up {cur place : Place ν} {rest : List (Step ν)} {n : Nat}
      (leads : Leads links cur.dropLast rest place n) : Leads links cur (.up :: rest) place (n + 1)
  | down {cur place : Place ν} {name : ν} {rest : List (Step ν)} {n : Nat}
      (plain : links.get? (cur ++ [name]) = none)
      (leads : Leads links (cur ++ [name]) rest place n) :
      Leads links cur (.down name :: rest) place (n + 1)
  | link {cur mid place : Place ν} {name : ν} {rest : List (Step ν)} {m n : Nat} {target : Target ν}
      (linked : links.get? (cur ++ [name]) = some target)
      (inside : Leads links (target.start cur) target.steps mid m)
      (leads : Leads links mid rest place n) :
      Leads links cur (.down name :: rest) place (m + n + 1)

section Leads

variable {links : Dict (Place ν) (Target ν)} {cur place place' : Place ν}
  {steps steps' : List (Step ν)} {n n' : Nat}

theorem Leads.deterministic (leads : Leads links cur steps place n)
    (leads' : Leads links cur steps place' n') : place = place' ∧ n = n' := by
  induction leads generalizing place' n' with
  | done =>
    cases leads'
    exact ⟨rfl, rfl⟩
  | stay _ ih =>
    cases leads' with
    | stay leads' =>
      have ⟨same, count⟩ := ih leads'
      exact ⟨same, congrArg (· + 1) count⟩
  | up _ ih =>
    cases leads' with
    | up leads' =>
      have ⟨same, count⟩ := ih leads'
      exact ⟨same, congrArg (· + 1) count⟩
  | down plain _ ih =>
    cases leads' with
    | down _ leads' =>
      have ⟨same, count⟩ := ih leads'
      exact ⟨same, congrArg (· + 1) count⟩
    | link linked => exact nomatch plain.symm.trans linked
  | link linked _ _ ihInside ih =>
    cases leads' with
    | down plain => exact nomatch plain.symm.trans linked
    | link linked' inside' leads' =>
      cases Option.some.inj (linked.symm.trans linked')
      have ⟨sameMid, countMid⟩ := ihInside inside'
      subst sameMid
      have ⟨same, count⟩ := ih leads'
      exact ⟨same, by rw [countMid, count]⟩

theorem Leads.of_append (leads : Leads links cur (steps ++ steps') place n) :
    ∃ mid m k, Leads links cur steps mid m ∧ Leads links mid steps' place k := by
  generalize all : steps ++ steps' = whole at leads
  induction leads generalizing steps with
  | done =>
    have ⟨empty, empty'⟩ := List.append_eq_nil_iff.mp all
    subst empty empty'
    exact ⟨_, _, _, .done, .done⟩
  | @stay cur place rest n leads ih =>
    cases steps with
    | nil =>
      cases all
      exact ⟨_, _, _, .done, .stay leads⟩
    | cons step steps =>
      cases all
      have ⟨mid, m, k, before, after⟩ := ih rfl
      exact ⟨mid, _, k, .stay before, after⟩
  | @up cur place rest n leads ih =>
    cases steps with
    | nil =>
      cases all
      exact ⟨_, _, _, .done, .up leads⟩
    | cons step steps =>
      cases all
      have ⟨mid, m, k, before, after⟩ := ih rfl
      exact ⟨mid, _, k, .up before, after⟩
  | @down cur place name rest n plain leads ih =>
    cases steps with
    | nil =>
      cases all
      exact ⟨_, _, _, .done, .down plain leads⟩
    | cons step steps =>
      cases all
      have ⟨mid, m, k, before, after⟩ := ih rfl
      exact ⟨mid, _, k, .down plain before, after⟩
  | @link cur mid place name rest m n target linked inside leads _ ih =>
    cases steps with
    | nil =>
      cases all
      exact ⟨_, _, _, .done, .link linked inside leads⟩
    | cons step steps =>
      cases all
      have ⟨mid', m', k, before, after⟩ := ih rfl
      exact ⟨mid', _, k, .link linked inside before, after⟩

/-- No link stands on the way to a place. -/
def Settled (links : Dict (Place ν) (Target ν)) (place : Place ν) : Prop :=
  ∀ above name, above ++ [name] <+: place → links.get? (above ++ [name]) = none

theorem Settled.of_prefix (settled : Settled links place) (above : cur <+: place) :
    Settled links cur := fun above' name inside => settled above' name (inside.trans above)

theorem settled_nil : Settled links [] := fun above name inside => by
  simp [List.prefix_nil] at inside

theorem Settled.concat (settled : Settled links cur) {name : ν}
    (plain : links.get? (cur ++ [name]) = none) : Settled links (cur ++ [name]) := by
  intro above name' inside
  rcases List.prefix_concat_iff.mp inside with same | inside
  · rw [same]
    exact plain
  · exact settled above name' inside

theorem Settled.start (settled : Settled links cur) (target : Target ν) :
    Settled links (target.start cur) := by
  rw [Target.start]
  split
  · exact settled_nil
  · exact settled

theorem Leads.settled (leads : Leads links cur steps place n) (settled : Settled links cur) :
    Settled links place := by
  induction leads with
  | done => exact settled
  | stay _ ih => exact ih settled
  | up _ ih => exact ih (settled.of_prefix (List.dropLast_prefix _))
  | down plain _ ih => exact ih (settled.concat plain)
  | link _ _ _ ihInside ih => exact ih (ihInside (settled.start _))

/-- The steps to a place itself. -/
def stepsTo (place : Place ν) : List (Step ν) := place.map .down

theorem Settled.leads {more : Place ν} (settled : Settled links (cur ++ more)) :
    Leads links cur (stepsTo more) (cur ++ more) more.length := by
  induction more generalizing cur with
  | nil =>
    rw [List.append_nil]
    exact .done
  | cons name more ih =>
    have all : cur ++ name :: more = cur ++ [name] ++ more := by simp
    rw [all] at settled ⊢
    exact .down (settled cur name (List.prefix_append _ _)) (ih settled)

end Leads

section Realpath

variable (links : Dict (Place ν) (Target ν))

/-- The links that are not being followed. -/
def idle (active : List (Place ν)) : Nat := (links.keys.filter (· ∉ active)).length

theorem idle_cons_lt {active : List (Place ν)} {place : Place ν} (link : place ∈ links.keys)
    (fresh : place ∉ active) : idle links (place :: active) < idle links active := by
  have fewer : (links.keys.filter (· ∉ place :: active)).Sublist
      (links.keys.filter (· ∉ active)) := by
    refine List.monotone_filter_right _ fun other kept => ?_
    simp only [List.mem_cons, not_or, decide_eq_true_eq] at kept ⊢
    exact kept.2
  refine Nat.lt_of_le_of_ne fewer.length_le fun same => ?_
  have member : place ∈ links.keys.filter (· ∉ active) :=
    List.mem_filter.mpr ⟨link, decide_eq_true fresh⟩
  rw [← fewer.eq_of_length same, List.mem_filter] at member
  simp at member

/-- The place of a path, by its links alone; there is none when a link leads to itself. -/
def realpath (active : List (Place ν)) (cur : Place ν) : List (Step ν) → Option (Place ν)
  | [] => some cur
  | .stay :: rest => realpath active cur rest
  | .up :: rest => realpath active cur.dropLast rest
  | .down name :: rest =>
    match _ : links.get? (cur ++ [name]) with
    | none => realpath active (cur ++ [name]) rest
    | some target =>
      if _ : cur ++ [name] ∈ active then none
      else
        match realpath ((cur ++ [name]) :: active) (target.start cur) target.steps with
        | none => none
        | some place => realpath active place rest
termination_by steps => (idle links active, steps.length)
decreasing_by
  · exact Prod.Lex.right _ (Nat.lt_succ_self _)
  · exact Prod.Lex.right _ (Nat.lt_succ_self _)
  · exact Prod.Lex.right _ (Nat.lt_succ_self _)
  · rename_i linked fresh
    exact Prod.Lex.left _ _ (idle_cons_lt links (Dict.mem_keys_iff.mpr ⟨_, linked⟩) fresh)
  · exact Prod.Lex.right _ (Nat.lt_succ_self _)

end Realpath

section Realpath

variable {links : Dict (Place ν) (Target ν)} {active : List (Place ν)} {cur place : Place ν}
  {steps : List (Step ν)} {n : Nat}

theorem realpath_down {name : ν} (plain : links.get? (cur ++ [name]) = none) :
    realpath links active cur (.down name :: steps) =
      realpath links active (cur ++ [name]) steps := by
  rw [realpath]
  split
  · rfl
  · rename_i linked
    exact nomatch plain.symm.trans linked

theorem realpath_link {name : ν} {target : Target ν}
    (linked : links.get? (cur ++ [name]) = some target) (fresh : cur ++ [name] ∉ active) :
    realpath links active cur (.down name :: steps) =
      (realpath links ((cur ++ [name]) :: active) (target.start cur) target.steps).bind
        fun mid => realpath links active mid steps := by
  rw [realpath]
  split
  · rename_i plain
    exact nomatch plain.symm.trans linked
  · rename_i target' linked'
    cases Option.some.inj (linked.symm.trans linked')
    rw [dif_neg fresh]
    split
    · rename_i none
      rw [none]
      rfl
    · rename_i some
      rw [some]
      rfl

theorem leads_of_realpath (found : realpath links active cur steps = some place) :
    ∃ n, Leads links cur steps place n := by
  fun_induction realpath links active cur steps generalizing place with
  | case1 =>
    cases found
    exact ⟨_, .done⟩
  | case2 active cur rest ih =>
    have ⟨_, leads⟩ := ih found
    exact ⟨_, .stay leads⟩
  | case3 active cur rest ih =>
    have ⟨_, leads⟩ := ih found
    exact ⟨_, .up leads⟩
  | case4 active cur name rest plain ih =>
    have ⟨_, leads⟩ := ih found
    exact ⟨_, .down plain leads⟩
  | case5 => exact nomatch found
  | case6 => exact nomatch found
  | case7 active cur name rest target linked fresh mid inside ihInside ih =>
    have ⟨_, leads⟩ := ih found
    have ⟨_, leadsInside⟩ := ihInside inside
    exact ⟨_, .link linked leadsInside leads⟩

/-- To follow a link that is being followed takes at least as many steps as are left. -/
def Outlasts (links : Dict (Place ν) (Target ν)) (n : Nat) (active : List (Place ν)) : Prop :=
  ∀ cur name target place m, cur ++ [name] ∈ active → links.get? (cur ++ [name]) = some target →
    Leads links (target.start cur) target.steps place m → n ≤ m

theorem Outlasts.of_le {n n' : Nat} (outlasts : Outlasts links n active) (le : n' ≤ n) :
    Outlasts links n' active := fun cur name target place m busy linked leads =>
  le.trans (outlasts cur name target place m busy linked leads)

theorem realpath_of_leads (leads : Leads links cur steps place n)
    (outlasts : Outlasts links n active) : realpath links active cur steps = some place := by
  induction leads generalizing active with
  | done => rw [realpath]
  | stay _ ih =>
    rw [realpath]
    exact ih (outlasts.of_le (Nat.le_succ _))
  | up _ ih =>
    rw [realpath]
    exact ih (outlasts.of_le (Nat.le_succ _))
  | down plain _ ih =>
    rw [realpath_down plain]
    exact ih (outlasts.of_le (Nat.le_succ _))
  | @link cur mid place name rest m n target linked inside _ ihInside ih =>
    have fresh : cur ++ [name] ∉ active := fun busy => by
      have := outlasts cur name target mid m busy linked inside
      omega
    have nested : Outlasts links m ((cur ++ [name]) :: active) := by
      intro cur' name' target' place' m' busy linked' leads'
      rcases List.mem_cons.mp busy with same | busy
      · have ⟨sameCur, sameName⟩ := List.append_inj' same rfl
        cases sameName
        subst sameCur
        cases Option.some.inj (linked.symm.trans linked')
        exact (inside.deterministic leads').2.le
      · have := outlasts cur' name' target' place' m' busy linked' leads'
        omega
    rw [realpath_link linked fresh, ihInside nested]
    exact ih (outlasts.of_le (by omega))

theorem realpath_eq_some_iff :
    realpath links [] cur steps = some place ↔ ∃ n, Leads links cur steps place n :=
  ⟨leads_of_realpath, fun ⟨_, leads⟩ => realpath_of_leads leads fun _ _ _ _ _ busy => nomatch busy⟩

end Realpath

def Tree.dirAt (tree : Tree ν α) (place : Place ν) : Bool :=
  match tree.nodes.get? place with
  | some .directory => true
  | _ => false

def Tree.fileAt (tree : Tree ν α) (place : Place ν) : Option α :=
  match tree.nodes.get? place with
  | some (.file content) => some content
  | _ => none

/-- Nothing is there. -/
def Tree.free (tree : Tree ν α) (place : Place ν) : Bool :=
  (tree.links.get? place).isNone && (tree.nodes.get? place).isNone

/-- As many links are followed as the first argument says. What a path leads to must be there,
unless it is to be created. -/
def Tree.walk (tree : Tree ν α) (create : Bool) :
    Nat → Place ν → List (Step ν) → Except Errno (Place ν)
  | _, cur, [] => .ok cur
  | budget, cur, step :: rest =>
    if tree.dirAt cur then
      match step with
      | .stay => tree.walk create budget cur rest
      | .up => tree.walk create budget cur.dropLast rest
      | .down name =>
        match tree.links.get? (cur ++ [name]), budget with
        | some _, 0 => .error .tooManyLinks
        | some target, budget + 1 =>
          tree.walk create budget (target.start cur) (target.steps ++ rest)
        | none, budget =>
          if (tree.nodes.get? (cur ++ [name])).isSome then
            tree.walk create budget (cur ++ [name]) rest
          else if create && rest.isEmpty then .ok (cur ++ [name])
          else .error .noEntry
    else .error .notDirectory
termination_by budget _ steps => (budget, steps.length)
decreasing_by
  · exact Prod.Lex.right _ (Nat.lt_succ_self _)
  · exact Prod.Lex.right _ (Nat.lt_succ_self _)
  · exact Prod.Lex.left _ _ (Nat.lt_succ_self _)
  · exact Prod.Lex.right _ (Nat.lt_succ_self _)

section Walk

variable {tree : Tree ν α} {create : Bool} {budget : Nat} {cur place dir : Place ν}
  {steps : List (Step ν)}

theorem dirAt_iff : tree.dirAt place = true ↔ tree.nodes.get? place = some .directory := by
  rw [Tree.dirAt]
  split
  · rename_i directory
    exact iff_of_true rfl directory
  · rename_i other
    exact iff_of_false Bool.false_ne_true other

theorem free_iff :
    tree.free place = true ↔ tree.links.get? place = none ∧ tree.nodes.get? place = none := by
  simp [Tree.free, Option.isNone_iff_eq_none]

theorem walk_stay (inside : tree.dirAt cur = true) :
    tree.walk create budget cur (.stay :: steps) = tree.walk create budget cur steps := by
  rw [Tree.walk, if_pos inside]

theorem walk_up (inside : tree.dirAt cur = true) :
    tree.walk create budget cur (.up :: steps) = tree.walk create budget cur.dropLast steps := by
  rw [Tree.walk, if_pos inside]

theorem walk_link (inside : tree.dirAt cur = true) {name : ν} {target : Target ν}
    (linked : tree.links.get? (cur ++ [name]) = some target) :
    tree.walk create (budget + 1) cur (.down name :: steps) =
      tree.walk create budget (target.start cur) (target.steps ++ steps) := by
  unfold Tree.walk
  simp only [inside, if_true, linked]
  rw [← Tree.walk.eq_def]

theorem walk_down (inside : tree.dirAt cur = true) {name : ν}
    (plain : tree.links.get? (cur ++ [name]) = none) :
    tree.walk create budget cur (.down name :: steps) =
      if (tree.nodes.get? (cur ++ [name])).isSome then
        tree.walk create budget (cur ++ [name]) steps
      else if create && steps.isEmpty then .ok (cur ++ [name])
      else .error .noEntry := by
  unfold Tree.walk
  simp only [inside, if_true, plain]
  rw [← Tree.walk.eq_def]

theorem leads_of_walk (found : tree.walk create budget cur steps = .ok place) :
    ∃ n, Leads tree.links cur steps place n := by
  fun_induction tree.walk create budget cur steps with
  | case1 =>
    cases found
    exact ⟨_, .done⟩
  | case2 budget cur rest inside ih =>
    have ⟨_, leads⟩ := ih found
    exact ⟨_, .stay leads⟩
  | case3 budget cur rest inside ih =>
    have ⟨_, leads⟩ := ih found
    exact ⟨_, .up leads⟩
  | case4 => exact nomatch found
  | case5 cur rest inside name target budget linked ih =>
    have ⟨_, leads⟩ := ih found
    have ⟨mid, m, k, before, after⟩ := leads.of_append
    exact ⟨_, .link linked before after⟩
  | case6 cur rest inside name budget plain there ih =>
    have ⟨_, leads⟩ := ih found
    exact ⟨_, .down plain leads⟩
  | case7 cur rest inside name budget plain missing last =>
    cases found
    have ended : rest = [] := List.isEmpty_iff.mp (Bool.and_eq_true_iff.mp last).2
    subst ended
    exact ⟨_, .down plain .done⟩
  | case8 => exact nomatch found
  | case9 => exact nomatch found

theorem realpath_of_walk (found : tree.walk create budget cur steps = .ok place) :
    realpath tree.links [] cur steps = some place :=
  realpath_eq_some_iff.mpr (leads_of_walk found)

theorem walk_of_create (found : tree.walk true budget cur steps = .ok place) :
    tree.walk false budget cur steps = .ok place ∨
      tree.free place = true ∧ tree.dirAt place.dropLast = true := by
  fun_induction tree.walk true budget cur steps with
  | case1 => exact .inl (by rw [Tree.walk, found])
  | case2 budget cur rest inside ih =>
    rw [walk_stay inside]
    exact ih found
  | case3 budget cur rest inside ih =>
    rw [walk_up inside]
    exact ih found
  | case4 => exact nomatch found
  | case5 cur rest inside name target budget linked ih =>
    rw [walk_link inside linked]
    exact ih found
  | case6 cur rest inside name budget plain there ih =>
    rw [walk_down inside plain, if_pos there]
    exact ih found
  | case7 cur rest inside name budget plain missing last =>
    cases found
    refine .inr ⟨free_iff.mpr ⟨plain, by simpa using missing⟩, ?_⟩
    rwa [List.dropLast_concat]
  | case8 => exact nomatch found
  | case9 => exact nomatch found

theorem walk_append (found : tree.walk false budget cur steps = .ok dir) :
    ∃ left, ∀ create more,
      tree.walk create budget cur (steps ++ more) = tree.walk create left dir more := by
  fun_induction tree.walk false budget cur steps with
  | case1 =>
    cases found
    exact ⟨_, fun _ _ => rfl⟩
  | case2 budget cur rest inside ih =>
    have ⟨left, same⟩ := ih found
    refine ⟨left, fun create more => ?_⟩
    rw [List.cons_append, walk_stay inside]
    exact same create more
  | case3 budget cur rest inside ih =>
    have ⟨left, same⟩ := ih found
    refine ⟨left, fun create more => ?_⟩
    rw [List.cons_append, walk_up inside]
    exact same create more
  | case4 => exact nomatch found
  | case5 cur rest inside name target budget linked ih =>
    have ⟨left, same⟩ := ih found
    refine ⟨left, fun create more => ?_⟩
    rw [List.cons_append, walk_link inside linked, ← List.append_assoc]
    exact same create more
  | case6 cur rest inside name budget plain there ih =>
    have ⟨left, same⟩ := ih found
    refine ⟨left, fun create more => ?_⟩
    rw [List.cons_append, walk_down inside plain, if_pos there]
    exact same create more
  | case7 cur rest inside name budget plain missing last => exact nomatch last
  | case8 => exact nomatch found
  | case9 => exact nomatch found

end Walk

/-- Something at a place in a directory that is neither a link nor a directory itself. -/
def Tree.put (tree : Tree ν α) (place : Place ν) (kind : Kind α)
    (above : tree.dirAt place.dropLast = true) (spare : tree.dirAt place = false)
    (plain : tree.links.get? place = none) : Tree ν α where
  links := tree.links
  nodes := tree.nodes.set place kind
  root := by
    rw [Dict.get?_set_of_ne, tree.root]
    rintro rfl
    rw [Tree.dirAt, tree.root] at spare
    exact nomatch spare
  apart := fun {other target} linked => by
    rw [Dict.get?_set_of_ne, tree.apart linked]
    rintro rfl
    exact nomatch plain.symm.trans linked
  link_nested := fun {other name target} linked => by
    have directory := tree.link_nested linked
    rw [Dict.get?_set_of_ne, directory]
    rintro rfl
    rw [Tree.dirAt, directory] at spare
    exact nomatch spare
  node_nested := fun {other name kind'} there => by
    have directory : tree.nodes.get? other = some .directory := by
      rw [Dict.get?_set] at there
      split at there
      · rename_i same
        rw [same, List.dropLast_concat] at above
        exact dirAt_iff.mp above
      · exact tree.node_nested there
    rw [Dict.get?_set_of_ne, directory]
    rintro rfl
    rw [Tree.dirAt, directory] at spare
    exact nomatch spare

/-- The tree with a root and nothing else. -/
def Tree.bare : Tree ν α where
  links := Dict.empty
  nodes := Dict.empty.set [] .directory
  root := Dict.get?_set_self _ _ _
  apart := nofun
  link_nested := nofun
  node_nested := fun {place name kind} there => by
    rw [Dict.get?_set_of_ne _ _ (by simp)] at there
    exact nomatch there

/-- A link where nothing is. -/
def Tree.link (tree : Tree ν α) (place : Place ν) (target : Target ν)
    (above : tree.dirAt place.dropLast = true) (free : tree.free place = true) : Tree ν α where
  links := tree.links.set place target
  nodes := tree.nodes
  root := tree.root
  apart := fun {other target'} linked => by
    rw [Dict.get?_set] at linked
    split at linked
    · rename_i same
      rw [← same]
      exact (free_iff.mp free).2
    · exact tree.apart linked
  link_nested := fun {other name target'} linked => by
    rw [Dict.get?_set] at linked
    split at linked
    · rename_i same
      rw [same, List.dropLast_concat] at above
      exact dirAt_iff.mp above
    · exact tree.link_nested linked
  node_nested := tree.node_nested

theorem dirAt_of_free {tree : Tree ν α} {place : Place ν} (free : tree.free place = true) :
    tree.dirAt place = false := by
  rw [Tree.dirAt, (free_iff.mp free).2]

section FileAt

variable {tree : Tree ν α} {place : Place ν} (file : (tree.fileAt place).isSome)

include file

theorem nodes_of_fileAt : ∃ content, tree.nodes.get? place = some (.file content) := by
  rw [Tree.fileAt] at file
  split at file
  · rename_i content there
    exact ⟨content, there⟩
  · exact nomatch file

theorem dirAt_of_fileAt : tree.dirAt place = false := by
  have ⟨_, there⟩ := nodes_of_fileAt file
  rw [Tree.dirAt, there]

theorem plain_of_fileAt : tree.links.get? place = none := by
  have ⟨_, there⟩ := nodes_of_fileAt file
  refine Option.eq_none_iff_forall_ne_some.mpr fun target linked => ?_
  exact nomatch there.symm.trans (tree.apart linked)

theorem above_of_fileAt : tree.dirAt place.dropLast = true := by
  have ⟨_, there⟩ := nodes_of_fileAt file
  cases place using List.reverseRecOn with
  | nil => exact nomatch there.symm.trans tree.root
  | append_singleton above name =>
    rw [List.dropLast_concat]
    exact dirAt_iff.mpr (tree.node_nested there)

end FileAt

/-- How many links the system follows on one path. -/
def maxLinks : Nat := 40

section Making

/- Where a directory or a file may be created. -/
variable (mayCreate : Place ν → Bool)

/-- `os.mkdir`. -/
def Tree.mkdir (tree : Tree ν α) (place : Place ν) : Except Errno (Tree ν α) :=
  match place.getLast? with
  | none => .error .exists'
  | some name =>
    match tree.walk false maxLinks [] (stepsTo place.dropLast) with
    | .error errno => .error errno
    | .ok dir =>
      if inside : tree.dirAt dir = true then
        if free : tree.free (dir ++ [name]) = true then
          if mayCreate (dir ++ [name]) then
            .ok (tree.put (dir ++ [name]) .directory (by rwa [List.dropLast_concat])
              (dirAt_of_free free) (free_iff.mp free).1)
          else .error .access
        else .error .exists'
      else .error .notDirectory

/-- A directory is what the path leads to. -/
def Tree.isDir (tree : Tree ν α) (place : Place ν) : Bool :=
  match tree.walk false maxLinks [] (stepsTo place) with
  | .ok found => tree.dirAt found
  | .error _ => false

/-- `Path.mkdir(parents=True, exist_ok=True)`: the directories above are made when they are
missing. -/
def Tree.mkdirs (tree : Tree ν α) (place : Place ν) : Except Errno Unit × Tree ν α :=
  match tree.mkdir mayCreate place with
  | .ok made => (.ok (), made)
  | .error .noEntry =>
    if place = [] then (.error .noEntry, tree)
    else
      match tree.mkdirs place.dropLast with
      | (.error errno, after) => (.error errno, after)
      | (.ok (), after) =>
        match after.mkdir mayCreate place with
        | .ok made => (.ok (), made)
        | .error .noEntry => (.error .noEntry, after)
        | .error errno => if after.isDir place then (.ok (), after) else (.error errno, after)
  | .error errno => if tree.isDir place then (.ok (), tree) else (.error errno, tree)
termination_by place.length
decreasing_by
  rename_i some
  rw [List.length_dropLast]
  exact Nat.sub_lt (List.length_pos_iff.mpr some) Nat.one_pos

/-- A file where one is, or where nothing is in a directory. -/
def Tree.putFile (tree : Tree ν α) (place : Place ν) (content : α) : Tree ν α :=
  if new : tree.dirAt place.dropLast = true ∧ tree.free place = true then
    tree.put place (.file content) new.1 (dirAt_of_free new.2) (free_iff.mp new.2).1
  else if old : (tree.fileAt place).isSome then
    tree.put place (.file content) (above_of_fileAt old) (dirAt_of_fileAt old) (plain_of_fileAt old)
  else tree

/-- `open(place, "w")`, up to the place of what is opened or created. -/
def Tree.openWrite (tree : Tree ν α) (place : Place ν) : Except Errno (Place ν) :=
  match tree.walk true maxLinks [] (stepsTo place) with
  | .error errno => .error errno
  | .ok found => if tree.dirAt found then .error .isDirectory else .ok found

variable {mayCreate : Place ν → Bool} {tree made after : Tree ν α} {place dir : Place ν} {name : ν}

theorem fileAt_put {kind : Kind α} (above : tree.dirAt place.dropLast = true)
    (spare : tree.dirAt place = false) (plain : tree.links.get? place = none) (other : Place ν) :
    (tree.put place kind above spare plain).fileAt other =
      if other = place then (match kind with | .file content => some content | _ => none)
      else tree.fileAt other := by
  rw [Tree.fileAt, Tree.put]
  simp only [Dict.get?_set]
  by_cases same : other = place
  · simp only [same, if_true]
    cases kind <;> rfl
  · simp only [same, Ne.symm same, if_false]
    rfl

theorem free_below (free : tree.free place = true) (name : ν) :
    tree.free (place ++ [name]) = true := by
  have ⟨_, missing⟩ := free_iff.mp free
  refine free_iff.mpr ⟨?_, ?_⟩
  · refine Option.eq_none_iff_forall_ne_some.mpr fun target linked => ?_
    exact nomatch missing.symm.trans (tree.link_nested linked)
  · refine Option.eq_none_iff_forall_ne_some.mpr fun kind there => ?_
    exact nomatch missing.symm.trans (tree.node_nested there)

theorem walk_concat {create : Bool} (found : tree.walk false maxLinks [] (stepsTo place) = .ok dir)
    (inside : tree.dirAt dir = true) (plain : tree.links.get? (dir ++ [name]) = none) :
    tree.walk create maxLinks [] (stepsTo (place ++ [name])) =
      if (tree.nodes.get? (dir ++ [name])).isSome || create then .ok (dir ++ [name])
      else .error .noEntry := by
  have ⟨left, same⟩ := walk_append found
  have steps : stepsTo (place ++ [name]) = stepsTo place ++ [.down name] := List.map_append
  rw [steps, same, walk_down inside plain]
  cases (tree.nodes.get? (dir ++ [name])).isSome <;> cases create <;> simp [Tree.walk]

theorem walk_mono {tree' : Tree ν α} (links : tree'.links = tree.links)
    (there : ∀ place, (tree.nodes.get? place).isSome → (tree'.nodes.get? place).isSome)
    (dirs : ∀ place, tree.dirAt place = true → tree'.dirAt place = true) {budget : Nat}
    {cur : Place ν} {steps : List (Step ν)}
    (found : tree.walk false budget cur steps = .ok place) :
    tree'.walk false budget cur steps = .ok place := by
  fun_induction tree.walk false budget cur steps with
  | case1 => rw [Tree.walk, found]
  | case2 budget cur rest inside ih =>
    rw [walk_stay (dirs _ inside)]
    exact ih found
  | case3 budget cur rest inside ih =>
    rw [walk_up (dirs _ inside)]
    exact ih found
  | case4 => exact nomatch found
  | case5 cur rest inside name target budget linked ih =>
    rw [walk_link (dirs _ inside) (links ▸ linked)]
    exact ih found
  | case6 cur rest inside name budget plain here ih =>
    rw [walk_down (dirs _ inside) (links ▸ plain), if_pos (there _ here)]
    exact ih found
  | case7 cur rest inside name budget plain missing last => exact nomatch last
  | case8 => exact nomatch found
  | case9 => exact nomatch found

theorem dirAt_put (free : tree.free place = true) (kind : Kind α)
    (above : tree.dirAt place.dropLast = true) (inside : tree.dirAt dir = true) :
    (tree.put place kind above (dirAt_of_free free) (free_iff.mp free).1).dirAt dir = true := by
  refine dirAt_iff.mpr ?_
  rw [Tree.put, Dict.get?_set_of_ne]
  · exact dirAt_iff.mp inside
  · rintro rfl
    exact Bool.false_ne_true ((dirAt_of_free free).symm.trans inside)

theorem walk_put (free : tree.free place = true) (kind : Kind α)
    (above : tree.dirAt place.dropLast = true) {budget : Nat} {cur : Place ν}
    {steps : List (Step ν)} (found : tree.walk false budget cur steps = .ok dir) :
    (tree.put place kind above (dirAt_of_free free) (free_iff.mp free).1).walk false budget cur
      steps = .ok dir := by
  refine walk_mono (by rfl) (fun other here => ?_) (fun other => dirAt_put free kind above) found
  rw [Tree.put, Dict.get?_set]
  split
  · rfl
  · exact here

theorem mkdir_eq_ok (ok : tree.mkdir mayCreate place = .ok made) :
    made.links = tree.links ∧ (∀ other, made.fileAt other = tree.fileAt other) ∧
      ∃ dir, made.walk false maxLinks [] (stepsTo place) = .ok dir ∧ made.dirAt dir = true ∧
        ∀ name, made.free (dir ++ [name]) = true := by
  rw [Tree.mkdir] at ok
  split at ok
  · exact nomatch ok
  · rename_i name last
    have path : place.dropLast ++ [name] = place := List.dropLast_append_getLast? name last
    split at ok
    · exact nomatch ok
    · rename_i dir found
      split at ok
      · rename_i inside
        split at ok
        · rename_i free
          split at ok
          · cases ok
            have ⟨plain, missing⟩ := free_iff.mp free
            refine ⟨rfl, fun other => ?_, dir ++ [name], ?_, ?_, fun name' => ?_⟩
            · rw [fileAt_put]
              split
              · rename_i same
                rw [same, Tree.fileAt, missing]
              · rfl
            · have found' := walk_put free .directory (by rwa [List.dropLast_concat]) found
              rw [← path, walk_concat found' (dirAt_put free .directory _ inside) plain, Tree.put,
                Dict.get?_set_self]
              rfl
            · refine dirAt_iff.mpr ?_
              rw [Tree.put]
              exact Dict.get?_set_self _ _ _
            · have ⟨plain', missing'⟩ := free_iff.mp (free_below free name')
              refine free_iff.mpr ⟨plain', ?_⟩
              rw [Tree.put, Dict.get?_set_of_ne _ _ (by simp)]
              exact missing'
          · exact nomatch ok
        · exact nomatch ok
      · exact nomatch ok

variable (mayCreate) in
theorem mkdirs_keeps (tree : Tree ν α) (place : Place ν) :
    (tree.mkdirs mayCreate place).2.links = tree.links ∧
      ∀ other, (tree.mkdirs mayCreate place).2.fileAt other = tree.fileAt other := by
  fun_induction tree.mkdirs mayCreate place with
  | case1 place made ok => exact ⟨(mkdir_eq_ok ok).1, (mkdir_eq_ok ok).2.1⟩
  | case2 => exact ⟨rfl, fun _ => rfl⟩
  | case3 place missing some errno after above ih =>
    rw [above] at ih
    exact ih
  | case4 place missing some after above made ok ih =>
    rw [above] at ih
    have ⟨links, files, _⟩ := mkdir_eq_ok ok
    exact ⟨links.trans ih.1, fun other => (files other).trans (ih.2 other)⟩
  | case5 place missing some after above again ih =>
    rw [above] at ih
    exact ih
  | case6 place missing some after above errno other again there ih =>
    rw [above] at ih
    exact ih
  | case7 place missing some after above errno other again there ih =>
    rw [above] at ih
    exact ih
  | case8 => exact ⟨rfl, fun _ => rfl⟩
  | case9 => exact ⟨rfl, fun _ => rfl⟩

theorem mkdirs_eq_ok (ok : tree.mkdirs mayCreate place = (.ok (), after)) :
    after = tree ∨ ∃ dir, after.walk false maxLinks [] (stepsTo place) = .ok dir ∧
      after.dirAt dir = true ∧ ∀ name, after.free (dir ++ [name]) = true := by
  fun_induction tree.mkdirs mayCreate place with
  | case1 place made returned =>
    cases ok
    exact .inr (mkdir_eq_ok returned).2.2
  | case2 => exact nomatch ok
  | case3 => exact nomatch ok
  | case4 place missing some after above made returned ih =>
    cases ok
    exact .inr (mkdir_eq_ok returned).2.2
  | case5 => exact nomatch ok
  | case6 place missing some after above errno other again there ih =>
    cases ok
    rcases ih above with same | ⟨dir, found, inside, free⟩
    · exact .inl same
    · -- nothing is in a new directory
      have ⟨plain, gone⟩ := free_iff.mp (free (place.getLast some))
      have walked : after.walk false maxLinks [] (stepsTo (place.dropLast ++ [_])) = _ :=
        walk_concat found inside plain
      rw [List.dropLast_append_getLast some, gone] at walked
      rw [Tree.isDir, walked] at there
      exact nomatch there
  | case7 => exact nomatch ok
  | case8 =>
    cases ok
    exact .inl rfl
  | case9 => exact nomatch ok

theorem fileAt_putFile (content : α)
    (room : tree.dirAt place.dropLast = true ∧ tree.free place = true ∨ (tree.fileAt place).isSome)
    (other : Place ν) : (tree.putFile place content).fileAt other =
      if other = place then some content else tree.fileAt other := by
  rw [Tree.putFile]
  split
  · exact fileAt_put _ _ _ other
  · rename_i old
    rw [dif_pos (room.resolve_left old)]
    exact fileAt_put _ _ _ other

theorem openWrite_eq_ok {found : Place ν} (ok : tree.openWrite place = .ok found) :
    realpath tree.links [] [] (stepsTo place) = some found ∧ tree.dirAt found = false ∧
      (tree.walk false maxLinks [] (stepsTo place) = .ok found ∨
        tree.dirAt found.dropLast = true ∧ tree.free found = true) := by
  rw [Tree.openWrite] at ok
  split at ok
  · exact nomatch ok
  · rename_i found' walked
    split at ok
    · exact nomatch ok
    · rename_i file
      cases ok
      refine ⟨realpath_of_walk walked, Bool.eq_false_iff.mpr file, ?_⟩
      exact (walk_of_create walked).imp_right And.symm

end Making

end AutoTrade.FileTree
