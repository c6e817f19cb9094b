import Mathlib.Data.List.Perm.Basic
import Mathlib.Data.List.Nodup
import Mathlib.Logic.Relation

/-!
# Lists that name a parent

A list of records, each with a key of its own and perhaps the key of a parent.
Where every record is added after its parent (`Grown`), the parents have no
cycle, and a walk down from no parent meets every record once.
-/

namespace AutoTrade

universe u v

section Lineage

variable {κ : Type u} {α : Type v} (key : α → κ) (parent : α → Option κ)

/-- Records added one after another, under a new key and a parent already there. -/
inductive Grown : List α → Prop
  | nil : Grown []
  | snoc {nodes : List α} {x : α} (grown : Grown nodes) (fresh : key x ∉ nodes.map key)
      (known : ∀ k ∈ parent x, k ∈ nodes.map key) : Grown (nodes ++ [x])

/-- One record's key is the parent of another's. -/
def ParentIn (nodes : List α) (k k' : κ) : Prop := ∃ x ∈ nodes, parent x = some k ∧ key x = k'

variable {key parent} {nodes : List α}

namespace Grown

theorem nodup (grown : Grown key parent nodes) : (nodes.map key).Nodup := by
  induction grown with
  | nil => simp
  | @snoc nodes x grown fresh known ih =>
    rw [List.map_append, List.map_singleton, ← List.concat_eq_append]
    exact ih.concat fresh

theorem before (grown : Grown key parent nodes) {done rest : List α} {x : α}
    (whole : nodes = done ++ x :: rest) {k : κ} (child : parent x = some k) :
    k ∈ done.map key := by
  induction grown generalizing rest with
  | nil => simp at whole
  | @snoc nodes y grown fresh known ih =>
    rcases List.eq_nil_or_concat rest with rfl | ⟨front, last, rfl⟩
    · obtain ⟨rfl, same⟩ := List.append_inj' whole rfl
      obtain rfl : y = x := by simpa using same
      exact known k child
    · have whole' : nodes ++ [y] = (done ++ x :: front) ++ [last] := by simpa using whole
      exact ih (List.append_inj' whole' rfl).1

theorem known_of_mem (grown : Grown key parent nodes) {x : α} (member : x ∈ nodes) {k : κ}
    (child : parent x = some k) : k ∈ nodes.map key := by
  obtain ⟨done, rest, whole⟩ := List.append_of_mem member
  rw [whole, List.map_append]
  exact List.mem_append_left _ (grown.before whole child)

theorem idxOf_lt [DecidableEq κ] (grown : Grown key parent nodes) {k k' : κ}
    (above : ParentIn key parent nodes k k') :
    (nodes.map key).idxOf k < (nodes.map key).idxOf k' := by
  obtain ⟨x, member, child, rfl⟩ := above
  obtain ⟨done, rest, whole⟩ := List.append_of_mem member
  have earlier := grown.before whole child
  have fresh : key x ∉ done.map key := by
    have distinct := grown.nodup
    rw [whole, List.map_append, List.map_cons, List.nodup_append] at distinct
    exact fun inside => distinct.2.2 _ inside _ List.mem_cons_self rfl
  rw [whole, List.map_append, List.idxOf_append_of_mem earlier,
    List.idxOf_append_of_notMem fresh]
  have bound := List.idxOf_lt_length_iff.mpr earlier
  omega

theorem acyclic (grown : Grown key parent nodes) (k : κ) :
    ¬ Relation.TransGen (ParentIn key parent nodes) k k := by
  classical
  have rises : ∀ k', Relation.TransGen (ParentIn key parent nodes) k k' →
      (nodes.map key).idxOf k < (nodes.map key).idxOf k' := by
    intro k' above
    induction above with
    | single first => exact grown.idxOf_lt first
    | tail _ last ih => exact Nat.lt_trans ih (grown.idxOf_lt last)
  exact fun cycle => Nat.lt_irrefl _ (rises k cycle)

theorem map {f : α → α} (grown : Grown key parent nodes) (keys : ∀ x ∈ nodes, key (f x) = key x)
    (parents : ∀ x ∈ nodes, parent (f x) = parent x) : Grown key parent (nodes.map f) := by
  induction grown with
  | nil => exact .nil
  | @snoc nodes x grown fresh known ih =>
    have same : (nodes.map f).map key = nodes.map key := by
      rw [List.map_map]
      exact List.map_congr_left fun y member => keys y (List.mem_append_left _ member)
    rw [List.map_append, List.map_singleton]
    refine .snoc (ih (fun y member => ?_) fun y member => ?_) ?_ ?_
    · exact keys y (List.mem_append_left _ member)
    · exact parents y (List.mem_append_left _ member)
    · rw [same, keys x (by simp)]
      exact fresh
    · rw [same, parents x (by simp)]
      exact known

end Grown

variable (key parent) in
/-- Siblings with their depths, each before what is below it. -/
def visitAll (below : Option κ → Option (List (Nat × α))) (depth : Nat) :
    List α → Option (List (Nat × α))
  | [] => some []
  | x :: rest =>
    match below (some (key x)), visitAll below depth rest with
    | some visits, some later => some ((depth, x) :: visits ++ later)
    | _, _ => none

variable {visits : List (Nat × α)} {below : Option κ → Option (List (Nat × α))} {x : α}

theorem visitAll_cons {depth : Nat} {rest : List α} :
    visitAll key below depth (x :: rest) = some visits ↔
      ∃ under later, below (some (key x)) = some under ∧ visitAll key below depth rest = some later ∧
        visits = (depth, x) :: under ++ later := by
  rw [visitAll]
  cases below (some (key x)) <;> cases visitAll key below depth rest <;> simp [eq_comm]

theorem visitAll_append {depth : Nat} {xs ys : List α} {front back : List (Nat × α)}
    (first : visitAll key below depth xs = some front)
    (second : visitAll key below depth ys = some back) :
    visitAll key below depth (xs ++ ys) = some (front ++ back) := by
  induction xs generalizing front with
  | nil =>
    obtain rfl := Option.some.inj first
    exact second
  | cons x rest ih =>
    obtain ⟨under, later, here, after, rfl⟩ := visitAll_cons.mp first
    refine visitAll_cons.mpr ⟨under, later ++ back, here, ih after, ?_⟩
    simp

variable [DecidableEq κ]

variable (parent) in
/-- The records under a parent. -/
def childrenOf (nodes : List α) (p : Option κ) : List α :=
  nodes.filter fun x => decide (parent x = p)

variable (key parent) in
/-- The records below a parent with their depths; the outer `none` is a recursion deeper
    than `fuel`. -/
def walkFrom (nodes : List α) : Nat → Nat → Option κ → Option (List (Nat × α))
  | 0, _, _ => none
  | fuel + 1, depth, p =>
    visitAll key (fun q => walkFrom nodes fuel (depth + 1) q) depth (childrenOf parent nodes p)

theorem childrenOf_snoc (x : α) (p : Option κ) :
    childrenOf parent (nodes ++ [x]) p =
      childrenOf parent nodes p ++ if parent x = p then [x] else [] := by
  unfold childrenOf
  rw [List.filter_append, List.filter_singleton]
  simp

variable {p : Option κ}

theorem childrenOf_eq_nil (childless : ∀ y ∈ nodes, parent y ≠ p) :
    childrenOf parent nodes p = [] := by
  simpa [childrenOf] using childless

/-- The visits of one list are those of another and one of `x`, if it hangs there. -/
def GrowsBy (x : α) (hangs : Prop) (visits visits' : List (Nat × α)) : Prop :=
  (hangs ∧ (visits'.map Prod.snd).Perm (x :: visits.map Prod.snd)) ∨
    (¬ hangs ∧ (visits'.map Prod.snd).Perm (visits.map Prod.snd))

theorem GrowsBy.append {hangs hangs' : Prop} {a a' b b' : List (Nat × α)}
    (first : GrowsBy x hangs a a') (second : GrowsBy x hangs' b b') (one : ¬ (hangs ∧ hangs')) :
    GrowsBy x (hangs ∨ hangs') (a ++ b) (a' ++ b') := by
  unfold GrowsBy
  simp only [List.map_append]
  rcases first with ⟨here, perm⟩ | ⟨off, perm⟩
  · rcases second with ⟨here', _⟩ | ⟨_, perm'⟩
    · exact absurd ⟨here, here'⟩ one
    · exact .inl ⟨.inl here, perm.append perm'⟩
  · rcases second with ⟨here', perm'⟩ | ⟨off', perm'⟩
    · exact .inl ⟨.inr here', (perm.append perm').trans List.perm_middle⟩
    · exact .inr ⟨not_or.mpr ⟨off, off'⟩, perm.append perm'⟩

variable {fuel depth : Nat}

theorem visitAll_snoc
    (deeper : ∀ q visits, walkFrom key parent nodes fuel (depth + 1) q = some visits →
      (q.toList ++ visits.map fun v => key v.2).Nodup →
        ∃ visits', walkFrom key parent (nodes ++ [x]) (fuel + 1) (depth + 1) q = some visits' ∧
          GrowsBy x (parent x = q ∨ ∃ v ∈ visits, parent x = some (key v.2)) visits visits')
    {siblings : List α}
    (run : visitAll key (walkFrom key parent nodes fuel (depth + 1)) depth siblings = some visits)
    (distinct : (visits.map fun v => key v.2).Nodup) :
    ∃ visits', visitAll key (walkFrom key parent (nodes ++ [x]) (fuel + 1) (depth + 1)) depth
        siblings = some visits' ∧
      GrowsBy x (∃ v ∈ visits, parent x = some (key v.2)) visits visits' := by
  induction siblings generalizing visits with
  | nil =>
    obtain rfl := Option.some.inj run
    exact ⟨[], rfl, .inr ⟨by simp, .refl _⟩⟩
  | cons y rest ih =>
    obtain ⟨under, later, here, after, rfl⟩ := visitAll_cons.mp run
    simp only [List.map_append, List.map_cons] at distinct
    obtain ⟨front, back, apart⟩ := List.nodup_append.mp distinct
    obtain ⟨under', here', grows⟩ := deeper _ _ here front
    obtain ⟨later', after', grows'⟩ := ih after back
    refine ⟨_, visitAll_cons.mpr ⟨under', later', here', after', rfl⟩, ?_⟩
    have cons : GrowsBy x (parent x = some (key y) ∨ ∃ v ∈ under, parent x = some (key v.2))
        ((depth, y) :: under) ((depth, y) :: under') := by
      rcases grows with ⟨hangs, perm⟩ | ⟨off, perm⟩
      · exact .inl ⟨hangs, (perm.cons y).trans (.swap x y _)⟩
      · exact .inr ⟨off, perm.cons y⟩
    have both := cons.append grows' ?_
    · convert both using 1
      simp [or_assoc, or_and_right, exists_or]
    · -- one key is not the parent on both sides
      rintro ⟨hangs, v, member, child⟩
      have inside : key v.2 ∈ later.map fun v => key v.2 := List.mem_map_of_mem member
      rcases hangs with same | ⟨w, member', child'⟩
      · exact apart _ List.mem_cons_self _ inside (Option.some.inj (same.symm.trans child))
      · have inside' := List.mem_map_of_mem (f := fun v => key v.2) member'
        exact apart _ (List.mem_cons_of_mem _ inside') _ inside
          (Option.some.inj (child'.symm.trans child))

theorem walkFrom_snoc (leaf : ∀ y ∈ nodes ++ [x], parent y ≠ some (key x))
    (run : walkFrom key parent nodes fuel depth p = some visits)
    (distinct : (p.toList ++ visits.map fun v => key v.2).Nodup) :
    ∃ visits', walkFrom key parent (nodes ++ [x]) (fuel + 1) depth p = some visits' ∧
      GrowsBy x (parent x = p ∨ ∃ v ∈ visits, parent x = some (key v.2)) visits visits' := by
  induction fuel generalizing depth p visits with
  | zero => cases run
  | succ fuel ih =>
    have below := (List.nodup_append.mp distinct).2.1
    obtain ⟨visits', run', grows⟩ := visitAll_snoc (x := x)
      (fun q visits run distinct => ih run distinct) run below
    unfold walkFrom
    rw [childrenOf_snoc]
    by_cases child : parent x = p
    · rw [if_pos child]
      have alone : walkFrom key parent (nodes ++ [x]) (fuel + 1) (depth + 1) (some (key x)) = some [] := by
        unfold walkFrom
        rw [childrenOf_eq_nil leaf]
        rfl
      have last : visitAll key (walkFrom key parent (nodes ++ [x]) (fuel + 1) (depth + 1)) depth [x] =
          some [(depth, x)] := visitAll_cons.mpr ⟨[], [], alone, rfl, rfl⟩
      refine ⟨_, visitAll_append run' last, .inl ⟨.inl child, ?_⟩⟩
      rcases grows with ⟨⟨v, member, above⟩, -⟩ | ⟨-, perm⟩
      · -- its parent is the start of the walk, so not below it
        rw [child] at above
        subst above
        have inside := List.mem_map_of_mem (f := fun v => key v.2) member
        exact absurd rfl ((List.nodup_append.mp distinct).2.2 _ (by simp) _ inside)
      · rw [List.map_append]
        exact List.perm_append_singleton x _ |>.trans (perm.cons x)
    · rw [if_neg child, List.append_nil]
      refine ⟨visits', run', ?_⟩
      simpa [child] using grows

theorem Grown.walk_perm (grown : Grown key parent nodes) :
    ∃ visits, walkFrom key parent nodes (nodes.length + 1) 0 none = some visits ∧
      (visits.map Prod.snd).Perm nodes := by
  induction grown with
  | nil => exact ⟨[], rfl, .refl _⟩
  | @snoc nodes x grown fresh known ih =>
    obtain ⟨visits, run, perm⟩ := ih
    have leaf : ∀ y ∈ nodes ++ [x], parent y ≠ some (key x) := by
      intro y member child
      rcases List.mem_append.mp member with old | new
      · exact fresh (grown.known_of_mem old child)
      · obtain rfl := List.mem_singleton.mp new
        exact fresh (known _ child)
    have keys : (visits.map fun v => key v.2).Perm (nodes.map key) := by
      simpa [Function.comp_def] using perm.map key
    have distinct : ((none : Option κ).toList ++ visits.map fun v => key v.2).Nodup :=
      keys.nodup_iff.mpr grown.nodup
    obtain ⟨visits', run', grows⟩ := walkFrom_snoc leaf run distinct
    refine ⟨visits', by simpa using run', ?_⟩
    rcases grows with ⟨-, perm'⟩ | ⟨off, -⟩
    · exact (perm'.trans (perm.cons x)).trans (List.perm_append_singleton x nodes).symm
    · exfalso
      cases above : parent x with
      | none => exact off (.inl above)
      | some k =>
        obtain ⟨v, member, same⟩ := List.mem_map.mp (keys.mem_iff.mpr (known k above))
        exact off (.inr ⟨v, member, by rw [above, same]⟩)

theorem walkFrom_mono (run : walkFrom key parent nodes fuel depth p = some visits) :
    walkFrom key parent nodes (fuel + 1) depth p = some visits := by
  induction fuel generalizing depth p visits with
  | zero => cases run
  | succ fuel ih =>
    have all : ∀ siblings visits,
        visitAll key (walkFrom key parent nodes fuel (depth + 1)) depth siblings = some visits →
          visitAll key (walkFrom key parent nodes (fuel + 1) (depth + 1)) depth siblings =
            some visits := by
      intro siblings
      induction siblings with
      | nil => exact fun _ run => run
      | cons y rest deeper =>
        intro visits run
        obtain ⟨under, later, here, after, rfl⟩ := visitAll_cons.mp run
        exact visitAll_cons.mpr ⟨under, later, ih here, deeper _ after, rfl⟩
    exact all _ _ run

theorem walkFrom_le {fuel fuel' depth : Nat} (deeper : fuel ≤ fuel')
    (run : walkFrom key parent nodes fuel depth p = some visits) :
    walkFrom key parent nodes fuel' depth p = some visits := by
  induction deeper with
  | refl => exact run
  | step _ ih => exact walkFrom_mono ih

end Lineage

end AutoTrade
