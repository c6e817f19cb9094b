import Mathlib.Algebra.BigOperators.Group.List.Basic
import Mathlib.Data.List.Induction
import Mathlib.Data.List.Nodup
import Mathlib.Data.List.Perm.Basic
import Mathlib.Data.List.Sort
import Mathlib.Tactic.Abel

/-!
# Insertion-ordered dictionaries

A finite map that remembers the order in which its keys were first set: setting
a present key keeps its place, setting an absent one appends, and erasing
closes the gap. `Dict` carries the distinctness of its keys as a field, so a
dictionary with a repeated key cannot be built. Two dictionaries are `Equiv`
when they hold the same bindings in whatever order; sums over the bindings and
lookups do not tell such dictionaries apart.
-/

namespace AutoTrade

/-- An association list with distinct keys, in insertion order. -/
structure Dict (κ : Type*) (α : Type*) where
  entries : List (κ × α)
  nodup : (entries.map Prod.fst).Nodup

namespace Dict

variable {κ α β M : Type*}

instance [DecidableEq κ] [DecidableEq α] : DecidableEq (Dict κ α) := fun d e =>
  decidable_of_iff (d.entries = e.entries) (by cases d; cases e; simp)

@[ext] theorem ext {d e : Dict κ α} (h : d.entries = e.entries) : d = e := by
  cases d; cases e; simpa using h

/-- The dictionary with no binding. -/
def empty : Dict κ α := ⟨[], List.nodup_nil⟩

def keys (d : Dict κ α) : List κ := d.entries.map Prod.fst

def values (d : Dict κ α) : List α := d.entries.map Prod.snd

/-- Every value replaced, each key keeping its place. -/
def mapValues (f : κ → α → β) (d : Dict κ α) : Dict κ β :=
  ⟨d.entries.map (fun entry => (entry.1, f entry.1 entry.2)), by
    simpa [List.map_map, Function.comp_def] using d.nodup⟩

/-- The same bindings, reordered. -/
def reorder (d : Dict κ α) (l : List (κ × α)) (h : l.Perm d.entries) : Dict κ α :=
  ⟨l, (h.map Prod.fst).nodup_iff.mpr d.nodup⟩

/-- The sum of `f` over the bindings. -/
def sum [AddCommMonoid M] (f : κ → α → M) (d : Dict κ α) : M :=
  (d.entries.map (fun entry => f entry.1 entry.2)).sum

/-- Both hold the same bindings. -/
def Equiv (d e : Dict κ α) : Prop := d.entries.Perm e.entries

@[simp] theorem entries_empty : (empty : Dict κ α).entries = [] := rfl

@[simp] theorem entries_mapValues (f : κ → α → β) (d : Dict κ α) :
    (d.mapValues f).entries = d.entries.map (fun entry => (entry.1, f entry.1 entry.2)) := rfl

@[refl] theorem Equiv.refl (d : Dict κ α) : d.Equiv d := List.Perm.refl _

theorem Equiv.trans {d e f : Dict κ α} (h : d.Equiv e) (h' : e.Equiv f) : d.Equiv f :=
  List.Perm.trans h h'

theorem Equiv.sum [AddCommMonoid M] {d e : Dict κ α} (h : d.Equiv e) (f : κ → α → M) :
    d.sum f = e.sum f := (h.map _).sum_eq

theorem length_eq_sum (d : Dict κ α) : d.entries.length = d.sum fun _ _ => 1 := by
  simp [sum]

theorem sum_mapValues [AddCommMonoid M] (f : κ → β → M) (g : κ → α → β) (d : Dict κ α) :
    (d.mapValues g).sum f = d.sum (fun k v => f k (g k v)) := by
  simp [sum, List.map_map, Function.comp_def]

section Bindings

variable [DecidableEq κ]

/-- The binding of `k` in a list of bindings. -/
def lookup (k : κ) : List (κ × α) → Option α
  | [] => none
  | (k', v) :: rest => if k' = k then some v else lookup k rest

def get? (d : Dict κ α) (k : κ) : Option α := lookup k d.entries

/-- Rebind `k` where it stands, or append it. -/
def put (k : κ) (v : α) : List (κ × α) → List (κ × α)
  | [] => [(k, v)]
  | (k', w) :: rest => if k' = k then (k, v) :: rest else (k', w) :: put k v rest

attribute [local simp] lookup put

theorem map_fst_put (k : κ) (v : α) (l : List (κ × α)) :
    (put k v l).map Prod.fst = if k ∈ l.map Prod.fst then l.map Prod.fst
      else l.map Prod.fst ++ [k] := by
  induction l with
  | nil => simp [put]
  | cons entry rest ih =>
    obtain ⟨k', w⟩ := entry
    by_cases equal : k' = k
    · simp [put, equal]
    · simp only [put, equal, if_false, List.map_cons, ih, List.mem_cons, Ne.symm equal,
        false_or]
      split <;> simp

def set (d : Dict κ α) (k : κ) (v : α) : Dict κ α :=
  ⟨put k v d.entries, by
    rw [map_fst_put]
    split
    · exact d.nodup
    · rename_i absent
      exact List.Nodup.append d.nodup (List.nodup_singleton k) (by simpa using absent)⟩

def erase (d : Dict κ α) (k : κ) : Dict κ α :=
  ⟨d.entries.filter (fun entry => entry.1 ≠ k),
    d.nodup.sublist ((List.filter_sublist).map Prod.fst)⟩

/-- The bindings that pass a test, in their order. -/
def filter (keeps : κ → α → Bool) (d : Dict κ α) : Dict κ α :=
  ⟨d.entries.filter (fun entry => keeps entry.1 entry.2),
    d.nodup.sublist ((List.filter_sublist).map Prod.fst)⟩

/-- The bindings with a value under `f`, in their order. -/
def filterMap (f : κ → α → Option β) (d : Dict κ α) : Dict κ β :=
  ⟨d.entries.filterMap fun entry => (f entry.1 entry.2).map fun v => (entry.1, v), by
    refine d.nodup.sublist ?_
    induction d.entries with
    | nil => exact List.Sublist.refl _
    | cons entry rest ih =>
      cases found : f entry.1 entry.2 with
      | none => simpa [found] using ih.cons entry.1
      | some v => simpa [found] using ih.cons_cons entry.1⟩

/-- Bindings set one after another. -/
def ofList (l : List (κ × α)) : Dict κ α := l.foldl (fun d entry => d.set entry.1 entry.2) empty

theorem lookup_put (k k' : κ) (v : α) (l : List (κ × α)) :
    lookup k' (put k v l) = if k = k' then some v else lookup k' l := by
  induction l with
  | nil => simp [put, lookup]
  | cons entry rest ih =>
    obtain ⟨key, w⟩ := entry
    by_cases first : key = k
    · subst first
      by_cases equal : key = k' <;> simp [put, lookup, equal]
    · by_cases here : key = k'
      · subst here
        simp [put, lookup, first, Ne.symm first]
      · simp [put, lookup, first, here, ih]

theorem lookup_filter (k k' : κ) (l : List (κ × α)) :
    lookup k' (l.filter (fun entry => entry.1 ≠ k)) = if k = k' then none else lookup k' l := by
  induction l with
  | nil => simp [lookup]
  | cons entry rest ih =>
    obtain ⟨key, w⟩ := entry
    by_cases equal : k = k'
    · subst equal
      by_cases here : key = k
      · simpa [List.filter_cons, here] using ih
      · simpa [List.filter_cons, here, lookup] using ih
    · by_cases here : key = k
      · subst here
        simpa [List.filter_cons, lookup, equal] using ih
      · by_cases there : key = k' <;> simp_all [lookup]

theorem lookup_map (f : κ → α → β) (k : κ) (l : List (κ × α)) :
    lookup k (l.map (fun entry => (entry.1, f entry.1 entry.2))) = (lookup k l).map (f k) := by
  induction l with
  | nil => rfl
  | cons entry rest ih =>
    obtain ⟨key, w⟩ := entry
    by_cases equal : key = k
    · subst equal
      simp [lookup]
    · simpa [lookup, equal] using ih

variable {k : κ} {l : List (κ × α)}

theorem lookup_isSome : (lookup k l).isSome ↔ k ∈ l.map Prod.fst := by
  induction l with
  | nil => simp [lookup]
  | cons entry rest ih =>
    obtain ⟨key, w⟩ := entry
    by_cases equal : key = k
    · simp [lookup, equal]
    · simp [lookup, equal, Ne.symm equal, ih]

variable {v : α}

theorem mem_of_lookup (h : lookup k l = some v) : (k, v) ∈ l := by
  induction l with
  | nil => simp [lookup] at h
  | cons entry rest ih =>
    obtain ⟨key, w⟩ := entry
    by_cases equal : key = k
    · simp only [lookup, equal, if_true, Option.some.injEq] at h
      simp [equal, h]
    · exact List.mem_cons_of_mem _ (ih (by simpa [lookup, equal] using h))

theorem lookup_of_mem (nodup : (l.map Prod.fst).Nodup) (h : (k, v) ∈ l) : lookup k l = some v := by
  induction l with
  | nil => simp at h
  | cons entry rest ih =>
    obtain ⟨key, w⟩ := entry
    have distinct := List.nodup_cons.mp nodup
    rcases List.mem_cons.mp h with here | there
    · simp only [Prod.mk.injEq] at here
      simp [lookup, here.1, here.2]
    · have different : key ≠ k := fun equal =>
        distinct.1 (equal ▸ List.mem_map.mpr ⟨(k, v), there, rfl⟩)
      simpa [lookup, different] using ih distinct.2 there

@[simp] theorem get?_empty (k : κ) : (empty : Dict κ α).get? k = none := rfl

theorem get?_set (d : Dict κ α) (k k' : κ) (v : α) :
    (d.set k v).get? k' = if k = k' then some v else d.get? k' := lookup_put k k' v d.entries

@[simp] theorem get?_set_self (d : Dict κ α) (k : κ) (v : α) : (d.set k v).get? k = some v := by
  simp [get?_set]

theorem get?_set_of_ne (d : Dict κ α) {k k' : κ} (v : α) (h : k ≠ k') :
    (d.set k v).get? k' = d.get? k' := by
  simp [get?_set, h]

theorem get?_erase (d : Dict κ α) (k k' : κ) :
    (d.erase k).get? k' = if k = k' then none else d.get? k' := lookup_filter k k' d.entries

@[simp] theorem get?_mapValues (f : κ → α → β) (d : Dict κ α) (k : κ) :
    (d.mapValues f).get? k = (d.get? k).map (f k) := lookup_map f k d.entries

variable {d : Dict κ α}

theorem mem_entries_iff : (k, v) ∈ d.entries ↔ d.get? k = some v :=
  ⟨lookup_of_mem d.nodup, mem_of_lookup⟩

theorem get?_filter {keeps : κ → α → Bool} :
    (d.filter keeps).get? k = some v ↔ d.get? k = some v ∧ keeps k v = true := by
  rw [← mem_entries_iff, ← mem_entries_iff]
  exact List.mem_filter

theorem get?_filterMap {f : κ → α → Option β} : (d.filterMap f).get? k = (d.get? k).bind (f k) := by
  refine Option.ext fun v => ?_
  rw [← mem_entries_iff, Option.bind_eq_some_iff]
  simp only [← mem_entries_iff]
  show (k, v) ∈ d.entries.filterMap _ ↔ _
  simp only [List.mem_filterMap, Option.map_eq_some_iff, Prod.mk.injEq, Prod.exists]
  constructor
  · rintro ⟨k', w, member, v', found, rfl, rfl⟩
    exact ⟨w, member, found⟩
  · rintro ⟨w, member, found⟩
    exact ⟨k, w, member, v, found, rfl, rfl⟩

theorem entries_set_of_fresh (fresh : k ∉ d.keys) (v : α) :
    (d.set k v).entries = d.entries ++ [(k, v)] := by
  have put_fresh : ∀ l : List (κ × α), k ∉ l.map Prod.fst → put k v l = l ++ [(k, v)] := by
    intro l
    induction l with
    | nil => exact fun _ => rfl
    | cons entry rest ih =>
      intro fresh
      obtain ⟨other, later⟩ := not_or.mp (mt List.mem_cons.mpr fresh)
      rw [put, if_neg (Ne.symm other), ih later, List.cons_append]
  exact put_fresh d.entries fresh

theorem length_erase (member : k ∈ d.keys) : (d.erase k).entries.length + 1 = d.entries.length := by
  have keys : (d.erase k).keys = d.keys.erase k := by
    unfold Dict.keys
    rw [List.Nodup.erase_eq_filter d.nodup, List.filter_map]
    refine congrArg (List.map Prod.fst) (List.filter_congr fun entry _ => ?_)
    simp [bne, beq_eq_decide]
  have removed := congrArg List.length keys
  have some := List.length_pos_of_mem member
  rw [List.length_erase_of_mem member] at removed
  simp only [Dict.keys, List.length_map] at removed some
  omega

theorem entries_perm_erase (found : d.get? k = some v) :
    d.entries.Perm ((k, v) :: (d.erase k).entries) := by
  have fresh : (k, v) ∉ (d.erase k).entries := fun member => by
    have still := mem_entries_iff.mp member
    simp [get?_erase] at still
  refine (List.perm_ext_iff_of_nodup (List.Nodup.of_map _ d.nodup)
    (List.nodup_cons.mpr ⟨fresh, List.Nodup.of_map _ (d.erase k).nodup⟩)).mpr fun entry => ?_
  rw [List.mem_cons, mem_entries_iff (k := entry.1) (v := entry.2),
    mem_entries_iff (k := entry.1) (v := entry.2), get?_erase]
  by_cases here : k = entry.1
  · subst here
    simp [found, Prod.ext_iff, eq_comm]
  · have other : entry ≠ (k, v) := fun same => here (congrArg Prod.fst same).symm
    simp [here, other]

theorem length_set_le (d : Dict κ α) (k : κ) (v : α) :
    (d.set k v).entries.length ≤ d.entries.length + 1 := by
  have keys := congrArg List.length (map_fst_put k v d.entries)
  rw [List.length_map] at keys
  show (put k v d.entries).length ≤ _
  rw [keys]
  split <;> simp

theorem ofList_entries (d : Dict κ α) : ofList d.entries = d := by
  have loop : ∀ (l : List (κ × α)) (e : Dict κ α), ((e.entries ++ l).map Prod.fst).Nodup →
      (l.foldl (fun d entry => d.set entry.1 entry.2) e).entries = e.entries ++ l := by
    intro l
    induction l with
    | nil => simp
    | cons entry rest ih =>
      intro e distinct
      have fresh : entry.1 ∉ e.keys := by
        intro member
        rw [List.map_append, List.nodup_append] at distinct
        exact distinct.2.2 _ member _ List.mem_cons_self rfl
      have grown := entries_set_of_fresh fresh entry.2
      have split : (e.set entry.1 entry.2).entries ++ rest = e.entries ++ entry :: rest := by
        rw [grown, List.append_assoc]
        rfl
      rw [List.foldl_cons, ih _ (split ▸ distinct), split]
  exact ext (loop d.entries empty d.nodup)

theorem get?_ofList (functional : ∀ k v w, (k, v) ∈ l → (k, w) ∈ l → v = w) :
    (ofList l).get? k = some v ↔ (k, v) ∈ l := by
  unfold ofList
  induction l using List.reverseRecOn with
  | nil => simp
  | append_singleton l last ih =>
    have earlier := ih fun k v w member member' => functional k v w
      (List.mem_append_left _ member) (List.mem_append_left _ member')
    rw [List.foldl_append, List.foldl_cons, List.foldl_nil, get?_set]
    by_cases here : last.1 = k
    · subst here
      rw [if_pos rfl, Option.some.injEq]
      constructor
      · rintro rfl
        simp
      · intro member
        exact functional last.1 last.2 v (by simp) member
    · rw [if_neg here, earlier]
      simp only [List.mem_append, List.mem_singleton]
      refine ⟨.inl, fun member => member.resolve_right fun same => here ?_⟩
      rw [← same]

theorem get?_eq_none_iff : d.get? k = none ↔ k ∉ d.keys := by
  rw [← Option.not_isSome_iff_eq_none]
  exact lookup_isSome.not

theorem mem_keys_iff : k ∈ d.keys ↔ ∃ v, d.get? k = some v := by
  rw [← Option.isSome_iff_exists]
  exact lookup_isSome.symm

theorem mem_keys_set {k k' : κ} : k' ∈ (d.set k v).keys ↔ k' = k ∨ k' ∈ d.keys := by
  rw [mem_keys_iff, mem_keys_iff, get?_set]
  by_cases here : k = k'
  · simp [here]
  · simp [here, Ne.symm here]

theorem keys_set_of_get? (h : d.get? k = some v) (w : α) : (d.set k w).keys = d.keys := by
  have present : k ∈ d.keys := mem_keys_iff.mpr ⟨v, h⟩
  exact (map_fst_put k w d.entries).trans (if_pos present)

theorem keys_set_of_get?_none (h : d.get? k = none) (v : α) : (d.set k v).keys = d.keys ++ [k] := by
  have absent : k ∉ d.keys := get?_eq_none_iff.mp h
  exact (map_fst_put k v d.entries).trans (if_neg absent)

theorem mem_values_iff : v ∈ d.values ↔ ∃ k, d.get? k = some v := by
  constructor
  · intro member
    obtain ⟨⟨k, w⟩, inside, rfl⟩ := List.mem_map.mp member
    exact ⟨k, mem_entries_iff.mp inside⟩
  · rintro ⟨k, found⟩
    exact List.mem_map.mpr ⟨(k, v), mem_entries_iff.mpr found, rfl⟩

theorem map_values_eq_keys {name : α → κ} (named : ∀ k v, d.get? k = some v → name v = k) :
    d.values.map name = d.keys := by
  unfold values keys
  rw [List.map_map]
  refine List.map_congr_left fun entry member => ?_
  exact named entry.1 entry.2 (mem_entries_iff.mp member)

theorem set_set (d : Dict κ α) (k : κ) (v w : α) : (d.set k v).set k w = d.set k w := by
  apply Dict.ext
  show put k w (put k v d.entries) = put k w d.entries
  induction d.entries with
  | nil => simp [put]
  | cons entry rest ih =>
    obtain ⟨k', v'⟩ := entry
    by_cases here : k' = k
    · simp [put, here]
    · simp [put, here, ih]

theorem erase_set (d : Dict κ α) (k : κ) (v : α) : (d.set k v).erase k = d.erase k := by
  apply Dict.ext
  show (put k v d.entries).filter _ = d.entries.filter _
  induction d.entries with
  | nil => simp [put]
  | cons entry rest ih =>
    obtain ⟨k', v'⟩ := entry
    by_cases here : k' = k
    · simp [put, here]
    · simpa [put, here] using ih

theorem sum_of_get? [AddCommMonoid M] (found : d.get? k = some v) (f : κ → α → M) :
    d.sum f = f k v + (d.erase k).sum f := by
  rw [sum, ((entries_perm_erase found).map _).sum_eq, List.map_cons, List.sum_cons]
  rfl

theorem erase_of_fresh (fresh : d.get? k = none) : d.erase k = d := by
  refine ext (List.filter_eq_self.mpr fun entry member => ?_)
  have there := mem_entries_iff.mp member
  have other : entry.1 ≠ k := fun same => by
    rw [same, fresh] at there
    exact nomatch there
  simpa using other

theorem sum_set_erase [AddCommMonoid M] (d : Dict κ α) (k : κ) (v : α) (f : κ → α → M) :
    (d.set k v).sum f = f k v + (d.erase k).sum f := by
  rw [sum_of_get? (get?_set_self d k v), erase_set]

theorem Equiv.get? {d e : Dict κ α} (h : d.Equiv e) (k : κ) : d.get? k = e.get? k := by
  refine Option.ext fun v => ?_
  rw [← mem_entries_iff, ← mem_entries_iff]
  exact h.mem_iff

theorem equiv_of_get? {d e : Dict κ α} (h : ∀ k, d.get? k = e.get? k) : d.Equiv e := by
  refine (List.perm_ext_iff_of_nodup (d.nodup.of_map _) (e.nodup.of_map _)).mpr ?_
  rintro ⟨k, v⟩
  rw [mem_entries_iff, mem_entries_iff, h]

section Sum

variable [AddCommGroup M]

/-- What a binding of `k` adds to a sum over a dictionary. -/
def weight (f : κ → α → M) (d : Dict κ α) (k : κ) : M :=
  match d.get? k with
  | none => 0
  | some v => f k v

theorem sum_map_put (f : κ → α → M) (k : κ) (v : α) (l : List (κ × α)) :
    ((put k v l).map (fun entry => f entry.1 entry.2)).sum =
      (l.map (fun entry => f entry.1 entry.2)).sum
        - (match lookup k l with | none => 0 | some w => f k w) + f k v := by
  induction l with
  | nil => simp [put, lookup]
  | cons entry rest ih =>
    obtain ⟨key, w⟩ := entry
    by_cases equal : key = k
    · subst equal
      simp only [put, if_true, List.map_cons, List.sum_cons, lookup]
      abel
    · simp only [put, equal, if_false, List.map_cons, List.sum_cons, ih, lookup]
      abel

theorem sum_set (f : κ → α → M) (d : Dict κ α) (k : κ) (v : α) :
    (d.set k v).sum f = d.sum f - d.weight f k + f k v :=
  sum_map_put f k v d.entries

theorem sum_map_filter (f : κ → α → M) (k : κ) {l : List (κ × α)}
    (nodup : (l.map Prod.fst).Nodup) :
    ((l.filter (fun entry => entry.1 ≠ k)).map (fun entry => f entry.1 entry.2)).sum =
      (l.map (fun entry => f entry.1 entry.2)).sum
        - (match lookup k l with | none => 0 | some w => f k w) := by
  induction l with
  | nil => simp [lookup]
  | cons entry rest ih =>
    obtain ⟨key, w⟩ := entry
    have distinct := List.nodup_cons.mp nodup
    by_cases equal : key = k
    · subst equal
      have absent : rest.filter (fun entry => entry.1 ≠ key) = rest := by
        refine List.filter_eq_self.mpr fun other member => ?_
        have : other.1 ≠ key := fun same =>
          distinct.1 (same ▸ List.mem_map.mpr ⟨other, member, rfl⟩)
        simpa using this
      rw [List.filter_cons_of_neg (by simp), absent]
      simp [lookup]
    · rw [List.filter_cons_of_pos (by simpa using equal)]
      simp only [List.map_cons, List.sum_cons, ih distinct.2, lookup, equal, if_false]
      abel

theorem sum_erase (f : κ → α → M) (d : Dict κ α) (k : κ) :
    (d.erase k).sum f = d.sum f - d.weight f k := sum_map_filter f k d.nodup

end Sum

end Bindings

end Dict

end AutoTrade
