import Mathlib.Data.List.Basic

/-!
# Framing

Records that follow one another in one stream. A record that says where it ends can be cut
off whatever follows it, so a stream of such records is read back in one way. A key that
ends at a separator and a body whose length stands before it make such a record.
-/

namespace AutoTrade

variable {α β κ : Type*}

theorem append_separator_inj {x x' z z' : List β} {sep : β} (free : sep ∉ x) (free' : sep ∉ x')
    (same : x ++ sep :: z = x' ++ sep :: z') : x = x' ∧ z = z' := by
  induction x generalizing x' with
  | nil =>
    cases x' with
    | nil => exact ⟨rfl, List.tail_eq_of_cons_eq same⟩
    | cons b x' =>
      obtain rfl : sep = b := List.head_eq_of_cons_eq same
      exact absurd List.mem_cons_self free'
  | cons a x ih =>
    cases x' with
    | nil =>
      obtain rfl : a = sep := List.head_eq_of_cons_eq same
      exact absurd List.mem_cons_self free
    | cons b x' =>
      have later := ih (fun member => free (List.mem_cons_of_mem a member))
        (fun member => free' (List.mem_cons_of_mem b member)) (List.tail_eq_of_cons_eq same)
      exact ⟨by rw [List.head_eq_of_cons_eq same, later.1], later.2⟩

/-- Among these records each is cut off its stream in one way. -/
structure SelfDelimiting (among : α → Prop) (encode : α → List β) : Prop where
  filled : ∀ a, encode a ≠ []
  cut : ∀ a a' rest rest', among a → among a' →
    encode a ++ rest = encode a' ++ rest' → a = a' ∧ rest = rest'

theorem SelfDelimiting.flatMap_inj {among : α → Prop} {encode : α → List β}
    (delimits : SelfDelimiting among encode) {records records' : List α}
    (all : ∀ a ∈ records, among a) (all' : ∀ a ∈ records', among a)
    (same : records.flatMap encode = records'.flatMap encode) : records = records' := by
  induction records generalizing records' with
  | nil =>
    cases records' with
    | nil => rfl
    | cons a' records' =>
      rw [List.flatMap_nil, List.flatMap_cons] at same
      exact absurd (List.append_eq_nil_iff.mp same.symm).1 (delimits.filled a')
  | cons a records ih =>
    cases records' with
    | nil =>
      rw [List.flatMap_nil, List.flatMap_cons] at same
      exact absurd (List.append_eq_nil_iff.mp same).1 (delimits.filled a)
    | cons a' records' =>
      rw [List.flatMap_cons, List.flatMap_cons] at same
      have first := delimits.cut a a' _ _ (all a List.mem_cons_self) (all' a' List.mem_cons_self) same
      have later := ih (fun b member => all b (List.mem_cons_of_mem a member))
        (fun b member => all' b (List.mem_cons_of_mem a' member)) first.2
      rw [first.1, later]

/-- A key and a body under a header: the key, the body's length, each ended by the separator. -/
def framed (key : κ → List β) (size : Nat → List β) (sep : β) (record : κ × List β) : List β :=
  key record.1 ++ sep :: (size record.2.length ++ sep :: record.2)

theorem selfDelimiting_framed {key : κ → List β} {size : Nat → List β} {sep : β}
    (keys : Function.Injective key) (sizes : Function.Injective size) (sizeFree : ∀ n, sep ∉ size n) :
    SelfDelimiting (fun record => sep ∉ key record.1) (framed key size sep) where
  filled record empty := by
    have length := congrArg List.length empty
    simp [framed] at length
  cut record record' rest rest' free free' same := by
    obtain ⟨k, body⟩ := record
    obtain ⟨k', body'⟩ := record'
    simp only [framed, List.append_assoc, List.cons_append] at same
    have names := append_separator_inj free free' same
    have sized := append_separator_inj (sizeFree _) (sizeFree _) names.2
    have bodies := List.append_inj sized.2 (sizes sized.1)
    exact ⟨Prod.ext (keys names.1) bodies.1, bodies.2⟩

end AutoTrade
