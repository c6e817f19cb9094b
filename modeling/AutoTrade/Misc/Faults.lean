import Mathlib.Data.List.Basic

/-!
# Programs whose operations may fail

A program reads storage and carries out operations on it one after the other. What it reads may be
unreadable and an operation may fail, and the program then goes on in a way of its own; and it may
be cut off at any moment, which is also when another may look at the storage. `Ends` says how a
program may end and `Reaches` where it may be cut off, either with what happened on the way.
-/

namespace AutoTrade.Faults

/-- Storage, and the operations on it. -/
structure Storage (σ ω : Type) where
  apply : σ → ω → σ
  /-- An operation that is not legal has nothing to work on, and fails. -/
  legal : σ → ω → Bool
  /-- What an operation that fails, or is cut off, may leave besides what there was. -/
  torn : σ → ω → σ → Prop

inductive Program (σ ω ε α : Type) where
  | done (value : α)
  | raise (error : ε)
  | look (next : σ → Program σ ω ε α) (unread : Program σ ω ε α)
  | op (op : ω) (next failed : Program σ ω ε α)

/-- What happens to a program on its way. -/
inductive Event (ω : Type) where
  | did (op : ω)
  | failed (op : ω)
  | cut (op : ω)
  | unread
  deriving DecidableEq

namespace Program

variable {σ ω ε α β γ : Type}

/-- A program, and what goes on from its result. -/
def andThen : Program σ ω ε α → (Except ε α → Program σ ω ε β) → Program σ ω ε β
  | done value, f => f (.ok value)
  | raise error, f => f (.error error)
  | look next unread, f => look (fun s => (next s).andThen f) (unread.andThen f)
  | op o next failed, f => op o (next.andThen f) (failed.andThen f)

def ofExcept : Except ε α → Program σ ω ε α
  | .ok value => done value
  | .error error => raise error

def bind (p : Program σ ω ε α) (f : α → Program σ ω ε β) : Program σ ω ε β :=
  p.andThen fun
    | .ok value => f value
    | .error error => raise error

/-- `try: … except`: what is done about an error. -/
def handle (p : Program σ ω ε α) (f : ε → Program σ ω ε α) : Program σ ω ε α :=
  p.andThen fun
    | .ok value => done value
    | .error error => f error

/-- `try: … finally`: an error of what is done last is the one that is raised. -/
def andFinally (p : Program σ ω ε α) (last : Program σ ω ε Unit) : Program σ ω ε α :=
  p.andThen fun result => last.bind fun _ => ofExcept result

instance : Monad (Program σ ω ε) where
  pure := done
  bind := bind

instance : MonadExceptOf ε (Program σ ω ε) where
  throw := raise
  tryCatch := handle

/-- What is read, or the error of a reading that fails. -/
def reading (error : ε) (read : σ → Except ε α) : Program σ ω ε α :=
  look (fun s => ofExcept (read s)) (raise error)

/-- An operation, or the error of one that fails. -/
def performing (error : ε) (o : ω) : Program σ ω ε Unit := op o (done ()) (raise error)

/-- The operations a program may come to are all of a kind. -/
def Uses (allowed : ω → Prop) : Program σ ω ε α → Prop
  | done _ => True
  | raise _ => True
  | look next unread => (∀ s, (next s).Uses allowed) ∧ unread.Uses allowed
  | op o next failed => allowed o ∧ next.Uses allowed ∧ failed.Uses allowed

/-- A run in which everything can be read, and the operations are done or fail as told: what has
happened when there is nothing left that is told, where, and the result if it has come. -/
def follow (d : Storage σ ω) :
    Program σ ω ε α → σ → List Bool → List (Event ω) × σ × Option (Except ε α)
  | done value, s, _ => ([], s, some (.ok value))
  | raise error, s, _ => ([], s, some (.error error))
  | look next _, s, told => follow d (next s) s told
  | op _ _ _, s, [] => ([], s, none)
  | op o next _, s, true :: told =>
    if d.legal s o then
      let (events, t, r) := follow d next (d.apply s o) told
      (.did o :: events, t, r)
    else ([], s, none)
  | op o _ failed, s, false :: told =>
    let (events, t, r) := follow d failed s told
    (.failed o :: events, t, r)

/-- A run in which nothing fails but what has nothing to work on. -/
def carryOut (d : Storage σ ω) : Program σ ω ε α → σ → Except ε α × σ
  | done value, s => (.ok value, s)
  | raise error, s => (.error error, s)
  | look next _, s => carryOut d (next s) s
  | op o next failed, s =>
    if d.legal s o then carryOut d next (d.apply s o) else carryOut d failed s

end Program

open Program

variable {σ ω ε α β : Type}

/-- How a program may end: what happened on the way, what it returned or raised, and where. -/
inductive Ends (d : Storage σ ω) :
    Program σ ω ε α → σ → List (Event ω) → Except ε α → σ → Prop where
  | done {value : α} {s : σ} : Ends d (.done value) s [] (.ok value) s
  | raise {error : ε} {s : σ} : Ends d (.raise error) s [] (.error error) s
  | look {next : σ → Program σ ω ε α} {unread : Program σ ω ε α} {s t : σ}
      {events : List (Event ω)} {r : Except ε α} (rest : Ends d (next s) s events r t) :
      Ends d (.look next unread) s events r t
  | unread {next : σ → Program σ ω ε α} {unread : Program σ ω ε α} {s t : σ}
      {events : List (Event ω)} {r : Except ε α} (rest : Ends d unread s events r t) :
      Ends d (.look next unread) s (.unread :: events) r t
  | did {o : ω} {next failed : Program σ ω ε α} {s t : σ} {events : List (Event ω)}
      {r : Except ε α} (legal : d.legal s o = true) (rest : Ends d next (d.apply s o) events r t) :
      Ends d (.op o next failed) s (.did o :: events) r t
  | failed {o : ω} {next failed : Program σ ω ε α} {s s' t : σ} {events : List (Event ω)}
      {r : Except ε α} (left : s' = s ∨ d.torn s o s') (rest : Ends d failed s' events r t) :
      Ends d (.op o next failed) s (.failed o :: events) r t

/-- Where a program may be cut off, or looked at. -/
inductive Reaches (d : Storage σ ω) : Program σ ω ε α → σ → List (Event ω) → σ → Prop where
  | here {p : Program σ ω ε α} {s : σ} : Reaches d p s [] s
  | look {next : σ → Program σ ω ε α} {unread : Program σ ω ε α} {s t : σ}
      {events : List (Event ω)} (rest : Reaches d (next s) s events t) :
      Reaches d (.look next unread) s events t
  | unread {next : σ → Program σ ω ε α} {unread : Program σ ω ε α} {s t : σ}
      {events : List (Event ω)} (rest : Reaches d unread s events t) :
      Reaches d (.look next unread) s (.unread :: events) t
  | did {o : ω} {next failed : Program σ ω ε α} {s t : σ} {events : List (Event ω)}
      (legal : d.legal s o = true) (rest : Reaches d next (d.apply s o) events t) :
      Reaches d (.op o next failed) s (.did o :: events) t
  | failed {o : ω} {next failed : Program σ ω ε α} {s s' t : σ} {events : List (Event ω)}
      (left : s' = s ∨ d.torn s o s') (rest : Reaches d failed s' events t) :
      Reaches d (.op o next failed) s (.failed o :: events) t
  | cut {o : ω} {next failed : Program σ ω ε α} {s t : σ} (left : d.torn s o t) :
      Reaches d (.op o next failed) s [.cut o] t

variable {d : Storage σ ω} {p : Program σ ω ε α} {f : α → Program σ ω ε β} {s t : σ}
  {events : List (Event ω)} {r : Except ε α} {r' : Except ε β}

variable {value : α}

theorem ends_done : Ends d (.done value) s events r t ↔ events = [] ∧ r = .ok value ∧ t = s := by
  constructor
  · rintro ⟨⟩
    exact ⟨rfl, rfl, rfl⟩
  · rintro ⟨rfl, rfl, rfl⟩
    exact .done

variable {error : ε}

theorem ends_raise :
    Ends d (.raise error) s events r t ↔ events = [] ∧ r = .error error ∧ t = s := by
  constructor
  · rintro ⟨⟩
    exact ⟨rfl, rfl, rfl⟩
  · rintro ⟨rfl, rfl, rfl⟩
    exact .raise

theorem ends_ofExcept {result : Except ε α} :
    Ends d (Program.ofExcept result) s events r t ↔ events = [] ∧ r = result ∧ t = s := by
  cases result with
  | ok value => exact ends_done
  | error error => exact ends_raise

variable {read : σ → Except ε α}

theorem ends_reading :
    Ends d (reading error read) s events r t ↔
      t = s ∧ (events = [] ∧ r = read s ∨ events = [.unread] ∧ r = .error error) := by
  constructor
  · intro ends
    cases ends with
    | look rest =>
      have ⟨quiet, same, there⟩ := ends_ofExcept.mp rest
      exact ⟨there, .inl ⟨quiet, same⟩⟩
    | unread rest =>
      have ⟨quiet, same, there⟩ := ends_raise.mp rest
      exact ⟨there, .inr ⟨by rw [quiet], same⟩⟩
  · rintro ⟨rfl, ⟨rfl, rfl⟩ | ⟨rfl, rfl⟩⟩
    · exact .look (ends_ofExcept.mpr ⟨rfl, rfl, rfl⟩)
    · exact .unread .raise

variable {o : ω}

theorem ends_performing {r : Except ε Unit} :
    Ends d (performing error o) s events r t ↔
      (events = [.did o] ∧ r = .ok () ∧ d.legal s o = true ∧ t = d.apply s o) ∨
        events = [.failed o] ∧ r = .error error ∧ (t = s ∨ d.torn s o t) := by
  constructor
  · intro ends
    cases ends with
    | did legal rest =>
      have ⟨quiet, same, there⟩ := ends_done.mp rest
      exact .inl ⟨by rw [quiet], same, legal, there⟩
    | failed left rest =>
      have ⟨quiet, same, there⟩ := ends_raise.mp rest
      exact .inr ⟨by rw [quiet], same, there ▸ left⟩
  · rintro (⟨rfl, rfl, legal, rfl⟩ | ⟨rfl, rfl, left⟩)
    · exact .did legal .done
    · exact .failed left .raise

variable {k : Except ε α → Program σ ω ε β}

theorem ends_andThen :
    Ends d (p.andThen k) s events r' t ↔ ∃ result mid before after,
      Ends d p s before result mid ∧ Ends d (k result) mid after r' t ∧
        events = before ++ after := by
  constructor
  · intro ends
    induction p generalizing s events with
    | done value => exact ⟨_, _, [], events, .done, ends, rfl⟩
    | raise error => exact ⟨_, _, [], events, .raise, ends, rfl⟩
    | look next unread ih ih' =>
      cases ends with
      | look rest =>
        have ⟨result, mid, before, after, first, later, all⟩ := ih s rest
        exact ⟨result, mid, before, after, .look first, later, all⟩
      | unread rest =>
        have ⟨result, mid, before, after, first, later, all⟩ := ih' rest
        exact ⟨result, mid, .unread :: before, after, .unread first, later, by rw [all]; rfl⟩
    | op o next failed ih ih' =>
      cases ends with
      | did legal rest =>
        have ⟨result, mid, before, after, first, later, all⟩ := ih rest
        exact ⟨result, mid, .did o :: before, after, .did legal first, later, by rw [all]; rfl⟩
      | failed left rest =>
        have ⟨result, mid, before, after, first, later, all⟩ := ih' rest
        exact ⟨result, mid, .failed o :: before, after, .failed left first, later, by rw [all]; rfl⟩
  · rintro ⟨result, mid, before, after, first, later, rfl⟩
    induction first with
    | done => exact later
    | raise => exact later
    | look _ ih => exact .look (ih later)
    | unread _ ih => exact .unread (ih later)
    | did legal _ ih => exact .did legal (ih later)
    | failed left _ ih => exact .failed left (ih later)

theorem ends_bind : Ends d (p >>= f) s events r' t ↔
    (∃ value mid before after, Ends d p s before (.ok value) mid ∧
      Ends d (f value) mid after r' t ∧ events = before ++ after) ∨
    ∃ error, r' = .error error ∧ Ends d p s events (.error error) t := by
  refine ends_andThen.trans ⟨?_, ?_⟩
  · rintro ⟨_ | value, mid, before, after, first, later, rfl⟩
    · have ⟨quiet, same, there⟩ := ends_raise.mp later
      exact .inr ⟨_, same, by rwa [quiet, List.append_nil, there]⟩
    · exact .inl ⟨value, mid, before, after, first, later, rfl⟩
  · rintro (⟨value, mid, before, after, first, later, all⟩ | ⟨error, same, first⟩)
    · exact ⟨.ok value, mid, before, after, first, later, all⟩
    · exact ⟨.error error, t, events, [], first, same ▸ .raise, (List.append_nil _).symm⟩

theorem ends_reading_ok :
    Ends d (reading error read) s events (.ok value) t ↔
      t = s ∧ events = [] ∧ read s = .ok value := by
  rw [ends_reading]
  constructor
  · rintro ⟨there, ⟨quiet, same⟩ | ⟨_, impossible⟩⟩
    · exact ⟨there, quiet, same.symm⟩
    · exact nomatch impossible
  · exact fun ⟨there, quiet, same⟩ => ⟨there, .inl ⟨quiet, same.symm⟩⟩

theorem ends_performing_ok {value : Unit} :
    Ends d (performing error o) s events (.ok value) t ↔
      events = [.did o] ∧ d.legal s o = true ∧ t = d.apply s o := by
  rw [ends_performing]
  constructor
  · rintro (⟨did, _, legal, there⟩ | ⟨_, impossible, _⟩)
    · exact ⟨did, legal, there⟩
    · exact nomatch impossible
  · exact fun ⟨did, legal, there⟩ => .inl ⟨did, rfl, legal, there⟩

theorem ends_bind_ok {b : β} : Ends d (p >>= f) s events (.ok b) t ↔
    ∃ value mid before after, Ends d p s before (.ok value) mid ∧
      Ends d (f value) mid after (.ok b) t ∧ events = before ++ after := by
  refine ends_bind.trans ⟨?_, .inl⟩
  rintro (done | ⟨_, impossible, _⟩)
  · exact done
  · exact nomatch impossible

theorem ends_handle {f : ε → Program σ ω ε α} : Ends d (p.handle f) s events r t ↔
    (∃ value, r = .ok value ∧ Ends d p s events (.ok value) t) ∨
    ∃ error mid before after, Ends d p s before (.error error) mid ∧
      Ends d (f error) mid after r t ∧ events = before ++ after := by
  refine ends_andThen.trans ⟨?_, ?_⟩
  · rintro ⟨error | value, mid, before, after, first, later, rfl⟩
    · exact .inr ⟨error, mid, before, after, first, later, rfl⟩
    · have ⟨quiet, same, there⟩ := ends_done.mp later
      exact .inl ⟨_, same, by rwa [quiet, List.append_nil, there]⟩
  · rintro (⟨value, same, first⟩ | ⟨error, mid, before, after, first, later, all⟩)
    · subst same
      exact ⟨.ok value, t, events, [], first, .done, (List.append_nil _).symm⟩
    · exact ⟨.error error, mid, before, after, first, later, all⟩

variable {last : Program σ ω ε Unit}

theorem ends_andFinally : Ends d (p.andFinally last) s events r t ↔
    ∃ result mid before after, Ends d p s before result mid ∧ events = before ++ after ∧
      (r = result ∧ Ends d last mid after (.ok ()) t ∨
        ∃ error, r = .error error ∧ Ends d last mid after (.error error) t) := by
  refine ends_andThen.trans ⟨?_, ?_⟩
  · rintro ⟨result, mid, before, after, first, later, rfl⟩
    refine ⟨result, mid, before, after, first, rfl, ?_⟩
    rcases ends_bind.mp later with ⟨_, _, during, _, ends, returned, rfl⟩ | failed
    · have ⟨quiet, same, there⟩ := ends_ofExcept.mp returned
      rw [quiet, List.append_nil, there]
      exact .inl ⟨same, ends⟩
    · exact .inr failed
  · rintro ⟨result, mid, before, after, first, all, ⟨rfl, ends⟩ | failed⟩
    · refine ⟨r, mid, before, after, first, ends_bind.mpr (.inl ?_), all⟩
      exact ⟨(), t, after, [], ends, ends_ofExcept.mpr ⟨rfl, rfl, rfl⟩, (List.append_nil _).symm⟩
    · exact ⟨result, mid, before, after, first, ends_bind.mpr (.inr failed), all⟩

theorem reaches_done :
    Reaches d (.done value : Program σ ω ε α) s events t ↔ events = [] ∧ t = s := by
  constructor
  · rintro ⟨⟩
    exact ⟨rfl, rfl⟩
  · rintro ⟨rfl, rfl⟩
    exact .here

theorem reaches_raise :
    Reaches d (.raise error : Program σ ω ε α) s events t ↔ events = [] ∧ t = s := by
  constructor
  · rintro ⟨⟩
    exact ⟨rfl, rfl⟩
  · rintro ⟨rfl, rfl⟩
    exact .here

theorem reaches_ofExcept {result : Except ε α} :
    Reaches d (Program.ofExcept result : Program σ ω ε α) s events t ↔ events = [] ∧ t = s := by
  cases result with
  | ok value => exact reaches_done
  | error error => exact reaches_raise

theorem reaches_reading :
    Reaches d (reading error read) s events t ↔ t = s ∧ (events = [] ∨ events = [.unread]) := by
  constructor
  · intro reaches
    cases reaches with
    | here => exact ⟨rfl, .inl rfl⟩
    | look rest =>
      have ⟨quiet, there⟩ := reaches_ofExcept.mp rest
      exact ⟨there, .inl quiet⟩
    | unread rest =>
      have ⟨quiet, there⟩ := reaches_raise.mp rest
      exact ⟨there, .inr (by rw [quiet])⟩
  · rintro ⟨rfl, rfl | rfl⟩
    · exact .here
    · exact .unread .here

theorem reaches_performing :
    Reaches d (performing error o : Program σ ω ε Unit) s events t ↔
      (events = [] ∧ t = s) ∨ (events = [.did o] ∧ d.legal s o = true ∧ t = d.apply s o) ∨
        (events = [.failed o] ∧ (t = s ∨ d.torn s o t)) ∨
        events = [.cut o] ∧ d.torn s o t := by
  constructor
  · intro reaches
    cases reaches with
    | here => exact .inl ⟨rfl, rfl⟩
    | did legal rest =>
      have ⟨quiet, there⟩ := reaches_done.mp rest
      exact .inr (.inl ⟨by rw [quiet], legal, there⟩)
    | failed left rest =>
      have ⟨quiet, there⟩ := reaches_raise.mp rest
      exact .inr (.inr (.inl ⟨by rw [quiet], there ▸ left⟩))
    | cut left => exact .inr (.inr (.inr ⟨rfl, left⟩))
  · rintro (⟨rfl, rfl⟩ | ⟨rfl, legal, rfl⟩ | ⟨rfl, left⟩ | ⟨rfl, left⟩)
    · exact .here
    · exact .did legal .here
    · exact .failed left .here
    · exact .cut left

theorem reaches_of_ends (ends : Ends d p s events r t) : Reaches d p s events t := by
  induction ends with
  | done => exact .here
  | raise => exact .here
  | look _ ih => exact .look ih
  | unread _ ih => exact .unread ih
  | did legal _ ih => exact .did legal ih
  | failed left _ ih => exact .failed left ih

theorem reaches_andThen :
    Reaches d (p.andThen k) s events t ↔ Reaches d p s events t ∨ ∃ result mid before after,
      Ends d p s before result mid ∧ Reaches d (k result) mid after t ∧
        events = before ++ after := by
  constructor
  · intro reaches
    induction p generalizing s events with
    | done value => exact .inr ⟨_, _, [], events, .done, reaches, rfl⟩
    | raise error => exact .inr ⟨_, _, [], events, .raise, reaches, rfl⟩
    | look next unread ih ih' =>
      cases reaches with
      | here => exact .inl .here
      | look rest =>
        rcases ih s rest with before | ⟨result, mid, before, after, first, later, all⟩
        · exact .inl (.look before)
        · exact .inr ⟨result, mid, before, after, .look first, later, all⟩
      | unread rest =>
        rcases ih' rest with before | ⟨result, mid, before, after, first, later, all⟩
        · exact .inl (.unread before)
        · exact .inr
            ⟨result, mid, .unread :: before, after, .unread first, later, by rw [all]; rfl⟩
    | op o next failed ih ih' =>
      cases reaches with
      | here => exact .inl .here
      | did legal rest =>
        rcases ih rest with before | ⟨result, mid, before, after, first, later, all⟩
        · exact .inl (.did legal before)
        · exact .inr
            ⟨result, mid, .did o :: before, after, .did legal first, later, by rw [all]; rfl⟩
      | failed left rest =>
        rcases ih' rest with before | ⟨result, mid, before, after, first, later, all⟩
        · exact .inl (.failed left before)
        · exact .inr
            ⟨result, mid, .failed o :: before, after, .failed left first, later, by rw [all]; rfl⟩
      | cut left => exact .inl (.cut left)
  · rintro (before | ⟨result, mid, before, after, first, later, rfl⟩)
    · induction before with
      | here => exact .here
      | look _ ih => exact .look ih
      | unread _ ih => exact .unread ih
      | did legal _ ih => exact .did legal ih
      | failed left _ ih => exact .failed left ih
      | cut left => exact .cut left
    · induction first with
      | done => exact later
      | raise => exact later
      | look _ ih => exact .look (ih later)
      | unread _ ih => exact .unread (ih later)
      | did legal _ ih => exact .did legal (ih later)
      | failed left _ ih => exact .failed left (ih later)

theorem reaches_bind : Reaches d (p >>= f) s events t ↔
    Reaches d p s events t ∨ ∃ value mid before after, Ends d p s before (.ok value) mid ∧
      Reaches d (f value) mid after t ∧ events = before ++ after := by
  refine reaches_andThen.trans ⟨?_, ?_⟩
  · rintro (before | ⟨_ | value, mid, before, after, first, later, rfl⟩)
    · exact .inl before
    · have ⟨quiet, there⟩ := reaches_raise.mp later
      rw [quiet, List.append_nil, there]
      exact .inl (reaches_of_ends first)
    · exact .inr ⟨value, mid, before, after, first, later, rfl⟩
  · rintro (before | ⟨value, mid, before, after, first, later, all⟩)
    · exact .inl before
    · exact .inr ⟨.ok value, mid, before, after, first, later, all⟩

theorem reaches_handle {f : ε → Program σ ω ε α} : Reaches d (p.handle f) s events t ↔
    Reaches d p s events t ∨ ∃ error mid before after, Ends d p s before (.error error) mid ∧
      Reaches d (f error) mid after t ∧ events = before ++ after := by
  refine reaches_andThen.trans ⟨?_, ?_⟩
  · rintro (before | ⟨error | value, mid, before, after, first, later, rfl⟩)
    · exact .inl before
    · exact .inr ⟨error, mid, before, after, first, later, rfl⟩
    · have ⟨quiet, there⟩ := reaches_done.mp later
      rw [quiet, List.append_nil, there]
      exact .inl (reaches_of_ends first)
  · rintro (before | ⟨error, mid, before, after, first, later, all⟩)
    · exact .inl before
    · exact .inr ⟨.error error, mid, before, after, first, later, all⟩

theorem reaches_andFinally :
    Reaches d (p.andFinally last) s events t ↔
      Reaches d p s events t ∨ ∃ result mid before after, Ends d p s before result mid ∧
        Reaches d last mid after t ∧ events = before ++ after := by
  refine reaches_andThen.trans (or_congr_right ?_)
  refine exists_congr fun result => exists_congr fun mid => exists_congr fun before => ?_
  refine exists_congr fun after => and_congr_right fun _ => and_congr_left fun _ => ?_
  refine reaches_bind.trans ⟨?_, .inl⟩
  rintro (reaches | ⟨_, _, during, after, ends, later, rfl⟩)
  · exact reaches
  · have ⟨quiet, there⟩ := reaches_ofExcept.mp later
    rw [quiet, List.append_nil, there]
    exact reaches_of_ends ends

theorem reaches_follow (p : Program σ ω ε α) (s : σ) (told : List Bool) :
    Reaches d p s (p.follow d s told).1 (p.follow d s told).2.1 := by
  induction p generalizing s told with
  | done value => exact .here
  | raise error => exact .here
  | look next unread ih => exact .look (ih s s told)
  | op o next failed ih ih' =>
    cases told with
    | nil => exact .here
    | cons done told =>
      cases done with
      | true =>
        rw [Program.follow]
        split
        · rename_i legal
          exact .did legal (ih _ told)
        · exact .here
      | false => exact .failed (.inl rfl) (ih' s told)

theorem follow_calm {told : List Bool} (all : ∀ done ∈ told, done = true) (o : ω) :
    .failed o ∉ (p.follow d s told).1 := by
  induction p generalizing s told with
  | done value => exact List.not_mem_nil
  | raise error => exact List.not_mem_nil
  | look next unread ih => exact ih s all
  | op o' next failed ih ih' =>
    cases told with
    | nil => exact List.not_mem_nil
    | cons done told =>
      have ⟨same, all'⟩ := List.forall_mem_cons.mp all
      subst same
      rw [Program.follow]
      split
      · intro failed
        rcases List.mem_cons.mp failed with same | later
        · exact nomatch same
        · exact ih all' later
      · exact List.not_mem_nil

theorem ends_follow {told : List Bool} (result : (p.follow d s told).2.2 = some r) :
    Ends d p s (p.follow d s told).1 r (p.follow d s told).2.1 := by
  induction p generalizing s told with
  | done value =>
    cases result
    exact .done
  | raise error =>
    cases result
    exact .raise
  | look next unread ih => exact .look (ih s result)
  | op o next failed ih ih' =>
    cases told with
    | nil => exact nomatch result
    | cons done told =>
      cases done with
      | true =>
        rw [Program.follow] at result ⊢
        split at result
        · rename_i legal
          rw [if_pos legal]
          exact .did legal (ih result)
        · exact nomatch result
      | false => exact .failed (.inl rfl) (ih' result)

theorem carryOut_andThen (p : Program σ ω ε α) (k : Except ε α → Program σ ω ε β) (s : σ) :
    (p.andThen k).carryOut d s = (k (p.carryOut d s).1).carryOut d (p.carryOut d s).2 := by
  induction p generalizing s with
  | done value => rfl
  | raise error => rfl
  | look next unread ih => exact ih s s
  | op o next failed ih ih' =>
    rw [andThen, carryOut, carryOut]
    split
    · exact ih _
    · exact ih' s

theorem carryOut_bind_ok (first : p.carryOut d s = (.ok value, t)) :
    (p >>= f).carryOut d s = (f value).carryOut d t := by
  refine (carryOut_andThen p _ s).trans ?_
  rw [first]

theorem carryOut_bind_error (first : p.carryOut d s = (.error error, t)) :
    (p >>= f).carryOut d s = (.error error, t) := by
  refine (carryOut_andThen p _ s).trans ?_
  rw [first]
  rfl

theorem carryOut_reading : (reading error read).carryOut d s = (read s, s) := by
  rw [reading, carryOut]
  cases read s <;> rfl

theorem carryOut_performing (legal : d.legal s o = true) :
    (performing error o).carryOut d s = (.ok (), d.apply s o) := by
  rw [performing, carryOut, if_pos legal]
  rfl

theorem carryOut_andFinally {u : σ} (first : p.carryOut d s = (r, t))
    (after : last.carryOut d t = (.ok (), u)) :
    (p.andFinally last).carryOut d s = (r, u) := by
  refine (carryOut_andThen p _ s).trans ?_
  rw [first]
  refine (carryOut_bind_ok after).trans ?_
  cases r <;> rfl

section Uses

variable {allowed : ω → Prop}

theorem uses_andThen {k : Except ε α → Program σ ω ε β} (first : p.Uses allowed)
    (rest : ∀ result, (k result).Uses allowed) : (p.andThen k).Uses allowed := by
  induction p with
  | done value => exact rest _
  | raise error => exact rest _
  | look next unread ih ih' => exact ⟨fun s => ih s (first.1 s), ih' first.2⟩
  | op o next failed ih ih' => exact ⟨first.1, ih first.2.1, ih' first.2.2⟩

theorem uses_bind (first : p.Uses allowed) (rest : ∀ value, (f value).Uses allowed) :
    (p >>= f).Uses allowed := by
  refine uses_andThen first fun result => ?_
  cases result with
  | ok value => exact rest value
  | error error => trivial

theorem uses_ofExcept (result : Except ε α) :
    (Program.ofExcept result : Program σ ω ε α).Uses allowed := by
  cases result <;> trivial

theorem uses_reading {error : ε} {read : σ → Except ε α} :
    (reading error read : Program σ ω ε α).Uses allowed :=
  ⟨fun s => uses_ofExcept (read s), trivial⟩

theorem uses_performing {error : ε} {o : ω} (permitted : allowed o) :
    (performing error o : Program σ ω ε Unit).Uses allowed := ⟨permitted, trivial, trivial⟩

theorem Reaches.invariant {P : σ → Prop} (uses : p.Uses allowed)
    (whole : ∀ o, allowed o → ∀ s, d.legal s o = true → P s → P (d.apply s o))
    (torn : ∀ o, allowed o → ∀ s t, d.torn s o t → P s → P t)
    (reaches : Reaches d p s events t) (start : P s) :
    P t ∧ ∀ o, .did o ∈ events → allowed o := by
  induction reaches with
  | here => exact ⟨start, nofun⟩
  | look _ ih => exact ih (uses.1 _) start
  | unread _ ih =>
    have ⟨there, each⟩ := ih uses.2 start
    exact ⟨there, fun o did => each o (by simpa using did)⟩
  | did legal _ ih =>
    have ⟨there, each⟩ := ih uses.2.1 (whole _ uses.1 _ legal start)
    refine ⟨there, fun o did => ?_⟩
    rcases List.mem_cons.mp did with same | later
    · rw [Event.did.inj same]
      exact uses.1
    · exact each o later
  | failed left _ ih =>
    have kept : P _ := left.elim (fun same => same ▸ start) fun torn' => torn _ uses.1 _ _ torn' start
    have ⟨there, each⟩ := ih uses.2.2 kept
    exact ⟨there, fun o did => each o (by simpa using did)⟩
  | cut left => exact ⟨torn _ uses.1 _ _ left start, fun o did => by simp at did⟩

end Uses

end AutoTrade.Faults
