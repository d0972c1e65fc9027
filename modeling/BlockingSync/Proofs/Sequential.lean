/-
A queue as a plain list.

What an operation on a queue says, and what it does, is told here without locks and
waiting: `effect` is what it does to the list of values, and `Agrees` whether its result
is true of that list.  A history is legal if every result agrees with the list that the
operations before it have left.
-/
import BlockingSync.Machine.Perform

namespace BlockingSync

variable {α : Type}

/-- What an operation does to the values, judged by its result. -/
def Verb.effect : Verb α → Result α → List α → List α
  | .push v, .done, vs => vs ++ [v]
  | .pop, .taken _, vs | .shift, .taken _, vs | .popWith _, .taken _, vs => vs.tail
  | .clear, .done, _ => []
  | _, _, vs => vs

/-- The value that an operation added. -/
def Verb.added? : Verb α → Result α → Option α
  | .push v, .done => some v
  | _, _ => none

/-- The value that an operation took. -/
def Verb.taken? : Verb α → Result α → Option α
  | .pop, .taken v | .shift, .taken v | .popWith _, .taken v => some v
  | _, _ => none

/-- Whether a result is right for an operation on these values.  It is the result of an operation
that has found the queue: that a name means nothing is right of no values. -/
def Verb.Agrees : Verb α → Result α → List α → Prop
  | .push _, .done, _ | .clear, .done, _ => True
  | .pop, .taken v, vs | .shift, .taken v, vs | .popWith _, .taken v, vs => vs.head? = some v
  | .popWith nonBlocking, .failed e, vs => nonBlocking = true ∧ e = .emptyQueue ∧ vs = []
  | .isEmpty, .flag b, vs => b = vs.isEmpty
  | .length, .count n, vs | .size, .count n, vs => n = vs.length
  | .values, .contents ws, vs => ws = vs
  | .snapshot, .record r, vs => r.values = vs
  | .setCapacity _, .ok, _ | .setCapacity _, .failed _, _ => True
  | .capacity, .count _, _ | .numWaiting, .count _, _ => True
  | .audit, .ok, _ | .audit, .leaked _, _ | .debug, .text _, _ => True
  | verb, .badOperation, _ => Machine.transaction? verb = none
  | _, _, _ => False

/-- No operation on a queue is given up by a panic. -/
theorem Verb.Agrees.ne_panicked {verb : Verb α} {r : Result α} {vs : List α} (h : verb.Agrees r vs)
    (message : String) : r ≠ .panicked message := by
  rintro rfl
  cases verb <;> exact h

/-- An operation that has found the queue does not say that there is none. -/
theorem Verb.Agrees.ne_noSuchObject {verb : Verb α} {r : Result α} {vs : List α}
    (h : verb.Agrees r vs) : r ≠ .noSuchObject := by
  rintro rfl
  cases verb <;> exact h

/-- An operation adds a value, takes the first one, drops all, or leaves the values alone. -/
theorem Verb.effect_cases {verb : Verb α} {r : Result α} {vs : List α} (h : verb.Agrees r vs) :
    (∃ v, verb.added? r = some v ∧ verb.taken? r = none ∧ verb.effect r vs = vs ++ [v]) ∨
      (∃ v, verb.added? r = none ∧ verb.taken? r = some v ∧ vs = v :: verb.effect r vs) ∨
      (verb = .clear ∧ r = .done) ∨
      (verb.added? r = none ∧ verb.taken? r = none ∧ verb.effect r vs = vs) := by
  have taken : ∀ v, vs.head? = some v → vs = v :: vs.tail := by
    intro v hv
    obtain ⟨rest, rfl⟩ := List.head?_eq_some_iff.1 hv
    rfl
  cases verb with
  | push v =>
      cases r with
      | done => exact .inl ⟨v, rfl, rfl, rfl⟩
      | _ => exact .inr (.inr (.inr ⟨rfl, rfl, rfl⟩))
  | pop | shift | popWith nonBlocking =>
      cases r with
      | taken v => exact .inr (.inl ⟨v, rfl, rfl, taken v h⟩)
      | _ => exact .inr (.inr (.inr ⟨rfl, rfl, rfl⟩))
  | clear =>
      cases r with
      | done => exact .inr (.inr (.inl ⟨rfl, rfl⟩))
      | _ => exact .inr (.inr (.inr ⟨rfl, rfl, rfl⟩))
  | _ => exact .inr (.inr (.inr ⟨rfl, rfl, rfl⟩))

/-- Operations with their results, in order. -/
abbrev Calls (α : Type) : Type := List (Verb α × Result α)

namespace Calls

/-- The values that operations leave. -/
def outcome (vs : List α) (calls : Calls α) : List α :=
  calls.foldl (fun vs (verb, r) => verb.effect r vs) vs

/-- Whether every result is right when it is given. -/
def Legal : List α → Calls α → Prop
  | _, [] => True
  | vs, (verb, r) :: calls => verb.Agrees r vs ∧ Legal (verb.effect r vs) calls

@[simp] theorem outcome_append (vs : List α) (calls calls' : Calls α) :
    outcome vs (calls ++ calls') = outcome (outcome vs calls) calls' := by
  simp [outcome]

theorem legal_append (vs : List α) (calls calls' : Calls α) :
    Legal vs (calls ++ calls') ↔ Legal vs calls ∧ Legal (outcome vs calls) calls' := by
  induction calls generalizing vs with
  | nil => simp [Legal, outcome]
  | cons call calls ih =>
      obtain ⟨verb, r⟩ := call
      simp only [List.cons_append, Legal, ih, and_assoc]
      rfl

/-- One more operation. -/
theorem legal_snoc {vs : List α} {calls : Calls α} {verb : Verb α} {r : Result α}
    (h : Legal vs calls) (hr : verb.Agrees r (outcome vs calls)) :
    Legal vs (calls ++ [(verb, r)]) :=
  (legal_append vs calls _).2 ⟨h, hr, trivial⟩

/-- What one step of a machine can do to the values of a queue and to its history: nothing, or one
operation with a right result. -/
inductive Advances (vs : List α) (calls : Calls α) : List α → Calls α → Prop
  | same : Advances vs calls vs calls
  | call {verb r} (h : verb.Agrees r vs) :
      Advances vs calls (verb.effect r vs) (calls ++ [(verb, r)])

/-- What adds nothing. -/
theorem Advances.silent {vs : List α} {calls new : Calls α} (h : new = []) :
    Advances vs calls vs (calls ++ new) := by
  rw [h, List.append_nil]
  exact .same

theorem Advances.behind {vs vs' : List α} {calls calls' : Calls α}
    (h : Advances vs calls vs' calls') (before : Calls α) :
    Advances vs (before ++ calls) vs' (before ++ calls') := by
  cases h with
  | same => exact .same
  | call hr =>
      rw [← List.append_assoc]
      exact .call hr

theorem Advances.mem {vs vs' : List α} {calls calls' : Calls α} (h : Advances vs calls vs' calls')
    {call : Verb α × Result α} (hmem : call ∈ calls) : call ∈ calls' := by
  cases h with
  | same => exact hmem
  | call => exact List.mem_append_left _ hmem

/-- A history that is legal and has led to these values. -/
def Records (start : List α) (calls : Calls α) (vs : List α) : Prop :=
  Legal start calls ∧ vs = outcome start calls

theorem Records.advance {start vs vs' : List α} {calls calls' : Calls α}
    (h : Records start calls vs) (hstep : Advances vs calls vs' calls') :
    Records start calls' vs' := by
  obtain ⟨hlegal, rfl⟩ := h
  cases hstep with
  | same => exact ⟨hlegal, rfl⟩
  | call hr => exact ⟨legal_snoc hlegal hr, by rw [outcome_append]; rfl⟩

/-- The values that were added, in order. -/
def added (calls : Calls α) : List α := calls.filterMap fun (verb, r) => verb.added? r

/-- The values that were taken, in order. -/
def taken (calls : Calls α) : List α := calls.filterMap fun (verb, r) => verb.taken? r

theorem added_cons (verb : Verb α) (r : Result α) (calls : Calls α) :
    added ((verb, r) :: calls) = (verb.added? r).toList ++ added calls := by
  unfold added
  cases h : verb.added? r <;> simp [h]

theorem taken_cons (verb : Verb α) (r : Result α) (calls : Calls α) :
    taken ((verb, r) :: calls) = (verb.taken? r).toList ++ taken calls := by
  unfold taken
  cases h : verb.taken? r <;> simp [h]

/-- **Values come out in the order in which they went in, and none gets lost.**  Only `clear` drops
values. -/
theorem taken_append_outcome {vs : List α} {calls : Calls α} (h : Legal vs calls)
    (hclear : (.clear, .done) ∉ calls) : calls.taken ++ outcome vs calls = vs ++ calls.added := by
  induction calls generalizing vs with
  | nil => simp [taken, added, outcome]
  | cons call calls ih =>
      obtain ⟨verb, r⟩ := call
      obtain ⟨hr, hrest⟩ := h
      rw [List.mem_cons, not_or] at hclear
      have ih := ih hrest hclear.2
      have houtcome : outcome vs ((verb, r) :: calls) = outcome (verb.effect r vs) calls := rfl
      rw [houtcome, added_cons, taken_cons, List.append_assoc, ih]
      rcases Verb.effect_cases hr with ⟨v, ha, ht, he⟩ | ⟨v, ha, ht, he⟩ | ⟨rfl, rfl⟩ | ⟨ha, ht, he⟩
      · simp [ha, ht, he]
      · rw [ha, ht]
        conv => rhs; rw [he]
        rfl
      · exact absurd rfl hclear.1
      · simp [ha, ht, he]

end Calls

end BlockingSync
