/-
What a scenario uses, and under which names.

Some properties hold only while certain operations keep away from certain objects.  That is
a question about the operations of all lists, those in bodies included, and about the
objects that their names mean at the start.  A mutex has one name at most, so whatever
is not done under that name is not done to it.
-/
import BlockingSync.Proofs.Reach

namespace BlockingSync

variable {α : Type}

/-! ### Operations -/

mutual

/-- Whether an operation and all operations in its body have a property. -/
def Op.all (p : Op α → Bool) : Op α → Bool
  | .synchronize name body => p (.synchronize name body) && Op.allIn p body
  | .guard name body => p (.guard name body) && Op.allIn p body
  | op => p op

/-- The same of all operations of a list. -/
def Op.allIn (p : Op α → Bool) : List (Op α) → Bool
  | [] => true
  | op :: ops => op.all p && Op.allIn p ops

end

theorem Op.all_of_mem {p : Op α → Bool} {ops : List (Op α)} (h : Op.allIn p ops = true) {op : Op α}
    (hop : op ∈ ops) : op.all p = true := by
  induction ops with
  | nil => simp at hop
  | cons first ops ih =>
      simp only [Op.allIn, Bool.and_eq_true] at h
      rcases List.mem_cons.1 hop with rfl | hop
      · exact h.1
      · exact ih h.2 hop

theorem Op.of_all {p : Op α → Bool} {op : Op α} (h : op.all p = true) :
    p op = true ∧ Op.allIn p op.body = true := by
  cases op with
  | synchronize name body | guard name body =>
      simpa only [Op.all, Bool.and_eq_true, Op.body] using h
  | _ => exact ⟨h, rfl⟩

mutual

theorem Op.all_of_forall {p : Op α → Bool} (h : ∀ op, p op = true) : ∀ op : Op α, op.all p = true
  | .synchronize name body | .guard name body => by
      simp only [Op.all, h, Op.allIn_of_forall h body, Bool.and_self]
  | .panic _ | .drop _ | .onTask _ _ | .onObject _ _ => h _

theorem Op.allIn_of_forall {p : Op α → Bool} (h : ∀ op, p op = true) :
    ∀ ops : List (Op α), Op.allIn p ops = true
  | [] => rfl
  | op :: ops => by
      simp only [Op.allIn, Op.all_of_forall h op, Op.allIn_of_forall h ops, Bool.and_self]

end

/-- What holds of all operations holds wherever a path leads. -/
theorem Op.all_of_find? {p : Op α → Bool} {ops : List (Op α)} (h : Op.allIn p ops = true)
    {path : Path} {op : Op α} (hop : Op.find? ops path = some op) : p op = true := by
  induction path generalizing ops with
  | nil => simp [Op.find?] at hop
  | cons i path ih =>
      cases path with
      | nil => exact (Op.of_all (Op.all_of_mem h (List.mem_of_getElem? hop))).1
      | cons j path =>
          simp only [Op.find?, Option.bind_eq_some_iff] at hop
          obtain ⟨outer, hi, hj⟩ := hop
          exact ih (Op.of_all (Op.all_of_mem h (List.mem_of_getElem? hi))).2 hj

namespace Scenario

/-- Whether all operations of a scenario have a property. -/
def allOps (s : Scenario) (p : Op Json → Bool) : Bool :=
  s.steps.all fun (_, order) => (order.ops?.map (Op.allIn p)).getD true

variable {s : Scenario} {p : Op Json → Bool}

theorem allOps_of_forall (h : ∀ op, p op = true) : s.allOps p = true := by
  refine List.all_eq_true.2 fun entry _ => ?_
  obtain ⟨name, order⟩ := entry
  cases order with
  | run ops => exact Op.allIn_of_forall h ops
  | exit => rfl

theorem allIn_given (h : s.allOps p = true) (k : Nat) : Op.allIn p (s.given k) = true := by
  unfold given
  cases hstep : s.steps[k]? with
  | none => rfl
  | some entry =>
      obtain ⟨name, order⟩ := entry
      have horder := List.all_eq_true.1 h (name, order) (List.mem_of_getElem? hstep)
      cases hops : order.ops? with
      | none => simp [hops, Op.allIn]
      | some ops => simpa [hops] using horder

theorem of_allOps (h : s.allOps p = true) {step : Nat} {path : Path} {op : Op Json}
    (hop : s.setting.find? step path = some op) : p op = true :=
  Op.all_of_find? (allIn_given h step) hop

end Scenario

/-! ### Names -/

/-- Whether every mutex has one name at most. -/
def Machine.Singled (M : Machine α) : Prop :=
  ∀ name name' o o' m, M.object? name = some o → M.object? name' = some o' →
    o.mutex? = some m → o'.mutex? = some m → name = name'

namespace Machine

theorem name_of_object?_bind {M : Machine α} {name name' : String} {o o' : Object}
    (h : (M.bind name o).object? name' = some o') :
    M.object? name' = some o' ∨ name' = name ∧ o' = o := by
  by_cases hname : name' = name
  · rcases object?_bind h with hold | hnew
    · exact .inl hold
    · exact .inr ⟨hname, hnew⟩
  · left
    have hne : (name' == name) = false := by simpa using hname
    simpa [bind, object?, List.lookup_append, List.lookup_cons, hne] using h

/-- A name for something that is no mutex, or for a mutex that has none yet. -/
theorem Singled.bind {M : Machine α} (h : M.Singled) (name : String) {o : Object}
    (hnew : ∀ m, o.mutex? = some m → ∀ name' o', M.object? name' = some o' → o'.mutex? ≠ some m) :
    (M.bind name o).Singled := by
  intro name₁ name₂ o₁ o₂ m h₁ h₂ hm₁ hm₂
  rcases name_of_object?_bind h₁ with hold₁ | ⟨rfl, rfl⟩ <;>
    rcases name_of_object?_bind h₂ with hold₂ | ⟨rfl, rfl⟩
  · exact h _ _ _ _ m hold₁ hold₂ hm₁ hm₂
  · exact absurd hm₁ (hnew m hm₂ _ _ hold₁)
  · exact absurd hm₂ (hnew m hm₁ _ _ hold₂)
  · rfl

theorem Singled.bind_other {M : Machine α} (h : M.Singled) (name : String) {o : Object}
    (ho : o.mutex? = none) : (M.bind name o).Singled :=
  h.bind name fun m hm => by simp [ho] at hm

/-- A new mutex has no name yet. -/
theorem Singled.bind_mutex {M : Machine α} (h : M.Singled) (hnew : M.New) (name : String)
    (config : Config) {o : Object} (ho : o.mutex? = some M.mutexes.size) :
    ((M.addMutex config).1.bind name o).Singled := by
  refine Singled.bind (M := (M.addMutex config).1) h name ?_
  intro m hm name' o' ho' hm'
  obtain rfl := Option.some.inj (ho.symm.trans hm)
  exact Nat.lt_irrefl _ (hnew.numbered.named_mutex name' o' _ ho' hm')

theorem Singled.make {M M' : Machine Json} (h : M.Singled) (hnew : M.New) {name : String}
    {spec : Spec} (hmake : M.make name spec = .ok M') : M'.Singled := by
  cases spec with
  | queue source =>
      simp only [Machine.make] at hmake
      cases hopen : source.open with
      | error e => simp [hopen, Functor.map, Except.map] at hmake
      | ok start =>
          simp only [hopen] at hmake
          obtain rfl := Except.ok.inj hmake
          exact Singled.bind_other (M := (M.addQueue start.2 start.1).1) h name rfl
  | mutex config =>
      obtain rfl := Except.ok.inj hmake
      exact h.bind_mutex hnew name config rfl
  | wrapped | minimal =>
      obtain rfl := Except.ok.inj hmake
      exact h.bind_mutex hnew name {} rfl
  | condition config =>
      obtain rfl := Except.ok.inj hmake
      exact Singled.bind_other (M := (M.addCondition config).1) h name rfl
  | adapter =>
      obtain rfl := Except.ok.inj hmake
      exact Singled.bind_other (M := M.addRawLock.1) h name rfl
  | task =>
      obtain rfl := Except.ok.inj hmake
      exact Singled.bind_other (M := (M.addHandle name).1) h name rfl
  | tasks config =>
      obtain rfl := Except.ok.inj hmake
      exact Singled.bind_other (M := (M.addTaskList config).1) h name rfl

theorem Singled.makeAll {M : Machine Json} (h : M.Singled) (hnew : M.New)
    (specs : List (String × Spec)) : (M.makeAll specs).1.Singled := by
  induction specs generalizing M with
  | nil => exact h
  | cons entry specs ih =>
      obtain ⟨name, spec⟩ := entry
      unfold Machine.makeAll
      split
      · rename_i M' hmake
        exact ih (h.make hnew hmake) (hnew.make hmake)
      · exact ih h hnew

end Machine

/-- **Before the first step every mutex has one name at most.** -/
theorem Scenario.start_singled (s : Scenario) : s.start.1.Singled := by
  have hnone : (Machine.ofTasks s.tasks : Machine Json).Singled := by
    intro name name' o o' m h
    simp [Machine.ofTasks, Machine.object?] at h
  exact hnone.makeAll (.ofTasks s.tasks) s.objects

end BlockingSync
