/-
Storage settings do not show.

Whether a list keeps the cells it has freed decides how many free cells it has, and nothing
else; how many it sets aside when it is made decides nothing at all.  A wait list by itself
has the entries of a plain list, whatever its settings.  In a scenario the lists are parts of
mutexes, condition variables and queues; there the same scenario with other settings runs
alongside, tick by tick, and that their lists have the same entries is all that it takes for
the two to do the same.  Only tasks that ask a list of tasks for its free cells get different
answers.
-/
import BlockingSync.Proofs.Abreast
import BlockingSync.Proofs.Storage

namespace BlockingSync

/-! ### Settings -/

/-- The source of a queue with other storage settings.  Where a queue is made with the usual ones,
they are given; a bound of zero is refused in any case, and a text is restored as it is. -/
def QueueSource.reconfigure (config : Config) : QueueSource → QueueSource
  | .configured capacity _ => .configured capacity config
  | .bounded capacity => if capacity.val = 0 then .bounded capacity else .configured capacity config
  | .unbounded => .configured (.wrap 0) config
  | .restored text => .restored text

/-- The object to be made, with other storage settings if it takes any. -/
def Spec.reconfigure (config : Config) : Spec → Spec
  | .mutex _ => .mutex config
  | .condition _ => .condition config
  | .queue source => .queue (source.reconfigure config)
  | .tasks _ => .tasks config
  | spec => spec

/-- The outcome with the numbers of free cells passed over.  Which results these are can be told
from the lists that are given in the steps. -/
def Outcome.withoutPooled (given : Nat → List (Op Json)) (o : Outcome) : Outcome :=
  { o with reports := o.reports.map (Report.seen (.sparing given)) }

namespace Scenario

/-- The scenario with other storage settings for the objects at the places where there are any. -/
def reconfigure (s : Scenario) (change : Nat → Option Config) : Scenario :=
  { s with
    objects := s.objects.mapIdx fun i entry =>
      (entry.1, (change i).elim entry.2 fun config => entry.2.reconfigure config) }

end Scenario

theorem QueueSource.open_reconfigure (config : Config) (source : QueueSource) :
    (source.reconfigure config).open.map Prod.fst = source.open.map Prod.fst := by
  cases source with
  | restored text => rfl
  | configured capacity old => rfl
  | unbounded => rfl
  | bounded capacity =>
      obtain ⟨n, hn⟩ := capacity
      cases n with
      | zero => rfl
      | succ n => rfl

/-- An object with other settings may stand for the object. -/
theorem Spec.alike_reconfigure (given : Nat → List (Op Json)) (config : Config) (spec : Spec) :
    Spec.Alike (.sparing given) (· = .plain) spec (spec.reconfigure config) := by
  cases spec with
  | mutex old => exact .mutex old config .plain rfl
  | condition old => exact .condition old config
  | queue source => exact .queue (source.open_reconfigure config)
  | tasks old => exact .tasks fun hfull => by cases hfull
  | _ => exact .refl (by rfl) _

/-! ### Wait lists -/

/-- A script yields the same for all settings of the list. -/
theorem WaitList.run_withoutPooled {α : Type} (render : α → String) (config config' : Config)
    (steps : List (Step α)) :
    (run render (.empty config') steps).map (fun r => (r.1, r.2.withoutPooled)) =
      (run render (.empty config) steps).map (fun r => (r.1, r.2.withoutPooled)) := by
  rw [run_eq, run_eq, toList_empty, toList_empty]

/-! ### Scenarios -/

namespace Scenario

open Machine

/-- Where all mutexes show themselves, no operation can give one away. -/
theorem heeds_plain (op : Op Json) : op.heeds (fun _ => .plain) = true := by
  cases op <;> rfl

theorem gives_given (s : Scenario) (i : Nat) (task : String) (ops : List (Op Json))
    (h : s.steps[i]? = some (task, .run ops)) : (Scrutiny.sparing s.given).Gives (0 + i) ops := by
  show s.given (0 + i) = ops
  rw [Nat.zero_add, given, h]
  rfl

/-- The machines at the start are alike, and the same objects could not be made. -/
theorem start_reconfigure (s : Scenario) (change : Nat → Option Config) :
    Alike (fun _ => .plain) s.start.1 (s.reconfigure change).start.1 (.sparing s.given) ∧
      (s.reconfigure change).start.2 = s.start.2 := by
  have hspec : ∀ i spec, Spec.Alike (.sparing s.given) (· = .plain) spec
      ((change i).elim spec fun config => spec.reconfigure config) := by
    intro i spec
    cases change i with
    | none => exact .refl (by rfl) spec
    | some config => exact spec.alike_reconfigure s.given config
  have horigin : Twins (fun _ => .plain) (Machine.ofTasks s.tasks : Machine Json)
      (Machine.ofTasks s.tasks) (.sparing s.given) := .ofTasks s.tasks
  obtain ⟨g, hplain, htwins, hfailures⟩ := horigin.makeAlike (fun _ => by rfl) s.objects hspec
  obtain rfl : g = fun _ => .plain := funext hplain
  exact ⟨htwins.alike, hfailures⟩

/-- A scenario with other storage settings has the same outcome, but for the numbers of free
cells. -/
theorem play_reconfigure (s : Scenario) (change : Nat → Option Config) :
    (s.reconfigure change).play.withoutPooled s.given = s.play.withoutPooled s.given := by
  obtain ⟨halike, hfailures⟩ := s.start_reconfigure change
  have habreast : Abreast (fun _ => .plain) (fun _ => .plain) s.start.1
      (s.reconfigure change).start.1 (.sparing s.given) :=
    ⟨halike, s.planned_start, fun _ _ _ => rfl⟩
  have heeds : s.allOps (Op.heeds fun _ => .plain) = true := allOps_of_forall heeds_plain
  have hown : alwaysFrom (fun M => !M.intrudes fun _ => .plain) s.start.1 0 s.steps = true :=
    alwaysFrom_of_forall (fun M => by rw [intrudes_of_never (by simp)]; rfl) 0 s.steps
  have hreports := performFrom_seen habreast heeds s.gives_given hown
  unfold play Outcome.withoutPooled
  simp only [hfailures, halike.handleNames]
  exact congrArg (Outcome.mk _ · _) hreports

/-- Where nobody asks for free cells, nothing is passed over. -/
theorem passesOver_of_none {s : Scenario} (h : s.allOps (fun op => !op.countsCells) = true)
    (step : Nat) (path : Path) : (Scrutiny.sparing s.given).passesOver step path = false := by
  show (Op.find? (s.given step) path).any Op.countsCells = false
  cases hop : Op.find? (s.given step) path with
  | none => rfl
  | some op => simpa using Op.all_of_find? (allIn_given h step) hop

/-- A scenario in which nobody asks for free cells has the very same outcome. -/
theorem play_reconfigure_of_none {s : Scenario}
    (h : s.allOps (fun op => !op.countsCells) = true) (change : Nat → Option Config) :
    (s.reconfigure change).play = s.play := by
  have hseen : Report.seen (.sparing s.given) = id :=
    funext (Report.seen_eq (passesOver_of_none h))
  simpa only [Outcome.withoutPooled, hseen, List.map_id] using s.play_reconfigure change

end Scenario

/-- **Storage settings do not show.**  A script for a wait list yields the same for all settings
of the list, and a scenario has the same outcome for all settings of its objects: the same
results, lines of the log in the same order, states of tasks and views of objects.  All that
differs is how many free cells a list has, for those who ask. -/
theorem storage_does_not_show :
    (∀ {α : Type} (render : α → String) (config config' : Config) (steps : List (WaitList.Step α)),
      (WaitList.run render (.empty config') steps).map (fun r => (r.1, r.2.withoutPooled)) =
        (WaitList.run render (.empty config) steps).map fun r => (r.1, r.2.withoutPooled)) ∧
    ∀ (s : Scenario) (change : Nat → Option Config),
      (s.reconfigure change).play.withoutPooled s.given = s.play.withoutPooled s.given :=
  ⟨WaitList.run_withoutPooled, Scenario.play_reconfigure⟩

end BlockingSync
