/-
Replacing mutexes by wrapped ones.

A wait has two ways to release its lock: at one stroke, if the lock shows itself as a
mutex, and through the interface of locks, if it does not.  Whoever uses a mutex as a mere
lock cannot tell the two apart: the scenario in which the mutex is wrapped has the same
outcome, down to every line of the log.  A minimal lock does as well, unless a task waits
with it that does not hold it while another task does; the minimal lock then lets the wait
release what is not its own.
-/
import BlockingSync.Proofs.Abreast

namespace BlockingSync

/-! ### Disguised scenarios -/

/-- The object to be made, with a mutex in a guise. -/
def Spec.veil : Guise → Spec → Spec
  | .wrapped, .mutex _ => .wrapped
  | .minimal, .mutex _ => .minimal
  | _, spec => spec

namespace Scenario

/-- The scenario with mutexes in other guises, one for each place in the list of objects. -/
def disguise (s : Scenario) (d : Nat → Guise) : Scenario :=
  { s with objects := s.objects.mapIdx fun i (name, spec) => (name, spec.veil (d i)) }

/-- The guise of the mutex that a name means. -/
def guiseOf (s : Scenario) (d : Nat → Guise) (name : String) : Guise :=
  match s.start.1.object? name, (s.disguise d).start.1.object? name with
  | some (.mutex _), some (.wrapped _) => .wrapped
  | some (.mutex _), some (.minimal _) => .minimal
  | _, _ => .plain

/-- Whether a property holds before every tick of a scenario. -/
def always (s : Scenario) (p : Machine Json → Bool) : Bool :=
  alwaysFrom p s.start.1 0 s.steps

end Scenario

/-! ### Objects and steps -/

/-- A mutex may be made in any guise. -/
theorem Spec.alike_veil (guise : Guise) (spec : Spec) :
    Spec.Alike .full (fun _ => True) spec (spec.veil guise) := by
  cases spec with
  | mutex config =>
      cases guise with
      | plain => exact .refl trivial _
      | wrapped => exact .mutex config config .wrapped trivial
      | minimal => exact .mutex config config .minimal trivial
  | _ => cases guise <;> exact .refl trivial _

/-- **All objects are made alike, but for the guises of mutexes.** -/
theorem Machine.Twins.makeAll {g : MutexId → Guise} {M M' : Machine Json} (h : Twins g M M')
    (specs : List (String × Spec)) (d : Nat → Guise) :
    ∃ g', Twins g' (M.makeAll specs).1
        (M'.makeAll (specs.mapIdx fun i (name, spec) => (name, spec.veil (d i)))).1 ∧
      (M'.makeAll (specs.mapIdx fun i (name, spec) => (name, spec.veil (d i)))).2 =
        (M.makeAll specs).2 := by
  obtain ⟨g', -, hall⟩ := h.makeAlike (fun _ => trivial) specs fun i => Spec.alike_veil (d i)
  exact ⟨g', hall⟩

namespace Scenario

open Machine

variable {guise : String → Guise} {g : MutexId → Guise} {M M' : Machine Json}

/-- Machines side by side see the same in every step, if nothing is passed over. -/
theorem performFrom_abreast (h : Abreast guise g M M') (index : Nat)
    {steps : List (String × Order)}
    (heeds : (steps.all fun (_, order) =>
      (order.ops?.map (Op.allIn (Op.heeds guise))).getD true) = true)
    (hown : alwaysFrom (fun M => !M.intrudes guise) M index steps = true) :
    performFrom M' index steps = performFrom M index steps := by
  have hseen := performFrom_seen h heeds (fun _ _ _ _ => trivial) hown
  have hfull : Report.seen .full = id := funext (Report.seen_eq fun _ _ => rfl)
  simpa only [hfull, List.map_id] using hseen

variable {s : Scenario} {d : Nat → Guise}

/-- The guises of names are those of the mutexes that they mean. -/
theorem guiseOf_eq {name : String} {m : MutexId} (h : Alike g s.start.1 (s.disguise d).start.1)
    (ho : s.start.1.object? name = some (.mutex m)) : s.guiseOf d name = g m := by
  unfold guiseOf
  rw [h.object?, ho]
  simp only [Option.map_some, Object.veil]
  cases g m <;> rfl

/-- **Whoever uses a mutex as a mere lock cannot tell whether it is wrapped.**  In every scenario
in which some mutexes are used only through the interface of locks, as the locks of waits, and by
being dropped, they may all be replaced by wrapped ones: the outcome is the same.  They may be
replaced by minimal ones as well, if nothing asks those whether another task holds them, and no
task waits with one of those that another task holds. -/
theorem play_disguise (s : Scenario) (d : Nat → Guise)
    (heeds : s.allOps (Op.heeds (s.guiseOf d)) = true)
    (hown : ∀ name, s.guiseOf d name = .minimal →
      s.always (fun M => !M.intrudes (s.guiseOf d)) = true) :
    (s.disguise d).play = s.play := by
  obtain ⟨g, htwins, hfailures⟩ :=
    (Twins.ofTasks (g := fun _ => .plain) s.tasks).makeAll s.objects d
  have halways : s.always (fun M => !M.intrudes (s.guiseOf d)) = true := by
    by_cases hminimal : ∃ name, s.guiseOf d name = .minimal
    · obtain ⟨name, hname⟩ := hminimal
      exact hown name hname
    · refine alwaysFrom_of_forall (fun M => ?_) 0 s.steps
      rw [intrudes_of_never fun name hname => hminimal ⟨name, hname⟩]
      rfl
  have halike : Alike g s.start.1 (s.disguise d).start.1 := htwins.alike
  have habreast : Abreast (s.guiseOf d) g s.start.1 (s.disguise d).start.1 :=
    ⟨halike, planned_start s, fun name m ho => guiseOf_eq halike ho⟩
  have hreports : performFrom (s.disguise d).start.1 0 s.steps = performFrom s.start.1 0 s.steps :=
    performFrom_abreast habreast 0 heeds halways
  have hnames := halike.handleNames
  have hfails : (s.disguise d).start.2 = s.start.2 := hfailures
  unfold play
  simp only [hfails, hnames]
  exact congrArg (Outcome.mk _ · _) hreports

/-- A task waits with a lock; another, once it holds that lock, releases it in a panic, and
signals. -/
def relayed : Scenario where
  tasks := ["a", "b"]
  objects := [("m", .mutex {}), ("n", .mutex {}), ("c", .condition {})]
  steps := [("a", .run [.onObject "m" .acquire, .onObject "n" .acquire, .onObject "c" (.wait "m"),
      .onObject "m" .release, .onObject "n" .release]),
    ("b", .run [.onObject "n" .isHeldByOther, .onObject "c" (.wait "n"),
      .onObject "m" .acquire, .onObject "m" (.exclusiveRelease (some "late")),
      .onObject "c" .signal, .drop "m"])]

/-- The first lock minimal, the second wrapped. -/
def relayedGuise : Nat → Guise
  | 0 => .minimal
  | 1 => .wrapped
  | _ => .plain

theorem play_disguise_relayed : relayed.allOps (Op.heeds (relayed.guiseOf relayedGuise)) = true ∧
    relayed.guiseOf relayedGuise "m" = .minimal ∧
    relayed.always (fun M => !M.intrudes (relayed.guiseOf relayedGuise)) = true ∧
    (relayed.disguise relayedGuise).play = relayed.play :=
  ⟨by decide, by decide, by decide,
    play_disguise relayed relayedGuise (by decide) fun _ _ => by decide⟩

end Scenario

end BlockingSync
