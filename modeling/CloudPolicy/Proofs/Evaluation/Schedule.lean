import CloudPolicy.Proofs.Evaluation.Block
import Mathlib.Data.List.Basic

/-!
Schedules of an evaluation. Each rule is a task that reads the cancellation flag once and then
either is skipped or runs its check to the end; the flag may be raised at any moment and stays
raised. Tasks that run one after the other start only when all tasks before them are done.
-/

set_option autoImplicit false
set_option relaxedAutoImplicit false

namespace CloudPolicy.Evaluation

section

/-- What is evaluated, and whether the tasks may run side by side. -/
structure Plan where
  options : EvaluationOptions
  parallel : Bool
  state : State
  rules : List Rule

inductive Task where
  | waiting
  | running
  | done (block : Block)
  deriving DecidableEq, Repr

/-- The task at a position reads the flag, or ends its check, or the flag is raised. -/
inductive Event where
  | start (i : Nat)
  | finish (i : Nat)
  | cancel
  deriving DecidableEq, Repr

/-- The cancellation flag and the tasks by position. -/
structure Machine where
  cancelled : Bool
  tasks : List Task
  deriving DecidableEq, Repr

def Plan.initial (p : Plan) (cancelled : Bool) : Machine :=
  ⟨cancelled, p.rules.map fun _ => .waiting⟩

/-- Whether the task at a position has its turn. -/
def Plan.MayStart (p : Plan) (m : Machine) (i : Nat) : Prop :=
  p.parallel = true ∨ ∀ j < i, ∃ b, m.tasks[j]? = some (.done b)

/-- One event. A check that asks for cancellation does not end before the flag is raised. -/
inductive Step (p : Plan) : Machine → Event → Machine → Prop where
  | cancel (m : Machine) : Step p m .cancel ⟨true, m.tasks⟩
  | skip {m : Machine} {i : Nat} {rule : Rule} :
      p.rules[i]? = some rule → m.tasks[i]? = some .waiting → p.MayStart m i →
      (p.options.watchesCancellation && m.cancelled) = true →
      Step p m (.start i) ⟨m.cancelled, m.tasks.set i (.done (.skipped rule.longId))⟩
  | run {m : Machine} {i : Nat} {rule : Rule} :
      p.rules[i]? = some rule → m.tasks[i]? = some .waiting → p.MayStart m i →
      (p.options.watchesCancellation && m.cancelled) = false →
      Step p m (.start i) ⟨m.cancelled, m.tasks.set i .running⟩
  | finish {m : Machine} {i : Nat} {rule : Rule} :
      p.rules[i]? = some rule → m.tasks[i]? = some .running →
      ((rule.check p.state).cancels = true → m.cancelled = true) →
      Step p m (.finish i)
        ⟨m.cancelled, m.tasks.set i (.done (.ran (resultsOf p.options p.state rule)))⟩

/-- Several events, the first one first. -/
inductive Run (p : Plan) : Machine → List Event → Machine → Prop where
  | nil (m : Machine) : Run p m [] m
  | cons {m m' m'' : Machine} {e : Event} {es : List Event} :
      Step p m e m' → Run p m' es m'' → Run p m (e :: es) m''

/-- `Outcome p cancelled events e`: the events are a complete schedule and `e` is collected from
it. -/
def Outcome (p : Plan) (cancelled : Bool) (events : List Event) (e : Evaluation) : Prop :=
  ∃ m blocks, Run p (p.initial cancelled) events m ∧ m.tasks = blocks.map .done ∧
    e = ofBlocks blocks

variable {p : Plan} {m m' : Machine} {e : Event} {es : List Event}

private theorem Plan.initial_waiting (cancelled : Bool) {i : Nat} (inside : i < p.rules.length) :
    (p.initial cancelled).tasks[i]? = some .waiting := by
  simp [Plan.initial, inside]

private theorem Plan.length_initial (cancelled : Bool) :
    (p.initial cancelled).tasks.length = p.rules.length := by
  simp [Plan.initial]

theorem Run.append {es' : List Event} {m'' : Machine} (first : Run p m es m')
    (second : Run p m' es' m'') : Run p m (es ++ es') m'' := by
  induction first with
  | nil _ => exact second
  | cons step _ ih => exact .cons step (ih second)

theorem Run.split {es' : List Event} {m'' : Machine} (run : Run p m (es ++ es') m'') :
    ∃ m', Run p m es m' ∧ Run p m' es' m'' := by
  induction es generalizing m with
  | nil => exact ⟨m, .nil m, run⟩
  | cons e es ih =>
    cases run with
    | cons step rest =>
      obtain ⟨m', first, second⟩ := ih rest
      exact ⟨m', .cons step first, second⟩

/-! ### What the events do to the flag and to one task -/

private theorem getElem?_set_there {tasks : List Task} {i : Nat} {task : Task} (task' : Task)
    (here : tasks[i]? = some task) : (tasks.set i task')[i]? = some task' :=
  List.getElem?_set_self (List.getElem?_eq_some_iff.mp here).1

private theorem Step.length_tasks (step : Step p m e m') : m'.tasks.length = m.tasks.length := by
  cases step <;> simp

private theorem Run.length_tasks (run : Run p m es m') : m'.tasks.length = m.tasks.length := by
  induction run with
  | nil _ => rfl
  | cons step _ ih => exact ih.trans step.length_tasks

theorem Step.cancelled (step : Step p m e m') : m'.cancelled = (m.cancelled || e == .cancel) := by
  cases step <;> simp

theorem Run.cancelled (run : Run p m es m') :
    m'.cancelled = (m.cancelled || es.contains .cancel) := by
  induction run with
  | nil _ => simp
  | cons step _ ih => rw [ih, step.cancelled, List.contains_cons, Bool.or_assoc, Bool.beq_comm]

private theorem Step.tasks_of_ne {i : Nat} (step : Step p m e m') (start : e ≠ .start i)
    (finish : e ≠ .finish i) : m'.tasks[i]? = m.tasks[i]? := by
  cases step with
  | cancel => rfl
  | skip | run => exact List.getElem?_set_ne fun h => start (congrArg Event.start h)
  | finish => exact List.getElem?_set_ne fun h => finish (congrArg Event.finish h)

private theorem Step.waiting_of_start {i : Nat} (step : Step p m (.start i) m') :
    m.tasks[i]? = some .waiting := by
  cases step <;> assumption

private theorem Step.running_of_finish {i : Nat} (step : Step p m (.finish i) m') :
    m.tasks[i]? = some .running := by
  cases step
  assumption

private theorem Step.mayStart {i : Nat} (step : Step p m (.start i) m') : p.MayStart m i := by
  cases step <;> assumption

theorem Run.done {i : Nat} {b : Block} (run : Run p m es m')
    (done : m.tasks[i]? = some (.done b)) : m'.tasks[i]? = some (.done b) := by
  induction run with
  | nil _ => exact done
  | cons step _ ih =>
    refine ih ((step.tasks_of_ne (fun h => ?_) fun h => ?_).trans done)
    · subst h
      simp [step.waiting_of_start] at done
    · subst h
      simp [step.running_of_finish] at done

private theorem Run.done_unique {i : Nat} {b b' : Block} (run : Run p m es m')
    (before : m.tasks[i]? = some (.done b)) (done : m'.tasks[i]? = some (.done b')) : b' = b :=
  (Task.done.inj (Option.some.inj ((run.done before).symm.trans done))).symm

private theorem Run.ran_of_running {i : Nat} {rule : Rule} {b : Block} (run : Run p m es m')
    (position : p.rules[i]? = some rule) (running : m.tasks[i]? = some .running)
    (done : m'.tasks[i]? = some (.done b)) : b = .ran (resultsOf p.options p.state rule) := by
  induction run with
  | nil _ => simp [running] at done
  | @cons m m₁ m' e es step rest ih =>
    by_cases ends : e = .finish i
    · subst ends
      cases step with
      | finish position' =>
        obtain rfl := Option.some.inj (position.symm.trans position')
        exact rest.done_unique (getElem?_set_there _ running) done
    · refine ih ((step.tasks_of_ne (fun h => ?_) ends).trans running) done
      subst h
      simp [step.waiting_of_start] at running

private theorem Run.start_of_waiting {i : Nat} (run : Run p m es m')
    (waiting : m.tasks[i]? = some .waiting) (left : m'.tasks[i]? ≠ some .waiting) :
    .start i ∈ es := by
  induction run with
  | nil _ => exact absurd waiting left
  | @cons m m₁ m' e es step rest ih =>
    by_cases starts : e = .start i
    · exact starts ▸ List.mem_cons_self
    · refine List.mem_cons_of_mem e (ih ((step.tasks_of_ne starts fun h => ?_).trans waiting) left)
      subst h
      simp [step.running_of_finish] at waiting

private theorem Step.waiting_back {i : Nat} (step : Step p m e m')
    (waiting : m'.tasks[i]? = some .waiting) : m.tasks[i]? = some .waiting := by
  by_cases starts : e = .start i
  · exact (starts ▸ step).waiting_of_start
  by_cases ends : e = .finish i
  · subst ends
    cases step with
    | finish _ running =>
      simp [getElem?_set_there _ running] at waiting
  · rwa [step.tasks_of_ne starts ends] at waiting

private theorem Run.start_not_mem {i : Nat} (run : Run p m es m')
    (started : m.tasks[i]? ≠ some .waiting) : .start i ∉ es := by
  induction run with
  | nil _ => exact List.not_mem_nil
  | @cons m m₁ m' e es step rest ih =>
    intro member
    rcases List.mem_cons.mp member with rfl | later
    · exact started step.waiting_of_start
    · exact ih (fun waiting => started (step.waiting_back waiting)) later

theorem Step.started {i : Nat} (step : Step p m (.start i) m') : m'.tasks[i]? ≠ some .waiting := by
  cases step with
  | skip _ waiting => simp [getElem?_set_there _ waiting]
  | run _ waiting => simp [getElem?_set_there _ waiting]

theorem Step.lowered {i : Nat} {rule : Rule} {b : Block}
    (step : Step p m e m') (position : p.rules[i]? = some rule) (lowered : m'.cancelled = false)
    (done : m'.tasks[i]? = some (.done b)) :
    m.tasks[i]? = some (.done b) ∨ (rule.check p.state).cancels = false := by
  cases step with
  | cancel => simp at lowered
  | skip _ _ _ raised => simp [show m.cancelled = false from lowered] at raised
  | @run j _ _ waiting =>
    by_cases here : j = i
    · subst here
      simp [getElem?_set_there _ waiting] at done
    · exact .inl (List.getElem?_set_ne here ▸ done)
  | @finish j _ position' _ raises =>
    by_cases here : j = i
    · subst here
      obtain rfl := Option.some.inj (position.symm.trans position')
      exact .inr (by simpa [show m.cancelled = false from lowered] using raises)
    · exact .inl (List.getElem?_set_ne here ▸ done)

theorem Run.lowered {i : Nat} {rule : Rule} {b : Block} (run : Run p m es m')
    (position : p.rules[i]? = some rule) (lowered : m'.cancelled = false)
    (done : m'.tasks[i]? = some (.done b)) :
    m.tasks[i]? = some (.done b) ∨ (rule.check p.state).cancels = false := by
  induction run with
  | nil _ => exact .inl done
  | cons step rest ih =>
    rcases ih lowered done with earlier | quiet
    · have before := rest.cancelled
      rw [lowered] at before
      exact step.lowered position (Bool.or_eq_false_iff.mp before.symm).1 earlier
    · exact .inr quiet

def Plan.block (p : Plan) (rule : Rule) (skip : Bool) : Block :=
  if skip then .skipped rule.longId else .ran (resultsOf p.options p.state rule)

/-- Whether a task is skipped that reads the flag after some events. -/
def Plan.skips (p : Plan) (cancelled : Bool) (before : List Event) : Bool :=
  p.options.watchesCancellation && (cancelled || before.contains .cancel)

/-- The flag at the moment of reading decides a task for good. -/
private theorem Run.done_of_start {i : Nat} {rule : Rule} {before after : List Event} {b : Block}
    (run : Run p m (before ++ .start i :: after) m') (position : p.rules[i]? = some rule)
    (done : m'.tasks[i]? = some (.done b)) : b = p.block rule (p.skips m.cancelled before) := by
  obtain ⟨m₁, first, second⟩ := run.split
  rw [Plan.skips, ← first.cancelled, Plan.block]
  cases second with
  | cons step rest =>
    cases step with
    | skip position' waiting _ raised =>
      obtain rfl := Option.some.inj (position.symm.trans position')
      rw [if_pos raised]
      exact rest.done_unique (getElem?_set_there _ waiting) done
    | run _ waiting _ lowered =>
      rw [lowered]
      exact rest.ran_of_running position (getElem?_set_there _ waiting) done

end

private theorem getElem?_front (done : List Block) (task : Task) (rest : List Task) :
    (done.map Task.done ++ task :: rest)[done.length]? = some task := by
  simp

private theorem set_front (done : List Block) (task : Task) (block : Block) (rest : List Task) :
    (done.map Task.done ++ task :: rest).set done.length (.done block) =
      (done ++ [block]).map .done ++ rest := by
  simp

private theorem mayStart_front (p : Plan) (cancelled : Bool) (done : List Block)
    (rest : List Task) : p.MayStart ⟨cancelled, done.map .done ++ rest⟩ done.length := by
  right
  intro j before
  exact ⟨done[j], by simp [List.getElem?_append_left, before]⟩

theorem Plan.ending (p : Plan) (cancelled : Bool) (done : List Block) (rest : List Task)
    {rule : Rule} (position : p.rules[done.length]? = some rule) :
    ∃ es, Run p ⟨cancelled, done.map .done ++ .running :: rest⟩ es
      ⟨cancelled || (rule.check p.state).cancels,
        (done ++ [p.block rule false]).map .done ++ rest⟩ := by
  rw [← set_front done .running]
  cases asks : (rule.check p.state).cancels with
  | true =>
    rw [Bool.or_true]
    exact ⟨[.cancel, .finish done.length], .cons (.cancel _)
      (.cons (.finish position (getElem?_front done _ rest) fun _ => rfl) (.nil _))⟩
  | false =>
    rw [Bool.or_false]
    refine ⟨[.finish done.length], .cons (.finish position (getElem?_front done _ rest) ?_)
      (.nil _)⟩
    simp [asks]

private theorem Plan.turn (p : Plan) (cancelled : Bool) (done : List Block) (rest : List Task)
    {rule : Rule} (position : p.rules[done.length]? = some rule) :
    ∃ es, Run p ⟨cancelled, done.map .done ++ .waiting :: rest⟩ es
      ⟨if p.options.watchesCancellation && cancelled then cancelled
        else cancelled || (rule.check p.state).cancels,
        (done ++ [p.block rule (p.options.watchesCancellation && cancelled)]).map .done ++
          rest⟩ := by
  have waits := getElem?_front done .waiting rest
  have turn := mayStart_front p cancelled done (.waiting :: rest)
  cases reads : p.options.watchesCancellation && cancelled with
  | true =>
    rw [← set_front done .waiting]
    exact ⟨[.start done.length], .cons (.skip position waits turn reads) (.nil _)⟩
  | false =>
    obtain ⟨es, ends⟩ := p.ending cancelled done rest position
    refine ⟨.start done.length :: es, .cons (.run position waits turn reads) ?_⟩
    simpa [List.set_append] using ends

private theorem drop_eq_cons {rules rest : List Rule} {n : Nat} {rule : Rule}
    (left : rules.drop n = rule :: rest) : rules[n]? = some rule ∧ rules.drop (n + 1) = rest := by
  constructor
  · rw [← List.head?_drop, left]
    rfl
  · rw [← List.tail_drop, left]
    rfl

/-- Taking turns gives the blocks of the sequential evaluation. -/
private theorem Plan.turns (p : Plan) (cancelled : Bool) (done : List Block) {rules : List Rule}
    (left : p.rules.drop done.length = rules) :
    ∃ es, Run p ⟨cancelled, done.map .done ++ rules.map fun _ => .waiting⟩ es
      ⟨(blocks p.options p.state cancelled rules).2,
        (done ++ (blocks p.options p.state cancelled rules).1).map .done⟩ := by
  induction rules generalizing cancelled done with
  | nil => exact ⟨[], by simpa [blocks] using Run.nil _⟩
  | cons rule rules ih =>
    obtain ⟨position, left⟩ := drop_eq_cons left
    obtain ⟨es, first⟩ := p.turn cancelled done (rules.map fun _ => .waiting) position
    obtain ⟨es', rest⟩ := ih
      (if p.options.watchesCancellation && cancelled then cancelled
        else cancelled || (rule.check p.state).cancels)
      (done ++ [p.block rule (p.options.watchesCancellation && cancelled)]) (by simpa using left)
    refine ⟨es ++ es', ?_⟩
    have whole := first.append rest
    cases reads : p.options.watchesCancellation && cancelled with
    | true => simpa [blocks, reads, Plan.block] using whole
    | false => simpa [blocks, reads, Plan.block] using whole

theorem outcome_of_run (p : Plan) (cancelled : Bool) :
    ∃ events, Outcome p cancelled events (run p.options p.state cancelled p.rules).1 := by
  obtain ⟨events, turns⟩ := p.turns cancelled [] rfl
  exact ⟨events, _, _, turns, rfl, rfl⟩

private theorem completable_front (p : Plan) (cancelled : Bool) (done : List Block)
    {rest : List Task} (fits : done.length + rest.length = p.rules.length) :
    ∃ es flag bs, Run p ⟨cancelled, done.map .done ++ rest⟩ es ⟨flag, List.map Task.done bs⟩ := by
  induction rest generalizing cancelled done with
  | nil => exact ⟨[], cancelled, done, by simpa using Run.nil _⟩
  | cons task rest ih =>
    rw [List.length_cons] at fits
    have position : p.rules[done.length]? = some p.rules[done.length] :=
      List.getElem?_eq_getElem (by omega)
    have onward : ∀ {es flag block}, Run p ⟨cancelled, done.map .done ++ task :: rest⟩ es
        ⟨flag, (done ++ [block]).map .done ++ rest⟩ →
        ∃ es flag bs, Run p ⟨cancelled, done.map .done ++ task :: rest⟩ es
          ⟨flag, List.map Task.done bs⟩ := by
      intro es flag block first
      obtain ⟨es', flag', bs, second⟩ := ih flag (done ++ [block]) (by simp; omega)
      exact ⟨es ++ es', flag', bs, first.append second⟩
    cases task with
    | waiting =>
      obtain ⟨es, first⟩ := p.turn cancelled done rest position
      exact onward first
    | running =>
      obtain ⟨es, first⟩ := p.ending cancelled done rest position
      exact onward first
    | done block =>
      have idle : Run p ⟨cancelled, done.map .done ++ .done block :: rest⟩ []
          ⟨cancelled, (done ++ [block]).map .done ++ rest⟩ := by simpa using Run.nil _
      exact onward idle

/-- Every schedule that has begun can be completed. -/
private theorem Run.completable {p : Plan} {cancelled : Bool} {events : List Event} {m : Machine}
    (begun : Run p (p.initial cancelled) events m) :
    ∃ more e, Outcome p cancelled (events ++ more) e := by
  have fits : m.tasks.length = p.rules.length := by simpa [Plan.initial] using begun.length_tasks
  obtain ⟨more, flag, bs, rest⟩ := completable_front p m.cancelled [] (by simpa using fits)
  exact ⟨more, ofBlocks bs, _, bs, begun.append rest, rfl, rfl⟩

variable {p : Plan} {cancelled : Bool} {events : List Event}

/-- The evaluation of rules in which exactly the marked positions are skipped. -/
def marked (suppressor : Option Suppressor) (state : State) (rules : List Rule)
    (skips : List Bool) : Evaluation :=
  ⟨((rules.zip skips).filter fun q => !q.2).flatMap fun q => alone suppressor state q.1,
    ((rules.zip skips).filter fun q => q.2).map fun q => q.1.longId⟩

section Marked

variable (suppressor : Option Suppressor) (state : State) (rule : Rule) (rules : List Rule)
  (skips : List Bool)

theorem marked_skip : marked suppressor state (rule :: rules) (true :: skips) =
    ⟨(marked suppressor state rules skips).results,
      rule.longId :: (marked suppressor state rules skips).notRun⟩ := rfl

theorem marked_run : marked suppressor state (rule :: rules) (false :: skips) =
    ⟨alone suppressor state rule ++ (marked suppressor state rules skips).results,
      (marked suppressor state rules skips).notRun⟩ := rfl

private theorem marked_all :
    marked suppressor state rules (.replicate rules.length true) = ⟨[], rules.map Rule.longId⟩ := by
  induction rules with
  | nil => rfl
  | cons rule rules ih => rw [List.length_cons, List.replicate_succ, marked_skip, ih, List.map_cons]

private theorem marked_none : marked suppressor state rules (.replicate rules.length false) =
    ⟨rules.flatMap (alone suppressor state), []⟩ := by
  induction rules with
  | nil => rfl
  | cons rule rules ih =>
    rw [List.length_cons, List.replicate_succ, marked_run, ih, List.flatMap_cons]

private theorem marked_of_pairwise {rules : List Rule} {skips : List Bool}
    (lengths : skips.length = rules.length) (sorted : skips.Pairwise (· ≤ ·)) :
    ∃ k ≤ rules.length, marked suppressor state rules skips =
      ⟨(rules.take k).flatMap (alone suppressor state), (rules.drop k).map Rule.longId⟩ := by
  induction rules generalizing skips with
  | nil => exact ⟨0, Nat.le_refl 0, by simp [marked]⟩
  | cons rule rules ih =>
    rcases skips with _ | ⟨skip, skips⟩
    · simp at lengths
    obtain ⟨least, sorted⟩ := List.pairwise_cons.mp sorted
    obtain ⟨k, inside, rest⟩ := ih (Nat.succ.inj lengths) sorted
    cases skip with
    | false =>
      refine ⟨k + 1, Nat.succ_le_succ inside, ?_⟩
      rw [marked_run, rest]
      simp
    | true =>
      have all : true :: skips = List.replicate (rule :: rules).length true :=
        List.eq_replicate_iff.mpr ⟨lengths, List.forall_mem_cons.mpr ⟨rfl, fun b member =>
          Bool.eq_true_of_true_le (least b member)⟩⟩
      exact ⟨0, Nat.zero_le _, by rw [all, marked_all]; rfl⟩

end Marked

private theorem ofBlocks_zipWith (p : Plan) (rules : List Rule) (skips : List Bool) :
    ofBlocks (List.zipWith p.block rules skips) =
      marked p.options.suppressor p.state rules skips := by
  induction rules generalizing skips with
  | nil => rfl
  | cons rule rules ih =>
    cases skips with
    | nil => rfl
    | cons skip skips =>
      cases skip with
      | true => simp [Plan.block, ofBlocks_skipped, ih, marked_skip]
      | false => simp [Plan.block, ofBlocks_ran, ih, marked_run, resultsOf_eq_alone]

/-- The task at a position reads the flag exactly once, at a moment that decides whether it is
skipped. -/
def Plan.Reads (p : Plan) (cancelled : Bool) (events : List Event) (i : Nat) (skip : Bool) : Prop :=
  ∃ before after, events = before ++ .start i :: after ∧ .start i ∉ before ∧ .start i ∉ after ∧
    skip = p.skips cancelled before

theorem Run.reads {m : Machine} {bs : List Block} {i : Nat} {rule : Rule}
    (run : Run p (p.initial cancelled) events m) (complete : m.tasks = bs.map .done)
    (position : p.rules[i]? = some rule) :
    ∃ skip, p.Reads cancelled events i skip ∧ bs[i]? = some (p.block rule skip) := by
  have waiting := p.initial_waiting cancelled (List.getElem?_eq_some_iff.mp position).1
  have inside : i < bs.length := by
    have lengths := run.length_tasks
    rw [complete, List.length_map] at lengths
    rw [lengths]
    exact (List.getElem?_eq_some_iff.mp waiting).1
  have done : m.tasks[i]? = some (.done bs[i]) := by simp [complete, inside]
  have read := run.start_of_waiting waiting (by simp [done])
  obtain ⟨before, after, rfl, fresh⟩ := List.eq_append_cons_of_mem read
  refine ⟨_, ⟨before, after, rfl, fresh, ?_, rfl⟩, ?_⟩
  · obtain ⟨m₁, _, second⟩ := run.split
    cases second with
    | cons step rest => exact rest.start_not_mem step.started
  · rw [List.getElem?_eq_getElem inside, run.done_of_start position done]
    rfl

private theorem Run.exists_skips {m : Machine} {bs : List Block}
    (run : Run p (p.initial cancelled) events m) (complete : m.tasks = bs.map .done) :
    ∃ skips : List Bool, skips.length = p.rules.length ∧ bs = List.zipWith p.block p.rules skips ∧
      ∀ i (inside : i < skips.length), p.Reads cancelled events i skips[i] := by
  have lengths : bs.length = p.rules.length := by
    rw [← p.length_initial cancelled, ← run.length_tasks, complete, List.length_map]
  have unblock : ∀ rule skip, (p.block rule skip).skippedId.isSome = skip := by
    intro rule skip
    cases skip <;> rfl
  refine ⟨bs.map (·.skippedId.isSome), by simp [lengths], List.ext_getElem? fun i => ?_,
    fun i inside => ?_⟩
  · cases position : p.rules[i]? with
    | none =>
      have outside : bs.length ≤ i := lengths ▸ List.getElem?_eq_none_iff.mp position
      rw [List.getElem?_eq_none outside, List.getElem?_zipWith, position]
    | some rule =>
      obtain ⟨skip, _, block⟩ := run.reads complete position
      rw [block, List.getElem?_zipWith, position, List.getElem?_map, block,
        Option.map_some, unblock]
  · rw [List.length_map] at inside
    obtain ⟨skip, reads, block⟩ :=
      run.reads complete (List.getElem?_eq_getElem (lengths ▸ inside))
    rw [List.getElem?_eq_getElem inside, Option.some.injEq] at block
    simpa [block, unblock] using reads

theorem Run.earlier {m : Machine} {before after : List Event} {i j : Nat}
    (run : Run p (p.initial cancelled) (before ++ .start i :: after) m)
    (serial : p.parallel = false)
    (lower : j < i) : .start j ∈ before := by
  obtain ⟨m₁, first, second⟩ := run.split
  cases second with
  | cons step _ =>
    have inside : i < p.rules.length := by
      rw [← p.length_initial cancelled, ← first.length_tasks]
      exact (List.getElem?_eq_some_iff.mp step.waiting_of_start).1
    rcases step.mayStart with parallel | turns
    · simp [serial] at parallel
    obtain ⟨b, done⟩ := turns j lower
    exact first.start_of_waiting (p.initial_waiting cancelled (Nat.lt_trans lower inside))
      (by simp [done])

private theorem Plan.skips_append {before later : List Event}
    (raised : p.skips cancelled before = true) : p.skips cancelled (before ++ later) = true := by
  simp only [Plan.skips, List.contains_append, Bool.and_eq_true, Bool.or_eq_true] at raised ⊢
  exact ⟨raised.1, raised.2.imp_right .inl⟩

/-- One after the other, no task runs behind a skipped one. -/
private theorem Run.sorted_skips {m : Machine} {skips : List Bool}
    (run : Run p (p.initial cancelled) events m) (serial : p.parallel = false)
    (reads : ∀ i (inside : i < skips.length), p.Reads cancelled events i skips[i]) :
    skips.Pairwise (· ≤ ·) := by
  rw [List.pairwise_iff_getElem]
  intro j i inside' inside lower
  obtain ⟨before, after, rfl, -, -, mark⟩ := reads i inside
  obtain ⟨before', rest, rfl⟩ := List.append_of_mem (run.earlier serial lower)
  obtain ⟨front, back, split, fresh, once, mark'⟩ := reads j inside'
  -- the task before is read at one place only, so both ways to cut the events in front of it agree
  obtain ⟨rfl, -⟩ := (List.append_cons_inj_of_notMem fresh once).mp
    (split.symm.trans (List.append_assoc _ _ _))
  rw [mark, mark']
  intro raised
  exact Plan.skips_append raised

theorem Run.quiet {m : Machine} {bs : List Block} {rule : Rule}
    (run : Run p (p.initial false) events m) (complete : m.tasks = bs.map .done)
    (undisturbed : .cancel ∉ events) (member : rule ∈ p.rules) :
    (rule.check p.state).cancels = false := by
  obtain ⟨i, inside, here⟩ := List.mem_iff_getElem.mp member
  have lengths : i < bs.length := by
    rwa [← List.length_map Task.done, ← complete, run.length_tasks, p.length_initial]
  have lowered : m.cancelled = false := by simp [run.cancelled, Plan.initial, undisturbed]
  have position : p.rules[i]? = some rule := here ▸ List.getElem?_eq_getElem inside
  rcases run.lowered position lowered (b := bs[i]) (by simp [complete, lengths]) with done | quiet
  · simp [p.initial_waiting false inside] at done
  · exact quiet

theorem run_undisturbed (options : EvaluationOptions) (state : State) (cancelled : Bool)
    (rules : List Rule)
    (undisturbed : options.watchesCancellation = false ∨
      cancelled = false ∧ ∀ rule ∈ rules, (rule.check state).cancels = false) :
    (run options state cancelled rules).1 =
      ⟨rules.flatMap (alone options.suppressor state), []⟩ := by
  induction rules generalizing cancelled with
  | nil => rfl
  | cons rule rules ih =>
    have lowered : (options.watchesCancellation && cancelled) = false := by
      rcases undisturbed with blind | ⟨rfl, -⟩
      · rw [blind, Bool.false_and]
      · exact Bool.and_false _
    rw [run_cons_run state rule rules lowered, ih, List.flatMap_cons]
    rcases undisturbed with blind | ⟨rfl, quiet⟩
    · exact .inl blind
    · obtain ⟨here, quiet⟩ := List.forall_mem_cons.mp quiet
      exact .inr ⟨by rw [here, Bool.or_false], quiet⟩

/-- What a complete schedule leaves behind, with the tasks that it skips. -/
structure Account (p : Plan) (cancelled : Bool) (events : List Event) (skips : List Bool)
    (e : Evaluation) : Prop where
  length : skips.length = p.rules.length
  collected : e = marked p.options.suppressor p.state p.rules skips
  /-- A rule that is not skipped leaves the whole block of its outcome. -/
  whole : ∀ rule ∈ p.rules, alone p.options.suppressor p.state rule ≠ [] ∧
    alone p.options.suppressor p.state rule =
      Result.classify rule.definition (rule.check p.state).outcome p.options.suppressor ∧
    Result.Leaves p.options.suppressor rule.definition (rule.check p.state).outcome
      (alone p.options.suppressor p.state rule)
  reads : ∀ i (inside : i < skips.length), p.Reads cancelled events i skips[i]
  serial : p.parallel = false → ∃ k ≤ p.rules.length,
    e = ⟨(p.rules.take k).flatMap (alone p.options.suppressor p.state),
      (p.rules.drop k).map Rule.longId⟩
  undisturbed : p.options.watchesCancellation = false ∨ cancelled = false ∧ .cancel ∉ events →
    e = ⟨p.rules.flatMap (alone p.options.suppressor p.state), []⟩ ∧
    e = (run p.options p.state cancelled p.rules).1

theorem Outcome.account {e : Evaluation} (outcome : Outcome p cancelled events e) :
    ∃ skips, Account p cancelled events skips e := by
  obtain ⟨m, bs, run, complete, rfl⟩ := outcome
  obtain ⟨skips, length, rfl, reads⟩ := run.exists_skips complete
  refine ⟨skips, length, ofBlocks_zipWith p p.rules skips, ?_, reads, fun serial => ?_,
    fun undisturbed => ?_⟩
  · intro rule _
    exact ⟨alone_ne_nil _ _ rule, alone_eq_classify _ _ rule, leaves_alone _ _ rule⟩
  · rw [ofBlocks_zipWith]
    exact marked_of_pairwise _ _ length (run.sorted_skips serial reads)
  · have none : skips = .replicate p.rules.length false := by
      refine List.eq_replicate_iff.mpr ⟨length, fun skip member => ?_⟩
      obtain ⟨i, inside, rfl⟩ := List.mem_iff_getElem.mp member
      obtain ⟨before, after, rfl, -, -, mark⟩ := reads i inside
      rcases undisturbed with blind | ⟨rfl, quiet⟩
      · simp [mark, Plan.skips, blind]
      · have early : .cancel ∉ before := fun early => quiet (List.mem_append_left _ early)
        simp [mark, Plan.skips, early]
    rw [ofBlocks_zipWith, none, marked_none, run_undisturbed]
    · exact ⟨rfl, rfl⟩
    · rcases undisturbed with blind | ⟨rfl, quiet⟩
      · exact .inl blind
      · exact .inr ⟨rfl, fun rule member => run.quiet complete quiet member⟩

/-- Every schedule settles every rule, whichever way the tasks interleave and whenever the flag is
raised; the sequential evaluation is one of the schedules, and no schedule gets stuck. -/
theorem schedules_settle (p : Plan) (cancelled : Bool) :
    (∀ events e, Outcome p cancelled events e → ∃ skips, Account p cancelled events skips e) ∧
    (∃ events, Outcome p cancelled events (run p.options p.state cancelled p.rules).1) ∧
    ∀ events m, Run p (p.initial cancelled) events m →
      ∃ more e, Outcome p cancelled (events ++ more) e :=
  ⟨fun _ _ outcome => outcome.account, outcome_of_run p cancelled,
    fun _ _ begun => begun.completable⟩

end CloudPolicy.Evaluation
