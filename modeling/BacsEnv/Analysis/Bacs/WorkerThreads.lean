import BacsEnv.Library.Ownership
import BacsEnv.Library.Transition
import BacsEnv.Model.Bacs.IoWorker
import Mathlib.Data.List.ReduceOption

/-!
# Who joins which thread

The threads are tokens that the live objects hold and that `join` releases (`Inv`), so in a
run that ends with all objects destroyed each thread was joined exactly once, unless the
process was terminated before. `Sound` says that nothing went wrong and nothing is bound to:
every thread of a live object is joinable. A step keeps it exactly when it is `Allowed`, and
what is bound to go wrong has gone wrong when all objects are destroyed.
-/

set_option autoImplicit false

namespace BacsEnv.Bacs.Workers

open BacsEnv.Ownership BacsEnv.Transition

/-! ## What a step does -/

/-- The threads that an object holds. -/
def held : Option Live → List ℕ
  | none => []
  | some live => live.object.threads.reduceOption

/-- Every thread of the object is joinable. -/
def Ready (x : Option Live) : Prop := ∀ live, x = some live → ∀ w ∈ live.object.threads, w.isSome

theorem ready_none : Ready none := fun _ h => nomatch h

theorem ready_some_iff {live : Live} :
    Ready (some live) ↔ ∀ w ∈ live.object.threads, w.isSome := by
  simp [Ready]

/-- The threads of an object, when all are joinable. -/
theorem ready_iff_exists_threads {live : Live} :
    Ready (some live) ↔ ∃ ts : List ℕ, live.object.threads = ts.map some := by
  rw [ready_some_iff]
  constructor
  · intro hall
    generalize live.object.threads = threads at hall ⊢
    induction threads with
    | nil => exact ⟨[], rfl⟩
    | cons w ws ih =>
        obtain ⟨t, rfl⟩ := Option.isSome_iff_exists.mp (hall w List.mem_cons_self)
        obtain ⟨ts, rfl⟩ := ih fun w' hw' => hall w' (List.mem_cons_of_mem _ hw')
        exact ⟨t :: ts, rfl⟩
  · rintro ⟨ts, hts⟩ w hw
    rw [hts] at hw
    obtain ⟨t, -, rfl⟩ := List.mem_map.mp hw
    rfl

theorem reduceOption_map_some (ts : List ℕ) : (ts.map some).reduceOption = ts := by
  simp [List.reduceOption]

theorem live?_eq_some_iff {s : State} {i : ℕ} {live : Live} :
    s.live? i = some live ↔ s.objects[i]? = some (some live) := Option.join_eq_some_iff

/-- Joining the threads of a pool. -/
theorem joinAll_map_some (ts : List ℕ) (s : State) :
    joinAll (ts.map some) s = ({ s with joined := s.joined ++ ts }, true) := by
  induction ts generalizing s with
  | nil => simp [joinAll]
  | cons t ts ih => simp [joinAll, join, ih]

/-- What holds of a program at any time: the threads that were started are held by the live
objects or were joined, the threads of pools are joinable, and the process is terminated only
by a fault. -/
structure Inv (s : State) : Prop where
  conserved : Conserved held s.started s.objects s.joined
  pools : ∀ context workers movedFrom,
    some { object := .ioWorkerPool context workers, movedFrom := movedFrom } ∈ s.objects →
      ∀ w ∈ workers, w.isSome
  faulty : s.terminated = true → s.faults ≠ []

/-- What a step can do. -/
inductive Outcome (s : State) : Operation → State → Prop
  | constructed {o : Operation} {live : Live} {k : ℕ}
      (hthreads : live.object.threads = (List.range' s.started k).map some)
      (ho : ∃ context, o = .ioWorker context ∨ o = .ioWorkerPool context k) :
      Outcome s o { s with objects := s.objects ++ [some live], started := s.started + k }
  | runJoined {i context t : ℕ} {movedFrom : Bool}
      (hi : s.objects[i]? = some (some { object := .ioWorker context (some t),
                                         movedFrom := movedFrom })) :
      Outcome s (.run i)
        { s with joined := s.joined ++ [t]
                 objects := s.objects.set i (some { object := .ioWorker context none,
                                                    movedFrom := movedFrom }) }
  | runFailed {i context : ℕ} {movedFrom : Bool}
      (hi : s.objects[i]? = some (some { object := .ioWorker context none,
                                         movedFrom := movedFrom })) :
      Outcome s (.run i) { s with faults := s.faults ++ [.joinNotJoinable] }
  | moved {i : ℕ} {source : Live} (hi : s.objects[i]? = some (some source)) :
      Outcome s (.moveConstruct i)
        { s with objects := s.objects.set i (some { object := source.object.moved,
                                                    movedFrom := true }) ++
                              [some { object := source.object }] }
  | destroyed {i : ℕ} {live : Live} {ts : List ℕ} (hi : s.objects[i]? = some (some live))
      (hthreads : live.object.threads = ts.map some) :
      Outcome s (.destroy i)
        { s with objects := s.objects.set i none
                 joined := s.joined ++ ts
                 faults := (stop i live s).faults }
  | destroyFailed {i context : ℕ} {movedFrom : Bool}
      (hi : s.objects[i]? = some (some { object := .ioWorker context none,
                                         movedFrom := movedFrom })) (faults : List Fault)
      (hfaults : .joinNotJoinable ∈ faults) :
      Outcome s (.destroy i) { s with faults := faults, terminated := true }

theorem stop_eq (i : ℕ) (live : Live) (s : State) :
    stop i live s = { s with faults := (stop i live s).faults } := by
  unfold stop
  split <;> rfl

/-- Every step is one of these. -/
theorem outcome_of_step {s s' : State} {o : Operation} (hinv : Inv s) (hstep : step s o = some s') :
    Outcome s o s' := by
  unfold step at hstep
  split at hstep
  · cases hstep
  · cases o with
    | ioWorker context =>
        cases hstep
        exact .constructed (k := 1) rfl ⟨context, .inl rfl⟩
    | ioWorkerPool context numThreads =>
        cases hstep
        exact .constructed rfl ⟨context, .inr rfl⟩
    | run i =>
        simp only [run] at hstep
        split at hstep
        · rename_i context worker movedFrom hlive
          rw [live?_eq_some_iff] at hlive
          cases worker with
          | none =>
              cases hstep
              exact .runFailed hlive
          | some t =>
              cases hstep
              exact .runJoined hlive
        · cases hstep
    | moveConstruct i =>
        simp only [moveConstruct] at hstep
        split at hstep
        · cases hstep
        · rename_i source hlive
          cases hstep
          exact .moved (live?_eq_some_iff.mp hlive)
    | destroy i =>
        simp only [destroy] at hstep
        split at hstep
        · cases hstep
        · rename_i live hlive
          rw [live?_eq_some_iff] at hlive
          rw [stop_eq] at hstep
          by_cases hready : Ready (some live)
          · obtain ⟨ts, hts⟩ := ready_iff_exists_threads.mp hready
            rw [hts, joinAll_map_some] at hstep
            cases hstep
            exact .destroyed hlive hts
          · obtain ⟨object, movedFrom⟩ := live
            cases object with
            | ioWorkerPool context workers =>
                refine absurd (ready_some_iff.mpr ?_) hready
                exact hinv.pools context workers movedFrom (List.mem_of_getElem? hlive)
            | ioWorker context worker =>
                cases worker with
                | none =>
                    cases hstep
                    refine .destroyFailed hlive _ ?_
                    exact List.mem_append_right _ (List.mem_singleton.mpr rfl)
                | some t => exact absurd (ready_iff_exists_threads.mpr ⟨[t], rfl⟩) hready

/-! ## The threads -/

theorem held_some_of_threads {live : Live} {ts : List ℕ}
    (h : live.object.threads = ts.map some) : held (some live) = ts := by
  rw [held, h, reduceOption_map_some]

/-- A moved-from object holds nothing. -/
theorem held_moved (object : Object) (movedFrom : Bool) :
    held (some { object := object.moved, movedFrom := movedFrom }) = [] := by
  cases object <;> rfl

/-- The threads of pools stay joinable when one object changes. -/
theorem pools_set {s : State} (hinv : Inv s) {i : ℕ} {x : Option Live}
    (hx : ∀ context workers movedFrom,
      x = some { object := .ioWorkerPool context workers, movedFrom := movedFrom } →
        ∀ w ∈ workers, w.isSome) :
    ∀ context workers movedFrom,
      some { object := .ioWorkerPool context workers, movedFrom := movedFrom } ∈
        s.objects.set i x → ∀ w ∈ workers, w.isSome := by
  intro context workers movedFrom hmem
  rcases List.mem_or_eq_of_mem_set hmem with hmem | heq
  · exact hinv.pools context workers movedFrom hmem
  · exact hx context workers movedFrom heq.symm

/-- Every step keeps the invariant. -/
theorem inv_outcome {s s' : State} {o : Operation} (hinv : Inv s) (h : Outcome s o s') :
    Inv s' := by
  cases h with
  | @constructed o live k hthreads ho =>
      refine { conserved := ?_, pools := ?_, faulty := hinv.faulty }
      · exact hinv.conserved.issue (held_some_of_threads hthreads)
      · intro context workers movedFrom hmem
        rcases List.mem_append.mp hmem with hmem | hmem
        · exact hinv.pools context workers movedFrom hmem
        · obtain rfl := Option.some.inj (List.mem_singleton.mp hmem)
          exact ready_some_iff.mp (ready_iff_exists_threads.mpr ⟨_, hthreads⟩)
  | @runJoined i context t movedFrom hi =>
      refine { conserved := ?_, pools := pools_set hinv ?_, faulty := hinv.faulty }
      · exact hinv.conserved.release hi (List.Perm.refl _)
      · intro context workers movedFrom heq
        cases heq
  | runFailed hi =>
      refine { conserved := hinv.conserved, pools := hinv.pools, faulty := ?_ }
      intro _
      simp
  | @moved i source hi =>
      refine { conserved := ?_, pools := ?_, faulty := hinv.faulty }
      · apply hinv.conserved.move hi
        rw [held_moved, List.append_nil]
        exact List.Perm.refl _
      · intro context workers movedFrom hmem
        rcases List.mem_append.mp hmem with hmem | hmem
        · refine pools_set hinv ?_ context workers movedFrom hmem
          intro context workers movedFrom heq
          obtain ⟨object, _⟩ := source
          cases object <;> cases heq
          intro w hw
          cases hw
        · obtain ⟨object, m⟩ := source
          cases List.mem_singleton.mp hmem
          exact hinv.pools context workers m (List.mem_of_getElem? hi)
  | @destroyed i live ts hi hthreads =>
      refine { conserved := ?_, pools := pools_set hinv ?_, faulty := ?_ }
      · apply hinv.conserved.release hi
        rw [held_some_of_threads hthreads, held, List.append_nil]
      · intro context workers movedFrom heq
        cases heq
      · intro hterminated
        have hfaults := hinv.faulty hterminated
        simp only [stop]
        split
        · simp
        · exact hfaults
  | destroyFailed hi faults hfaults =>
      refine { conserved := hinv.conserved, pools := hinv.pools, faulty := ?_ }
      intro _
      exact List.ne_nil_of_mem hfaults

/-! ## What goes wrong -/

/-- Nothing has gone wrong, and every thread of a live object can be joined. -/
def Sound (s : State) : Prop := s.faults = [] ∧ ∀ x ∈ s.objects, Ready x

/-- The steps that are safe: `run` is not called, only pools are moved, and a pool that was
moved from is destroyed when no other object serves its context. -/
def Allowed (s : State) : Operation → Prop
  | .ioWorker _ => True
  | .ioWorkerPool _ _ => True
  | .run _ => False
  | .moveConstruct i => ∀ source, s.live? i = some source →
      ∃ context workers, source.object = .ioWorkerPool context workers
  | .destroy i => ∀ live, s.live? i = some live → live.movedFrom = true →
      servedByOther i live.object.context s = false

/-- An element that has a property before and after it changes does not matter. -/
theorem forall_mem_set_iff {η : Type} {xs : List η} {i : ℕ} {x y : η} {P : η → Prop}
    (h : xs[i]? = some x) (hx : P x) (hy : P y) : (∀ z ∈ xs.set i y, P z) ↔ ∀ z ∈ xs, P z := by
  constructor
  · intro hall z hz
    obtain ⟨j, hj⟩ := List.mem_iff_getElem?.mp hz
    by_cases hij : i = j
    · rw [← hij, h] at hj
      rw [← Option.some.inj hj]
      exact hx
    · exact hall z (List.mem_iff_getElem?.mpr ⟨j, by rw [List.getElem?_set_ne hij, hj]⟩)
  · intro hall z hz
    rcases List.mem_or_eq_of_mem_set hz with hz | rfl
    · exact hall z hz
    · exact hy

/-- A worker whose thread is gone. -/
theorem not_ready_ioWorker_none {context : ℕ} {movedFrom : Bool} :
    ¬ Ready (some { object := .ioWorker context none, movedFrom := movedFrom }) := by
  intro h
  have hthread := ready_some_iff.mp h none (List.mem_singleton.mpr rfl)
  cases hthread

theorem not_sound_of_mem {s : State} {x : Option Live} (hx : x ∈ s.objects) (hnot : ¬ Ready x) :
    ¬ Sound s := fun h => hnot (h.2 x hx)

theorem not_sound_of_fault {s : State} {fault : Fault} (h : fault ∈ s.faults) : ¬ Sound s :=
  fun hs => List.ne_nil_of_mem h hs.1

theorem stop_faults_eq_nil_iff {i : ℕ} {live : Live} {s : State} :
    (stop i live s).faults = [] ↔ s.faults = [] ∧
      (live.movedFrom = true → servedByOther i live.object.context s = false) := by
  unfold stop
  split
  · rename_i hstops
    simp only [Bool.and_eq_true] at hstops
    simp [hstops.1, hstops.2]
  · rename_i hstops
    simp only [Bool.and_eq_true, not_and, Bool.not_eq_true] at hstops
    simp only [and_iff_left hstops]

/-- A step leads to a sound state exactly from one, and when it is allowed. -/
theorem sound_outcome_iff {s s' : State} {o : Operation} (hinv : Inv s) (h : Outcome s o s') :
    Sound s' ↔ Sound s ∧ Allowed s o := by
  cases h with
  | @constructed o live k hthreads ho =>
      have hallowed : Allowed s o := by
        rcases ho with ⟨context, rfl | rfl⟩ <;> trivial
      rw [and_iff_left hallowed]
      refine and_congr_right fun _ => ?_
      rw [List.forall_mem_append, List.forall_mem_singleton]
      exact and_iff_left (ready_iff_exists_threads.mpr ⟨_, hthreads⟩)
  | runJoined hi =>
      refine iff_of_false ?_ fun hs => hs.2
      have hlt := (List.getElem?_eq_some_iff.mp hi).1
      exact not_sound_of_mem (List.mem_set hlt _) not_ready_ioWorker_none
  | runFailed hi =>
      refine iff_of_false ?_ fun hs => hs.2
      exact not_sound_of_fault (List.mem_append_right _ (List.mem_singleton.mpr rfl))
  | @moved i source hi =>
      have hlt := (List.getElem?_eq_some_iff.mp hi).1
      have hlive := live?_eq_some_iff.mpr hi
      obtain ⟨object, movedFrom⟩ := source
      cases object with
      | ioWorker context worker =>
          refine iff_of_false ?_ ?_
          · have hleft : some { object := .ioWorker context none, movedFrom := true } ∈
                s.objects.set i (some { object := .ioWorker context none, movedFrom := true }) :=
              List.mem_set hlt _
            exact not_sound_of_mem (List.mem_append_left _ hleft) not_ready_ioWorker_none
          · rintro ⟨-, hallowed⟩
            obtain ⟨context, workers, hpool⟩ := hallowed _ hlive
            cases hpool
      | ioWorkerPool context workers =>
          have hworkers := hinv.pools context workers movedFrom (List.mem_of_getElem? hi)
          have hready : Ready (some { object := .ioWorkerPool context workers,
                                      movedFrom := movedFrom }) := ready_some_iff.mpr hworkers
          have hnew : Ready (some { object := .ioWorkerPool context workers }) :=
            ready_some_iff.mpr hworkers
          have hleft : Ready (some { object := (Object.ioWorkerPool context workers).moved,
                                     movedFrom := true }) :=
            ready_iff_exists_threads.mpr ⟨[], rfl⟩
          have hallowed : Allowed s (.moveConstruct i) := by
            intro source hsource
            rw [hlive] at hsource
            cases hsource
            exact ⟨context, workers, rfl⟩
          rw [and_iff_left hallowed]
          refine and_congr_right fun _ => ?_
          rw [List.forall_mem_append, List.forall_mem_singleton, and_iff_left hnew]
          exact forall_mem_set_iff hi hready hleft
  | @destroyed i live ts hi hthreads =>
      have hlive := live?_eq_some_iff.mpr hi
      have hready : Ready (some live) := ready_iff_exists_threads.mpr ⟨ts, hthreads⟩
      have hothers := forall_mem_set_iff hi hready ready_none
      have hallowed : Allowed s (.destroy i) ↔
          (live.movedFrom = true → servedByOther i live.object.context s = false) := by
        simp only [Allowed, hlive, Option.some.injEq, forall_eq']
      rw [hallowed, Sound, Sound, stop_faults_eq_nil_iff, hothers, and_right_comm]
  | @destroyFailed i context movedFrom hi faults hfaults =>
      refine iff_of_false (not_sound_of_fault hfaults) ?_
      rintro ⟨hs, -⟩
      exact not_sound_of_mem (List.mem_of_getElem? hi) not_ready_ioWorker_none hs

/-! ## Whole runs -/

/-- All objects are destroyed, or the process was terminated before. -/
def Finished (s : State) : Prop := s.terminated = true ∨ ∀ x ∈ s.objects, x = none

/-- What should hold in the end: no `join` of a thread that is not joinable, each thread that
was started joined exactly once, and no context stopped by an object that was moved from
while another one served it. -/
structure JoinedOnce (s : State) : Prop where
  joinable : .joinNotJoinable ∉ s.faults
  each_once : ∀ t < s.started, s.joined.count t = 1
  not_stopped : ∀ context, .stopServed context ∉ s.faults

theorem inv_init : Inv init where
  conserved := conserved_nil held
  pools := by
    intro context workers movedFrom hmem
    cases hmem
  faulty := by
    intro h
    cases h

theorem sound_init : Sound init := by
  refine ⟨rfl, ?_⟩
  intro x hx
  cases hx

/-- In the end all is well exactly when nothing has gone wrong. -/
theorem joinedOnce_iff_sound {s : State} (hinv : Inv s) (hfinished : Finished s) :
    JoinedOnce s ↔ Sound s := by
  constructor
  · intro h
    have hfaults : s.faults = [] := by
      apply List.eq_nil_iff_forall_not_mem.mpr
      intro fault hfault
      cases fault with
      | joinNotJoinable => exact h.joinable hfault
      | stopServed context => exact h.not_stopped context hfault
    refine ⟨hfaults, ?_⟩
    rcases hfinished with hterminated | hnone
    · exact absurd hfaults (hinv.faulty hterminated)
    · intro x hx
      rw [hnone x hx]
      exact ready_none
  · rintro ⟨hfaults, -⟩
    have hnone : ∀ x ∈ s.objects, held x = [] := by
      rcases hfinished with hterminated | hnone
      · exact absurd hfaults (hinv.faulty hterminated)
      · intro x hx
        rw [hnone x hx]
        rfl
    refine { joinable := ?_, each_once := ?_, not_stopped := ?_ }
    · rw [hfaults]
      exact List.not_mem_nil
    · exact fun t ht => hinv.conserved.count_released hnone ht
    · intro context
      rw [hfaults]
      exact List.not_mem_nil

/-- Every thread is joined exactly once and no context is stopped under another object, if
and only if every step of the run is allowed. -/
theorem joinedOnce_iff {operations : List Operation} {s : State}
    (hrun : Transition.run step init operations = some s) (hfinished : Finished s) :
    JoinedOnce s ↔ Meets step Allowed init operations := by
  have hinv : ∀ s o s', Inv s → step s o = some s' → Inv s' :=
    fun s o s' h hstep => inv_outcome h (outcome_of_step h hstep)
  have hsound : ∀ s o s', Inv s → True → step s o = some s' →
      (Sound s' ↔ Sound s ∧ Allowed s o) :=
    fun s o s' h _ hstep => sound_outcome_iff h (outcome_of_step h hstep)
  have hend : Inv s := run_inv hinv hrun inv_init
  rw [joinedOnce_iff_sound hend hfinished, end_iff_meets (fun s o s' h _ => hinv s o s' h) hsound
    hrun (meets_of_forall (fun _ _ => trivial) init operations) inv_init, and_iff_right sound_init]

/-- A pool and a worker that are left alone. -/
def sampleOperations : List Operation := [.ioWorkerPool 0 2, .ioWorker 1, .destroy 0, .destroy 1]

theorem sampleOperations_joinedOnce :
    ∃ s, Transition.run step init sampleOperations = some s ∧
      (JoinedOnce s ↔ Meets step Allowed init sampleOperations) := by
  have hrun : Transition.run step init sampleOperations =
      some { objects := [none, none], started := 3, joined := [0, 1, 2] } := by decide
  exact ⟨_, hrun, joinedOnce_iff hrun (.inr (by decide))⟩

/-- The destructor joins the thread again that `run` joined, or that was moved away, and the
process is terminated; a pool that was moved from stops the context of the other one. -/
theorem worker_joined_twice :
    (∃ s, Transition.run step init [.ioWorker 0, .run 0, .destroy 0] = some s ∧
      s.terminated = true ∧ ¬ JoinedOnce s) ∧
    (∃ s, Transition.run step init [.ioWorker 0, .moveConstruct 0, .destroy 1, .destroy 0] =
        some s ∧ s.terminated = true ∧ ¬ JoinedOnce s) ∧
    ∃ s, Transition.run step init
        [.ioWorkerPool 0 1, .moveConstruct 0, .destroy 0, .destroy 1] = some s ∧
      (∀ x ∈ s.objects, x = none) ∧ ¬ JoinedOnce s := by
  refine ⟨⟨_, rfl, rfl, ?_⟩, ⟨_, rfl, rfl, ?_⟩, ⟨_, rfl, ?_, ?_⟩⟩
  · exact fun h => h.joinable (by decide)
  · exact fun h => h.joinable (by decide)
  · decide
  · exact fun h => h.not_stopped 0 (by decide)

end BacsEnv.Bacs.Workers
