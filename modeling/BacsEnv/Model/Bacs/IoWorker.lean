import Mathlib.Data.List.Basic
import Mathlib.Tactic.Common

/-!
# `bacs::io_worker` and `bacs::io_worker_pool`

The program constructs, moves and destroys objects of the two classes and calls `run` of
workers, in any order. Starting a thread succeeds, and `join` returns when its thread is
done. `join` of a thread that is not joinable throws; an exception of `run` goes to the
caller, one that leaves a destructor ends the process.

An object serves an `io_context` as long as it holds a thread that runs it.
-/

set_option autoImplicit false

namespace BacsEnv.Bacs.Workers

/-- `std::thread`: the thread of a joinable one. -/
abbrev StdThread : Type := Option ℕ

/-- An object, with the number of the `io_context` it refers to. -/
inductive Object
  | ioWorker (context : ℕ) (worker : StdThread)
  | ioWorkerPool (context : ℕ) (workers : List StdThread)
deriving DecidableEq, Repr

/-- `_context` -/
def Object.context : Object → ℕ
  | .ioWorker context _ => context
  | .ioWorkerPool context _ => context

/-- The threads of an object. -/
def Object.threads : Object → List StdThread
  | .ioWorker _ worker => [worker]
  | .ioWorkerPool _ workers => workers

/-- The object that the defaulted move constructor leaves behind. -/
def Object.moved : Object → Object
  | .ioWorker context _ => .ioWorker context none
  | .ioWorkerPool context _ => .ioWorkerPool context []

/-- An object that was constructed and not destroyed, and whether it was moved from. -/
structure Live where
  object : Object
  movedFrom : Bool := false
deriving DecidableEq, Repr

/-- What must not happen: a `join` of a thread that is not joinable, and the destructor of an
object that was moved from stopping a context that another object serves. -/
inductive Fault
  | joinNotJoinable
  | stopServed (context : ℕ)
deriving DecidableEq, Repr

/-- The objects that were ever constructed, `none` for one that was destroyed. The other
fields record what happened so far: the number of threads started, the threads joined, the
faults, and whether the process was terminated. -/
structure State where
  objects : List (Option Live) := []
  started : ℕ := 0
  joined : List ℕ := []
  faults : List Fault := []
  terminated : Bool := false
deriving DecidableEq, Repr

/-- One operation; the numbers point into the objects. -/
inductive Operation
  | ioWorker (context : ℕ)
  | ioWorkerPool (context numThreads : ℕ)
  | run (i : ℕ)
  | moveConstruct (i : ℕ)
  | destroy (i : ℕ)
deriving DecidableEq, Repr

/-- The object `i`, when it is alive. -/
def State.live? (s : State) (i : ℕ) : Option Live := s.objects[i]?.join

/-- `io_worker(IOContext& context)` -/
def constructIoWorker (context : ℕ) (s : State) : State :=
  { s with objects := s.objects ++ [some { object := .ioWorker context (some s.started) }]
           started := s.started + 1 }

/-- `io_worker_pool(IOContext& context, std::size_t num_threads)` -/
def constructIoWorkerPool (context numThreads : ℕ) (s : State) : State :=
  let workers := (List.range' s.started numThreads).map some
  { s with objects := s.objects ++ [some { object := .ioWorkerPool context workers }]
           started := s.started + numThreads }

/-- `std::thread::join()`, and whether it returns. -/
def join (worker : StdThread) (s : State) : State × Bool :=
  match worker with
  | some t => ({ s with joined := s.joined ++ [t] }, true)
  | none => ({ s with faults := s.faults ++ [.joinNotJoinable] }, false)

/-- `for (auto& worker : _workers) worker.join();`, and whether it comes to its end. -/
def joinAll : List StdThread → State → State × Bool
  | [], s => (s, true)
  | worker :: workers, s =>
      match join worker s with
      | (s₁, true) => joinAll workers s₁
      | (s₁, false) => (s₁, false)

/-- `io_worker::run` -/
def run (i : ℕ) (s : State) : Option State :=
  match s.live? i with
  | some { object := .ioWorker context worker, movedFrom := movedFrom } =>
      match join worker s with
      | (s₁, true) =>
          let left : Live := { object := .ioWorker context none, movedFrom := movedFrom }
          some { s₁ with objects := s₁.objects.set i (some left) }
      | (s₁, false) => some s₁
  | _ => none

/-- The defaulted move constructors. -/
def moveConstruct (i : ℕ) (s : State) : Option State :=
  match s.live? i with
  | none => none
  | some source =>
      let left : Live := { object := source.object.moved, movedFrom := true }
      some { s with objects := s.objects.set i (some left) ++ [some { object := source.object }] }

/-- The object has a thread that runs the context. -/
def serves (context : ℕ) : Option Live → Bool
  | none => false
  | some live => decide (live.object.context = context) && live.object.threads.any Option.isSome

/-- Another object than `i` serves the context. -/
def servedByOther (i context : ℕ) (s : State) : Bool := (s.objects.set i none).any (serves context)

/-- `_context.get().stop()` in the destructor of the object `i`. -/
def stop (i : ℕ) (live : Live) (s : State) : State :=
  if live.movedFrom && servedByOther i live.object.context s then
    { s with faults := s.faults ++ [.stopServed live.object.context] }
  else s

/-- `~io_worker` and `~io_worker_pool` -/
def destroy (i : ℕ) (s : State) : Option State :=
  match s.live? i with
  | none => none
  | some live =>
      match joinAll live.object.threads (stop i live s) with
      | (s₁, true) => some { s₁ with objects := s₁.objects.set i none }
      | (s₁, false) => some { s₁ with terminated := true }

/-- One step of the program, when it can happen. -/
def step (s : State) (o : Operation) : Option State :=
  if s.terminated then none
  else
    match o with
    | .ioWorker context => some (constructIoWorker context s)
    | .ioWorkerPool context numThreads => some (constructIoWorkerPool context numThreads s)
    | .run i => run i s
    | .moveConstruct i => moveConstruct i s
    | .destroy i => destroy i s

/-- A program without objects. -/
def init : State := {}

end BacsEnv.Bacs.Workers
