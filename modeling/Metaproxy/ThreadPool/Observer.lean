import Mathlib.Data.List.Basic
import Metaproxy.Lib.Run

/-!
# ThreadPool.Observer

`thread_pool_observer.cpp`: messages go through the input queue to a worker and from there through
the output queue back to the thread of the event loop, which a byte in a pipe wakes up. A message is
a pointer `μ`; `handle` returns its own message, as both implementations of it do.

A step is a locked section of one thread, or the work of a worker between two of them. A thread in
a condition wait may go round its loop at any time. Writes to the pipe succeed and nobody stops the
pool. The lists `puts`, `taken`, `delivered` and `cleaned` are not in the source; they record what
has happened, oldest first.
-/

namespace Metaproxy
namespace ThreadPool

variable {μ : Type*}

structure Config where
  minThreads : Nat
  maxThreads : Nat

def queueSizePerThread : Nat := 64

/-- Where a thread is in `run`. -/
inductive Worker (μ : Type*) where
  /-- About to lock the input data. -/
  | running
  /-- In `m_cond_input_data.wait`. -/
  | waiting
  | handling (m : μ)
  /-- `handle` has returned. -/
  | handled (m : μ)
deriving DecidableEq, Repr

def Worker.isWaiting : Worker μ → Bool
  | .waiting => true
  | _ => false

def Worker.msg : Worker μ → Option μ
  | .running => none
  | .waiting => none
  | .handling m => some m
  | .handled m => some m

structure Observer (μ : Type*) where
  input : List μ
  output : List μ
  /-- Unread bytes. -/
  pipe : Nat
  noThreads : Nat
  waitingThreads : Nat
  workers : List (Worker μ)
  /-- Calls of `put` that are in `m_cond_input_full.wait`. -/
  blocked : List μ
  /-- `socketNotify` is in its loop. -/
  draining : Bool
  puts : List μ
  taken : List μ
  delivered : List μ
  cleaned : List μ
deriving DecidableEq, Repr

namespace Observer

/-- The messages that workers have. -/
def held (o : Observer μ) : List μ := o.workers.filterMap Worker.msg

def addWorker (o : Observer μ) : Observer μ :=
  { o with workers := o.workers ++ [.running], noThreads := o.noThreads + 1 }

/-- The constructor. -/
def new (cfg : Config) : Observer μ where
  input := []
  output := []
  pipe := 0
  noThreads := cfg.minThreads
  waitingThreads := 0
  workers := .replicate cfg.minThreads .running
  blocked := []
  draining := false
  puts := []
  taken := []
  delivered := []
  cleaned := []

/-! ### `put` and `cleanup` -/

def isFull (o : Observer μ) : Bool := o.input.length ≥ o.noThreads * queueSizePerThread

def push (o : Observer μ) (m : μ) : Observer μ :=
  { o with input := o.input ++ [m], puts := o.puts ++ [m] }

/-- The call waits as long as the queue is full. -/
def enqueue (o : Observer μ) (m : μ) : Observer μ :=
  if o.isFull then { o with blocked := o.blocked ++ [m] } else o.push m

/-- `put` up to its end or its first wait. -/
def put (cfg : Config) (o : Observer μ) (m : μ) : Observer μ :=
  if o.waitingThreads = 0 ∧ o.noThreads < cfg.maxThreads then o.addWorker.enqueue m
  else o.enqueue m

/-- The wait of a call of `put` returns. -/
def retryPut (o : Observer μ) (i : Nat) : Option (Observer μ) :=
  o.blocked[i]?.map fun m =>
    if o.isFull then o else { o.push m with blocked := o.blocked.eraseIdx i }

/-- The loop of `cleanup`: what is kept and what is deleted. -/
def cleanupLoop (cleanup : μ → Bool) : List μ → List μ × List μ
  | [] => ([], [])
  | m :: rest =>
    let r := cleanupLoop cleanup rest
    if cleanup m then (r.1, m :: r.2) else (m :: r.1, r.2)

def cleanup (o : Observer μ) (cleanup : μ → Bool) : Observer μ :=
  let r := cleanupLoop cleanup o.input
  { o with input := r.1, cleaned := o.cleaned ++ r.2 }

/-! ### `run` -/

/-- Once around the wait for input: the thread is counted as waiting. -/
def awaitInput (o : Observer μ) (w : Nat) : Observer μ :=
  match o.input with
  | [] => { o with workers := o.workers.set w .waiting }
  | m :: input =>
    { o with
      input
      waitingThreads := o.waitingThreads - 1
      workers := o.workers.set w (.handling m)
      taken := o.taken ++ [m] }

/-- One step of the thread `w`. -/
def work (o : Observer μ) (w : Nat) : Option (Observer μ) :=
  o.workers[w]?.map fun
    | .running => { o with waitingThreads := o.waitingThreads + 1 }.awaitInput w
    | .waiting => o.awaitInput w
    | .handling m => { o with workers := o.workers.set w (.handled m) }
    | .handled m =>
      { o with
        output := o.output ++ [m]
        pipe := o.pipe + 1
        workers := o.workers.set w .running }

/-! ### `socketNotify` -/

/-- One byte is read; a read that fails is only logged. -/
def socketNotify (o : Observer μ) : Option (Observer μ) :=
  if o.draining then none else some { o with pipe := o.pipe - 1, draining := true }

/-- Once around the loop: `result` is called on the first message, or the loop is left. -/
def drain (o : Observer μ) : Option (Observer μ) :=
  if o.draining then
    match o.output with
    | [] => some { o with draining := false }
    | m :: output => some { o with output, delivered := o.delivered ++ [m] }
  else none

end Observer

inductive Label (μ : Type*) where
  | put (m : μ)
  | retryPut (i : Nat)
  | cleanup (cleanup : μ → Bool)
  | worker (w : Nat)
  | socketNotify
  | drain

def step (cfg : Config) (o : Observer μ) : Label μ → Option (Observer μ)
  | .put m => some (o.put cfg m)
  | .retryPut i => o.retryPut i
  | .cleanup cleanup => some (o.cleanup cleanup)
  | .worker w => o.work w
  | .socketNotify => o.socketNotify
  | .drain => o.drain

def init (cfg : Config) (o : Observer μ) : Prop := o = .new cfg

end ThreadPool
end Metaproxy
