import Webserver.FixedBuffer

namespace Webserver

abbrev LargeBuffer := FixedBuffer kLargeBuffer

/-- Where the logging thread is. Between entered and swapped it takes mutex_,
and it gives it up again while waiting; swapped and writing are without it. -/
inductive LogPoint
  | notStarted
  | test
  | entered
  | waiting
  | swapped
  | writing (i : Nat)
  | finished
deriving DecidableEq

/-- The logger with the local variables of threadFunc and what has been passed
to output.append. A missing buffer is a null unique_ptr; fault says that one was
used, or that back() was called on an empty vector. -/
structure AsyncLogging where
  running : Bool
  currentBuffer : Option LargeBuffer
  nextBuffer : Option LargeBuffer
  buffers : List (Option LargeBuffer)
  point : LogPoint
  newBuffer1 : Option LargeBuffer
  newBuffer2 : Option LargeBuffer
  buffersToWrite : List (Option LargeBuffer)
  output : List Byte
  fault : Bool

namespace AsyncLogging

def construct : AsyncLogging :=
  ⟨false, some .construct, some .construct, [], .notStarted, none, none, [], [], false⟩

def start (s : AsyncLogging) : AsyncLogging :=
  { s with running := true, point := .test, newBuffer1 := some .construct, newBuffer2 := some .construct }

def stop (s : AsyncLogging) : AsyncLogging := { s with running := false }

def append (logline : List Byte) (s : AsyncLogging) : AsyncLogging :=
  match s.currentBuffer with
  | none => { s with fault := true }
  | some current =>
      if logline.length < current.avail then { s with currentBuffer := some (current.append logline) }
      else
        { s with
          buffers := s.buffers ++ [some current]
          currentBuffer := some ((s.nextBuffer.getD .construct).append logline)
          nextBuffer := none }

def swap (s : AsyncLogging) : AsyncLogging :=
  let s := { s with
    buffersToWrite := s.buffers ++ [s.currentBuffer]
    buffers := s.buffersToWrite
    currentBuffer := s.newBuffer1
    newBuffer1 := none
    point := .swapped }
  if s.nextBuffer.isNone then { s with nextBuffer := s.newBuffer2, newBuffer2 := none } else s

def keep {α : Type} (batch : List α) : List α := if 25 < batch.length then batch.take 2 else batch

def refill (newBuffer : Option LargeBuffer) (v : List (Option LargeBuffer)) :
    Option LargeBuffer × List (Option LargeBuffer) × Bool :=
  match newBuffer with
  | some b => (some b, v, false)
  | none => match v.getLast? with
    | some (some b) => (some b.reset, v.dropLast, false)
    | some none => (none, v.dropLast, true)
    | none => (none, v, true)

def recycle (s : AsyncLogging) : AsyncLogging :=
  let v := if 2 < s.buffersToWrite.length then s.buffersToWrite.take 2 else s.buffersToWrite
  let r₁ := refill s.newBuffer1 v
  let r₂ := refill s.newBuffer2 r₁.2.1
  { s with
    newBuffer1 := r₁.1
    newBuffer2 := r₂.1
    buffersToWrite := []
    fault := s.fault || r₁.2.2 || r₂.2.2
    point := .test }

/-- One step of threadFunc. A wait ends by notify_all, by its time limit or for no reason. -/
def thread (s : AsyncLogging) : AsyncLogging :=
  match s.point with
  | .notStarted => s
  | .test => { s with point := if s.running then .entered else .finished }
  | .entered => if s.buffers.isEmpty then { s with point := .waiting } else swap s
  | .waiting => swap s
  | .swapped => { s with buffersToWrite := keep s.buffersToWrite, point := .writing 0 }
  | .writing i => match s.buffersToWrite[i]? with
    | some (some b) => { s with output := s.output ++ b.data, point := .writing (i + 1) }
    | some none => { s with fault := true }
    | none => recycle s
  | .finished => s

inductive Event
  | start
  | stop
  | append (logline : List Byte)
  | thread

def next (s : AsyncLogging) : Event → AsyncLogging
  | .start => s.start
  | .stop => s.stop
  | .append logline => s.append logline
  | .thread => s.thread

def Enabled (s : AsyncLogging) : Event → Prop
  | .start => s.point = .notStarted
  | .stop => s.running = true
  | .append logline => logline.length < kLargeBuffer
  | .thread => True

instance (s : AsyncLogging) (e : Event) : Decidable (s.Enabled e) :=
  match e with
  | .start => inferInstanceAs (Decidable (s.point = .notStarted))
  | .stop => inferInstanceAs (Decidable (s.running = true))
  | .append logline => inferInstanceAs (Decidable (logline.length < kLargeBuffer))
  | .thread => .isTrue trivial

end AsyncLogging

end Webserver
