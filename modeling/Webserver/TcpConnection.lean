import Webserver.Buffer
import Webserver.EpollPoller

namespace Webserver

variable {P : Type}

inductive StateE
  | kDisconnected
  | kConnecting
  | kConnected
  | kDisconnecting
deriving DecidableEq

inductive Errno
  | ewouldblock
  | epipe
  | econnreset
  | other (code : Nat)
deriving DecidableEq

/-- What sockets::write comes back with. A count above what was offered stands
for all of it, so every possible count has a value here. -/
inductive WriteResult
  | wrote (n : Nat)
  | failed (e : Errno)

inductive ReadResult
  | received (bytes : List Byte)
  | failed (e : Errno)

inductive Functor
  | sendInLoop (message : List Byte)
  | shutdownInLoop
  | forceCloseInLoop
  | startReadInLoop
  | stopReadInLoop
  | connectDestroyed
  | writeCompleteCallback
deriving DecidableEq

/-- What the outside can see of a connection, in the order of occurrence. The
socket's write side records the calls with the number of bytes accepted; the
last write-side effects record the bytes still in outputBuffer_ at that moment. -/
inductive Effect
  | write (data : List Byte) (accepted : Nat)
  | shutdownWrite (unsent : List Byte)
  | queueWriteComplete (unsent : List Byte)
  | connectionCallback (state : StateE)
  | messageCallback
  | closeCallback
  | enterHandleClose
  | returnConnectDestroyed
deriving DecidableEq

structure TcpConnection where
  state : StateE
  reading : Bool
  channel : Channel
  inputBuffer : Buffer
  outputBuffer : Buffer
  writeCompleteCallback : Bool

/-- A connection in its loop: the pointer its channel is registered under, the
loop's poller, the functors of this connection that wait in the loop, the timers
of forceCloseWithDelay that have not fired, and what happened so far. -/
structure Hosted (P : Type) where
  self : P
  conn : TcpConnection
  poller : EpollPoller P
  pendingFunctors : List Functor
  delayedCloses : Nat
  trace : List Effect

namespace TcpConnection

def construct (fd : Int) (writeCompleteCallback : Bool) : TcpConnection :=
  ⟨.kConnecting, true, Channel.construct fd, Buffer.construct Buffer.kInitialSize,
    Buffer.construct Buffer.kInitialSize, writeCompleteCallback⟩

def setState (st : StateE) (h : Hosted P) : Hosted P := { h with conn := { h.conn with state := st } }

def setReading (b : Bool) (h : Hosted P) : Hosted P := { h with conn := { h.conn with reading := b } }

def setOutput (b : Buffer) (h : Hosted P) : Hosted P := { h with conn := { h.conn with outputBuffer := b } }

def setInput (b : Buffer) (h : Hosted P) : Hosted P := { h with conn := { h.conn with inputBuffer := b } }

def emit (e : Effect) (h : Hosted P) : Hosted P := { h with trace := h.trace ++ [e] }

def queueInLoop (f : Functor) (h : Hosted P) : Hosted P :=
  { h with pendingFunctors := h.pendingFunctors ++ [f] }

def onChannel (op : P → Channel × EpollPoller P → Channel × EpollPoller P) (h : Hosted P) : Hosted P :=
  let r := op h.self (h.conn.channel, h.poller)
  { h with conn := { h.conn with channel := r.1 }, poller := r.2 }

def queueWriteComplete (h : Hosted P) : Hosted P :=
  if h.conn.writeCompleteCallback then
    queueInLoop .writeCompleteCallback (emit (.queueWriteComplete h.conn.outputBuffer.readable) h)
  else h

def directWrite (data : List Byte) (r : WriteResult) (h : Hosted P) : Hosted P × Nat × Bool :=
  match r with
  | .wrote n =>
      let nwrote := min n data.length
      let h := emit (.write data nwrote) h
      (if data.length - nwrote = 0 then queueWriteComplete h else h, nwrote, false)
  | .failed e => (emit (.write data 0) h, 0, e = .epipe ∨ e = .econnreset)

def bufferOutput (rest : List Byte) (h : Hosted P) : Hosted P :=
  let h := setOutput (h.conn.outputBuffer.append rest) h
  if h.conn.channel.isWriting then h else onChannel Channel.enableWriting h

def sendInLoop (data : List Byte) (r : WriteResult) (h : Hosted P) : Hosted P :=
  if h.conn.state = .kDisconnected then h
  else
    let d := if !h.conn.channel.isWriting ∧ h.conn.outputBuffer.readableBytes = 0 then directWrite data r h
      else (h, 0, false)
    let rest := data.drop d.2.1
    if !d.2.2 ∧ 0 < rest.length then bufferOutput rest d.1 else d.1

def shutdownInLoop (h : Hosted P) : Hosted P :=
  if h.conn.channel.isWriting then h else emit (.shutdownWrite h.conn.outputBuffer.readable) h

def startReadInLoop (h : Hosted P) : Hosted P :=
  if !h.conn.reading ∨ !h.conn.channel.isReading then setReading true (onChannel Channel.enableReading h)
  else h

def stopReadInLoop (h : Hosted P) : Hosted P :=
  if h.conn.reading ∨ h.conn.channel.isReading then setReading false (onChannel Channel.disableReading h)
  else h

def handleClose (h : Hosted P) : Hosted P :=
  let h := emit .enterHandleClose h
  let h := onChannel Channel.disableAll (setState .kDisconnected h)
  emit .closeCallback (emit (.connectionCallback h.conn.state) h)

def forceCloseInLoop (h : Hosted P) : Hosted P :=
  if h.conn.state = .kConnected ∨ h.conn.state = .kDisconnecting then handleClose h else h

def handleRead (r : ReadResult) (h : Hosted P) : Hosted P :=
  match r with
  | .received [] => handleClose h
  | .received bytes => emit .messageCallback (setInput (h.conn.inputBuffer.readFd bytes) h)
  | .failed _ => h

def afterWrite (n : Nat) (h : Hosted P) : Hosted P :=
  let h := setOutput (h.conn.outputBuffer.retrieve n) h
  if h.conn.outputBuffer.readableBytes = 0 then
    let h := queueWriteComplete (onChannel Channel.disableWriting h)
    if h.conn.state = .kDisconnecting then shutdownInLoop h else h
  else h

def handleWrite (r : WriteResult) (h : Hosted P) : Hosted P :=
  if h.conn.channel.isWriting then
    let data := h.conn.outputBuffer.readable
    match r with
    | .wrote n =>
        let n := min n data.length
        let h := emit (.write data n) h
        if 0 < n then afterWrite n h else h
    | .failed _ => emit (.write data 0) h
  else h

def connectEstablished (h : Hosted P) : Hosted P :=
  let h := onChannel Channel.enableReading (setState .kConnected h)
  emit (.connectionCallback h.conn.state) h

def established (self : P) (poller : EpollPoller P) (fd : Int) (callback : Bool) : Hosted P :=
  connectEstablished ⟨self, construct fd callback, poller, [], 0, []⟩

def notifyDown (h : Hosted P) : Hosted P :=
  let h := onChannel Channel.disableAll (setState .kDisconnected h)
  emit (.connectionCallback h.conn.state) h

/-- connectDestroyed up to and including its callback. -/
def notifyDestroyed (h : Hosted P) : Hosted P := if h.conn.state = .kConnected then notifyDown h else h

def removeDestroyed (h : Hosted P) : Hosted P := emit .returnConnectDestroyed (onChannel Channel.remove h)

def connectDestroyed (h : Hosted P) : Hosted P := removeDestroyed (notifyDestroyed h)

def runFunctor (r : WriteResult) (h : Hosted P) : Functor → Hosted P
  | .sendInLoop message => sendInLoop message r h
  | .shutdownInLoop => shutdownInLoop h
  | .forceCloseInLoop => forceCloseInLoop h
  | .startReadInLoop => startReadInLoop h
  | .stopReadInLoop => stopReadInLoop h
  | .connectDestroyed => connectDestroyed h
  | .writeCompleteCallback => h

def runInLoop (inLoop : Bool) (f : Functor) (r : WriteResult) (h : Hosted P) : Hosted P :=
  if inLoop then runFunctor r h f else queueInLoop f h

def send (inLoop : Bool) (message : List Byte) (r : WriteResult) (h : Hosted P) : Hosted P :=
  if h.conn.state = .kConnected then runInLoop inLoop (.sendInLoop message) r h else h

def shutdown (inLoop : Bool) (r : WriteResult) (h : Hosted P) : Hosted P :=
  if h.conn.state = .kConnected then runInLoop inLoop .shutdownInLoop r (setState .kDisconnecting h) else h

def forceClose (h : Hosted P) : Hosted P :=
  if h.conn.state = .kConnected ∨ h.conn.state = .kDisconnecting then
    queueInLoop .forceCloseInLoop (setState .kDisconnecting h)
  else h

def forceCloseWithDelay (h : Hosted P) : Hosted P :=
  if h.conn.state = .kConnected ∨ h.conn.state = .kDisconnecting then
    { setState .kDisconnecting h with delayedCloses := h.delayedCloses + 1 }
  else h

def startRead (inLoop : Bool) (r : WriteResult) (h : Hosted P) : Hosted P :=
  runInLoop inLoop .startReadInLoop r h

def stopRead (inLoop : Bool) (r : WriteResult) (h : Hosted P) : Hosted P :=
  runInLoop inLoop .stopReadInLoop r h

/-- What the direct write brings about and the buffering keeps holds after sendInLoop. -/
theorem sendInLoop_rule {Q : Hosted P → Prop} {data : List Byte} {r : WriteResult} {h : Hosted P} (hs : Q h)
    (hd : Q (directWrite data r h).1) (hb : ∀ rest k, Q k → Q (bufferOutput rest k)) : Q (sendInLoop data r h) := by
  have hw : Q (if !h.conn.channel.isWriting ∧ h.conn.outputBuffer.readableBytes = 0 then
      directWrite data r h else (h, 0, false)).1 := by
    split
    · exact hd
    · exact hs
  simp only [sendInLoop]
  generalize (if !h.conn.channel.isWriting ∧ h.conn.outputBuffer.readableBytes = 0 then
    directWrite data r h else (h, 0, false)) = d at hw ⊢
  split
  · exact hs
  · split
    · exact hb _ _ hw
    · exact hw

end TcpConnection

end Webserver
