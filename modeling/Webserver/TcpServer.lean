import Mathlib.Data.List.AList
import Webserver.ConnectionLife
import Webserver.ConnectionNames

namespace Webserver

open ConnectionLife (Life isCall)

structure EventLoopThreadPool (L : Type) where
  baseLoop : L
  loops : List L
  next : Nat

def EventLoopThreadPool.getNextLoop {L : Type} (p : EventLoopThreadPool L) : L × EventLoopThreadPool L :=
  if p.loops.isEmpty then (p.baseLoop, p)
  else (p.loops.getD p.next p.baseLoop, { p with next := if p.loops.length ≤ p.next + 1 then 0 else p.next + 1 })

/-- The values of connections_ are the numbers of the connections, in the order
in which they were accepted. -/
structure TcpServer (L : Type) where
  loop : L
  ipPort : List Char
  name : List Char
  threadPool : EventLoopThreadPool L
  writeCompleteCallback : Bool
  nextConnId : CInt
  connections : AList (fun _ : List Char => Nat)

/-- A connection of the server. It is established once connectEstablished has
begun, and closing while its loop is in handleClose, at closeCallback_. -/
structure Conn (L P : Type) where
  name : List Char
  loop : L
  established : Bool
  closing : Bool
  life : Life P

inductive Stage
  | serving
  | destroying
  | destroyed
deriving DecidableEq

inductive ServerCall
  | removeConnection (c : Nat)
  | removeConnectionInLoop (c : Nat)
deriving DecidableEq

/-- A server, all connections that it ever accepted, the connections of the
removeConnectionInLoop functors that wait in the base loop, and the calls made
on the server so far, each with the stage it was made at. -/
structure System (L P : Type) where
  server : TcpServer L
  conns : List (Conn L P)
  removals : List Nat
  stage : Stage
  calls : List (ServerCall × Stage)

variable {L P : Type}

def Conn.connectEstablished (k : Conn L P) : Conn L P :=
  { k with established := true, life := { k.life with hosted := TcpConnection.connectEstablished k.life.hosted } }

def Conn.step (e : ConnectionLife.Event P) (k : Conn L P) : Conn L P :=
  let life := ConnectionLife.next k.life e
  { k with
    closing := k.closing || k.life.hosted.trace.count .closeCallback < life.hosted.trace.count .closeCallback
    life := life }

def System.called (x : ServerCall) (s : System L P) : System L P := { s with calls := s.calls ++ [(x, s.stage)] }

namespace TcpServer

def construct (loop : L) (loops : List L) (listenAddr : SockAddr) (nameArg : List Char) (callback : Bool) :
    TcpServer L :=
  ⟨loop, InetAddress.toIpPort listenAddr, nameArg, ⟨loop, loops, 0⟩, callback, CInt.ofInt 1, ∅⟩

def removeConnectionInLoop (c : Nat) (s : System L P) : System L P :=
  match s.conns[c]? with
  | none => s
  | some conn =>
      { s with
        server := { s.server with connections := s.server.connections.erase conn.name }
        conns := s.conns.modify c (Conn.step .queueDestroyed) }

variable [DecidableEq L]

def newConnection (sockfd : Int) (self : P) (s : System L P) : System L P :=
  let ioLoop := s.server.threadPool.getNextLoop.1
  let connName := connName s.server.name s.server.ipPort s.server.nextConnId.val
  let hosted := ⟨self, .construct sockfd s.server.writeCompleteCallback, .construct, [], 0, []⟩
  let life : Life P := ⟨hosted, none, fun _ => .idle, .outside⟩
  let conn : Conn L P := ⟨connName, ioLoop, false, false, life⟩
  { s with
    server := { s.server with
      threadPool := s.server.threadPool.getNextLoop.2
      nextConnId := CInt.ofInt (s.server.nextConnId.val + 1)
      connections := s.server.connections.insert connName s.conns.length }
    conns := s.conns ++ [if ioLoop = s.server.loop then conn.connectEstablished else conn] }

def removeConnection (c : Nat) (s : System L P) : System L P :=
  match s.conns[c]? with
  | none => s
  | some conn =>
      if conn.loop = s.server.loop then removeConnectionInLoop c (s.called (.removeConnectionInLoop c))
      else { s with removals := s.removals ++ [c] }

def destroyItem (c : Nat) (s : System L P) : System L P :=
  match s.conns[c]? with
  | none => s
  | some conn =>
      { s with
        server := { s.server with connections := s.server.connections.erase conn.name }
        conns := s.conns.modify c (Conn.step (if conn.loop = s.server.loop then .destroyInLoop else .queueDestroyed)) }

end TcpServer

namespace System

/-- One step of the base loop or of a connection's loop. The acceptor, the
queued removals and ~TcpServer are steps of the base loop. -/
inductive Event (P : Type)
  | accept (sockfd : Int) (self : P)
  | established (c : Nat)
  | conn (c : Nat) (e : ConnectionLife.Event P)
  | closeCallback (c : Nat)
  | removal
  | destroy
  | destroyItem (c : Nat)
  | destroyed

def Event.ofDestructor : Event P → Bool
  | .destroy | .destroyItem _ | .destroyed => true
  | _ => false

variable [DecidableEq L]

def next (s : System L P) : Event P → System L P
  | .accept sockfd self => TcpServer.newConnection sockfd self s
  | .established c => { s with conns := s.conns.modify c Conn.connectEstablished }
  | .conn c e => { s with conns := s.conns.modify c (Conn.step e) }
  | .closeCallback c =>
      TcpServer.removeConnection c
        (called (.removeConnection c) { s with conns := s.conns.modify c fun k => { k with closing := false } })
  | .removal => match s.removals with
    | [] => s
    | c :: cs => TcpServer.removeConnectionInLoop c (called (.removeConnectionInLoop c) { s with removals := cs })
  | .destroy => { s with stage := .destroying }
  | .destroyItem c => TcpServer.destroyItem c s
  | .destroyed => { s with stage := .destroyed }

def start (server : TcpServer L) : System L P := ⟨server, [], [], .serving, []⟩

def ofServer : ConnectionLife.Event P → Bool
  | .queueDestroyed | .destroyInLoop => true
  | _ => false

/-- When a step can happen. Before connectEstablished nobody but the server has
the connection; inside handleClose its loop does nothing else, apart from the
calls that the callback makes. -/
def Enabled (s : System L P) : Event P → Prop
  | .accept _ _ | .destroy => s.stage = .serving
  | .established c => ∃ k, s.conns[c]? = some k ∧ k.established = false
  | .conn c e => ofServer e = false ∧ ∃ k, s.conns[c]? = some k ∧ k.established = true ∧
      (k.closing = false ∨ isCall e = true) ∧ ConnectionLife.Enabled k.life e
  | .closeCallback c => ∃ k, s.conns[c]? = some k ∧ k.closing = true
  | .removal => s.removals ≠ [] ∧ s.stage ≠ .destroying
  | .destroyItem c => s.stage = .destroying ∧
      ∃ k, s.conns[c]? = some k ∧ s.server.connections.lookup k.name = some c
  | .destroyed => s.stage = .destroying ∧ s.server.connections.keys = []

end System

end Webserver
