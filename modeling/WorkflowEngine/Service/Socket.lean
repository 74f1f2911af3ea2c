import WorkflowEngine.Event.Bus

/-!
# Event sockets

A client that upgrades its connection is sent every event published from then on. It may send frames
of its own: a ping is answered by a pong with the same text, a closing frame by a closing frame, after
which nothing more is sent; everything else is ignored. A client is taken to keep up with the events.
-/
namespace WorkflowEngine

namespace Service

inductive ClientFrame where
  | ping (text : String)
  | pong (text : String)
  | text (text : String)
  | close
  deriving DecidableEq, Inhabited

inductive ServerFrame where
  | event (event : ExecutionEvent)
  | pong (text : String)
  | close

structure Socket where
  /-- The first event that is not passed on yet. -/
  receiver : EventReceiver
  /-- Frames the client has not read. -/
  unread : List ServerFrame := []
  isOpen : Bool := true

namespace Socket

/-- Pass on what was published. -/
def catchUp (bus : EventBus) (socket : Socket) : Socket :=
  if socket.isOpen then
    { socket with
      receiver := bus.subscribe
      unread := socket.unread ++ (bus.sentSince socket.receiver).map .event }
  else socket

/-- Take in a frame of a client that is up to date. -/
def hear (socket : Socket) (frame : ClientFrame) : Socket :=
  if !socket.isOpen then socket
  else
    match frame with
    | .ping text => { socket with unread := socket.unread ++ [.pong text] }
    | .close => { socket with unread := socket.unread ++ [.close], isOpen := false }
    | _ => socket

/-- A new socket, whose client sends some frames at once. -/
def openOn (bus : EventBus) (frames : List ClientFrame) : Socket :=
  frames.foldl hear { receiver := bus.subscribe }

/-- What the client reads. -/
def read (bus : EventBus) (socket : Socket) : List ServerFrame × Socket :=
  let socket := socket.catchUp bus
  (socket.unread, { socket with unread := [] })

/-- The client is gone. -/
def leave (socket : Socket) : Socket := { socket with unread := [], isOpen := false }

/-- The service ends; what was sent before can still be read. -/
def shut (bus : EventBus) (socket : Socket) : Socket :=
  { socket.catchUp bus with isOpen := false }

end Socket

end Service

end WorkflowEngine
