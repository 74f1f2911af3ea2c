import WorkflowEngine.Definition.Codec
import WorkflowEngine.Engine.Timeline
import WorkflowEngine.Engine.Codec
import WorkflowEngine.Node.Standard
import WorkflowEngine.Service.Route
import WorkflowEngine.Service.Socket
import WorkflowEngine.Store.Fault
import WorkflowEngine.Workplace

/-!
# The service

An engine with the standard nodes behind an interface of requests and responses. Executions are kept
in files if a directory is set for them, and in memory otherwise; definitions are kept in memory only.
Requests are answered one after the other.
-/
namespace WorkflowEngine

structure Service where
  place : Workplace
  engine : Engine
  host : Host AnyStore
  /-- By number. -/
  sockets : List Service.Socket := []

/-- Where the service listens unless it is told otherwise. -/
def Service.standardAddress : String := "0.0.0.0:3000"

namespace Workplace

/-- Where a service here listens. -/
def bindAddress (place : Workplace) : String :=
  (place.env.get? "BIND_ADDRESS").getD Service.standardAddress

/-- The store of a service here. -/
def openStore (place : Workplace) : Except StoreError AnyStore :=
  match place.env.get? "FLOW_STORE_DIR" with
  | some written => (FileStore.openAt (place.locate written) place.files).map .files
  | none => .ok (.memory {})

/-- Begin a service. -/
def serve (place : Workplace) : Except StoreError Service := do
  let store ← place.openStore
  let config := Configuration.ofEnvironment place.env
  return {
    place := place
    engine := { config, registry := Standard.registry HttpClient.offline }
    host := { store := store, bus := { capacity := config.eventBufferSize }, supply := place.supply } }

end Workplace

namespace Service

/-- The files as they are now. -/
def files (service : Service) : FileSystem :=
  match service.host.store with
  | .files store => store.files
  | .memory _ => service.place.files

/-- The service after something else changed the files. -/
def withFiles (service : Service) (files : FileSystem) : Service :=
  match service.host.store with
  | .files store =>
    { service with host := { service.host with store := .files { store with files } } }
  | .memory _ => { service with place := { service.place with files } }

/-- End a service and begin it again in the same place. -/
def restart (service : Service) : Except StoreError Service := do
  let next ← { service.place with files := service.files, supply := service.host.supply }.serve
  return { next with sockets := service.sockets.map (·.shut service.host.bus) }

/-- What the client of a socket reads. -/
def read (service : Service) (number : Nat) : Option (List ServerFrame × Bool × Service) :=
  service.sockets[number]?.map fun socket =>
    let (frames, socket) := socket.read service.host.bus
    (frames, socket.isOpen, { service with sockets := service.sockets.set number socket })

/-- The client of a socket is gone. -/
def leave (service : Service) (number : Nat) : Service :=
  { service with sockets := service.sockets.modify number Socket.leave }

end Service

end WorkflowEngine
