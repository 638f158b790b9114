import Guillemot.Roslite.Value

/-!
# Atlas

The lookups of `atlas.py`: a request names a channel or a service, and the reply has the addresses
of the proxy with this name, which is created at its first lookup. The proxy is created, and stored
under its name, before the interface and the process id of the request are looked at.

What `bind_to_random_port` answers is a function of the ports that are in use; ZeroMQ finds a port
and binds every address. The poller and the sockets' options are left out.
-/

namespace Guillemot.Roslite

open Raising

/-! ## Data -/

/-- What the proxies of Atlas are for. -/
inductive Kind where
  | channel
  | service
deriving DecidableEq, Repr

/-- The types of sockets. -/
inductive SocketType where
  | XSUB
  | XPUB
  | ROUTER
  | DEALER
deriving DecidableEq, Repr

/-- `_Proxy`. A socket is the number under which it was made. -/
structure Proxy where
  frontend : ℕ
  frontend_inproc : String
  frontend_ipc : String
  frontend_tcp : String
  backend : ℕ
  backend_inproc : String
  backend_ipc : String
  backend_tcp : String
deriving DecidableEq, Repr

/-- What Atlas is started with: its interface, the id of its process, and a port for each set of
ports in use. -/
structure Host where
  interface : String
  pid : ℕ
  bind_to_random_port : List ℕ → ℕ

/-- The fields of Atlas, with the sockets that were made, the addresses that they are bound to, the
ports in use and the replies. -/
structure Atlas where
  sockets : List SocketType
  bound : List (String × ℕ)
  ports : List ℕ
  nextId : ℕ
  channels : Table Proxy
  services : Table Proxy
  replies : List Value

/-- The type of the frontend. -/
def Kind.frontendType : Kind → SocketType
  | .channel => .XSUB
  | .service => .ROUTER

/-- The type of the backend. -/
def Kind.backendType : Kind → SocketType
  | .channel => .XPUB
  | .service => .DEALER

/-- The key of the frontend's address in a reply. -/
def Kind.frontendKey : Kind → ℤ
  | .channel => C.PUB
  | .service => C.REQ

/-- The key of the backend's address in a reply. -/
def Kind.backendKey : Kind → ℤ
  | .channel => C.SUB
  | .service => C.REP

/-- Where a node runs, seen from Atlas. -/
inductive Locality where
  | sameProcess
  | sameHost
  | otherHost
deriving DecidableEq, Repr

/-- The address of the frontend that a node is told. -/
def Proxy.frontendAddress (p : Proxy) : Locality → String
  | .sameProcess => p.frontend_inproc
  | .sameHost => p.frontend_ipc
  | .otherHost => p.frontend_tcp

/-- The address of the backend that a node is told. -/
def Proxy.backendAddress (p : Proxy) : Locality → String
  | .sameProcess => p.backend_inproc
  | .sameHost => p.backend_ipc
  | .otherHost => p.backend_tcp

namespace Atlas

/-- The start. -/
def init : Atlas := ⟨[], [], [], 1000, [], [], []⟩

/-- The table of a kind. -/
def table (s : Atlas) : Kind → Table Proxy
  | .channel => s.channels
  | .service => s.services

/-- Another table of a kind. -/
def setTable (s : Atlas) (proxies : Table Proxy) : Kind → Atlas
  | .channel => { s with channels := proxies }
  | .service => { s with services := proxies }

/-- A part of a round of `run`. -/
abbrev Action (α : Type) := EStateM Exception Atlas α

/-! ## Proxies -/

/-- `self._context.socket(type)`. -/
def socket (type : SocketType) : Action ℕ :=
  modifyGet fun s => (s.sockets.length, { s with sockets := s.sockets ++ [type] })

/-- `socket.bind(address)`. -/
def bind (socket : ℕ) (address : String) : Action Unit :=
  modify fun s => { s with bound := s.bound ++ [(address, socket)] }

/-- `_get_id`. -/
def getId : Action ℕ := modifyGet fun s => (s.nextId, { s with nextId := s.nextId + 1 })

/-- The address in `_bind_to_inproc`. -/
def inprocAddress (id : ℕ) : String := "inproc://id" ++ id.repr

/-- The address in `_bind_to_ipc`. -/
def ipcAddress (pid id : ℕ) : String := "ipc:///tmp/atlas" ++ pid.repr ++ "id" ++ id.repr

/-- The address in `_bind_to_tcp`. -/
def tcpAddress (interface : String) (port : ℕ) : String :=
  "tcp://" ++ interface ++ ":" ++ port.repr

/-- `_bind_to_inproc`. -/
def bindToInproc (socket id : ℕ) : Action String := do
  bind socket (inprocAddress id)
  pure (inprocAddress id)

variable (host : Host)

/-- `_bind_to_ipc`. -/
def bindToIpc (socket id : ℕ) : Action String := do
  bind socket (ipcAddress host.pid id)
  pure (ipcAddress host.pid id)

/-- `_bind_to_tcp`. -/
def bindToTcp (socket : ℕ) : Action String := do
  let port ← modifyGet fun s =>
    let port := host.bind_to_random_port s.ports
    (port, { s with ports := s.ports ++ [port] })
  bind socket (tcpAddress host.interface port)
  pure (tcpAddress host.interface port)

/-- `_create_proxy`. -/
def createProxy (frontend_type backend_type : SocketType) : Action Proxy := do
  let frontend ← socket frontend_type
  let frontend_id ← getId
  let frontend_inproc ← bindToInproc frontend frontend_id
  let frontend_ipc ← bindToIpc host frontend frontend_id
  let frontend_tcp ← bindToTcp host frontend
  let backend ← socket backend_type
  let backend_id ← getId
  let backend_inproc ← bindToInproc backend backend_id
  let backend_ipc ← bindToIpc host backend backend_id
  let backend_tcp ← bindToTcp host backend
  pure ⟨frontend, frontend_inproc, frontend_ipc, frontend_tcp,
    backend, backend_inproc, backend_ipc, backend_tcp⟩

/-- The proxy with a name, which is created when there is none. -/
def getProxy (kind : Kind) (frontend_type backend_type : SocketType) (name : Value) :
    Action Proxy := do
  hash name
  match ((← get).table kind).get name with
  | some proxy => pure proxy
  | none =>
    let proxy ← createProxy host frontend_type backend_type
    modify fun s => s.setTable ((s.table kind).insert name proxy) kind
    pure proxy

/-- `_get_channel_proxy`. -/
def getChannelProxy (channel : Value) : Action Proxy := getProxy host .channel .XSUB .XPUB channel

/-- `_get_service_proxy`. -/
def getServiceProxy (service : Value) : Action Proxy :=
  getProxy host .service .ROUTER .DEALER service

/-! ## Requests -/

/-- `message[key]`. -/
def item (entries : List (Value × Value)) (key : ℤ) : Action Value :=
  match Table.get entries.reverse (.int key) with
  | some value => pure value
  | none => throw .keyError

/-- A response with two addresses. -/
def response (frontend_type backend_type : ℤ) (frontend backend : String) : Value :=
  .map [(.int frontend_type, .str frontend), (.int backend_type, .str backend)]

/-- `_build_response`. -/
def buildResponse (entries : List (Value × Value)) (proxy : Proxy)
    (frontend_type backend_type : ℤ) : Action Value := do
  let interface ← item entries C.INTERFACE
  if (Value.str host.interface).same interface then
    let pid ← item entries C.PID
    if (Value.int host.pid).same pid then
      pure (response frontend_type backend_type proxy.frontend_inproc proxy.backend_inproc)
    else pure (response frontend_type backend_type proxy.frontend_ipc proxy.backend_ipc)
  else pure (response frontend_type backend_type proxy.frontend_tcp proxy.backend_tcp)

/-- `self.put_message(self._atlas_provider, response)`. -/
def reply (response : Value) : Action Unit :=
  modify fun s => { s with replies := s.replies ++ [response] }

/-- A request in a round of `run`, behind `get_message`. -/
def serve (message : Value) : Action Unit := do
  let entries ← getAttribute message
  let request := field entries C.REQUEST
  let mut response := Value.nil
  if request.same (.int C.LOOKUP_CHANNEL) then
    let channel := field entries C.CHANNEL
    if channel.truthy then
      response ← buildResponse host entries (← getChannelProxy host channel) C.PUB C.SUB
  else if request.same (.int C.LOOKUP_SERVICE) then
    let service := field entries C.SERVICE
    if service.truthy then
      response ← buildResponse host entries (← getServiceProxy host service) C.REQ C.REP
  reply response

/-- The loop of `run`, as long as there are requests. -/
def run (messages : List Value) : Action Unit := forM messages (serve host)

/-! ## What a request does -/

/-- What a map asks for: the kind and the name of a proxy, if it is a lookup with a true name. -/
def asked (entries : List (Value × Value)) : Option (Kind × Value) :=
  if (field entries C.REQUEST).same (.int C.LOOKUP_CHANNEL) then
    if (field entries C.CHANNEL).truthy then some (.channel, field entries C.CHANNEL) else none
  else if (field entries C.REQUEST).same (.int C.LOOKUP_SERVICE) then
    if (field entries C.SERVICE).truthy then some (.service, field entries C.SERVICE) else none
  else none

/-- Where the node of a request runs; `none` where the request does not say enough. -/
def locality? (entries : List (Value × Value)) : Option Locality :=
  (Table.get entries.reverse (.int C.INTERFACE)).bind fun interface =>
    if (Value.str host.interface).same interface then
      (Table.get entries.reverse (.int C.PID)).map fun pid =>
        if (Value.int host.pid).same pid then .sameProcess else .sameHost
    else some .otherHost

/-- The proxy that `_create_proxy` makes. -/
def newProxy (s : Atlas) : Proxy :=
  let port := host.bind_to_random_port s.ports
  ⟨s.sockets.length, inprocAddress s.nextId, ipcAddress host.pid s.nextId,
    tcpAddress host.interface port,
    s.sockets.length + 1, inprocAddress (s.nextId + 1), ipcAddress host.pid (s.nextId + 1),
    tcpAddress host.interface (host.bind_to_random_port (s.ports ++ [port]))⟩

/-- What `_create_proxy` leaves. -/
def withProxy (s : Atlas) (kind : Kind) : Atlas :=
  let p := s.newProxy host
  let port := host.bind_to_random_port s.ports
  { s with
    sockets := s.sockets ++ [kind.frontendType, kind.backendType]
    bound := s.bound ++ [(p.frontend_inproc, p.frontend), (p.frontend_ipc, p.frontend),
      (p.frontend_tcp, p.frontend), (p.backend_inproc, p.backend), (p.backend_ipc, p.backend),
      (p.backend_tcp, p.backend)]
    ports := s.ports ++ [port, host.bind_to_random_port (s.ports ++ [port])]
    nextId := s.nextId + 2 }

theorem createProxy_apply (kind : Kind) (s : Atlas) :
    createProxy host kind.frontendType kind.backendType s =
      .ok (s.newProxy host) (s.withProxy host kind) := by
  simp only [createProxy, socket, getId, bindToInproc, bindToIpc, bindToTcp, bind, bind_assoc,
    pure_bind, modify_bind_apply, modifyGet_bind_apply, pure_apply]
  simp [newProxy, withProxy]

/-- What `_get_channel_proxy` and `_get_service_proxy` return, and what they leave. -/
def lookUp (s : Atlas) (kind : Kind) (name : Value) : Proxy × Atlas :=
  match (s.table kind).get name with
  | some proxy => (proxy, s)
  | none =>
    (s.newProxy host,
      (s.withProxy host kind).setTable ((s.table kind).insert name (s.newProxy host)) kind)

theorem getProxy_apply (kind : Kind) {name : Value} (hname : name.hashable = true) (s : Atlas) :
    getProxy host kind kind.frontendType kind.backendType name s =
      .ok (s.lookUp host kind name).1 (s.lookUp host kind name).2 := by
  have htable : (s.withProxy host kind).table kind = s.table kind := by cases kind <;> rfl
  simp only [getProxy, hash, hname, if_true, pure_bind, get_bind_apply]
  unfold lookUp
  cases (s.table kind).get name with
  | some proxy => rfl
  | none =>
    simp only [bind_apply, createProxy_apply, modify_apply, pure_apply]
    rw [htable]

theorem getProxy_not_hashable (kind : Kind) {name : Value} (hname : name.hashable = false)
    (s : Atlas) :
    getProxy host kind kind.frontendType kind.backendType name s = .error .typeError s := by
  simp [getProxy, hash, hname]
  rfl

/-- A reply with the addresses of a proxy. -/
def Kind.answer (kind : Kind) (p : Proxy) (locality : Locality) : Value :=
  response kind.frontendKey kind.backendKey (p.frontendAddress locality) (p.backendAddress locality)

theorem buildResponse_apply (entries : List (Value × Value)) (p : Proxy) (kind : Kind) (s : Atlas) :
    buildResponse host entries p kind.frontendKey kind.backendKey s =
      match locality? host entries with
      | some locality => .ok (Kind.answer kind p locality) s
      | none => .error .keyError s := by
  unfold buildResponse item locality?
  cases Table.get entries.reverse (.int C.INTERFACE) with
  | none => rfl
  | some interface =>
    by_cases hinterface : (Value.str host.interface).same interface = true
    · cases Table.get entries.reverse (.int C.PID) with
      | none => simp [hinterface]; rfl
      | some pid =>
        by_cases hpid : (Value.int host.pid).same pid = true
        · simp [hinterface, hpid]; rfl
        · simp [hinterface, hpid]; rfl
    · simp [hinterface]; rfl

/-- The state with another reply. -/
def replied (s : Atlas) (response : Value) : Atlas :=
  { s with replies := s.replies ++ [response] }

/-- A lookup, up to its reply. -/
theorem lookup_apply (entries : List (Value × Value)) (kind : Kind) (name : Value) (s : Atlas) :
    (getProxy host kind kind.frontendType kind.backendType name >>= fun p =>
      buildResponse host entries p kind.frontendKey kind.backendKey >>= reply) s =
      if name.hashable then
        match locality? host entries with
        | some locality =>
          .ok () ((s.lookUp host kind name).2.replied
            (Kind.answer kind (s.lookUp host kind name).1 locality))
        | none => .error .keyError (s.lookUp host kind name).2
      else .error .typeError s := by
  cases hname : name.hashable with
  | false => simp [bind_apply, getProxy_not_hashable host kind hname]
  | true =>
    simp only [bind_apply, getProxy_apply host kind hname, buildResponse_apply, if_true]
    cases locality? host entries with
    | none => rfl
    | some locality => rfl

/-- What a map leaves. -/
theorem serve_map (entries : List (Value × Value)) (s : Atlas) :
    serve host (.map entries) s =
      match asked entries with
      | none => .ok () (s.replied .nil)
      | some (kind, name) =>
        if name.hashable then
          match locality? host entries with
          | some locality =>
            .ok () ((s.lookUp host kind name).2.replied
              (Kind.answer kind (s.lookUp host kind name).1 locality))
          | none => .error .keyError (s.lookUp host kind name).2
        else .error .typeError s := by
  unfold asked
  by_cases hchannel : (field entries C.REQUEST).same (.int C.LOOKUP_CHANNEL) = true
  · by_cases htruthy : (field entries C.CHANNEL).truthy = true
    · simp only [hchannel, htruthy, if_true, ← lookup_apply]
      simp [serve, getAttribute, getChannelProxy, hchannel, htruthy]
      rfl
    · simp [serve, getAttribute, hchannel, htruthy]
      rfl
  by_cases hservice : (field entries C.REQUEST).same (.int C.LOOKUP_SERVICE) = true
  · by_cases htruthy : (field entries C.SERVICE).truthy = true
    · simp only [hchannel, hservice, htruthy, if_true, ← lookup_apply]
      simp [serve, getAttribute, getServiceProxy, hchannel, hservice, htruthy]
      rfl
    · simp [serve, getAttribute, hchannel, hservice, htruthy]
      rfl
  · simp [serve, getAttribute, hchannel, hservice]
    rfl

end Atlas

end Guillemot.Roslite
