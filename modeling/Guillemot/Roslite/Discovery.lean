import Guillemot.Roslite.Naming
import Mathlib.Logic.Function.Basic

/-!
# How nodes find each other

The nodes of `_roslite.py` and Atlas, in any interleaving. A node that publishes, subscribes, gets
or provides looks the name up in its cache; otherwise it sends a request to Atlas and waits for the
reply, which it keeps. Atlas takes the requests in the order in which they arrive. A node is known
by a number, and runs in a process with an interface and an id (`Place`).

Whoever uses one name is connected to the two ends of one proxy, wherever it runs and whenever it
asked, and whoever uses different names is not; nobody raises an exception, and no node asks twice
for a name (`nodes_meet`).
-/

namespace Guillemot.Roslite.Discovery

open Atlas

/-! ## Nodes -/

/-- The interface and the process of a node. -/
structure Place where
  interface : String
  pid : ℤ
deriving DecidableEq, Repr

/-- A socket that a node wants to be connected to a proxy: to the frontend, for `PUB` and `REQ`, or
to the backend, for `SUB` and `REP`. -/
structure Call where
  kind : Kind
  front : Bool
  name : String
deriving DecidableEq, Repr

/-- `publish_to_channel`. -/
def publishToChannel (channel : String) : Call := ⟨.channel, true, channel⟩

/-- `subscribe_to_channel`. -/
def subscribeToChannel (channel : String) : Call := ⟨.channel, false, channel⟩

/-- `get_service`. -/
def getService (service : String) : Call := ⟨.service, true, service⟩

/-- `provide_service`. -/
def provideService (service : String) : Call := ⟨.service, false, service⟩

/-- The key of the address in the reply of Atlas. -/
def Call.key (c : Call) : ℤ := if c.front then c.kind.frontendKey else c.kind.backendKey

/-- The request that is sent to Atlas. -/
def Call.message (c : Call) (place : Place) : Value :=
  .map [(.int C.REQUEST, .int c.kind.request), (.int c.kind.nameKey, .str c.name),
    (.int C.INTERFACE, .str place.interface), (.int C.PID, .int place.pid)]

/-- A node: its caches, the call that waits for Atlas, the reply when it is there, and the sockets
that are connected, with the values that were taken as their addresses. -/
structure Node where
  cache : Kind → Table Value
  pending : Option Call
  mailbox : Option Value
  connected : List (Call × Value)

namespace Node

/-- `__init__`. -/
def init : Node := ⟨fun _ => [], none, none, []⟩

/-- `self._channel_cache.get(channel)` or `self._service_cache.get(service)`, if it is true. -/
def cached (n : Node) (c : Call) : Option Value :=
  ((n.cache c.kind).get (.str c.name)).filter Value.truthy

/-- `value[key]`, if it does not raise. -/
def item? : Value → ℤ → Option Value
  | .map entries, key => Table.get entries.reverse (.int key)
  | _, _ => none

/-- The socket is connected to the address in the value. -/
def connect (n : Node) (c : Call) (value : Value) : Option Node :=
  (item? value c.key).map fun address => { n with connected := n.connected ++ [(c, address)] }

/-- The reply is kept. -/
def keep (n : Node) (c : Call) (value : Value) : Node where
  cache := Function.update n.cache c.kind ((n.cache c.kind).insert (.str c.name) value)
  pending := none
  mailbox := none
  connected := n.connected

end Node

/-! ## The system -/

/-- Atlas, the nodes, the requests that Atlas has not taken, and the lookups that were sent. -/
structure System where
  atlas : Atlas
  nodes : ℕ → Node
  requests : List (ℕ × Value)
  asked : List (ℕ × Kind × String)

/-- The start. -/
def System.init : System := ⟨.init, fun _ => .init, [], []⟩

/-- Who has the turn: a node that makes a call, Atlas, or a node that gets its reply. -/
inductive Turn where
  | call (i : ℕ) (c : Call)
  | serve
  | receive (i : ℕ)

section Step

variable (host : Host) (place : ℕ → Place)

namespace System

/-- The turn can be taken: a node makes one call at a time. -/
def Ready (s : System) : Turn → Prop
  | .call i _ => (s.nodes i).pending = none
  | .serve => s.requests ≠ []
  | .receive i => (s.nodes i).mailbox ≠ none

/-- Another node under a number. -/
def setNode (s : System) (i : ℕ) (n : Node) : System :=
  { s with nodes := Function.update s.nodes i n }

/-- A turn; `none` if it cannot be taken, or raises an exception. -/
def step (s : System) : Turn → Option System
  | .call i c =>
    if (s.nodes i).pending ≠ none then none
    else
      match (s.nodes i).cached c with
      | some value => ((s.nodes i).connect c value).map (s.setNode i)
      | none =>
        some { s.setNode i { s.nodes i with pending := some c } with
          requests := s.requests ++ [(i, c.message (place i))]
          asked := s.asked ++ [(i, c.kind, c.name)] }
  | .serve =>
    match s.requests with
    | [] => none
    | (i, message) :: requests =>
      match Atlas.serve host message s.atlas with
      | .ok _ atlas =>
        some { s.setNode i { s.nodes i with mailbox := atlas.replies.getLast? } with
          atlas
          requests }
      | .error _ _ => none
  | .receive i =>
    match (s.nodes i).pending, (s.nodes i).mailbox with
    | some c, some value => (((s.nodes i).keep c value).connect c value).map (s.setNode i)
    | _, _ => none

/-- Some turns, one after the other. -/
def run (s : System) (turns : List Turn) : Option System := turns.foldlM (step host place) s

end System

end Step

variable {host : Host} {place : ℕ → Place} {s t : System} {i j : ℕ} {c : Call}

/-! ## Requests and replies -/

/-- What a node asks for. -/
def lookupOf (place : Place) (kind : Kind) (name : String) : Lookup :=
  ⟨kind, name, place.interface, place.pid⟩

/-- The address of a call: that of the frontend or of the backend. -/
def Call.address (c : Call) (p : Proxy) (locality : Locality) : String :=
  if c.front then p.frontendAddress locality else p.backendAddress locality

/-- A request is complete and valid, if the name is not empty. -/
theorem lookup_message (hname : c.name ≠ "") (place : Place) :
    Atlas.lookup? (c.message place) = some (lookupOf place c.kind c.name) := by
  obtain ⟨kind, front, name⟩ := c
  replace hname : name ≠ "" := hname
  cases kind <;>
    simp [Call.message, Atlas.lookup?, field, Table.get, Dict.get_cons, kind?,
      same_int, Kind.request, Kind.nameKey, C.REQUEST, C.CHANNEL, C.SERVICE, C.INTERFACE, C.PID,
      C.LOOKUP_CHANNEL, C.LOOKUP_SERVICE, hname, lookupOf]

/-- The address in a reply is that of the end of the proxy that was asked for. -/
theorem item_answer (c : Call) (p : Proxy) (locality : Locality) :
    Node.item? (Kind.answer c.kind p locality) c.key = some (.str (c.address p locality)) := by
  obtain ⟨kind, front, name⟩ := c
  cases kind <;> cases front <;>
    simp [Node.item?, Kind.answer, response, Table.get, Dict.get_cons, same_int,
      Call.key, Call.address, Kind.frontendKey, Kind.backendKey, C.PUB, C.SUB, C.REQ, C.REP]

/-- A reply with addresses is true. -/
theorem truthy_answered {atlas : Atlas} {l : Lookup} {value : Value}
    (h : Answered host atlas l value) : value.truthy = true := by
  obtain ⟨p, -, rfl⟩ := h
  rfl

/-- Every name that one Atlas finds, the other finds, too, and the same proxy. -/
def Extends (atlas atlas' : Atlas) : Prop :=
  ∀ kind name p, (atlas.table kind).get name = some p → (atlas'.table kind).get name = some p

theorem answered_mono {atlas atlas' : Atlas} (hext : Extends atlas atlas') {l : Lookup}
    {value : Value} (h : Answered host atlas l value) : Answered host atlas' l value := by
  obtain ⟨p, hp, hvalue⟩ := h
  exact ⟨p, hext _ _ _ hp, hvalue⟩

/-- A request that is complete and valid is answered. -/
theorem serve_lookup (hports : ∀ ports, host.bind_to_random_port ports ∉ ports) {atlas : Atlas}
    (hs : Named host atlas) {message : Value} {l : Lookup} (hl : Atlas.lookup? message = some l) :
    ∃ atlas' reply, Atlas.serve host message atlas = .ok () atlas' ∧
      atlas'.replies.getLast? = some reply ∧ Named host atlas' ∧ Answered host atlas' l reply ∧
      Extends atlas atlas' := by
  have hone : [message].map Atlas.lookup? = [l].map some := congrArg (fun r => [r]) hl
  obtain ⟨atlas', replies, hrun, hnamed, hext, hreplies, hall⟩ := run_lookups hports hone hs
  obtain ⟨reply, hanswered, rfl⟩ : ∃ reply, Answered host atlas' l reply ∧ replies = [reply] := by
    cases hall with
    | cons h hnil =>
      cases hnil
      exact ⟨_, h, rfl⟩
  refine ⟨atlas', reply, ?_, ?_, hnamed, hanswered, hext⟩
  · rw [Atlas.run, List.forM_cons, List.forM_nil, bind_pure_unit] at hrun
    exact hrun
  · rw [hreplies, List.getLast?_append]
    rfl

/-! ## The invariant -/

/-- What holds between Atlas, the requests and the nodes. -/
structure Sound (host : Host) (place : ℕ → Place) (s : System) : Prop where
  named : Named host s.atlas
  /-- What is kept in a cache is the answer of Atlas, then and now. -/
  cached : ∀ i kind name value, ((s.nodes i).cache kind).get (.str name) = some value →
    Answered host s.atlas (lookupOf (place i) kind name) value
  /-- A socket is connected to its end of the proxy. -/
  connected : ∀ i c a, (c, a) ∈ (s.nodes i).connected →
    ∃ p, (s.atlas.table c.kind).get (.str c.name) = some p ∧
      a = .str (c.address p (Lookup.locality host (lookupOf (place i) c.kind c.name)))
  /-- A request is that of a node that waits. -/
  requests : ∀ i message, (i, message) ∈ s.requests → ∃ c, (s.nodes i).pending = some c ∧
    (s.nodes i).mailbox = none ∧ message = c.message (place i) ∧ c.name ≠ ""
  /-- A reply is the answer that its node waits for. -/
  replied : ∀ i value, (s.nodes i).mailbox = some value → ∃ c, (s.nodes i).pending = some c ∧
    Answered host s.atlas (lookupOf (place i) c.kind c.name) value
  /-- A node that waits has a request or a reply. -/
  waiting : ∀ i, (s.nodes i).pending ≠ none → (s.nodes i).mailbox ≠ none ∨
    i ∈ s.requests.map Prod.fst
  senders : (s.requests.map Prod.fst).Nodup
  /-- Nobody asks twice. -/
  once : s.asked.Nodup
  /-- Who has asked waits for the answer or keeps it. -/
  asked : ∀ i kind name, (i, kind, name) ∈ s.asked →
    (∃ c, (s.nodes i).pending = some c ∧ c.kind = kind ∧ c.name = name) ∨
      ((s.nodes i).cache kind).get (.str name) ≠ none

theorem sound_init : Sound host place .init where
  named := named_init host
  cached := nofun
  connected := nofun
  requests := nofun
  replied := nofun
  waiting _ h := absurd rfl h
  senders := .nil
  once := .nil
  asked := nofun

/-! ## Turns -/

/-- A node with the number is the new one, and the others stay. -/
theorem nodes_setNode (s : System) (i : ℕ) (n : Node) (j : ℕ) :
    (s.setNode i n).nodes j = if j = i then n else s.nodes j :=
  Function.update_apply s.nodes i n j

/-- A socket is connected. -/
theorem Sound.connect (h : Sound host place s) {value : Value}
    (hanswered : Answered host s.atlas (lookupOf (place i) c.kind c.name) value) :
    ∃ n, (s.nodes i).connect c value = some n ∧ Sound host place (s.setNode i n) := by
  obtain ⟨p, hp, rfl⟩ := hanswered
  have hitem := item_answer c p (Lookup.locality host (lookupOf (place i) c.kind c.name))
  obtain ⟨n, hn⟩ : ∃ n, n = { s.nodes i with
    connected := (s.nodes i).connected ++ [(c, Value.str (c.address p (Lookup.locality host
      (lookupOf (place i) c.kind c.name))))] } := ⟨_, rfl⟩
  refine ⟨n, by rw [hn]; exact congrArg (Option.map _) hitem, ?_⟩
  -- Only what is connected changes.
  have hcache (j : ℕ) : ((s.setNode i n).nodes j).cache = (s.nodes j).cache := by
    rw [nodes_setNode, hn]
    split_ifs with hj
    · rw [hj]
    · rfl
  have hpending (j : ℕ) : ((s.setNode i n).nodes j).pending = (s.nodes j).pending := by
    rw [nodes_setNode, hn]
    split_ifs with hj
    · rw [hj]
    · rfl
  have hmailbox (j : ℕ) : ((s.setNode i n).nodes j).mailbox = (s.nodes j).mailbox := by
    rw [nodes_setNode, hn]
    split_ifs with hj
    · rw [hj]
    · rfl
  refine ⟨h.named, fun j kind name value hv => ?_, fun j d a hd => ?_, fun j message hm => ?_,
    fun j value hv => ?_, fun j hj => ?_, h.senders, h.once, fun j kind name hasked => ?_⟩
  · rw [hcache] at hv
    exact h.cached j kind name value hv
  · rw [nodes_setNode, hn] at hd
    split_ifs at hd with hj
    · subst hj
      rcases List.mem_append.mp hd with hold | hnew
      · exact h.connected j d a hold
      · obtain ⟨rfl, rfl⟩ := Prod.mk.inj (List.mem_singleton.mp hnew)
        exact ⟨p, hp, rfl⟩
    · exact h.connected j d a hd
  · rw [hpending, hmailbox]
    exact h.requests j message hm
  · rw [hmailbox] at hv
    rw [hpending]
    exact h.replied j value hv
  · rw [hpending] at hj
    rw [hmailbox]
    exact h.waiting j hj
  · rw [hpending, hcache]
    exact h.asked j kind name hasked

/-- A reply is kept. -/
theorem Sound.keep (h : Sound host place s) {value : Value}
    (hpending : (s.nodes i).pending = some c) (hmailbox : (s.nodes i).mailbox = some value) :
    Sound host place (s.setNode i ((s.nodes i).keep c value)) ∧
      Answered host s.atlas (lookupOf (place i) c.kind c.name) value := by
  obtain ⟨c', hc', hanswered⟩ := h.replied i value hmailbox
  obtain rfl := Option.some.inj (hpending.symm.trans hc')
  refine ⟨?_, hanswered⟩
  -- What is found in the caches: the reply, or what was found before.
  have hcache (j : ℕ) (kind : Kind) (name : String) :
      (((s.setNode i ((s.nodes i).keep c value)).nodes j).cache kind).get (.str name) =
        if j = i ∧ kind = c.kind ∧ name = c.name then some value
        else ((s.nodes j).cache kind).get (.str name) := by
    rw [nodes_setNode]
    by_cases hj : j = i
    · subst hj
      rw [if_pos rfl, Node.keep]
      dsimp only
      by_cases hkind : kind = c.kind
      · subst hkind
        rw [Function.update_self]
        have hget : (((s.nodes j).cache c.kind).insert (.str c.name) value).get (.str name) =
            if (Value.str c.name).same (.str name) then some value
            else ((s.nodes j).cache c.kind).get (.str name) :=
          Dict.get_insert (fun a b => same_symm (v := a) (w := b))
            (fun a b d => same_trans (u := a) (v := b) (w := d)) _ _ _ _
        rw [hget]
        simp only [same_str, true_and, @eq_comm _ c.name]
      · rw [Function.update_of_ne hkind, if_neg fun h => hkind h.2.1]
    · rw [if_neg hj, if_neg fun h => hj h.1]
  have hother {j : ℕ} (hj : j ≠ i) :
      (s.setNode i ((s.nodes i).keep c value)).nodes j = s.nodes j := by
    rw [nodes_setNode, if_neg hj]
  have hself : (s.setNode i ((s.nodes i).keep c value)).nodes i = (s.nodes i).keep c value := by
    rw [nodes_setNode, if_pos rfl]
  refine ⟨h.named, fun j kind name v hv => ?_, fun j d a hd => ?_, fun j message hm => ?_,
    fun j v hv => ?_, fun j hj => ?_, h.senders, h.once, fun j kind name hasked => ?_⟩
  · rw [hcache] at hv
    split_ifs at hv with hnew
    · obtain ⟨rfl, rfl, rfl⟩ := hnew
      obtain rfl := Option.some.inj hv
      exact hanswered
    · exact h.cached j kind name v hv
  · by_cases hj : j = i
    · subst hj
      rw [hself] at hd
      exact h.connected j d a hd
    · rw [hother hj] at hd
      exact h.connected j d a hd
  · have hj : j ≠ i := by
      rintro rfl
      obtain ⟨d, -, hnone, -⟩ := h.requests j message hm
      rw [hmailbox] at hnone
      cases hnone
    rw [hother hj]
    exact h.requests j message hm
  · have hj : j ≠ i := by
      rintro rfl
      rw [hself] at hv
      cases hv
    rw [hother hj] at hv ⊢
    exact h.replied j v hv
  · have hne : j ≠ i := by
      rintro rfl
      rw [hself] at hj
      exact hj rfl
    rw [hother hne] at hj ⊢
    exact h.waiting j hj
  · rw [hcache]
    by_cases hnew : j = i ∧ kind = c.kind ∧ name = c.name
    · rw [if_pos hnew]
      exact .inr (Option.some_ne_none _)
    · rw [if_neg hnew]
      by_cases hj : j = i
      · subst hj
        rcases h.asked j kind name hasked with ⟨d, hd, rfl, rfl⟩ | hcached
        · obtain rfl := Option.some.inj (hpending.symm.trans hd)
          exact absurd ⟨rfl, rfl, rfl⟩ hnew
        · exact .inr hcached
      · rw [hother hj]
        exact h.asked j kind name hasked

/-- A request is sent. -/
theorem Sound.ask (h : Sound host place s) (hpending : (s.nodes i).pending = none)
    (hnone : (s.nodes i).cached c = none) (hname : c.name ≠ "") :
    Sound host place { s.setNode i { s.nodes i with pending := some c } with
      requests := s.requests ++ [(i, c.message (place i))]
      asked := s.asked ++ [(i, c.kind, c.name)] } := by
  have hself : (s.setNode i { s.nodes i with pending := some c }).nodes i =
      { s.nodes i with pending := some c } := by
    rw [nodes_setNode, if_pos rfl]
  have hother {j : ℕ} (hj : j ≠ i) :
      (s.setNode i { s.nodes i with pending := some c }).nodes j = s.nodes j := by
    rw [nodes_setNode, if_neg hj]
  have hmailbox : (s.nodes i).mailbox = none := by
    by_contra hsome
    obtain ⟨value, hvalue⟩ := Option.ne_none_iff_exists'.mp hsome
    obtain ⟨d, hd, -⟩ := h.replied i value hvalue
    rw [hpending] at hd
    cases hd
  have hidle : i ∉ s.requests.map Prod.fst := by
    intro hmem
    obtain ⟨⟨j, message⟩, hm, rfl⟩ := List.mem_map.mp hmem
    obtain ⟨d, hd, -⟩ := h.requests j message hm
    rw [hpending] at hd
    cases hd
  have hnew : (i, c.kind, c.name) ∉ s.asked := by
    intro hmem
    rcases h.asked i c.kind c.name hmem with ⟨d, hd, -⟩ | hcached
    · rw [hpending] at hd
      cases hd
    · obtain ⟨value, hvalue⟩ := Option.ne_none_iff_exists'.mp hcached
      have htrue := truthy_answered (h.cached i c.kind c.name value hvalue)
      rw [Node.cached, hvalue, Option.filter_some, if_pos htrue] at hnone
      cases hnone
  refine ⟨h.named, fun j kind name v hv => ?_, fun j d a hd => ?_, fun j message hm => ?_,
    fun j v hv => ?_, fun j hj => ?_, ?_, ?_, fun j kind name hasked => ?_⟩
  · by_cases hj : j = i
    · subst hj
      rw [hself] at hv
      exact h.cached j kind name v hv
    · rw [hother hj] at hv
      exact h.cached j kind name v hv
  · by_cases hj : j = i
    · subst hj
      rw [hself] at hd
      exact h.connected j d a hd
    · rw [hother hj] at hd
      exact h.connected j d a hd
  · rcases List.mem_append.mp hm with hold | hlast
    · have hj : j ≠ i := by
        rintro rfl
        exact hidle (List.mem_map.mpr ⟨_, hold, rfl⟩)
      rw [hother hj]
      exact h.requests j message hold
    · obtain ⟨rfl, rfl⟩ := Prod.mk.inj (List.mem_singleton.mp hlast)
      rw [hself]
      exact ⟨c, rfl, hmailbox, rfl, hname⟩
  · have hj : j ≠ i := by
      rintro rfl
      rw [hself, hmailbox] at hv
      cases hv
    rw [hother hj] at hv ⊢
    exact h.replied j v hv
  · rw [List.map_append]
    by_cases hj' : j = i
    · subst hj'
      exact .inr (List.mem_append_right _ (List.mem_singleton_self j))
    · rw [hother hj'] at hj ⊢
      rcases h.waiting j hj with hsome | hmem
      · exact .inl hsome
      · exact .inr (List.mem_append_left _ hmem)
  · rw [List.map_append]
    exact h.senders.append (List.nodup_singleton i)
      (List.disjoint_singleton.mpr hidle)
  · exact h.once.append (List.nodup_singleton _) (List.disjoint_singleton.mpr hnew)
  · rcases List.mem_append.mp hasked with hold | hlast
    · by_cases hj : j = i
      · subst hj
        rw [hself]
        rcases h.asked j kind name hold with ⟨d, hd, -⟩ | hcached
        · rw [hpending] at hd
          cases hd
        · exact .inr hcached
      · rw [hother hj]
        exact h.asked j kind name hold
    · obtain ⟨rfl, hcall⟩ := Prod.mk.inj (List.mem_singleton.mp hlast)
      obtain ⟨rfl, rfl⟩ := Prod.mk.inj hcall
      rw [hself]
      exact .inl ⟨c, rfl, rfl, rfl⟩

/-- A request is answered. -/
theorem Sound.serve (hports : ∀ ports, host.bind_to_random_port ports ∉ ports)
    (h : Sound host place s) {message : Value} {requests : List (ℕ × Value)}
    (hrequests : s.requests = (i, message) :: requests) :
    ∃ atlas, Atlas.serve host message s.atlas = .ok () atlas ∧
      Sound host place { s.setNode i { s.nodes i with mailbox := atlas.replies.getLast? } with
        atlas
        requests } := by
  obtain ⟨c, hpending, -, rfl, hname⟩ := h.requests i message (by
    rw [hrequests]
    exact List.mem_cons_self)
  obtain ⟨atlas, reply, hserve, hlast, hnamed, hanswered, hext⟩ :=
    serve_lookup hports h.named (lookup_message hname (place i))
  refine ⟨atlas, hserve, ?_⟩
  rw [hlast]
  have hself : (s.setNode i { s.nodes i with mailbox := some reply }).nodes i =
      { s.nodes i with mailbox := some reply } := by
    rw [nodes_setNode, if_pos rfl]
  have hother {j : ℕ} (hj : j ≠ i) :
      (s.setNode i { s.nodes i with mailbox := some reply }).nodes j = s.nodes j := by
    rw [nodes_setNode, if_neg hj]
  have hsenders := h.senders
  rw [hrequests, List.map_cons, List.nodup_cons] at hsenders
  refine ⟨hnamed, fun j kind name v hv => ?_, fun j d a hd => ?_, fun j message hm => ?_,
    fun j v hv => ?_, fun j hj => ?_, hsenders.2, h.once, fun j kind name hasked => ?_⟩
  · have hv' : ((s.nodes j).cache kind).get (.str name) = some v := by
      by_cases hj : j = i
      · subst hj
        rw [hself] at hv
        exact hv
      · rw [hother hj] at hv
        exact hv
    exact answered_mono hext (h.cached j kind name v hv')
  · have hd' : (d, a) ∈ (s.nodes j).connected := by
      by_cases hj : j = i
      · subst hj
        rw [hself] at hd
        exact hd
      · rw [hother hj] at hd
        exact hd
    obtain ⟨p, hp, ha⟩ := h.connected j d a hd'
    exact ⟨p, hext _ _ _ hp, ha⟩
  · have hj : j ≠ i := by
      rintro rfl
      exact hsenders.1 (List.mem_map.mpr ⟨_, hm, rfl⟩)
    rw [hother hj]
    refine h.requests j message ?_
    rw [hrequests]
    exact List.mem_cons_of_mem _ hm
  · by_cases hj : j = i
    · subst hj
      rw [hself] at hv ⊢
      obtain rfl := Option.some.inj hv
      exact ⟨c, hpending, hanswered⟩
    · rw [hother hj] at hv ⊢
      obtain ⟨d, hd, hanswered'⟩ := h.replied j v hv
      exact ⟨d, hd, answered_mono hext hanswered'⟩
  · by_cases hj' : j = i
    · subst hj'
      rw [hself]
      exact .inl (Option.some_ne_none _)
    · rw [hother hj'] at hj ⊢
      rcases h.waiting j hj with hsome | hmem
      · exact .inl hsome
      · rw [hrequests, List.map_cons] at hmem
        exact .inr ((List.mem_cons.mp hmem).resolve_left hj')
  · by_cases hj : j = i
    · subst hj
      rw [hself]
      exact h.asked j kind name hasked
    · rw [hother hj]
      exact h.asked j kind name hasked

/-! ## Runs -/

/-- The names of the calls are not empty. -/
def Turn.Named : Turn → Prop
  | .call _ c => c.name ≠ ""
  | _ => True

/-- A turn that is ready can be taken, and keeps the invariant. -/
theorem Sound.step (hports : ∀ ports, host.bind_to_random_port ports ∉ ports)
    (h : Sound host place s) {turn : Turn} (hnamed : turn.Named) (hready : s.Ready turn) :
    ∃ t, s.step host place turn = some t ∧ Sound host place t := by
  cases turn with
  | call i c =>
    have hidle : ¬(s.nodes i).pending ≠ none := not_not.mpr hready
    cases hcached : (s.nodes i).cached c with
    | some value =>
      obtain ⟨hget, -⟩ := Option.filter_eq_some_iff.mp hcached
      obtain ⟨n, hconnect, hsound⟩ := h.connect (h.cached i c.kind c.name value hget)
      refine ⟨s.setNode i n, ?_, hsound⟩
      rw [System.step, if_neg hidle, hcached]
      exact congrArg (Option.map (s.setNode i)) hconnect
    | none =>
      refine ⟨_, ?_, h.ask hready hcached hnamed⟩
      rw [System.step, if_neg hidle, hcached]
  | serve =>
    obtain ⟨⟨i, message⟩, requests, hrequests⟩ := List.exists_cons_of_ne_nil hready
    obtain ⟨atlas, hserve, hsound⟩ := h.serve hports hrequests
    refine ⟨_, ?_, hsound⟩
    rw [System.step, hrequests]
    dsimp only
    rw [hserve]
  | receive i =>
    obtain ⟨value, hvalue⟩ := Option.ne_none_iff_exists'.mp hready
    obtain ⟨c, hpending, -⟩ := h.replied i value hvalue
    obtain ⟨hkept, hanswered⟩ := h.keep hpending hvalue
    have hself : (s.setNode i ((s.nodes i).keep c value)).nodes i = (s.nodes i).keep c value := by
      rw [nodes_setNode, if_pos rfl]
    obtain ⟨n, hconnect, hsound⟩ := hkept.connect (i := i) hanswered
    rw [hself] at hconnect
    have htwice : (s.setNode i ((s.nodes i).keep c value)).setNode i n = s.setNode i n := by
      unfold System.setNode
      rw [Function.update_idem]
    rw [htwice] at hsound
    refine ⟨s.setNode i n, ?_, hsound⟩
    rw [System.step, hpending, hvalue]
    exact congrArg (Option.map (s.setNode i)) hconnect

/-- A turn that is not ready cannot be taken. -/
theorem ready_of_step {turn : Turn} (h : s.step host place turn = some t) : s.Ready turn := by
  cases turn with
  | call i c =>
    by_contra hbusy
    have hwaits : (s.nodes i).pending ≠ none := hbusy
    rw [System.step, if_pos hwaits] at h
    cases h
  | serve =>
    intro hnil
    rw [System.step, hnil] at h
    cases h
  | receive i =>
    intro hnone
    rw [System.step, hnone] at h
    cases hpending : (s.nodes i).pending <;> rw [hpending] at h <;> cases h

theorem Sound.run (hports : ∀ ports, host.bind_to_random_port ports ∉ ports) (turns : List Turn)
    (hnames : ∀ turn ∈ turns, turn.Named) (h : Sound host place s)
    (hrun : s.run host place turns = some t) : Sound host place t := by
  induction turns generalizing s with
  | nil =>
    obtain rfl := Option.some.inj hrun
    exact h
  | cons turn turns ih =>
    obtain ⟨hturn, hturns⟩ := List.forall_mem_cons.mp hnames
    obtain ⟨u, hstep, hrest⟩ := Option.bind_eq_some_iff.mp hrun
    obtain ⟨u', hstep', hsound⟩ := h.step hports hturn (ready_of_step hstep)
    obtain rfl := Option.some.inj (hstep.symm.trans hstep')
    exact ih hturns hsound hrest

/-- For every interleaving of calls, requests and replies of any nodes, if `bind_to_random_port`
always answers with a port that is not in use and no name is empty: sockets with one name are
connected to the ends of the one proxy that Atlas has for it, and sockets with different names to
different addresses; every turn that is ready can be taken; a node that waits has a request or a
reply; and no node asks twice for a name. -/
theorem nodes_meet (hports : ∀ ports, host.bind_to_random_port ports ∉ ports) (turns : List Turn)
    (hnames : ∀ turn ∈ turns, turn.Named) (hrun : System.init.run host place turns = some s) :
    (∀ i c a, (c, a) ∈ (s.nodes i).connected → ∃ p,
      (s.atlas.table c.kind).get (.str c.name) = some p ∧ Opened s.atlas c.kind p ∧
        a = .str (c.address p (Lookup.locality host (lookupOf (place i) c.kind c.name)))) ∧
    (∀ i j c d a b, (c, a) ∈ (s.nodes i).connected → (d, b) ∈ (s.nodes j).connected →
      c.kind ≠ d.kind ∨ c.name ≠ d.name → a ≠ b) ∧
    (∀ turn, turn.Named → s.Ready turn → (s.step host place turn).isSome) ∧
    (∀ i, (s.nodes i).pending ≠ none →
      (s.nodes i).mailbox ≠ none ∨ i ∈ s.requests.map Prod.fst) ∧
    s.asked.Nodup := by
  have hsound := Sound.run hports turns hnames sound_init hrun
  refine ⟨fun i c a hc => ?_, fun i j c d a b hc hd hne heq => ?_, fun turn hnamed hready => ?_,
    hsound.waiting, hsound.once⟩
  · obtain ⟨p, hp, ha⟩ := hsound.connected i c a hc
    obtain ⟨e, he, -, rfl⟩ := Dict.exists_mem_of_get_eq_some hp
    exact ⟨e.2, hp, hsound.named.opened c.kind e he, ha⟩
  · obtain ⟨p, hp, rfl⟩ := hsound.connected i c a hc
    obtain ⟨q, hq, hb⟩ := hsound.connected j d b hd
    have hmem (e : Call) (r : Proxy) (locality : Locality) :
        e.address r locality ∈ r.addresses := by
      unfold Call.address
      split_ifs
      · exact r.frontendAddress_mem locality
      · exact r.backendAddress_mem locality
    have hsame := Value.str.inj (heq.trans hb)
    have hdisjoint := disjoint_of_ne host hsound.named hp hq hne
    exact hdisjoint (hmem c p _) (hsame ▸ hmem d q _)
  · obtain ⟨t, hstep, -⟩ := hsound.step hports hnamed hready
    rw [hstep]
    rfl

/-- A publisher in the process of Atlas and a subscriber on another host ask at the same time. -/
def twoTurns : List Turn :=
  [.call 0 (publishToChannel "depth"), .call 1 (subscribeToChannel "depth"), .serve, .serve,
    .receive 1, .receive 0]

/-- The publisher and the subscriber are connected to the one proxy. -/
theorem nodes_meet_two : ∃ s p,
    System.init.run ⟨"10.0.0.1", 7, nextPort⟩ (fun i => ⟨"10.0.0." ++ (i + 1).repr, 7⟩) twoTurns =
      some s ∧
    (s.atlas.table .channel).get (.str "depth") = some p ∧
    (s.nodes 0).connected = [(publishToChannel "depth", .str p.frontend_inproc)] ∧
    (s.nodes 1).connected = [(subscribeToChannel "depth", .str p.backend_tcp)] := by
  have hcalls : (System.init.run ⟨"10.0.0.1", 7, nextPort⟩ (fun i => ⟨"10.0.0." ++ (i + 1).repr, 7⟩)
      twoTurns).map (fun s =>
        ((s.nodes 0).connected.map Prod.fst, (s.nodes 1).connected.map Prod.fst)) =
      some ([publishToChannel "depth"], [subscribeToChannel "depth"]) := by decide +kernel
  obtain ⟨s, hrun, hboth⟩ := Option.map_eq_some_iff.mp hcalls
  obtain ⟨hfirst, hsecond⟩ := Prod.mk.inj hboth
  obtain ⟨⟨c, a⟩, hfirst, hc⟩ := List.map_eq_singleton_iff.mp hfirst
  obtain ⟨⟨d, b⟩, hsecond, hd⟩ := List.map_eq_singleton_iff.mp hsecond
  obtain rfl : publishToChannel "depth" = c := hc.symm
  obtain rfl : subscribeToChannel "depth" = d := hd.symm
  have hnames : ∀ turn ∈ twoTurns, turn.Named := by
    simp [twoTurns, Turn.Named, publishToChannel, subscribeToChannel]
  obtain ⟨hmeet, -⟩ := nodes_meet nextPort_not_mem twoTurns hnames hrun
  obtain ⟨p, hp, -, ha⟩ := hmeet 0 _ a (by rw [hfirst]; exact List.mem_singleton_self _)
  obtain ⟨q, hq, -, hb⟩ := hmeet 1 _ b (by rw [hsecond]; exact List.mem_singleton_self _)
  obtain rfl := Option.some.inj (hp.symm.trans hq)
  refine ⟨s, p, hrun, hp, ?_, ?_⟩
  · rw [hfirst, ha]
    rfl
  · rw [hsecond, hb]
    rfl

end Guillemot.Roslite.Discovery
