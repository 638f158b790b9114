import Guillemot.Roslite.Atlas

/-!
# Requests to Atlas

Which requests Atlas answers. A request is read piece by piece, and an exception leaves the loop of
`run`: `serves_iff` says which requests have one reply each, and leave the tables as they are unless
they are complete and valid. `lookup?` is what a complete and valid request asks for.
-/

namespace Guillemot.Roslite

open Raising

/-- What a complete and valid request asks for. -/
structure Lookup where
  kind : Kind
  name : String
  interface : String
  pid : ℤ
deriving DecidableEq, Repr

/-- The type of a request. -/
def Kind.request : Kind → ℤ
  | .channel => C.LOOKUP_CHANNEL
  | .service => C.LOOKUP_SERVICE

/-- The key of the name in a request. -/
def Kind.nameKey : Kind → ℤ
  | .channel => C.CHANNEL
  | .service => C.SERVICE

namespace Atlas

/-- The kind of proxy that a request type stands for. -/
def kind? : Value → Option Kind
  | .int n =>
    if n = C.LOOKUP_CHANNEL then some .channel
    else if n = C.LOOKUP_SERVICE then some .service
    else none
  | _ => none

/-- What a request asks for that is complete and valid: a map with a request type, a name that is a
text and not empty, an interface that is a text, and a process id that is a number. -/
def lookup? : Value → Option Lookup
  | .map entries => do
    let kind ← kind? (field entries C.REQUEST)
    match field entries kind.nameKey, field entries C.INTERFACE, field entries C.PID with
    | .str name, .str interface, .int pid =>
      if name = "" then none else some ⟨kind, name, interface, pid⟩
    | _, _, _ => none
  | _ => none

variable (host : Host)

/-- Where the node of a lookup runs. -/
def Lookup.locality (l : Lookup) : Locality :=
  if l.interface = host.interface then
    if l.pid = host.pid then .sameProcess else .sameHost
  else .otherHost

theorem lookup?_eq_some {message : Value} {l : Lookup} (h : lookup? message = some l) :
    ∃ entries, message = .map entries ∧ kind? (field entries C.REQUEST) = some l.kind ∧
      field entries l.kind.nameKey = .str l.name ∧ l.name ≠ "" ∧
      field entries C.INTERFACE = .str l.interface ∧ field entries C.PID = .int l.pid := by
  cases message with
  | map entries =>
    obtain ⟨kind, hkind, h⟩ := Option.bind_eq_some_iff.mp h
    split at h
    · rename_i name interface pid hname hinterface hpid
      split_ifs at h with hempty
      obtain rfl := Option.some.inj h
      exact ⟨entries, rfl, hkind, hname, hempty, hinterface, hpid⟩
    · cases h
  | _ => cases h

/-- An entry that is no default is there. -/
theorem get_of_field {entries : List (Value × Value)} {key : ℤ} {value : Value}
    (h : field entries key = value) (hvalue : value ≠ .nil) :
    Table.get entries.reverse (.int key) = some value := by
  unfold field at h
  cases hget : Table.get entries.reverse (.int key) with
  | none =>
    rw [hget] at h
    exact absurd h.symm hvalue
  | some value' =>
    rw [hget] at h
    exact congrArg some h

theorem same_str {a b : String} : (Value.str a).same (.str b) = true ↔ a = b := by
  simp [Value.same, Value.key]

theorem same_int {a b : ℤ} : (Value.int a).same (.int b) = true ↔ a = b := by
  simp [Value.same, Value.key]

theorem kind?_eq_some {request : Value} {kind : Kind} (h : kind? request = some kind) :
    request = .int kind.request := by
  cases request with
  | int n =>
    simp only [kind?] at h
    split_ifs at h with hchannel hservice
    · obtain rfl := Option.some.inj h
      rw [hchannel, Kind.request]
    · obtain rfl := Option.some.inj h
      rw [hservice, Kind.request]
  | _ => cases h

/-- A complete and valid request is a lookup for the code, too. -/
theorem asked_of_lookup {entries : List (Value × Value)} {l : Lookup}
    (h : lookup? (.map entries) = some l) :
    asked entries = some (l.kind, .str l.name) ∧
      locality? host entries = some (Lookup.locality host l) := by
  obtain ⟨entries, ⟨⟩, hkind, hname, hempty, hinterface, hpid⟩ := lookup?_eq_some h
  constructor
  · have htruthy : (Value.str l.name).truthy = true := by simp [Value.truthy, hempty]
    have hrequest := kind?_eq_some hkind
    unfold asked
    rw [hrequest]
    clear hrequest hkind h
    cases hk : l.kind with
    | channel =>
      rw [hk] at hname
      rw [show field entries C.CHANNEL = .str l.name from hname, htruthy]
      rfl
    | service =>
      rw [hk] at hname
      rw [show field entries C.SERVICE = .str l.name from hname, htruthy]
      rfl
  · unfold locality? Lookup.locality
    rw [get_of_field hinterface nofun, get_of_field hpid nofun]
    by_cases hi : l.interface = host.interface
    · by_cases hp : l.pid = host.pid
      · simp [hi, hp, same_str, same_int]
      · simp [hi, hp, same_str, same_int, Ne.symm hp]
    · simp [hi, same_str, Ne.symm hi]

/-! ## Tables -/

theorem table_setTable (s : Atlas) (proxies : Table Proxy) (kind : Kind) :
    (s.setTable proxies kind).table kind = proxies := by
  cases kind <;> rfl

theorem replies_lookUp (s : Atlas) (kind : Kind) (name : Value) :
    (s.lookUp host kind name).2.replies = s.replies := by
  unfold lookUp
  cases (s.table kind).get name with
  | some p => rfl
  | none => cases kind <;> rfl

/-- A name that is found leaves everything as it is. -/
theorem lookUp_of_found {s : Atlas} {kind : Kind} {name : Value}
    (h : ((s.table kind).get name).isSome) : (s.lookUp host kind name).2 = s := by
  obtain ⟨p, hp⟩ := Option.isSome_iff_exists.mp h
  rw [lookUp, hp]

theorem table_lookUp_of_not_found {s : Atlas} {kind : Kind} {name : Value}
    (h : (s.table kind).get name = none) :
    ((s.lookUp host kind name).2.table kind).length = (s.table kind).length + 1 := by
  rw [lookUp, h]
  simp only [table_setTable, Table.insert]
  rw [Dict.insert_of_get_eq_none h, List.length_append]
  rfl

/-! ## Requests, one after the other -/

/-- A request is a map. If it is a lookup with a true name, then the name can be a key; the
interface is there, and the process id, too, if it is the interface of Atlas; and the request is
complete and valid, or the name is in the table. -/
def Fine (s : Atlas) (message : Value) : Prop :=
  ∃ entries, message = .map entries ∧ ∀ kind name, asked entries = some (kind, name) →
    name.hashable ∧ (locality? host entries).isSome ∧
      ((lookup? message).isSome ∨ ((s.table kind).get name).isSome)

/-- A request has one reply, and leaves the tables as they are unless it is complete and valid. -/
def Served (s : Atlas) (message : Value) (t : Atlas) : Prop :=
  (∃ response, t.replies = s.replies ++ [response]) ∧
    (lookup? message = none → t.channels = s.channels ∧ t.services = s.services)

theorem serve_of_fine {s : Atlas} {message : Value} (h : Fine host s message) :
    ∃ t, serve host message s = .ok () t ∧ Served s message t := by
  obtain ⟨entries, rfl, hall⟩ := h
  rw [serve_map]
  cases hasked : asked entries with
  | none => exact ⟨_, rfl, ⟨_, rfl⟩, fun _ => ⟨rfl, rfl⟩⟩
  | some lookup =>
    obtain ⟨kind, name⟩ := lookup
    obtain ⟨hname, hlocality, hcomplete⟩ := hall kind name hasked
    obtain ⟨locality, hlocality⟩ := Option.isSome_iff_exists.mp hlocality
    simp only [hname, if_true, hlocality]
    refine ⟨_, rfl, ⟨_, by rw [replied, replies_lookUp]⟩, fun hnone => ?_⟩
    rw [hnone] at hcomplete
    have hsame := lookUp_of_found host (hcomplete.resolve_left (by simp))
    rw [hsame]
    exact ⟨rfl, rfl⟩

theorem fine_of_served {s t : Atlas} {message : Value} (hserve : serve host message s = .ok () t)
    (h : Served s message t) : Fine host s message := by
  cases message with
  | map entries =>
    refine ⟨entries, rfl, fun kind name hasked => ?_⟩
    rw [serve_map, hasked] at hserve
    simp only at hserve
    split_ifs at hserve with hname
    split at hserve
    · rename_i locality hlocality
      refine ⟨hname, Option.isSome_iff_exists.mpr ⟨locality, hlocality⟩, ?_⟩
      obtain rfl : _ = t := (EStateM.Result.ok.inj hserve).2
      -- an incomplete request has not made a table longer
      by_contra hneither
      rw [not_or, Option.not_isSome_iff_eq_none, Option.not_isSome_iff_eq_none] at hneither
      obtain ⟨hincomplete, hnew⟩ := hneither
      obtain ⟨hchannels, hservices⟩ := h.2 hincomplete
      have hlength := table_lookUp_of_not_found host hnew
      have hsame : (s.lookUp host kind name).2.table kind = s.table kind := by
        cases kind with
        | channel => exact hchannels
        | service => exact hservices
      rw [hsame] at hlength
      omega
    · cases hserve
  | _ => cases hserve

/-- For every sequence of requests: Atlas answers each of them with one reply and goes on, and no
request changes the tables that is not complete and valid, exactly when every request is fine with
the tables of that moment. -/
theorem requests_served_iff {messages : List Value} :
    (∃ t, run host messages .init = .ok () t ∧
        ∀ before message later u v, messages = before ++ message :: later →
          run host before .init = .ok () u → serve host message u = .ok () v →
          Served u message v) ↔
      ∀ before message later u, messages = before ++ message :: later →
        run host before .init = .ok () u → Fine host u message := by
  refine forM_all_iff.trans ?_
  constructor
  · intro hall before message later u hsplit hbefore
    obtain ⟨v, hserve, hserved⟩ := hall before message later u hsplit hbefore
    exact fine_of_served host hserve hserved
  · intro hall before message later u hsplit hbefore
    exact serve_of_fine host (hall before message later u hsplit hbefore)

/-- A lookup that does not say where the node runs is not answered. -/
theorem interface_missing :
    ¬ ∀ (host : Host) messages, ∃ t, run host messages .init = .ok () t ∧
      ∀ before message later u v, messages = before ++ message :: later →
        run host before .init = .ok () u → serve host message u = .ok () v →
        Served u message v := by
  intro h
  obtain ⟨t, ht, -⟩ := h ⟨"10.0.0.1", 7, fun ports => 49152 + ports.length⟩
    [.map [(.int C.REQUEST, .int C.LOOKUP_CHANNEL), (.int C.CHANNEL, .str "depth")]]
  cases ht

end Atlas

end Guillemot.Roslite
