import Guillemot.Roslite.Value
import Mathlib.Data.List.Induction

/-!
# The registrar

`Registrar.run` of `registrar.py`: a loop that serves one request after the other. It ends where an
exception leaves it. `served_iff` says for which requests it does not, and what the clients see
then: one reply for each request, the values that were set last, and a message on the channel for
every value that is set.
-/

namespace Guillemot.Roslite

open Raising

/-! ## `Registrar.run` -/

/-- The store, what was sent on the channel, and the replies. -/
structure Registrar where
  store : Table Value
  published : List Value
  replies : List Value

namespace Registrar

/-- The start, with the store that was loaded. -/
def init (store : Table Value) : Registrar := ⟨store, [], []⟩

/-- A step of the loop. -/
abbrev Action (α : Type) := EStateM Exception Registrar α

/-- `self._store[key] = value`. -/
def setItem (key value : Value) : Action Unit := do
  hash key
  modify fun s => { s with store := s.store.insert key value }

/-- `self._store.get(key)`. -/
def getItem (key : Value) : Action Value := do
  hash key
  pure (((← get).store.get key).getD .nil)

/-- `self.put_message(self._registrar_publisher, message)`. -/
def publish (message : Value) : Action Unit :=
  modify fun s => { s with published := s.published ++ [message] }

/-- `self.put_message(self._registrar_provider, message)`. -/
def reply (message : Value) : Action Unit :=
  modify fun s => { s with replies := s.replies ++ [message] }

/-- A response with a value. -/
def response (key value : Value) : Value := .map [(.int C.KEY, key), (.int C.VALUE, value)]

/-- A round of the loop of `run`, behind `get_message`. -/
def serve (message : Value) : Action Unit := do
  let entries ← getAttribute message
  let request := field entries C.REQUEST
  let mut result := Value.nil
  if request.same (.int C.SET) then
    let key := field entries C.KEY
    if key.truthy then
      let value := field entries C.VALUE
      setItem key value
      result := response key value
      publish result
  else if request.same (.int C.GET) then
    let key := field entries C.KEY
    if key.truthy then
      result := response key (← getItem key)
  reply result

/-- The loop of `run`, as long as there are requests. -/
def run (messages : List Value) : Action Unit := forM messages serve

/-! ## What a request asks for -/

/-- What a request asks for. -/
inductive Command where
  | set (key value : Value)
  | get (key : Value)
  | invalid

/-- What a request asks for that is a map: it is valid if its type is known and its key is true and
can be a key. -/
def command : Value → Command
  | .map entries =>
    let key := field entries C.KEY
    if key.truthy && key.hashable then
      if (field entries C.REQUEST).same (.int C.SET) then .set key (field entries C.VALUE)
      else if (field entries C.REQUEST).same (.int C.GET) then .get key
      else .invalid
    else .invalid
  | _ => .invalid

/-- The entry that a request sets. -/
def Command.stored? : Command → Option (Value × Value)
  | .set key value => some (key, value)
  | _ => none

/-- The entries that some requests set, one after the other. -/
def settings (messages : List Value) : List (Value × Value) :=
  messages.filterMap fun message => (command message).stored?

/-- A request is a map, and if it is to set or get a true key, then this can be a key. -/
def Acceptable (message : Value) : Prop :=
  ∃ entries, message = .map entries ∧
    ((field entries C.REQUEST).same (.int C.SET) ∨ (field entries C.REQUEST).same (.int C.GET) →
      (field entries C.KEY).truthy → (field entries C.KEY).hashable)

/-! ## A round -/

/-- The reply to a request. -/
def Command.result (store : Table Value) : Command → Value
  | .set key value => response key value
  | .get key => response key ((store.get key).getD .nil)
  | .invalid => .nil

/-- What a round leaves that is not left by an exception. -/
def after (s : Registrar) (c : Command) : Registrar where
  store := Dict.insertAll Value.same s.store c.stored?.toList
  published := s.published ++ c.stored?.toList.map fun e => response e.1 e.2
  replies := s.replies ++ [c.result s.store]

theorem serve_of_acceptable {message : Value} (h : Acceptable message) (s : Registrar) :
    serve message s = .ok () (s.after (command message)) := by
  obtain ⟨entries, rfl, hkey⟩ := h
  by_cases hset : (field entries C.REQUEST).same (.int C.SET) = true
  · by_cases htruthy : (field entries C.KEY).truthy = true
    · have hhash := hkey (.inl hset) htruthy
      simp [serve, getAttribute, setItem, hash, publish, reply, hset, htruthy, hhash, command,
        after]
      rfl
    · simp [serve, getAttribute, reply, hset, htruthy, command, after, Command.stored?]
      rfl
  by_cases hget : (field entries C.REQUEST).same (.int C.GET) = true
  · by_cases htruthy : (field entries C.KEY).truthy = true
    · have hhash := hkey (.inr hget) htruthy
      simp [serve, getAttribute, getItem, hash, reply, hset, hget, htruthy, hhash, command, after,
        Command.stored?]
      rfl
    · simp [serve, getAttribute, reply, hset, hget, htruthy, command, after, Command.stored?]
      rfl
  · simp [serve, getAttribute, reply, hset, hget, command, after, Command.stored?]
    rfl

theorem serve_of_not_acceptable {message : Value} (h : ¬ Acceptable message) (s : Registrar) :
    ∃ e, serve message s = .error e s := by
  cases message with
  | map entries =>
    simp only [Acceptable, Value.map.injEq, exists_eq_left'] at h
    push Not at h
    obtain ⟨hrequest, htruthy, hhash⟩ := h
    refine ⟨.typeError, ?_⟩
    by_cases hset : (field entries C.REQUEST).same (.int C.SET) = true
    · simp [serve, getAttribute, setItem, hash, hset, htruthy, hhash]
      rfl
    · have hget := hrequest.resolve_left hset
      simp [serve, getAttribute, getItem, hash, hset, hget, htruthy, hhash]
      rfl
  | _ => exact ⟨.attributeError, rfl⟩

/-- What the loop leaves when no exception has ended it. -/
def served (loaded : Table Value) (messages : List Value) : Registrar :=
  messages.foldl (fun s message => s.after (command message)) (init loaded)

/-- The loop goes on exactly as long as the requests are acceptable. -/
theorem run_eq_ok_iff {loaded : Table Value} {messages : List Value} {s : Registrar} :
    run messages (init loaded) = .ok () s ↔
      (∀ message ∈ messages, Acceptable message) ∧ s = served loaded messages := by
  unfold served
  generalize init loaded = s₀
  induction messages generalizing s₀ with
  | nil =>
    simp only [List.not_mem_nil, false_implies, implies_true, true_and, List.foldl_nil]
    constructor
    · rintro ⟨⟩
      rfl
    · rintro rfl
      rfl
  | cons message messages ih =>
    rw [run, List.forM_cons, bind_eq_ok_iff]
    by_cases hmessage : Acceptable message
    · have hserve := serve_of_acceptable hmessage s₀
      rw [List.forall_mem_cons, List.foldl_cons, ← run]
      constructor
      · rintro ⟨⟨⟩, t, ht, hrest⟩
        obtain ⟨-, rfl⟩ : () = () ∧ s₀.after (command message) = t := by
          rw [hserve] at ht
          cases ht
          exact ⟨rfl, rfl⟩
        obtain ⟨hall, hs⟩ := (ih _).mp hrest
        exact ⟨⟨hmessage, hall⟩, hs⟩
      · rintro ⟨⟨-, hall⟩, hs⟩
        exact ⟨(), _, hserve, (ih _).mpr ⟨hall, hs⟩⟩
    · obtain ⟨e, he⟩ := serve_of_not_acceptable hmessage s₀
      constructor
      · rintro ⟨⟨⟩, t, ht, -⟩
        rw [he] at ht
        cases ht
      · rintro ⟨hall, -⟩
        exact absurd (hall _ List.mem_cons_self) hmessage

/-! ## What the clients see -/

/-- The value that was set last for a key, or the one that was loaded. -/
def lastSet (loaded : Table Value) (messages : List Value) (key : Value) : Value :=
  ((Table.get (settings messages).reverse key).or (loaded.get key)).getD .nil

/-- Every request has one reply, which carries the value that was set last where the request gets
one; every value that is set is published once, in order; and only these are in the store. -/
structure Served (loaded : Table Value) (messages : List Value) (s : Registrar) : Prop where
  length : s.replies.length = messages.length
  set : ∀ before message later key value, messages = before ++ message :: later →
    command message = .set key value → s.replies[before.length]? = some (response key value)
  get : ∀ before message later key, messages = before ++ message :: later →
    command message = .get key →
    s.replies[before.length]? = some (response key (lastSet loaded before key))
  invalid : ∀ before message later, messages = before ++ message :: later →
    command message = .invalid → s.replies[before.length]? = some .nil
  published : s.published = (settings messages).map fun e => response e.1 e.2
  store : s.store = Dict.insertAll Value.same loaded (settings messages)

theorem served_append (loaded : Table Value) (messages more : List Value) :
    served loaded (messages ++ more) =
      more.foldl (fun s message => s.after (command message)) (served loaded messages) :=
  List.foldl_append

theorem settings_append (messages more : List Value) :
    settings (messages ++ more) = settings messages ++ settings more :=
  List.filterMap_append

theorem settings_singleton (message : Value) :
    settings [message] = (command message).stored?.toList := by
  cases h : (command message).stored? <;> simp [settings, h]

theorem store_served (loaded : Table Value) (messages : List Value) :
    (served loaded messages).store = Dict.insertAll Value.same loaded (settings messages) := by
  induction messages using List.reverseRecOn with
  | nil => rfl
  | append_singleton messages message ih =>
    rw [served_append, settings_append, settings_singleton, Dict.insertAll_append, ← ih]
    rfl

theorem published_served (loaded : Table Value) (messages : List Value) :
    (served loaded messages).published =
      (settings messages).map fun e => response e.1 e.2 := by
  induction messages using List.reverseRecOn with
  | nil => rfl
  | append_singleton messages message ih =>
    rw [served_append, settings_append, settings_singleton, List.map_append, ← ih]
    rfl

theorem length_replies_served (loaded : Table Value) (messages : List Value) :
    (served loaded messages).replies.length = messages.length := by
  induction messages using List.reverseRecOn with
  | nil => rfl
  | append_singleton messages message ih =>
    rw [served_append, List.length_append, ← ih]
    exact List.length_append

/-- Later rounds do not change the replies. -/
theorem replies_prefix (s : Registrar) (messages : List Value) :
    s.replies <+: (messages.foldl (fun s message => s.after (command message)) s).replies := by
  induction messages generalizing s with
  | nil => exact List.prefix_rfl
  | cons message messages ih => exact (List.prefix_append _ _).trans (ih (s.after _))

/-- The reply to a request is the one to what it asks for, with the store of that moment. -/
theorem reply_served (loaded : Table Value) (before : List Value) (message : Value)
    (later : List Value) :
    (served loaded (before ++ message :: later)).replies[before.length]? =
      some ((command message).result (served loaded before).store) := by
  rw [served_append, List.foldl_cons]
  obtain ⟨more, hmore⟩ := replies_prefix ((served loaded before).after (command message)) later
  rw [← hmore, ← length_replies_served loaded before, after, List.append_assoc,
    List.getElem?_append_right le_rfl, Nat.sub_self]
  rfl

/-- What is found in the store is what was set last. -/
theorem get_served (loaded : Table Value) (messages : List Value) (key : Value) :
    ((served loaded messages).store.get key).getD .nil = lastSet loaded messages key := by
  have hsymm : ∀ a b : Value, a.same b = true → b.same a = true := fun _ _ => same_symm
  have hget := Dict.get_insertAll hsymm (fun _ _ _ => same_trans) loaded (settings messages) key
  rw [store_served]
  exact congrArg (Option.getD · Value.nil) hget

theorem served_served (loaded : Table Value) (messages : List Value) :
    Served loaded messages (served loaded messages) where
  length := length_replies_served loaded messages
  set := by
    rintro before message later key value rfl hcommand
    rw [reply_served, hcommand, Command.result]
  get := by
    rintro before message later key rfl hcommand
    rw [reply_served, hcommand, Command.result, get_served]
  invalid := by
    rintro before message later rfl hcommand
    rw [reply_served, hcommand, Command.result]
  published := published_served loaded messages
  store := store_served loaded messages

/-- For every store that was loaded and every sequence of requests: the loop serves all of them and
goes on, and the clients see what they should, exactly when every request is a map, and its key, if
it sets or gets a true one, can be a key. -/
theorem served_iff {loaded : Table Value} {messages : List Value} :
    (∃ s, run messages (init loaded) = .ok () s ∧ Served loaded messages s) ↔
      ∀ message ∈ messages, Acceptable message := by
  constructor
  · rintro ⟨s, hs, -⟩
    exact (run_eq_ok_iff.mp hs).1
  · intro hall
    exact ⟨_, run_eq_ok_iff.mpr ⟨hall, rfl⟩, served_served loaded messages⟩

/-- A list is sent as a request, and no reply comes. -/
theorem list_ends_registrar :
    ¬ ∀ (loaded : Table Value) messages,
      ∃ s, run messages (init loaded) = .ok () s ∧ Served loaded messages s := by
  intro h
  obtain ⟨s, hs, -⟩ := h [] [.tuple []]
  cases hs

end Registrar

end Guillemot.Roslite
