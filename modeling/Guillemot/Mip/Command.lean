import Guillemot.Mip.Delivery

/-!
# Commands and their responses

`mip_interface_send_command` builds a packet with one field, writes it to the port, and may wait for
the response: meanwhile the first slot of the callbacks is the handler of responses, and the parser
is called until the handler has seen the descriptor of the command, or the time is over.

What the port is given to write is the packet of the command, unless its data are too long: then it
is a packet without fields, and it counts as sent if nobody waits for the response
(`sendCommand_eq`). A command counts as written also when the port takes a part of it only, or
nothing (`portWrite_ok_iff`). Whatever the interface was used for before, a command with a
descriptor other than zero is acknowledged only by a valid packet of its set that is taken in while
it waits and repeats the descriptor (`sendCommand_acknowledged`).
-/

namespace Guillemot.Mip

namespace Interface

/-- A round of the loop that waits: the time of its condition, and the call of
`mip_interface_update`. -/
structure Round where
  checked : ℕ
  port : Port
  now : ℕ
  later : ℕ

/-- The variables of a response are cleared. -/
def clearResponse (i : Interface) (commandSet : UInt8) : Interface :=
  { i with
    callbackDataSetList := Function.update i.callbackDataSetList 0 commandSet
    commandId := 0
    commandAcknackResponse := 0
    commandResponseData := none
    commandResponseDataSize := 0 }

/-- The loop of `__mip_interface_wait_for_response`, with the response if there was one, and the
events; `none` while it has not ended. -/
def waitLoop (commandDescriptor : UInt8) (startTime timeoutMs : ℕ) :
    List Round → Interface → Option (Option UInt8 × List Event × Interface)
  | [], _ => none
  | r :: rounds, i =>
    if timeTimeout startTime timeoutMs r.checked then some (none, [], i)
    else
      let (es, i) := i.update r.port r.now r.later
      if i.commandResponseReceived ∧ i.commandId = commandDescriptor then
        some (some i.commandAcknackResponse, es, i)
      else
        (waitLoop commandDescriptor startTime timeoutMs rounds i).map fun (response, es', i) =>
          (response, es ++ es', i)

/-- `__mip_interface_wait_for_response`. -/
def waitForResponse (i : Interface) (commandSet commandDescriptor : UInt8)
    (startTime timeoutMs : ℕ) (rounds : List Round) :
    Option (Option UInt8 × List Event × Interface) :=
  (waitLoop commandDescriptor startTime timeoutMs rounds (i.clearResponse commandSet)).map
    fun (response, es, i) => (response, es, i.clearResponse 0)

/-- The port that is written to: whether it waits to be opened again, and how many bytes a `write`
of these takes; `none` when it fails. -/
structure Output where
  waiting : Bool
  write : List UInt8 → Option ℕ

/-- The bytes that a `write` of these to the port takes. -/
def Output.taken (output : Output) (buffer : List UInt8) : List UInt8 :=
  buffer.take ((output.write buffer).getD 0)

/-- `mip_sdk_port_write`: whether it returns `MIP_USER_FUNCTION_OK`, what it sets `bytes_written`
to, and the bytes that go out. -/
def Output.portWrite (output : Output) (buffer : List UInt8) : Bool × Option ℕ × List UInt8 :=
  if output.waiting then (false, none, [])
  else
    -- A `write` that fails returns -1, which is not negative as a `size_t`.
    let ret := (output.write buffer).getD (2 ^ 64 - 1)
    if 0 ≤ ret then (true, some (u32 ret), output.taken buffer) else (false, some 0, [])

/-- What a command ends with: whether `MIP_INTERFACE_OK` is returned, the bytes that went out, the
events meanwhile, and the interface. -/
structure Sent where
  ok : Bool
  written : List UInt8
  events : List Event
  interface : Interface

/-- `mip_interface_send_preformatted_command`. -/
def sendPreformattedCommand (i : Interface) (output : Output) (command : Memory)
    (commandSize : ℕ) (wait : Bool) (startTime timeoutMs : ℕ) (rounds : List Round) :
    Option Sent :=
  if commandSize = 0 then some ⟨false, [], [], i⟩
  else
    let (ok, _, bytes) := output.portWrite (command.bytes 0 commandSize)
    if ok = false then some ⟨false, bytes, [], i⟩
    else if wait = false then some ⟨true, bytes, [], i⟩
    else
      let (first, field, _) := command.getFirstField
      if first ≠ .ok then some ⟨false, bytes, [], i⟩
      else
        (i.waitForResponse (command 2) (command (field + 1)) startTime timeoutMs rounds).map
          fun (response, es, i) => ⟨decide (response = some 0), bytes, es, i⟩

/-- `mip_interface_send_command`, in a buffer with some bytes. -/
def sendCommand (i : Interface) (output : Output) (mipPacket : Memory)
    (commandSet commandDescriptor : UInt8) (commandData : List UInt8) (wait : Bool)
    (startTime timeoutMs : ℕ) (rounds : List Round) : Option Sent :=
  let m := (mipPacket.init maxPacketSize commandSet).2
  let m := (m.addField maxPacketSize commandData commandDescriptor.toUInt16).2
  let (packetSize, m) := m.finalize
  i.sendPreformattedCommand output m packetSize wait startTime timeoutMs rounds

end Interface

/-- What the program does with an interface: bytes arrive or the parser is called, a callback is
added or deleted, or a command is sent. -/
inductive Use where
  | act (action : Action)
  | addCallback (dataSet : UInt8) (userPtr : Option ℕ) (packetCallback : Option CallbackFunction)
  | deleteCallback (dataSet : UInt8)
  | sendPreformatted (output : Interface.Output) (command : Memory) (commandSize : ℕ) (wait : Bool)
      (startTime timeoutMs : ℕ) (rounds : List Interface.Round)
  | send (output : Interface.Output) (mipPacket : Memory) (commandSet commandDescriptor : UInt8)
      (commandData : List UInt8) (wait : Bool) (startTime timeoutMs : ℕ)
      (rounds : List Interface.Round)

/-- A callback that is added is the program's own, and the data of a command are not too long to be
looked at. -/
def Use.Proper : Use → Prop
  | .addCallback _ _ packetCallback => packetCallback ≠ some .commandResponseHandler
  | .send _ _ _ commandDescriptor commandData _ _ _ _ =>
    (Addition.field commandData commandDescriptor.toUInt16).Proper
  | _ => True

namespace Interface

/-- The interface after a use; `none` while a command waits for its response. -/
def use (i : Interface) : Use → Option Interface
  | .act action => some (i.act action).2.2
  | .addCallback dataSet userPtr packetCallback =>
    some ((i.addDescriptorSetCallback dataSet userPtr packetCallback).getD i)
  | .deleteCallback dataSet => some (i.deleteDescriptorSetCallback dataSet).2
  | .sendPreformatted output command commandSize wait startTime timeoutMs rounds =>
    (i.sendPreformattedCommand output command commandSize wait startTime timeoutMs rounds).map
      (·.interface)
  | .send output mipPacket commandSet commandDescriptor commandData wait startTime timeoutMs
      rounds =>
    (i.sendCommand output mipPacket commandSet commandDescriptor commandData wait startTime
      timeoutMs rounds).map (·.interface)

/-- The interface after some uses, one after the other. -/
def useAll : List Use → Interface → Option Interface
  | [], i => some i
  | u :: uses, i => (i.use u).bind (useAll uses)

end Interface

variable {i j : Interface} {sets : ℕ → UInt8} {es : List Event} {m : Memory}

/-! ## What the handler has heard -/

/-- The handler of responses is in the first slot only. -/
def HandlerFirst (i : Interface) : Prop :=
  ∀ slot, i.callbackFunctionList slot = some .commandResponseHandler → slot = 0

/-- A packet of the set of the first slot with the noted echo, and the noted error code if it is
that long. -/
structure Echoes (p : List UInt8) (i : Interface) : Prop where
  set : p[2]? = some (i.callbackDataSetList 0)
  echo : p[6]? = some i.commandId
  acknack : 8 ≤ p.length → p[7]? = some i.commandAcknackResponse

/-- An echo that is noted is in a packet that was reported to the handler. -/
def Heard (es : List Event) (i : Interface) : Prop :=
  i.commandId ≠ 0 → ∃ p, .packet .validPacket p (some 0) ∈ es ∧ Echoes p i

/-- The handler is in the first slot, the sets of the slots are these, and what is noted was
heard. -/
structure Listens (sets : ℕ → UInt8) (es : List Event) (i : Interface) : Prop where
  first : HandlerFirst i
  sets : i.callbackDataSetList = sets
  heard : Heard es i

/-- The interfaces have the same callbacks, and have noted the same echo. -/
structure SameNotes (i j : Interface) : Prop where
  id : j.commandId = i.commandId
  acknack : j.commandAcknackResponse = i.commandAcknackResponse
  sets : j.callbackDataSetList = i.callbackDataSetList
  functions : j.callbackFunctionList = i.callbackFunctionList

theorem SameNotes.refl (i : Interface) : SameNotes i i := ⟨rfl, rfl, rfl, rfl⟩

theorem SameNotes.trans {k : Interface} (h : SameNotes i j) (h' : SameNotes j k) :
    SameNotes i k :=
  ⟨h'.id.trans h.id, h'.acknack.trans h.acknack, h'.sets.trans h.sets,
    h'.functions.trans h.functions⟩

theorem SameNotes.heard (h : SameNotes i j) (hi : Heard es i) : Heard es j := by
  intro hne
  rw [h.id] at hne
  obtain ⟨p, hp, hset, hecho, hacknack⟩ := hi hne
  refine ⟨p, hp, ?_, ?_, ?_⟩
  · rw [h.sets, hset]
  · rw [h.id, hecho]
  · rw [h.acknack]
    exact hacknack

theorem SameNotes.handlerFirst (h : SameNotes i j) (hi : HandlerFirst i) : HandlerFirst j := by
  unfold HandlerFirst
  rw [h.functions]
  exact hi

theorem Heard.append (h : Heard es i) (es' : List Event) : Heard (es ++ es') i := by
  intro hne
  obtain ⟨p, hp, hecho⟩ := h hne
  exact ⟨p, List.mem_append_left _ hp, hecho⟩

theorem Listens.same (hi : Listens sets es i) (h : SameNotes i j) : Listens sets es j :=
  ⟨h.handlerFirst hi.first, h.sets.trans hi.sets, h.heard hi.heard⟩

theorem sameNotes_seek (now fuel : ℕ) (i : Interface) :
    SameNotes i (Interface.seek now fuel i) := by
  induction fuel generalizing i with
  | zero => exact .refl i
  | succ fuel ih =>
    unfold Interface.seek
    split_ifs
    · dsimp only
      split_ifs
      · exact SameNotes.trans (j := { i with
          inputBuffer := i.inputBuffer.read.2.2
          mipPacket := i.mipPacket.copy 0 i.inputBuffer.read.2.1
          byteCount := 1
          startTime := now }) ⟨rfl, rfl, rfl, rfl⟩ (ih _)
      · exact SameNotes.trans (j := { i with
          inputBuffer := i.inputBuffer.read.2.2
          mipPacket := i.mipPacket.copy 0 i.inputBuffer.read.2.1 }) ⟨rfl, rfl, rfl, rfl⟩ (ih _)
    · exact .refl i

theorem sameNotes_getHeader (later : ℕ) (i : Interface) :
    SameNotes i (i.getHeader later).2 := by
  unfold Interface.getHeader
  split_ifs
  · dsimp only
    split_ifs <;> exact ⟨rfl, rfl, rfl, rfl⟩
  · exact ⟨rfl, rfl, rfl, rfl⟩
  · exact .refl i

theorem sameNotes_findStart (now later : ℕ) (i : Interface) :
    SameNotes i (i.findStart now later).2 := by
  have hseek := sameNotes_seek now (i.inputBuffer.count + 1) i
  unfold Interface.findStart
  split_ifs
  · dsimp only
    split_ifs
    · exact hseek.trans (sameNotes_getHeader later _)
    · exact hseek
  · exact .refl i

/-- A callback that is found is in a slot of the set. -/
theorem findCallback_some {dataSet : UInt8} {slot : ℕ} (h : i.findCallback dataSet = some slot) :
    i.callbackDataSetList slot = dataSet := by
  unfold Interface.findCallback at h
  split_ifs at h
  have hslot := List.find?_some h
  exact (of_decide_eq_true hslot).1

/-- The first field is behind the header, if there is one. -/
theorem getFirstField_of_ok (h : m.getFirstField.1 = .ok) :
    m.getFirstField.2.1 = headerSize ∧ 0 < m.payload := by
  unfold Memory.getFirstField Memory.getNextField at *
  by_cases hpacket : m.isMipPacket ≠ .ok
  · rw [if_pos hpacket] at h
    cases h
  · rw [if_neg hpacket] at h ⊢
    by_cases hempty : m.payload ≤ 0
    · rw [if_pos hempty] at h
      cases h
    · rw [if_neg hempty] at h ⊢
      dsimp only at h ⊢
      by_cases hzero : m (headerSize + 0) = 0
      · rw [if_pos hzero] at h
        cases h
      · rw [if_neg hzero]
        exact ⟨rfl, Nat.not_le.mp hempty⟩

/-- What the handler notes of a valid packet. -/
theorem handler_validPacket (i : Interface) :
    SameNotes i (i.commandResponseHandler .validPacket) ∨
      (0 < i.mipPacket.payload ∧
        SameNotes { i with
          commandId := i.mipPacket 6
          commandAcknackResponse := i.mipPacket 7 } (i.commandResponseHandler .validPacket)) := by
  unfold Interface.commandResponseHandler
  rw [if_pos rfl]
  dsimp only
  by_cases hfirst : i.mipPacket.getFirstField.1 = .ok
  · obtain ⟨hfield, hpos⟩ := getFirstField_of_ok hfirst
    refine .inr ⟨hpos, ?_⟩
    rw [if_pos hfirst, hfield]
    split_ifs <;> exact ⟨rfl, rfl, rfl, rfl⟩
  · refine .inl ?_
    rw [if_neg hfirst]
    split_ifs <;> exact ⟨rfl, rfl, rfl, rfl⟩

/-- What the handler notes of other packets: nothing. -/
theorem handler_of_ne {callbackType : CallbackType} (hne : callbackType ≠ .validPacket) :
    SameNotes { i with commandId := 0, commandAcknackResponse := 0 }
      (i.commandResponseHandler callbackType) := by
  unfold Interface.commandResponseHandler
  rw [if_neg hne]
  exact ⟨rfl, rfl, rfl, rfl⟩

/-- The callback of a packet leaves the callbacks, and what it notes was heard. -/
theorem Listens.trigger {n : ℕ} (h : Listens sets es i) (callbackType : CallbackType)
    (hlong : callbackType = .validPacket →
      headerSize + (i.mipPacket.payload + checksumSize) ≤ n) :
    Listens sets (es ++ [i.event callbackType n]) (i.trigger callbackType) := by
  obtain ⟨hfirst, rfl, hheard⟩ := h
  unfold Interface.trigger
  split
  · rename_i hcalled
    by_cases htype : callbackType = .validPacket
    · subst htype
      rcases handler_validPacket i with hsame | ⟨hpos, hsame⟩
      · exact ⟨hsame.handlerFirst hfirst, hsame.sets, hsame.heard (hheard.append _)⟩
      · refine ⟨hsame.handlerFirst hfirst, hsame.sets, hsame.heard fun _ => ?_⟩
        obtain ⟨slot, hslot, hfunction⟩ := Option.bind_eq_some_iff.mp hcalled
        obtain rfl := hfirst slot hfunction
        have hset : i.callbackDataSetList 0 = i.mipPacket 2 := findCallback_some hslot
        have hn := hlong rfl
        have hbyte {k : ℕ} (hk : k < n) : (i.mipPacket.bytes 0 n)[k]? = some (i.mipPacket k) := by
          rw [List.getElem?_eq_getElem (by rw [Memory.length_bytes]; exact hk),
            Memory.getElem_bytes, Nat.zero_add]
        unfold headerSize checksumSize at hn
        refine ⟨i.mipPacket.bytes 0 n, List.mem_append_right _ ?_, ?_, ?_, ?_⟩
        · rw [← hslot]
          exact List.mem_singleton_self _
        · rw [hbyte (by omega)]
          exact congrArg some hset.symm
        · exact hbyte (by omega)
        · intro hlen
          rw [Memory.length_bytes] at hlen
          exact hbyte (by omega)
    · have hsame := handler_of_ne (i := i) htype
      exact ⟨hsame.handlerFirst hfirst, hsame.sets, hsame.heard fun hne => absurd rfl hne⟩
  · exact ⟨hfirst, rfl, hheard.append _⟩

theorem Listens.getPacket (later : ℕ) (h : Listens sets es i) (hcount : headerSize ≤ i.byteCount) :
    Listens sets (es ++ (i.getPacket later).1) (i.getPacket later).2 := by
  have hpeek : SameNotes i
      (i.peek (headerSize - 1) headerSize (i.mipPacket.payload + checksumSize)) :=
    ⟨rfl, rfl, rfl, rfl⟩
  unfold Interface.getPacket
  split_ifs
  · have hpeeked := h.same hpeek
    dsimp only
    split
    · have htrigger := hpeeked.trigger .validPacket fun _ => Nat.add_le_add_right hcount _
      exact htrigger.same ⟨rfl, rfl, rfl, rfl⟩
    · have htrigger := hpeeked.trigger (n := i.byteCount) .checksumError nofun
      exact htrigger.same ⟨rfl, rfl, rfl, rfl⟩
  · have htrigger := h.trigger (n := i.byteCount) .timeout nofun
    exact htrigger.same ⟨rfl, rfl, rfl, rfl⟩
  · rw [List.append_nil]
    exact h

theorem Listens.parseInputBuffer (now later : ℕ) (h : Listens sets es i) :
    Listens sets (es ++ (i.parseInputBuffer now later).1) (i.parseInputBuffer now later).2 := by
  have hstart := h.same (sameNotes_findStart now later i)
  unfold Interface.parseInputBuffer
  split_ifs
  · dsimp only
    rw [← List.append_assoc]
    have hstarted : Listens sets (es ++ (i.findStart now later).1) (i.findStart now later).2 :=
      ⟨hstart.first, hstart.sets, hstart.heard.append _⟩
    split_ifs with hcount
    · exact hstarted.getPacket later hcount
    · rw [List.append_nil]
      exact hstarted
  · rw [List.append_nil]
    exact h

theorem Listens.update (port : Interface.Port) (now later : ℕ) (h : Listens sets es i) :
    Listens sets (es ++ (i.update port now later).1) (i.update port now later).2 := by
  unfold Interface.update
  split
  · refine Listens.parseInputBuffer now later ?_
    exact h.same ⟨rfl, rfl, rfl, rfl⟩
  · rw [List.append_nil]
    exact h

theorem Listens.act (h : Listens sets es i) (action : Action) :
    Listens sets (es ++ (i.act action).2.1) (i.act action).2.2 := by
  cases action with
  | write data =>
    have hsame : SameNotes i (i.write data).2 := by
      unfold Interface.write
      split_ifs <;> exact ⟨rfl, rfl, rfl, rfl⟩
    show Listens sets (es ++ []) (i.write data).2
    rw [List.append_nil]
    exact h.same hsame
  | update port now later => exact h.update port now later

theorem Listens.run (actions : List Action) (h : Listens sets es i) :
    Listens sets (es ++ (i.run actions).2.1) (i.run actions).2.2 := by
  induction actions generalizing i es with
  | nil =>
    rw [Interface.run, List.append_nil]
    exact h
  | cons action actions ih =>
    have hrest := ih (h.act action)
    rw [List.append_assoc] at hrest
    exact hrest

/-! ## Waiting -/

/-- The action of a round. -/
def Interface.Round.action (r : Interface.Round) : Action := .update r.port r.now r.later

/-- The loop that waits is a run, which ends with the echo of the descriptor if there is a
response. -/
theorem waitLoop_run {commandDescriptor : UInt8} {startTime timeoutMs : ℕ}
    {rounds : List Interface.Round} {response : Option UInt8}
    (h : Interface.waitLoop commandDescriptor startTime timeoutMs rounds i =
      some (response, es, j)) :
    (∃ rounds' : List Interface.Round, (i.run (rounds'.map (·.action))).2 = (es, j)) ∧
      ∀ acknack, response = some acknack →
        j.commandId = commandDescriptor ∧ j.commandAcknackResponse = acknack := by
  induction rounds generalizing i es with
  | nil => cases h
  | cons r rounds ih =>
    rw [Interface.waitLoop] at h
    split_ifs at h
    · obtain ⟨rfl, rfl, rfl⟩ : none = response ∧ [] = es ∧ i = j := by simpa using h
      exact ⟨⟨[], rfl⟩, nofun⟩
    · dsimp only at h
      by_cases hheard : (i.update r.port r.now r.later).2.commandResponseReceived = true ∧
        (i.update r.port r.now r.later).2.commandId = commandDescriptor
      · -- the response is there
        rw [if_pos hheard] at h
        obtain ⟨rfl, rfl, rfl⟩ :
            some (i.update r.port r.now r.later).2.commandAcknackResponse = response ∧
              (i.update r.port r.now r.later).1 = es ∧
              (i.update r.port r.now r.later).2 = j := by
          simpa [Prod.ext_iff] using h
        refine ⟨⟨[r], ?_⟩, fun acknack hacknack => ⟨hheard.2, Option.some.inj hacknack⟩⟩
        show ((i.update r.port r.now r.later).1 ++ [], (i.update r.port r.now r.later).2) = _
        rw [List.append_nil]
      · rw [if_neg hheard] at h
        obtain ⟨⟨response', es', j'⟩, hrest, heq⟩ := Option.map_eq_some_iff.mp h
        obtain ⟨rfl, rfl, rfl⟩ :
            response' = response ∧ (i.update r.port r.now r.later).1 ++ es' = es ∧ j' = j := by
          simpa using heq
        obtain ⟨⟨rounds', hrun⟩, hacknack⟩ := ih hrest
        refine ⟨⟨r :: rounds', ?_⟩, hacknack⟩
        have hcons : (i.run ((r :: rounds').map (·.action))).2 =
            ((i.update r.port r.now r.later).1 ++
                ((i.update r.port r.now r.later).2.run (rounds'.map (·.action))).2.1,
              ((i.update r.port r.now r.later).2.run (rounds'.map (·.action))).2.2) := rfl
        rw [hcons, hrun]

/-- A wait is a run with the variables of a response cleared before and behind it. -/
theorem waitForResponse_run {commandSet commandDescriptor : UInt8} {startTime timeoutMs : ℕ}
    {rounds : List Interface.Round} {response : Option UInt8}
    (h : i.waitForResponse commandSet commandDescriptor startTime timeoutMs rounds =
      some (response, es, j)) :
    ∃ (k : Interface) (rounds' : List Interface.Round), j = k.clearResponse 0 ∧
      ((i.clearResponse commandSet).run (rounds'.map (·.action))).2 = (es, k) ∧
      ∀ acknack, response = some acknack →
        k.commandId = commandDescriptor ∧ k.commandAcknackResponse = acknack := by
  obtain ⟨⟨response', es', k⟩, hloop, heq⟩ := Option.map_eq_some_iff.mp h
  obtain ⟨rfl, rfl, rfl⟩ : response' = response ∧ es' = es ∧ k.clearResponse 0 = j := by
    simpa using heq
  obtain ⟨⟨rounds', hrun⟩, hacknack⟩ := waitLoop_run hloop
  exact ⟨k, rounds', rfl, hrun, hacknack⟩

/-! ## Sending -/

/-- The packet of a command: without the field if its data are too long. -/
def commandBody (commandSet commandDescriptor : UInt8) (commandData : List UInt8) : Body :=
  (Body.empty commandSet).add maxPacketSize ⟨commandDescriptor, commandData⟩

section Sending

variable {commandSet commandDescriptor : UInt8} {commandData : List UInt8}

/-- The data of a command fit into its packet. -/
theorem commandBody_of_le (commandSet commandDescriptor : UInt8) (h : commandData.length ≤ 253) :
    (commandBody commandSet commandDescriptor commandData).fields =
      [⟨commandDescriptor, commandData⟩] := by
  refine (Body.add_of_le _ ?_).2
  show 4 + 0 + (commandData.length + 2) + 2 ≤ 261
  omega

theorem commandBody_of_lt (h : 253 < commandData.length) :
    commandBody commandSet commandDescriptor commandData = .empty commandSet := by
  refine Body.add_of_lt _ ?_
  show 261 < 4 + 0 + (commandData.length + 2) + 2
  omega

theorem descriptorSet_commandBody :
    (commandBody commandSet commandDescriptor commandData).descriptorSet = commandSet :=
  Body.descriptorSet_add _ _ _

/-- The packet of a command in memory has no field, if its data are too long. -/
theorem getFirstField_of_lt (hlong : 253 < commandData.length)
    (h : m.bytes 0 (commandBody commandSet commandDescriptor commandData).encode.length =
      (commandBody commandSet commandDescriptor commandData).encode) :
    m.getFirstField.1 ≠ .ok := by
  obtain ⟨hcarries, hpacket, -⟩ := carries_of_encode h
  obtain ⟨-, -, -, hsize⟩ := hcarries.header
  rw [commandBody_of_lt hlong] at hsize
  have hempty : m.payload ≤ 0 := Nat.le_of_eq hsize
  unfold Memory.getFirstField Memory.getNextField
  rw [if_neg (not_not.mpr hpacket), if_pos hempty]
  exact nofun

/-- The packet of a command in memory: its set, and its field. -/
theorem getFirstField_of_le (hshort : commandData.length ≤ 253)
    (h : m.bytes 0 (commandBody commandSet commandDescriptor commandData).encode.length =
      (commandBody commandSet commandDescriptor commandData).encode) :
    m 2 = commandSet ∧ m.getFirstField.1 = .ok ∧
      m (m.getFirstField.2.1 + 1) = commandDescriptor := by
  obtain ⟨hcarries, hpacket, -⟩ := carries_of_encode h
  obtain ⟨-, -, hset, hsize⟩ := hcarries.header
  have hfields := commandBody_of_le commandSet commandDescriptor hshort
  have htotal : (commandBody commandSet commandDescriptor commandData).size =
      commandData.length + 2 := by
    rw [Body.size, hfields]
    rfl
  have hpayload := hcarries.payload
  rw [Body.payload, htotal, hfields, List.flatMap_singleton, Memory.bytes_cons,
    Memory.bytes_cons] at hpayload
  obtain ⟨h4, hrest⟩ := List.cons.inj hpayload
  obtain ⟨h5, -⟩ := List.cons.inj hrest
  replace h4 : m headerSize = UInt8.ofNat (commandData.length + 2) := h4
  have hne : m (headerSize + 0) ≠ 0 := by
    intro hzero
    have hbyte := congrArg UInt8.toNat (h4.symm.trans hzero)
    rw [UInt8.toNat_ofNat', Nat.mod_eq_of_lt (by omega)] at hbyte
    cases hbyte
  have hfirst : m.getFirstField = (.ok, headerSize, 0 + (m headerSize).toNat) := by
    unfold Memory.getFirstField Memory.getNextField
    rw [if_neg (not_not.mpr hpacket), if_neg (by omega)]
    exact if_neg hne
  rw [descriptorSet_commandBody] at hset
  rw [hfirst]
  exact ⟨hset, rfl, h5⟩

/-- A write to the port is in order exactly if the port does not wait to be opened, also when fewer
bytes are taken than there are, or the write fails. -/
theorem portWrite_ok_iff (output : Interface.Output) (buffer : List UInt8) :
    (output.portWrite buffer).1 = true ↔ output.waiting = false := by
  unfold Interface.Output.portWrite
  cases output.waiting <;> simp

/-- What a command does. -/
theorem sendCommand_eq (i : Interface) (output : Interface.Output) (mipPacket : Memory)
    (wait : Bool) (startTime timeoutMs : ℕ) (rounds : List Interface.Round)
    (hproper : (Addition.field commandData commandDescriptor.toUInt16).Proper) :
    i.sendCommand output mipPacket commandSet commandDescriptor commandData wait startTime
        timeoutMs rounds =
      let bytes := output.taken (commandBody commandSet commandDescriptor commandData).encode
      if output.waiting then some ⟨false, [], [], i⟩
      else if wait = false then some ⟨true, bytes, [], i⟩
      else if 253 < commandData.length then some ⟨false, bytes, [], i⟩
      else
        (i.waitForResponse commandSet commandDescriptor startTime timeoutMs rounds).map
          fun (response, es, i) => ⟨decide (response = some 0), bytes, es, i⟩ := by
  have hroom : headerSize + checksumSize ≤ maxPacketSize := by decide
  obtain ⟨-, hinit⟩ := carries_init (m := mipPacket) hroom commandSet
  obtain ⟨hadded, -⟩ : Carries (Memory.perform _ maxPacketSize _).2 _ ∧ _ := hinit.perform hproper
  have hbody : (Body.empty commandSet).add maxPacketSize
      (Addition.field commandData commandDescriptor.toUInt16).asField =
      commandBody commandSet commandDescriptor commandData := by
    rw [commandBody, Addition.asField, UInt8.toUInt8_toUInt16]
  rw [hbody] at hadded
  obtain ⟨hlen, hbytes, -⟩ := hadded.finalize
  obtain ⟨r, hr⟩ : ∃ r, r = ((Memory.init mipPacket maxPacketSize commandSet).2.perform
    maxPacketSize (.field commandData commandDescriptor.toUInt16)).2.finalize := ⟨_, rfl⟩
  rw [← hr] at hlen hbytes
  have hsend : i.sendCommand output mipPacket commandSet commandDescriptor commandData wait
      startTime timeoutMs rounds =
      i.sendPreformattedCommand output r.2 r.1 wait startTime timeoutMs rounds := by
    rw [hr]
    rfl
  have hsome : r.1 ≠ 0 := by
    rw [hlen, Body.length_encode]
    exact Nat.succ_ne_zero _
  have hwritten : r.2.bytes 0 r.1 =
      (commandBody commandSet commandDescriptor commandData).encode := by rw [hlen, hbytes]
  rw [hsend]
  unfold Interface.sendPreformattedCommand Interface.Output.portWrite
  rw [if_neg hsome, hwritten]
  cases output.waiting
  · simp only [Bool.false_eq_true, if_false, Nat.zero_le, if_true, Bool.true_eq_false]
    rcases Nat.lt_or_ge 253 commandData.length with hlong | hshort
    · rw [if_pos hlong, if_pos (getFirstField_of_lt hlong hbytes)]
    · obtain ⟨hset, hfirst, hdescriptor⟩ := getFirstField_of_le hshort hbytes
      rw [if_neg (Nat.not_lt.mpr hshort), if_neg (not_not.mpr hfirst), hset, hdescriptor]
  · rfl

end Sending

/-! ## Uses -/

/-- The interface listens for the responses of a set. -/
theorem Listens.clearResponse (h : Listens sets es i) (commandSet : UInt8) :
    Listens (i.clearResponse commandSet).callbackDataSetList [] (i.clearResponse commandSet) :=
  ⟨h.first, rfl, fun hne => absurd rfl hne⟩

/-- What is not settled does not depend on the callbacks, nor on what is noted of a response. -/
theorem At.congr {find : UInt8 → Option ℕ} {xs : List UInt8} (h : At find i xs)
    (hready : j.initialized = i.initialized) (hcount : j.byteCount = i.byteCount)
    (hpacket : j.mipPacket = i.mipPacket) (hbuffer : j.inputBuffer = i.inputBuffer) :
    At j.findCallback j xs := by
  obtain ⟨hready', -, hstage⟩ := h
  rw [← hready] at hready'
  refine ⟨hready', rfl, ?_⟩
  cases hstage with
  | idle hcount' hb => exact .idle (hcount.trans hcount') (hbuffer ▸ hb)
  | started hcount' hp hb =>
    exact .started (hcount.trans hcount') (by rwa [hpacket]) (hbuffer ▸ hb)
  | headed hcount' hp hb =>
    exact .headed (hcount.trans hcount') (by rwa [hpacket]) (hbuffer ▸ hb)

/-- An interface that was used: what it has noted of responses was heard, and it has read its bytes
up to some that are not settled. -/
structure Used (i : Interface) : Prop where
  listens : ∃ es, Listens i.callbackDataSetList es i
  placed : ∃ xs, At i.findCallback i xs

theorem used_init (m : Memory) (packetTimeoutVal : ℕ) : Used (.init m packetTimeoutVal) := by
  have hfirst : HandlerFirst (.init m packetTimeoutVal) := by
    intro slot hslot
    by_contra hne
    have hnone : (Interface.init m packetTimeoutVal).callbackFunctionList slot = none := if_neg hne
    rw [hnone] at hslot
    cases hslot
  obtain ⟨hat, -⟩ := at_addCallbacks m packetTimeoutVal []
  exact ⟨⟨[], hfirst, rfl, fun hne => absurd rfl hne⟩, ⟨[], hat⟩⟩

theorem Used.run (h : Used i) (actions : List Action) : Used (i.run actions).2.2 := by
  obtain ⟨⟨es, hlistens⟩, xs, hat⟩ := h
  have hlistens' := hlistens.run actions
  obtain ⟨ys, hat', -⟩ := hat.slices_run actions .whole
  rw [← hlistens'.sets] at hlistens'
  rw [← hat'.callbacks] at hat'
  exact ⟨⟨_, hlistens'⟩, ys, hat'⟩

/-- The slots behind the first get other callbacks, none of them the handler. -/
theorem Used.callbacks (h : Used i) {sets : ℕ → UInt8} {functions : ℕ → Option CallbackFunction}
    (userPtrs : ℕ → Option ℕ) (hsets : sets 0 = i.callbackDataSetList 0)
    (hfunctions : ∀ slot, functions slot = some .commandResponseHandler →
      i.callbackFunctionList slot = some .commandResponseHandler) :
    Used { i with
      callbackDataSetList := sets
      callbackFunctionList := functions
      callbackUserPtrList := userPtrs } := by
  obtain ⟨⟨es, hlistens⟩, xs, hat⟩ := h
  refine ⟨⟨es, fun slot hslot => hlistens.first slot (hfunctions slot hslot), rfl, ?_⟩,
    xs, hat.congr rfl rfl rfl rfl⟩
  intro hne
  obtain ⟨p, hp, hset, hecho, hacknack⟩ := hlistens.heard hne
  exact ⟨p, hp, hset.trans (congrArg some hsets.symm), hecho, hacknack⟩

theorem Used.addCallback (h : Used i) (dataSet : UInt8) (userPtr : Option ℕ)
    {packetCallback : Option CallbackFunction}
    (hcallback : packetCallback ≠ some .commandResponseHandler) :
    Used ((i.addDescriptorSetCallback dataSet userPtr packetCallback).getD i) := by
  unfold Interface.addDescriptorSetCallback
  rcases hslot : (List.range' 1 maxCallbacks).find? fun slot =>
    i.callbackDataSetList slot = 0 ∧ i.callbackFunctionList slot = none ∧
      i.callbackUserPtrList slot = none with _ | slot
  · exact h
  · have hplace := (List.mem_range'_1.mp (List.mem_of_find?_eq_some hslot)).1
    refine h.callbacks _ (Function.update_of_ne (by omega) _ _) fun k hk => ?_
    rcases eq_or_ne k slot with rfl | hne
    · rw [Function.update_self] at hk
      exact absurd hk hcallback
    · rwa [Function.update_of_ne hne] at hk

theorem Used.deleteCallback (h : Used i) (dataSet : UInt8) :
    Used (i.deleteDescriptorSetCallback dataSet).2 := by
  refine h.callbacks _ ?_ fun slot hslot => ?_
  · exact if_neg (by simp)
  · dsimp only at hslot
    split_ifs at hslot
    exact hslot

theorem Used.clearResponse (h : Used i) (commandSet : UInt8) :
    Used (i.clearResponse commandSet) := by
  obtain ⟨⟨es, hlistens⟩, xs, hat⟩ := h
  exact ⟨⟨[], hlistens.clearResponse commandSet⟩, xs, hat.congr rfl rfl rfl rfl⟩

theorem Used.waitForResponse {commandSet commandDescriptor : UInt8} {startTime timeoutMs : ℕ}
    {rounds : List Interface.Round} {response : Option UInt8} (h : Used i)
    (hwait : i.waitForResponse commandSet commandDescriptor startTime timeoutMs rounds =
      some (response, es, j)) : Used j := by
  obtain ⟨k, rounds', rfl, hrun, -⟩ := waitForResponse_run hwait
  have hused := (h.clearResponse commandSet).run (rounds'.map (·.action))
  rw [hrun] at hused
  exact hused.clearResponse 0

/-- A command of any kind: either nobody waits, or it ends with the wait. -/
theorem Used.sendPreformattedCommand {output : Interface.Output} {command : Memory}
    {commandSize : ℕ} {wait : Bool} {startTime timeoutMs : ℕ} {rounds : List Interface.Round}
    {sent : Interface.Sent} (h : Used i)
    (hsent : i.sendPreformattedCommand output command commandSize wait startTime timeoutMs rounds =
      some sent) : Used sent.interface := by
  unfold Interface.sendPreformattedCommand at hsent
  dsimp only at hsent
  split_ifs at hsent
  · obtain rfl := Option.some.inj hsent
    exact h
  · obtain rfl := Option.some.inj hsent
    exact h
  · obtain rfl := Option.some.inj hsent
    exact h
  · obtain rfl := Option.some.inj hsent
    exact h
  · obtain ⟨⟨response, es, j⟩, hwait, rfl⟩ := Option.map_eq_some_iff.mp hsent
    exact h.waitForResponse hwait

/-- What every use keeps. -/
theorem Used.use {u : Use} (hproper : u.Proper) (h : Used i) (huse : i.use u = some j) :
    Used j := by
  cases u with
  | act action =>
    obtain rfl := Option.some.inj huse
    exact h.run [action]
  | addCallback dataSet userPtr packetCallback =>
    obtain rfl := Option.some.inj huse
    exact h.addCallback dataSet userPtr hproper
  | deleteCallback dataSet =>
    obtain rfl := Option.some.inj huse
    exact h.deleteCallback dataSet
  | sendPreformatted output command commandSize wait startTime timeoutMs rounds =>
    obtain ⟨sent, hsent, rfl⟩ := Option.map_eq_some_iff.mp huse
    exact h.sendPreformattedCommand hsent
  | send output mipPacket commandSet commandDescriptor commandData wait startTime timeoutMs
      rounds =>
    obtain ⟨sent, hsent, rfl⟩ := Option.map_eq_some_iff.mp huse
    exact h.sendPreformattedCommand hsent

/-- What any uses keep. -/
theorem Used.useAll {uses : List Use} (hproper : ∀ u ∈ uses, u.Proper) (h : Used i)
    (huses : i.useAll uses = some j) : Used j := by
  induction uses generalizing i with
  | nil =>
    obtain rfl := Option.some.inj huses
    exact h
  | cons u uses ih =>
    obtain ⟨k, huse, hrest⟩ := Option.bind_eq_some_iff.mp huses
    obtain ⟨hu, huses'⟩ := List.forall_mem_cons.mp hproper
    exact ih huses' (h.use hu huse) hrest

/-! ## Acknowledgements -/

section Acknowledged

variable {commandSet commandDescriptor : UInt8} {commandData : List UInt8}

/-- A command that is acknowledged while it waits was given to the port as a packet with its field,
of which went out what the port took, and a valid packet of its set was taken in meanwhile: its
seventh byte, where the data of a first field are, is the descriptor of the command, and its eighth
byte, if it is that long, is zero. -/
theorem sendCommand_acknowledged (m : Memory) (packetTimeoutVal : ℕ) {uses : List Use}
    (huses : ∀ u ∈ uses, u.Proper)
    (hused : (Interface.init m packetTimeoutVal).useAll uses = some i)
    (output : Interface.Output) (mipPacket : Memory) {startTime timeoutMs : ℕ}
    {rounds : List Interface.Round} {sent : Interface.Sent}
    (hproper : (Addition.field commandData commandDescriptor.toUInt16).Proper)
    (hdescriptor : commandDescriptor ≠ 0)
    (hsent : i.sendCommand output mipPacket commandSet commandDescriptor commandData true
      startTime timeoutMs rounds = some sent)
    (hok : sent.ok = true) :
    (∃ b : Body, sent.written = output.taken b.encode ∧ b.descriptorSet = commandSet ∧
        b.fields = [⟨commandDescriptor, commandData⟩]) ∧
      ∃ p, .packet .validPacket p (some 0) ∈ sent.events ∧ Fletcher.Sealed p ∧
        p[2]? = some commandSet ∧ p[6]? = some commandDescriptor ∧
        (8 ≤ p.length → p[7]? = some 0) := by
  have hready := (used_init m packetTimeoutVal).useAll huses hused
  rw [sendCommand_eq i output mipPacket true startTime timeoutMs rounds hproper] at hsent
  dsimp only at hsent
  split_ifs at hsent with hwaiting hgone hlong
  · obtain rfl := Option.some.inj hsent
    cases hok
  · cases hgone
  · obtain rfl := Option.some.inj hsent
    cases hok
  · obtain ⟨⟨response, es, j⟩, hwait, rfl⟩ := Option.map_eq_some_iff.mp hsent
    have hzero : response = some 0 := of_decide_eq_true hok
    obtain ⟨k, rounds', -, hrun, hacknack⟩ := waitForResponse_run hwait
    obtain ⟨hid, hack⟩ := hacknack 0 hzero
    refine ⟨⟨_, rfl, descriptorSet_commandBody, commandBody_of_le _ _ (Nat.not_lt.mp hlong)⟩, ?_⟩
    -- Nothing was noted when the wait began, so that the echo was heard while it went on.
    obtain ⟨-, xs, hat⟩ := hready.clearResponse commandSet
    obtain ⟨⟨_, hlistens⟩, -⟩ := hready
    have hheard := (hlistens.clearResponse commandSet).run (rounds'.map (·.action))
    obtain ⟨ys, -, -, hsealed, -⟩ := hat.slices_run (rounds'.map (·.action)) .whole
    rw [hrun] at hheard hsealed
    obtain ⟨p, hp, hset, hecho, hacknack'⟩ := hheard.heard (by rw [hid]; exact hdescriptor)
    have hset' : (i.clearResponse commandSet).callbackDataSetList 0 = commandSet := by
      show Function.update i.callbackDataSetList 0 commandSet 0 = commandSet
      rw [Function.update_self]
    rw [hheard.sets, hset'] at hset
    rw [hid] at hecho
    rw [hack] at hacknack'
    obtain ⟨-, -, -, -, -, hseal⟩ :=
      hsealed p (List.mem_filterMap.mpr ⟨_, hp, rfl⟩)
    exact ⟨p, hp, hseal, hset, hecho, hacknack'⟩

/-- A round in which the response to the command 1 of the set 1 arrives. -/
def responseRound : Interface.Round :=
  ⟨0, ⟨10, fun n => [0x75, 0x65, 1, 4, 4, 0xf1, 1, 0, 0xd5, 0x6a].take n,
    fun n => List.length_take_le n _⟩, 0, 0⟩

/-- A port that takes five bytes of what it is given. -/
def shortOutput : Interface.Output := ⟨false, fun buffer => some (min 5 buffer.length)⟩

/-- The second command is acknowledged, also though the port took five bytes of it only. -/
theorem sendCommand_acknowledged_one : ∃ (i : Interface) (sent : Interface.Sent),
    (Interface.init (fun _ => 0) 30).useAll
      [.send shortOutput (fun _ => 0) 1 1 [] true 0 1000 [responseRound]] = some i ∧
    i.sendCommand shortOutput (fun _ => 0) 1 1 [] true 0 1000 [responseRound] = some sent ∧
    ∃ p, .packet .validPacket p (some 0) ∈ sent.events ∧ p[6]? = some 1 := by
  have hone : ((Interface.init (fun _ => 0) 30).useAll
      [.send shortOutput (fun _ => 0) 1 1 [] true 0 1000 [responseRound]]).bind
        (fun i => (i.sendCommand shortOutput (fun _ => 0) 1 1 [] true 0 1000
          [responseRound]).map (·.ok)) = some true := by decide +kernel
  obtain ⟨i, hused, hsent'⟩ := Option.bind_eq_some_iff.mp hone
  obtain ⟨sent, hsent, hok⟩ := Option.map_eq_some_iff.mp hsent'
  have hproper : (Addition.field [] (1 : UInt8).toUInt16).Proper :=
    show 0 + maxPacketSize + fieldHeaderSize < 2 ^ 16 by decide
  have huses : ∀ u ∈ [Use.send shortOutput (fun _ => 0) 1 1 [] true 0 1000 [responseRound]],
      u.Proper := List.forall_mem_singleton.mpr hproper
  obtain ⟨-, p, hp, -, -, hecho, -⟩ := sendCommand_acknowledged (fun _ => 0) 30 huses hused
    shortOutput (fun _ => 0) hproper (by decide) hsent hok
  exact ⟨i, sent, hused, hsent, p, hp, hecho⟩

end Acknowledged

end Guillemot.Mip
