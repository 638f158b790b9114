import Guillemot.Mip.RingBuffer
import Guillemot.Mip.Packet

/-!
# The packet parser

The functions of `mip_sdk_interface.c` that take bytes in, find the packets in them and call the
callbacks. A call of the parser may ask for the time twice: when it finds a start byte, and when the
bytes that it needs are not all there.

The pointers to callback functions are `CallbackFunction`; what a callback of the program does with
a packet is not part of the parser, whereas the handler of command responses is. An `Event` is what
a call of the parser reports, with the slot of the callback that it called.
-/

namespace Guillemot.Mip

/-- `MIP_INTERFACE_INPUT_RING_BUFFER_SIZE`. -/
def inputRingBufferSize : ℕ := maxPacketSize

/-- `MIP_INTERFACE_MAX_CALLBACKS`. -/
def maxCallbacks : ℕ := 10

/-- The types of a callback. -/
inductive CallbackType where
  | validPacket
  | checksumError
  | timeout
deriving DecidableEq, Repr

/-- A pointer to a callback function. -/
inductive CallbackFunction where
  | commandResponseHandler
  | packetCallback (f : ℕ)
deriving DecidableEq, Repr

/-- `mip_interface`. `commandResponseData` is the place of a field in `mipPacket`. -/
structure Interface where
  initialized : Bool
  inputBuffer : RingBuffer
  mipPacket : Memory
  byteCount : ℕ
  startTime : ℕ
  numBadChecksums : ℕ
  timeouts : ℕ
  inSync : Bool
  headersSkipped : ℕ
  packetTimeout : ℕ
  commandResponseReceived : Bool
  commandId : UInt8
  commandAcknackResponse : UInt8
  commandResponseData : Option ℕ
  commandResponseDataSize : UInt8
  callbackDataSetList : ℕ → UInt8
  callbackFunctionList : ℕ → Option CallbackFunction
  callbackUserPtrList : ℕ → Option ℕ

/-- What a call of the parser reports: a start byte without a header, one whose header did not come
in time, or a header with what became of its packet, and the slot of the callback that is called. -/
inductive Event where
  | headerSkipped
  | headerTimeout
  | packet (type : CallbackType) (bytes : List UInt8) (slot : Option ℕ)
deriving DecidableEq, Repr

namespace Interface

/-- `mip_interface_init`, once the port is open. -/
def init (inputBufferBytes : Memory) (packetTimeoutVal : ℕ) : Interface where
  initialized := true
  inputBuffer := .initStatic inputBufferBytes inputRingBufferSize 1
  mipPacket := fun _ => 0
  byteCount := 0
  startTime := 0
  numBadChecksums := 0
  timeouts := 0
  inSync := false
  headersSkipped := 0
  packetTimeout := packetTimeoutVal
  commandResponseReceived := false
  commandId := 0
  commandAcknackResponse := 0
  commandResponseData := none
  commandResponseDataSize := 0
  callbackDataSetList := fun _ => 0
  callbackFunctionList := fun slot => if slot = 0 then some .commandResponseHandler else none
  callbackUserPtrList := fun slot => if slot = 0 then some 0 else none

variable (i : Interface)

/-- `__mip_interface_time_timeout`, with the time that it reads. -/
def timeTimeout (initialTime timeoutMs currentTime : ℕ) : Bool :=
  if currentTime < initialTime then
    decide (timeoutMs ≤ 0xFFFFFFFF - initialTime + currentTime)
  else decide (timeoutMs ≤ currentTime - initialTime)

/-- `__mip_interface_find_callback`, as the slot. -/
def findCallback (dataSet : UInt8) : Option ℕ :=
  if dataSet = 0 then none
  else (List.range (maxCallbacks + 1)).find? fun slot =>
    i.callbackDataSetList slot = dataSet ∧ (i.callbackFunctionList slot).isSome

/-- `mip_interface_add_descriptor_set_callback`; `none` when the list is full. -/
def addDescriptorSetCallback (dataSet : UInt8) (userPtr : Option ℕ)
    (packetCallback : Option CallbackFunction) : Option Interface :=
  ((List.range' 1 maxCallbacks).find? fun slot =>
    i.callbackDataSetList slot = 0 ∧ i.callbackFunctionList slot = none ∧
      i.callbackUserPtrList slot = none).map fun slot =>
    { i with
      callbackDataSetList := Function.update i.callbackDataSetList slot dataSet
      callbackFunctionList := Function.update i.callbackFunctionList slot packetCallback
      callbackUserPtrList := Function.update i.callbackUserPtrList slot userPtr }

/-- `mip_interface_delete_descriptor_set_callback`, with whether one was found. -/
def deleteDescriptorSetCallback (dataSet : UInt8) : Bool × Interface :=
  let found slot :=
    decide (1 ≤ slot ∧ slot < maxCallbacks + 1 ∧ i.callbackDataSetList slot = dataSet)
  ((List.range' 1 maxCallbacks).any found,
    { i with
      callbackDataSetList := fun slot => if found slot then 0 else i.callbackDataSetList slot
      callbackFunctionList := fun slot => if found slot then none else i.callbackFunctionList slot
      callbackUserPtrList := fun slot => if found slot then none else i.callbackUserPtrList slot })

/-- `__mip_interface_command_response_handler` on the packet of the interface. -/
def commandResponseHandler (callbackType : CallbackType) : Interface :=
  let i := { i with commandResponseReceived := true }
  if callbackType = .validPacket then
    let (first, field, fieldOffset) := i.mipPacket.getFirstField
    let i :=
      if first = .ok then
        { i with
          commandId := i.mipPacket (field + fieldHeaderSize)
          commandAcknackResponse := i.mipPacket (field + fieldHeaderSize + 1) }
      else i
    let (next, field, _) := i.mipPacket.getNextField fieldOffset
    if next = .ok then
      { i with
        commandResponseData := some field
        commandResponseDataSize := UInt8.ofNat (2 ^ 16 + i.mipPacket.getPayloadSize - 2) }
    else i
  else
    { i with
      commandId := 0
      commandAcknackResponse := 0
      commandResponseData := none
      commandResponseDataSize := 0 }

/-- The callback for the packet of the interface is looked up and called. -/
def trigger (callbackType : CallbackType) : Interface :=
  match (i.findCallback (i.mipPacket 2)).bind i.callbackFunctionList with
  | some .commandResponseHandler => i.commandResponseHandler callbackType
  | _ => i

/-- What is reported of the packet of the interface, of which so many bytes are told. -/
def event (callbackType : CallbackType) (packetSize : ℕ) : Event :=
  .packet callbackType (i.mipPacket.bytes 0 packetSize) (i.findCallback (i.mipPacket 2))

/-! ## The parser -/

/-- The loop that looks for a start byte, for at most so many rounds. -/
def seek (now : ℕ) : ℕ → Interface → Interface
  | 0, i => i
  | fuel + 1, i =>
    if i.byteCount = 0 ∧ i.inputBuffer.count ≠ 0 then
      let (ret, entry, inputBuffer) := i.inputBuffer.read
      let i := { i with inputBuffer, mipPacket := i.mipPacket.copy 0 entry }
      if ret = .ok ∧ i.mipPacket 0 = syncByte1 then
        seek now fuel { i with byteCount := 1, startTime := now }
      else seek now fuel i
    else i

/-- A byte of the input buffer is copied to the packet. -/
def peekByte (offset place : ℕ) (m : Memory) : Memory :=
  match i.inputBuffer.lookaheadRead offset 1 with
  | (.ok, entry) => m.copy place entry
  | _ => m

/-- Bytes of the input buffer, from an offset on, are copied to the packet, one after the other. -/
def peek (offset place n : ℕ) : Interface :=
  { i with
    mipPacket := (List.range n).foldl (fun m k => i.peekByte (offset + k) (place + k) m)
      i.mipPacket }

/-- The part that gets the rest of the header. -/
def getHeader (later : ℕ) : List Event × Interface :=
  if headerSize - 1 ≤ i.inputBuffer.count then
    let i := i.peek 0 1 (headerSize - 1)
    if i.mipPacket 1 = syncByte2 ∧
        i.mipPacket.payload + headerSize + checksumSize ≤ maxPacketSize then
      ([], { i with byteCount := headerSize })
    else
      ([.headerSkipped],
        { i with
          inSync := false
          byteCount := 0
          headersSkipped := u32 (i.headersSkipped + 1) })
  else if timeTimeout i.startTime i.packetTimeout later then
    ([.headerTimeout],
      { i with timeouts := u32 (i.timeouts + 1), byteCount := 0, inSync := false })
  else ([], i)

/-- The part that gets the rest of the packet. -/
def getPacket (later : ℕ) : List Event × Interface :=
  if headerSize - 1 + i.mipPacket.payload + checksumSize ≤ i.inputBuffer.count then
    let i := i.peek (headerSize - 1) headerSize (i.mipPacket.payload + checksumSize)
    if i.mipPacket.isChecksumValid = .ok then
      let byteCount := i.byteCount + (i.mipPacket.payload + checksumSize)
      let e := i.event .validPacket byteCount
      let i := i.trigger .validPacket
      ([e],
        { i with
          inputBuffer := (i.inputBuffer.consumeEntries (byteCount - 1)).2
          inSync := true
          byteCount := 0 })
    else
      let e := i.event .checksumError i.byteCount
      let i := i.trigger .checksumError
      ([e],
        { i with
          numBadChecksums := if i.inSync then u32 (i.numBadChecksums + 1) else i.numBadChecksums
          inSync := false
          byteCount := 0 })
  else if timeTimeout i.startTime i.packetTimeout later then
    let e := i.event .timeout i.byteCount
    let i := i.trigger .timeout
    ([e], { i with timeouts := u32 (i.timeouts + 1), inSync := false, byteCount := 0 })
  else ([], i)

/-- The part that searches for a start condition. -/
def findStart (now later : ℕ) : List Event × Interface :=
  if i.byteCount < headerSize then
    let i := seek now (i.inputBuffer.count + 1) i
    if 0 < i.byteCount then i.getHeader later else ([], i)
  else ([], i)

/-- `__mip_interface_parse_input_buffer`, with the times that it reads. -/
def parseInputBuffer (now later : ℕ) : List Event × Interface :=
  if i.initialized then
    let (es, i) := i.findStart now later
    let (es', i) := if headerSize ≤ i.byteCount then i.getPacket later else ([], i)
    (es ++ es', i)
  else ([], i)

/-! ## Bytes that arrive -/

/-- The loop of `mip_interface_write`, with the number of the bytes that were written. -/
def writeBytes : List UInt8 → RingBuffer → ℕ × RingBuffer
  | [], b => (0, b)
  | x :: xs, b =>
    match b.write [x] with
    | (.ok, b) =>
      let (n, b) := writeBytes xs b
      (n + 1, b)
    | (_, b) => (0, b)

/-- `mip_interface_write`. -/
def write (data : List UInt8) : ℕ × Interface :=
  if i.initialized then
    let (n, inputBuffer) := writeBytes data i.inputBuffer
    (n, { i with inputBuffer })
  else (0, i)

/-- The port: how many bytes there are, and the bytes that a read of so many at most gets. -/
structure Port where
  readCount : ℕ
  read : ℕ → List UInt8
  short : ∀ n, (read n).length ≤ n

/-- The number of bytes that `mip_interface_update` asks the port for. -/
def askedFor (port : Port) : ℕ :=
  min (min inputRingBufferSize i.inputBuffer.remainingEntries) port.readCount

/-- `mip_interface_update`, with the times that the parser reads. -/
def update (port : Port) (now later : ℕ) : List Event × Interface :=
  if i.initialized then
    let localBuffer := port.read (i.askedFor port)
    let inputBuffer :=
      if 0 < localBuffer.length then
        (i.inputBuffer.writeMulti (fun k => localBuffer.getD k 0) localBuffer.length).2.2
      else i.inputBuffer
    parseInputBuffer { i with inputBuffer } now later
  else ([], i)

end Interface

end Guillemot.Mip
