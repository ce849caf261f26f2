import ByteComputer.Console.Basic

/-!
# Line-buffered consoles

Bytes wait in a buffer until a line is complete, until the buffer has no room for more, or until
the console is flushed; then all of them go to the device at once. What the device refuses keeps
waiting. A line end that finds nothing waiting goes to the device directly.
-/

namespace ByteComputer

/-- Where bytes go in the end. -/
structure Device where
  received : Array UInt8 := #[]
  /-- Why the device takes no byte, if it takes none. -/
  refusal? : Option SystemError := none

/-- A device without room for a single byte. -/
def Device.full : Device := { refusal? := some .noSpace }

def Device.take (d : Device) (bytes : List UInt8) : Device × Except SystemError Unit :=
  match d.refusal? with
  | some why => (d, .error why)
  | none => ({ d with received := d.received ++ bytes }, .ok ())

/-- A device behind a line buffer. -/
structure LineBuffered where
  device : Device
  waiting : Array UInt8 := #[]

namespace LineBuffered

def capacity : Nat := 1024

/-- Hands all waiting bytes to the device. -/
def drain (b : LineBuffered) : LineBuffered × Except SystemError Unit :=
  if b.waiting.isEmpty then (b, .ok ())
  else
    match b.device.take b.waiting.toList with
    | (device, .ok ()) => ({ device }, .ok ())
    | (device, .error e) => ({ b with device }, .error e)

/-- Makes room for a number of bytes. -/
def makeRoom (b : LineBuffered) (n : Nat) : LineBuffered × Except SystemError Unit :=
  if b.waiting.back? = some lineFeed ∨ capacity < b.waiting.size + n then b.drain else (b, .ok ())

/-- Takes bytes without a line end. -/
def put (b : LineBuffered) (bytes : List UInt8) : LineBuffered × Except SystemError Unit :=
  match b.makeRoom bytes.length with
  | (b, .ok ()) => ({ b with waiting := b.waiting ++ bytes }, .ok ())
  | (b, .error e) => (b, .error e)

def endLine (b : LineBuffered) : LineBuffered × Except SystemError Unit :=
  if b.waiting.isEmpty then
    let (device, result) := b.device.take [lineFeed]
    ({ b with device }, result)
  else { b with waiting := b.waiting.push lineFeed }.drain

def write (b : LineBuffered) : Output → LineBuffered × Except SystemError Unit
  | .number value =>
    match b.put (Output.digits value) with
    | (b, .ok ()) => b.endLine
    | (b, .error e) => (b, .error e)
  | .char value => if value = lineFeed then b.endLine else b.put [value]

instance : Console LineBuffered where
  write := write
  flush := drain

end LineBuffered

end ByteComputer
