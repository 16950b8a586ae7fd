import EspCars.Lib.Crc
import EspCars.Lib.Effect

/-!
# Reset of a card that was interrupted

`components/sd_logger/card_reset.h`: the sequence that talks a card out of what an aborted write left
it in, and the one that asks a card to prove that it works. What the card answers, what the clock
shows and when the caller withdraws comes from outside, one answer for each time it is asked.

A busy wait goes on until the card lets go, the time is over or the caller withdraws. Its rounds are
counted down from `fuel`, and a wait that is not over then leaves as `Unended`.
-/

namespace EspCars.SdLogger

open EspCars.Lib

/-- `SD_SPI_IDLE_BYTE` -/
def spiIdleByte : UInt8 := 0xFF

/-- `SD_SPI_STOP_TRAN_TOKEN` -/
def spiStopTranToken : UInt8 := 0xFD

/-- `SD_SPI_R1_IDLE` -/
def spiR1Idle : UInt8 := 0x01

/-- `CardResetStep` -/
inductive CardResetStep
  | none | busyWait | clockOut | stopTran | stopCmd | goIdle | status
  deriving DecidableEq, Repr

/-- `CardResetOutcome` -/
inductive CardResetOutcome
  | idle | stillBusy | mute | noResponse | aborted
  deriving DecidableEq, Repr

/-- `CardResetConfig` -/
structure CardResetConfig where
  busyTimeoutMs : UInt32 := 2000
  cmd0Attempts : UInt8 := 10
  cmd0GapMs : UInt32 := 100

/-- `CardResetResult` -/
structure CardResetResult where
  outcome : CardResetOutcome := .mute
  reached : CardResetStep := .none
  busyMs : UInt32 := 0
  busyAfterStopMs : UInt32 := 0
  r1 : UInt8 := 0xFF
  status : UInt8 := 0
  statusValid : Bool := false
  cmd0Tries : UInt8 := 0
  sawBusy : Bool := false

/-! ## `CardResetIo` -/

/-- What comes from outside: the byte that is read at every transfer, and what every reading of the
clock and every look at `aborted` gives. -/
structure Card where
  answer : Nat → UInt8
  clock : Nat → UInt32
  aborts : Nat → Bool

/-- One byte out and one byte in, and whether chip select was asserted. -/
structure SpiByte where
  out : UInt8
  got : UInt8
  selected : Bool
  deriving DecidableEq

/-- The lines of the bus and what was clocked so far. -/
structure Bus where
  selected : Bool
  trace : List SpiByte := []
  readings : Nat := 0
  polls : Nat := 0

/-- A busy wait that is not over. -/
inductive Unended
  | busyWait

/-- A routine that clocks the bus. -/
abbrev Io := Program Bus Unended

variable (card : Card)

/-- A byte each way. -/
def Bus.transfer (s : Bus) (out : UInt8) : Bus :=
  { s with trace := s.trace ++ [⟨out, card.answer s.trace.length, s.selected⟩] }

def cs (assert : Bool) : Io Unit := modify fun s => { s with selected := assert }

def xfer (out : UInt8) : Io UInt8 := do
  let s ← get
  set (s.transfer card out)
  return card.answer s.trace.length

/-- The readings that follow are from outside anyway. -/
def delayMs (_ms : UInt32) : Io Unit := pure ()

def nowMs : Io UInt32 := do
  let s ← get
  set { s with readings := s.readings + 1 }
  return card.clock s.readings

def aborted : Io Bool := do
  let s ← get
  set { s with polls := s.polls + 1 }
  return card.aborts s.polls

/-! ## Commands -/

/-- One bit of `sd_crc7`: the register, and the byte whose bits go into it. -/
def sdCrc7Bit (s : UInt8 × UInt8) : UInt8 × UInt8 :=
  let crc := s.1 <<< 1
  (if (s.2 ^^^ crc) &&& 0x80 ≠ 0 then crc ^^^ 0x09 else crc, s.2 <<< 1)

/-- `sd_crc7` -/
def sdCrc7 (data : List UInt8) : UInt8 :=
  (data.foldl (fun crc byte => (sdCrc7Bit^[8] (crc, byte)).1) 0) <<< 1 ||| 1

/-- The six bytes of a command. -/
def commandFrame (index : UInt8) (arg : UInt32) : List UInt8 :=
  [0x40 ||| (index &&& 0x3F), (arg >>> 24).toUInt8, (arg >>> 16).toUInt8, (arg >>> 8).toUInt8,
    arg.toUInt8]

def sendBytes : List UInt8 → Io Unit
  | [] => pure ()
  | out :: rest => do
    let _ ← xfer card out
    sendBytes rest

def idleBytes (n : Nat) : Io Unit := sendBytes card (List.replicate n spiIdleByte)

/-- 80 clocks with chip select deasserted, and then it is asserted. -/
def clockOut : Io Unit := do
  cs false
  idleBytes card 10
  cs true

/-- Deselect, and clock one more byte. -/
def deselect : Io Unit := do
  cs false
  let _ ← xfer card spiIdleByte

def readR1 : Nat → Io UInt8
  | 0 => pure 0xFF
  | n + 1 => do
    let got ← xfer card spiIdleByte
    if got &&& 0x80 = 0 then return got
    else readR1 n

/-- `sd_send_command` -/
def sdSendCommand (index : UInt8) (arg : UInt32) : Io UInt8 := do
  sendBytes card (commandFrame index arg)
  let _ ← xfer card (sdCrc7 (commandFrame index arg))
  readR1 card 16

/-! ## The busy wait -/

/-- Whether the card let go, `*elapsed_ms` and `*saw_busy`. -/
abbrev Waited := Bool × UInt32 × Bool

/-- `*elapsed_ms = io.now_ms() - start`, if there is where to write it. -/
def elapsedMs (timed : Bool) (start : UInt32) : Io UInt32 := do
  if timed then return (← nowMs card) - start
  else return 0

/-- The bytes in a row that are not zero. -/
def nonzeroRun (got : UInt8) (nonzero : Nat) : Nat := if got ≠ 0 then nonzero + 1 else 0

/-- The time is over, as a signed difference, or the caller withdraws. -/
def waitEnds (timeoutMs start : UInt32) : Io Bool := do
  let now ← nowMs card
  if timeoutMs.toInt32 ≤ (now - start).toInt32 then return true
  else aborted card

def waitRounds (timeoutMs start : UInt32) (timed : Bool) : Nat → Nat → Bool → Io Waited
  | 0, _, _ => throw .busyWait
  | fuel + 1, nonzero, sawBusy => do
    let got ← xfer card spiIdleByte
    if nonzeroRun got nonzero = 2 then
      return (true, ← elapsedMs card timed start, sawBusy)
    else if ← waitEnds card timeoutMs start then
      return (false, ← elapsedMs card timed start, sawBusy || got = 0)
    else waitRounds timeoutMs start timed fuel (nonzeroRun got nonzero) (sawBusy || got = 0)

/-- `sd_wait_not_busy` -/
def sdWaitNotBusy (fuel : Nat) (timeoutMs : UInt32) (timed sawBusy : Bool) : Io Waited := do
  let start ← nowMs card
  waitRounds card timeoutMs start timed fuel 0 sawBusy

/-! ## `card_reset` -/

/-- Step 4: what has become of the result, and whether the caller withdrew. -/
def cmd0Loop (gapMs : UInt32) : Nat → UInt8 → CardResetResult → Io (CardResetResult × Bool)
  | 0, _, result => return (result, false)
  | left + 1, attempt, result => do
    clockOut card
    let r1 ← sdSendCommand card 0 0
    let result := { result with cmd0Tries := attempt + 1, r1 := r1 }
    if r1 = spiR1Idle then return (result, false)
    else
      -- whatever it answered, it is there
      let result := { result with sawBusy := result.sawBusy || r1 ≠ 0xFF }
      cs false
      delayMs gapMs
      if ← aborted card then return ({ result with outcome := .aborted }, true)
      else cmd0Loop gapMs left (attempt + 1) result

/-- The second byte of R2, if there is one. -/
def readR2 (r2First : UInt8) (result : CardResetResult) : Io CardResetResult := do
  if r2First ≠ 0xFF then
    let status ← xfer card spiIdleByte
    return { result with status := status, statusValid := true }
  else return result

/-- Step 5, and what comes before the return. -/
def readStatus (result : CardResetResult) : Io CardResetResult := do
  let result := { result with reached := .status }
  let r2First ← sdSendCommand card 13 0
  let result ← readR2 card r2First result
  deselect card
  return { result with outcome := .idle }

/-- Steps 3 to 5. -/
def stopAndGoIdle (fuel : Nat) (cfg : CardResetConfig) (result : CardResetResult) :
    Io CardResetResult := do
  let result := { result with reached := .stopCmd }
  let _ ← sdSendCommand card 12 0
  let waited ← sdWaitNotBusy card fuel cfg.busyTimeoutMs false result.sawBusy
  let result := { result with reached := .goIdle, sawBusy := waited.2.2 }
  let (result, withdrawn) ← cmd0Loop card cfg.cmd0GapMs cfg.cmd0Attempts.toNat 0 result
  if withdrawn then return result
  else if result.r1 ≠ spiR1Idle then
    deselect card
    return { result with outcome := if result.sawBusy then .noResponse else .mute }
  else readStatus card result

/-- Steps 1 and 2. -/
def stopTran (fuel : Nat) (cfg : CardResetConfig) (result : CardResetResult) : Io CardResetResult := do
  clockOut card
  let _ ← xfer card spiIdleByte
  let _ ← xfer card spiStopTranToken
  let _ ← xfer card spiIdleByte
  let waited ← sdWaitNotBusy card fuel cfg.busyTimeoutMs true result.sawBusy
  let result :=
    { result with reached := .stopTran, busyAfterStopMs := waited.2.1, sawBusy := waited.2.2 }
  if ← aborted card then
    cs false
    return { result with outcome := .aborted }
  else stopAndGoIdle card fuel cfg result

/-- `card_reset` -/
def cardReset (fuel : Nat) (cfg : CardResetConfig) : Io CardResetResult := do
  cs true
  let waited ← sdWaitNotBusy card fuel cfg.busyTimeoutMs true false
  let result : CardResetResult :=
    { reached := .busyWait, busyMs := waited.2.1, sawBusy := waited.2.2 }
  if ← aborted card then
    cs false
    return { result with outcome := .aborted }
  else if !waited.1 then
    deselect card
    return { result with outcome := .stillBusy }
  else stopTran card fuel cfg { result with reached := .clockOut }

/-! ## `card_probe_ready` -/

/-- `CardReadyResult` -/
structure CardReadyResult where
  idle : Bool := false
  cmd8Echoed : Bool := false
  ocrValid : Bool := false
  ocr : UInt32 := 0
  poweredUp : Bool := false
  highCapacity : Bool := false
  blockRead : Bool := false
  signature : Bool := false
  r1 : UInt8 := 0xFF

def probeLoop : Nat → CardReadyResult → Io CardReadyResult
  | 0, r => return r
  | left + 1, r => do
    clockOut card
    let r1 ← sdSendCommand card 0 0
    let r := { r with r1 := r1 }
    if r1 = spiR1Idle then return { r with idle := true }
    else
      cs false
      delayMs 20
      if ← aborted card then return r
      else probeLoop left r

/-- The bytes that are read with as many idle bytes. -/
def readBytes : Nat → Io (List UInt8)
  | 0 => return []
  | n + 1 => do
    let got ← xfer card spiIdleByte
    return got :: (← readBytes n)

/-- `CMD8` -/
def probeCmd8 (r : CardReadyResult) : Io CardReadyResult := do
  let r1 ← sdSendCommand card 8 0x000001AA
  if r1 ≠ 0xFF ∧ r1 &&& 0x04 = 0 then
    let echo ← readBytes card 4
    return { r with cmd8Echoed := echo.drop 2 = [0x01, 0xAA] }
  else return r

/-- `(ocr << 8) | byte` -/
def shiftIn (ocr : UInt32) (byte : UInt8) : UInt32 := ocr <<< 8 ||| byte.toUInt32

/-- `CMD58` -/
def probeCmd58 (r : CardReadyResult) : Io CardReadyResult := do
  let r1 ← sdSendCommand card 58 0
  if r1 ≠ 0xFF then
    let ocr := (← readBytes card 4).foldl shiftIn 0
    return { r with
      ocrValid := true, ocr := ocr, poweredUp := (ocr >>> 31) &&& 1 ≠ 0
      highCapacity := (ocr >>> 30) &&& 1 ≠ 0 }
  else return r

/-- The first byte that is not idle, of `n` at most. -/
def readToken : Nat → Io UInt8
  | 0 => return spiIdleByte
  | n + 1 => do
    let token ← xfer card spiIdleByte
    if token ≠ spiIdleByte then return token
    else readToken n

/-- `CMD17` -/
def probeCmd17 (goesOn : Bool) (r : CardReadyResult) : Io CardReadyResult := do
  if goesOn then
    let r1 ← sdSendCommand card 17 0
    if r1 ≠ 0xFF ∧ r1 &&& 0xFE = 0 then
      let token ← readToken card 4000
      if token = 0xFE then
        let block ← readBytes card 512
        idleBytes card 2
        return { r with blockRead := true, signature := block.drop 510 = [0x55, 0xAA] }
      else return r
    else return r
  else return r

/-- `r.powered_up && !io.aborted()`: nobody asks whether to abort for a card that is not up. -/
def probeGoesOn (r : CardReadyResult) : Io Bool := do
  if r.poweredUp then return !(← aborted card)
  else return false

/-- The verdict, and what is written through `out`. -/
def cardProbeReady : Io (Bool × CardReadyResult) := do
  let r ← probeLoop card 10 {}
  if !r.idle then
    deselect card
    return (false, r)
  else
    let r ← probeCmd8 card r
    let r ← probeCmd58 card r
    let goesOn ← probeGoesOn card r
    let r ← probeCmd17 card goesOn r
    deselect card
    return (r.poweredUp && r.blockRead, r)

end EspCars.SdLogger
