import Mathlib.Algebra.Ring.Int.Defs
import ThingyAccel.Adxl362Trigger
import ThingyAccel.RegisterBus

/-!
The registers of the accelerometer, as src/ncsFiles/adxl362/adxl362.c and
adxl362_trigger.c write them over SPI: the start-up of the device and the calls of the
sensor API. The data of a burst is in `Adxl362`.
-/
namespace ThingyAccel.Adxl362Registers

open RegisterBus Adxl362Trigger

def enodev : Int := 19

def eio : Int := 5

def einval : Int := 22

def adxl362WriteReg : UInt8 := 0x0A

def adxl362ReadReg : UInt8 := 0x0B

def regPartid : Nat := 0x02

def regXdata : Nat := 0x08

def regStatus : Nat := 0x0B

def regSoftReset : Nat := 0x1F

def regThreshActL : Nat := 0x20

def regTimeAct : Nat := 0x22

def regThreshInactL : Nat := 0x23

def regTimeInactL : Nat := 0x25

def regActInactCtl : Nat := 0x27

def regFifoCtl : Nat := 0x28

def regFifoSamples : Nat := 0x29

def regIntmap1 : Nat := 0x2A

def regIntmap2 : Nat := 0x2B

def regFilterCtl : Nat := 0x2C

def regPowerCtl : Nat := 0x2D

def regSelfTest : Nat := 0x2E

def partId : UInt8 := 0xF2

def resetKey : UInt8 := 0x52

def actInactCtlLinkloop (x : UInt8) : UInt8 := (x &&& 0x3) <<< 4

def actInactCtlInactRef : UInt8 := 1 <<< (3 : UInt8)

def actInactCtlInactEn : UInt8 := 1 <<< (2 : UInt8)

def actInactCtlActRef : UInt8 := 1 <<< (1 : UInt8)

def actInactCtlActEn : UInt8 := 1 <<< (0 : UInt8)

def modeDefault : UInt8 := 0

def modeLink : UInt8 := 1

def modeLoop : UInt8 := 3

def fifoCtlAh : UInt8 := 1 <<< (3 : UInt8)

def fifoCtlFifoTemp : UInt8 := 1 <<< (2 : UInt8)

def fifoCtlFifoMode (x : UInt8) : UInt8 := (x &&& 0x3) <<< 0

def fifoStream : UInt8 := 2

def filterCtlRange (x : UInt8) : UInt8 := (x &&& 0x3) <<< 6

def filterCtlOdr (x : UInt8) : UInt8 := (x &&& 0x7) <<< 0

/-- What is not under the driver's control: the values of the registers behind a reset,
what the read-only registers show, and how each transfer goes. -/
structure Surroundings where
  initial : Nat → UInt8
  sensed : Nat → Nat → UInt8
  transfer : Nat → Transfer

/-- Registers from THRESH_ACT_L to SELF_TEST hold what is written. -/
def Surroundings.wiring (surroundings : Surroundings) : Wiring where
  stored address := decide (regThreshActL ≤ address ∧ address ≤ regSelfTest)
  resets address value := decide (address = regSoftReset ∧ value = resetKey)
  initial := surroundings.initial
  sensed := surroundings.sensed
  transfer := surroundings.transfer

/-- `struct adxl362_config`, the configuration of the build, and what the calls on the
interrupt pin return. -/
structure Config where
  spiReady : Bool
  interruptPort : Bool
  int1Config : UInt8
  int2Config : UInt8
  powerCtl : UInt8
  absRefMode : UInt8
  activityThreshold : UInt16
  activityTime : UInt8
  inactivityThreshold : UInt16
  inactivityTime : UInt16
  interruptMode : UInt8
  rangeRuntime : Bool
  defaultRangeAcc : UInt8
  odrRuntime : Bool
  defaultOdrAcc : UInt8
  gpioReady : Bool
  gpioPinConfigure : Int
  gpioAddCallback : Int
  gpioPinInterruptConfigure : Int

inductive SensorChannel where
  | accelX
  | accelY
  | accelZ
  | accelXyz
  | other (value : Nat)
  deriving DecidableEq, Repr

inductive SensorAttribute where
  | samplingFrequency
  | lowerThresh
  | upperThresh
  | hysteresis
  | fullScale
  | other (value : Nat)
  deriving DecidableEq, Repr

structure SensorValue where
  val1 : Int32
  val2 : Int32
  deriving DecidableEq

/-- The accelerometer's registers and what `struct adxl362_data` keeps of the range and
the triggers. -/
structure Device (Handler : Type) where
  registers : Registers
  selectedRange : UInt8
  drvData : Adxl362Data Handler

/-! Tables. -/

def toUInt16 (value : Int) : UInt16 := UInt16.ofNat (value % 65536).toNat

def sensorG : Int := 9806650

/-- Divisions of C go towards zero. -/
def sensorMs2ToG (ms2 : SensorValue) : Int :=
  let microMs2 := ms2.val1.toInt * 1000000 + ms2.val2.toInt
  if 0 < microMs2 then (microMs2 + sensorG / 2).tdiv sensorG
  else (microMs2 - sensorG / 2).tdiv sensorG

def adxl362OdrMap : List (UInt16 × UInt16) :=
  [(12, 500), (25, 0), (50, 0), (100, 0), (200, 0), (400, 0)]

def adxl362FreqToOdrVal (freqInt freqMilli : UInt16) : Int :=
  if freqInt = 0 ∧ freqMilli = 0 then -einval
  else match adxl362OdrMap.findIdx? fun entry =>
      decide (freqInt < entry.1 ∨ freqInt = entry.1 ∧ freqMilli ≤ entry.2) with
    | some i => i
    | none => -einval

def adxl362AccRangeMap : List (UInt16 × UInt8) := [(2, 0), (4, 1), (8, 2)]

def adxl362RangeToRegVal (range : UInt16) : Int :=
  match adxl362AccRangeMap.find? fun entry => decide (range ≤ entry.1) with
  | some entry => entry.2.toNat
  | none => -einval

section Driver

variable {Handler : Type} (surroundings : Surroundings)

/-! Access. -/

def adxl362RegAccess (cmd : UInt8) (regAddr : Nat) (data : List UInt8) (dev : Device Handler) :
    Int × List UInt8 × Device Handler :=
  if cmd = adxl362ReadReg then
    let (ret, data, registers) := dev.registers.read surroundings.wiring regAddr data.length
    (ret, data, { dev with registers := registers })
  else
    let (ret, registers) := dev.registers.write surroundings.wiring regAddr data
    (ret, data, { dev with registers := registers })

/-- The low byte comes first. -/
def registerBytes (registerValue : UInt16) : List UInt8 :=
  [registerValue.toUInt8, (registerValue >>> 8).toUInt8]

def adxl362SetReg (registerValue : UInt16) (registerAddress count : Nat) :
    Routine (Device Handler) Unit := do
  let _ ← checked (adxl362RegAccess surroundings adxl362WriteReg registerAddress
    ((registerBytes registerValue).take count))

def adxl362GetReg (registerAddress count : Nat) : Routine (Device Handler) (List UInt8) :=
  checked (adxl362RegAccess surroundings adxl362ReadReg registerAddress (List.replicate count 0))

def adxl362RegWriteMask (registerAddress : Nat) (mask data : UInt8) :
    Routine (Device Handler) Unit := do
  let buf ← adxl362GetReg surroundings registerAddress 1
  let tmp := buf.headD 0 &&& ~~~mask ||| data
  let _ ← checked (adxl362RegAccess surroundings adxl362WriteReg registerAddress [tmp])

def adxl362InterruptConfig (int1 int2 : UInt8) : Routine (Device Handler) Unit := do
  let _ ← checked (adxl362RegAccess surroundings adxl362WriteReg regIntmap1 [int1])
  let _ ← checked (adxl362RegAccess surroundings adxl362WriteReg regIntmap2 [int2])

def adxl362GetStatus : Routine (Device Handler) (List UInt8) :=
  adxl362GetReg surroundings regStatus 1

/-- Reading any data register clears the data ready interrupt. -/
def adxl362ClearDataReady : Routine (Device Handler) (List UInt8) :=
  adxl362GetReg surroundings regXdata 1

def adxl362SoftwareReset : Routine (Device Handler) Unit :=
  adxl362SetReg surroundings resetKey.toUInt16 regSoftReset 1

/-! Settings. -/

def adxl362SetRange (range : UInt8) : Routine (Device Handler) Unit := do
  let buf ← adxl362GetReg surroundings regFilterCtl 1
  let newFilterCtl := buf.headD 0 &&& ~~~filterCtlRange 0x3 ||| filterCtlRange range
  adxl362SetReg surroundings newFilterCtl.toUInt16 regFilterCtl 1
  update fun dev => { dev with selectedRange := range }

def adxl362SetOutputRate (outRate : UInt8) : Routine (Device Handler) Unit := do
  let buf ← adxl362GetReg surroundings regFilterCtl 1
  let newFilterCtl := buf.headD 0 &&& ~~~filterCtlOdr 0x7 ||| filterCtlOdr outRate
  adxl362SetReg surroundings newFilterCtl.toUInt16 regFilterCtl 1

/-- The two attributes are there when the build selects them at run time. -/
def axl362AccConfig (config : Config) (attr : SensorAttribute) (val : SensorValue) :
    Routine (Device Handler) Unit :=
  match attr with
  | .fullScale =>
      if config.rangeRuntime then
        let rangeReg := adxl362RangeToRegVal (toUInt16 (sensorMs2ToG val))
        if rangeReg < 0 then fail (-enotsup)
        else adxl362SetRange surroundings (UInt8.ofNat rangeReg.toNat)
      else fail (-enotsup)
  | .samplingFrequency =>
      if config.odrRuntime then
        let outRate := adxl362FreqToOdrVal (toUInt16 val.val1.toInt)
          (toUInt16 (val.val2.toInt.tdiv 1000))
        if outRate < 0 then fail (-enotsup)
        else adxl362SetOutputRate surroundings (UInt8.ofNat outRate.toNat)
      else fail (-enotsup)
  | _ => fail (-enotsup)

def adxl362AttrSetThresh (chan : SensorChannel) (attr : SensorAttribute) (val : SensorValue) :
    Routine (Device Handler) Unit :=
  let threshold := toUInt16 val.val1.toInt
  if chan ≠ .accelX ∧ chan ≠ .accelY ∧ chan ≠ .accelZ then fail (-einval)
  else if 2047 < threshold then fail (-einval)
  else
    let reg := if attr = .upperThresh then regThreshActL else regThreshInactL
    adxl362SetReg surroundings (threshold &&& 0x7FF) reg 2

def adxl362AttrSet (config : Config) (chan : SensorChannel) (attr : SensorAttribute)
    (val : SensorValue) : Routine (Device Handler) Unit :=
  match attr with
  | .upperThresh | .lowerThresh => adxl362AttrSetThresh surroundings chan attr val
  | .hysteresis => adxl362SetReg surroundings (toUInt16 val.val1.toInt) regTimeInactL 2
  | _ =>
      match chan with
      | .accelX | .accelY | .accelZ | .accelXyz => axl362AccConfig surroundings config attr val
      | .other _ => fail (-enotsup)

def adxl362FifoSetup (mode : UInt8) (waterMarkLvl : UInt16) (enTempRead : UInt8) :
    Routine (Device Handler) Unit := do
  let writeVal := fifoCtlFifoMode mode ||| enTempRead * fifoCtlFifoTemp ||| fifoCtlAh
  adxl362SetReg surroundings writeVal.toUInt16 regFifoCtl 1
  adxl362SetReg surroundings waterMarkLvl regFifoSamples 1

def adxl362SetupActivityDetection (refOrAbs : UInt8) (threshold : UInt16) (time : UInt8) :
    Routine (Device Handler) Unit := do
  adxl362SetReg surroundings (threshold &&& 0x7FF) regThreshActL 2
  adxl362SetReg surroundings time.toUInt16 regTimeAct 1
  let buf ← adxl362GetReg surroundings regActInactCtl 1
  let newActInactReg := buf.headD 0 &&& ~~~actInactCtlActRef |||
    (actInactCtlActEn ||| refOrAbs * actInactCtlActRef)
  adxl362SetReg surroundings newActInactReg.toUInt16 regActInactCtl 1

def adxl362SetupInactivityDetection (refOrAbs : UInt8) (threshold time : UInt16) :
    Routine (Device Handler) Unit := do
  adxl362SetReg surroundings (threshold &&& 0x7FF) regThreshInactL 2
  adxl362SetReg surroundings time regTimeInactL 2
  let buf ← adxl362GetReg surroundings regActInactCtl 1
  let newActInactReg := buf.headD 0 &&& ~~~actInactCtlInactRef |||
    (actInactCtlInactEn ||| refOrAbs * actInactCtlInactRef)
  adxl362SetReg surroundings newActInactReg.toUInt16 regActInactCtl 1

/-- The old value is or'ed in again, with the bits that were just cleared. -/
def adxl362SetInterruptMode (mode : UInt8) : Routine (Device Handler) Unit :=
  if mode ≠ modeDefault ∧ mode ≠ modeLink ∧ mode ≠ modeLoop then fail (-einval)
  else do
    let buf ← adxl362GetReg surroundings regActInactCtl 1
    let oldActInactReg := buf.headD 0
    let newActInactReg := oldActInactReg &&& ~~~actInactCtlLinkloop 3 |||
      (oldActInactReg ||| actInactCtlLinkloop mode)
    adxl362SetReg surroundings newActInactReg.toUInt16 regActInactCtl 1

/-! Start-up. -/

def adxl362ChipInit (config : Config) : Routine (Device Handler) Unit := do
  adxl362SetupActivityDetection surroundings config.absRefMode config.activityThreshold
    config.activityTime
  adxl362SetupInactivityDetection surroundings config.absRefMode config.inactivityThreshold
    config.inactivityTime
  adxl362FifoSetup surroundings fifoStream 253 0
  adxl362SetRange surroundings config.defaultRangeAcc
  adxl362SetOutputRate surroundings config.defaultOdrAcc
  adxl362SetReg surroundings config.powerCtl.toUInt16 regPowerCtl 1

def gpioCall (ret : Int) : Routine (Device Handler) Unit :=
  if ret < 0 then fail ret else pure ()

def adxl362InitInterrupt (config : Config) : Routine (Device Handler) Unit :=
  if !config.gpioReady then fail (-enodev)
  else do
    failWith negative id (adxl362SetInterruptMode surroundings config.interruptMode)
    gpioCall config.gpioPinConfigure
    gpioCall config.gpioAddCallback
    gpioCall config.gpioPinInterruptConfigure

/-- The part id is looked at even when it could not be read. -/
def adxl362CheckPart : Routine (Device Handler) Unit := fun dev =>
  let (_, value, dev) := adxl362RegAccess surroundings adxl362ReadReg regPartid [0] dev
  if value.headD 0 ≠ partId then (.error (-enodev), dev) else (.ok (), dev)

def adxl362Init (config : Config) : Routine (Device Handler) Unit :=
  if !config.spiReady then fail (-einval)
  else do
    failWith nonzero (fun _ => -enodev) (adxl362SoftwareReset surroundings)
    adxl362CheckPart surroundings
    failWith negative (fun _ => -enodev) (adxl362ChipInit surroundings config)
    if config.interruptPort then
      failWith negative (fun _ => -eio) (adxl362InitInterrupt surroundings config)
      failWith negative (fun _ => -eio)
        (adxl362InterruptConfig surroundings config.int1Config config.int2Config)

/-! Triggers. -/

/-- The handler is kept, and the interrupt cleared, before the register is written. -/
def adxl362TriggerSet (config : Config) (trig : SensorTrigger) (handler : Option Handler) :
    Routine (Device Handler) Unit :=
  let enable (intMask : UInt8) : Routine (Device Handler) Unit :=
    adxl362RegWriteMask surroundings regIntmap1 intMask (if handler.isSome then intMask else 0)
  if config.interruptPort = false then fail (-enotsup)
  else match trig.type with
    | .motion => do
        update fun dev => { dev with
          drvData := { dev.drvData with actHandler := handler, actTrigger := some trig } }
        ignored (adxl362GetStatus surroundings)
        enable intmap1Act
    | .fifo => do
        update fun dev => { dev with
          drvData := { dev.drvData with fifoHandler := handler, fifoTrigger := some trig } }
        enable intmap1FifoWatermark
    | .stationary => do
        update fun dev => { dev with
          drvData := { dev.drvData with inactHandler := handler, inactTrigger := some trig } }
        ignored (adxl362GetStatus surroundings)
        enable intmap1Inact
    | .dataReady => do
        update fun dev => { dev with
          drvData := { dev.drvData with drdyHandler := handler, drdyTrigger := some trig } }
        ignored (adxl362ClearDataReady surroundings)
        enable intmap1DataReady
    | .other _ => fail (-enotsup)

/-- The transfer of `adxl362_fifo_cmd` reads no register. -/
def adxl362FifoCmd : Routine (Device Handler) Unit := fun dev =>
  let error := (surroundings.transfer dev.registers.transfers).error
  let dev := { dev with registers := { dev.registers with transfers := dev.registers.transfers + 1 } }
  if error = 0 then (.ok (), dev) else (.error error, dev)

end Driver

end ThingyAccel.Adxl362Registers
