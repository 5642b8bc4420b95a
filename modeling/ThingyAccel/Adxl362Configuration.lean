import ThingyAccel.Adxl362Registers

/-!
What `adxl362_init` makes of the accelerometer, over a bus that may fail at any transfer.
-/
namespace ThingyAccel.Adxl362Configuration

open RegisterBus Adxl362Trigger Adxl362Registers

section Effects

variable {Handler : Type} (surroundings : Surroundings)

/-- The transfers that the device has seen. -/
def clock (dev : Device Handler) : Nat := dev.registers.transfers

def shown (dev : Device Handler) (address : Nat) : UInt8 :=
  dev.registers.shown surroundings.wiring address

/-- A read that is done. -/
def ticked (dev : Device Handler) : Device Handler :=
  { dev with registers := { dev.registers with transfers := dev.registers.transfers + 1 } }

def wrote (address : Nat) (data : List UInt8) (dev : Device Handler) : Device Handler :=
  { dev with registers := ⟨storeAll surroundings.wiring dev.registers.values address data,
    dev.registers.transfers + 1⟩ }

def rewrote (address : Nat) (change : UInt8 → UInt8) (dev : Device Handler) : Device Handler :=
  wrote surroundings address [change (shown surroundings dev address)] (ticked dev)

def ranged (range : UInt8) (dev : Device Handler) : Device Handler :=
  { dev with selectedRange := range }

variable {surroundings}

theorem transfer_code {dev : Device Handler}
    (undone : ¬ Done surroundings.wiring (clock dev) 1) :
    (surroundings.transfer dev.registers.transfers).error < 0 := by
  have documented := (surroundings.transfer dev.registers.transfers).documented
  by_contra positive
  apply undone
  intro index bound
  cases Nat.lt_one_iff.mp bound
  exact Int.le_antisymm documented (Int.not_lt.mp positive)

theorem transfer_done {dev : Device Handler} (done : Done surroundings.wiring (clock dev) 1) :
    (surroundings.wiring.transfer dev.registers.transfers).error = 0 := done 0 Nat.one_pos

theorem reg_access_write (address : Nat) (data : List UInt8) (dev : Device Handler) :
    ∃ after, adxl362RegAccess surroundings adxl362WriteReg address data dev =
        ((surroundings.transfer dev.registers.transfers).error, data, after) ∧
      (Done surroundings.wiring (clock dev) 1 → after = wrote surroundings address data dev) := by
  rw [adxl362RegAccess, if_neg (by decide)]
  refine ⟨_, rfl, ?_⟩
  intro done
  simp only [transfer_done done, ↓reduceIte]
  rfl

theorem reg_access_read (address length : Nat) (dev : Device Handler) :
    ∃ data, adxl362RegAccess surroundings adxl362ReadReg address (List.replicate length 0) dev =
        ((surroundings.transfer dev.registers.transfers).error, data, ticked dev) ∧
      (Done surroundings.wiring (clock dev) 1 →
        data = (List.range length).map fun index => shown surroundings dev (address + index)) := by
  rw [adxl362RegAccess, if_pos rfl, List.length_replicate]
  refine ⟨_, rfl, ?_⟩
  intro done
  simp only [transfer_done done, ↓reduceIte]
  rfl

theorem runs_write (address : Nat) (data : List UInt8) :
    Runs surroundings.wiring (clock : Device Handler → Nat) 1 (fun _ => data)
      (wrote surroundings address data)
      (checked (adxl362RegAccess surroundings adxl362WriteReg address data)) := by
  refine ⟨?_, ?_, fun _ => rfl⟩
  · intro dev done
    obtain ⟨after, returns, same⟩ := @reg_access_write Handler surroundings address data dev
    have zero : (surroundings.transfer dev.registers.transfers).error = 0 := transfer_done done
    rw [zero, same done] at returns
    exact checked_zero returns
  · intro dev undone
    obtain ⟨after, returns, -⟩ := @reg_access_write Handler surroundings address data dev
    have negative := transfer_code undone
    exact ⟨_, negative, by rw [checked_nonzero returns (Int.ne_of_lt negative)]⟩

theorem runs_get_reg (address : Nat) :
    Runs surroundings.wiring (clock : Device Handler → Nat) 1
      (fun dev => [shown surroundings dev address]) ticked
      (adxl362GetReg surroundings address 1) := by
  refine ⟨?_, ?_, fun _ => rfl⟩
  · intro dev done
    obtain ⟨data, returns, same⟩ := @reg_access_read Handler surroundings address 1 dev
    have zero : (surroundings.transfer dev.registers.transfers).error = 0 := transfer_done done
    rw [zero, same done] at returns
    exact checked_zero returns
  · intro dev undone
    obtain ⟨data, returns, -⟩ := @reg_access_read Handler surroundings address 1 dev
    have negative := transfer_code undone
    exact ⟨_, negative, by rw [adxl362GetReg, checked_nonzero returns (Int.ne_of_lt negative)]⟩

theorem runs_set_reg (value : UInt16) (address count : Nat) :
    Runs surroundings.wiring (clock : Device Handler → Nat) 1 (fun _ => ())
      (wrote surroundings address ((registerBytes value).take count))
      (adxl362SetReg surroundings value address count) :=
  runs_bind (runs_write address _) fun _ => runs_pure ()

theorem low_byte (value : UInt8) : (registerBytes value.toUInt16).take 1 = [value] := by
  simp [registerBytes]

theorem runs_rewrite (address : Nat) (change : UInt8 → UInt8) :
    Runs surroundings.wiring (clock : Device Handler → Nat) 2 (fun _ => ())
      (rewrote surroundings address change)
      (do
        let buf ← adxl362GetReg surroundings address 1
        adxl362SetReg surroundings (change (buf.headD 0)).toUInt16 address 1) := by
  have run := runs_bind (@runs_get_reg Handler surroundings address) fun buf =>
    runs_set_reg (change (buf.headD 0)).toUInt16 address 1
  simp only [low_byte] at run
  exact run

theorem runs_set_byte (value : UInt8) (address : Nat) :
    Runs surroundings.wiring (clock : Device Handler → Nat) 1 (fun _ => ())
      (wrote surroundings address [value]) (adxl362SetReg surroundings value.toUInt16 address 1) := by
  have run := @runs_set_reg Handler surroundings value.toUInt16 address 1
  rwa [low_byte] at run

variable (surroundings)

def activityDetected (refOrAbs : UInt8) (threshold : UInt16) (time : UInt8) (dev : Device Handler) :
    Device Handler :=
  rewrote surroundings regActInactCtl
    (fun old => old &&& ~~~actInactCtlActRef ||| (actInactCtlActEn ||| refOrAbs * actInactCtlActRef))
    (wrote surroundings regTimeAct [time]
      (wrote surroundings regThreshActL (registerBytes (threshold &&& 0x7FF)) dev))

def inactivityDetected (refOrAbs : UInt8) (threshold time : UInt16) (dev : Device Handler) :
    Device Handler :=
  rewrote surroundings regActInactCtl
    (fun old =>
      old &&& ~~~actInactCtlInactRef ||| (actInactCtlInactEn ||| refOrAbs * actInactCtlInactRef))
    (wrote surroundings regTimeInactL (registerBytes time)
      (wrote surroundings regThreshInactL (registerBytes (threshold &&& 0x7FF)) dev))

def fifoFilled (mode : UInt8) (waterMarkLvl : UInt16) (enTempRead : UInt8) (dev : Device Handler) :
    Device Handler :=
  wrote surroundings regFifoSamples [waterMarkLvl.toUInt8]
    (wrote surroundings regFifoCtl
      [fifoCtlFifoMode mode ||| enTempRead * fifoCtlFifoTemp ||| fifoCtlAh] dev)

def rangeSet (range : UInt8) (dev : Device Handler) : Device Handler :=
  ranged range (rewrote surroundings regFilterCtl
    (fun old => old &&& ~~~filterCtlRange 0x3 ||| filterCtlRange range) dev)

def outputRateSet (outRate : UInt8) (dev : Device Handler) : Device Handler :=
  rewrote surroundings regFilterCtl (fun old => old &&& ~~~filterCtlOdr 0x7 ||| filterCtlOdr outRate)
    dev

def interruptModeSet (mode : UInt8) (dev : Device Handler) : Device Handler :=
  rewrote surroundings regActInactCtl
    (fun old => old &&& ~~~actInactCtlLinkloop 3 ||| (old ||| actInactCtlLinkloop mode)) dev

def chipInitialised (config : Config) (dev : Device Handler) : Device Handler :=
  wrote surroundings regPowerCtl [config.powerCtl]
    (outputRateSet surroundings config.defaultOdrAcc
      (rangeSet surroundings config.defaultRangeAcc
        (fifoFilled surroundings fifoStream 253 0
          (inactivityDetected surroundings config.absRefMode config.inactivityThreshold
            config.inactivityTime
            (activityDetected surroundings config.absRefMode config.activityThreshold
              config.activityTime dev)))))

variable {surroundings}

theorem runs_activity_detection (refOrAbs : UInt8) (threshold : UInt16) (time : UInt8) :
    Runs surroundings.wiring (clock : Device Handler → Nat) 4 (fun _ => ())
      (activityDetected surroundings refOrAbs threshold time)
      (adxl362SetupActivityDetection surroundings refOrAbs threshold time) :=
  runs_bind (runs_set_reg (threshold &&& 0x7FF) regThreshActL 2) fun _ =>
    runs_bind (runs_set_byte time regTimeAct) fun _ => runs_rewrite regActInactCtl _

theorem runs_inactivity_detection (refOrAbs : UInt8) (threshold time : UInt16) :
    Runs surroundings.wiring (clock : Device Handler → Nat) 4 (fun _ => ())
      (inactivityDetected surroundings refOrAbs threshold time)
      (adxl362SetupInactivityDetection surroundings refOrAbs threshold time) :=
  runs_bind (runs_set_reg (threshold &&& 0x7FF) regThreshInactL 2) fun _ =>
    runs_bind (runs_set_reg time regTimeInactL 2) fun _ => runs_rewrite regActInactCtl _

theorem runs_fifo_setup (mode : UInt8) (waterMarkLvl : UInt16) (enTempRead : UInt8) :
    Runs surroundings.wiring (clock : Device Handler → Nat) 2 (fun _ => ())
      (fifoFilled surroundings mode waterMarkLvl enTempRead)
      (adxl362FifoSetup surroundings mode waterMarkLvl enTempRead) :=
  runs_bind (runs_set_byte _ regFifoCtl) fun _ => runs_set_reg waterMarkLvl regFifoSamples 1

theorem runs_set_range (range : UInt8) :
    Runs surroundings.wiring (clock : Device Handler → Nat) 2 (fun _ => ())
      (rangeSet surroundings range) (adxl362SetRange surroundings range) :=
  runs_bind (runs_get_reg regFilterCtl) fun buf =>
    runs_bind (runs_set_byte (buf.headD 0 &&& ~~~filterCtlRange 0x3 ||| filterCtlRange range)
      regFilterCtl) fun _ => @runs_update _ _ _ (ranged range) fun _ => rfl

theorem runs_set_output_rate (outRate : UInt8) :
    Runs surroundings.wiring (clock : Device Handler → Nat) 2 (fun _ => ())
      (outputRateSet surroundings outRate) (adxl362SetOutputRate surroundings outRate) :=
  runs_rewrite regFilterCtl fun old => old &&& ~~~filterCtlOdr 0x7 ||| filterCtlOdr outRate

theorem runs_set_interrupt_mode {mode : UInt8}
    (known : mode = modeDefault ∨ mode = modeLink ∨ mode = modeLoop) :
    Runs surroundings.wiring (clock : Device Handler → Nat) 2 (fun _ => ())
      (interruptModeSet surroundings mode) (adxl362SetInterruptMode surroundings mode) := by
  rw [adxl362SetInterruptMode, if_neg (by simpa [Classical.or_iff_not_imp_left] using known)]
  exact runs_rewrite regActInactCtl fun old =>
    old &&& ~~~actInactCtlLinkloop 3 ||| (old ||| actInactCtlLinkloop mode)

theorem runs_chip_init (config : Config) :
    Runs surroundings.wiring (clock : Device Handler → Nat) 15 (fun _ => ())
      (chipInitialised surroundings config) (adxl362ChipInit surroundings config) :=
  runs_bind (runs_activity_detection _ _ _) fun _ =>
    runs_bind (runs_inactivity_detection _ _ _) fun _ =>
      runs_bind (runs_fifo_setup _ _ _) fun _ =>
        runs_bind (runs_set_range _) fun _ =>
          runs_bind (runs_set_output_rate _) fun _ => runs_set_byte config.powerCtl regPowerCtl

theorem runs_interrupt_config (int1 int2 : UInt8) :
    Runs surroundings.wiring (clock : Device Handler → Nat) 2 (fun _ => ())
      (fun dev => wrote surroundings regIntmap2 [int2] (wrote surroundings regIntmap1 [int1] dev))
      (adxl362InterruptConfig surroundings int1 int2) :=
  runs_bind (runs_write regIntmap1 [int1]) fun _ =>
    runs_bind (runs_write regIntmap2 [int2]) fun _ => runs_pure ()

theorem runs_software_reset :
    Runs surroundings.wiring (clock : Device Handler → Nat) 1 (fun _ => ())
      (wrote surroundings regSoftReset [resetKey]) (adxl362SoftwareReset surroundings) :=
  runs_set_byte resetKey regSoftReset

/-- The calls on the interrupt pin succeed, and the mode is one of the three. -/
structure PinReady (config : Config) : Prop where
  ready : config.gpioReady = true
  known : config.interruptMode = modeDefault ∨ config.interruptMode = modeLink ∨
    config.interruptMode = modeLoop
  configured : 0 ≤ config.gpioPinConfigure
  added : 0 ≤ config.gpioAddCallback
  enabled : 0 ≤ config.gpioPinInterruptConfigure

theorem gpio_call_zero {ret : Int} (succeeds : 0 ≤ ret) :
    (gpioCall ret : Routine (Device Handler) Unit) = pure () := by
  rw [gpioCall, if_neg (Int.not_lt.mpr succeeds)]

theorem runs_init_interrupt {config : Config} (pin : PinReady config) :
    Runs surroundings.wiring (clock : Device Handler → Nat) 2 (fun _ => ())
      (interruptModeSet surroundings config.interruptMode)
      (adxl362InitInterrupt surroundings config) := by
  rw [adxl362InitInterrupt, pin.ready, gpio_call_zero pin.configured, gpio_call_zero pin.added,
    gpio_call_zero pin.enabled]
  exact runs_bind (runs_fail_with negative_caught (fun _ below => below)
    (runs_set_interrupt_mode pin.known)) fun _ => runs_pure ()

theorem init_interrupt_fails {config : Config} (unready : ¬ PinReady config) (dev : Device Handler) :
    ∃ code < 0, ∃ after, adxl362InitInterrupt surroundings config dev = (.error code, after) := by
  have call (ret : Int) (dev : Device Handler) : gpioCall ret dev = (.ok (), dev) ∧ 0 ≤ ret ∨
      gpioCall ret dev = (.error ret, dev) ∧ ret < 0 := by
    by_cases below : ret < 0
    · rw [gpioCall, if_pos below]
      exact Or.inr ⟨rfl, below⟩
    · rw [gpioCall, if_neg below]
      exact Or.inl ⟨rfl, Int.not_lt.mp below⟩
  rw [adxl362InitInterrupt]
  by_cases ready : config.gpioReady = true
  · rw [ready]
    by_cases known : config.interruptMode = modeDefault ∨ config.interruptMode = modeLink ∨
        config.interruptMode = modeLoop
    · have runs := @runs_fail_with _ surroundings.wiring clock _ _ _ negative id negative_caught
        (fun _ below => below) (@runs_set_interrupt_mode Handler surroundings _ known)
      by_cases done : Done surroundings.wiring (clock dev) 2
      · show ∃ code < 0, ∃ after, (failWith negative id _ >>= _) dev = (.error code, after)
        rw [bind_value (runs.done dev done)]
        rcases call config.gpioPinConfigure (interruptModeSet surroundings config.interruptMode dev)
          with ⟨first, configured⟩ | ⟨first, below⟩
        · rw [bind_value first]
          rcases call config.gpioAddCallback
            (interruptModeSet surroundings config.interruptMode dev) with
            ⟨second, added⟩ | ⟨second, below⟩
          · rw [bind_value second]
            rcases call config.gpioPinInterruptConfigure
              (interruptModeSet surroundings config.interruptMode dev) with
              ⟨third, enabled⟩ | ⟨third, below⟩
            · exact absurd ⟨ready, known, configured, added, enabled⟩ unready
            · exact ⟨_, below, _, third⟩
          · rw [bind_error second]
            exact ⟨_, below, _, rfl⟩
        · rw [bind_error first]
          exact ⟨_, below, _, rfl⟩
      · obtain ⟨code, below, ends⟩ := runs.failed dev done
        refine ⟨code, below, ?_⟩
        cases run : failWith negative id
            (adxl362SetInterruptMode surroundings config.interruptMode) dev with
        | mk result after =>
            rw [run] at ends
            cases ends
            exact ⟨after, bind_error run _⟩
    · have mode : adxl362SetInterruptMode surroundings config.interruptMode dev =
          (.error (-einval), dev) := by
        rw [adxl362SetInterruptMode, if_pos (by simpa using known)]
        rfl
      have ends : failWith negative id
          (adxl362SetInterruptMode surroundings config.interruptMode) dev =
            (.error (-einval), dev) := by
        rw [failWith, mode]
        rfl
      exact ⟨_, by decide, dev, bind_error ends _⟩
  · rw [Bool.not_eq_true] at ready
    rw [ready]
    exact ⟨-enodev, by decide, dev, rfl⟩

/-- What the buffer for the part id holds behind the transfer that reads it. -/
def partByte (surroundings : Surroundings) (time : Nat) : UInt8 :=
  if (surroundings.transfer time).error = 0 then surroundings.sensed time regPartid
  else (surroundings.transfer time).left 0

/-- The reset, the part id and the settings of the chip, with the transfers from the first
one of the start-up on. The read of the part id need not be done. -/
structure Reached (surroundings : Surroundings) (start : Nat) : Prop where
  reset : Done surroundings.wiring start 1
  part : partByte surroundings (start + 1) = partId
  settings : Done surroundings.wiring (start + 2) 15

structure Mapped (surroundings : Surroundings) (config : Config) (start : Nat) : Prop where
  pin : PinReady config
  done : Done surroundings.wiring (start + 17) 4

variable (surroundings)

/-- The device behind a start-up. -/
def started (config : Config) (dev : Device Handler) : Device Handler :=
  let dev := chipInitialised surroundings config
    (ticked (wrote surroundings regSoftReset [resetKey] dev))
  if config.interruptPort then
    wrote surroundings regIntmap2 [config.int2Config] (wrote surroundings regIntmap1
      [config.int1Config] (interruptModeSet surroundings config.interruptMode dev))
  else dev

variable {surroundings}

theorem check_part (dev : Device Handler) :
    adxl362CheckPart surroundings dev =
      if partByte surroundings (clock dev) = partId then (.ok (), ticked dev)
      else (.error (-enodev), ticked dev) := by
  simp only [adxl362CheckPart, adxl362RegAccess, ↓reduceIte, Registers.read, List.length_singleton,
    List.range_one, List.map_cons, List.headD_cons, ite_not]
  rfl

theorem runs_reset_checked :
    Runs surroundings.wiring (clock : Device Handler → Nat) 1 (fun _ => ())
      (wrote surroundings regSoftReset [resetKey])
      (failWith nonzero (fun _ => -enodev) (adxl362SoftwareReset surroundings)) :=
  runs_fail_with nonzero_caught (fun _ _ => by decide) runs_software_reset

theorem runs_chip_init_checked (config : Config) :
    Runs surroundings.wiring (clock : Device Handler → Nat) 15 (fun _ => ())
      (chipInitialised surroundings config)
      (failWith negative (fun _ => -enodev) (adxl362ChipInit surroundings config)) :=
  runs_fail_with negative_caught (fun _ _ => by decide) (runs_chip_init config)

theorem runs_init_interrupt_checked {config : Config} (pin : PinReady config) :
    Runs surroundings.wiring (clock : Device Handler → Nat) 2 (fun _ => ())
      (interruptModeSet surroundings config.interruptMode)
      (failWith negative (fun _ => -eio) (adxl362InitInterrupt surroundings config)) :=
  runs_fail_with negative_caught (fun _ _ => by decide) (runs_init_interrupt pin)

theorem runs_interrupts {config : Config} (pin : PinReady config) :
    Runs surroundings.wiring (clock : Device Handler → Nat) 4 (fun _ => ())
      (fun dev => wrote surroundings regIntmap2 [config.int2Config]
        (wrote surroundings regIntmap1 [config.int1Config]
          (interruptModeSet surroundings config.interruptMode dev)))
      (do
        failWith negative (fun _ => -eio) (adxl362InitInterrupt surroundings config)
        failWith negative (fun _ => -eio)
          (adxl362InterruptConfig surroundings config.int1Config config.int2Config)) :=
  runs_bind (runs_init_interrupt_checked pin) fun _ =>
    runs_fail_with negative_caught (fun _ _ => by decide) (runs_interrupt_config _ _)

/-- Unless the pin is ready and the four transfers are done, the code is that for them. -/
theorem interrupts_fail {config : Config} {dev : Device Handler}
    (undone : ¬ (PinReady config ∧ Done surroundings.wiring (clock dev) 4)) :
    ∃ after, (do
        failWith negative (fun _ => -eio) (adxl362InitInterrupt surroundings config)
        failWith negative (fun _ => -eio)
          (adxl362InterruptConfig surroundings config.int1Config config.int2Config)) dev =
      (.error (-eio), after) := by
  by_cases pin : PinReady config
  · by_cases mode : Done surroundings.wiring (clock dev) 2
    · rw [bind_value ((runs_init_interrupt_checked pin).done dev mode)]
      refine fail_with_code negative_caught (-eio) (runs_interrupt_config _ _) ?_
      intro maps
      rw [runs_init_interrupt pin |>.elapsed] at maps
      exact undone ⟨pin, (done_add _ 2 2).mpr ⟨mode, maps⟩⟩
    · obtain ⟨after, ends⟩ := fail_with_code negative_caught (-eio)
        (@runs_init_interrupt Handler surroundings _ pin) mode
      exact ⟨after, bind_error ends _⟩
  · obtain ⟨code, below, after, ends⟩ := @init_interrupt_fails Handler surroundings _ pin dev
    refine ⟨after, bind_error ?_ _⟩
    simp only [failWith, ends, negative_caught code below, ↓reduceIte]

theorem init_reached {config : Config} (spi : config.spiReady = true) {dev : Device Handler}
    (reached : Reached surroundings (clock dev)) :
    adxl362Init surroundings config dev =
      (if config.interruptPort then (do
        failWith negative (fun _ => -eio) (adxl362InitInterrupt surroundings config)
        failWith negative (fun _ => -eio)
          (adxl362InterruptConfig surroundings config.int1Config config.int2Config))
      else pure ()) (chipInitialised surroundings config
        (ticked (wrote surroundings regSoftReset [resetKey] dev))) := by
  have part : adxl362CheckPart surroundings (wrote surroundings regSoftReset [resetKey] dev) =
      (.ok (), ticked (wrote surroundings regSoftReset [resetKey] dev)) := by
    rw [check_part]
    exact if_pos reached.part
  have settings := (runs_chip_init_checked config).done
    (ticked (wrote surroundings regSoftReset [resetKey] dev)) reached.settings
  rw [adxl362Init, spi]
  show (failWith nonzero (fun _ => -enodev) (adxl362SoftwareReset surroundings) >>= _) dev = _
  rw [bind_value (runs_reset_checked.done dev reached.reset), bind_value part, bind_value settings]

theorem init_unreached {config : Config} (spi : config.spiReady = true) {dev : Device Handler}
    (unreached : ¬ Reached surroundings (clock dev)) :
    ∃ after, adxl362Init surroundings config dev = (.error (-enodev), after) := by
  rw [adxl362Init, spi]
  show ∃ after, (failWith nonzero (fun _ => -enodev) (adxl362SoftwareReset surroundings) >>= _) dev =
    (.error (-enodev), after)
  by_cases reset : Done surroundings.wiring (clock dev) 1
  · rw [bind_value (runs_reset_checked.done dev reset)]
    by_cases part : partByte surroundings (clock dev + 1) = partId
    · have checks : adxl362CheckPart surroundings (wrote surroundings regSoftReset [resetKey] dev) =
          (.ok (), ticked (wrote surroundings regSoftReset [resetKey] dev)) := by
        rw [check_part]
        exact if_pos part
      have unsettled : ¬ Done surroundings.wiring
          (clock (ticked (wrote surroundings regSoftReset [resetKey] dev))) 15 :=
        fun settings => unreached ⟨reset, part, settings⟩
      rw [bind_value checks]
      obtain ⟨after, ends⟩ := fail_with_code negative_caught (-enodev)
        (@runs_chip_init Handler surroundings config) unsettled
      exact ⟨after, bind_error ends _⟩
    · have checks : adxl362CheckPart surroundings (wrote surroundings regSoftReset [resetKey] dev) =
          (.error (-enodev), ticked (wrote surroundings regSoftReset [resetKey] dev)) := by
        rw [check_part]
        exact if_neg part
      exact ⟨_, bind_error checks _⟩
  · obtain ⟨after, ends⟩ := fail_with_code nonzero_caught (-enodev)
      (@runs_software_reset Handler surroundings) reset
    exact ⟨after, bind_error ends _⟩

/-! What the registers hold. -/

theorem plain_control {address : Nat} (low : regThreshActL ≤ address) (length : Nat) :
    Plain surroundings.wiring address length := by
  intro offset bound value
  apply decide_eq_false
  rintro ⟨reset, -⟩
  simp only [regThreshActL, regSoftReset] at low reset
  omega

theorem held_control {address : Nat} (low : regThreshActL ≤ address) (high : address ≤ regSelfTest) :
    surroundings.wiring.stored address = true := decide_eq_true ⟨low, high⟩

theorem wrote_byte {address : Nat} (low : regThreshActL ≤ address) (high : address ≤ regSelfTest)
    (value : UInt8) (dev : Device Handler) :
    (wrote surroundings address [value] dev).registers.values =
      Function.update dev.registers.values address value := by
  have plain : surroundings.wiring.resets address value = false :=
    plain_control low 1 0 Nat.one_pos value
  simp only [wrote, storeAll, store, plain, held_control low high, Bool.false_eq_true, ↓reduceIte]

theorem wrote_word {address : Nat} (low : regThreshActL ≤ address) (high : address < regSelfTest)
    (value : UInt16) (dev : Device Handler) :
    (wrote surroundings address (registerBytes value) dev).registers.values =
      Function.update (Function.update dev.registers.values address value.toUInt8) (address + 1)
        (value >>> 8).toUInt8 := by
  have plain := @plain_control surroundings address low 1 0 Nat.one_pos value.toUInt8
  have plain' := @plain_control surroundings address low 2 1 (by decide) (value >>> 8).toUInt8
  rw [Nat.add_zero] at plain
  simp only [wrote, registerBytes, storeAll, store, plain, plain', held_control low (Nat.le_of_lt high),
    held_control (Nat.le_succ_of_le low) high, Bool.false_eq_true, ↓reduceIte]

theorem rewrote_value {address : Nat} (low : regThreshActL ≤ address) (high : address ≤ regSelfTest)
    (change : UInt8 → UInt8) (dev : Device Handler) :
    (rewrote surroundings address change dev).registers.values =
      Function.update dev.registers.values address (change (dev.registers.values address)) := by
  rw [rewrote, wrote_byte low high, shown, Registers.shown, if_pos (held_control low high)]
  rfl

structure Configured (config : Config) (initial values : Nat → UInt8) : Prop where
  threshAct : values regThreshActL = (config.activityThreshold &&& 0x7FF).toUInt8 ∧
    values (regThreshActL + 1) = ((config.activityThreshold &&& 0x7FF) >>> 8).toUInt8
  timeAct : values regTimeAct = config.activityTime
  threshInact : values regThreshInactL = (config.inactivityThreshold &&& 0x7FF).toUInt8 ∧
    values (regThreshInactL + 1) = ((config.inactivityThreshold &&& 0x7FF) >>> 8).toUInt8
  timeInact : values regTimeInactL = config.inactivityTime.toUInt8 ∧
    values (regTimeInactL + 1) = (config.inactivityTime >>> 8).toUInt8
  actInactCtl :
    let detecting := (initial regActInactCtl &&& ~~~actInactCtlActRef |||
        (actInactCtlActEn ||| config.absRefMode * actInactCtlActRef)) &&& ~~~actInactCtlInactRef |||
      (actInactCtlInactEn ||| config.absRefMode * actInactCtlInactRef)
    values regActInactCtl = if config.interruptPort then
        detecting ||| actInactCtlLinkloop config.interruptMode
      else detecting
  fifo : values regFifoCtl = fifoCtlFifoMode fifoStream ||| fifoCtlAh ∧ values regFifoSamples = 253
  filterCtl : values regFilterCtl =
    (initial regFilterCtl &&& ~~~filterCtlRange 0x3 ||| filterCtlRange config.defaultRangeAcc) &&&
      ~~~filterCtlOdr 0x7 ||| filterCtlOdr config.defaultOdrAcc
  powerCtl : values regPowerCtl = config.powerCtl
  intmap : config.interruptPort = true →
    values regIntmap1 = config.int1Config ∧ values regIntmap2 = config.int2Config
  selfTest : values regSelfTest = initial regSelfTest

theorem activity_values (refOrAbs : UInt8) (threshold : UInt16) (time : UInt8)
    (dev : Device Handler) (other : Nat) :
    (activityDetected surroundings refOrAbs threshold time dev).registers.values other =
      if other = regActInactCtl then
        dev.registers.values regActInactCtl &&& ~~~actInactCtlActRef |||
          (actInactCtlActEn ||| refOrAbs * actInactCtlActRef)
      else if other = regTimeAct then time
      else if other = regThreshActL + 1 then ((threshold &&& 0x7FF) >>> 8).toUInt8
      else if other = regThreshActL then (threshold &&& 0x7FF).toUInt8
      else dev.registers.values other := by
  rw [activityDetected, rewrote_value (by decide) (by decide), wrote_byte (by decide) (by decide),
    wrote_word (by decide) (by decide)]
  simp only [Function.update_apply]
  rfl

theorem inactivity_values (refOrAbs : UInt8) (threshold time : UInt16) (dev : Device Handler)
    (other : Nat) :
    (inactivityDetected surroundings refOrAbs threshold time dev).registers.values other =
      if other = regActInactCtl then
        dev.registers.values regActInactCtl &&& ~~~actInactCtlInactRef |||
          (actInactCtlInactEn ||| refOrAbs * actInactCtlInactRef)
      else if other = regTimeInactL + 1 then (time >>> 8).toUInt8
      else if other = regTimeInactL then time.toUInt8
      else if other = regThreshInactL + 1 then ((threshold &&& 0x7FF) >>> 8).toUInt8
      else if other = regThreshInactL then (threshold &&& 0x7FF).toUInt8
      else dev.registers.values other := by
  rw [inactivityDetected, rewrote_value (by decide) (by decide), wrote_word (by decide) (by decide),
    wrote_word (by decide) (by decide)]
  simp only [Function.update_apply]
  rfl

theorem fifo_values (mode : UInt8) (waterMarkLvl : UInt16) (enTempRead : UInt8)
    (dev : Device Handler) (other : Nat) :
    (fifoFilled surroundings mode waterMarkLvl enTempRead dev).registers.values other =
      if other = regFifoSamples then waterMarkLvl.toUInt8
      else if other = regFifoCtl then
        fifoCtlFifoMode mode ||| enTempRead * fifoCtlFifoTemp ||| fifoCtlAh
      else dev.registers.values other := by
  rw [fifoFilled, wrote_byte (by decide) (by decide), wrote_byte (by decide) (by decide)]
  simp only [Function.update_apply]

theorem range_values (range : UInt8) (dev : Device Handler) (other : Nat) :
    (rangeSet surroundings range dev).registers.values other =
      if other = regFilterCtl then
        dev.registers.values regFilterCtl &&& ~~~filterCtlRange 0x3 ||| filterCtlRange range
      else dev.registers.values other := by
  rw [rangeSet, ranged, rewrote_value (by decide) (by decide)]
  simp only [Function.update_apply]

theorem output_rate_values (outRate : UInt8) (dev : Device Handler) (other : Nat) :
    (outputRateSet surroundings outRate dev).registers.values other =
      if other = regFilterCtl then
        dev.registers.values regFilterCtl &&& ~~~filterCtlOdr 0x7 ||| filterCtlOdr outRate
      else dev.registers.values other := by
  rw [outputRateSet, rewrote_value (by decide) (by decide)]
  simp only [Function.update_apply]

/-- The bits that were cleared come back with the old value. -/
theorem linkloop_kept (old mode : UInt8) :
    old &&& ~~~actInactCtlLinkloop 3 ||| (old ||| actInactCtlLinkloop mode) =
      old ||| actInactCtlLinkloop mode := by
  rw [← UInt8.or_assoc]
  congr 1
  apply UInt8.toNat_inj.mp
  apply Nat.eq_of_testBit_eq
  intro bit
  rw [UInt8.toNat_or, UInt8.toNat_and, Nat.testBit_or, Nat.testBit_and]
  cases old.toNat.testBit bit <;> simp

theorem interrupt_mode_values (mode : UInt8) (dev : Device Handler) (other : Nat) :
    (interruptModeSet surroundings mode dev).registers.values other =
      if other = regActInactCtl then
        dev.registers.values regActInactCtl ||| actInactCtlLinkloop mode
      else dev.registers.values other := by
  rw [interruptModeSet, rewrote_value (by decide) (by decide), linkloop_kept]
  simp only [Function.update_apply]

theorem chip_values (config : Config) (dev : Device Handler) :
    Configured { config with interruptPort := false } dev.registers.values
      (chipInitialised surroundings config dev).registers.values := by
  have value (other : Nat) : (chipInitialised surroundings config dev).registers.values other =
      if other = regPowerCtl then config.powerCtl
      else (outputRateSet surroundings config.defaultOdrAcc
        (rangeSet surroundings config.defaultRangeAcc
          (fifoFilled surroundings fifoStream 253 0
            (inactivityDetected surroundings config.absRefMode config.inactivityThreshold
              config.inactivityTime
              (activityDetected surroundings config.absRefMode config.activityThreshold
                config.activityTime dev))))).registers.values other := by
    rw [chipInitialised, wrote_byte (by decide) (by decide), Function.update_apply]
  simp only [output_rate_values, range_values, fifo_values, inactivity_values, activity_values]
    at value
  constructor
  case intmap => exact fun impossible => by cases impossible
  all_goals simp only [value]
  all_goals first | rfl | exact ⟨rfl, rfl⟩

theorem started_values (config : Config) (dev : Device Handler) :
    Configured config surroundings.initial (started surroundings config dev).registers.values := by
  have chip := @chip_values Handler surroundings config
    (ticked (wrote surroundings regSoftReset [resetKey] dev))
  rw [started]
  cases port : config.interruptPort with
  | false =>
      have same : { config with interruptPort := false } = config := by rw [← port]
      rw [same] at chip
      exact chip
  | true =>
      have value (other : Nat) : (wrote surroundings regIntmap2 [config.int2Config]
          (wrote surroundings regIntmap1 [config.int1Config]
            (interruptModeSet surroundings config.interruptMode (chipInitialised surroundings config
              (ticked (wrote surroundings regSoftReset [resetKey] dev)))))).registers.values other =
          if other = regIntmap2 then config.int2Config
          else if other = regIntmap1 then config.int1Config
          else (interruptModeSet surroundings config.interruptMode
            (chipInitialised surroundings config
              (ticked (wrote surroundings regSoftReset [resetKey] dev)))).registers.values other := by
        rw [wrote_byte (by decide) (by decide), Function.update_apply,
          wrote_byte (by decide) (by decide), Function.update_apply]
      simp only [interrupt_mode_values] at value
      constructor
      case intmap => exact fun _ => ⟨by rw [if_pos rfl, value]; rfl, by rw [if_pos rfl, value]; rfl⟩
      case actInactCtl =>
        have detecting := chip.actInactCtl
        simp only [Bool.false_eq_true, ↓reduceIte] at detecting
        rw [if_pos rfl, value]
        simp only [port, ↓reduceIte]
        exact congrArg (· ||| actInactCtlLinkloop config.interruptMode) detecting
      case threshAct => exact ⟨by rw [if_pos rfl, value]; exact chip.threshAct.1,
        by rw [if_pos rfl, value]; exact chip.threshAct.2⟩
      case timeAct => rw [if_pos rfl, value]; exact chip.timeAct
      case threshInact => exact ⟨by rw [if_pos rfl, value]; exact chip.threshInact.1,
        by rw [if_pos rfl, value]; exact chip.threshInact.2⟩
      case timeInact => exact ⟨by rw [if_pos rfl, value]; exact chip.timeInact.1,
        by rw [if_pos rfl, value]; exact chip.timeInact.2⟩
      case fifo => exact ⟨by rw [if_pos rfl, value]; exact chip.fifo.1,
        by rw [if_pos rfl, value]; exact chip.fifo.2⟩
      case filterCtl => rw [if_pos rfl, value]; exact chip.filterCtl
      case powerCtl => rw [if_pos rfl, value]; exact chip.powerCtl
      case selfTest => rw [if_pos rfl, value]; exact chip.selfTest

/-- Which code a start-up ends with, by the transfers and the calls that failed, and what
a successful one leaves. -/
structure StartUp (surroundings : Surroundings) (config : Config) (dev : Device Handler) : Prop where
  unready : config.spiReady = false →
    adxl362Init surroundings config dev = (.error (-einval), dev)
  unreached : config.spiReady = true → ¬ Reached surroundings (clock dev) →
    ∃ after, adxl362Init surroundings config dev = (.error (-enodev), after)
  unmapped : config.spiReady = true → Reached surroundings (clock dev) →
    config.interruptPort = true → ¬ Mapped surroundings config (clock dev) →
      ∃ after, adxl362Init surroundings config dev = (.error (-eio), after)
  succeeded : config.spiReady = true → Reached surroundings (clock dev) →
    (config.interruptPort = true → Mapped surroundings config (clock dev)) →
      ∃ after, adxl362Init surroundings config dev = (.ok (), after) ∧
        Configured config surroundings.initial after.registers.values ∧
        after.selectedRange = config.defaultRangeAcc ∧ after.drvData = dev.drvData

theorem init_success {config : Config} (spi : config.spiReady = true) {dev : Device Handler}
    (reached : Reached surroundings (clock dev))
    (mapped : config.interruptPort = true → Mapped surroundings config (clock dev)) :
    adxl362Init surroundings config dev = (.ok (), started surroundings config dev) := by
  rw [init_reached spi reached, started]
  cases port : config.interruptPort with
  | false => rfl
  | true =>
      have interrupts := mapped port
      rw [if_pos rfl, if_pos rfl]
      exact (runs_interrupts interrupts.pin).done _ interrupts.done

end Effects

theorem init_exact {Handler : Type} (surroundings : Surroundings) (config : Config)
    (dev : Device Handler) : StartUp surroundings config dev := by
  constructor
  case unready =>
    intro unready
    rw [adxl362Init, unready]
    rfl
  case unreached => exact fun spi unreached => init_unreached spi unreached
  case unmapped =>
    intro spi reached port unmapped
    rw [init_reached spi reached, port]
    refine interrupts_fail ?_
    rintro ⟨pin, done⟩
    exact unmapped ⟨pin, done⟩
  case succeeded =>
    intro spi reached mapped
    refine ⟨_, init_success spi reached mapped, started_values config dev, ?_, ?_⟩
    · rw [started]
      cases config.interruptPort <;> rfl
    · rw [started]
      cases config.interruptPort <;> rfl

end ThingyAccel.Adxl362Configuration
