import ThingyAccel.Adxl362Configuration
import ThingyAccel.SamplingChain

/-!
Calls of the driver behind its start-up, in any order and over a bus that may fail: what
each of them can do to the registers, and what holds of these and of the driver's data
after any number of calls.
-/
namespace ThingyAccel.Adxl362Calls

open RegisterBus Adxl362Registers Adxl362Configuration
open Adxl362Trigger (SensorTrigger Adxl362Data Event enotsup intmap1Act intmap1FifoWatermark
  intmap1Inact intmap1DataReady)

inductive DriverCall (Handler : Type) where
  | attrSet (chan : SensorChannel) (attr : SensorAttribute) (val : SensorValue)
  | triggerSet (trig : SensorTrigger) (handler : Option Handler)
  | sampleFetch
  | setInterruptMode (mode : UInt8)

section Calls

variable {Handler : Type} (surroundings : Surroundings) (config : Config)

def driverCall : DriverCall Handler → Routine (Device Handler) Unit
  | .attrSet chan attr val => adxl362AttrSet surroundings config chan attr val
  | .triggerSet trig handler => adxl362TriggerSet surroundings config trig handler
  | .sampleFetch => adxl362FifoCmd surroundings
  | .setInterruptMode mode => adxl362SetInterruptMode surroundings mode

/-- After differs from the device in nothing but registers, which hold the values. -/
structure Left (values : Nat → UInt8) (dev after : Device Handler) : Prop where
  values : after.registers.values = values
  range : after.selectedRange = dev.selectedRange
  data : after.drvData = dev.drvData

/-- The registers are changed, or the call has failed and they are not. -/
def Tried {α : Type} (changed : Nat → UInt8) (dev : Device Handler)
    (ends : Except Int α × Device Handler) : Prop :=
  Left changed dev ends.2 ∨ ends.1.isOk = false ∧ Left dev.registers.values dev ends.2

variable {surroundings config} {dev : Device Handler}

theorem left_ticked (dev : Device Handler) : Left dev.registers.values dev (ticked dev) :=
  ⟨rfl, rfl, rfl⟩

/-- A write leaves a front of its bytes, all of them when it succeeds. -/
theorem write_ends (address : Nat) (data : List UInt8) (dev : Device Handler) :
    ∃ arrived, (checked (adxl362RegAccess surroundings adxl362WriteReg address data) dev).2 =
        wrote surroundings address (data.take arrived) dev ∧
      ((checked (adxl362RegAccess surroundings adxl362WriteReg address data) dev).1.isOk = true →
        data.length ≤ arrived) := by
  have access : adxl362RegAccess surroundings adxl362WriteReg address data dev =
      ((surroundings.transfer dev.registers.transfers).error, data,
        wrote surroundings address
          (if (surroundings.transfer dev.registers.transfers).error = 0 then data
          else data.take (surroundings.transfer dev.registers.transfers).reached) dev) := by
    rw [adxl362RegAccess, if_neg (by decide)]
    rfl
  by_cases zero : (surroundings.transfer dev.registers.transfers).error = 0
  · refine ⟨data.length, ?_⟩
    rw [if_pos zero, zero] at access
    rw [checked_zero access, List.take_length]
    exact ⟨rfl, fun _ => Nat.le_refl _⟩
  · refine ⟨(surroundings.transfer dev.registers.transfers).reached, ?_⟩
    rw [if_neg zero] at access
    rw [checked_nonzero access zero]
    exact ⟨rfl, fun impossible => by cases impossible⟩

theorem write_byte_tried {address : Nat} (low : regThreshActL ≤ address)
    (high : address ≤ regSelfTest) (value : UInt8) (dev : Device Handler) :
    Tried (Function.update dev.registers.values address value) dev
      (checked (adxl362RegAccess surroundings adxl362WriteReg address [value]) dev) := by
  obtain ⟨arrived, after, all⟩ := @write_ends Handler surroundings address [value] dev
  cases arrived with
  | zero =>
      right
      refine ⟨?_, ?_⟩
      · by_contra succeeded
        exact absurd (all (by simpa using succeeded)) (Nat.not_succ_le_zero 0)
      · rw [after]
        exact ⟨rfl, rfl, rfl⟩
  | succ arrived =>
      have whole : [value].take (arrived + 1) = [value] := by rw [List.take_succ_cons, List.take_nil]
      left
      rw [after, whole]
      exact ⟨wrote_byte low high value dev, rfl, rfl⟩

theorem get_reg_ends {address : Nat} (low : regThreshActL ≤ address) (high : address ≤ regSelfTest)
    (dev : Device Handler) :
    adxl362GetReg surroundings address 1 dev = (.ok [dev.registers.values address], ticked dev) ∨
      ∃ code, adxl362GetReg surroundings address 1 dev = (.error code, ticked dev) := by
  obtain ⟨data, returns, same⟩ := @reg_access_read Handler surroundings address 1 dev
  by_cases zero : (surroundings.transfer dev.registers.transfers).error = 0
  · have done : Done surroundings.wiring (clock dev) 1 := by
      intro index bound
      cases Nat.lt_one_iff.mp bound
      exact zero
    rw [same done, zero] at returns
    left
    rw [adxl362GetReg, checked_zero returns]
    have held : shown surroundings dev address = dev.registers.values address := by
      rw [shown, Registers.shown, if_pos (held_control low high)]
    rw [← held]
    rfl
  · exact Or.inr ⟨_, checked_nonzero returns zero⟩

theorem tried_read {changed : Nat → UInt8} {address : Nat} (low : regThreshActL ≤ address)
    (high : address ≤ regSelfTest) {next : List UInt8 → Routine (Device Handler) Unit}
    (tried : Tried changed (ticked dev) (next [dev.registers.values address] (ticked dev))) :
    Tried changed dev ((adxl362GetReg surroundings address 1 >>= next) dev) := by
  rcases @get_reg_ends Handler surroundings _ low high dev with ends | ⟨code, ends⟩
  · rw [bind_value ends]
    rcases tried with changed' | ⟨failed, same⟩
    · exact Or.inl ⟨changed'.values, changed'.range, changed'.data⟩
    · exact Or.inr ⟨failed, same.values, same.range, same.data⟩
  · rw [bind_error ends]
    exact Or.inr ⟨rfl, left_ticked dev⟩

theorem tried_unit {changed : Nat → UInt8} {action : Routine (Device Handler) (List UInt8)}
    (tried : Tried changed dev (action dev)) :
    Tried changed dev ((do let _ ← action) dev) := by
  show Tried changed dev ((action >>= fun _ => pure ()) dev)
  rw [bind_run]
  cases run : action dev with
  | mk result after =>
      rw [run] at tried
      cases result with
      | ok value => exact tried
      | error code => exact tried

theorem set_byte_tried {address : Nat} (low : regThreshActL ≤ address)
    (high : address ≤ regSelfTest) (value : UInt8) (dev : Device Handler) :
    Tried (Function.update dev.registers.values address value) dev
      (adxl362SetReg surroundings value.toUInt16 address 1 dev) := by
  rw [adxl362SetReg, low_byte]
  exact tried_unit (write_byte_tried low high value dev)

theorem rewrite_tried {address : Nat} (low : regThreshActL ≤ address) (high : address ≤ regSelfTest)
    (change : UInt8 → UInt8) (dev : Device Handler) :
    Tried (Function.update dev.registers.values address (change (dev.registers.values address))) dev
      ((do
        let buf ← adxl362GetReg surroundings address 1
        adxl362SetReg surroundings (change (buf.headD 0)).toUInt16 address 1) dev) :=
  tried_read low high (set_byte_tried low high _ (ticked dev))

theorem write_mask_tried {address : Nat} (low : regThreshActL ≤ address)
    (high : address ≤ regSelfTest) (mask data : UInt8) (dev : Device Handler) :
    Tried (Function.update dev.registers.values address
      (dev.registers.values address &&& ~~~mask ||| data)) dev
      (adxl362RegWriteMask surroundings address mask data dev) :=
  tried_read low high (tried_unit (write_byte_tried low high _ (ticked dev)))

theorem set_word_ends (value : UInt16) (address : Nat) (dev : Device Handler) :
    ∃ arrived, (adxl362SetReg surroundings value address 2 dev).2 =
      wrote surroundings address ((registerBytes value).take arrived) dev := by
  obtain ⟨arrived, after, -⟩ := @write_ends Handler surroundings address (registerBytes value) dev
  refine ⟨arrived, ?_⟩
  rw [← after]
  show ((checked (adxl362RegAccess surroundings adxl362WriteReg address (registerBytes value)) >>=
    fun _ => pure ()) dev).2 = _
  rw [bind_run]
  cases checked (adxl362RegAccess surroundings adxl362WriteReg address (registerBytes value)) dev with
  | mk result after => cases result <;> rfl

theorem set_range_ends (range : UInt8) (dev : Device Handler) :
    let changed := Function.update dev.registers.values regFilterCtl
      (dev.registers.values regFilterCtl &&& ~~~filterCtlRange 0x3 ||| filterCtlRange range)
    let ends := adxl362SetRange surroundings range dev
    ends.1.isOk = true ∧ Left changed (ranged range dev) ends.2 ∨
      ends.1.isOk = false ∧ (Left changed dev ends.2 ∨ Left dev.registers.values dev ends.2) := by
  intro changed ends
  rcases @get_reg_ends Handler surroundings regFilterCtl (by decide) (by decide) dev with
    read | ⟨code, read⟩
  · have tried := @set_byte_tried Handler surroundings regFilterCtl (by decide) (by decide)
      (dev.registers.values regFilterCtl &&& ~~~filterCtlRange 0x3 ||| filterCtlRange range)
      (ticked dev)
    have same : ends = (adxl362SetReg surroundings
        (dev.registers.values regFilterCtl &&& ~~~filterCtlRange 0x3 |||
          filterCtlRange range).toUInt16 regFilterCtl 1 >>=
        fun _ => update (ranged range)) (ticked dev) := bind_value read _
    rw [same, bind_run]
    cases run : adxl362SetReg surroundings
        (dev.registers.values regFilterCtl &&& ~~~filterCtlRange 0x3 |||
          filterCtlRange range).toUInt16 regFilterCtl 1 (ticked dev) with
    | mk result after =>
        rw [run] at tried
        cases result with
        | ok value =>
            rcases tried with left' | ⟨impossible, -⟩
            · exact Or.inl ⟨rfl, left'.values, rfl, left'.data⟩
            · cases impossible
        | error code =>
            rcases tried with left' | ⟨-, left'⟩
            · exact Or.inr ⟨rfl, Or.inl ⟨left'.values, left'.range, left'.data⟩⟩
            · exact Or.inr ⟨rfl, Or.inr ⟨left'.values, left'.range, left'.data⟩⟩
  · have same : ends = (.error code, ticked dev) := bind_error read _
    rw [same]
    exact Or.inr ⟨rfl, Or.inr (left_ticked dev)⟩

def eventMask : Event → UInt8
  | .fifoWatermark => intmap1FifoWatermark
  | .inactivity => intmap1Inact
  | .activity => intmap1Act
  | .dataReady => intmap1DataReady

/-- The driver's data with a trigger registered. -/
def registering (trig : SensorTrigger) (handler : Option Handler) (drvData : Adxl362Data Handler) :
    Adxl362Data Handler :=
  (Adxl362Trigger.adxl362TriggerSet true ⟨trig, handler, fun _ _ => 0⟩ drvData).2

inductive Acted (surroundings : Surroundings) (dev : Device Handler) :
    DriverCall Handler → Except Int Unit × Device Handler → Prop where
  | idle {call : DriverCall Handler} {ends : Except Int Unit × Device Handler}
      (left : Left dev.registers.values dev ends.2)
      (fails : call = .sampleFetch ∨ ends.1.isOk = false) : Acted surroundings dev call ends
  | threshold {chan : SensorChannel} {attr : SensorAttribute} {val : SensorValue}
      {ends : Except Int Unit × Device Handler} (address : Nat) (value : UInt16) (arrived : Nat)
      (known : address = regThreshActL ∨ address = regThreshInactL) (small : value.toNat ≤ 2047)
      (other : attr ≠ .fullScale)
      (left : Left (storeAll surroundings.wiring dev.registers.values address
        ((registerBytes value).take arrived)) dev ends.2) :
      Acted surroundings dev (.attrSet chan attr val) ends
  | time {chan : SensorChannel} {val : SensorValue} {ends : Except Int Unit × Device Handler}
      (value : UInt16) (arrived : Nat)
      (left : Left (storeAll surroundings.wiring dev.registers.values regTimeInactL
        ((registerBytes value).take arrived)) dev ends.2) :
      Acted surroundings dev (.attrSet chan .hysteresis val) ends
  | range {chan : SensorChannel} {val : SensorValue} {ends : Except Int Unit × Device Handler}
      (range : UInt8) (small : range.toNat < 3)
      (set : ends.1.isOk = true ∧ Left (Function.update dev.registers.values regFilterCtl
          (dev.registers.values regFilterCtl &&& ~~~filterCtlRange 0x3 ||| filterCtlRange range))
          (ranged range dev) ends.2 ∨
        ends.1.isOk = false ∧ Left (Function.update dev.registers.values regFilterCtl
          (dev.registers.values regFilterCtl &&& ~~~filterCtlRange 0x3 ||| filterCtlRange range))
          dev ends.2) : Acted surroundings dev (.attrSet chan .fullScale val) ends
  | rate {chan : SensorChannel} {val : SensorValue} {ends : Except Int Unit × Device Handler}
      (outRate : UInt8)
      (left : Left (Function.update dev.registers.values regFilterCtl
        (dev.registers.values regFilterCtl &&& ~~~filterCtlOdr 0x7 ||| filterCtlOdr outRate)) dev
        ends.2) : Acted surroundings dev (.attrSet chan .samplingFrequency val) ends
  | mode {mode : UInt8} {ends : Except Int Unit × Device Handler}
      (left : Left (Function.update dev.registers.values regActInactCtl
        (dev.registers.values regActInactCtl ||| actInactCtlLinkloop mode)) dev ends.2) :
      Acted surroundings dev (.setInterruptMode mode) ends
  | trigger {trig : SensorTrigger} {handler : Option Handler}
      {ends : Except Int Unit × Device Handler} (event : Event) (type : trig.type = event.type)
      (tried : Tried (Function.update dev.registers.values regIntmap1
        (dev.registers.values regIntmap1 &&& ~~~eventMask event |||
          (if handler.isSome then eventMask event else 0)))
        { dev with drvData := registering trig handler dev.drvData } ends) :
      Acted surroundings dev (.triggerSet trig handler) ends

theorem idle_fail (call : DriverCall Handler) (code : Int) :
    Acted surroundings dev call (fail code dev) := .idle ⟨rfl, rfl, rfl⟩ (Or.inr rfl)

theorem acted_thresh (chan : SensorChannel) {attr : SensorAttribute} (val : SensorValue)
    (other : attr ≠ .fullScale) :
    Acted surroundings dev (.attrSet chan attr val)
      (adxl362AttrSetThresh surroundings chan attr val dev) := by
  rw [adxl362AttrSetThresh]
  split
  · exact idle_fail _ _
  · split
    · exact idle_fail _ _
    · have small : (toUInt16 val.val1.toInt &&& 0x7FF).toNat ≤ 2047 := by
        rw [UInt16.toNat_and]
        exact Nat.and_le_right
      by_cases upper : attr = .upperThresh
      · rw [if_pos upper]
        obtain ⟨arrived, after⟩ := @set_word_ends Handler surroundings
          (toUInt16 val.val1.toInt &&& 0x7FF) regThreshActL dev
        exact .threshold _ _ arrived (Or.inl rfl) small other (by rw [after]; exact ⟨rfl, rfl, rfl⟩)
      · rw [if_neg upper]
        obtain ⟨arrived, after⟩ := @set_word_ends Handler surroundings
          (toUInt16 val.val1.toInt &&& 0x7FF) regThreshInactL dev
        exact .threshold _ _ arrived (Or.inr rfl) small other (by rw [after]; exact ⟨rfl, rfl, rfl⟩)

theorem range_reg_small {range : UInt16} (found : ¬ adxl362RangeToRegVal range < 0) :
    (UInt8.ofNat (adxl362RangeToRegVal range).toNat).toNat < 3 := by
  rw [adxl362RangeToRegVal] at found ⊢
  cases search : adxl362AccRangeMap.find? fun entry => decide (range ≤ entry.1) with
  | none =>
      rw [search] at found
      have refused : -einval < 0 := Int.neg_neg_of_pos (Int.ofNat_succ_pos 21)
      exact absurd refused found
  | some entry =>
      have member := List.mem_of_find?_eq_some search
      simp only [Int.toNat_natCast, UInt8.ofNat_toNat]
      simp only [adxl362AccRangeMap, List.mem_cons, List.not_mem_nil, or_false] at member
      rcases member with rfl | rfl | rfl
      · exact Nat.zero_lt_succ 2
      · exact Nat.lt_of_lt_of_le Nat.one_lt_two (Nat.le_succ 2)
      · exact Nat.lt_succ_self 2

theorem acted_config (chan : SensorChannel) (attr : SensorAttribute) (val : SensorValue) :
    Acted surroundings dev (.attrSet chan attr val)
      (axl362AccConfig surroundings config attr val dev) := by
  cases attr with
  | fullScale =>
      rw [axl362AccConfig]
      split
      · simp only
        split
        · exact idle_fail _ _
        · rename_i found
          rcases @set_range_ends Handler surroundings
            (UInt8.ofNat (adxl362RangeToRegVal (toUInt16 (sensorMs2ToG val))).toNat) dev with
            set' | ⟨failed, set' | same⟩
          · exact .range _ (range_reg_small found) (Or.inl set')
          · exact .range _ (range_reg_small found) (Or.inr ⟨failed, set'⟩)
          · exact .idle same (Or.inr failed)
      · exact idle_fail _ _
  | samplingFrequency =>
      rw [axl362AccConfig]
      split
      · simp only
        split
        · exact idle_fail _ _
        · rcases @rewrite_tried Handler surroundings regFilterCtl (by decide) (by decide)
            (fun old => old &&& ~~~filterCtlOdr 0x7 ||| filterCtlOdr
              (UInt8.ofNat (adxl362FreqToOdrVal (toUInt16 val.val1.toInt)
                (toUInt16 (val.val2.toInt.tdiv 1000))).toNat)) dev with left' | ⟨failed, same⟩
          · exact .rate _ left'
          · exact .idle same (Or.inr failed)
      · exact idle_fail _ _
  | lowerThresh | upperThresh | hysteresis | other value => exact idle_fail _ _

theorem acted_attr_set (chan : SensorChannel) (attr : SensorAttribute) (val : SensorValue) :
    Acted surroundings dev (.attrSet chan attr val)
      (adxl362AttrSet surroundings config chan attr val dev) := by
  cases attr with
  | upperThresh => exact acted_thresh chan val (by decide)
  | lowerThresh => exact acted_thresh chan val (by decide)
  | hysteresis =>
      obtain ⟨arrived, after⟩ := @set_word_ends Handler surroundings (toUInt16 val.val1.toInt)
        regTimeInactL dev
      exact .time _ arrived (by rw [adxl362AttrSet, after]; exact ⟨rfl, rfl, rfl⟩)
  | fullScale | samplingFrequency | other value =>
      cases chan with
      | other value => exact idle_fail _ _
      | _ => exact @acted_config Handler surroundings config dev _ _ _

theorem ignored_state {action : Routine (Device Handler) (List UInt8)} {dev : Device Handler}
    (kept : (action dev).2 = ticked dev) : ignored action dev = (.ok (), ticked dev) := by
  rw [ignored, kept]

theorem get_reg_state (address : Nat) (dev : Device Handler) :
    (adxl362GetReg surroundings address 1 dev).2 = ticked dev := by
  obtain ⟨data, returns, -⟩ := @reg_access_read Handler surroundings address 1 dev
  rw [adxl362GetReg, checked, returns]
  simp only
  split <;> rfl

/-- Reading a status or data register first changes nothing that is kept. -/
theorem tried_ignored {changed : Nat → UInt8} (address : Nat)
    {next : Routine (Device Handler) Unit} (tried : Tried changed (ticked dev) (next (ticked dev))) :
    Tried changed dev ((ignored (adxl362GetReg surroundings address 1) >>= fun _ => next) dev) := by
  rw [bind_value (ignored_state (get_reg_state address dev))]
  rcases tried with changed' | ⟨failed, same⟩
  · exact Or.inl ⟨changed'.values, changed'.range, changed'.data⟩
  · exact Or.inr ⟨failed, same.values, same.range, same.data⟩

theorem acted_trigger_set (trig : SensorTrigger) (handler : Option Handler) :
    Acted surroundings dev (.triggerSet trig handler)
      (adxl362TriggerSet surroundings config trig handler dev) := by
  have enable (mask : UInt8) (dev : Device Handler) :=
    @write_mask_tried Handler surroundings regIntmap1 (by decide) (by decide) mask
      (if handler.isSome then mask else 0) dev
  rw [adxl362TriggerSet]
  cases port : config.interruptPort with
  | false => exact idle_fail _ _
  | true =>
      rw [if_neg (by decide)]
      cases type : trig.type with
      | fifo =>
          have data : registering trig handler dev.drvData =
              { dev.drvData with fifoHandler := handler, fifoTrigger := some trig } := by
            simp only [registering, Adxl362Trigger.adxl362TriggerSet, type]
            rfl
          refine .trigger .fifoWatermark type ?_
          rw [data]
          exact enable intmap1FifoWatermark { dev with
            drvData := { dev.drvData with fifoHandler := handler, fifoTrigger := some trig } }
      | motion =>
          have data : registering trig handler dev.drvData =
              { dev.drvData with actHandler := handler, actTrigger := some trig } := by
            simp only [registering, Adxl362Trigger.adxl362TriggerSet, type]
            rfl
          refine .trigger .activity type ?_
          rw [data]
          exact tried_ignored regStatus (enable intmap1Act (ticked { dev with
            drvData := { dev.drvData with actHandler := handler, actTrigger := some trig } }))
      | stationary =>
          have data : registering trig handler dev.drvData =
              { dev.drvData with inactHandler := handler, inactTrigger := some trig } := by
            simp only [registering, Adxl362Trigger.adxl362TriggerSet, type]
            rfl
          refine .trigger .inactivity type ?_
          rw [data]
          exact tried_ignored regStatus (enable intmap1Inact (ticked { dev with
            drvData := { dev.drvData with inactHandler := handler, inactTrigger := some trig } }))
      | dataReady =>
          have data : registering trig handler dev.drvData =
              { dev.drvData with drdyHandler := handler, drdyTrigger := some trig } := by
            simp only [registering, Adxl362Trigger.adxl362TriggerSet, type]
            rfl
          refine .trigger .dataReady type ?_
          rw [data]
          exact tried_ignored regXdata (enable intmap1DataReady (ticked { dev with
            drvData := { dev.drvData with drdyHandler := handler, drdyTrigger := some trig } }))
      | other value => exact idle_fail _ _

theorem acted_set_interrupt_mode (mode : UInt8) :
    Acted surroundings dev (.setInterruptMode mode)
      (adxl362SetInterruptMode surroundings mode dev) := by
  rw [adxl362SetInterruptMode]
  split
  · exact idle_fail _ _
  · rcases @rewrite_tried Handler surroundings regActInactCtl (by decide) (by decide)
      (fun old => old &&& ~~~actInactCtlLinkloop 3 ||| (old ||| actInactCtlLinkloop mode)) dev with
      left' | ⟨failed, same⟩
    · rw [linkloop_kept] at left'
      exact .mode left'
    · exact .idle same (Or.inr failed)

theorem call_acted (call : DriverCall Handler) (dev : Device Handler) :
    Acted surroundings dev call (driverCall surroundings config call dev) := by
  cases call with
  | attrSet chan attr val => exact acted_attr_set chan attr val
  | triggerSet trig handler => exact acted_trigger_set trig handler
  | sampleFetch =>
      refine .idle ?_ (Or.inl rfl)
      rw [driverCall, adxl362FifoCmd]
      split <;> exact ⟨rfl, rfl, rfl⟩
  | setInterruptMode mode => exact acted_set_interrupt_mode mode

end Calls

end ThingyAccel.Adxl362Calls
