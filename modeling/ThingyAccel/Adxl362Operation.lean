import Mathlib.Algebra.Ring.Nat
import ThingyAccel.Adxl362Calls

/-!
What holds of the accelerometer while it is used: the settings of the start-up stay, an
event is mapped to the interrupt pin when it has a handler, and the driver knows the range.
-/
namespace ThingyAccel.Adxl362Operation

open RegisterBus Adxl362Registers Adxl362Configuration Adxl362Calls
open SamplingChain (AppHandler trig)
open Adxl362Trigger (SensorTrigger Adxl362Data Event zeroedData enotsup type_injective trigger_set_kept)

section Settings

variable {Handler : Type} {surroundings : Surroundings} {config : Config} {dev : Device Handler}
  {call : DriverCall Handler} {ends : Except Int Unit × Device Handler}

def settled : List Nat :=
  [regTimeAct, regFifoCtl, regFifoSamples, regIntmap2, regPowerCtl, regSelfTest]

theorem front_short (value : UInt16) (arrived : Nat) :
    ((registerBytes value).take arrived).length ≤ 2 := by
  rw [List.length_take]
  exact Nat.min_le_right _ _

theorem word_other {values : Nat → UInt8} {address other : Nat} (low : regThreshActL ≤ address)
    (value : UInt16) (arrived : Nat) (outside : other < address ∨ address + 2 ≤ other) :
    storeAll surroundings.wiring values address ((registerBytes value).take arrived) other =
      values other := by
  have short := front_short value arrived
  exact store_all_other (plain_control low _) (by omega)

theorem acted_settled (acted : Acted surroundings dev call ends) {address : Nat}
    (member : address ∈ settled) :
    ends.2.registers.values address = dev.registers.values address := by
  have places : ∀ address ∈ settled, regThreshActL + 2 ≤ address ∧ address ≠ regThreshInactL ∧
      address ≠ regThreshInactL + 1 ∧ address ≠ regTimeInactL ∧ address ≠ regTimeInactL + 1 ∧
      address ≠ regActInactCtl ∧ address ≠ regIntmap1 ∧ address ≠ regFilterCtl := by decide
  obtain ⟨act, inact, inact', time, time', control, map, filter⟩ := places address member
  cases acted with
  | idle left fails => rw [left.values]
  | threshold start value arrived known small other left =>
      rw [left.values]
      rcases known with rfl | rfl
      · exact word_other (by decide) value arrived (Or.inr act)
      · exact word_other (by decide) value arrived (by omega)
  | time value arrived left =>
      rw [left.values]
      exact word_other (by decide) value arrived (by omega)
  | range range small set' =>
      rcases set' with ⟨-, left⟩ | ⟨-, left⟩
      · rw [left.values, Function.update_of_ne filter]
      · rw [left.values, Function.update_of_ne filter]
  | rate outRate left => rw [left.values, Function.update_of_ne filter]
  | mode left => rw [left.values, Function.update_of_ne control]
  | trigger event type tried =>
      rcases tried with left | ⟨-, left⟩
      · rw [left.values, Function.update_of_ne map]
      · rw [left.values]

def Bounded (values : Nat → UInt8) : Prop :=
  (values (regThreshActL + 1)).toNat ≤ 7 ∧ (values (regThreshInactL + 1)).toNat ≤ 7

theorem high_byte_small {value : UInt16} (small : value.toNat ≤ 2047) :
    (value >>> 8).toUInt8.toNat ≤ 7 := by
  rw [UInt16.toNat_toUInt8, UInt16.toNat_shiftRight, Nat.shiftRight_eq_div_pow]
  have eight : (8 : UInt16).toNat % 16 = 8 := by decide
  rw [eight]
  omega

/-- Each threshold is written as a whole, in its low byte, or not at all. -/
theorem word_high {values : Nat → UInt8} {address : Nat} (low : regThreshActL ≤ address)
    (high : address < regSelfTest) {value : UInt16} (small : value.toNat ≤ 2047)
    (before : (values (address + 1)).toNat ≤ 7) (arrived : Nat) :
    (storeAll surroundings.wiring values address ((registerBytes value).take arrived)
      (address + 1)).toNat ≤ 7 := by
  cases arrived with
  | zero => exact before
  | succ arrived =>
      cases arrived with
      | zero =>
          have single : (registerBytes value).take 1 = [value.toUInt8] := rfl
          rw [Nat.zero_add, single, store_all_other (plain_control low _)
            (Or.inr (Nat.le_refl (address + 1)))]
          exact before
      | succ arrived =>
          have whole : (registerBytes value).take (arrived + 1 + 1) = registerBytes value := by
            rw [registerBytes, List.take_succ_cons, List.take_succ_cons, List.take_nil]
          rw [whole, store_all_inside (plain_control low _) rfl (held_control (by omega) high)]
          exact high_byte_small small

theorem acted_bounded (acted : Acted surroundings dev call ends)
    (bounded : Bounded dev.registers.values) : Bounded ends.2.registers.values := by
  have kept (same : ∀ address ∈ [regThreshActL + 1, regThreshInactL + 1],
      ends.2.registers.values address = dev.registers.values address) :
      Bounded ends.2.registers.values := by
    rw [Bounded, same _ List.mem_cons_self, same _ (List.mem_cons_of_mem _ List.mem_cons_self)]
    exact bounded
  have places : ∀ address ∈ [regThreshActL + 1, regThreshInactL + 1], address < regTimeInactL ∧
      address ≠ regActInactCtl ∧ address ≠ regIntmap1 ∧ address ≠ regFilterCtl := by decide
  cases acted with
  | idle left fails => exact kept fun address _ => by rw [left.values]
  | threshold start value arrived known small other left =>
      rcases known with rfl | rfl
      · rw [Bounded, left.values]
        refine ⟨word_high (by decide) (by decide) small bounded.1 arrived, ?_⟩
        rw [word_other (by decide) value arrived (by decide)]
        exact bounded.2
      · rw [Bounded, left.values]
        refine ⟨?_, word_high (by decide) (by decide) small bounded.2 arrived⟩
        rw [word_other (by decide) value arrived (by decide)]
        exact bounded.1
  | time value arrived left =>
      refine kept fun address member => ?_
      rw [left.values]
      exact word_other (by decide) value arrived (Or.inl (places address member).1)
  | range range small set' =>
      refine kept fun address member => ?_
      have apart := (places address member).2.2.2
      rcases set' with ⟨-, left⟩ | ⟨-, left⟩
      · rw [left.values, Function.update_of_ne apart]
      · rw [left.values, Function.update_of_ne apart]
  | rate outRate left =>
      exact kept fun address member => by
        rw [left.values, Function.update_of_ne (places address member).2.2.2]
  | mode left =>
      exact kept fun address member => by
        rw [left.values, Function.update_of_ne (places address member).2.1]
  | trigger event type tried =>
      refine kept fun address member => ?_
      rcases tried with left | ⟨-, left⟩
      · rw [left.values, Function.update_of_ne (places address member).2.2.1]
      · rw [left.values]

/-- Bits of ACT_INACT_CTL are set by the calls, and never cleared. -/
theorem acted_detection (acted : Acted surroundings dev call ends) :
    ∃ added, ends.2.registers.values regActInactCtl =
      dev.registers.values regActInactCtl ||| added := by
  have kept (same : ends.2.registers.values regActInactCtl =
      dev.registers.values regActInactCtl) : ∃ added, ends.2.registers.values regActInactCtl =
        dev.registers.values regActInactCtl ||| added := ⟨0, by rw [same, UInt8.or_zero]⟩
  cases acted with
  | idle left fails => exact kept (by rw [left.values])
  | threshold start value arrived known small other left =>
      refine kept ?_
      rw [left.values]
      rcases known with rfl | rfl <;> exact word_other (by decide) value arrived (Or.inr (by decide))
  | time value arrived left =>
      refine kept ?_
      rw [left.values]
      exact word_other (by decide) value arrived (Or.inr (by decide))
  | range range small set' =>
      refine kept ?_
      rcases set' with ⟨-, left⟩ | ⟨-, left⟩ <;> rw [left.values, Function.update_of_ne (by decide)]
  | rate outRate left => exact kept (by rw [left.values, Function.update_of_ne (by decide)])
  | mode left => exact ⟨_, by rw [left.values, Function.update_self]⟩
  | trigger event type tried =>
      refine kept ?_
      rcases tried with left | ⟨-, left⟩
      · rw [left.values, Function.update_of_ne (by decide)]
      · rw [left.values]

def filterCtlOther : UInt8 := 0x38

theorem acted_filter (acted : Acted surroundings dev call ends) :
    ends.2.registers.values regFilterCtl &&& filterCtlOther =
      dev.registers.values regFilterCtl &&& filterCtlOther := by
  cases acted with
  | idle left fails => rw [left.values]
  | threshold start value arrived known small other left =>
      rw [left.values]
      rcases known with rfl | rfl <;> rw [word_other (by decide) value arrived (Or.inr (by decide))]
  | time value arrived left =>
      rw [left.values, word_other (by decide) value arrived (Or.inr (by decide))]
  | range range small set' =>
      have field := field_apart (dev.registers.values regFilterCtl) (filterCtlRange 0x3)
        (filterCtlRange range) filterCtlOther (by decide) (field_within range 0x3 6)
      rcases set' with ⟨-, left⟩ | ⟨-, left⟩ <;> rw [left.values, Function.update_self, field]
  | rate outRate left =>
      rw [left.values, Function.update_self]
      exact field_apart _ _ _ _ (by decide) (field_within outRate 0x7 0)
  | mode left => rw [left.values, Function.update_of_ne (by decide)]
  | trigger event type tried =>
      rcases tried with left | ⟨-, left⟩
      · rw [left.values, Function.update_of_ne (by decide)]
      · rw [left.values]

/-- The level at which the FIFO interrupts: its ninth bit is AH. -/
def fifoWatermark (values : Nat → UInt8) : Nat :=
  256 * (values regFifoCtl >>> 3 &&& 1).toNat + (values regFifoSamples).toNat

structure Settled (config : Config) (initial values : Nat → UInt8) : Prop where
  stream : values regFifoCtl &&& 0x3 = fifoStream
  level : fifoWatermark values = SamplingChain.watermark
  timeAct : values regTimeAct = config.activityTime
  powerCtl : values regPowerCtl = config.powerCtl
  intmap2 : config.interruptPort = true → values regIntmap2 = config.int2Config
  selfTest : values regSelfTest = initial regSelfTest
  actEn : actInactCtlActEn ||| values regActInactCtl = values regActInactCtl
  inactEn : actInactCtlInactEn ||| values regActInactCtl = values regActInactCtl
  linkloop : config.interruptPort = true →
    actInactCtlLinkloop config.interruptMode ||| values regActInactCtl = values regActInactCtl
  filter : values regFilterCtl &&& filterCtlOther = initial regFilterCtl &&& filterCtlOther
  bounded : Bounded values

theorem configured_settled {initial values : Nat → UInt8}
    (configured : Configured config initial values) : Settled config initial values := by
  constructor
  case stream => rw [configured.fifo.1]; decide
  case level => rw [fifoWatermark, configured.fifo.1, configured.fifo.2]; decide
  case timeAct => exact configured.timeAct
  case powerCtl => exact configured.powerCtl
  case intmap2 => exact fun port => (configured.intmap port).2
  case selfTest => exact configured.selfTest
  case actEn =>
    have detecting (old refs : UInt8) := field_set _ actInactCtlInactRef refs actInactCtlActEn
      (by decide) (or_inside actInactCtlActEn old (config.absRefMode * actInactCtlActRef))
    rw [configured.actInactCtl]
    split
    · exact or_front (detecting _ _) _
    · exact detecting _ _
  case inactEn =>
    rw [configured.actInactCtl]
    split
    · exact or_front (or_inside _ _ _) _
    · exact or_inside _ _ _
  case linkloop =>
    intro port
    rw [configured.actInactCtl, if_pos port, UInt8.or_comm, UInt8.or_assoc, UInt8.or_self]
  case filter =>
    have range := field_apart (initial regFilterCtl) (filterCtlRange 0x3)
      (filterCtlRange config.defaultRangeAcc) filterCtlOther (by decide) (field_within _ 0x3 6)
    have rate := field_apart (initial regFilterCtl &&& ~~~filterCtlRange 0x3 |||
      filterCtlRange config.defaultRangeAcc) (filterCtlOdr 0x7) (filterCtlOdr config.defaultOdrAcc)
      filterCtlOther (by decide) (field_within _ 0x7 0)
    rw [configured.filterCtl, rate, range]
  case bounded =>
    have small (threshold : UInt16) : (threshold &&& 0x7FF).toNat ≤ 2047 := by
      rw [UInt16.toNat_and]
      exact Nat.and_le_right
    rw [Bounded, configured.threshAct.2, configured.threshInact.2]
    exact ⟨high_byte_small (small _), high_byte_small (small _)⟩

theorem acted_settles {initial : Nat → UInt8} (acted : Acted surroundings dev call ends)
    (settled : Settled config initial dev.registers.values) :
    Settled config initial ends.2.registers.values := by
  obtain ⟨added, detection⟩ := acted_detection acted
  have fifo := acted_settled acted (show regFifoCtl ∈ _ by decide)
  have samples := acted_settled acted (show regFifoSamples ∈ _ by decide)
  constructor
  case stream => rw [fifo, settled.stream]
  case level => rw [fifoWatermark, fifo, samples]; exact settled.level
  case timeAct => rw [acted_settled acted (by decide), settled.timeAct]
  case powerCtl => rw [acted_settled acted (by decide), settled.powerCtl]
  case intmap2 => exact fun port => by rw [acted_settled acted (by decide), settled.intmap2 port]
  case selfTest => rw [acted_settled acted (by decide), settled.selfTest]
  case actEn => rw [detection]; exact or_front settled.actEn added
  case inactEn => rw [detection]; exact or_front settled.inactEn added
  case linkloop => intro port; rw [detection]; exact or_front (settled.linkloop port) added
  case filter => rw [acted_filter acted, settled.filter]
  case bounded => exact acted_bounded acted settled.bounded

end Settings

section Histories

variable {Handler : Type} {surroundings : Surroundings} {config : Config} {dev after : Device Handler}

theorem init_configured (starts : adxl362Init surroundings config dev = (.ok (), after)) :
    Configured config surroundings.initial after.registers.values ∧
      after.selectedRange = config.defaultRangeAcc ∧ after.drvData = dev.drvData := by
  have exact' := init_exact surroundings config dev
  have failed {code : Int} (ends : ∃ after, adxl362Init surroundings config dev =
      (.error code, after)) : False := by
    obtain ⟨other, ends⟩ := ends
    rw [starts] at ends
    cases ends
  cases spi : config.spiReady with
  | false => exact (failed ⟨dev, exact'.unready spi⟩).elim
  | true =>
      by_cases reached : Reached surroundings (clock dev)
      · have mapped (port : config.interruptPort = true) :
            Adxl362Configuration.Mapped surroundings config (clock dev) := by
          by_contra unmapped
          exact failed (exact'.unmapped spi reached port unmapped)
        obtain ⟨same, ends, values, range, data⟩ := exact'.succeeded spi reached mapped
        rw [starts] at ends
        cases ends
        exact ⟨values, range, data⟩
      · exact (failed (exact'.unreached spi reached)).elim

def attached : Surroundings where
  initial _ := 0
  sensed _ address := if address = regPartid then partId else 0
  transfer _ := ⟨0, Int.le_refl 0, 0, fun _ => 0⟩

def selected : Config where
  spiReady := true
  interruptPort := true
  int1Config := 0
  int2Config := 0
  powerCtl := 2
  absRefMode := 0
  activityThreshold := 1000
  activityTime := 1
  inactivityThreshold := 100
  inactivityTime := 1
  interruptMode := modeLink
  rangeRuntime := true
  defaultRangeAcc := 0
  odrRuntime := true
  defaultOdrAcc := 2
  gpioReady := true
  gpioPinConfigure := 0
  gpioAddCallback := 0
  gpioPinInterruptConfigure := 0

def powered : Device AppHandler := ⟨⟨fun _ => 0, 0⟩, 0, zeroedData⟩

theorem attached_starts :
    adxl362Init attached selected powered = (.ok (), started attached selected powered) :=
  init_success rfl ⟨fun _ _ => rfl, rfl, fun _ _ => rfl⟩
    fun _ => ⟨⟨rfl, Or.inr (Or.inl rfl), Int.le_refl 0, Int.le_refl 0, Int.le_refl 0⟩, fun _ _ => rfl⟩

def sampleCalls : List (DriverCall AppHandler) :=
  [.attrSet .accelXyz .fullScale ⟨29, 419950⟩, .triggerSet trig (some .triggerHandler)]

/-- Whatever is called behind a start-up and however the bus fails, its settings stay. -/
theorem settings_stay (starts : adxl362Init surroundings config dev = (.ok (), after))
    (calls : List (DriverCall Handler)) :
    Settled config surroundings.initial
      (perform (driverCall surroundings config) calls after).1.registers.values :=
  @perform_invariant _ _ (driverCall surroundings config)
    (fun dev => Settled config surroundings.initial dev.registers.values) calls
    (fun call _ dev settled => acted_settles (call_acted call dev) settled) _
    (configured_settled (init_configured starts).1)

theorem settings_stay_attached :
    Settled selected attached.initial (perform (driverCall attached selected) sampleCalls
      (started attached selected powered)).1.registers.values :=
  settings_stay attached_starts sampleCalls

/-! Events and their handlers. -/

def concerns (event : Event) : DriverCall Handler → Bool
  | .triggerSet trig _ => decide (trig.type = event.type)
  | _ => false

/-- The event interrupts if it has a handler, which is that of the last call. -/
structure Enabled (event : Event) (last : Option (DriverCall Handler)) (dev : Device Handler) :
    Prop where
  mapped : dev.registers.values regIntmap1 &&& eventMask event =
    if (dev.drvData.kept event).1.isSome then eventMask event else 0
  kept : ∀ trig handler, last = some (.triggerSet trig handler) →
    dev.drvData.kept event = (handler, some trig)

theorem registering_kept (trig : SensorTrigger) (handler : Option Handler)
    (drvData : Adxl362Data Handler) (event : Event) :
    (registering trig handler drvData).kept event =
      if trig.type = event.type then (handler, some trig) else drvData.kept event :=
  trigger_set_kept ⟨trig, handler, fun _ _ => 0⟩ drvData event

theorem masks_apart {event other : Event} (different : event ≠ other) :
    eventMask event &&& eventMask other = 0 := by
  cases event <;> cases other <;> first | exact absurd rfl different | decide

theorem enable_within (event : Event) (handler : Option Handler) :
    (if handler.isSome then eventMask event else 0) &&& eventMask event =
      if handler.isSome then eventMask event else 0 := by
  split
  · exact UInt8.and_self
  · exact UInt8.zero_and

theorem acted_intmap {call : DriverCall Handler} {ends : Except Int Unit × Device Handler}
    (acted : Acted surroundings dev call ends) :
    (ends.2.registers.values regIntmap1 = dev.registers.values regIntmap1 ∧
      ends.2.drvData = dev.drvData ∧ (call = .sampleFetch ∨ ends.1.isOk = false ∨
        ∀ trig handler, call ≠ .triggerSet trig handler)) ∨
    ∃ trig handler event, call = .triggerSet trig handler ∧ trig.type = event.type ∧
      ends.2.drvData = registering trig handler dev.drvData ∧
      (ends.2.registers.values regIntmap1 = dev.registers.values regIntmap1 &&& ~~~eventMask event |||
          (if handler.isSome then eventMask event else 0) ∨
        ends.1.isOk = false ∧
          ends.2.registers.values regIntmap1 = dev.registers.values regIntmap1) := by
  cases acted with
  | idle left fails =>
      refine Or.inl ⟨by rw [left.values], left.data, ?_⟩
      rcases fails with fetch | failed
      · exact Or.inl fetch
      · exact Or.inr (Or.inl failed)
  | threshold start value arrived known small other left =>
      refine Or.inl ⟨?_, left.data, Or.inr (Or.inr fun _ _ impossible => by cases impossible)⟩
      rw [left.values]
      rcases known with rfl | rfl <;> exact word_other (by decide) value arrived (Or.inr (by decide))
  | time value arrived left =>
      refine Or.inl ⟨?_, left.data, Or.inr (Or.inr fun _ _ impossible => by cases impossible)⟩
      rw [left.values]
      exact word_other (by decide) value arrived (Or.inr (by decide))
  | range range small set' =>
      left
      rcases set' with ⟨-, left⟩ | ⟨-, left⟩
      · exact ⟨by rw [left.values, Function.update_of_ne (by decide)], left.data,
          Or.inr (Or.inr fun _ _ impossible => by cases impossible)⟩
      · exact ⟨by rw [left.values, Function.update_of_ne (by decide)], left.data,
          Or.inr (Or.inr fun _ _ impossible => by cases impossible)⟩
  | rate outRate left =>
      exact Or.inl ⟨by rw [left.values, Function.update_of_ne (by decide)], left.data,
        Or.inr (Or.inr fun _ _ impossible => by cases impossible)⟩
  | mode left =>
      exact Or.inl ⟨by rw [left.values, Function.update_of_ne (by decide)], left.data,
        Or.inr (Or.inr fun _ _ impossible => by cases impossible)⟩
  | trigger event type tried =>
      refine Or.inr ⟨_, _, event, rfl, type, ?_, ?_⟩
      · rcases tried with left | ⟨-, left⟩
        · exact left.data
        · exact left.data
      · rcases tried with left | ⟨failed, left⟩
        · exact Or.inl (by rw [left.values, Function.update_self])
        · exact Or.inr ⟨failed, by rw [left.values]⟩

theorem trigger_enables (event : Event) (call : DriverCall Handler) (dev : Device Handler)
    (concerned : concerns event call = true)
    (succeeds : (driverCall surroundings config call dev).1.isOk = true) :
    Enabled event (some call) (driverCall surroundings config call dev).2 := by
  cases call with
  | triggerSet trig handler =>
      have type : trig.type = event.type := of_decide_eq_true concerned
      rcases acted_intmap (@call_acted _ surroundings config (.triggerSet trig handler) dev) with
        ⟨-, -, impossible | failed | other⟩ | ⟨trig', handler', event', same, type', data, written⟩
      · cases impossible
      · rw [succeeds] at failed
        cases failed
      · exact absurd rfl (other trig handler)
      · cases same
        cases type_injective (type.symm.trans type')
        have kept := registering_kept trig handler dev.drvData event
        rw [if_pos type] at kept
        constructor
        case mapped =>
          rcases written with written | ⟨failed, -⟩
          · rw [written, data, kept]
            exact field_written _ _ _ (enable_within event handler)
          · rw [succeeds] at failed
            cases failed
        case kept =>
          intro trig' handler' same
          cases same
          rw [data, kept]
  | attrSet chan attr val => cases concerned
  | sampleFetch => cases concerned
  | setInterruptMode mode => cases concerned

theorem others_keep (event : Event) (past : Option (DriverCall Handler)) (call : DriverCall Handler)
    (dev : Device Handler) (unconcerned : concerns event call = false)
    (enabled : Enabled event past dev) :
    Enabled event past (driverCall surroundings config call dev).2 := by
  rcases acted_intmap (@call_acted _ surroundings config call dev) with
    ⟨same, data, -⟩ | ⟨trig, handler, other, rfl, type, data, written⟩
  · exact ⟨by rw [same, data]; exact enabled.mapped, by rw [data]; exact enabled.kept⟩
  · have foreign : trig.type ≠ event.type := of_decide_eq_false unconcerned
    have apart : eventMask other &&& eventMask event = 0 := by
      refine masks_apart ?_
      rintro rfl
      exact foreign type
    have kept := registering_kept trig handler dev.drvData event
    rw [if_neg foreign] at kept
    refine ⟨?_, by rw [data, kept]; exact enabled.kept⟩
    rw [data, kept, ← enabled.mapped]
    rcases written with written | ⟨-, written⟩
    · rw [written]
      exact field_apart _ _ _ _ apart (enable_within other handler)
    · rw [written]

/-- Behind a start-up that maps no event, an event interrupts exactly when it has a handler,
that of the last call for it, as long as this call did not fail. -/
theorem events_enabled (starts : adxl362Init surroundings config dev = (.ok (), after))
    (port : config.interruptPort = true) (unmapped : config.int1Config = 0)
    (zeroed : dev.drvData = zeroedData) (event : Event)
    (calls : List (DriverCall Handler))
    (succeeded : ∀ call ok, lastRelevant (concerns event)
      (perform (driverCall surroundings config) calls after).2 = some (call, ok) → ok = true) :
    Enabled event ((lastRelevant (concerns event)
        (perform (driverCall surroundings config) calls after).2).map Prod.fst)
      (perform (driverCall surroundings config) calls after).1 := by
  obtain ⟨configured, -, data⟩ := init_configured starts
  have fresh : Enabled event none after := by
    refine ⟨?_, fun _ _ impossible => by cases impossible⟩
    rw [(configured.intmap port).1, unmapped, data, zeroed, UInt8.zero_and]
    cases event <;> rfl
  have enabled := @last_established _ _ (driverCall surroundings config) (concerns event)
    (Enabled event) (trigger_enables event) (others_keep event) calls none after
    (fun _ => fresh) succeeded
  rwa [Option.or_none] at enabled

theorem events_enabled_attached :
    Enabled .fifoWatermark (some (.triggerSet trig (some .triggerHandler)))
      (perform (driverCall attached selected) sampleCalls (started attached selected powered)).1 := by
  have last : lastRelevant (concerns .fifoWatermark) (perform (driverCall attached selected)
      sampleCalls (started attached selected powered)).2 =
        some (.triggerSet trig (some .triggerHandler), true) := rfl
  have enabled := events_enabled attached_starts rfl rfl rfl .fifoWatermark sampleCalls
  rw [last] at enabled
  exact enabled fun call ok found => by
    cases found
    rfl

/-! The range. -/

def microMs2 (ms2 : SensorValue) : Int := ms2.val1.toInt * 1000000 + ms2.val2.toInt

theorem ms2_to_g_nearest (ms2 : SensorValue) :
    (2 * (microMs2 ms2 - sensorG * sensorMs2ToG ms2)).natAbs ≤ sensorG.natAbs := by
  simp only [sensorMs2ToG, microMs2, sensorG]
  generalize ms2.val1.toInt * 1000000 + ms2.val2.toInt = micro
  split
  · rename_i positive
    rw [Int.tdiv_eq_ediv_of_nonneg (by omega)]
    omega
  · have mirrored := Int.neg_tdiv (-(micro - 9806650 / 2)) 9806650
    rw [Int.neg_neg] at mirrored
    rw [mirrored, Int.tdiv_eq_ediv_of_nonneg (by omega)]
    omega

/-- The full scale in g, as the driver looks it up: its lower sixteen bits. -/
def requested (val : SensorValue) : UInt16 := toUInt16 (sensorMs2ToG val)

theorem range_reg_cases (range : UInt16) :
    adxl362RangeToRegVal range = if range ≤ 2 then 0 else if range ≤ 4 then 1 else
      if range ≤ 8 then 2 else -einval := by
  simp only [adxl362RangeToRegVal, adxl362AccRangeMap, List.find?_cons, List.find?_nil]
  by_cases two : range ≤ 2
  · simp [two]
  · by_cases four : range ≤ 4
    · simp [two, four]
    · by_cases eight : range ≤ 8
      · simp [two, four, eight]
      · simp [two, four, eight]

def acceleration : SensorChannel → Bool
  | .other _ => false
  | _ => true

/-- The calls that write a range. Any other request for a full scale is refused. -/
def setsRange (config : Config) : DriverCall Handler → Bool
  | .attrSet chan .fullScale val =>
      config.rangeRuntime && acceleration chan && decide (requested val ≤ 8)
  | _ => false

def fullScale (range : UInt8) : Nat := 2 ^ (range.toNat + 1)

structure LeastRange (full : Nat) (range : UInt8) : Prop where
  known : range.toNat < 3
  covers : full ≤ fullScale range
  least : ∀ other : UInt8, fullScale other < fullScale range → fullScale other < full

/-- FILTER_CTL has the range that the driver knows, which is the default before any request
and else the least for the last request: it covers what is asked for, but for half a g,
unless that is beyond sixteen bits. -/
structure RangeKnown (config : Config) (last : Option (DriverCall Handler)) (dev : Device Handler) :
    Prop where
  default : last = none → dev.selectedRange = config.defaultRangeAcc
  known : dev.registers.values regFilterCtl &&& filterCtlRange 0x3 = filterCtlRange dev.selectedRange
  least : ∀ chan attr val, last = some (.attrSet chan attr val) →
    LeastRange (requested val).toNat dev.selectedRange
  covers : ∀ chan attr val, last = some (.attrSet chan attr val) → 0 ≤ microMs2 val →
    microMs2 val ≤ 65535 * sensorG → 2 * microMs2 val ≤ (2 * fullScale dev.selectedRange + 1) * sensorG

theorem range_of_request {range : UInt16} (supported : range ≤ 8) :
    LeastRange range.toNat (UInt8.ofNat (adxl362RangeToRegVal range).toNat) := by
  have eight : range.toNat ≤ 8 := supported
  have doubled (other : UInt8) : fullScale other = 2 * 2 ^ other.toNat := by
    rw [fullScale, Nat.pow_succ, Nat.mul_comm]
  have grows (other : UInt8) (bound : Nat) (small : fullScale other < 2 * 2 ^ (bound + 1)) :
      fullScale other ≤ 2 * 2 ^ bound := by
    rw [doubled] at small ⊢
    have exponent := (Nat.pow_lt_pow_iff_right Nat.one_lt_two).mp (Nat.lt_of_mul_lt_mul_left small)
    exact Nat.mul_le_mul_left 2 (Nat.pow_le_pow_right Nat.two_pos (Nat.le_of_lt_succ exponent))
  have two : range ≤ 2 ↔ range.toNat ≤ 2 := Iff.rfl
  have four : range ≤ 4 ↔ range.toNat ≤ 4 := Iff.rfl
  rw [range_reg_cases, if_pos supported]
  split
  · rename_i small
    refine ⟨by decide, two.mp small, fun other smaller => ?_⟩
    have positive : 2 ≤ fullScale other := by
      rw [doubled]
      exact Nat.le_mul_of_pos_right 2 (Nat.two_pow_pos _)
    exact absurd smaller (Nat.not_lt.mpr positive)
  · rename_i large
    rw [two] at large
    split
    · rename_i small
      exact ⟨by decide, four.mp small, fun other smaller =>
        Nat.lt_of_le_of_lt (grows other 0 smaller) (Nat.not_le.mp large)⟩
    · rename_i larger
      rw [four] at larger
      exact ⟨by decide, eight, fun other smaller =>
        Nat.lt_of_le_of_lt (grows other 1 smaller) (Nat.not_le.mp larger)⟩

theorem request_covered {val : SensorValue} {range : UInt8}
    (covers : (requested val).toNat ≤ fullScale range) (positive : 0 ≤ microMs2 val)
    (bounded : microMs2 val ≤ 65535 * sensorG) :
    2 * microMs2 val ≤ (2 * fullScale range + 1) * sensorG := by
  have nearest := ms2_to_g_nearest val
  have inside : 0 ≤ sensorMs2ToG val ∧ sensorMs2ToG val < 65536 := by
    simp only [sensorG] at nearest bounded
    omega
  have whole : ((requested val).toNat : Int) = sensorMs2ToG val := by
    rw [requested, toUInt16, Int.emod_eq_of_lt inside.1 inside.2, UInt16.toNat_ofNat']
    omega
  simp only [sensorG] at nearest ⊢
  omega

theorem range_call {call : DriverCall Handler} (sets : setsRange config call = true) :
    ∃ chan val, call = .attrSet chan .fullScale val ∧ requested val ≤ 8 ∧
      driverCall surroundings config call = adxl362SetRange surroundings
        (UInt8.ofNat (adxl362RangeToRegVal (requested val)).toNat) := by
  cases call with
  | attrSet chan attr val =>
      cases attr with
      | fullScale =>
          simp only [setsRange, Bool.and_eq_true, decide_eq_true_eq] at sets
          obtain ⟨⟨runtime, accelerates⟩, supported⟩ := sets
          refine ⟨chan, val, rfl, supported, ?_⟩
          have found : ¬ adxl362RangeToRegVal (requested val) < 0 := by
            rw [range_reg_cases, if_pos supported]
            split
            · decide
            · split <;> decide
          have configures : axl362AccConfig surroundings config .fullScale val =
              @adxl362SetRange Handler surroundings
                (UInt8.ofNat (adxl362RangeToRegVal (requested val)).toNat) := by
            rw [axl362AccConfig, if_pos runtime]
            exact if_neg found
          cases chan with
          | other value => cases accelerates
          | _ => exact configures
      | _ => cases sets
  | _ => cases sets

theorem refused_call {chan : SensorChannel} {val : SensorValue}
    (refuses : setsRange config (.attrSet chan .fullScale val : DriverCall Handler) = false) :
    driverCall surroundings config (.attrSet chan .fullScale val) dev = (.error (-enotsup), dev) := by
  have configures : config.rangeRuntime = false ∨ ¬ requested val ≤ 8 →
      axl362AccConfig surroundings config .fullScale val dev = (.error (-enotsup), dev) := by
    intro unsupported
    rw [axl362AccConfig]
    split
    · rename_i runtime
      have beyond : ¬ requested val ≤ 8 := by
        rcases unsupported with fixed | beyond
        · rw [runtime] at fixed
          cases fixed
        · exact beyond
      have unfound : adxl362RangeToRegVal (requested val) < 0 := by
        have eight : ¬ (requested val).toNat ≤ 8 := beyond
        have two : ¬ requested val ≤ 2 := fun small => eight (Nat.le_trans small (by decide))
        have four : ¬ requested val ≤ 4 := fun small => eight (Nat.le_trans small (by decide))
        rw [range_reg_cases, if_neg two, if_neg four, if_neg beyond]
        decide
      simp only
      rw [← requested, if_pos unfound]
      rfl
    · rfl
  cases chan with
  | other value => rfl
  | _ =>
      simp only [setsRange, acceleration, Bool.and_true, Bool.and_eq_false_imp, decide_eq_false_iff_not]
        at refuses
      refine configures ?_
      cases runtime : config.rangeRuntime with
      | false => exact Or.inl rfl
      | true => exact Or.inr (refuses runtime)

theorem acted_range {call : DriverCall Handler} {ends : Except Int Unit × Device Handler}
    (acted : Acted surroundings dev call ends)
    (other : ∀ chan val, call ≠ .attrSet chan .fullScale val) :
    ends.2.registers.values regFilterCtl &&& filterCtlRange 0x3 =
        dev.registers.values regFilterCtl &&& filterCtlRange 0x3 ∧
      ends.2.selectedRange = dev.selectedRange := by
  cases acted with
  | idle left fails => exact ⟨by rw [left.values], left.range⟩
  | threshold start value arrived known small different left =>
      refine ⟨?_, left.range⟩
      rw [left.values]
      rcases known with rfl | rfl <;> rw [word_other (by decide) value arrived (Or.inr (by decide))]
  | time value arrived left =>
      refine ⟨?_, left.range⟩
      rw [left.values, word_other (by decide) value arrived (Or.inr (by decide))]
  | range range small set' => exact absurd rfl (other _ _)
  | rate outRate left =>
      refine ⟨?_, left.range⟩
      rw [left.values, Function.update_self]
      exact field_apart _ _ _ _ (by decide) (field_within outRate 0x7 0)
  | mode left => exact ⟨by rw [left.values, Function.update_of_ne (by decide)], left.range⟩
  | trigger event type tried =>
      rcases tried with left | ⟨-, left⟩
      · exact ⟨by rw [left.values, Function.update_of_ne (by decide)], left.range⟩
      · exact ⟨by rw [left.values], left.range⟩

theorem range_sets (call : DriverCall Handler) (dev : Device Handler)
    (sets : setsRange config call = true)
    (succeeds : (driverCall surroundings config call dev).1.isOk = true) :
    RangeKnown config (some call) (driverCall surroundings config call dev).2 := by
  obtain ⟨chan, val, rfl, supported, same⟩ := @range_call _ surroundings config _ sets
  rw [same] at succeeds ⊢
  have least := range_of_request supported
  generalize UInt8.ofNat (adxl362RangeToRegVal (requested val)).toNat = range at least succeeds ⊢
  rcases @set_range_ends Handler surroundings range dev with ⟨-, left⟩ | ⟨failed, -⟩
  · have selected : (adxl362SetRange surroundings range dev).2.selectedRange = range := left.range
    constructor
    case default =>
      intro none'
      cases none'
    case known =>
      rw [left.values, selected, Function.update_self]
      exact field_written _ _ _ (field_within range 0x3 6)
    case least =>
      intro chan' attr val' call
      cases call
      rw [selected]
      exact least
    case covers =>
      intro chan' attr val' call
      cases call
      rw [selected]
      exact request_covered least.covers
  · rw [succeeds] at failed
    cases failed

theorem range_keeps (past : Option (DriverCall Handler)) (call : DriverCall Handler)
    (dev : Device Handler) (leaves : setsRange config call = false) (known : RangeKnown config past dev) :
    RangeKnown config past (driverCall surroundings config call dev).2 := by
  by_cases full : ∃ chan val, call = .attrSet chan .fullScale val
  · obtain ⟨chan, val, rfl⟩ := full
    rw [refused_call leaves]
    exact known
  · obtain ⟨same, selected⟩ := acted_range (@call_acted _ surroundings config call dev)
      fun chan val same => full ⟨chan, val, same⟩
    exact ⟨by rw [selected]; exact known.default, by rw [same, selected]; exact known.known,
      by rw [selected]; exact known.least, by rw [selected]; exact known.covers⟩

/-- Behind a start-up the driver knows the range of the accelerometer, the least for the last
request that wrote one, as long as this did not fail. -/
theorem range_follows_requests (starts : adxl362Init surroundings config dev = (.ok (), after))
    (calls : List (DriverCall Handler))
    (succeeded : ∀ call ok, lastRelevant (setsRange config)
      (perform (driverCall surroundings config) calls after).2 = some (call, ok) → ok = true) :
    RangeKnown config ((lastRelevant (setsRange config)
        (perform (driverCall surroundings config) calls after).2).map Prod.fst)
      (perform (driverCall surroundings config) calls after).1 := by
  obtain ⟨configured, range, -⟩ := init_configured starts
  have fresh : RangeKnown config none after := by
    refine ⟨fun _ => range, ?_, nofun, nofun⟩
    have rate := field_apart (surroundings.initial regFilterCtl &&& ~~~filterCtlRange 0x3 |||
      filterCtlRange config.defaultRangeAcc) (filterCtlOdr 0x7) (filterCtlOdr config.defaultOdrAcc)
      (filterCtlRange 0x3) (by decide) (field_within _ 0x7 0)
    rw [configured.filterCtl, rate, range]
    exact field_written _ _ _ (field_within config.defaultRangeAcc 0x3 6)
  have known := @last_established _ _ (driverCall surroundings config) (setsRange config)
    (RangeKnown config) range_sets range_keeps calls none after (fun _ => fresh) succeeded
  rwa [Option.or_none] at known

theorem range_follows_attached :
    RangeKnown selected (some (.attrSet .accelXyz .fullScale ⟨29, 419950⟩))
      (perform (driverCall attached selected) sampleCalls (started attached selected powered)).1 := by
  have last : lastRelevant (setsRange selected) (perform (driverCall attached selected)
      sampleCalls (started attached selected powered)).2 =
        some (.attrSet .accelXyz .fullScale ⟨29, 419950⟩, true) := rfl
  have known := range_follows_requests attached_starts sampleCalls
  rw [last] at known
  exact known fun call ok found => by
    cases found
    rfl

end Histories

end ThingyAccel.Adxl362Operation
