import Mathlib.Data.List.Basic

/-!
The start-up of src/main.c with `initialize_sensors`, `initialize_modem` and
`connect_to_server`: which failures end it, given what every call outside reports.
-/
namespace ThingyAccel.Startup

structure Reported where
  result : Int
  errno : Int
  deriving DecidableEq, Repr

/-- What the calls of the start-up report. `addressFound` is whether `getaddrinfo`
has set its result. -/
structure Outcomes where
  adxl362Ready : Bool
  bme680Ready : Bool
  sensorTriggerSet : Int
  nrfModemLibInit : Int
  lteLcConnectAsync : Int
  lteLcPsmReq : Int
  lteLcEdrxReq : Int
  getaddrinfo : Int
  addressFound : Bool
  socket : Reported
  peerVerify : Reported
  connectionId : Reported
  hostname : Reported
  secTagList : Reported
  connect : Reported
  deriving DecidableEq, Repr

inductive StartStep where
  | initCoapSend
  | startQueue
  | initEmptyFifo
  deriving DecidableEq, Repr

def eio : Int := 5

def enoent : Int := 2

def einval : Int := 22

def eopnotsupp : Int := 95

/-- `CONFIG_ADXL362_TRIGGER`, which the global thread selects. -/
def configAdxl362Trigger : Bool := true

def initializeSensors (outcomes : Outcomes) : Int :=
  let err := 0
  if ¬ outcomes.adxl362Ready ∧ ¬ outcomes.bme680Ready then err
  else if configAdxl362Trigger then
    -- The result of `sensor_trigger_set` is not kept.
    if outcomes.sensorTriggerSet ≠ 0 then err else err
  else err

/-- The wait for the network is taken to end. -/
def modemConfigure (outcomes : Outcomes) : Int :=
  if outcomes.nrfModemLibInit ≠ 0 then outcomes.nrfModemLibInit
  else if outcomes.lteLcConnectAsync ≠ 0 then outcomes.lteLcConnectAsync
  else 0

def configureLowPower (outcomes : Outcomes) : Int :=
  let err := outcomes.lteLcPsmReq
  let err := if err ≠ 0 then outcomes.lteLcEdrxReq else outcomes.lteLcEdrxReq
  err

def initializeModem (outcomes : Outcomes) : Int :=
  let err := modemConfigure outcomes
  -- A failure is logged, then `err` is assigned anew.
  let err := if err ≠ 0 then configureLowPower outcomes else configureLowPower outcomes
  err

def serverResolve (outcomes : Outcomes) : Int :=
  if outcomes.getaddrinfo ≠ 0 then -eio
  else if outcomes.addressFound = false then -enoent
  else 0

/-- The return value, and `cid_supported`, which is true from the start. -/
def clientInit (outcomes : Outcomes) : Int × Bool :=
  if outcomes.socket.result < 0 then (-outcomes.socket.errno, true)
  else if outcomes.peerVerify.result ≠ 0 then (-outcomes.peerVerify.errno, true)
  else
    let cidSupported : Bool :=
      if outcomes.connectionId.result = 0 then true
      else if outcomes.connectionId.result ≠ eopnotsupp ∧ outcomes.connectionId.result ≠ einval then
        false
      else false
    if outcomes.hostname.result ≠ 0 then (-outcomes.hostname.errno, cidSupported)
    else if outcomes.secTagList.result ≠ 0 then (-outcomes.secTagList.errno, cidSupported)
    else if outcomes.connect.result < 0 then (-outcomes.connect.errno, cidSupported)
    else (0, cidSupported)

def connectToServer (outcomes : Outcomes) : Int :=
  let err := serverResolve outcomes
  if err < 0 then err
  else
    let err := (clientInit outcomes).1
    if err < 0 then err else err

def main (outcomes : Outcomes) : Int × List StartStep :=
  if initializeSensors outcomes < 0 then (-1, [])
  else if initializeModem outcomes < 0 then (-1, [])
  else if connectToServer outcomes < 0 then (-1, [])
  else (0, [.initCoapSend, .startQueue, .initEmptyFifo])

section Failures

structure AllSucceeded (outcomes : Outcomes) : Prop where
  adxl362 : outcomes.adxl362Ready = true
  bme680 : outcomes.bme680Ready = true
  trigger : outcomes.sensorTriggerSet = 0
  library : outcomes.nrfModemLibInit = 0
  attach : outcomes.lteLcConnectAsync = 0
  psm : outcomes.lteLcPsmReq = 0
  edrx : outcomes.lteLcEdrxReq = 0
  resolved : outcomes.getaddrinfo = 0 ∧ outcomes.addressFound = true
  socket : 0 ≤ outcomes.socket.result
  peerVerify : outcomes.peerVerify.result = 0
  hostname : outcomes.hostname.result = 0
  secTagList : outcomes.secTagList.result = 0
  connect : outcomes.connect.result = 0

/-- `main` starts the queue only when everything succeeded, and otherwise it returns
-1 and has started nothing. -/
def FailuresNoticed (outcomes : Outcomes) : Prop :=
  ((main outcomes).2 ≠ [] → AllSucceeded outcomes) ∧
    (¬ AllSucceeded outcomes → main outcomes = (-1, []))

def checkedCalls (outcomes : Outcomes) : List (Bool × Int) :=
  [(outcomes.socket.result < 0, outcomes.socket.errno),
    (outcomes.peerVerify.result ≠ 0, outcomes.peerVerify.errno),
    (outcomes.hostname.result ≠ 0, outcomes.hostname.errno),
    (outcomes.secTagList.result ≠ 0, outcomes.secTagList.errno),
    (outcomes.connect.result < 0, outcomes.connect.errno)]

/-- The failures that reach `main`: that of the eDRX request, those of the name
resolution, and the first one of `client_init` if `errno` is positive behind it. -/
def Reaching (outcomes : Outcomes) : Prop :=
  outcomes.lteLcEdrxReq < 0 ∨ outcomes.getaddrinfo ≠ 0 ∨ outcomes.addressFound = false ∨
    ∃ errno, (checkedCalls outcomes).find? Prod.fst = some (true, errno) ∧ 0 < errno

variable (outcomes : Outcomes)

theorem initialize_sensors_zero : initializeSensors outcomes = 0 := by
  rw [initializeSensors]
  split
  · rfl
  · split
    · split <;> rfl
    · rfl

theorem initialize_modem_edrx : initializeModem outcomes = outcomes.lteLcEdrxReq := by
  rw [initializeModem, configureLowPower]
  simp only [ite_self]

theorem server_resolve_negative :
    serverResolve outcomes < 0 ↔ outcomes.getaddrinfo ≠ 0 ∨ outcomes.addressFound = false := by
  rw [serverResolve]
  by_cases failed : outcomes.getaddrinfo ≠ 0
  · simp [failed, eio]
  · by_cases missing : outcomes.addressFound = false
    · simp [failed, missing, enoent]
    · simp [failed, missing]

theorem client_init_negative :
    (clientInit outcomes).1 < 0 ↔
      ∃ errno, (checkedCalls outcomes).find? Prod.fst = some (true, errno) ∧ 0 < errno := by
  rw [clientInit, checkedCalls]
  by_cases socket : outcomes.socket.result < 0
  · simp [socket]
  by_cases peerVerify : outcomes.peerVerify.result ≠ 0
  · simp [socket, peerVerify]
  by_cases hostname : outcomes.hostname.result ≠ 0
  · simp [socket, peerVerify, hostname]
  by_cases secTagList : outcomes.secTagList.result ≠ 0
  · simp [socket, peerVerify, hostname, secTagList]
  by_cases connect : outcomes.connect.result < 0
  · simp [socket, peerVerify, hostname, secTagList, connect]
  · simp [socket, peerVerify, hostname, secTagList, connect]

theorem connect_to_server_negative :
    connectToServer outcomes < 0 ↔
      outcomes.getaddrinfo ≠ 0 ∨ outcomes.addressFound = false ∨
        ∃ errno, (checkedCalls outcomes).find? Prod.fst = some (true, errno) ∧ 0 < errno := by
  rw [← client_init_negative, ← or_assoc, ← server_resolve_negative, connectToServer]
  by_cases unresolved : serverResolve outcomes < 0
  · simp [unresolved]
  · simp [unresolved]

theorem main_fails_iff : main outcomes = (-1, []) ↔ Reaching outcomes := by
  rw [main, initialize_sensors_zero, initialize_modem_edrx, Reaching, ← connect_to_server_negative]
  by_cases edrx : outcomes.lteLcEdrxReq < 0
  · simp [edrx]
  · by_cases connect : connectToServer outcomes < 0
    · simp [edrx, connect]
    · simp [edrx, connect]

theorem main_starts_iff :
    main outcomes = (0, [.initCoapSend, .startQueue, .initEmptyFifo]) ↔ ¬ Reaching outcomes := by
  rw [← main_fails_iff, main, initialize_sensors_zero]
  by_cases modem : initializeModem outcomes < 0
  · simp [modem]
  · by_cases connect : connectToServer outcomes < 0
    · simp [modem, connect]
    · simp [modem, connect]

/-- Failures are noticed exactly when there are none or one reaches `main`. -/
theorem failures_noticed_iff :
    FailuresNoticed outcomes ↔ AllSucceeded outcomes ∨ Reaching outcomes := by
  constructor
  · rintro ⟨-, otherwise'⟩
    by_cases succeeded : AllSucceeded outcomes
    · exact Or.inl succeeded
    · exact Or.inr ((main_fails_iff outcomes).mp (otherwise' succeeded))
  · rintro (succeeded | reaching)
    · exact ⟨fun _ => succeeded, fun failed => absurd succeeded failed⟩
    · have fails := (main_fails_iff outcomes).mpr reaching
      refine ⟨?_, fun _ => fails⟩
      intro started
      rw [fails] at started
      exact absurd rfl started

def unarmed : Outcomes :=
  { adxl362Ready := true, bme680Ready := true, sensorTriggerSet := -5, nrfModemLibInit := 0
    lteLcConnectAsync := 0, lteLcPsmReq := 0, lteLcEdrxReq := 0, getaddrinfo := 0
    addressFound := true, socket := ⟨3, 0⟩, peerVerify := ⟨0, 0⟩, connectionId := ⟨0, 0⟩
    hostname := ⟨0, 0⟩, secTagList := ⟨0, 0⟩, connect := ⟨0, 0⟩ }

theorem unarmed_starts : ¬ FailuresNoticed unarmed := by
  rintro ⟨only, -⟩
  have succeeded := only (by decide)
  exact absurd succeeded.trigger (by decide)

end Failures

end ThingyAccel.Startup
