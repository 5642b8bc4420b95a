import ThingyAccel.Messages

/-!
`coap_send_fn` of src/networking.c and the functions it decides with. One step goes
from one call into the kernel, the socket or the CoAP library to the next, or past
one test of the inner loop; what the calls answer comes from outside.
-/
namespace ThingyAccel.CoapSend

open Messages

def coapResponseCodeCreated : Nat := 65

def coapResponseCodeBadRequest : Nat := 128

/-- `x & (1u << msg_index)`; a shift by 32 or more is undefined in C. -/
def checkList (x msgIndex : Nat) : Bool := x.testBit msgIndex

/-- `for (i = 9; i >= 0; i--)` from below a start, up to the first clear bit. -/
def searchDown (x : Nat) : Nat → Int
  | 0 => -1
  | i + 1 => if x.testBit i then searchDown x i else i

def getmsgCount (x : Nat) : Nat := (searchDown x 10 % 256).toNat

/-- A received datagram as the CoAP library presents it: the result of parsing, the
token, the code, and the payload with the bytes of the buffer from there on. -/
structure Datagram where
  parseErr : Int
  token : List UInt8
  code : Nat
  payloadLen : Nat
  payload : Nat → UInt8

def tokenBytes (token : Nat) : List UInt8 := [UInt8.ofNat token, UInt8.ofNat (token / 256)]

def receivedInteger (low high : UInt8) : Nat := low.toNat + 256 * high.toNat

/-- The return value, `pload` afterwards, and the positions of the payload that
were read. -/
structure Handled where
  err : Int
  pload : Nat
  reads : List Nat
  deriving DecidableEq, Repr

def clientHandleGetResponse (conToken : Nat) (datagram : Datagram) (pload : Nat) : Handled :=
  if datagram.parseErr < 0 then ⟨datagram.parseErr, pload, []⟩
  else if datagram.token ≠ tokenBytes conToken then ⟨-1, pload, []⟩
  else if datagram.code = coapResponseCodeCreated then ⟨0, receivedInteger 0xff 0x3, []⟩
  else if datagram.code = coapResponseCodeBadRequest then
    -- The log line behind both branches reads two payload bytes again.
    if 0 < datagram.payloadLen then
      ⟨0, receivedInteger (datagram.payload 0) (datagram.payload 1), [0, 1, 0, 1]⟩
    else ⟨0, receivedInteger 0x0 0x4, [0, 1]⟩
  else ⟨-1, pload, []⟩

def Awaited (conToken : Nat) (datagram : Datagram) : Prop :=
  ¬ datagram.parseErr < 0 ∧ datagram.token = tokenBytes conToken

instance (conToken : Nat) (datagram : Datagram) : Decidable (Awaited conToken datagram) :=
  inferInstanceAs (Decidable (_ ∧ _))

/-- The bitmap of a rejecting response; bit ten stands for an empty payload. -/
def Datagram.bitmap (datagram : Datagram) : Nat :=
  if 0 < datagram.payloadLen then receivedInteger (datagram.payload 0) (datagram.payload 1) else 0x400

inductive Answered (conToken : Nat) (datagram : Datagram) (pload : Nat) : Handled → Prop where
  | rejected {handled : Handled} (fails : handled.err < 0) (kept : handled.pload = pload)
      (refused : ¬ (Awaited conToken datagram ∧
        (datagram.code = coapResponseCodeCreated ∨ datagram.code = coapResponseCodeBadRequest))) :
      Answered conToken datagram pload handled
  | created {handled : Handled} (awaited : Awaited conToken datagram)
      (code : datagram.code = coapResponseCodeCreated) (err : handled.err = 0)
      (all : handled.pload = 0x3ff) : Answered conToken datagram pload handled
  | incomplete {handled : Handled} (awaited : Awaited conToken datagram)
      (code : datagram.code = coapResponseCodeBadRequest) (err : handled.err = 0)
      (taken : handled.pload = datagram.bitmap) : Answered conToken datagram pload handled

theorem client_handle_get_response_cases (conToken : Nat) (datagram : Datagram) (pload : Nat) :
    Answered conToken datagram pload (clientHandleGetResponse conToken datagram pload) := by
  rw [clientHandleGetResponse]
  split
  · rename_i fails
    exact .rejected fails rfl fun taken => taken.1.1 fails
  · rename_i parses
    split
    · rename_i other
      exact .rejected (by decide : (-1 : Int) < 0) rfl fun taken => other taken.1.2
    · rename_i token
      have awaited : Awaited conToken datagram := ⟨parses, not_not.mp token⟩
      split
      · exact .created awaited ‹_› rfl rfl
      · split
        · rename_i code
          split
          · rename_i some'
            exact .incomplete awaited code rfl (if_pos some').symm
          · rename_i empty
            exact .incomplete awaited code rfl (if_neg empty).symm
        · rename_i created rejecting
          refine .rejected (by decide : (-1 : Int) < 0) rfl ?_
          rintro ⟨-, code | code⟩
          · exact created code
          · exact rejecting code

/-- What the run does next: a test of the inner loop, one of the calls, or nothing. -/
inductive Point where
  | head
  | send
  | wait
  | connect
  | recv
  | returned
  | reset
  deriving DecidableEq, Repr

/-- The local variables of `coap_send_fn` and the static `con_token`. -/
structure Sender where
  point : Point
  tries : Nat
  t : Nat
  lastMsg : Nat
  i : Nat
  x : Nat
  recvPayload : Nat
  reconnected : Bool
  conToken : Nat
  deriving DecidableEq, Repr

/-- What the calls return, whichever comes next; `recv` fails with none. -/
structure Answer where
  sendErr : Int
  waitErr : Int
  connectErr : Int
  received : Option Datagram

def blockCount : Nat := payloadCount / 10

def Sender.index (run : Sender) : Nat := (run.i * 10 + run.x) % 2 ^ 8

def Sender.confirmable (run : Sender) : Bool := decide (run.lastMsg ≤ run.x)

def enterBlock (run : Sender) : Sender :=
  if run.i < blockCount then { run with point := .head, x := 0 } else { run with point := .returned }

def startSender (msgIndex conToken : Nat) : Sender :=
  enterBlock { point := .head, tries := 0, t := if msgIndex = 1 then 0 else 1, lastMsg := 9, i := 0,
               x := 0, recvPayload := 0, reconnected := false, conToken := conToken }

def stepHead (run : Sender) : Sender :=
  if run.x < run.lastMsg + 1 then
    if checkList run.recvPayload run.x then { run with x := (run.x + 1) % 2 ^ 8 }
    else { run with point := .send }
  else { run with point := .recv }

/-- `client_get_send` keeps the token of a confirmable message before it can fail. -/
def stepSend (run : Sender) (err : Int) : Sender :=
  let run := { run with conToken := if run.confirmable then run.index else run.conToken }
  if err < 0 then
    if run.tries < 3 then { run with point := .head, tries := run.tries + 1 }
    else { run with point := .reset }
  else { run with point := .wait }

def stepWait (run : Sender) (err : Int) : Sender :=
  if err < 0 then
    if run.tries < 3 then { run with point := .head, tries := run.tries + 1 }
    else if run.tries = 4 ∧ run.reconnected = false then { run with point := .connect }
    else { run with point := .reset }
  else { run with point := .head, x := (run.x + 1) % 2 ^ 8 }

def stepConnect (run : Sender) (err : Int) : Sender :=
  if err ≠ 0 then { run with point := .reset }
  else { run with point := .head, reconnected := true }

def stepRecv (run : Sender) (received : Option Datagram) : Sender :=
  match received with
  | none => { run with point := .returned }
  | some datagram =>
      let handled := clientHandleGetResponse run.conToken datagram run.recvPayload
      let run := { run with recvPayload := handled.pload }
      if handled.err < 0 then
        -- A rejected response repeats the round as it was.
        if run.tries < 3 then enterBlock run else { run with point := .returned }
      -- Everything has arrived: the next block starts with ten messages to send.
      else if run.recvPayload = 0x3ff then
        enterBlock { run with lastMsg := 9, i := run.i + 1, recvPayload := 0 }
      else if run.tries < 3 then
        -- The round is repeated up to the greatest missing message; `tries` stays.
        enterBlock { run with lastMsg := getmsgCount run.recvPayload }
      else { run with point := .returned }

def step (run : Sender) (answer : Answer) : Sender :=
  match run.point with
  | .head => stepHead run
  | .send => stepSend run answer.sendErr
  | .wait => stepWait run answer.waitErr
  | .connect => stepConnect run answer.connectErr
  | .recv => stepRecv run answer.received
  | .returned => run
  | .reset => run

def Completes (conToken : Nat) (datagram : Datagram) : Prop :=
  Awaited conToken datagram ∧ (datagram.code = coapResponseCodeCreated ∨
    datagram.code = coapResponseCodeBadRequest ∧ datagram.bitmap = 0x3ff)

instance (conToken : Nat) (datagram : Datagram) : Decidable (Completes conToken datagram) :=
  inferInstanceAs (Decidable (_ ∧ _))

inductive Moved (run : Sender) (answer : Answer) : Sender → Prop where
  | skip (point : run.point = .head) (more : run.x < run.lastMsg + 1)
      (arrived : run.recvPayload.testBit run.x = true) :
      Moved run answer { run with x := (run.x + 1) % 2 ^ 8 }
  | offer (point : run.point = .head) (more : run.x < run.lastMsg + 1)
      (missing : run.recvPayload.testBit run.x = false) :
      Moved run answer { run with point := .send }
  | listen (point : run.point = .head) (done : ¬ run.x < run.lastMsg + 1) :
      Moved run answer { run with point := .recv }
  | unsent (point : run.point = .send) (fails : answer.sendErr < 0) (more : run.tries < 3) :
      Moved run answer { run with
        point := .head, tries := run.tries + 1
        conToken := if run.confirmable then run.index else run.conToken }
  | sendReset (point : run.point = .send) (fails : answer.sendErr < 0) (spent : ¬ run.tries < 3) :
      Moved run answer { run with
        point := .reset
        conToken := if run.confirmable then run.index else run.conToken }
  | sent (point : run.point = .send) (works : ¬ answer.sendErr < 0) :
      Moved run answer { run with
        point := .wait
        conToken := if run.confirmable then run.index else run.conToken }
  | timeout (point : run.point = .wait) (fails : answer.waitErr < 0) (more : run.tries < 3) :
      Moved run answer { run with point := .head, tries := run.tries + 1 }
  | reconnect (point : run.point = .wait) (four : run.tries = 4) :
      Moved run answer { run with point := .connect }
  | waitReset (point : run.point = .wait) (fails : answer.waitErr < 0) (spent : ¬ run.tries < 3) :
      Moved run answer { run with point := .reset }
  | waited (point : run.point = .wait) (works : ¬ answer.waitErr < 0) :
      Moved run answer { run with point := .head, x := (run.x + 1) % 2 ^ 8 }
  | connected (point : run.point = .connect) :
      Moved run answer { run with point := .head, reconnected := true }
  | connectReset (point : run.point = .connect) : Moved run answer { run with point := .reset }
  | broken (point : run.point = .recv) (none : answer.received = none) :
      Moved run answer { run with point := .returned }
  | rejected (point : run.point = .recv) {datagram : Datagram}
      (received : answer.received = some datagram)
      (refused : ¬ (Awaited run.conToken datagram ∧
        (datagram.code = coapResponseCodeCreated ∨ datagram.code = coapResponseCodeBadRequest)))
      (more : run.tries < 3) : Moved run answer (enterBlock run)
  | incomplete (point : run.point = .recv) {datagram : Datagram}
      (received : answer.received = some datagram) (awaited : Awaited run.conToken datagram)
      (code : datagram.code = coapResponseCodeBadRequest) (missing : datagram.bitmap ≠ 0x3ff)
      (more : run.tries < 3) :
      Moved run answer (enterBlock { run with
        recvPayload := datagram.bitmap, lastMsg := getmsgCount datagram.bitmap })
  | givenUp (point : run.point = .recv) {datagram : Datagram}
      (received : answer.received = some datagram) (open' : ¬ Completes run.conToken datagram)
      (spent : ¬ run.tries < 3) (pload : Nat) :
      Moved run answer { run with recvPayload := pload, point := .returned }
  | advance (point : run.point = .recv) {datagram : Datagram}
      (received : answer.received = some datagram) (completes : Completes run.conToken datagram) :
      Moved run answer (enterBlock { run with lastMsg := 9, i := run.i + 1, recvPayload := 0 })
  | ended (final : run.point = .returned ∨ run.point = .reset) : Moved run answer run

section Moves

variable {run : Sender} {answer : Answer}

theorem head_moved (point : run.point = .head) : Moved run answer (stepHead run) := by
  rw [stepHead]
  split
  · rename_i more
    cases arrived : checkList run.recvPayload run.x with
    | true => exact .skip point more arrived
    | false => exact .offer point more arrived
  · exact .listen point ‹_›

theorem send_moved (point : run.point = .send) : Moved run answer (stepSend run answer.sendErr) := by
  simp only [stepSend]
  split
  · rename_i fails
    split
    · exact .unsent point fails ‹_›
    · exact .sendReset point fails ‹_›
  · exact .sent point ‹_›

theorem wait_moved (point : run.point = .wait) : Moved run answer (stepWait run answer.waitErr) := by
  rw [stepWait]
  split
  · rename_i fails
    split
    · exact .timeout point fails ‹_›
    · rename_i spent
      split
      · rename_i four
        exact .reconnect point four.1
      · exact .waitReset point fails spent
  · exact .waited point ‹_›

theorem connect_moved (point : run.point = .connect) :
    Moved run answer (stepConnect run answer.connectErr) := by
  rw [stepConnect]
  split
  · exact .connectReset point
  · exact .connected point

theorem recv_moved (point : run.point = .recv) :
    Moved run answer (stepRecv run answer.received) := by
  cases received : answer.received with
  | none => exact .broken point received
  | some datagram =>
      simp only [stepRecv]
      cases client_handle_get_response_cases run.conToken datagram run.recvPayload with
      | rejected fails kept refused =>
          rw [if_pos fails, kept]
          split
          · exact .rejected point received refused ‹_›
          · rename_i spent
            refine .givenUp point received ?_ spent run.recvPayload
            rintro ⟨awaited, created | ⟨code, -⟩⟩
            · exact refused ⟨awaited, Or.inl created⟩
            · exact refused ⟨awaited, Or.inr code⟩
      | created awaited code err all =>
          rw [err, all, if_neg (by decide), if_pos rfl]
          exact .advance point received ⟨awaited, Or.inl code⟩
      | incomplete awaited code err taken =>
          rw [err, taken, if_neg (by decide)]
          split
          · rename_i whole
            exact .advance point received ⟨awaited, Or.inr ⟨code, whole⟩⟩
          · rename_i missing
            split
            · exact .incomplete point received awaited code missing ‹_›
            · rename_i spent
              refine .givenUp point received ?_ spent datagram.bitmap
              rintro ⟨-, created | ⟨-, whole⟩⟩
              · exact absurd (code.symm.trans created) (by decide)
              · exact missing whole

theorem step_moved (run : Sender) (answer : Answer) : Moved run answer (step run answer) := by
  rw [step]
  cases point : run.point with
  | head => exact head_moved point
  | send => exact send_moved point
  | wait => exact wait_moved point
  | connect => exact connect_moved point
  | recv => exact recv_moved point
  | returned => exact .ended (Or.inl point)
  | reset => exact .ended (Or.inr point)

theorem enter_block_cases (run : Sender) :
    (run.i < 6 ∧ enterBlock run = { run with point := .head, x := 0 }) ∨
      (¬ run.i < 6 ∧ enterBlock run = { run with point := .returned }) := by
  by_cases more : run.i < 6
  · exact Or.inl ⟨more, if_pos more⟩
  · exact Or.inr ⟨more, if_neg more⟩

@[simp] theorem enter_block_same (run : Sender) : (enterBlock run).i = run.i := by
  rw [enterBlock]
  split <;> rfl

@[simp] theorem enter_block_last (run : Sender) : (enterBlock run).lastMsg = run.lastMsg := by
  rw [enterBlock]
  split <;> rfl

end Moves

def after (start : Sender) (answers : Nat → Answer) : Nat → Sender
  | 0 => start
  | count + 1 => step (after start answers count) (answers count)

end ThingyAccel.CoapSend
