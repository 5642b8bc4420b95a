import Mathlib.Data.Prod.Lex
import ThingyAccel.Rounds

/-!
What `coap_send_fn` makes of a network that loses nothing and keeps the order, whatever
happened before: all six blocks are counted. Answers that are still on their way may end a
block, or delay it by rounds that `coap_send_fn` repeats.
-/
namespace ThingyAccel.Recovery

open CoapSend CoapRun Executions Rounds
open Delivery (World Request Response Action Delivered receivedBitmap Unheard transmitted replies
  worldStep startWorld Steady Sound)

def Request.place (request : Request) : Nat × Nat := (request.run, request.slot)

def honest (received : List (Nat × Nat)) (request : Request) : Bool :=
  decide (Delivered received request.run (request.slot / 10))

/-- No call fails and nothing is lost; the oldest datagram comes first. -/
def Reliable (world : World) : Action → Prop
  | .call answer => ¬ answer.sendErr < 0 ∧ ¬ answer.waitErr < 0 ∧ answer.connectErr = 0 ∧
      world.sender.point ≠ .recv ∧ ¬ Final world.sender
  | .hear position => position + 1 = world.responses.length
  | .deliver position created => position + 1 = world.requests.length ∧
      ∀ request ∈ world.requests[position]?,
        created = honest (Request.place request :: world.received) request
  | .loseRequest _ | .loseResponse _ | .nextRun _ => False

def StillSends (run : Sender) : Prop :=
  run.point = .send ∨ run.point = .head ∧ run.x ≤ run.lastMsg

instance (run : Sender) : Decidable (StillSends run) := inferInstanceAs (Decidable (_ ∨ _))

def AllCounted (run : Sender) : Prop := run.point = .returned ∧ run.i = blockCount

instance (run : Sender) : Decidable (AllCounted run) := inferInstanceAs (Decidable (_ ∧ _))

section Settling

/-- The answers to requests that are delivered in order, the latest one first. -/
def answersTo (received : List (Nat × Nat)) : List Request → List Response
  | [] => []
  | request :: earlier =>
      let known := Request.place request :: (earlier.map Request.place ++ received)
      replies known request (honest known request) ++ answersTo received earlier

def settle (world : World) : World :=
  { world with
    requests := []
    responses := answersTo world.received world.requests ++ world.responses
    received := world.requests.map Request.place ++ world.received }

def noError : Answer := ⟨0, 0, 0, none⟩

/-- The next step of the device when every request is delivered at once. -/
def settledStep (world : World) : World :=
  if world.sender.point = .recv then
    match world.responses.getLast? with
    | none => world
    | some response => { world with
        sender := step world.sender ⟨0, 0, 0, some response.datagram⟩
        responses := world.responses.dropLast }
  else settle { world with
    sender := step world.sender noError
    requests := transmitted world noError ++ world.requests }

variable {world next : World} {received : List (Nat × Nat)}

theorem answers_append (later earlier : List Request) :
    answersTo received (later ++ earlier) =
      answersTo (earlier.map Request.place ++ received) later ++ answersTo received earlier := by
  induction later with
  | nil => rfl
  | cons request later ih =>
      simp only [List.cons_append, answersTo, ih, List.map_append, List.append_assoc]

theorem settle_idle (none' : world.requests = []) : settle world = world := by
  cases world
  cases none'
  rfl

theorem settle_deliver {earlier : List Request} {request : Request}
    (oldest : world.requests = earlier ++ [request]) :
    settle { world with
      requests := earlier
      responses := replies (Request.place request :: world.received) request
        (honest (Request.place request :: world.received) request) ++ world.responses
      received := Request.place request :: world.received } = settle world := by
  simp only [settle, oldest, answers_append, List.map_append, List.map_cons, List.map_nil,
    answersTo, List.append_nil, List.append_assoc, List.cons_append, List.nil_append]

theorem settle_send (new : List Request) (sender : Sender) :
    settle { world with sender := sender, requests := new ++ world.requests } =
      settle { settle world with sender := sender, requests := new ++ [] } := by
  simp only [settle, answers_append, List.map_append, List.append_assoc, List.append_nil]

theorem reliable_call {run : Sender} {answer : Answer} (sends : ¬ answer.sendErr < 0)
    (waits : ¬ answer.waitErr < 0) (connects : answer.connectErr = 0) (silent : run.point ≠ .recv) :
    step run answer = step run noError := by
  have fine : ¬ noError.sendErr < 0 ∧ ¬ noError.waitErr < 0 ∧ noError.connectErr = 0 := by decide
  cases point : run.point with
  | recv => exact absurd point silent
  | send => simp only [step, point, stepSend, sends, fine.1, ↓reduceIte]
  | wait => simp only [step, point, stepWait, waits, fine.2.1, ↓reduceIte]
  | connect => simp only [step, point, stepConnect, connects, fine.2.2]
  | head | returned | reset => simp only [step, point]

theorem transmitted_settled {answer : Answer} (sends : ¬ answer.sendErr < 0) :
    transmitted world answer = transmitted (settle world) noError := by
  have fine : ¬ noError.sendErr < 0 := by decide
  simp only [transmitted, sends, fine]
  rfl

/-- Behind the deliveries to come every reliable step is the settled one, or none. -/
theorem reliable_settles {action : Action} (fair : Reliable world action)
    (moves : worldStep world action = some next) :
    (settle next = settle world ∧ next.sender = world.sender ∧
        next.requests.length + 1 = world.requests.length) ∨
      (settle next = settledStep (settle world) ∧
        next.requests.length ≤ world.requests.length + 1) := by
  cases action with
  | call answer =>
      obtain ⟨sends, waits, connects, silent, -⟩ := fair
      rw [worldStep] at moves
      split at moves
      · cases moves
        right
        constructor
        · rw [reliable_call sends waits connects silent, transmitted_settled sends, settle_send,
            settledStep, if_neg (show (settle world).sender.point ≠ .recv from silent)]
          rfl
        · rw [List.length_append, Nat.add_comm, transmitted]
          split
          · exact Nat.le_refl _
          · exact Nat.le_succ _
      · cases moves
  | hear position =>
      obtain ⟨response, found, heard⟩ := Option.bind_eq_some_iff.mp moves
      split at heard
      · rename_i point
        cases heard
        right
        have last : position + 1 = world.responses.length := fair
        have latest : world.responses.getLast? = some response := by
          rw [List.getLast?_eq_getElem?, ← last, Nat.add_sub_cancel, found]
        have present : world.responses ≠ [] := fun empty => by
          rw [empty] at found
          cases found
        refine ⟨?_, Nat.le_succ _⟩
        rw [settledStep, if_pos (show (settle world).sender.point = .recv from point)]
        simp only [settle, List.getLast?_append_of_ne_nil _ present, latest,
          List.dropLast_append_of_ne_nil present, List.eraseIdx_eq_dropLast last]
      · cases heard
  | deliver position created =>
      obtain ⟨last, answered⟩ := fair
      obtain ⟨request, found, taken⟩ := Option.bind_eq_some_iff.mp moves
      simp only at taken
      split at taken
      · cases taken
        left
        have split' : world.requests = world.requests.eraseIdx position ++ [request] := by
          rw [List.eraseIdx_eq_dropLast last]
          refine (List.dropLast_append_getLast? request ?_).symm
          rw [List.getLast?_eq_getElem?, ← last, Nat.add_sub_cancel]
          exact found
        refine ⟨?_, rfl, ?_⟩
        · rw [answered request found]
          exact settle_deliver split'
        · rw [List.eraseIdx_eq_dropLast last, List.length_dropLast, ← last]
          rfl
      · cases taken
  | loseRequest _ | loseResponse _ | nextRun _ => exact fair.elim

end Settling

section Ranks

variable {world next : World} {rank : Nat}

/-- The settled steps come to the end of the run. -/
def Arrives (world : World) : Prop := ∃ count, AllCounted (settledStep^[count] world).sender

def Ranked (rank : Nat) (world : World) : Prop :=
  ∃ count, AllCounted (settledStep^[count] (settle world)).sender ∧
    2 * count + world.requests.length ≤ rank

theorem arrives_ranked (arrives : Arrives (settle world)) : ∃ rank, Ranked rank world := by
  obtain ⟨count, counted⟩ := arrives
  exact ⟨_, count, counted, Nat.le_refl _⟩

theorem arrives_step (arrives : Arrives (settledStep world)) : Arrives world := by
  obtain ⟨count, counted⟩ := arrives
  exact ⟨count + 1, counted⟩

theorem arrives_onward (arrives : Arrives world) (open' : ¬ AllCounted world.sender) :
    Arrives (settledStep world) := by
  obtain ⟨count, counted⟩ := arrives
  cases count with
  | zero => exact absurd counted open'
  | succ count => exact ⟨count, counted⟩

theorem ranked_moves (ranked : Ranked rank world) (open' : ¬ AllCounted world.sender) :
    settledStep (settle world) ≠ settle world := by
  intro fixed
  obtain ⟨count, counted, -⟩ := ranked
  rw [Function.iterate_fixed fixed] at counted
  exact open' counted

theorem ended_fixed (none' : world.requests = []) (final : Final world.sender) :
    settledStep world = world := by
  have same : step world.sender noError = world.sender := by
    rcases final with point | point <;> rw [step, point]
  have silent : transmitted world noError = [] := if_neg fun sends => by
    rcases final with point | point <;> cases point.symm.trans sends.1
  have deaf : world.sender.point ≠ .recv := by
    rcases final with point | point <;> rw [point] <;> decide
  rw [settledStep, if_neg deaf, same, silent]
  exact settle_idle none'

theorem deliver_possible {earlier : List Request} {request : Request}
    (oldest : world.requests = earlier ++ [request]) :
    ∃ action next, Reliable world action ∧ worldStep world action = some next := by
  have found : world.requests[earlier.length]? = some request := by
    rw [oldest, List.getElem?_concat_length]
  have fair : Reliable world (.deliver earlier.length
      (honest (Request.place request :: world.received) request)) := by
    constructor
    · rw [oldest, List.length_append, List.length_singleton]
    · intro other member
      cases found.symm.trans member
      rfl
  have whole : honest (Request.place request :: world.received) request = true →
      Delivered ((request.run, request.slot) :: world.received) request.run (request.slot / 10) :=
    of_decide_eq_true
  exact ⟨_, _, fair, by rw [worldStep, found, Option.bind_some]; exact if_pos whole⟩

theorem ranked_possible (ranked : Ranked rank world) (open' : ¬ AllCounted world.sender) :
    ∃ action next, Reliable world action ∧ worldStep world action = some next := by
  have moves := ranked_moves ranked open'
  cases requests : world.requests using List.reverseRecOn with
  | append_singleton earlier request => exact deliver_possible requests
  | nil =>
      rw [settle_idle requests] at moves
      by_cases point : world.sender.point = .recv
      · cases latest : world.responses.getLast? with
        | none =>
            rw [settledStep, if_pos point, latest] at moves
            exact absurd rfl moves
        | some response =>
            have present : 0 < world.responses.length :=
              List.length_pos_of_mem (List.mem_of_getLast? latest)
            rw [List.getLast?_eq_getElem?] at latest
            have heard : (worldStep world (.hear (world.responses.length - 1))).isSome = true := by
              simp only [worldStep, latest, Option.bind_some, point, ↓reduceIte, Option.isSome_some]
            obtain ⟨next, moved⟩ := Option.isSome_iff_exists.mp heard
            exact ⟨.hear (world.responses.length - 1), next, Nat.sub_add_cancel present, moved⟩
      · have running : ¬ Final world.sender := fun final => moves (ended_fixed requests final)
        have unheard : Unheard noError := fun _ member => by cases member
        have called : (worldStep world (.call noError)).isSome = true := by
          rw [worldStep, if_pos unheard]
          rfl
        obtain ⟨next, moved⟩ := Option.isSome_iff_exists.mp called
        exact ⟨.call noError, next, ⟨by decide, by decide, rfl, point, running⟩, moved⟩

theorem ranked_lower (ranked : Ranked rank world) (open' : ¬ AllCounted world.sender)
    {action : Action} (fair : Reliable world action) (moves : worldStep world action = some next) :
    ∃ smaller < rank, Ranked smaller next := by
  obtain ⟨count, counted, small⟩ := ranked
  rcases reliable_settles fair moves with ⟨same, -, fewer⟩ | ⟨settled, more⟩
  · rw [← same] at counted
    exact ⟨2 * count + next.requests.length, by omega, count, counted, Nat.le_refl _⟩
  · cases count with
    | zero => exact absurd counted open'
    | succ count =>
        rw [Function.iterate_succ_apply, ← settled] at counted
        exact ⟨2 * count + next.requests.length, by omega, count, counted, Nat.le_refl _⟩

end Ranks

section Passes

variable {world next : World}

structure Sending (world : World) : Prop where
  head : world.sender.point = .head
  more : world.sender.x ≤ world.sender.lastMsg
  last : world.sender.lastMsg ≤ 9
  block : world.sender.i < 6
  open' : world.sender.recvPayload.testBit world.sender.lastMsg = false
  settled : world.requests = []

def message (world : World) : Request :=
  ⟨world.run, 10 * world.sender.i + world.sender.x, world.sender.confirmable⟩

def passed (world : World) : World :=
  let received := Request.place (message world) :: world.received
  { world with
    sender := { world.sender with
      x := world.sender.x + 1
      conToken := if world.sender.confirmable then 10 * world.sender.i + world.sender.x
        else world.sender.conToken }
    responses := replies received (message world) (honest received (message world)) ++ world.responses
    received := received }

theorem quiet_settled (silent : world.sender.point ≠ .recv) (unsent : world.sender.point ≠ .send)
    (settled : world.requests = []) :
    settledStep world = { world with sender := step world.sender noError } := by
  have none' : transmitted world noError = [] := if_neg fun sends => unsent sends.1
  rw [settledStep, if_neg silent, none', List.nil_append]
  exact settle_idle settled

theorem send_settled (point : world.sender.point = .send) (settled : world.requests = []) :
    settledStep world = settle { world with
      sender := { world.sender with
        point := .wait
        conToken := if world.sender.confirmable then world.sender.index else world.sender.conToken }
      requests := [⟨world.run, world.sender.index, world.sender.confirmable⟩] } := by
  have sent : transmitted world noError =
      [⟨world.run, world.sender.index, world.sender.confirmable⟩] := if_pos ⟨point, by decide⟩
  rw [settledStep, if_neg (by rw [point]; decide), sent, settled, List.append_nil, step, point]
  rfl

theorem head_settled (head : world.sender.point = .head) (settled : world.requests = []) :
    settledStep world = { world with sender := stepHead world.sender } := by
  rw [quiet_settled (by rw [head]; decide) (by rw [head]; decide) settled, step, head]

theorem message_skipped (sending : Sending world)
    (arrived : world.sender.recvPayload.testBit world.sender.x = true) :
    settledStep world = { world with sender := { world.sender with x := world.sender.x + 1 } } := by
  have more := sending.more
  have last := sending.last
  have next : (world.sender.x + 1) % 2 ^ 8 = world.sender.x + 1 := Nat.mod_eq_of_lt (by omega)
  rw [head_settled sending.head sending.settled, stepHead, if_pos (Nat.lt_succ_of_le more),
    if_pos (show checkList _ _ = true from arrived), next]

theorem message_offered (sending : Sending world)
    (missing : world.sender.recvPayload.testBit world.sender.x = false) :
    settledStep world = { world with sender := { world.sender with point := .send } } := by
  rw [head_settled sending.head sending.settled, stepHead, if_pos (Nat.lt_succ_of_le sending.more),
    if_neg (by rw [checkList, missing]; decide)]

theorem message_passed (sending : Sending world)
    (missing : world.sender.recvPayload.testBit world.sender.x = false) :
    settledStep^[3] world = passed world := by
  have more := sending.more
  have last := sending.last
  have block := sending.block
  have next : (world.sender.x + 1) % 2 ^ 8 = world.sender.x + 1 := Nat.mod_eq_of_lt (by omega)
  have index : world.sender.index = 10 * world.sender.i + world.sender.x := by
    rw [Sender.index, Nat.mod_eq_of_lt (by omega)]
    omega
  have fine : ¬ (0 : Int) < 0 := by decide
  have offered := message_offered sending missing
  have sent := @send_settled { world with sender := { world.sender with point := .send } } rfl
    sending.settled
  rw [Function.iterate_succ_apply, offered, Function.iterate_succ_apply, sent,
    Function.iterate_succ_apply, Function.iterate_zero_apply, quiet_settled]
  · have kept : ({ world.sender with point := .send } : Sender).index = world.sender.index := rfl
    have same : ({ world.sender with point := .send } : Sender).confirmable =
        world.sender.confirmable := rfl
    simp only [settle, step, stepWait, noError, passed, message, answersTo, fine, next, kept, same,
      index, sending.head, sending.settled, ↓reduceIte, List.map_cons, List.map_nil, List.nil_append,
      List.append_nil, List.cons_append]
  · show Point.wait ≠ .recv
    decide
  · show Point.wait ≠ .send
    decide
  · rfl

theorem arrives_steps (count : Nat) (arrives : Arrives (settledStep^[count] world)) :
    Arrives world := by
  obtain ⟨more, counted⟩ := arrives
  exact ⟨more + count, by rwa [Function.iterate_add_apply]⟩

structure Fresh (world : World) (response : Response) : Prop where
  run : response.run = world.run
  slot : response.slot = 10 * world.sender.i + world.sender.lastMsg
  created : response.created = decide (Delivered world.received world.run world.sender.i)
  bitmap : response.bitmap = receivedBitmap world.received world.run world.sender.i

/-- The world at the end of a round: what the bitmap left open has arrived, and one
answer more is on its way. -/
structure Listens (world next : World) : Prop where
  sender : next.sender = { world.sender with
    point := .recv
    x := world.sender.lastMsg + 1
    conToken := 10 * world.sender.i + world.sender.lastMsg }
  run : next.run = world.run
  settled : next.requests = []
  kept : ∀ place ∈ world.received, place ∈ next.received
  sent : ∀ k, world.sender.x ≤ k → k ≤ world.sender.lastMsg →
    world.sender.recvPayload.testBit k = false → (world.run, 10 * world.sender.i + k) ∈ next.received
  answered : ∃ response, next.responses = response :: world.responses ∧ Fresh next response

theorem last_listens (sending : Sending world) (last : world.sender.x = world.sender.lastMsg) :
    Listens world (settledStep (passed world)) := by
  have token : world.sender.confirmable = true := decide_eq_true (Nat.le_of_eq last.symm)
  have slot : (message world).slot = 10 * world.sender.i + world.sender.lastMsg :=
    congrArg (10 * world.sender.i + ·) last
  have block : (message world).slot / 10 = world.sender.i := by
    have small := sending.last
    omega
  have done : ¬ (passed world).sender.x < (passed world).sender.lastMsg + 1 :=
    Nat.not_lt_of_le (Nat.succ_le_succ (Nat.le_of_eq last.symm))
  have head : (passed world).sender.point = .head := sending.head
  have listens : settledStep (passed world) =
      { passed world with sender := { (passed world).sender with point := .recv } } := by
    rw [head_settled head sending.settled, stepHead, if_neg done]
  rw [listens]
  refine ⟨?_, rfl, sending.settled, fun place member => List.mem_cons_of_mem _ member, ?_, ?_⟩
  · simp only [passed, token, last, ↓reduceIte]
  · intro k low high _
    have same : k = world.sender.x := by omega
    rw [same]
    exact List.mem_cons_self
  · refine ⟨⟨world.run, (message world).slot, honest (passed world).received (message world),
      receivedBitmap (passed world).received world.run ((message world).slot / 10)⟩, ?_, rfl, slot,
      ?_, ?_⟩
    · show replies _ (message world) _ ++ world.responses = _
      rw [replies, if_pos (show (message world).confirmable = true from token)]
      rfl
    · show decide (Delivered _ world.run ((message world).slot / 10)) = _
      rw [block]
      rfl
    · show receivedBitmap _ world.run ((message world).slot / 10) = _
      rw [block]
      rfl

theorem listens_skipped {later : World}
    (arrived : world.sender.recvPayload.testBit world.sender.x = true)
    (listens : Listens { world with sender := { world.sender with x := world.sender.x + 1 } } later) :
    Listens world later where
  sender := listens.sender
  run := listens.run
  settled := listens.settled
  kept := listens.kept
  sent := by
    intro k low high missing
    have other : world.sender.x ≠ k := fun same => by
      rw [← same, arrived] at missing
      cases missing
    exact listens.sent k (Nat.lt_of_le_of_ne low other) high missing
  answered := listens.answered

theorem listens_passed {later : World} (before : world.sender.x < world.sender.lastMsg)
    (listens : Listens (passed world) later) : Listens world later where
  sender := listens.sender
  run := listens.run
  settled := listens.settled
  kept := fun place member => listens.kept place (List.mem_cons_of_mem _ member)
  sent := by
    intro k low high missing
    rcases Nat.lt_or_eq_of_le low with later | same
    · exact listens.sent k later high missing
    · rw [← same]
      exact listens.kept _ List.mem_cons_self
  answered := by
    obtain ⟨response, answers, fresh⟩ := listens.answered
    have silent : ¬ (message world).confirmable = true :=
      fun confirmable => Nat.not_le_of_lt before (of_decide_eq_true confirmable)
    refine ⟨response, ?_, fresh⟩
    rw [answers]
    show response :: (replies _ (message world) _ ++ world.responses) = _
    rw [replies, if_neg silent, List.nil_append]

theorem round_arrives (after : ∀ later, Listens world later → Arrives later)
    (sending : Sending world) : Arrives world := by
  obtain ⟨left, count⟩ : ∃ left, world.sender.x + left = world.sender.lastMsg :=
    ⟨_, Nat.add_sub_cancel' sending.more⟩
  induction left generalizing world with
  | zero =>
      have last : world.sender.x = world.sender.lastMsg := count
      have missing : world.sender.recvPayload.testBit world.sender.x = false := by
        rw [last]
        exact sending.open'
      apply arrives_steps 3
      rw [message_passed sending missing]
      exact arrives_step (after _ (last_listens sending last))
  | succ left ih =>
      have before : world.sender.x < world.sender.lastMsg := by omega
      have rest : world.sender.x + 1 + left = world.sender.lastMsg := by omega
      cases arrived : world.sender.recvPayload.testBit world.sender.x with
      | true =>
          apply arrives_step
          rw [message_skipped sending arrived]
          exact ih (fun later listens => after later (listens_skipped arrived listens))
            { sending with more := before } rest
      | false =>
          apply arrives_steps 3
          rw [message_passed sending arrived]
          exact ih (fun later listens => after later (listens_passed before listens))
            { sending with more := before } rest

end Passes

section Answers

variable {received more : List (Nat × Nat)} {number : Nat} {run : Sender} {response : Response}

/-- What the round will not send has arrived. -/
def Assured (received : List (Nat × Nat)) (number : Nat) (run : Sender) : Prop :=
  ∀ k < 10, run.recvPayload.testBit k = true ∨ run.lastMsg < k → (number, 10 * run.i + k) ∈ received

instance (received : List (Nat × Nat)) (number : Nat) (run : Sender) :
    Decidable (Assured received number run) :=
  inferInstanceAs (Decidable (∀ k < 10, _))

/-- The answer is one to this run, and what it marks has arrived. -/
def Trusted (received : List (Nat × Nat)) (number : Nat) (response : Response) : Prop :=
  response.run = number ∧ ∀ k < 10, response.bitmap.testBit k = true →
    (number, 10 * (response.slot / 10) + k) ∈ received

instance (received : List (Nat × Nat)) (number : Nat) (response : Response) :
    Decidable (Trusted received number response) :=
  inferInstanceAs (Decidable (_ ∧ ∀ k < 10, _))

def EndsBlock (block : Nat) (response : Response) : Prop :=
  response.slot / 10 = block ∧ (response.created = true ∨ response.bitmap = 0x3ff)

instance (block : Nat) (response : Response) : Decidable (EndsBlock block response) :=
  inferInstanceAs (Decidable (_ ∧ _))

theorem trusted_mono (kept : ∀ place ∈ received, place ∈ more)
    (trusted : Trusted received number response) : Trusted more number response :=
  ⟨trusted.1, fun k below marked => kept _ (trusted.2 k below marked)⟩

theorem trusted_assured (trusted : Trusted received number response)
    (block : response.slot / 10 = run.i) (taken : run.recvPayload = response.bitmap)
    (last : run.lastMsg = getmsgCount response.bitmap) : Assured received number run := by
  intro k below skipped
  rw [← block]
  apply trusted.2 k below
  rcases skipped with marked | above
  · rwa [← taken]
  · exact getmsg_count_greatest (last ▸ above) below

theorem fresh_block {world : World} (last : world.sender.lastMsg ≤ 9) (fresh : Fresh world response) :
    response.slot / 10 = world.sender.i := by
  rw [fresh.slot]
  omega

theorem fresh_trusted {world : World} (last : world.sender.lastMsg ≤ 9)
    (fresh : Fresh world response) : Trusted world.received world.run response := by
  refine ⟨fresh.run, fun k below marked => ?_⟩
  rw [fresh.bitmap, receivedBitmap, Nat.testBit_ofBits_lt _ k below] at marked
  rw [fresh_block last fresh]
  exact of_decide_eq_true marked

/-- A round that sends all that has not arrived is answered by the end of the block. -/
theorem listens_ends {world later : World} (assured : Assured world.received world.run world.sender)
    (first : world.sender.x = 0) (last : world.sender.lastMsg ≤ 9) (listens : Listens world later)
    (fresh : Fresh later response) : EndsBlock world.sender.i response := by
  have same : later.sender.i = world.sender.i := by rw [listens.sender]
  have small : later.sender.lastMsg ≤ 9 := by
    rw [listens.sender]
    exact last
  have block := (fresh_block small fresh).trans same
  refine ⟨block, Or.inl ?_⟩
  rw [fresh.created]
  refine decide_eq_true fun k below => ?_
  rw [listens.run, same]
  by_cases skipped : world.sender.recvPayload.testBit k = true ∨ world.sender.lastMsg < k
  · exact listens.kept _ (assured k below skipped)
  · rw [not_or, Bool.not_eq_true, Nat.not_lt] at skipped
    exact listens.sent k (first ▸ Nat.zero_le k) skipped.2 skipped.1

inductive Heard (run : Sender) (response : Response) : Sender → Prop where
  | ended (token : response.slot = run.conToken)
      (ends : response.created = true ∨ response.bitmap = 0x3ff) :
      Heard run response (enterBlock { run with lastMsg := 9, i := run.i + 1, recvPayload := 0 })
  | taken (token : response.slot = run.conToken) (open' : response.created = false)
      (missing : response.bitmap ≠ 0x3ff) :
      Heard run response (enterBlock { run with
        recvPayload := response.bitmap, lastMsg := getmsgCount response.bitmap })
  | refused (other : response.slot ≠ run.conToken) : Heard run response (enterBlock run)

theorem response_code (response : Response) :
    response.datagram.code = coapResponseCodeCreated ∨
      response.datagram.code = coapResponseCodeBadRequest := by
  rw [Response.datagram]
  cases response.created
  · exact Or.inr rfl
  · exact Or.inl rfl

theorem step_heard (point : run.point = .recv) (budget : run.tries < 3) (awaited : run.conToken < 256)
    (slot : response.slot < 256) (small : response.bitmap < 2 ^ 10) :
    Heard run response (step run ⟨0, 0, 0, some response.datagram⟩) := by
  have moved := step_moved run ⟨0, 0, 0, some response.datagram⟩
  generalize step run ⟨0, 0, 0, some response.datagram⟩ = next at moved ⊢
  cases moved with
  | rejected _ received refused =>
      cases received
      refine .refused fun same => refused ⟨⟨Int.lt_irrefl 0, ?_⟩, response_code response⟩
      rw [Response.datagram, same]
  | incomplete _ received awaits code missing =>
      cases received
      have token := Delivery.token_bytes_injective slot awaited awaits.2
      have open' : response.created = false := by
        cases created : response.created with
        | false => rfl
        | true =>
            simp only [Response.datagram, created] at code
            exact absurd code (by decide)
      rw [Delivery.datagram_bitmap open' small] at missing ⊢
      exact .taken token open' missing
  | givenUp _ _ _ spent => exact absurd budget spent
  | advance _ received completes =>
      cases received
      obtain ⟨token, ends⟩ := Delivery.completes_heard awaited slot small completes
      exact .ended token ends
  | broken _ none' => cases none'
  | ended final => rcases final with final | final <;> cases point.symm.trans final
  | skip here | offer here | listen here | unsent here | sendReset here | sent here | timeout here
  | reconnect here | waitReset here | waited here | connected here | connectReset here =>
      cases point.symm.trans here

end Answers

section Rounds

variable {world later : World} {front : List Response} {response oldest : Response}

structure Ready (world : World) : Prop where
  sending : Sending world
  budget : world.sender.tries < 3
  small : ∀ response ∈ world.responses, response.slot < 256 ∧ response.bitmap < 2 ^ 10

/-- Answers that may mislead the run, and the bitmap that already may. -/
def doubt (world : World) : Nat :=
  2 * world.responses.countP (fun response => !decide (Trusted world.received world.run response)) +
    if Assured world.received world.run world.sender then 0 else 1

/-- Answers on the way that leave the block open. -/
def lag (world : World) : Nat :=
  if Assured world.received world.run world.sender then
    world.responses.countP fun response => !decide (EndsBlock world.sender.i response)
  else 0

/-- The answers before the first one that is awaited. -/
def delay (world : World) : Nat :=
  world.responses.reverse.findIdx fun response =>
    decide (response.slot = 10 * world.sender.i + world.sender.lastMsg)

def weight (world : World) : Nat ×ₗ Nat ×ₗ Nat ×ₗ Nat :=
  toLex (blockCount - world.sender.i, toLex (doubt world, toLex (lag world, delay world)))

theorem weight_lower {first second : World} (block : first.sender.i = second.sender.i)
    (lower : doubt first < doubt second ∨ doubt first ≤ doubt second ∧
      (lag first < lag second ∨ lag first ≤ lag second ∧ delay first < delay second)) :
    weight first < weight second := by
  refine Prod.Lex.toLex_lt_toLex'.mpr ⟨Nat.le_of_eq (congrArg (blockCount - ·) block), fun _ => ?_⟩
  rcases lower with less | ⟨doubts, less | ⟨lags, less⟩⟩
  · exact Prod.Lex.toLex_lt_toLex.mpr (Or.inl less)
  · exact Prod.Lex.toLex_lt_toLex'.mpr
      ⟨doubts, fun _ => Prod.Lex.toLex_lt_toLex.mpr (Or.inl less)⟩
  · exact Prod.Lex.toLex_lt_toLex'.mpr
      ⟨doubts, fun _ => Prod.Lex.toLex_lt_toLex'.mpr ⟨lags, fun _ => less⟩⟩

theorem weight_block {first second : World} (block : first.sender.i = second.sender.i + 1)
    (inside : second.sender.i < 6) : weight first < weight second := by
  have fewer : blockCount - first.sender.i < blockCount - second.sender.i := by
    show 6 - first.sender.i < 6 - second.sender.i
    omega
  exact Prod.Lex.toLex_lt_toLex.mpr (Or.inl fewer)

theorem count_shifted (before after : Response → Bool) {responses : List Response}
    (split : response :: responses = front ++ [oldest]) (fresh : after response = false)
    (fewer : ∀ other ∈ responses, after other = true → before other = true) :
    front.countP after + (if after oldest then 1 else 0) ≤ responses.countP before := by
  have whole := congrArg (List.countP after) split
  have mono := List.countP_mono_left fewer
  simp only [List.countP_cons, fresh, List.countP_append, List.countP_nil, Bool.false_eq_true,
    ↓reduceIte] at whole
  omega

theorem index_shifted (kind : Response → Bool) {responses : List Response}
    (split : response :: responses = front ++ [oldest]) (fresh : kind response = true)
    (other : kind oldest = false) :
    front.reverse.findIdx kind < responses.reverse.findIdx kind := by
  have turned := congrArg List.reverse split
  rw [List.reverse_cons, List.reverse_append, List.reverse_singleton, List.singleton_append] at turned
  cases behind : responses.reverse with
  | nil =>
      rw [behind, List.nil_append] at turned
      rw [(List.cons.inj turned).1, other] at fresh
      cases fresh
  | cons first rest =>
      rw [behind, List.cons_append] at turned
      obtain ⟨same, tail⟩ := List.cons.inj turned
      have inside : rest.findIdx kind ≤ rest.length := List.findIdx_le_length
      rw [← tail, same, List.findIdx_cons, other, List.findIdx_append, List.findIdx_cons, fresh]
      simp only [cond_false, cond_true]
      split <;> omega

/-- The answer that is heard at the end of the round, and what stays behind. -/
structure Oldest (world later : World) (front : List Response) (oldest : Response) : Prop where
  ready : Ready world
  listens : Listens world later
  split : later.responses = front ++ [oldest]

theorem oldest_small (heard : Oldest world later front oldest) :
    ∀ response ∈ later.responses, response.slot < 256 ∧ response.bitmap < 2 ^ 10 := by
  obtain ⟨new, answers, fresh⟩ := heard.listens.answered
  have block := heard.ready.sending.block
  have last := heard.ready.sending.last
  intro response member
  rw [answers] at member
  rcases List.mem_cons.mp member with rfl | old
  · rw [fresh.slot, fresh.bitmap, heard.listens.sender]
    exact ⟨by show 10 * world.sender.i + world.sender.lastMsg < 256; omega,
      Delivery.received_bitmap_small _ _ _⟩
  · exact heard.ready.small response old

theorem doubts_shifted (heard : Oldest world later front oldest) :
    front.countP (fun response => !decide (Trusted later.received later.run response)) +
        (if Trusted later.received later.run oldest then 0 else 1) ≤
      world.responses.countP fun response => !decide (Trusted world.received world.run response) := by
  obtain ⟨new, answers, fresh⟩ := heard.listens.answered
  have last : later.sender.lastMsg ≤ 9 := by
    rw [heard.listens.sender]
    exact heard.ready.sending.last
  have shifted := count_shifted
    (fun response => !decide (Trusted world.received world.run response))
    (fun response => !decide (Trusted later.received later.run response))
    (answers.symm.trans heard.split) (by simp [fresh_trusted last fresh]) (by
      intro other _ doubted
      rw [Bool.not_eq_true', decide_eq_false_iff_not] at doubted ⊢
      intro trusted
      rw [heard.listens.run] at doubted
      exact doubted (trusted_mono heard.listens.kept trusted))
  by_cases trusted : Trusted later.received later.run oldest <;> simpa [trusted] using shifted

/-- Behind a round that sends all that has not arrived, answers that leave the block open
are not added. -/
theorem lags_shifted (heard : Oldest world later front oldest) (first : world.sender.x = 0)
    (assured : Assured world.received world.run world.sender) :
    front.countP (fun response => !decide (EndsBlock world.sender.i response)) +
        (if EndsBlock world.sender.i oldest then 0 else 1) ≤
      world.responses.countP fun response => !decide (EndsBlock world.sender.i response) := by
  obtain ⟨new, answers, fresh⟩ := heard.listens.answered
  have ends := listens_ends assured first heard.ready.sending.last heard.listens fresh
  have shifted := count_shifted
    (fun response => !decide (EndsBlock world.sender.i response))
    (fun response => !decide (EndsBlock world.sender.i response))
    (answers.symm.trans heard.split) (by simp [ends]) fun _ _ open' => open'
  by_cases ended : EndsBlock world.sender.i oldest <;> simpa [ended] using shifted

/-- The round is started again, as it was or by the bitmap that was heard. -/
structure Again (later : World) (front : List Response) (next : World) : Prop where
  block : next.sender.i = later.sender.i
  run : next.run = later.run
  received : next.received = later.received
  responses : next.responses = front

theorem doubt_again {next : World} (again : Again later front next) :
    doubt next = 2 * front.countP (fun response =>
        !decide (Trusted later.received later.run response)) +
      if Assured later.received later.run next.sender then 0 else 1 := by
  rw [doubt, again.run, again.received, again.responses]

theorem lag_again {next : World} (again : Again later front next) :
    lag next = if Assured later.received later.run next.sender then
        front.countP fun response => !decide (EndsBlock later.sender.i response)
      else 0 := by
  rw [lag, again.run, again.received, again.responses, again.block]

theorem taken_lower (heard : Oldest world later front oldest) (first : world.sender.x = 0)
    {next : World} (again : Again later front next) (taken : next.sender.recvPayload = oldest.bitmap)
    (last : next.sender.lastMsg = getmsgCount oldest.bitmap)
    (block : oldest.slot / 10 = later.sender.i) (open' : ¬ EndsBlock world.sender.i oldest) :
    weight next < weight world := by
  have same : later.sender.i = world.sender.i := by rw [heard.listens.sender]
  have doubts := doubts_shifted heard
  apply weight_lower (again.block.trans same)
  rw [doubt_again again, doubt, lag_again again, lag, same]
  by_cases trusted : Trusted later.received later.run oldest
  · have assured := trusted_assured trusted (block.trans again.block.symm) taken last
    rw [if_pos trusted] at doubts
    by_cases before : Assured world.received world.run world.sender
    · have lags := lags_shifted heard first before
      rw [if_neg open'] at lags
      rw [if_pos assured, if_pos assured, if_pos before, if_pos before]
      exact Or.inr ⟨by omega, Or.inl lags⟩
    · rw [if_pos assured, if_neg before]
      exact Or.inl (by omega)
  · rw [if_neg trusted] at doubts
    left
    split <;> split <;> omega

theorem refused_lower (heard : Oldest world later front oldest) (first : world.sender.x = 0)
    {next : World} (again : Again later front next)
    (bitmap : next.sender.recvPayload = world.sender.recvPayload)
    (last : next.sender.lastMsg = world.sender.lastMsg)
    (other : oldest.slot ≠ 10 * world.sender.i + world.sender.lastMsg) :
    weight next < weight world := by
  have same : later.sender.i = world.sender.i := by rw [heard.listens.sender]
  have block := again.block.trans same
  have doubts := doubts_shifted heard
  have kept (before : Assured world.received world.run world.sender) :
      Assured later.received later.run next.sender := by
    intro k below skipped
    rw [bitmap, last] at skipped
    rw [block, heard.listens.run]
    exact heard.listens.kept _ (before k below skipped)
  have nearer : delay next < delay world := by
    obtain ⟨new, answers, fresh⟩ := heard.listens.answered
    have token := fresh.slot
    rw [heard.listens.sender] at token
    rw [delay, delay, again.responses, block, last]
    exact index_shifted _ (answers.symm.trans heard.split) (decide_eq_true token)
      (decide_eq_false other)
  apply weight_lower block
  rw [doubt_again again, doubt, lag_again again, lag, same]
  by_cases before : Assured world.received world.run world.sender
  · have lags := lags_shifted heard first before
    rw [if_pos (kept before), if_pos (kept before), if_pos before, if_pos before]
    exact Or.inr ⟨by omega, Or.inr ⟨by omega, nearer⟩⟩
  · rw [if_neg before, if_neg before]
    by_cases assured : Assured later.received later.run next.sender
    · rw [if_pos assured]
      exact Or.inl (by omega)
    · rw [if_neg assured, if_neg assured]
      exact Or.inr ⟨by omega, Or.inr ⟨Nat.le_refl 0, nearer⟩⟩

def behind (later : World) (front : List Response) (run : Sender) : World :=
  { later with sender := run, responses := front }

theorem oldest_heard (heard : Oldest world later front oldest) :
    settledStep later =
      behind later front (step later.sender ⟨0, 0, 0, some oldest.datagram⟩) := by
  have point : later.sender.point = .recv := by rw [heard.listens.sender]
  rw [settledStep, if_pos point, heard.split, List.getLast?_concat, List.dropLast_concat]
  rfl

theorem ready_behind (heard : Oldest world later front oldest) {run : Sender} (inside : run.i < 6)
    (last : run.lastMsg ≤ 9) (open' : run.recvPayload.testBit run.lastMsg = false)
    (budget : run.tries < 3) : Ready (behind later front { run with point := .head, x := 0 }) where
  sending := ⟨rfl, Nat.zero_le _, last, inside, open', heard.listens.settled⟩
  budget := budget
  small := fun response member => oldest_small heard response (by
    rw [heard.split]
    exact List.mem_append_left _ member)

/-- Where an answer leaves the run: at the end, in the next block, or in another round. -/
inductive Resumes (world later : World) (front : List Response) (oldest : Response) : World → Prop where
  | finished {next : World} (counted : AllCounted next.sender) : Resumes world later front oldest next
  | advanced {next : World} (ready : Ready next) (first : next.sender.x = 0)
      (block : next.sender.i = world.sender.i + 1) : Resumes world later front oldest next
  | taken {next : World} (ready : Ready next) (first : next.sender.x = 0)
      (again : Again later front next) (taken : next.sender.recvPayload = oldest.bitmap)
      (last : next.sender.lastMsg = getmsgCount oldest.bitmap)
      (block : oldest.slot / 10 = later.sender.i) (open' : ¬ EndsBlock world.sender.i oldest) :
      Resumes world later front oldest next
  | refused {next : World} (ready : Ready next) (first : next.sender.x = 0)
      (again : Again later front next) (bitmap : next.sender.recvPayload = world.sender.recvPayload)
      (last : next.sender.lastMsg = world.sender.lastMsg)
      (other : oldest.slot ≠ 10 * world.sender.i + world.sender.lastMsg) :
      Resumes world later front oldest next

theorem oldest_resumes (heard : Oldest world later front oldest) :
    Resumes world later front oldest (settledStep later) := by
  have sender := heard.listens.sender
  have block : later.sender.i = world.sender.i := by rw [sender]
  have last : later.sender.lastMsg = world.sender.lastMsg := by rw [sender]
  have bitmap : later.sender.recvPayload = world.sender.recvPayload := by rw [sender]
  have tries : later.sender.tries = world.sender.tries := by rw [sender]
  have awaited : later.sender.conToken = 10 * world.sender.i + world.sender.lastMsg := by rw [sender]
  have inside := heard.ready.sending.block
  have low := heard.ready.sending.last
  have budget := heard.ready.budget
  obtain ⟨slot, small⟩ := oldest_small heard oldest (by rw [heard.split]; simp)
  have answer := step_heard (show later.sender.point = .recv by rw [sender])
    (tries ▸ budget) (by omega) slot small
  rw [oldest_heard heard]
  generalize step later.sender ⟨0, 0, 0, some oldest.datagram⟩ = next at answer ⊢
  cases answer with
  | ended token ends =>
      rcases enter_block_cases { later.sender with
        lastMsg := 9, i := later.sender.i + 1, recvPayload := 0 } with ⟨more, entered⟩ | ⟨past, entered⟩
      · rw [entered]
        exact .advanced
          (ready_behind heard more (Nat.le_refl 9) (Nat.zero_testBit 9) (tries ▸ budget)) rfl
          (congrArg (· + 1) block)
      · have past : ¬ later.sender.i + 1 < 6 := past
        have whole : later.sender.i + 1 = 6 := by omega
        rw [entered]
        exact .finished ⟨rfl, whole⟩
  | taken token open' missing =>
      have clear := (wide_or_clear oldest.bitmap missing).resolve_left
        (Delivery.small_not_wide small)
      obtain ⟨final, unset⟩ := getmsg_count_clear clear
      rcases enter_block_cases { later.sender with
        recvPayload := oldest.bitmap, lastMsg := getmsgCount oldest.bitmap } with
        ⟨-, entered⟩ | ⟨past, -⟩
      · rw [entered]
        refine .taken (ready_behind heard (block ▸ inside) final unset (tries ▸ budget)) rfl
          ⟨rfl, rfl, rfl, rfl⟩ rfl rfl ?_ ?_
        · rw [token, awaited, block]
          omega
        · rintro ⟨-, created | full⟩
          · exact absurd (open'.symm.trans created) Bool.false_ne_true
          · exact missing full
      · exact absurd (show later.sender.i < 6 from block ▸ inside) past
  | refused other =>
      have open' : later.sender.recvPayload.testBit later.sender.lastMsg = false := by
        rw [bitmap, last]
        exact heard.ready.sending.open'
      rcases enter_block_cases later.sender with ⟨-, entered⟩ | ⟨past, -⟩
      · rw [entered]
        exact .refused (ready_behind heard (block ▸ inside) (last ▸ low) open' (tries ▸ budget)) rfl
          ⟨rfl, rfl, rfl, rfl⟩ bitmap last (awaited ▸ other)
      · exact absurd (show later.sender.i < 6 from block ▸ inside) past

theorem listens_oldest (ready : Ready world) (listens : Listens world later) :
    ∃ front oldest, Oldest world later front oldest := by
  obtain ⟨new, answers, -⟩ := listens.answered
  have present : later.responses ≠ [] := answers ▸ List.cons_ne_nil _ _
  exact ⟨_, _, ready, listens, (List.dropLast_concat_getLast present).symm⟩

/-- From the start of a round on: the rounds use up the answers that mislead or delay. -/
theorem start_arrives (ready : Ready world) (first : world.sender.x = 0) : Arrives world := by
  induction world using (InvImage.wf weight wellFounded_lt).induction with
  | _ world ih =>
      refine round_arrives (fun later listens => ?_) ready.sending
      obtain ⟨front, oldest, heard⟩ := listens_oldest ready listens
      apply arrives_step
      cases oldest_resumes heard with
      | finished counted => exact ⟨0, counted⟩
      | advanced ready' first' block =>
          exact ih _ (weight_block block ready.sending.block) ready' first'
      | taken ready' first' again taken last block open' =>
          exact ih _ (taken_lower heard first again taken last block open') ready' first'
      | refused ready' first' again bitmap last other =>
          exact ih _ (refused_lower heard first again bitmap last other) ready' first'

theorem ready_arrives (ready : Ready world) : Arrives world := by
  refine round_arrives (fun later listens => ?_) ready.sending
  obtain ⟨front, oldest, heard⟩ := listens_oldest ready listens
  apply arrives_step
  cases oldest_resumes heard with
  | finished counted => exact ⟨0, counted⟩
  | advanced ready' first' | taken ready' first' | refused ready' first' =>
      exact start_arrives ready' first'

end Rounds

section Worlds

variable {world : World}

theorem answers_small {received : List (Nat × Nat)} {requests : List Request}
    (slots : ∀ request ∈ requests, request.slot < 256) :
    ∀ response ∈ answersTo received requests, response.slot < 256 ∧ response.bitmap < 2 ^ 10 := by
  induction requests with
  | nil => exact fun _ member => absurd member List.not_mem_nil
  | cons request earlier ih =>
      obtain ⟨here, others⟩ := List.forall_mem_cons.mp slots
      intro response member
      rcases List.mem_append.mp member with new | old
      · exact (Delivery.replies_sound of_decide_eq_true here new).1
      · exact ih others response old

theorem settled_small (sound : Sound world) :
    ∀ response ∈ (settle world).responses, response.slot < 256 ∧ response.bitmap < 2 ^ 10 := by
  intro response member
  rcases List.mem_append.mp member with new | old
  · exact answers_small sound.slots response new
  · exact sound.small response old

theorem settled_ready (sound : Sound world) (head : world.sender.point = .head)
    (more : world.sender.x ≤ world.sender.lastMsg) (budget : world.sender.tries < 3) :
    Ready (settle world) := by
  obtain ⟨block, open'⟩ := sound.steady.kept.active (active_at head (by decide) (by decide))
  exact ⟨⟨head, more, sound.steady.last, block, open', rfl⟩, budget, settled_small sound⟩

theorem sends_arrives (sound : Sound world) (sends : StillSends world.sender)
    (budget : world.sender.tries < 3) : Arrives (settle world) := by
  rcases sends with point | ⟨head, more⟩
  · -- The run has just tested the message that it sends.
    have reach := sound.steady.kept.reach
    rw [Reach, point] at reach
    obtain ⟨block, open'⟩ := sound.steady.kept.active (active_at point (by decide) (by decide))
    obtain ⟨tested, same⟩ : ∃ tested, tested = { settle world with
      sender := { world.sender with point := .head } } := ⟨_, rfl⟩
    have sending : Sending tested := by
      rw [same]
      exact ⟨rfl, reach.1, sound.steady.last, block, open', rfl⟩
    have ready : Ready tested := by
      refine ⟨sending, ?_, ?_⟩
      · rw [same]
        exact budget
      · rw [same]
        exact settled_small sound
    have offered : settledStep tested = settle world := by
      rw [message_offered sending (by rw [same]; exact reach.2), same]
      simp only [← point]
      rfl
    rw [← offered]
    apply arrives_onward (ready_arrives ready)
    rw [same]
    exact fun counted => by cases counted.1
  · exact ready_arrives (settled_ready sound head more budget)

/-- Whatever happened before, a run that still sends a message and has tries left counts all
blocks when from there on nothing is lost and the order is kept, after finitely many steps
in any order. -/
theorem reliable_completes {msgIndex : Nat} (reached : Reaches worldStep (startWorld msgIndex) world)
    (sends : StillSends world.sender) (budget : world.sender.tries < 3) :
    ∃ bound, Within worldStep Reliable (fun _ _ => False) (fun world => AllCounted world.sender)
      bound world := by
  have sound : Sound world := reaches_invariant (Delivery.sound_start msgIndex)
    (fun _ _ _ sound moves => Delivery.sound_step sound moves) reached
  obtain ⟨rank, ranked⟩ := arrives_ranked (sends_arrives sound sends budget)
  exact ⟨rank, within_rank (fun _ _ ranked open' => ranked_possible ranked open')
    (fun _ _ _ _ ranked open' fair moves => ranked_lower ranked open' fair moves)
    (fun _ _ _ _ _ _ idles => idles.elim) ranked⟩

/-- Two messages are sent, one of them is lost, and the wait behind the third times out. -/
def troubled : List Action :=
  List.replicate 6 Delivery.fine ++ [.loseRequest 0, Delivery.fine, Delivery.fine, Delivery.late]

theorem reliable_completes_troubled :
    ∃ world ∈ execute worldStep (startWorld 0) troubled, world.sender.tries = 1 ∧ ∃ bound,
      Within worldStep Reliable (fun _ _ => False) (fun world => AllCounted world.sender)
        bound world := by
  have evaluated : ∃ world ∈ execute worldStep (startWorld 0) troubled,
      StillSends world.sender ∧ world.sender.tries = 1 := by decide +kernel
  obtain ⟨world, executed, sends, one⟩ := evaluated
  have reached := execute_reaches worldStep troubled .start executed
  exact ⟨world, executed, one, reliable_completes reached sends (by omega)⟩

end Worlds

end ThingyAccel.Recovery
