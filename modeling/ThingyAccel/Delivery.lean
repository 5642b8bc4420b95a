import Mathlib.Data.Nat.Init
import ThingyAccel.CoapRun
import ThingyAccel.Executions

/-!
Successive calls of `coap_send_fn`, a network that loses, delays and reorders, and a
server that answers a confirmable request by what it has received of its block.
-/
namespace ThingyAccel.Delivery

open CoapSend CoapRun Executions

/-- A request in flight: the call that sent it, its token, which is its slot, and
whether it is confirmable. -/
structure Request where
  run : Nat
  slot : Nat
  confirmable : Bool
  deriving DecidableEq, Repr

structure Response where
  run : Nat
  slot : Nat
  created : Bool
  bitmap : Nat
  deriving DecidableEq, Repr

/-- The calls are numbered, and each sends a bank of its own. The server keeps the calls
and slots it has received. -/
structure World where
  sender : Sender
  run : Nat
  requests : List Request
  responses : List Response
  received : List (Nat × Nat)
  deriving DecidableEq, Repr

inductive Action where
  | call (answer : Answer)
  | hear (position : Nat)
  | deliver (position : Nat) (created : Bool)
  | loseRequest (position : Nat)
  | loseResponse (position : Nat)
  | nextRun (msgIndex : Nat)

def Delivered (received : List (Nat × Nat)) (run block : Nat) : Prop :=
  ∀ k < 10, (run, 10 * block + k) ∈ received

instance (received : List (Nat × Nat)) (run block : Nat) :
    Decidable (Delivered received run block) :=
  inferInstanceAs (Decidable (∀ k < 10, _))

def receivedBitmap (received : List (Nat × Nat)) (run block : Nat) : Nat :=
  Nat.ofBits fun k : Fin 10 => decide ((run, 10 * block + k) ∈ received)

def Response.datagram (response : Response) : Datagram where
  parseErr := 0
  token := tokenBytes response.slot
  code := if response.created then coapResponseCodeCreated else coapResponseCodeBadRequest
  payloadLen := if response.created then 0 else 2
  payload := fun position =>
    if position = 0 then UInt8.ofNat response.bitmap else UInt8.ofNat (response.bitmap / 256)

/-- What a call into the socket may hand over without the server: nothing, or bytes
that do not parse. -/
def Unheard (answer : Answer) : Prop := ∀ datagram ∈ answer.received, datagram.parseErr < 0

instance (answer : Answer) : Decidable (Unheard answer) :=
  inferInstanceAs (Decidable (∀ datagram ∈ answer.received, _))

def transmitted (world : World) (answer : Answer) : List Request :=
  if world.sender.point = .send ∧ ¬ answer.sendErr < 0 then
    [⟨world.run, world.sender.index, world.sender.confirmable⟩]
  else []

/-- A confirmable request is answered from what has been received by then. -/
def replies (received : List (Nat × Nat)) (request : Request) (created : Bool) : List Response :=
  if request.confirmable then
    [⟨request.run, request.slot, created, receivedBitmap received request.run (request.slot / 10)⟩]
  else []

def worldStep (world : World) : Action → Option World
  | .call answer =>
      if Unheard answer then
        some { world with
          sender := step world.sender answer
          requests := transmitted world answer ++ world.requests }
      else none
  | .hear position =>
      (world.responses[position]?).bind fun response =>
        if world.sender.point = .recv then
          some { world with
            sender := step world.sender ⟨0, 0, 0, some response.datagram⟩
            responses := world.responses.eraseIdx position }
        else none
  | .deliver position created =>
      (world.requests[position]?).bind fun request =>
        let received := (request.run, request.slot) :: world.received
        -- 2.01 stands for a whole block, whatever else the server may choose.
        if created = true → Delivered received request.run (request.slot / 10) then
          some { world with
            requests := world.requests.eraseIdx position
            responses := replies received request created ++ world.responses
            received := received }
        else none
  | .loseRequest position => some { world with requests := world.requests.eraseIdx position }
  | .loseResponse position => some { world with responses := world.responses.eraseIdx position }
  | .nextRun msgIndex =>
      if Final world.sender then
        -- A reset clears the static `con_token`.
        let conToken := if world.sender.point = .reset then 0 else world.sender.conToken
        some { world with sender := startSender msgIndex conToken, run := world.run + 1 }
      else none

def startWorld (msgIndex : Nat) : World := ⟨startSender msgIndex 0, 0, [], [], []⟩

/-- A block is counted in a step only when the server has it. -/
def Counted (world : World) (action : Action) : Prop :=
  ∀ next, worldStep world action = some next → world.sender.i < next.sender.i →
    Delivered world.received world.run world.sender.i

/-- A response that ends the block answers a request of the same call. -/
def Timely (world : World) : Action → Prop
  | .hear position => ∀ response ∈ world.responses[position]?,
      Completes world.sender.conToken response.datagram → response.run = world.run
  | _ => True

instance (world : World) (action : Action) : Decidable (Timely world action) :=
  match action with
  | .hear position => inferInstanceAs (Decidable (∀ response ∈ world.responses[position]?, _))
  | .call _ | .deliver _ _ | .loseRequest _ | .loseResponse _ | .nextRun _ => isTrue trivial

section Tokens

variable {run next : Sender} {answer : Answer}

def Tokened (run : Sender) : Prop :=
  match run.point with
  | .head => run.lastMsg < run.x → run.conToken = 10 * run.i + run.lastMsg
  | .wait => run.lastMsg ≤ run.x → run.conToken = 10 * run.i + run.lastMsg
  | .recv => run.conToken = 10 * run.i + run.lastMsg
  | .send | .connect | .returned | .reset => True

theorem tokened_start (msgIndex conToken : Nat) : Tokened (startSender msgIndex conToken) :=
  fun past => absurd past (Nat.not_lt_zero 9)

theorem enter_tokened (run : Sender) : Tokened (enterBlock run) := by
  rcases enter_block_cases run with ⟨-, entered⟩ | ⟨-, entered⟩
  · rw [entered]
    exact fun past => absurd past (Nat.not_lt_zero run.lastMsg)
  · rw [entered]
    exact trivial

theorem moved_tokened (kept : Kept run) (last : run.lastMsg ≤ 9) (tokened : Tokened run)
    (moved : Moved run answer next) : Tokened next := by
  have reach := kept.reach
  cases moved with
  | skip point more arrived =>
      have live := kept.active (active_at point (by decide) (by decide))
      have next : (run.x + 1) % 2 ^ 8 = run.x + 1 := Nat.mod_eq_of_lt (by omega)
      simp only [Tokened, point, next]
      intro past
      -- The last message of the round is never skipped.
      have same : run.x = run.lastMsg := by omega
      rw [same, live.2] at arrived
      cases arrived
  | listen point done =>
      rw [Tokened, point] at tokened
      exact tokened (by omega)
  | unsent point fails more =>
      rw [Reach, point] at reach
      intro past
      exact absurd reach.1 (Nat.not_le_of_lt past)
  | sent point works =>
      have live := kept.active (active_at point (by decide) (by decide))
      rw [Reach, point] at reach
      intro past
      have past : run.lastMsg ≤ run.x := past
      have index : run.index = run.i * 10 + run.x := Nat.mod_eq_of_lt (by omega)
      have confirmable : run.confirmable = true := decide_eq_true past
      simp only [confirmable, ↓reduceIte, index]
      omega
  | timeout point fails more =>
      rw [Reach, point] at reach
      intro past
      exact absurd reach (Nat.not_le_of_lt past)
  | waited point works =>
      rw [Reach, point] at reach
      rw [Tokened, point] at tokened
      have next : (run.x + 1) % 2 ^ 8 = run.x + 1 := Nat.mod_eq_of_lt (by omega)
      rw [next]
      intro past
      exact tokened (Nat.le_of_lt_succ past)
  | connected point =>
      rw [Reach, point] at reach
      exact reach.elim
  | rejected | incomplete | advance => exact enter_tokened _
  | offer | sendReset | reconnect | waitReset | connectReset | broken | givenUp => exact trivial
  | ended final => exact tokened

theorem moved_block (none : ∀ datagram ∈ answer.received, ¬ Completes run.conToken datagram)
    (moved : Moved run answer next) : next.i = run.i := by
  cases moved with
  | rejected => exact enter_block_same run
  | incomplete => exact enter_block_same _
  | @advance point datagram received completes => exact absurd completes (none datagram received)
  | _ => rfl

theorem unheard_open (unheard : Unheard answer) :
    ∀ datagram ∈ answer.received, ¬ Completes run.conToken datagram :=
  fun datagram received completes => completes.1.1 (unheard datagram received)

theorem unheard_tame (unheard : Unheard answer) : ¬ TakesWide run answer := by
  rintro ⟨-, -, datagram, received, awaited, -⟩
  exact awaited.1 (unheard datagram received)

end Tokens

section Responses

theorem token_bytes_injective {first second : Nat} (small : first < 256) (small' : second < 256)
    (same : tokenBytes first = tokenBytes second) : first = second := by
  have low : UInt8.ofNat first = UInt8.ofNat second := (List.cons.inj same).1
  have value := congrArg UInt8.toNat low
  rwa [UInt8.toNat_ofNat_of_lt' small, UInt8.toNat_ofNat_of_lt' small'] at value

theorem received_bitmap_small (received : List (Nat × Nat)) (run block : Nat) :
    receivedBitmap received run block < 2 ^ 10 := Nat.ofBits_lt_two_pow _

theorem received_bitmap_full {received : List (Nat × Nat)} {run block : Nat}
    (full : receivedBitmap received run block = 0x3ff) : Delivered received run block := by
  intro k below
  have bit : (receivedBitmap received run block).testBit k = true := by
    rw [full]
    exact (by decide : ∀ k < 10, Nat.testBit 0x3ff k = true) k below
  rw [receivedBitmap, Nat.testBit_ofBits_lt _ k below] at bit
  exact of_decide_eq_true bit

theorem small_not_wide {bitmap : Nat} (small : bitmap < 2 ^ 10) : ¬ WideBitmap bitmap := by
  rintro ⟨set, other⟩
  apply other
  apply Nat.eq_of_testBit_eq
  intro bit
  by_cases below : bit < 10
  · rw [set bit below]
    exact ((by decide : ∀ k < 10, Nat.testBit 0x3ff k = true) bit below).symm
  · have power : 2 ^ 10 ≤ 2 ^ bit := Nat.pow_le_pow_right (by decide) (Nat.le_of_not_lt below)
    rw [Nat.testBit_lt_two_pow (Nat.lt_of_lt_of_le small power),
      Nat.testBit_lt_two_pow (Nat.lt_of_lt_of_le (by decide) power)]

variable {response : Response}

theorem datagram_bitmap (rejecting : response.created = false) (small : response.bitmap < 2 ^ 10) :
    response.datagram.bitmap = response.bitmap := by
  have page : response.bitmap / 256 < 256 := by omega
  have low : (UInt8.ofNat response.bitmap).toNat = response.bitmap % 256 := UInt8.toNat_ofNat'
  have high : (UInt8.ofNat (response.bitmap / 256)).toNat = response.bitmap / 256 :=
    UInt8.toNat_ofNat_of_lt' page
  simp only [Datagram.bitmap, Response.datagram, rejecting, Bool.false_eq_true, ↓reduceIte,
    receivedInteger, low]
  rw [if_pos (by decide), if_neg (by decide), high]
  exact Nat.mod_add_div response.bitmap 256

theorem heard_tame {run : Sender} (small : response.bitmap < 2 ^ 10) :
    ¬ TakesWide run ⟨0, 0, 0, some response.datagram⟩ := by
  rintro ⟨-, -, datagram, received, -, code, wide⟩
  cases received
  cases created : response.created with
  | true =>
      simp only [Response.datagram, created] at code
      exact absurd code (by decide)
  | false =>
      rw [datagram_bitmap created small] at wide
      exact small_not_wide small wide

theorem completes_heard {conToken : Nat} (awaited : conToken < 256) (slot : response.slot < 256)
    (small : response.bitmap < 2 ^ 10) (completes : Completes conToken response.datagram) :
    response.slot = conToken ∧ (response.created = true ∨ response.bitmap = 0x3ff) := by
  obtain ⟨⟨-, token⟩, code⟩ := completes
  refine ⟨token_bytes_injective slot awaited token, ?_⟩
  cases created : response.created with
  | true => exact Or.inl rfl
  | false =>
      right
      rcases code with code | ⟨-, full⟩
      · simp only [Response.datagram, created] at code
        exact absurd code (by decide)
      · rwa [datagram_bitmap created small] at full

end Responses

section Worlds

variable {world next : World} {action : Action}

structure Steady (run : Sender) : Prop where
  kept : Kept run
  last : run.lastMsg ≤ 9
  tokened : Tokened run

/-- The messages in flight carry slots, and an answer that ends a block tells the truth. -/
structure Sound (world : World) : Prop where
  steady : Steady world.sender
  slots : ∀ request ∈ world.requests, request.slot < 256
  small : ∀ response ∈ world.responses, response.slot < 256 ∧ response.bitmap < 2 ^ 10
  truthful : ∀ response ∈ world.responses, response.created = true ∨ response.bitmap = 0x3ff →
    Delivered world.received response.run (response.slot / 10)

theorem steady_start (msgIndex conToken : Nat) : Steady (startSender msgIndex conToken) :=
  ⟨kept_start msgIndex conToken, Nat.le_refl 9, tokened_start msgIndex conToken⟩

theorem step_steady {run : Sender} {answer : Answer} (steady : Steady run)
    (tame : ¬ TakesWide run answer) : Steady (step run answer) := by
  have moved := step_moved run answer
  exact ⟨moved_kept steady.kept moved, moved_last steady.last tame moved,
    moved_tokened steady.kept steady.last steady.tokened moved⟩

theorem sound_start (msgIndex : Nat) : Sound (startWorld msgIndex) where
  steady := steady_start msgIndex 0
  slots := fun _ member => absurd member List.not_mem_nil
  small := fun _ member => absurd member List.not_mem_nil
  truthful := fun _ member => absurd member List.not_mem_nil

theorem transmitted_slot {answer : Answer} {request : Request}
    (member : request ∈ transmitted world answer) : request.slot < 256 := by
  rw [transmitted] at member
  split at member
  · cases List.mem_singleton.mp member
    exact Nat.mod_lt _ (by decide)
  · cases member

theorem delivered_cons {received : List (Nat × Nat)} {run block : Nat}
    (delivered : Delivered received run block) (newest : Nat × Nat) :
    Delivered (newest :: received) run block :=
  fun k below => List.mem_cons_of_mem newest (delivered k below)

theorem replies_sound {received : List (Nat × Nat)} {request : Request} {created : Bool}
    (whole : created = true → Delivered received request.run (request.slot / 10))
    (slot : request.slot < 256) {response : Response}
    (member : response ∈ replies received request created) :
    (response.slot < 256 ∧ response.bitmap < 2 ^ 10) ∧
      (response.created = true ∨ response.bitmap = 0x3ff →
        Delivered received response.run (response.slot / 10)) := by
  rw [replies] at member
  split at member
  · cases List.mem_singleton.mp member
    refine ⟨⟨slot, received_bitmap_small received request.run (request.slot / 10)⟩, ?_⟩
    rintro (two | full)
    · exact whole two
    · exact received_bitmap_full full
  · cases member

theorem sound_call (sound : Sound world) {answer : Answer} (unheard : Unheard answer) :
    Sound { world with
      sender := step world.sender answer
      requests := transmitted world answer ++ world.requests } where
  steady := step_steady sound.steady (unheard_tame unheard)
  slots := by
    intro request member
    rcases List.mem_append.mp member with new | old
    · exact transmitted_slot new
    · exact sound.slots request old
  small := sound.small
  truthful := sound.truthful

theorem sound_hear (sound : Sound world) {position : Nat} {response : Response}
    (found : world.responses[position]? = some response) :
    Sound { world with
      sender := step world.sender ⟨0, 0, 0, some response.datagram⟩
      responses := world.responses.eraseIdx position } where
  steady := step_steady sound.steady
    (heard_tame (sound.small response (List.mem_of_getElem? found)).2)
  slots := sound.slots
  small := fun other member => sound.small other (List.mem_of_mem_eraseIdx member)
  truthful := fun other member => sound.truthful other (List.mem_of_mem_eraseIdx member)

theorem sound_deliver (sound : Sound world) {position : Nat} {request : Request}
    (found : world.requests[position]? = some request) {created : Bool}
    (whole : created = true →
      Delivered ((request.run, request.slot) :: world.received) request.run (request.slot / 10)) :
    Sound { world with
      requests := world.requests.eraseIdx position
      responses :=
        replies ((request.run, request.slot) :: world.received) request created ++ world.responses
      received := (request.run, request.slot) :: world.received } where
  steady := sound.steady
  slots := fun other member => sound.slots other (List.mem_of_mem_eraseIdx member)
  small := by
    intro response member
    rcases List.mem_append.mp member with new | old
    · exact (replies_sound whole (sound.slots request (List.mem_of_getElem? found)) new).1
    · exact sound.small response old
  truthful := by
    intro response member
    rcases List.mem_append.mp member with new | old
    · exact (replies_sound whole (sound.slots request (List.mem_of_getElem? found)) new).2
    · exact fun full => delivered_cons (sound.truthful response old full) _

theorem sound_step (sound : Sound world) (moves : worldStep world action = some next) :
    Sound next := by
  cases action with
  | call answer =>
      rw [worldStep] at moves
      split at moves
      · rename_i unheard
        cases moves
        exact sound_call sound unheard
      · cases moves
  | hear position =>
      obtain ⟨response, found, heard⟩ := Option.bind_eq_some_iff.mp moves
      split at heard
      · cases heard
        exact sound_hear sound found
      · cases heard
  | deliver position created =>
      obtain ⟨request, found, taken⟩ := Option.bind_eq_some_iff.mp moves
      simp only at taken
      split at taken
      · rename_i whole
        cases taken
        exact sound_deliver sound found whole
      · cases taken
  | loseRequest position =>
      cases moves
      exact ⟨sound.steady, fun other member => sound.slots other (List.mem_of_mem_eraseIdx member),
        sound.small, sound.truthful⟩
  | loseResponse position =>
      cases moves
      exact ⟨sound.steady, sound.slots,
        fun other member => sound.small other (List.mem_of_mem_eraseIdx member),
        fun other member => sound.truthful other (List.mem_of_mem_eraseIdx member)⟩
  | nextRun msgIndex =>
      rw [worldStep] at moves
      split at moves
      · cases moves
        exact ⟨steady_start msgIndex _, sound.slots, sound.small, sound.truthful⟩
      · cases moves

theorem sound_heard (sound : Sound world) (point : world.sender.point = .recv)
    {response : Response} (member : response ∈ world.responses)
    (completes : Completes world.sender.conToken response.datagram) :
    Delivered world.received response.run world.sender.i := by
  have steady := sound.steady
  have block := (steady.kept.active (active_at point (by decide) (by decide))).1
  have last := steady.last
  have token : world.sender.conToken = 10 * world.sender.i + world.sender.lastMsg := by
    have tokened := steady.tokened
    rwa [Tokened, point] at tokened
  obtain ⟨slot, small⟩ := sound.small response member
  obtain ⟨same, full⟩ := completes_heard (by omega) slot small completes
  have whole := sound.truthful response member full
  -- The awaited token is a slot of the block at hand.
  have here : response.slot / 10 = world.sender.i := by omega
  rwa [here] at whole

theorem counted_step (sound : Sound world) (timely : Timely world action) :
    Counted world action := by
  intro next moves advances
  cases action with
  | call answer =>
      rw [worldStep] at moves
      split at moves
      · rename_i unheard
        cases moves
        have same := moved_block (unheard_open unheard) (step_moved world.sender answer)
        exact absurd advances (Nat.not_lt_of_le same.le)
      · cases moves
  | hear position =>
      obtain ⟨response, found, heard⟩ := Option.bind_eq_some_iff.mp moves
      split at heard
      · rename_i point
        cases heard
        by_cases completes : Completes world.sender.conToken response.datagram
        · have whole := sound_heard sound point (List.mem_of_getElem? found) completes
          rwa [timely response found completes] at whole
        · have same := moved_block (fun datagram received => by cases received; exact completes)
            (step_moved world.sender ⟨0, 0, 0, some response.datagram⟩)
          exact absurd advances (Nat.not_lt_of_le same.le)
      · cases heard
  | deliver position created =>
      obtain ⟨request, found, taken⟩ := Option.bind_eq_some_iff.mp moves
      simp only at taken
      split at taken
      · cases taken
        exact absurd advances (Nat.lt_irrefl _)
      · cases taken
  | loseRequest position | loseResponse position =>
      cases moves
      exact absurd advances (Nat.lt_irrefl _)
  | nextRun msgIndex =>
      rw [worldStep] at moves
      split at moves
      · cases moves
        exact absurd advances (Nat.not_lt_zero world.sender.i)
      · cases moves

/-- Whatever happened before, a block is counted only when the server has it, unless
the response that ends it answers an earlier call. -/
theorem blocks_delivered {msgIndex : Nat} (reached : Reaches worldStep (startWorld msgIndex) world)
    (timely : Timely world action) : Counted world action := by
  have sound : Sound world := reaches_invariant (sound_start msgIndex)
    (fun _ _ _ sound moves => sound_step sound moves) reached
  exact counted_step sound timely

def fine : Action := .call ⟨0, 0, 0, none⟩

def late : Action := .call ⟨0, -11, 0, none⟩

/-- The confirmable message of the first block is sent four times, and the server
answers each time. -/
def firstBlock : List Action :=
  List.replicate 27 fine ++ [fine, fine, late, fine, fine, late, fine, fine, late] ++
    List.replicate 4 fine ++ List.replicate 9 (.deliver 4 false) ++
    [.deliver 3 true, .deliver 2 true, .deliver 1 true, .deliver 0 true]

/-- The second block is incomplete, which ends the call; all messages of the next call
are still on their way when an old answer arrives. -/
def laterCall : List Action :=
  [.hear 0] ++ List.replicate 31 fine ++ [.deliver 0 false, .hear 0, .nextRun 0] ++
    List.replicate 31 fine

theorem first_block_delivered :
    ∃ world ∈ execute worldStep (startWorld 0) firstBlock, ∃ next ∈ worldStep world (.hear 0),
      world.sender.i < next.sender.i ∧ Delivered world.received world.run world.sender.i := by
  have evaluated : ∃ world ∈ execute worldStep (startWorld 0) firstBlock,
      Timely world (.hear 0) ∧ ∃ next ∈ worldStep world (.hear 0),
        world.sender.i < next.sender.i := by decide +kernel
  obtain ⟨world, executed, timely, next, moves, advances⟩ := evaluated
  have reached := execute_reaches worldStep firstBlock .start executed
  exact ⟨world, executed, next, moves, advances, blocks_delivered reached timely next moves advances⟩

/-- The old answer counts the first block of the later call, of which nothing arrived. -/
theorem delivery_fails : ¬ ∀ (msgIndex : Nat) (world : World) (action : Action),
    Reaches worldStep (startWorld msgIndex) world → Counted world action := by
  intro counted
  have evaluated : ∃ world ∈ execute worldStep (startWorld 0) (firstBlock ++ laterCall),
      ∃ next ∈ worldStep world (.hear 0), world.sender.i < next.sender.i ∧
        ¬ Delivered world.received world.run world.sender.i := by decide +kernel
  obtain ⟨world, executed, next, moves, advances, missing⟩ := evaluated
  have reached := execute_reaches worldStep (firstBlock ++ laterCall) .start executed
  exact missing (counted 0 world (.hear 0) reached next moves advances)

end Worlds

end ThingyAccel.Delivery
