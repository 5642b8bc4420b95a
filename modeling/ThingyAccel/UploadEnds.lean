import Mathlib.Data.Nat.Count
import Mathlib.Order.OrderIsoNat
import ThingyAccel.CoapRun

/-!
The end of a call of `coap_send_fn`: `tries` pays for failed sends and waits, but for
no round that a response repeats.
-/
namespace ThingyAccel.UploadEnds

open CoapSend CoapRun

/-- One call: the bank selector, the token kept from earlier calls, and what the calls
into the system answer. -/
structure Upload where
  msgIndex : Nat
  conToken : Nat
  answers : Nat → Answer

def Upload.run (upload : Upload) (count : Nat) : Sender :=
  after (startSender upload.msgIndex upload.conToken) upload.answers count

/-- A round starts again without being charged to `tries`: after a response that does
not complete the block, or when the loop counter wraps round. -/
def Repeats (run : Sender) (answer : Answer) : Prop :=
  (run.point = .recv ∧ run.tries < 3 ∧
      ∃ datagram ∈ answer.received, ¬ Completes run.conToken datagram) ∨
    (run.point = .wait ∧ run.x = 255 ∧ ¬ answer.waitErr < 0)

instance (run : Sender) (answer : Answer) : Decidable (Repeats run answer) :=
  inferInstanceAs (Decidable (_ ∨ _))

def Upload.sendCalls (upload : Upload) (count : Nat) : Nat :=
  Nat.count (fun index => (upload.run index).point = .send) count

def Upload.repeats (upload : Upload) (count : Nat) : Nat :=
  Nat.count (fun index => Repeats (upload.run index) (upload.answers index)) count

/-- The call returns or resets the device, with at most so many sends. -/
def EndsWithin (upload : Upload) (bound : Nat) : Prop :=
  (∃ count, Final (upload.run count)) ∧ ∀ count, upload.sendCalls count ≤ bound

section Steps

variable {run next : Sender} {answer : Answer}

def roundSends (run : Sender) : Nat :=
  match run.point with
  | .head | .send => run.x + run.tries
  | .wait => run.x + run.tries + 1
  | .recv => 256 + run.tries
  | .connect | .returned | .reset => 260

def roundSent (run : Sender) : Nat :=
  match run.point with
  | .head => if run.lastMsg < run.x then 1 else 0
  | .wait | .recv => 1
  | .send | .connect | .returned | .reset => 0

def roundLeft (run : Sender) : Nat :=
  match run.point with
  | .head => 3 * (256 - run.x) + 4
  | .send => 3 * (256 - run.x) + 3
  | .wait => 3 * (256 - run.x) + 2
  | .recv => 3
  | .connect | .returned | .reset => 0

/-- What is left of the blocks, the repeats allowed and the retries. -/
def stepsLeft (allowed : Nat) (run : Sender) (repeats : Nat) : Nat :=
  800 * ((5 - run.i) + (allowed - repeats)) + 4 * (3 - run.tries) + roundLeft run

def newSends (run : Sender) : Nat := if run.point = .send then 1 else 0

def newRepeats (run : Sender) (answer : Answer) : Nat := if Repeats run answer then 1 else 0

theorem new_repeats_else (first : run.point ≠ .recv) (second : run.point ≠ .wait) :
    newRepeats run answer = 0 := by
  apply if_neg
  rintro (⟨here, -⟩ | ⟨here, -⟩)
  · exact first here
  · exact second here

theorem new_repeats_timeout (point : run.point = .wait) (fails : answer.waitErr < 0) :
    newRepeats run answer = 0 := by
  apply if_neg
  rintro (⟨here, -⟩ | ⟨-, -, works⟩)
  · rw [point] at here
    cases here
  · exact works fails

theorem new_repeats_waited (point : run.point = .wait) (works : ¬ answer.waitErr < 0) :
    newRepeats run answer = if run.x = 255 then 1 else 0 := by
  by_cases last : run.x = 255
  · rw [if_pos last]
    exact if_pos (Or.inr ⟨point, last, works⟩)
  · rw [if_neg last]
    apply if_neg
    rintro (⟨here, -⟩ | ⟨-, here, -⟩)
    · rw [point] at here
      cases here
    · exact last here

theorem new_repeats_again (point : run.point = .recv) (more : run.tries < 3) {datagram : Datagram}
    (received : answer.received = some datagram) (open' : ¬ Completes run.conToken datagram) :
    newRepeats run answer = 1 :=
  if_pos (Or.inl ⟨point, more, datagram, received, open'⟩)

theorem new_repeats_through (point : run.point = .recv)
    (through : ∀ datagram ∈ answer.received, run.tries < 3 → Completes run.conToken datagram) :
    newRepeats run answer = 0 := by
  apply if_neg
  rintro (⟨-, more, datagram, received, open'⟩ | ⟨here, -⟩)
  · exact open' (through datagram received more)
  · rw [point] at here
    cases here

theorem refused_open {conToken : Nat} {datagram : Datagram}
    (refused : ¬ (Awaited conToken datagram ∧ (datagram.code = coapResponseCodeCreated ∨
      datagram.code = coapResponseCodeBadRequest))) : ¬ Completes conToken datagram := by
  rintro ⟨awaited, created | ⟨rejecting, -⟩⟩
  · exact refused ⟨awaited, Or.inl created⟩
  · exact refused ⟨awaited, Or.inr rejecting⟩

theorem incomplete_open {conToken : Nat} {datagram : Datagram}
    (code : datagram.code = coapResponseCodeBadRequest) (missing : datagram.bitmap ≠ 0x3ff) :
    ¬ Completes conToken datagram := by
  rintro ⟨-, created | ⟨-, whole⟩⟩
  · exact absurd (code.symm.trans created) (by decide)
  · exact missing whole

/-- What a step costs: the sends of the round, the last message that a repeated round
has sent, and the steps left. -/
structure Costs (run next : Sender) (repeats : Nat) : Prop where
  sends : 256 * run.i + roundSends run + newSends run ≤ 256 * (next.i + repeats) + roundSends next
  sent : repeats + roundSent next ≤ roundSent run + newSends run
  left : ¬ Final run → 800 * (5 - next.i) + 4 * (3 - next.tries) + roundLeft next <
    800 * (5 - run.i + repeats) + 4 * (3 - run.tries) + roundLeft run

theorem head_round (point : run.point = .head) :
    roundSends run = run.x + run.tries ∧ roundSent run = (if run.lastMsg < run.x then 1 else 0) ∧
      roundLeft run = 3 * (256 - run.x) + 4 ∧ newSends run = 0 := by
  simp only [roundSends, roundSent, roundLeft, newSends, point, reduceCtorEq, ↓reduceIte, and_self]

theorem send_round (point : run.point = .send) :
    roundSends run = run.x + run.tries ∧ roundSent run = 0 ∧
      roundLeft run = 3 * (256 - run.x) + 3 ∧ newSends run = 1 := by
  simp only [roundSends, roundSent, roundLeft, newSends, point, ↓reduceIte, and_self]

theorem wait_round (point : run.point = .wait) :
    roundSends run = run.x + run.tries + 1 ∧ roundSent run = 1 ∧
      roundLeft run = 3 * (256 - run.x) + 2 ∧ newSends run = 0 := by
  simp only [roundSends, roundSent, roundLeft, newSends, point, reduceCtorEq, ↓reduceIte, and_self]

theorem recv_round (point : run.point = .recv) :
    roundSends run = 256 + run.tries ∧ roundSent run = 1 ∧ roundLeft run = 3 ∧
      newSends run = 0 := by
  simp only [roundSends, roundSent, roundLeft, newSends, point, reduceCtorEq, ↓reduceIte, and_self]

theorem final_round (final : Final run) :
    roundSends run = 260 ∧ roundSent run = 0 ∧ roundLeft run = 0 ∧ newSends run = 0 := by
  rcases final with point | point
  · simp only [roundSends, roundSent, roundLeft, newSends, point, reduceCtorEq, ↓reduceIte, and_self]
  · simp only [roundSends, roundSent, roundLeft, newSends, point, reduceCtorEq, ↓reduceIte, and_self]

/-- A round has ten messages, or 256 after a wide bitmap, and four sends can fail. -/
theorem round_sends_le (kept : Kept run) : roundSends run + newSends run ≤ 260 := by
  have tries := kept.tries
  have last := kept.last
  have reach := kept.reach
  cases point : run.point with
  | head =>
      obtain ⟨sends, -, -, new⟩ := head_round point
      simp only [Reach, point] at reach
      omega
  | send =>
      obtain ⟨sends, -, -, new⟩ := send_round point
      simp only [Reach, point] at reach
      omega
  | wait =>
      obtain ⟨sends, -, -, new⟩ := wait_round point
      simp only [Reach, point] at reach
      omega
  | recv =>
      obtain ⟨sends, -, -, new⟩ := recv_round point
      omega
  | connect =>
      rw [Reach, point] at reach
      exact reach.elim
  | returned =>
      obtain ⟨sends, -, -, new⟩ := final_round (Or.inl point)
      omega
  | reset =>
      obtain ⟨sends, -, -, new⟩ := final_round (Or.inr point)
      omega

theorem round_left_pos (kept : Kept run) (active : ¬ Final run) : 0 < roundLeft run := by
  have reach := kept.reach
  cases point : run.point with
  | head =>
      rw [(head_round point).2.2.1]
      exact Nat.succ_pos _
  | send =>
      rw [(send_round point).2.2.1]
      exact Nat.succ_pos _
  | wait =>
      rw [(wait_round point).2.2.1]
      exact Nat.succ_pos _
  | recv =>
      rw [(recv_round point).2.2.1]
      exact Nat.succ_pos 2
  | connect =>
      rw [Reach, point] at reach
      exact reach.elim
  | returned => exact absurd (Or.inl point) active
  | reset => exact absurd (Or.inr point) active

theorem end_costs (kept : Kept run) (final : Final next) (block : next.i = run.i)
    (tries : next.tries = run.tries) : Costs run next 0 := by
  have bound := round_sends_le kept
  obtain ⟨sends, sent, left, -⟩ := final_round final
  constructor
  · omega
  · omega
  · intro active
    have some' := round_left_pos kept active
    omega

theorem skip_costs (kept : Kept run) (point : run.point = .head)
    (arrived : run.recvPayload.testBit run.x = true) (more : run.x < run.lastMsg + 1) :
    Costs run { run with x := (run.x + 1) % 2 ^ 8 } 0 := by
  have live := kept.active (active_at point (by decide) (by decide))
  have last := kept.last
  -- The last message of the round is missing, so the skipped one comes before it.
  have other : run.x ≠ run.lastMsg := fun same => by
    rw [same, live.2] at arrived
    cases arrived
  have inside : (run.x + 1) % 2 ^ 8 = run.x + 1 := Nat.mod_eq_of_lt (by omega)
  have before : ¬ run.lastMsg < run.x + 1 := by omega
  obtain ⟨sends, sent, left, new⟩ := head_round point
  obtain ⟨sends', sent', left', -⟩ := @head_round { run with x := run.x + 1 } point
  dsimp only at sends' sent' left'
  rw [if_neg before] at sent'
  rw [inside]
  constructor
  · dsimp only
    omega
  · omega
  · dsimp only
    omega

theorem offer_costs (point : run.point = .head) : Costs run { run with point := .send } 0 := by
  obtain ⟨sends, sent, left, new⟩ := head_round point
  obtain ⟨sends', sent', left', -⟩ := @send_round { run with point := .send } rfl
  dsimp only at sends' sent' left'
  constructor
  · dsimp only
    omega
  · omega
  · dsimp only
    omega

theorem listen_costs (kept : Kept run) (point : run.point = .head)
    (done : ¬ run.x < run.lastMsg + 1) : Costs run { run with point := .recv } 0 := by
  have last := kept.last
  have reach := kept.reach
  rw [Reach, point] at reach
  obtain ⟨sends, sent, left, new⟩ := head_round point
  obtain ⟨sends', sent', left', -⟩ := @recv_round { run with point := .recv } rfl
  dsimp only at sends' sent' left'
  rw [if_pos (by omega)] at sent
  constructor
  · dsimp only
    omega
  · omega
  · dsimp only
    omega

theorem retry_costs (point : run.point = .send ∨ run.point = .wait) (inside : run.x ≤ run.lastMsg)
    (more : run.tries < 3) (token : Nat) :
    Costs run { run with point := .head, tries := run.tries + 1, conToken := token } 0 := by
  obtain ⟨sends', sent', left', -⟩ :=
    @head_round { run with point := .head, tries := run.tries + 1, conToken := token } rfl
  dsimp only at sends' sent' left'
  rw [if_neg (Nat.not_lt_of_le inside)] at sent'
  rcases point with point | point
  · obtain ⟨sends, sent, left, new⟩ := send_round point
    constructor
    · dsimp only
      omega
    · omega
    · dsimp only
      omega
  · obtain ⟨sends, sent, left, new⟩ := wait_round point
    constructor
    · dsimp only
      omega
    · omega
    · dsimp only
      omega

theorem sent_costs (point : run.point = .send) (token : Nat) :
    Costs run { run with point := .wait, conToken := token } 0 := by
  obtain ⟨sends, sent, left, new⟩ := send_round point
  obtain ⟨sends', sent', left', -⟩ :=
    @wait_round { run with point := .wait, conToken := token } rfl
  dsimp only at sends' sent' left'
  constructor
  · dsimp only
    omega
  · omega
  · dsimp only
    omega

/-- After the 256th message the counter starts again, which is a repeated round. -/
theorem waited_costs (kept : Kept run) (point : run.point = .wait) :
    Costs run { run with point := .head, x := (run.x + 1) % 2 ^ 8 }
      (if run.x = 255 then 1 else 0) := by
  have last := kept.last
  have reach := kept.reach
  rw [Reach, point] at reach
  obtain ⟨sends, sent, left, new⟩ := wait_round point
  obtain ⟨sends', sent', left', -⟩ :=
    @head_round { run with point := .head, x := (run.x + 1) % 2 ^ 8 } rfl
  dsimp only at sends' sent' left'
  by_cases wraps : run.x = 255
  · have zero : (run.x + 1) % 2 ^ 8 = 0 := by omega
    rw [zero] at sends' sent' left' ⊢
    rw [if_pos wraps]
    rw [if_neg (Nat.not_lt_zero _)] at sent'
    constructor
    · dsimp only
      omega
    · omega
    · dsimp only
      omega
  · have inside : (run.x + 1) % 2 ^ 8 = run.x + 1 := Nat.mod_eq_of_lt (by omega)
    rw [inside] at sends' sent' left' ⊢
    rw [if_neg wraps]
    constructor
    · dsimp only
      omega
    · split at sent'
      · omega
      · omega
    · dsimp only
      omega

theorem again_costs (point : run.point = .recv) (block : run.i < 6) (pload last : Nat) :
    Costs run (enterBlock { run with recvPayload := pload, lastMsg := last }) 1 := by
  obtain ⟨sends, sent, left, new⟩ := recv_round point
  rcases enter_block_cases { run with recvPayload := pload, lastMsg := last } with
    ⟨-, entered⟩ | ⟨outside, -⟩
  · obtain ⟨sends', sent', left', -⟩ := @head_round
      { run with recvPayload := pload, lastMsg := last, point := .head, x := 0 } rfl
    dsimp only at sends' sent' left'
    rw [if_neg (Nat.not_lt_zero _)] at sent'
    rw [entered]
    constructor
    · dsimp only
      omega
    · dsimp only
      omega
    · dsimp only
      omega
  · exact absurd block outside

theorem advance_costs (point : run.point = .recv) (tries : run.tries ≤ 3) :
    Costs run (enterBlock { run with lastMsg := 9, i := run.i + 1, recvPayload := 0 }) 0 := by
  obtain ⟨sends, sent, left, new⟩ := recv_round point
  rcases enter_block_cases { run with lastMsg := 9, i := run.i + 1, recvPayload := 0 } with
    ⟨inside, entered⟩ | ⟨outside, entered⟩
  · obtain ⟨sends', sent', left', -⟩ := @head_round
      { run with lastMsg := 9, i := run.i + 1, recvPayload := 0, point := .head, x := 0 } rfl
    dsimp only at inside sends' sent' left'
    rw [if_neg (Nat.not_lt_zero _)] at sent'
    rw [entered]
    constructor
    · dsimp only
      omega
    · dsimp only
      omega
    · dsimp only
      omega
  · obtain ⟨sends', sent', left', -⟩ := @final_round
      { run with lastMsg := 9, i := run.i + 1, recvPayload := 0, point := .returned } (Or.inl rfl)
    dsimp only at outside
    rw [entered]
    constructor
    · dsimp only
      omega
    · dsimp only
      omega
    · dsimp only
      omega

theorem moved_costs (kept : Kept run) (moved : Moved run answer next) :
    Costs run next (newRepeats run answer) := by
  have active {point : Point} (here : run.point = point) (first : point ≠ .returned)
      (second : point ≠ .reset) := kept.active (active_at here first second)
  have reach := kept.reach
  cases moved with
  | skip point more arrived =>
      rw [new_repeats_else (by rw [point]; decide) (by rw [point]; decide)]
      exact skip_costs kept point arrived more
  | offer point more missing =>
      rw [new_repeats_else (by rw [point]; decide) (by rw [point]; decide)]
      exact offer_costs point
  | listen point done =>
      rw [new_repeats_else (by rw [point]; decide) (by rw [point]; decide)]
      exact listen_costs kept point done
  | unsent point fails more =>
      rw [new_repeats_else (by rw [point]; decide) (by rw [point]; decide)]
      rw [Reach, point] at reach
      exact retry_costs (Or.inl point) reach.1 more _
  | sendReset point fails spent =>
      rw [new_repeats_else (by rw [point]; decide) (by rw [point]; decide)]
      exact end_costs kept (Or.inr rfl) rfl rfl
  | sent point works =>
      rw [new_repeats_else (by rw [point]; decide) (by rw [point]; decide)]
      exact sent_costs point _
  | timeout point fails more =>
      rw [new_repeats_timeout point fails]
      rw [Reach, point] at reach
      exact retry_costs (Or.inr point) reach more run.conToken
  | reconnect point four =>
      have tries := kept.tries
      rw [four] at tries
      exact absurd tries (by decide)
  | waitReset point fails spent =>
      rw [new_repeats_timeout point fails]
      exact end_costs kept (Or.inr rfl) rfl rfl
  | waited point works =>
      rw [new_repeats_waited point works]
      exact waited_costs kept point
  | connected point =>
      rw [Reach, point] at reach
      exact reach.elim
  | connectReset point =>
      rw [Reach, point] at reach
      exact reach.elim
  | broken point none =>
      rw [new_repeats_through point fun datagram received => by rw [none] at received; cases received]
      exact end_costs kept (Or.inl rfl) rfl rfl
  | rejected point received refused more =>
      rw [new_repeats_again point more received (refused_open refused)]
      exact again_costs point (active point (by decide) (by decide)).1 run.recvPayload run.lastMsg
  | incomplete point received awaited code missing more =>
      rw [new_repeats_again point more received (incomplete_open code missing)]
      exact again_costs point (active point (by decide) (by decide)).1 _ _
  | givenUp point received open' spent pload =>
      rw [new_repeats_through point fun datagram received more => absurd more spent]
      exact end_costs kept (Or.inl rfl) rfl rfl
  | @advance point datagram received completes =>
      rw [new_repeats_through point fun other same more => by
        rw [received] at same
        cases same
        exact completes]
      exact advance_costs point kept.tries
  | ended final =>
      obtain ⟨-, -, -, new⟩ := final_round final
      have none : newRepeats run answer = 0 := by
        apply new_repeats_else
        · rcases final with point | point <;> rw [point] <;> decide
        · rcases final with point | point <;> rw [point] <;> decide
      rw [none]
      exact ⟨by omega, by omega, fun active => absurd final active⟩

end Steps

section Runs

theorem run_kept (upload : Upload) (count : Nat) : Kept (upload.run count) :=
  after_kept (kept_start upload.msgIndex upload.conToken) count

theorem run_costs (upload : Upload) (count : Nat) :
    Costs (upload.run count) (upload.run (count + 1))
      (newRepeats (upload.run count) (upload.answers count)) :=
  moved_costs (run_kept upload count) (step_moved (upload.run count) (upload.answers count))

theorem send_calls_succ (upload : Upload) (count : Nat) :
    upload.sendCalls (count + 1) = upload.sendCalls count + newSends (upload.run count) :=
  Nat.count_succ _ count

theorem repeats_succ (upload : Upload) (count : Nat) :
    upload.repeats (count + 1) =
      upload.repeats count + newRepeats (upload.run count) (upload.answers count) :=
  Nat.count_succ _ count

/-- A block or a repeated round costs at most 256 sends. -/
theorem sends_bounded (upload : Upload) (count : Nat) :
    upload.sendCalls count ≤
      256 * ((upload.run count).i + upload.repeats count) + roundSends (upload.run count) := by
  induction count with
  | zero => exact Nat.zero_le _
  | succ count ih =>
      have costs := (run_costs upload count).sends
      rw [send_calls_succ, repeats_succ]
      omega

theorem repeats_sent (upload : Upload) (count : Nat) :
    upload.repeats count + roundSent (upload.run count) ≤ upload.sendCalls count := by
  induction count with
  | zero =>
      have start : roundSent (upload.run 0) = 0 := rfl
      rw [start]
      exact Nat.zero_le _
  | succ count ih =>
      have costs := (run_costs upload count).sent
      rw [send_calls_succ, repeats_succ]
      omega

/-- As long as rounds may be repeated, every step of an open run uses up something. -/
theorem steps_left_decrease {upload : Upload} {allowed : Nat}
    (few : ∀ count, upload.repeats count ≤ allowed) (count : Nat)
    (active : ¬ Final (upload.run count)) :
    stepsLeft allowed (upload.run (count + 1)) (upload.repeats (count + 1)) <
      stepsLeft allowed (upload.run count) (upload.repeats count) := by
  have costs := (run_costs upload count).left active
  have spare := few (count + 1)
  rw [repeats_succ] at spare ⊢
  rw [stepsLeft, stepsLeft]
  omega

theorem run_ends {upload : Upload} {allowed : Nat}
    (few : ∀ count, upload.repeats count ≤ allowed) : ∃ count, Final (upload.run count) := by
  by_contra never
  have active : ∀ count, ¬ Final (upload.run count) := fun count final => never ⟨count, final⟩
  exact not_strictAnti_of_wellFoundedLT
    (fun count => stepsLeft allowed (upload.run count) (upload.repeats count))
    (strictAnti_nat_of_succ_lt fun count => steps_left_decrease few count (active count))

theorem ends_within {upload : Upload} {allowed : Nat}
    (few : ∀ count, upload.repeats count ≤ allowed) :
    EndsWithin upload (256 * (6 + allowed) + 260) := by
  refine ⟨run_ends few, ?_⟩
  intro count
  have kept := run_kept upload count
  have sends := sends_bounded upload count
  have round := round_sends_le kept
  have past := kept.past
  have spare := few count
  omega

/-- There is a bound on the sends of a family of calls exactly when there is one on
the rounds that are repeated without a charge to `tries`. -/
theorem bounded_iff (uploads : Set Upload) :
    (∃ bound, ∀ upload ∈ uploads, EndsWithin upload bound) ↔
      ∃ allowed, ∀ upload ∈ uploads, ∀ count, upload.repeats count ≤ allowed := by
  constructor
  · rintro ⟨bound, ends⟩
    refine ⟨bound, ?_⟩
    intro upload member count
    have sent := repeats_sent upload count
    have sends := (ends upload member).2 count
    omega
  · rintro ⟨allowed, few⟩
    exact ⟨256 * (6 + allowed) + 260, fun upload member => ends_within (few upload member)⟩

def malformedAnswers : Upload :=
  ⟨0, 9, fun _ => ⟨0, 0, 0, some ⟨-1, [], 0, 0, fun _ => 0⟩⟩⟩

theorem malformed_periodic (rounds count : Nat) :
    malformedAnswers.run (32 * rounds + count) = malformedAnswers.run count := by
  induction rounds with
  | zero => rw [Nat.mul_zero, Nat.zero_add]
  | succ rounds ih =>
      have round : malformedAnswers.run 32 = malformedAnswers.run 0 := by decide +kernel
      -- The first round is cut off, and the induction is on the others.
      have split : 32 * (rounds + 1) + count = 32 + (32 * rounds + count) := by omega
      rw [split, Upload.run, after_add]
      exact (congrArg (fun start => after start malformedAnswers.answers (32 * rounds + count))
        round).trans ih

theorem bounded_fails : ¬ ∃ bound, ∀ upload, EndsWithin upload bound := by
  rintro ⟨bound, ends⟩
  obtain ⟨count, final⟩ := (ends malformedAnswers).1
  have active : ∀ early < 32, ¬ Final (malformedAnswers.run early) := by decide +kernel
  rw [← Nat.div_add_mod count 32, malformed_periodic] at final
  exact active (count % 32) (Nat.mod_lt count (by decide)) final

end Runs

end ThingyAccel.UploadEnds
