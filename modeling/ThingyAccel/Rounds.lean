import Mathlib.Logic.Function.Basic
import ThingyAccel.Delivery

/-!
What one pass of the inner loop of `coap_send_fn` has sent when `recv` is reached: the
messages that the bitmap in force leaves open, and the confirmable one as the last.
-/
namespace ThingyAccel.Rounds

open CoapSend CoapRun Delivery

/-- A call of `client_get_send`, and whether it or the `wait` behind it has failed. -/
structure Transmission where
  slot : Nat
  confirmable : Bool
  failed : Bool
  deriving DecidableEq, Repr

/-- The transmissions since the inner loop was entered, the latest one first. -/
def record (run : Sender) (answer : Answer) (log : List Transmission) : List Transmission :=
  match run.point with
  | .send => ⟨run.index, run.confirmable, decide (answer.sendErr < 0)⟩ :: log
  | .wait =>
      match log with
      | latest :: earlier => { latest with failed := decide (answer.waitErr < 0) } :: earlier
      | [] => []
  | .recv => []
  | .head | .connect | .returned | .reset => log

def roundLog (start : Sender) (answers : Nat → Answer) : Nat → List Transmission
  | 0 => []
  | count + 1 => record (after start answers count) (answers count) (roundLog start answers count)

def missing (bitmap top : Nat) : List Nat := (List.range top).filter fun x => !bitmap.testBit x

def attempts (run : Sender) (repeats : Nat → Nat) (x : Nat) : List Transmission :=
  List.replicate (repeats x) ⟨10 * run.i + x, decide (x = run.lastMsg), true⟩ ++
    [⟨10 * run.i + x, decide (x = run.lastMsg), false⟩]

def sentBelow (run : Sender) (repeats : Nat → Nat) (top : Nat) : List Transmission :=
  (missing run.recvPayload top).flatMap (attempts run repeats)

/-- The bitmap that an accepted response puts in force uses ten bits; an empty payload
stands for bit ten alone. -/
def TenBits (run : Sender) (answer : Answer) : Prop :=
  run.point = .recv → ∀ datagram ∈ answer.received, Awaited run.conToken datagram →
    datagram.code = coapResponseCodeBadRequest → 0 < datagram.payloadLen → datagram.bitmap < 2 ^ 10

/-- A round that is ready to receive. -/
structure ExactRound (run : Sender) (sent : List Transmission) : Prop where
  slots : ∀ slot, slot ∈ sent.map Transmission.slot ↔
    ∃ x < 10, run.recvPayload.testBit x = false ∧ slot = 10 * run.i + x
  order : ∃ repeats, sent = (missing run.recvPayload 10).flatMap (attempts run repeats)
  last : run.lastMsg < 10 ∧ run.recvPayload.testBit run.lastMsg = false ∧
    ∀ x < 10, run.recvPayload.testBit x = false → x ≤ run.lastMsg
  confirmable : ∀ transmission ∈ sent,
    (transmission.confirmable = true ↔ transmission.slot = 10 * run.i + run.lastMsg)
  token : run.conToken = 10 * run.i + run.lastMsg

section Search

theorem search_down_last {x top bit : Nat} (above : searchDown x top < bit) (below : bit < top) :
    x.testBit bit = true := by
  induction top with
  | zero => exact absurd below (Nat.not_lt_zero bit)
  | succ top ih =>
      cases here : x.testBit top with
      | false =>
          rw [searchDown, here] at above
          have past : (top : Int) < bit := above
          omega
      | true =>
          rw [searchDown, if_pos here] at above
          rcases Nat.lt_succ_iff_lt_or_eq.mp below with lower | same
          · exact ih above lower
          · rw [same]
            exact here

theorem getmsg_count_greatest {x bit : Nat} (above : getmsgCount x < bit) (below : bit < 10) :
    x.testBit bit = true := by
  by_cases clear : ∃ bit < 10, x.testBit bit = false
  · obtain ⟨found, small, result, -⟩ := search_down_clear clear
    have same : getmsgCount x = found := by
      rw [getmsgCount, result]
      omega
    apply search_down_last _ below
    rw [result]
    exact Int.ofNat_lt.mpr (same ▸ above)
  · cases value : x.testBit bit with
    | true => rfl
    | false => exact absurd ⟨bit, below, value⟩ clear

theorem missing_succ (bitmap top : Nat) :
    missing bitmap (top + 1) = missing bitmap top ++ if bitmap.testBit top then [] else [top] := by
  rw [missing, missing, List.range_succ, List.filter_append]
  cases set : bitmap.testBit top <;> simp [set]

theorem mem_missing {bitmap top x : Nat} :
    x ∈ missing bitmap top ↔ x < top ∧ bitmap.testBit x = false := by
  simp [missing]

end Search

section Steps

variable {run next : Sender} {answer : Answer} {log : List Transmission}

def failure (run : Sender) (x : Nat) : Transmission :=
  ⟨10 * run.i + x, decide (x = run.lastMsg), true⟩

/-- What has been sent at each point of the inner loop: all that is missing below the
counter, and the failed calls for the message at the counter. -/
def Sent (run : Sender) (log : List Transmission) : Prop :=
  match run.point with
  | .head => ∃ repeats failures,
      log = List.replicate failures (failure run run.x) ++ (sentBelow run repeats run.x).reverse ∧
        (0 < failures → run.x ≤ run.lastMsg ∧ run.recvPayload.testBit run.x = false)
  | .send => ∃ repeats failures,
      log = List.replicate failures (failure run run.x) ++ (sentBelow run repeats run.x).reverse
  | .wait => run.recvPayload.testBit run.x = false ∧ ∃ repeats failures,
      log = { failure run run.x with failed := false } ::
        (List.replicate failures (failure run run.x) ++ (sentBelow run repeats run.x).reverse)
  | .recv => ∃ repeats, log = (sentBelow run repeats 10).reverse
  | .connect | .returned | .reset => True

def Greatest (run : Sender) : Prop :=
  ¬ Final run → ∀ x < 10, run.lastMsg < x → run.recvPayload.testBit x = true

theorem sent_below_congr {repeats other : Nat → Nat} (top : Nat)
    (same : ∀ x < top, repeats x = other x) : sentBelow run repeats top = sentBelow run other top := by
  rw [sentBelow, sentBelow]
  apply List.flatMap_congr
  intro x member
  rw [attempts, attempts, same x (mem_missing.mp member).1]

theorem sent_below_set (repeats : Nat → Nat) {top : Nat} (set : run.recvPayload.testBit top = true) :
    sentBelow run repeats (top + 1) = sentBelow run repeats top := by
  rw [sentBelow, missing_succ, if_pos set, List.append_nil, ← sentBelow]

theorem sent_below_clear (repeats : Nat → Nat) {top : Nat}
    (clear : run.recvPayload.testBit top = false) :
    sentBelow run repeats (top + 1) = sentBelow run repeats top ++ attempts run repeats top := by
  have unset : ¬ run.recvPayload.testBit top = true := by
    rw [clear]
    decide
  rw [sentBelow, missing_succ, if_neg unset, List.flatMap_append, List.flatMap_singleton, ← sentBelow]

theorem sent_below_extend (repeats : Nat → Nat) (failures : Nat) {top : Nat}
    (clear : run.recvPayload.testBit top = false) :
    (sentBelow run (Function.update repeats top failures) (top + 1)).reverse =
      { failure run top with failed := false } ::
        (List.replicate failures (failure run top) ++ (sentBelow run repeats top).reverse) := by
  have below : sentBelow run (Function.update repeats top failures) top = sentBelow run repeats top := by
    apply sent_below_congr
    intro x inside
    exact Function.update_of_ne (Nat.ne_of_lt inside) failures repeats
  rw [sent_below_clear _ clear, below, attempts, Function.update_self]
  simp [failure]

theorem sent_below_all (repeats : Nat → Nat) {top : Nat} (above : run.lastMsg < top) (small : top ≤ 10)
    (greatest : ∀ x < 10, run.lastMsg < x → run.recvPayload.testBit x = true) :
    sentBelow run repeats 10 = sentBelow run repeats top := by
  induction small using Nat.decreasingInduction with
  | self => rfl
  | of_succ x inside ih =>
      rw [ih (Nat.lt_succ_of_lt above)]
      exact sent_below_set repeats (greatest x inside above)

theorem enter_sent (run : Sender) : Sent (enterBlock run) [] := by
  rcases enter_block_cases run with ⟨-, entered⟩ | ⟨-, entered⟩
  · rw [entered]
    exact ⟨fun _ => 0, 0, rfl, fun positive => absurd positive (Nat.lt_irrefl 0)⟩
  · rw [entered]
    exact trivial

theorem sent_call (kept : Kept run) (last : run.lastMsg ≤ 9) (point : run.point = .send)
    (failed : Bool) : (⟨run.index, run.confirmable, failed⟩ : Transmission) =
      { failure run run.x with failed := failed } := by
  have live := kept.active (active_at point (by decide) (by decide))
  have reach := kept.reach
  rw [Reach, point] at reach
  have below := reach.1
  have index : run.index = 10 * run.i + run.x := by
    rw [Sender.index, Nat.mod_eq_of_lt (by omega)]
    omega
  have confirmable : run.confirmable = decide (run.x = run.lastMsg) := by
    rw [Sender.confirmable, decide_eq_decide]
    omega
  rw [index, confirmable, failure]

theorem moved_sent (kept : Kept run) (last : run.lastMsg ≤ 9) (greatest : Greatest run)
    (sent : Sent run log) (moved : Moved run answer next) : Sent next (record run answer log) := by
  have reach := kept.reach
  cases moved with
  | skip point more arrived =>
      simp only [Sent, point] at sent
      obtain ⟨repeats, failures, log, clear⟩ := sent
      -- A message that has arrived has no failed call in this round.
      have none : failures = 0 := by
        rcases Nat.eq_zero_or_pos failures with none | positive
        · exact none
        · rw [(clear positive).2] at arrived
          cases arrived
      have next : (run.x + 1) % 2 ^ 8 = run.x + 1 := Nat.mod_eq_of_lt (by omega)
      simp only [Sent, record, point, next]
      refine ⟨repeats, 0, ?_, fun positive => absurd positive (Nat.lt_irrefl 0)⟩
      rw [log, none, ← sent_below_set repeats arrived]
      rfl
  | offer point more missing =>
      simp only [Sent, point] at sent
      obtain ⟨repeats, failures, log, -⟩ := sent
      simp only [Sent, record, point]
      exact ⟨repeats, failures, log⟩
  | listen point done =>
      simp only [Sent, point] at sent
      rw [Reach, point] at reach
      obtain ⟨repeats, failures, log, clear⟩ := sent
      have none : failures = 0 := by
        rcases Nat.eq_zero_or_pos failures with none | positive
        · exact none
        · exact absurd (Nat.lt_succ_of_le (clear positive).1) done
      have all := greatest (active_at point (by decide) (by decide))
      simp only [Sent, record, point]
      refine ⟨repeats, ?_⟩
      rw [log, none, ← sent_below_all repeats (by omega : run.lastMsg < run.x) (by omega) all]
      rfl
  | unsent point fails more =>
      simp only [Sent, point] at sent
      rw [Reach, point] at reach
      obtain ⟨repeats, failures, log⟩ := sent
      simp only [Sent, record, point]
      refine ⟨repeats, failures + 1, ?_, fun _ => reach⟩
      rw [sent_call kept last point, decide_eq_true fails, log]
      rfl
  | sent point works =>
      simp only [Sent, point] at sent
      rw [Reach, point] at reach
      obtain ⟨repeats, failures, log⟩ := sent
      simp only [Sent, record, point]
      refine ⟨reach.2, repeats, failures, ?_⟩
      rw [sent_call kept last point, decide_eq_false works, log]
      rfl
  | timeout point fails more =>
      simp only [Sent, point] at sent
      rw [Reach, point] at reach
      obtain ⟨clear, repeats, failures, log⟩ := sent
      simp only [Sent, record, point, log, decide_eq_true fails]
      exact ⟨repeats, failures + 1, rfl, fun _ => ⟨reach, clear⟩⟩
  | reconnect point four =>
      have tries := kept.tries
      rw [four] at tries
      exact absurd tries (by decide)
  | waited point works =>
      simp only [Sent, point] at sent
      rw [Reach, point] at reach
      obtain ⟨clear, repeats, failures, log⟩ := sent
      have next : (run.x + 1) % 2 ^ 8 = run.x + 1 := Nat.mod_eq_of_lt (by omega)
      simp only [Sent, record, point, log, decide_eq_false works, next]
      refine ⟨Function.update repeats run.x failures, 0, ?_,
        fun positive => absurd positive (Nat.lt_irrefl 0)⟩
      exact (sent_below_extend repeats failures clear).symm
  | connected point =>
      rw [Reach, point] at reach
      exact reach.elim
  | rejected point | incomplete point | advance point =>
      simp only [record, point]
      exact enter_sent _
  | sendReset | waitReset | connectReset | broken | givenUp => exact trivial
  | ended final =>
      rcases final with point | point
      · simp only [Sent, point]
      · simp only [Sent, point]

theorem enter_greatest (all : ∀ x < 10, run.lastMsg < x → run.recvPayload.testBit x = true) :
    Greatest (enterBlock run) := by
  rcases enter_block_cases run with ⟨-, entered⟩ | ⟨-, entered⟩
  · rw [entered]
    exact fun _ => all
  · rw [entered]
    exact fun active => absurd (Or.inl rfl) active

theorem moved_greatest (greatest : Greatest run) (moved : Moved run answer next) :
    Greatest next := by
  have all {point : Point} (here : run.point = point) (first : point ≠ .returned)
      (second : point ≠ .reset) := greatest (active_at here first second)
  cases moved with
  | rejected point => exact enter_greatest (all point (by decide) (by decide))
  | incomplete point =>
      exact enter_greatest fun x below above => getmsg_count_greatest above below
  | advance point =>
      exact enter_greatest fun x below above => absurd below (Nat.not_lt_of_le above)
  | givenUp => exact fun active => absurd (Or.inl rfl) active
  | skip point | offer point | listen point | unsent point | sendReset point | sent point
  | timeout point | reconnect point | waitReset point | waited point | connected point
  | connectReset point | broken point => exact fun _ => all point (by decide) (by decide)
  | ended final => exact greatest

theorem ten_bits_tame (ten : TenBits run answer) : ¬ TakesWide run answer := by
  rintro ⟨point, -, datagram, received, awaited, code, wide⟩
  by_cases empty : 0 < datagram.payloadLen
  · exact small_not_wide (ten point datagram received awaited code empty) wide
  · rw [Datagram.bitmap, if_neg empty] at wide
    exact absurd (wide.1 0 (by decide)) (by decide)

end Steps

section Runs

variable {start : Sender} {answers : Nat → Answer}

/-- What holds before any step of a run without wide bitmaps. -/
structure InRound (run : Sender) (log : List Transmission) : Prop where
  steady : Steady run
  greatest : Greatest run
  sent : Sent run log

theorem in_round_start (msgIndex conToken : Nat) : InRound (startSender msgIndex conToken) [] where
  steady := steady_start msgIndex conToken
  greatest := fun _ _ below above => absurd below (Nat.not_lt_of_le above)
  sent := enter_sent _

theorem step_in_round {run : Sender} {answer : Answer} {log : List Transmission}
    (before : InRound run log) (tame : ¬ TakesWide run answer) :
    InRound (step run answer) (record run answer log) := by
  have moved := step_moved run answer
  have steady := before.steady
  exact ⟨step_steady steady tame, moved_greatest before.greatest moved,
    moved_sent steady.kept steady.last before.greatest before.sent moved⟩

theorem after_in_round (begins : InRound start []) (count : Nat)
    (tame : ∀ earlier < count, ¬ TakesWide (after start answers earlier) (answers earlier)) :
    InRound (after start answers count) (roundLog start answers count) := by
  induction count with
  | zero => exact begins
  | succ count ih =>
      exact step_in_round (ih fun earlier before => tame earlier (Nat.lt_succ_of_lt before))
        (tame count (Nat.lt_succ_self count))

theorem mem_attempts {run : Sender} {repeats : Nat → Nat} {x : Nat} {transmission : Transmission}
    (member : transmission ∈ attempts run repeats x) : transmission.slot = 10 * run.i + x ∧
      transmission.confirmable = decide (x = run.lastMsg) := by
  rcases List.mem_append.mp member with repeated | final
  · rw [(List.mem_replicate.mp repeated).2]
    exact ⟨rfl, rfl⟩
  · rw [List.mem_singleton.mp final]
    exact ⟨rfl, rfl⟩

theorem mem_sent_below {run : Sender} {repeats : Nat → Nat} {top : Nat}
    {transmission : Transmission} (member : transmission ∈ sentBelow run repeats top) :
    ∃ x < top, run.recvPayload.testBit x = false ∧ transmission.slot = 10 * run.i + x ∧
      transmission.confirmable = decide (x = run.lastMsg) := by
  obtain ⟨x, missing, attempted⟩ := List.mem_flatMap.mp member
  obtain ⟨below, clear⟩ := mem_missing.mp missing
  exact ⟨x, below, clear, mem_attempts attempted⟩

theorem in_round_exact {run : Sender} {log : List Transmission} (here : InRound run log)
    (point : run.point = .recv) : ExactRound run log.reverse := by
  have live := here.steady.kept.active (active_at point (by decide) (by decide))
  have last := here.steady.last
  have token := here.steady.tokened
  have sent := here.sent
  rw [Tokened, point] at token
  simp only [Sent, point] at sent
  obtain ⟨repeats, same⟩ := sent
  have order : log.reverse = sentBelow run repeats 10 := by
    rw [same, List.reverse_reverse]
  rw [order]
  constructor
  case slots =>
    intro slot
    constructor
    · intro member
      obtain ⟨transmission, sent, rfl⟩ := List.mem_map.mp member
      obtain ⟨x, below, clear, slot, -⟩ := mem_sent_below sent
      exact ⟨x, below, clear, slot⟩
    · rintro ⟨x, below, clear, rfl⟩
      have final : (⟨10 * run.i + x, decide (x = run.lastMsg), false⟩ : Transmission) ∈
          attempts run repeats x := List.mem_append_right _ (List.mem_singleton_self _)
      exact List.mem_map.mpr ⟨_, List.mem_flatMap.mpr ⟨x, mem_missing.mpr ⟨below, clear⟩, final⟩, rfl⟩
  case order => exact ⟨repeats, rfl⟩
  case last =>
    refine ⟨Nat.lt_succ_of_le last, live.2, ?_⟩
    intro x below clear
    by_contra beyond
    rw [here.greatest (active_at point (by decide) (by decide)) x below
      (Nat.lt_of_not_le beyond)] at clear
    cases clear
  case confirmable =>
    intro transmission member
    obtain ⟨x, -, -, slot, confirmable⟩ := mem_sent_below member
    rw [slot, confirmable, decide_eq_true_iff]
    omega
  case token => exact token

/-- Every time `recv` is reached, the round has sent what the bitmap in force leaves
open, and awaits the answer to its last message. -/
theorem rounds_exact (msgIndex conToken : Nat) (answers : Nat → Answer)
    (ten : ∀ count, TenBits (after (startSender msgIndex conToken) answers count) (answers count))
    (count : Nat) (receives : (after (startSender msgIndex conToken) answers count).point = .recv) :
    ExactRound (after (startSender msgIndex conToken) answers count)
      (roundLog (startSender msgIndex conToken) answers count).reverse := by
  have here := after_in_round (in_round_start msgIndex conToken) count
    fun earlier _ => ten_bits_tame (ten earlier)
  exact in_round_exact here receives

/-- A server that has all but message four; one `wait` of the second round fails. -/
def lackingAnswers : Nat → Answer := fun count =>
  ⟨0, if count = 38 then -11 else 0, 0, some ⟨0, tokenBytes 9, coapResponseCodeBadRequest, 2,
    fun position => if position = 0 then 0xef else 0x03⟩⟩

theorem rounds_exact_lacking :
    roundLog (startSender 0 0) lackingAnswers 43 = [⟨4, true, false⟩, ⟨4, true, true⟩] ∧
      ExactRound (after (startSender 0 0) lackingAnswers 43)
        (roundLog (startSender 0 0) lackingAnswers 43).reverse := by
  refine ⟨by decide +kernel, rounds_exact 0 0 lackingAnswers ?_ 43 (by decide +kernel)⟩
  intro count _ datagram received _ _ _
  cases received
  decide

end Runs

end ThingyAccel.Rounds
