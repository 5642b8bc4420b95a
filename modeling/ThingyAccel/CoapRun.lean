import Mathlib.Order.Basic
import Mathlib.Data.Nat.Find
import Mathlib.Tactic.SplitIfs
import ThingyAccel.CoapSend

/-!
One run of `coap_send_fn` against any answers: what holds throughout it, and that the
slots it sends stay in the block unless a bitmap marks all ten messages of the block
and something beside them.
-/
namespace ThingyAccel.CoapRun

open CoapSend

/-- The slot sent is one of the block, and the bit tested is one of sixteen. -/
def Inside (run : Sender) : Prop :=
  (run.point = .send → 10 * run.i ≤ run.index ∧ run.index ≤ 10 * run.i + 9) ∧
    (run.point = .head → run.x < run.lastMsg + 1 → run.x < 16)

instance (run : Sender) : Decidable (Inside run) := inferInstanceAs (Decidable (_ ∧ _))

/-- All ten messages of the block are marked, and something beside them. -/
def WideBitmap (bitmap : Nat) : Prop := (∀ bit < 10, bitmap.testBit bit = true) ∧ bitmap ≠ 0x3ff

/-- A rejecting response with such a bitmap is accepted, and the round repeated. -/
def TakesWide (run : Sender) (answer : Answer) : Prop :=
  run.point = .recv ∧ run.tries < 3 ∧ ∃ datagram, answer.received = some datagram ∧
    Awaited run.conToken datagram ∧ datagram.code = coapResponseCodeBadRequest ∧
      WideBitmap datagram.bitmap

def Final (run : Sender) : Prop := run.point = .returned ∨ run.point = .reset

instance (run : Sender) : Decidable (Final run) := inferInstanceAs (Decidable (_ ∨ _))

section Search

variable {x : Nat}

theorem search_down_clear {top : Nat} (clear : ∃ bit < top, x.testBit bit = false) :
    ∃ bit < top, searchDown x top = bit ∧ x.testBit bit = false := by
  induction top with
  | zero =>
      obtain ⟨bit, below, -⟩ := clear
      exact absurd below (Nat.not_lt_zero _)
  | succ top ih =>
      cases here : x.testBit top with
      | false => exact ⟨top, Nat.lt_succ_self top, by simp [searchDown, here], here⟩
      | true =>
          obtain ⟨bit, below, unset⟩ := clear
          have other : bit ≠ top := fun same => by
            rw [same, here] at unset
            cases unset
          obtain ⟨found, below', same, unset'⟩ := ih ⟨bit, by omega, unset⟩
          exact ⟨found, by omega, by simp [searchDown, here, same], unset'⟩

theorem search_down_set {top : Nat} (set : ∀ bit < top, x.testBit bit = true) :
    searchDown x top = -1 := by
  induction top with
  | zero => rfl
  | succ top ih =>
      rw [searchDown, if_pos (set top (Nat.lt_succ_self top))]
      exact ih fun bit below => set bit (Nat.lt_succ_of_lt below)

theorem getmsg_count_clear (clear : ∃ bit < 10, x.testBit bit = false) :
    getmsgCount x ≤ 9 ∧ x.testBit (getmsgCount x) = false := by
  obtain ⟨bit, below, found, unset⟩ := search_down_clear clear
  have same : getmsgCount x = bit := by
    rw [getmsgCount, found]
    omega
  rw [same]
  exact ⟨Nat.le_of_lt_succ below, unset⟩

/-- The -1 of a search that finds nothing becomes 255. -/
theorem getmsg_count_set (set : ∀ bit < 10, x.testBit bit = true) : getmsgCount x = 255 := by
  rw [getmsgCount, search_down_set set]
  rfl

theorem getmsg_count_missing (small : x < 2 ^ 16) :
    getmsgCount x ≤ 255 ∧ x.testBit (getmsgCount x) = false := by
  by_cases clear : ∃ bit < 10, x.testBit bit = false
  · obtain ⟨low, unset⟩ := getmsg_count_clear clear
    exact ⟨Nat.le_trans low (by decide), unset⟩
  · have set : ∀ bit < 10, x.testBit bit = true := by
      intro bit below
      cases value : x.testBit bit with
      | true => rfl
      | false => exact absurd ⟨bit, below, value⟩ clear
    rw [getmsg_count_set set]
    exact ⟨Nat.le_refl 255, Nat.testBit_lt_two_pow (Nat.lt_of_lt_of_le small
      (Nat.pow_le_pow_right (by decide) (by decide)))⟩

theorem bitmap_small (datagram : Datagram) : datagram.bitmap < 2 ^ 16 := by
  have lower := (datagram.payload 0).toNat_lt
  have upper := (datagram.payload 1).toNat_lt
  rw [Datagram.bitmap, receivedInteger]
  split
  · omega
  · decide

theorem wide_or_clear (bitmap : Nat) (partial' : bitmap ≠ 0x3ff) :
    WideBitmap bitmap ∨ ∃ bit < 10, bitmap.testBit bit = false := by
  by_cases set : ∀ bit < 10, bitmap.testBit bit = true
  · exact Or.inl ⟨set, partial'⟩
  · right
    by_contra none
    apply set
    intro bit below
    cases value : bitmap.testBit bit with
    | true => rfl
    | false => exact absurd ⟨bit, below, value⟩ none

end Search

section Steps

variable {run next : Sender} {answer : Answer}

/-- How far the inner loop has come at each point; the branch that reconnects is
never taken. -/
def Reach (run : Sender) : Prop :=
  match run.point with
  | .head => run.x ≤ run.lastMsg + 1
  | .send => run.x ≤ run.lastMsg ∧ run.recvPayload.testBit run.x = false
  | .wait => run.x ≤ run.lastMsg
  | .connect => False
  | .recv | .returned | .reset => True

structure Kept (run : Sender) : Prop where
  last : run.lastMsg ≤ 255
  tries : run.tries ≤ 3
  past : run.i ≤ 6
  active : ¬ Final run → run.i < 6 ∧ run.recvPayload.testBit run.lastMsg = false
  reach : Reach run

theorem active_at {point : Point} (here : run.point = point) (first : point ≠ .returned)
    (second : point ≠ .reset) : ¬ Final run := by
  rintro (final | final)
  · exact first (here.symm.trans final)
  · exact second (here.symm.trans final)

theorem kept_inside (kept : Kept run) (last : run.lastMsg ≤ 9) : Inside run := by
  have reach := kept.reach
  constructor
  · intro point
    have inside := (kept.active (active_at point (by decide) (by decide))).1
    rw [Reach, point] at reach
    have x := reach.1
    have small : run.index = run.i * 10 + run.x := Nat.mod_eq_of_lt (by omega)
    omega
  · intro point below
    omega

theorem kept_start (msgIndex conToken : Nat) : Kept (startSender msgIndex conToken) :=
  ⟨(by decide : 9 ≤ 255), Nat.zero_le 3, Nat.zero_le 6,
    fun _ => ⟨Nat.zero_lt_succ 5, Nat.zero_testBit 9⟩, Nat.zero_le 10⟩

theorem enter_kept (last : run.lastMsg ≤ 255) (tries : run.tries ≤ 3) (past : run.i ≤ 6)
    (clear : run.recvPayload.testBit run.lastMsg = false) : Kept (enterBlock run) := by
  rcases enter_block_cases run with ⟨inside, entered⟩ | ⟨-, entered⟩
  · rw [entered]
    exact ⟨last, tries, past, fun _ => ⟨inside, clear⟩, Nat.zero_le _⟩
  · rw [entered]
    exact ⟨last, tries, past, fun active => absurd (Or.inl rfl) active, trivial⟩

theorem moved_kept (kept : Kept run) (moved : Moved run answer next) : Kept next := by
  have active {point : Point} (here : run.point = point) (first : point ≠ .returned)
      (second : point ≠ .reset) := kept.active (active_at here first second)
  have reach := kept.reach
  have last := kept.last
  have tries := kept.tries
  cases moved with
  | skip point more arrived =>
      -- The last message of the round is missing, so the skipped one comes before it.
      have live := active point (by decide) (by decide)
      have other : run.x ≠ run.lastMsg := fun same => by
        rw [same, live.2] at arrived
        cases arrived
      have next : (run.x + 1) % 2 ^ 8 = run.x + 1 := Nat.mod_eq_of_lt (by omega)
      rw [next]
      refine ⟨last, tries, kept.past, fun _ => live, ?_⟩
      simp only [Reach, point]
      exact Nat.succ_le_of_lt more
  | offer point more missing =>
      exact ⟨last, tries, kept.past, fun _ => active point (by decide) (by decide),
        Nat.le_of_lt_succ more, missing⟩
  | listen point done =>
      exact ⟨last, tries, kept.past, fun _ => active point (by decide) (by decide), trivial⟩
  | unsent point fails more =>
      rw [Reach, point] at reach
      exact ⟨last, Nat.succ_le_of_lt more, kept.past,
        fun _ => active point (by decide) (by decide), Nat.le_succ_of_le reach.1⟩
  | sendReset point fails spent =>
      exact ⟨last, tries, kept.past, fun _ => active point (by decide) (by decide), trivial⟩
  | sent point works =>
      rw [Reach, point] at reach
      exact ⟨last, tries, kept.past, fun _ => active point (by decide) (by decide), reach.1⟩
  | timeout point fails more =>
      rw [Reach, point] at reach
      exact ⟨last, Nat.succ_le_of_lt more, kept.past,
        fun _ => active point (by decide) (by decide), Nat.le_succ_of_le reach⟩
  | reconnect point four =>
      -- `tries` stops at three, so it never equals four.
      rw [four] at tries
      exact absurd tries (by decide)
  | waitReset point fails spent =>
      exact ⟨last, tries, kept.past, fun _ => active point (by decide) (by decide), trivial⟩
  | waited point works =>
      rw [Reach, point] at reach
      exact ⟨last, tries, kept.past, fun _ => active point (by decide) (by decide),
        Nat.le_trans (Nat.mod_le (run.x + 1) (2 ^ 8)) (Nat.succ_le_succ reach)⟩
  | connected point =>
      rw [Reach, point] at reach
      exact reach.elim
  | connectReset point =>
      rw [Reach, point] at reach
      exact reach.elim
  | broken point none =>
      exact ⟨last, tries, kept.past, fun _ => active point (by decide) (by decide), trivial⟩
  | rejected point received refused more =>
      exact enter_kept last tries kept.past (active point (by decide) (by decide)).2
  | @incomplete point datagram received awaited code missing more =>
      obtain ⟨small, unset⟩ := getmsg_count_missing (bitmap_small datagram)
      exact enter_kept small tries kept.past unset
  | givenUp point received open' spent pload =>
      exact ⟨last, tries, kept.past, fun active => absurd (Or.inl rfl) active, trivial⟩
  | advance point received completes =>
      have live := active point (by decide) (by decide)
      exact enter_kept (by decide : 9 ≤ 255) tries (Nat.succ_le_of_lt live.1)
        (Nat.zero_testBit 9)
  | ended final => exact kept

theorem moved_last (last : run.lastMsg ≤ 9) (tame : ¬ TakesWide run answer)
    (moved : Moved run answer next) : next.lastMsg ≤ 9 := by
  cases moved with
  | rejected point received refused more => exact (enter_block_last run).trans_le last
  | @incomplete point datagram received awaited code missing more =>
      rw [enter_block_last]
      rcases wide_or_clear datagram.bitmap missing with wide | clear
      · exact absurd ⟨point, more, datagram, received, awaited, code, wide⟩ tame
      · exact (getmsg_count_clear clear).1
  | advance point received completes => exact (enter_block_last _).le
  | _ => exact last

end Steps

section Block

variable {start : Sender} {answers : Nat → Answer}

theorem after_add (start : Sender) (answers : Nat → Answer) (count more : Nat) :
    after start answers (count + more) =
      after (after start answers count) (fun index => answers (count + index)) more := by
  induction more with
  | zero => rfl
  | succ more ih =>
      rw [← Nat.add_assoc, after, ih]
      rfl

theorem after_kept (begins : Kept start) (count : Nat) : Kept (after start answers count) := by
  induction count with
  | zero => exact begins
  | succ count ih => exact moved_kept ih (step_moved _ (answers count))

theorem last_until (begins : start.lastMsg ≤ 9) (count : Nat)
    (tame : ∀ earlier < count, ¬ TakesWide (after start answers earlier) (answers earlier)) :
    (after start answers count).lastMsg ≤ 9 := by
  induction count with
  | zero => exact begins
  | succ count ih =>
      exact moved_last (ih fun earlier before => tame earlier (Nat.lt_succ_of_lt before))
        (tame count (Nat.lt_succ_self count)) (step_moved _ (answers count))

theorem skip_set (point : start.point = .head) (last : start.lastMsg = 255) (first : start.x = 0)
    (count : Nat) (small : count ≤ 16)
    (set : ∀ bit < count, start.recvPayload.testBit bit = true) :
    after start answers count = { start with x := count } := by
  induction count with
  | zero => rw [after, ← first]
  | succ count ih =>
      have arrived : checkList start.recvPayload count = true := set count (Nat.lt_succ_self count)
      have next : (count + 1) % 2 ^ 8 = count + 1 := Nat.mod_eq_of_lt (by omega)
      rw [after, ih (Nat.le_of_succ_le small) fun bit below => set bit (Nat.lt_succ_of_lt below)]
      simp only [step, point, stepHead, last]
      rw [if_pos (by omega), if_pos arrived, next]

theorem wide_leaves (point : start.point = .head) (last : start.lastMsg = 255)
    (first : start.x = 0) (block : start.i < 6) (wide : WideBitmap start.recvPayload) :
    ∃ count, ¬ Inside (after start answers count) := by
  -- Without a clear bit the counter runs off the sixteen bits; else the first
  -- clear one is beyond the ten messages of the block.
  by_cases all : ∀ bit < 16, start.recvPayload.testBit bit = true
  · refine ⟨16, ?_⟩
    rw [skip_set point last first 16 (Nat.le_refl 16) all]
    rintro ⟨-, head⟩
    have below := head point
    simp only [last] at below
    exact absurd (below (by decide)) (by decide)
  · have found : ∃ bit, ¬ (bit < 16 → start.recvPayload.testBit bit = true) := by
      by_contra none
      apply all
      intro bit below
      by_contra unset
      exact none ⟨bit, fun set => unset (set below)⟩
    obtain ⟨bit, unset, least⟩ : ∃ bit, ¬ (bit < 16 → start.recvPayload.testBit bit = true) ∧
        ∀ smaller < bit, smaller < 16 → start.recvPayload.testBit smaller = true := by
      refine ⟨Nat.find found, Nat.find_spec found, ?_⟩
      intro smaller before
      exact not_not.mp (Nat.find_min found before)
    rw [Classical.not_imp] at unset
    have high : 10 ≤ bit := by
      by_contra low
      exact unset.2 (wide.1 bit (Nat.lt_of_not_le low))
    have clear : checkList start.recvPayload bit = false := by
      simpa [checkList] using unset.2
    have small := unset.1
    refine ⟨bit + 1, ?_⟩
    rw [after, skip_set point last first bit (Nat.le_of_lt small)
      fun smaller before => least smaller before (Nat.lt_trans before small)]
    simp only [step, point, stepHead, last]
    rw [if_pos (by omega), clear]
    rintro ⟨send, -⟩
    have upper := (send rfl).2
    have index : (start.i * 10 + bit) % 2 ^ 8 = start.i * 10 + bit := Nat.mod_eq_of_lt (by omega)
    simp only [Sender.index, Bool.false_eq_true, ↓reduceIte, index] at upper
    omega

theorem step_takes_wide {run : Sender} {answer : Answer} (takes : TakesWide run answer)
    (block : run.i < 6) : ∃ bitmap, WideBitmap bitmap ∧
      step run answer = { run with point := .head, x := 0, lastMsg := 255, recvPayload := bitmap } := by
  obtain ⟨point, more, datagram, received, awaited, code, wide⟩ := takes
  refine ⟨datagram.bitmap, wide, ?_⟩
  rw [step, point, received]
  simp only [stepRecv]
  cases client_handle_get_response_cases run.conToken datagram run.recvPayload with
  | rejected fails kept refused => exact absurd ⟨awaited, Or.inr code⟩ refused
  | created awaited' created err all => exact absurd (code.symm.trans created) (by decide)
  | incomplete awaited' code' err taken =>
      rw [err, taken, if_neg (by decide), if_neg wide.2, if_pos more, getmsg_count_set wide.1,
        enterBlock, if_pos (show run.i < blockCount from block)]

/-- A run stays inside its blocks and the sixteen bits exactly when it takes no
bitmap that marks all ten messages and something beside them. -/
theorem inside_iff (msgIndex conToken : Nat) (answers : Nat → Answer) :
    (∀ count, Inside (after (startSender msgIndex conToken) answers count)) ↔
      ∀ count, ¬ TakesWide (after (startSender msgIndex conToken) answers count) (answers count) := by
  have kept := fun count => @after_kept _ answers (kept_start msgIndex conToken) count
  constructor
  · intro inside count takes
    have block := ((kept count).active (active_at takes.1 (by decide) (by decide))).1
    obtain ⟨bitmap, wide, repeats⟩ := step_takes_wide takes block
    obtain ⟨more, leaves⟩ := @wide_leaves
      (step (after (startSender msgIndex conToken) answers count) (answers count))
      (fun index => answers (count + 1 + index)) (by rw [repeats]) (by rw [repeats])
      (by rw [repeats]) (by rw [repeats]; exact block) (by rw [repeats]; exact wide)
    apply leaves
    have later := inside (count + 1 + more)
    rw [after_add] at later
    exact later
  · intro tame count
    exact kept_inside (kept count) (last_until (Nat.le_refl 9) count fun earlier _ => tame earlier)

def wideAnswers : Nat → Answer := fun _ =>
  ⟨0, 0, 0, some ⟨0, tokenBytes 9, coapResponseCodeBadRequest, 2,
    fun position => if position = 0 then 0xff else 0x07⟩⟩

/-- After a first round of ten messages, slot 11 is sent in block 0. -/
theorem inside_fails : ¬ ∀ (msgIndex conToken : Nat) (answers : Nat → Answer) (count : Nat),
    Inside (after (startSender msgIndex conToken) answers count) := by
  intro inside
  exact absurd (inside 0 0 wideAnswers 44) (by decide +kernel)

end Block

end ThingyAccel.CoapRun
