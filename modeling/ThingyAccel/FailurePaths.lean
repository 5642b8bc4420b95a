import ThingyAccel.CoapRun

/-!
Two failure paths of src/networking.c: what `client_handle_get_response` reads of a
short payload, and the branch of `coap_send_fn` that would connect again.
-/
namespace ThingyAccel.FailurePaths

open CoapSend CoapRun

section Response

variable (conToken : Nat) (datagram : Datagram) (pload : Nat)

/-- The handler stays inside the payload, accepts 2.01 and 4.00 with the awaited token
and nothing else, and leaves the bitmap alone when it fails. -/
structure Guarded : Prop where
  reads : ∀ position ∈ (clientHandleGetResponse conToken datagram pload).reads,
    position < datagram.payloadLen
  accepts : (clientHandleGetResponse conToken datagram pload).err = 0 ↔
    Awaited conToken datagram ∧
      (datagram.code = coapResponseCodeCreated ∨ datagram.code = coapResponseCodeBadRequest)
  atomic : (clientHandleGetResponse conToken datagram pload).err < 0 →
    (clientHandleGetResponse conToken datagram pload).pload = pload

def ShortRejection : Prop :=
  Awaited conToken datagram ∧ datagram.code = coapResponseCodeBadRequest ∧ datagram.payloadLen < 2

theorem mem_reads (position : Nat) :
    position ∈ (clientHandleGetResponse conToken datagram pload).reads ↔
      Awaited conToken datagram ∧ datagram.code = coapResponseCodeBadRequest ∧ position < 2 := by
  have two : position < 2 ↔ position = 0 ∨ position = 1 := by omega
  rw [clientHandleGetResponse, Awaited, two]
  split
  · rename_i fails
    simp [fails]
  · rename_i parses
    split
    · rename_i other
      simp [other]
    · rename_i token
      split
      · rename_i created
        simp [created, coapResponseCodeCreated, coapResponseCodeBadRequest]
      · split
        · rename_i rejecting
          have awaited := not_not.mp token
          split
          · have twice : position ∈ [0, 1, 0, 1] ↔ position = 0 ∨ position = 1 := by
              simp only [List.mem_cons, List.not_mem_nil, or_false]
              omega
            exact ⟨fun read => ⟨⟨parses, awaited⟩, rejecting, twice.mp read⟩,
              fun refused => twice.mpr refused.2.2⟩
          · simp [parses, awaited, rejecting]
        · rename_i other
          simp [other]

theorem handled_err_iff :
    (clientHandleGetResponse conToken datagram pload).err = 0 ↔ Awaited conToken datagram ∧
      (datagram.code = coapResponseCodeCreated ∨ datagram.code = coapResponseCodeBadRequest) := by
  cases client_handle_get_response_cases conToken datagram pload with
  | rejected fails kept refused =>
      constructor
      · intro zero
        rw [zero] at fails
        exact absurd fails (by decide)
      · exact fun accepted => absurd accepted refused
  | created awaited code err all => exact ⟨fun _ => ⟨awaited, Or.inl code⟩, fun _ => err⟩
  | incomplete awaited code err taken => exact ⟨fun _ => ⟨awaited, Or.inr code⟩, fun _ => err⟩

theorem handled_atomic (fails : (clientHandleGetResponse conToken datagram pload).err < 0) :
    (clientHandleGetResponse conToken datagram pload).pload = pload := by
  cases client_handle_get_response_cases conToken datagram pload with
  | rejected fails kept refused => exact kept
  | created awaited code err all =>
      rw [err] at fails
      exact absurd fails (by decide)
  | incomplete awaited code err taken =>
      rw [err] at fails
      exact absurd fails (by decide)

theorem guarded_iff :
    Guarded conToken datagram pload ↔ ¬ ShortRejection conToken datagram := by
  constructor
  · rintro guarded ⟨awaited, code, short⟩
    have second := guarded.reads 1
      ((mem_reads conToken datagram pload 1).mpr ⟨awaited, code, by decide⟩)
    omega
  · intro long
    refine ⟨?_, handled_err_iff conToken datagram pload, handled_atomic conToken datagram pload⟩
    intro position read
    obtain ⟨awaited, code, small⟩ := (mem_reads conToken datagram pload position).mp read
    by_contra outside
    exact long ⟨awaited, code, by omega⟩

theorem guarded_fails : ¬ ∀ (conToken : Nat) (datagram : Datagram) (pload : Nat),
    Guarded conToken datagram pload := by
  intro guarded
  have reads := (guarded 9 ⟨0, tokenBytes 9, coapResponseCodeBadRequest, 0, fun _ => 0⟩ 0).reads
  exact absurd (reads 0 (by decide)) (by decide)

end Response

section Reset

variable {start : Sender} {answers : Nat → Answer} {count : Nat}

def fails (run : Sender) (answer : Answer) : Bool :=
  match run.point with
  | .send => decide (answer.sendErr < 0)
  | .wait => decide (answer.waitErr < 0)
  | .head | .connect | .recv | .returned | .reset => false

def failures (start : Sender) (answers : Nat → Answer) : Nat → Nat
  | 0 => 0
  | count + 1 => failures start answers count +
      if fails (after start answers count) (answers count) then 1 else 0

def WaitReset (run : Sender) (answer : Answer) : Prop :=
  run.point = .wait ∧ answer.waitErr < 0 ∧ (step run answer).point = .reset

instance (run : Sender) (answer : Answer) : Decidable (WaitReset run answer) :=
  inferInstanceAs (Decidable (_ ∧ _ ∧ _))

/-- The device is reset for failed waits only after `connect_to_server` was called. -/
def ReconnectsFirst (start : Sender) (answers : Nat → Answer) : Prop :=
  ∀ count, WaitReset (after start answers count) (answers count) →
    ∃ earlier < count, (after start answers earlier).point = .connect

theorem moved_tries {run next : Sender} {answer : Answer} (kept : Kept run)
    (moved : Moved run answer next) (goes : ¬ Final next) :
    next.tries = run.tries + if fails run answer then 1 else 0 := by
  have unmoved : ∀ block : Sender, (enterBlock block).tries = block.tries := by
    intro block
    rw [enterBlock]
    split <;> rfl
  cases moved with
  | unsent point failing | timeout point failing => simp [fails, point, failing]
  | sent point works | waited point works => simp [fails, point, works]
  | skip point | offer point | listen point | connected point => simp [fails, point]
  | rejected point | incomplete point | advance point => simp [fails, point, unmoved]
  | reconnect point four =>
      have tries := kept.tries
      rw [four] at tries
      exact absurd tries (by decide)
  | sendReset | waitReset | connectReset => exact absurd (Or.inr rfl) goes
  | broken | givenUp => exact absurd (Or.inl rfl) goes
  | ended final => exact absurd final goes

theorem ended_before (final : Final (after start answers count)) :
    Final (after start answers (count + 1)) := by
  rw [after, step]
  rcases final with point | point
  · rw [point]
    exact Or.inl point
  · rw [point]
    exact Or.inr point

theorem after_tries (begins : Kept start) (zero : start.tries = 0)
    (goes : ¬ Final (after start answers count)) :
    (after start answers count).tries = failures start answers count := by
  induction count with
  | zero => exact zero
  | succ count ih =>
      rw [after, moved_tries (after_kept begins count) (step_moved _ _) goes,
        ih fun final => goes (ended_before final), failures]

/-- A failed `wait` resets the device as soon as `tries` is spent; the test for four
never succeeds. -/
theorem wait_reset_iff {run : Sender} {answer : Answer} (kept : Kept run) :
    WaitReset run answer ↔ run.point = .wait ∧ answer.waitErr < 0 ∧ ¬ run.tries < 3 := by
  constructor
  · rintro ⟨point, failing, reset⟩
    refine ⟨point, failing, fun more => ?_⟩
    rw [step, point] at reset
    simp only [stepWait] at reset
    rw [if_pos failing, if_pos more] at reset
    cases reset
  · rintro ⟨point, failing, spent⟩
    have four : ¬ (run.tries = 4 ∧ run.reconnected = false) := by
      rintro ⟨four, -⟩
      exact absurd kept.tries (four ▸ by decide)
    refine ⟨point, failing, ?_⟩
    rw [step, point]
    simp only [stepWait]
    rw [if_pos failing, if_neg spent, if_neg four]

theorem never_connects (begins : Kept start) (count : Nat) :
    (after start answers count).point ≠ .connect := by
  intro point
  have reach := (@after_kept start answers begins count).reach
  rw [Reach, point] at reach
  exact reach

/-- The device connects again before it is reset for failed waits exactly in the runs
in which no `wait` fails behind three failed calls. -/
theorem reconnects_first_iff (msgIndex conToken : Nat) (answers : Nat → Answer) :
    ReconnectsFirst (startSender msgIndex conToken) answers ↔
      ∀ count, (after (startSender msgIndex conToken) answers count).point = .wait →
        (answers count).waitErr < 0 → failures (startSender msgIndex conToken) answers count < 3 := by
  have begins := kept_start msgIndex conToken
  have tries := fun count => @after_tries _ answers count begins rfl
  constructor
  · intro first count point failing
    by_contra spent
    have same := tries count (active_at point (by decide) (by decide))
    have resets := (wait_reset_iff (after_kept begins count)).mpr
      ⟨point, failing, same.symm ▸ spent⟩
    obtain ⟨earlier, -, connects⟩ := first count resets
    exact never_connects begins earlier connects
  · intro few count resets
    obtain ⟨point, failing, spent⟩ := (wait_reset_iff (after_kept begins count)).mp resets
    have same := tries count (active_at point (by decide) (by decide))
    exact absurd (same ▸ few count point failing) spent

theorem reconnects_first_fails : ¬ ∀ (msgIndex conToken : Nat) (answers : Nat → Answer),
    ReconnectsFirst (startSender msgIndex conToken) answers := by
  intro first
  have resets : WaitReset (after (startSender 0 0) (fun _ => ⟨0, -11, 0, none⟩) 11)
      ⟨0, -11, 0, none⟩ := by decide +kernel
  obtain ⟨earlier, -, connects⟩ := first 0 0 _ 11 resets
  exact never_connects (kept_start 0 0) earlier connects

end Reset

end ThingyAccel.FailurePaths
