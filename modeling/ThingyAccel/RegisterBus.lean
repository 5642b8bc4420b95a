import Mathlib.Logic.Function.Basic
import Mathlib.Data.List.Basic

/-!
Byte registers behind a bus whose transfers may fail, and the routines of a driver over
them. A routine ends with a value or with an error code; the transfers that it makes are
counted, so that what the bus does with each of them is fixed from outside.
-/
namespace ThingyAccel.RegisterBus

/-! Routines. -/

def Routine (State α : Type) := State → Except Int α × State

instance (State : Type) : Monad (Routine State) where
  pure value := fun state => (.ok value, state)
  bind action next := fun state =>
    match action state with
    | (.ok value, state) => next value state
    | (.error code, state) => (.error code, state)

variable {State α β : Type}

def fail (code : Int) : Routine State α := fun state => (.error code, state)

def update (change : State → State) : Routine State Unit := fun state => (.ok (), change state)

/-- `if (ret) return ret;` behind a call. -/
def checked (call : State → Int × α × State) : Routine State α := fun state =>
  let (ret, value, state) := call state
  if ret = 0 then (.ok value, state) else (.error ret, state)

def negative (ret : Int) : Bool := decide (ret < 0)

def nonzero (ret : Int) : Bool := decide (ret ≠ 0)

/-- `if (refused(ret)) return code;` behind a call that returns `ret`. -/
def failWith (refused : Int → Bool) (code : Int → Int) (action : Routine State Unit) :
    Routine State Unit := fun state =>
  match action state with
  | (.ok (), state) => (.ok (), state)
  | (.error ret, state) => if refused ret then (.error (code ret), state) else (.ok (), state)

def ignored (action : Routine State α) : Routine State Unit := fun state => (.ok (), (action state).2)

theorem bind_run (action : Routine State α) (next : α → Routine State β) (state : State) :
    (action >>= next) state = match action state with
      | (.ok value, state) => next value state
      | (.error code, state) => (.error code, state) := rfl

theorem bind_value {action : Routine State α} {state after : State} {value : α}
    (ends : action state = (.ok value, after)) (next : α → Routine State β) :
    (action >>= next) state = next value after := by
  rw [bind_run, ends]

theorem bind_error {action : Routine State α} {state after : State} {code : Int}
    (ends : action state = (.error code, after)) (next : α → Routine State β) :
    (action >>= next) state = (.error code, after) := by
  rw [bind_run, ends]

theorem checked_zero {call : State → Int × α × State} {state after : State} {value : α}
    (returns : call state = (0, value, after)) : checked call state = (.ok value, after) := by
  simp only [checked, returns, ↓reduceIte]

theorem checked_nonzero {call : State → Int × α × State} {state after : State} {value : α}
    {ret : Int} (returns : call state = (ret, value, after)) (failed : ret ≠ 0) :
    checked call state = (.error ret, after) := by
  simp only [checked, returns, failed, ↓reduceIte]

/-! Histories of calls. -/
section Histories

variable {Call : Type} (routine : Call → Routine State Unit)

/-- The state behind a sequence of calls, and which of them returned zero. -/
def perform : List Call → State → State × List (Call × Bool)
  | [], state => (state, [])
  | call :: rest, state =>
      let (result, after) := routine call state
      let (last, record) := perform rest after
      (last, (call, result.isOk) :: record)

def lastRelevant (relevant : Call → Bool) : List (Call × Bool) → Option (Call × Bool)
  | [] => none
  | (call, ok) :: rest =>
      (lastRelevant relevant rest).or (if relevant call then some (call, ok) else none)

variable {routine}

theorem perform_invariant {invariant : State → Prop} {calls : List Call}
    (kept : ∀ call ∈ calls, ∀ state, invariant state → invariant (routine call state).2)
    {state : State} (holds : invariant state) : invariant (perform routine calls state).1 := by
  induction calls generalizing state with
  | nil => exact holds
  | cons call rest ih =>
      obtain ⟨first, later⟩ := List.forall_mem_cons.mp kept
      exact ih later (first state holds)

/-- A relevant call that succeeds establishes something of itself, which irrelevant calls
keep; it holds behind a history whose last relevant call succeeded. -/
theorem last_established {relevant : Call → Bool} {established : Option Call → State → Prop}
    (sets : ∀ call state, relevant call = true → (routine call state).1.isOk = true →
      established (some call) (routine call state).2)
    (keeps : ∀ past call state, relevant call = false → established past state →
      established past (routine call state).2)
    (calls : List Call) {past : Option Call} {state : State}
    (holds : lastRelevant relevant (perform routine calls state).2 = none → established past state)
    (succeeded : ∀ call ok, lastRelevant relevant (perform routine calls state).2 = some (call, ok) →
      ok = true) :
    established (((lastRelevant relevant (perform routine calls state).2).map Prod.fst).or past)
      (perform routine calls state).1 := by
  induction calls generalizing state past with
  | nil => exact holds rfl
  | cons call rest ih =>
      simp only [perform, lastRelevant] at holds succeeded ⊢
      have later := @ih (if relevant call then some call else past) (routine call state).2
      cases last : lastRelevant relevant (perform routine rest (routine call state).2).2 with
      | some result =>
          rw [last] at later succeeded
          exact later (fun impossible => by cases impossible) succeeded
      | none =>
          rw [last] at later holds succeeded
          rw [Option.none_or] at holds succeeded
          cases concerns : relevant call with
          | true =>
              rw [concerns] at later succeeded
              exact later (fun _ => sets call state concerns (succeeded call _ rfl))
                (fun _ _ impossible => by cases impossible)
          | false =>
              rw [concerns] at later holds
              exact later (fun _ => keeps past call state concerns (holds rfl))
                (fun _ _ impossible => by cases impossible)

end Histories

/-! Registers. -/

/-- What the bus does with a transfer. A failed write may have reached the registers with
some of its bytes; a failed read leaves anything in the buffer. -/
structure Transfer where
  error : Int
  documented : error ≤ 0
  reached : Nat
  left : Nat → UInt8

/-- The registers that hold what is written to them, the writes that reset these and to
which values, and what the other registers show at the time of each transfer. -/
structure Wiring where
  stored : Nat → Bool
  resets : Nat → UInt8 → Bool
  initial : Nat → UInt8
  sensed : Nat → Nat → UInt8
  transfer : Nat → Transfer

/-- The registers, and how many transfers there have been. -/
structure Registers where
  values : Nat → UInt8
  transfers : Nat

section Access

variable (wiring : Wiring)

def store (values : Nat → UInt8) (address : Nat) (value : UInt8) : Nat → UInt8 :=
  if wiring.resets address value then wiring.initial
  else if wiring.stored address then Function.update values address value
  else values

/-- The address counts up along the bytes of a transfer. -/
def storeAll (values : Nat → UInt8) (address : Nat) : List UInt8 → Nat → UInt8
  | [] => values
  | value :: rest => storeAll (store wiring values address value) (address + 1) rest

def Registers.shown (registers : Registers) (address : Nat) : UInt8 :=
  if wiring.stored address then registers.values address
  else wiring.sensed registers.transfers address

def Registers.write (registers : Registers) (address : Nat) (data : List UInt8) : Int × Registers :=
  let transfer := wiring.transfer registers.transfers
  let arrived := if transfer.error = 0 then data else data.take transfer.reached
  (transfer.error, ⟨storeAll wiring registers.values address arrived, registers.transfers + 1⟩)

def Registers.read (registers : Registers) (address length : Nat) :
    Int × List UInt8 × Registers :=
  let transfer := wiring.transfer registers.transfers
  let byte (index : Nat) : UInt8 :=
    if transfer.error = 0 then registers.shown wiring (address + index) else transfer.left index
  (transfer.error, (List.range length).map byte,
    { registers with transfers := registers.transfers + 1 })

/-- No write to these addresses is a reset. -/
def Plain (address length : Nat) : Prop :=
  ∀ offset < length, ∀ value, wiring.resets (address + offset) value = false

variable {wiring}

theorem plain_tail {address length : Nat} (plain : Plain wiring address (length + 1)) :
    Plain wiring (address + 1) length := by
  intro offset bound value
  rw [Nat.add_assoc, Nat.add_comm 1 offset]
  exact plain (offset + 1) (Nat.succ_lt_succ bound) value

theorem store_all_other {values : Nat → UInt8} {address other : Nat} {data : List UInt8}
    (plain : Plain wiring address data.length)
    (outside : other < address ∨ address + data.length ≤ other) :
    storeAll wiring values address data other = values other := by
  induction data generalizing values address with
  | nil => rfl
  | cons value rest ih =>
      rw [List.length_cons] at outside
      rw [storeAll, ih (plain_tail plain) (by omega), store,
        if_neg (by simpa using plain 0 (Nat.succ_pos _) value)]
      split
      · exact Function.update_of_ne (by omega) _ _
      · rfl

theorem store_all_inside {values : Nat → UInt8} {address offset : Nat} {data : List UInt8}
    {value : UInt8} (plain : Plain wiring address data.length)
    (present : data[offset]? = some value) (held : wiring.stored (address + offset) = true) :
    storeAll wiring values address data (address + offset) = value := by
  induction data generalizing values address offset with
  | nil => cases present
  | cons first rest ih =>
      cases offset with
      | zero =>
          cases present
          rw [Nat.add_zero] at held ⊢
          rw [storeAll, store_all_other (plain_tail plain) (Or.inl (Nat.lt_succ_self _)), store,
            if_neg (by simpa using plain 0 (Nat.succ_pos _) value), if_pos held,
            Function.update_self]
      | succ offset =>
          rw [← Nat.add_assoc, Nat.add_right_comm] at held ⊢
          rw [storeAll]
          exact ih (plain_tail plain) present held

end Access

/-! Fields of a register: the bits of a mask, written over what was there. -/

theorem field_written (old mask data : UInt8) (within : data &&& mask = data) :
    (old &&& ~~~mask ||| data) &&& mask = data := by
  apply UInt8.toBitVec_inj.mp
  apply BitVec.eq_of_getLsbD_eq
  intro bit bound
  have same := congrArg (fun byte => byte.toBitVec.getLsbD bit) within
  simp only [UInt8.toBitVec_and, UInt8.toBitVec_or, UInt8.toBitVec_not, BitVec.getLsbD_and,
    BitVec.getLsbD_or, BitVec.getLsbD_not] at same ⊢
  revert same
  cases old.toBitVec.getLsbD bit <;> cases mask.toBitVec.getLsbD bit <;>
    cases data.toBitVec.getLsbD bit <;> simp [bound]

theorem field_apart (old mask data other : UInt8) (apart : mask &&& other = 0)
    (within : data &&& mask = data) : (old &&& ~~~mask ||| data) &&& other = old &&& other := by
  apply UInt8.toBitVec_inj.mp
  apply BitVec.eq_of_getLsbD_eq
  intro bit bound
  have same := congrArg (fun byte => byte.toBitVec.getLsbD bit) within
  have none := congrArg (fun byte => byte.toBitVec.getLsbD bit) apart
  simp only [UInt8.toBitVec_and, UInt8.toBitVec_or, UInt8.toBitVec_not, BitVec.getLsbD_and,
    BitVec.getLsbD_or, BitVec.getLsbD_not] at same none ⊢
  revert same none
  cases old.toBitVec.getLsbD bit <;> cases mask.toBitVec.getLsbD bit <;>
    cases data.toBitVec.getLsbD bit <;> cases other.toBitVec.getLsbD bit <;> simp [bound]

theorem field_set (old mask data bits : UInt8) (apart : mask &&& bits = 0) (set : bits ||| old = old) :
    bits ||| (old &&& ~~~mask ||| data) = old &&& ~~~mask ||| data := by
  apply UInt8.toBitVec_inj.mp
  apply BitVec.eq_of_getLsbD_eq
  intro bit bound
  have same := congrArg (fun byte => byte.toBitVec.getLsbD bit) set
  have none := congrArg (fun byte => byte.toBitVec.getLsbD bit) apart
  simp only [UInt8.toBitVec_and, UInt8.toBitVec_or, UInt8.toBitVec_not, BitVec.getLsbD_and,
    BitVec.getLsbD_or, BitVec.getLsbD_not] at same none ⊢
  revert same none
  cases old.toBitVec.getLsbD bit <;> cases mask.toBitVec.getLsbD bit <;>
    cases data.toBitVec.getLsbD bit <;> cases bits.toBitVec.getLsbD bit <;> simp [bound]

theorem or_inside (bits left right : UInt8) :
    bits ||| (left ||| (bits ||| right)) = left ||| (bits ||| right) := by
  rw [← UInt8.or_assoc bits left, UInt8.or_comm bits left, UInt8.or_assoc, ← UInt8.or_assoc bits bits,
    UInt8.or_self]

theorem or_front {bits old : UInt8} (set : bits ||| old = old) (added : UInt8) :
    bits ||| (old ||| added) = old ||| added := by
  rw [← UInt8.or_assoc, set]

theorem field_within (value mask shift : UInt8) :
    (value &&& mask) <<< shift &&& (mask &&& mask) <<< shift = (value &&& mask) <<< shift := by
  rw [← UInt8.shiftLeft_and, UInt8.and_self, UInt8.and_assoc, UInt8.and_self]

/-! Routines whose transfers are all done, or which end with an error. -/

def Done (wiring : Wiring) (start count : Nat) : Prop :=
  ∀ index < count, (wiring.transfer (start + index)).error = 0

theorem done_add {wiring : Wiring} (start first second : Nat) :
    Done wiring start (first + second) ↔
      Done wiring start first ∧ Done wiring (start + first) second := by
  constructor
  · intro done
    refine ⟨fun index bound => done index (by omega), ?_⟩
    intro index bound
    rw [Nat.add_assoc]
    exact done (first + index) (by omega)
  · rintro ⟨before, behind⟩ index bound
    by_cases early : index < first
    · exact before index early
    · have later := behind (index - first) (by omega)
      rwa [Nat.add_assoc, Nat.add_sub_cancel' (by omega)] at later

/-- With all of its `count` transfers done the routine has this value and this effect;
otherwise it ends with a negative code. -/
structure Runs (wiring : Wiring) (clock : State → Nat) (count : Nat) (value : State → α)
    (effect : State → State) (action : Routine State α) : Prop where
  done : ∀ state, Done wiring (clock state) count → action state = (.ok (value state), effect state)
  failed : ∀ state, ¬ Done wiring (clock state) count → ∃ code < 0, (action state).1 = .error code
  elapsed : ∀ state, clock (effect state) = clock state + count

section Composition

variable {wiring : Wiring} {clock : State → Nat}

theorem runs_pure (value : α) :
    Runs wiring clock 0 (fun _ => value) id (pure value : Routine State α) := by
  refine ⟨fun _ _ => rfl, ?_, fun _ => rfl⟩
  intro state undone
  exact absurd (fun index bound => absurd bound (Nat.not_lt_zero index)) undone

theorem runs_update {change : State → State} (timeless : ∀ state, clock (change state) = clock state) :
    Runs wiring clock 0 (fun _ => ()) change (update change) := by
  refine ⟨fun _ _ => rfl, ?_, timeless⟩
  intro state undone
  exact absurd (fun index bound => absurd bound (Nat.not_lt_zero index)) undone

theorem runs_bind {first second : Nat} {value : State → α} {effect : State → State}
    {action : Routine State α} {value' : α → State → β} {effect' : α → State → State}
    {next : α → Routine State β} (runs : Runs wiring clock first value effect action)
    (then' : ∀ result, Runs wiring clock second (value' result) (effect' result) (next result)) :
    Runs wiring clock (first + second) (fun state => value' (value state) (effect state))
      (fun state => effect' (value state) (effect state)) (action >>= next) := by
  refine ⟨?_, ?_, ?_⟩
  · intro state done
    obtain ⟨before, behind⟩ := (done_add _ _ _).mp done
    rw [bind_value (runs.done state before)]
    apply (then' (value state)).done
    rwa [runs.elapsed]
  · intro state undone
    by_cases before : Done wiring (clock state) first
    · rw [bind_value (runs.done state before)]
      apply (then' (value state)).failed
      rw [runs.elapsed]
      exact fun behind => undone ((done_add _ _ _).mpr ⟨before, behind⟩)
    · obtain ⟨code, negative, ends⟩ := runs.failed state before
      refine ⟨code, negative, ?_⟩
      rw [bind_run]
      cases run : action state with
      | mk result after =>
          rw [run] at ends
          cases ends
          rfl
  · intro state
    rw [(then' (value state)).elapsed, runs.elapsed, Nat.add_assoc]

theorem negative_caught : ∀ ret < 0, negative ret = true := fun _ below => decide_eq_true below

theorem nonzero_caught : ∀ ret < 0, nonzero ret = true := fun _ below =>
  decide_eq_true (Int.ne_of_lt below)

theorem runs_fail_with {count : Nat} {effect : State → State} {action : Routine State Unit}
    {refused : Int → Bool} {code : Int → Int} (caught : ∀ ret < 0, refused ret = true)
    (below : ∀ ret < 0, code ret < 0)
    (runs : Runs wiring clock count (fun _ => ()) effect action) :
    Runs wiring clock count (fun _ => ()) effect (failWith refused code action) := by
  refine ⟨?_, ?_, runs.elapsed⟩
  · intro state done
    rw [failWith, runs.done state done]
  · intro state undone
    obtain ⟨ret, short, ends⟩ := runs.failed state undone
    refine ⟨code ret, below ret short, ?_⟩
    rw [failWith]
    cases run : action state with
    | mk result after =>
        rw [run] at ends
        cases ends
        simp only [caught ret short, ↓reduceIte]

theorem fail_with_code {count : Nat} {effect : State → State} {action : Routine State Unit}
    {refused : Int → Bool} (caught : ∀ ret < 0, refused ret = true) (code : Int)
    (runs : Runs wiring clock count (fun _ => ()) effect action) {state : State}
    (undone : ¬ Done wiring (clock state) count) :
    ∃ after, failWith refused (fun _ => code) action state = (.error code, after) := by
  obtain ⟨ret, short, ends⟩ := runs.failed state undone
  rw [failWith]
  cases run : action state with
  | mk result after =>
      rw [run] at ends
      cases ends
      exact ⟨after, by simp only [caught ret short, ↓reduceIte]⟩

end Composition

end ThingyAccel.RegisterBus
