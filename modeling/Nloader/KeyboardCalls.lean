/-
This file follows the keyboard reads that are pending over any sequence of whole calls of
`NtReadFile` on stdin, `nl_kbd_pump` and `NtCancelIoFile`.

There is one slot for the reads of all handles. A read that finds it taken writes over the
request in it, which no pump and no cancel can complete any more, and a cancel takes whatever
request it finds. As long as neither happens, no read is lost and a cancel completes requests of
its own handle only.
-/

import Nloader.Keyboard
import Nloader.Library.Runs

namespace Nloader.Keyboard

open Nloader.Events

/-! ### Requests that wait -/

/-- A call, with the byte that `poll` and `read` give it. -/
inductive Call where
  | ntReadFile (call : ReadCall) (input : Option UInt8)
  | nlKbdPump (input : Option UInt8)
  | ntCancelIoFile (fileHandle ioStatusBlock : Pointer)

/-- A read that returned `STATUS_PENDING`, and whether a call since then has left it
completed. -/
structure Request where
  fileHandle : Pointer
  iosb : Pointer
  event : Option Pointer
  completed : Bool
  deriving DecidableEq

/-- A request is completed when its status block is no longer `STATUS_PENDING` and its event is
signalled. -/
def Request.isCompleted (guest : Guest) (request : Request) : Bool :=
  (guest.block request.iosb).status != statusPending && guest.signaled request.event

/-- A request, looked at after a call. -/
def Request.watch (guest : Guest) (request : Request) : Request :=
  { request with completed := request.completed || request.isCompleted guest }

/-- The request of a read that has just returned `STATUS_PENDING`. -/
def ReadCall.request (call : ReadCall) : Request where
  fileHandle := call.fileHandle
  iosb := call.ioStatusBlock
  event := call.event
  completed := false

/-- The program with the requests so far, the latest first. -/
structure System where
  state : State
  requests : List Request

/-- No read so far. -/
def System.start (guest : Guest) : System where
  state := { kbd := .initial, guest := guest }
  requests := []

/-- One call. -/
def System.perform (beyond : UInt8) (system : System) : Call → System
  | .ntReadFile call input =>
    let result := Keyboard.ntReadFile beyond call input system.state
    { state := result.1,
      requests := ((if result.2 = statusPending then [call.request] else []) ++
        system.requests).map (Request.watch result.1.guest) }
  | .nlKbdPump input =>
    let state := Keyboard.nlKbdPump beyond input system.state
    { state := state, requests := system.requests.map (Request.watch state.guest) }
  | .ntCancelIoFile _ ioStatusBlock =>
    let result := Keyboard.ntCancelIoFile ioStatusBlock system.state
    { state := result.1, requests := system.requests.map (Request.watch result.1.guest) }

/-- The calls as steps. -/
def callStep (beyond : UInt8) (before : System) (call : Call) (after : System) : Prop :=
  after = before.perform beyond call

/-! ### The law -/

/-- The slot records the request. -/
structure Records (kbd : StdinKbd) (request : Request) : Prop where
  active : kbd.active = true
  iosb : kbd.iosb = request.iosb
  event : kbd.event = request.event

/-- A request has been completed, and is so still unless a newer one uses its status block. -/
structure Settled (guest : Guest) (newer : List Request) (request : Request) : Prop where
  completed : request.completed = true
  still : (∀ other ∈ newer, other.iosb ≠ request.iosb) → request.isCompleted guest = true

/-- Every request is the latest and in the slot, or it has been completed. -/
def NoLostRead (system : System) : Prop :=
  ∀ newer request older, system.requests = newer ++ request :: older →
    (newer = [] ∧ Records system.state.kbd request) ∨
      Settled system.state.guest newer request

/-- The requests that are completed after a call and were not before it are those of one
handle. -/
def CompletesOnly (fileHandle : Pointer) (before after : System) : Prop :=
  ∀ (position : Nat) (earlier later : Request),
    before.requests[position]? = some earlier →
    after.requests[position]? = some later → earlier.completed = false →
    later.completed = true → earlier.fileHandle = fileHandle

/-- A call that finds the slot as it needs it: a read that parks finds it free, and a cancel
finds in it no request of another handle. -/
def Undisturbed (system : System) : Call → Prop
  | .ntReadFile call input =>
    call.length = sizeofKeyboardInputData → input = none → system.state.kbd.active = false
  | .nlKbdPump _ => True
  | .ntCancelIoFile fileHandle _ =>
    system.state.kbd.active = true →
      ∀ request : Request, request ∈ system.requests.head? → request.fileHandle = fileHandle

/-! ### What one call preserves -/

theorem isCompleted_iff {guest : Guest} {request : Request} :
    request.isCompleted guest = true ↔
      (guest.block request.iosb).status ≠ statusPending ∧
        guest.signaled request.event = true := by
  rw [Request.isCompleted, Bool.and_eq_true, bne_iff_ne]

/-- A completed request stays so under writes that do not make its block pending. -/
theorem isCompleted_writeAll {request : Request} {writes : List Write}
    (other : ∀ write ∈ writes, write ≠ .status request.iosb statusPending) {guest : Guest}
    (completed : request.isCompleted guest = true) :
    request.isCompleted (guest.writeAll writes) = true := by
  induction writes generalizing guest with
  | nil => exact completed
  | cons write writes inductionHypothesis =>
    obtain ⟨settled, signaled⟩ := isCompleted_iff.mp completed
    refine inductionHypothesis (fun write later => other write (List.mem_cons_of_mem _ later)) ?_
    exact isCompleted_iff.mpr
      ⟨write.status_apply (other write List.mem_cons_self) settled, write.signaled_apply signaled⟩

/-- A delivery completes the request in the slot. -/
theorem isCompleted_deliver (beyond ch : UInt8) {kbd : StdinKbd} {request : Request}
    (records : Records kbd request) (guest : Guest) :
    request.isCompleted (guest.writeAll (kbd.deliver beyond ch)) = true := by
  rw [isCompleted_iff, ← records.iosb, ← records.event]
  refine ⟨?_, signaled_deliverKbdEvent beyond kbd.unitId ch kbd.buffer kbd.iosb kbd.event guest⟩
  rw [StdinKbd.deliver, block_deliverKbdEvent]
  decide

/-- A cancel completes the request in the slot. -/
theorem isCompleted_cancelWrites (ioStatusBlock : Pointer) {kbd : StdinKbd} {request : Request}
    (records : Records kbd request) (guest : Guest) :
    request.isCompleted (guest.writeAll (cancelWrites kbd ioStatusBlock)) = true := by
  rw [isCompleted_iff, ← records.iosb, ← records.event]
  refine ⟨?_, signaled_cancelWrites records.active ioStatusBlock guest⟩
  rw [block_cancelWrites records.active]
  decide

/-- The invariant: no request is lost, and the slot records the latest request when it is
taken. -/
structure Tracked (system : System) : Prop where
  kept : NoLostRead system
  latest : system.state.kbd.active = true →
    ∃ request older, system.requests = request :: older ∧ Records system.state.kbd request

theorem tracked_start (guest : Guest) : Tracked (.start guest) where
  kept := by
    intro newer request older shape
    simp only [System.start, List.nil_eq, List.append_eq_nil_iff, reduceCtorEq, and_false] at shape
  latest active := absurd active Bool.false_ne_true

/-- Looking at a request does not change which request it is. -/
theorem Records.watch {kbd : StdinKbd} {request : Request} (records : Records kbd request)
    (guest : Guest) : Records kbd (request.watch guest) where
  active := records.active
  iosb := records.iosb
  event := records.event

/-- A settled request stays settled under writes that make no block pending. -/
theorem Settled.watch {guest after : Guest} {newer : List Request} {request : Request}
    (settled : Settled guest newer request)
    (keeps : request.isCompleted guest = true → request.isCompleted after = true) :
    Settled after (newer.map (Request.watch after)) (request.watch after) where
  completed := by rw [Request.watch, settled.completed, Bool.true_or]
  still apart := keeps (settled.still fun other mem =>
    apart (other.watch after) (List.mem_map_of_mem mem))

/-- A request that the writes of a call complete is settled after it. -/
theorem Settled.of_isCompleted {guest : Guest} {newer : List Request} {request : Request}
    (completed : request.isCompleted guest = true) :
    Settled guest newer (request.watch guest) where
  completed := by rw [Request.watch, completed, Bool.or_true]
  still _ := completed

/-- A call that parks no request: it leaves the slot as it is, or it completes the request in
it and frees it. -/
theorem Tracked.watch {system : System} (tracked : Tracked system) {kbd : StdinKbd}
    {writes : List Write} (never : NeverPending writes)
    (taken : kbd = system.state.kbd ∨ kbd.active = false ∧
      ∀ request, Records system.state.kbd request →
        request.isCompleted (system.state.guest.writeAll writes) = true) :
    Tracked
      { state := { kbd := kbd, guest := system.state.guest.writeAll writes },
        requests :=
          system.requests.map (Request.watch (system.state.guest.writeAll writes)) } where
  kept := by
    intro newer request older shape
    obtain ⟨newer, rest, requests_eq, rfl, rest_eq⟩ := List.map_eq_append_iff.mp shape
    obtain ⟨request, older, rfl, rfl, rfl⟩ := List.map_eq_cons_iff.mp rest_eq
    rcases tracked.kept newer request older requests_eq with ⟨rfl, records⟩ | settled
    · rcases taken with same | ⟨_, completes⟩
      · exact .inl ⟨rfl, same ▸ records.watch _⟩
      · exact .inr (.of_isCompleted (completes request records))
    · exact .inr (settled.watch fun completed =>
        isCompleted_writeAll (fun write mem => never write mem request.iosb) completed)
  latest := by
    intro active
    rcases taken with same | ⟨free, _⟩
    · obtain ⟨request, older, requests_eq, records⟩ := tracked.latest (same ▸ active)
      exact ⟨request.watch (system.state.guest.writeAll writes), _,
        congrArg (List.map _) requests_eq, same ▸ records.watch _⟩
    · exact absurd (free.symm.trans active) Bool.false_ne_true

/-- A read that parks its request in a free slot. -/
theorem Tracked.park {system : System} (tracked : Tracked system)
    (free : system.state.kbd.active = false) (call : ReadCall) :
    let guest := system.state.guest.writeAll (pendingWrites call.ioStatusBlock)
    Tracked
      { state := { kbd := Keyboard.park call, guest := guest },
        requests := (call.request :: system.requests).map (Request.watch guest) } := by
  intro guest
  have latest : Records (Keyboard.park call) (call.request.watch guest) := ⟨rfl, rfl, rfl⟩
  refine ⟨?_, fun _ => ⟨_, _, List.map_cons, latest⟩⟩
  intro newer request older shape
  cases newer with
  | nil =>
    have request_eq := (List.cons.inj shape).1
    exact .inl ⟨rfl, request_eq ▸ latest⟩
  | cons first newer =>
    rw [List.map_cons, List.cons_append] at shape
    obtain ⟨first_eq, rest_eq⟩ := List.cons.inj shape
    obtain ⟨newer, rest, requests_eq, rfl, older_eq⟩ := List.map_eq_append_iff.mp rest_eq
    obtain ⟨request, older, rfl, rfl, rfl⟩ := List.map_eq_cons_iff.mp older_eq
    rcases tracked.kept newer request older requests_eq with ⟨_, records⟩ | settled
    · exact absurd (free.symm.trans records.active) Bool.false_ne_true
    · refine .inr ⟨by rw [Request.watch, settled.completed, Bool.true_or], fun apart => ?_⟩
      have other : call.ioStatusBlock ≠ request.iosb :=
        apart (call.request.watch guest) (first_eq ▸ List.mem_cons_self)
      refine isCompleted_writeAll ?_ (settled.still fun other mem =>
        apart (other.watch guest) (List.mem_cons_of_mem _ (List.mem_map_of_mem mem)))
      intro write mem same
      rcases List.mem_cons.mp mem with rfl | mem
      · exact other (Write.status.inj same).1
      · rw [List.mem_singleton.mp mem] at same
        exact Write.noConfusion same

/-- One undisturbed call keeps the invariant. -/
theorem Tracked.perform {beyond : UInt8} {system : System} (tracked : Tracked system)
    {call : Call} (undisturbed : Undisturbed system call) :
    Tracked (system.perform beyond call) := by
  cases call with
  | ntReadFile call input =>
    by_cases length : call.length = sizeofKeyboardInputData
    · cases input with
      | none =>
        simp only [System.perform, ntReadFile_parks beyond length, if_true]
        exact tracked.park (undisturbed length rfl) call
      | some ch =>
        simp only [System.perform, ntReadFile_delivers beyond length,
          if_neg (show statusSuccess ≠ statusPending by decide)]
        exact tracked.watch (neverPending_deliverKbdEvent _ _ _ _ _ _) (.inl rfl)
    · simp only [System.perform, ntReadFile_refuses beyond length,
        if_neg (show statusInvalidParameter ≠ statusPending by decide)]
      refine tracked.watch ?_ (.inl rfl)
      intro write mem iosb
      rw [List.mem_singleton.mp mem]
      simp [statusInvalidParameter, statusPending]
  | nlKbdPump input =>
    have none_pending : NeverPending [] := fun _ mem => absurd mem List.not_mem_nil
    have unchanged := tracked.watch none_pending (.inl rfl)
    cases input with
    | none =>
      simp only [System.perform, nlKbdPump_none]
      exact unchanged
    | some ch =>
      by_cases active : system.state.kbd.active = true
      · simp only [System.perform, nlKbdPump_delivers beyond ch active]
        exact tracked.watch (neverPending_deliverKbdEvent _ _ _ _ _ _)
          (.inr ⟨rfl, fun request records => isCompleted_deliver beyond ch records _⟩)
      · simp only [System.perform, nlKbdPump_free beyond (some ch) active]
        exact unchanged
  | ntCancelIoFile fileHandle ioStatusBlock =>
    exact tracked.watch (neverPending_cancelWrites system.state.kbd ioStatusBlock)
      (.inr ⟨rfl, fun request records => isCompleted_cancelWrites ioStatusBlock records _⟩)

/-! ### Runs of calls -/

/-- The calls of a list, the latest first. -/
def System.performAll (beyond : UInt8) (system : System) : List Call → System
  | [] => system
  | call :: earlier => (system.performAll beyond earlier).perform beyond call

/-- All calls of a list meet a condition where they are made. -/
def AllowedAll (beyond : UInt8) (allowed : System → Call → Prop) (system : System) :
    List Call → Prop
  | [] => True
  | call :: earlier =>
    allowed (system.performAll beyond earlier) call ∧ AllowedAll beyond allowed system earlier

/-- A list of calls is a run. -/
theorem System.run_performAll (beyond : UInt8) (allowed : System → Call → Prop) (system : System)
    (calls : List Call) (all : AllowedAll beyond allowed system calls) :
    Runs.Run (Runs.Restrict (callStep beyond) allowed) system calls
      (system.performAll beyond calls) := by
  induction calls with
  | nil => exact .nil
  | cons call earlier inductionHypothesis =>
    exact .cons (inductionHypothesis all.2) ⟨all.1, rfl⟩

/-- A cancel on the handle of the request in the slot completes no other handle's request. -/
theorem Tracked.completesOnly {system after : System} (tracked : Tracked system)
    {fileHandle ioStatusBlock : Pointer}
    (undisturbed : Undisturbed system (.ntCancelIoFile fileHandle ioStatusBlock)) :
    CompletesOnly fileHandle system after := by
  intro position earlier later found _ waiting _
  obtain ⟨inside, earlier_eq⟩ := List.getElem?_eq_some_iff.mp found
  have shape : system.requests =
      system.requests.take position ++ earlier :: system.requests.drop (position + 1) := by
    rw [← earlier_eq, List.cons_getElem_drop_succ, List.take_append_drop]
  rcases tracked.kept _ _ _ shape with ⟨newer_eq, records⟩ | settled
  · rw [newer_eq, List.nil_append] at shape
    exact undisturbed records.active earlier (by rw [shape]; rfl)
  · exact absurd (waiting.symm.trans settled.completed) Bool.false_ne_true

/-- In every sequence of calls of which no read finds the slot taken and no cancel finds in it a
request of another handle, every pending read has been completed or is the one in the slot, and
a cancel completes only requests of its own handle. -/
theorem no_lost_read (beyond : UInt8) (guest : Guest) {calls : List Call} {system : System}
    (run : Runs.Run (Runs.Restrict (callStep beyond) Undisturbed) (.start guest) calls system) :
    NoLostRead system ∧ ∀ fileHandle ioStatusBlock,
      Undisturbed system (.ntCancelIoFile fileHandle ioStatusBlock) →
        CompletesOnly fileHandle system
          (system.perform beyond (.ntCancelIoFile fileHandle ioStatusBlock)) := by
  have tracked : Tracked system := by
    refine run.preserves (tracked_start guest) ?_
    intro before call after tracked next
    obtain ⟨undisturbed, after_eq⟩ := next
    rw [after_eq]
    exact tracked.perform undisturbed
  exact ⟨tracked.kept, fun _ _ undisturbed => tracked.completesOnly undisturbed⟩

/-! ### The slot of a read that is not done -/

/-- A read that the pump completes, and one that is cancelled on its own handle. -/
def readsInTurn : List Call :=
  [.ntCancelIoFile 11 50, .ntReadFile (.number 1) none, .nlKbdPump (some 0x71),
    .ntReadFile (.number 0) none]

theorem no_lost_read_example : NoLostRead (System.performAll 0 (.start .zeros) readsInTurn) := by
  have own : Undisturbed (System.performAll 0 (.start .zeros) readsInTurn.tail)
      (.ntCancelIoFile 11 50) := by
    intro _ request latest
    rw [← Option.some.inj latest]
    rfl
  have run := System.run_performAll 0 Undisturbed (.start .zeros) readsInTurn
    ⟨own, fun _ _ => rfl, trivial, fun _ _ => rfl, trivial⟩
  exact (no_lost_read 0 .zeros run).1

/-- Two reads on two handles. -/
def readsAtOnce : List Call := [.ntReadFile (.number 1) none, .ntReadFile (.number 0) none]

/-- The program after the two reads. -/
def twoReads : System := System.performAll 0 (.start .zeros) readsAtOnce

/-- The first of two reads is in no slot and is not completed, and a cancel on its handle
completes the second. -/
theorem not_no_lost_read :
    (∃ calls, Runs.Run (callStep 0) (.start .zeros) calls twoReads) ∧ ¬ NoLostRead twoReads ∧
      ¬ CompletesOnly 10 twoReads (twoReads.perform 0 (.ntCancelIoFile 10 50)) := by
  have run := System.run_performAll 0 (fun _ _ => True) (.start .zeros) readsAtOnce
    ⟨trivial, trivial, trivial⟩
  refine ⟨⟨readsAtOnce, run.unrestrict⟩, ?_, ?_⟩
  · intro kept
    rcases kept [(ReadCall.number 1).request] (ReadCall.number 0).request [] rfl with
      ⟨newer_eq, _⟩ | settled
    · exact absurd newer_eq (List.cons_ne_nil _ _)
    · exact absurd settled.completed Bool.false_ne_true
  · intro completes
    exact absurd (completes 0 _ _ rfl rfl rfl rfl) (by decide)

end Nloader.Keyboard
