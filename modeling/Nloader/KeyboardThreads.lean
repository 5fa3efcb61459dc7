/-
This file takes the keyboard calls of `src/libs/ntdll/io.c` apart into atomic steps, for any
number of threads that run them at the same time: each critical section under the mutex of
`g_stdin_kbd`, each `poll` and `read` of stdin and each unprotected write is one step.

Parkings and the bytes that pumps read are numbered as they happen. The numbers are not in the
program; they tell one use of the slot from the next, and one byte from another of the same
value.
-/

import Nloader.Keyboard
import Nloader.Library.Threads

namespace Nloader.Keyboard

open Nloader.Events Runs

/-! ### Places and steps -/

/-- Who polls and reads stdin. -/
inductive Reader where
  | pump (fd : Int)
  | file (call : ReadCall)

/-- What the writes of a thread are for. -/
inductive Purpose where
  /-- A pump delivers a byte to a request it has taken. -/
  | deliver (parking byte : Nat)
  /-- A read completes its own request. -/
  | inline
  /-- A read marks the request it has parked. -/
  | pending (parking : Nat)
  /-- A cancel that came after so many parkings, with the one it has taken. -/
  | cancel (parkings : Nat) (taken : Option Nat)
  deriving DecidableEq

/-- Where a thread is. -/
inductive Place where
  /-- In none of the calls. -/
  | outside
  /-- Before its `poll`. -/
  | polling (reader : Reader)
  /-- Before its `read`. -/
  | reading (reader : Reader)
  /-- Before the critical section of `NtReadFile`. -/
  | parking (call : ReadCall)
  /-- Before the second critical section of `nl_kbd_pump`, with the byte it has read. -/
  | taking (byte : Nat) (ch : UInt8)
  /-- After the critical sections, with the writes that are left. -/
  | writing (purpose : Purpose) (writes : List Write)

/-- The state of the program with the numbers of parkings and of bytes read by pumps. -/
structure Shared extends State where
  parkings : Nat
  bytes : Nat

/-- The number of the parking that is in the slot when it is taken. -/
def Shared.latest (shared : Shared) : Nat := shared.parkings - 1

/-- Which step a thread takes, with what the system answers. -/
inductive Move where
  | nlKbdPump
  | ntReadFile (call : ReadCall)
  | ntCancelIoFile (ioStatusBlock : Pointer)
  | poll (ready : Bool)
  | read (input : Option UInt8)
  | park
  | take
  | write
  | leave

/-- What happens in a step. -/
inductive Effect where
  | silent
  | read (byte : Nat) (ch : UInt8)
  | parked (parking : Nat) (call : ReadCall)
  | took (parking : Nat) (byte : Option Nat)
  | wrote (purpose : Purpose) (write : Write)
  | returned (purpose : Purpose)

/-- Where a thread goes on when stdin gives no byte: a pump returns, a read parks its
request. -/
def Reader.nothing : Reader → Place
  | .pump _ => .outside
  | .file call => .parking call

/-- One step of a thread. -/
def act (beyond : UInt8) (shared : Shared) : Place → Move → Option (Effect × Shared × Place)
  | .outside, .nlKbdPump =>
    some (.silent, shared,
      if shared.kbd.active then .polling (.pump shared.kbd.fd) else .outside)
  | .outside, .ntReadFile call =>
    some (.silent, shared,
      if call.length ≠ sizeofKeyboardInputData then
        .writing .inline [.status call.ioStatusBlock statusInvalidParameter]
      else .polling (.file call))
  | .outside, .ntCancelIoFile ioStatusBlock =>
    let taken := if shared.kbd.active then some shared.latest else none
    some (match taken with
      | some parking => .took parking none
      | none => .silent,
      { shared with kbd := shared.kbd.taken },
      .writing (.cancel shared.parkings taken) (cancelWrites shared.kbd ioStatusBlock))
  | .polling reader, .poll ready =>
    some (.silent, shared, if ready then .reading reader else reader.nothing)
  | .reading reader, .read none => some (.silent, shared, reader.nothing)
  | .reading (.pump _), .read (some ch) =>
    some (.read shared.bytes ch, { shared with bytes := shared.bytes + 1 },
      .taking shared.bytes ch)
  | .reading (.file call), .read (some ch) =>
    some (.silent, shared, .writing .inline (call.deliver beyond ch))
  | .parking call, .park =>
    some (.parked shared.parkings call,
      { shared with kbd := park call, parkings := shared.parkings + 1 },
      .writing (.pending shared.parkings) (pendingWrites call.ioStatusBlock))
  | .taking byte ch, .take =>
    if shared.kbd.active then
      some (.took shared.latest (some byte), { shared with kbd := shared.kbd.taken },
        .writing (.deliver shared.latest byte) (shared.kbd.deliver beyond ch))
    else some (.silent, shared, .outside)
  | .writing purpose (write :: writes), .write =>
    some (.wrote purpose write, { shared with guest := write.apply shared.guest },
      .writing purpose writes)
  | .writing purpose [], .leave => some (.returned purpose, shared, .outside)
  | _, _ => none

/-- No thread is in a call, and the slot is free. -/
def begin (Thread : Type) (guest : Guest) : Threads Thread Shared Place where
  shared := { kbd := .initial, guest := guest, parkings := 0, bytes := 0 }
  place _ := .outside

/-! ### What a step can do -/

/-- A place between two sections or answers of stdin, where a thread holds nothing. -/
inductive Idle : Place → Prop
  | outside : Idle .outside
  | polling (reader : Reader) : Idle (.polling reader)
  | reading (reader : Reader) : Idle (.reading reader)
  | parking (call : ReadCall) : Idle (.parking call)

/-- It is `NtReadFile` that polls and reads. -/
def Reader.isFile : Reader → Prop
  | .pump _ => False
  | .file _ => True

/-- A place of `NtReadFile` before its request is parked and marked. -/
def Place.readsFile : Place → Prop
  | .polling reader | .reading reader => reader.isFile
  | .parking _ | .writing (.pending _) _ => True
  | _ => False

/-- The steps, those that are alike put together. -/
inductive Acts (beyond : UInt8) (shared : Shared) : Place → Move → Effect → Shared → Place → Prop
  | idle {place : Place} {move : Move} {next : Place} (idle : Idle next)
      (file : next.readsFile → place.readsFile ∨ ∃ call, move = .ntReadFile call) :
      Acts beyond shared place move .silent shared next
  | inline {place : Place} {move : Move} {writes : List Write} (never : NeverPending writes) :
      Acts beyond shared place move .silent shared (.writing .inline writes)
  | read {place : Place} {move : Move} (ch : UInt8) :
      Acts beyond shared place move (.read shared.bytes ch)
        { shared with bytes := shared.bytes + 1 } (.taking shared.bytes ch)
  | park (call : ReadCall) :
      Acts beyond shared (.parking call) .park (.parked shared.parkings call)
        { shared with kbd := Keyboard.park call, parkings := shared.parkings + 1 }
        (.writing (.pending shared.parkings) (pendingWrites call.ioStatusBlock))
  | take {byte : Nat} {ch : UInt8} (active : shared.kbd.active = true) :
      Acts beyond shared (.taking byte ch) .take (.took shared.latest (some byte))
        { shared with kbd := shared.kbd.taken }
        (.writing (.deliver shared.latest byte) (shared.kbd.deliver beyond ch))
  | cancel (ioStatusBlock : Pointer) (active : shared.kbd.active = true) :
      Acts beyond shared .outside (.ntCancelIoFile ioStatusBlock) (.took shared.latest none)
        { shared with kbd := shared.kbd.taken }
        (.writing (.cancel shared.parkings (some shared.latest))
          (cancelWrites shared.kbd ioStatusBlock))
  | cancelNothing (ioStatusBlock : Pointer) (free : shared.kbd.active = false) :
      Acts beyond shared .outside (.ntCancelIoFile ioStatusBlock) .silent
        { shared with kbd := shared.kbd.taken }
        (.writing (.cancel shared.parkings none) (cancelWrites shared.kbd ioStatusBlock))
  | write {purpose : Purpose} {write : Write} {writes : List Write} :
      Acts beyond shared (.writing purpose (write :: writes)) .write (.wrote purpose write)
        { shared with guest := write.apply shared.guest } (.writing purpose writes)
  | leave {purpose : Purpose} :
      Acts beyond shared (.writing purpose []) .leave (.returned purpose) shared .outside

theorem Reader.idle_nothing (reader : Reader) : Idle reader.nothing := by
  cases reader with
  | pump fd => exact .outside
  | file call => exact .parking call

/-- Only a read goes on without a byte to the parking of a request. -/
theorem Reader.isFile_of_nothing {reader : Reader} (file : reader.nothing.readsFile) :
    reader.isFile := by
  cases reader with
  | pump fd => exact file
  | file call => trivial

theorem act_inj {effect effect' : Effect} {shared shared' : Shared} {place place' : Place}
    (same : some (effect, shared, place) = some (effect', shared', place')) :
    effect = effect' ∧ shared = shared' ∧ place = place' := by
  simpa only [Option.some.injEq, Prod.mk.injEq] using same

/-- What a thread does is one of the steps. -/
theorem acts_of_act {beyond : UInt8} {shared after : Shared} {place next : Place} {move : Move}
    {effect : Effect} (step : act beyond shared place move = some (effect, after, next)) :
    Acts beyond shared place move effect after next := by
  rw [act.eq_def] at step
  split at step
  case h_1 =>
    obtain ⟨rfl, rfl, rfl⟩ := act_inj step
    split
    · exact .idle (.polling _) False.elim
    · exact .idle .outside False.elim
  case h_2 call =>
    obtain ⟨rfl, rfl, rfl⟩ := act_inj step
    split
    · refine .inline fun write mem iosb => ?_
      rw [List.mem_singleton.mp mem]
      simp [statusInvalidParameter, statusPending]
    · exact .idle (.polling _) fun _ => .inr ⟨call, rfl⟩
  case h_3 ioStatusBlock =>
    obtain ⟨rfl, rfl, rfl⟩ := act_inj step
    cases active : shared.kbd.active with
    | true => exact .cancel ioStatusBlock active
    | false => exact .cancelNothing ioStatusBlock active
  case h_4 reader ready =>
    obtain ⟨rfl, rfl, rfl⟩ := act_inj step
    cases ready with
    | true => exact .idle (.reading _) fun file => .inl file
    | false => exact .idle reader.idle_nothing fun file => .inl (Reader.isFile_of_nothing file)
  case h_5 reader =>
    obtain ⟨rfl, rfl, rfl⟩ := act_inj step
    exact .idle reader.idle_nothing fun file => .inl (Reader.isFile_of_nothing file)
  case h_6 fd ch =>
    obtain ⟨rfl, rfl, rfl⟩ := act_inj step
    exact .read ch
  case h_7 call ch =>
    obtain ⟨rfl, rfl, rfl⟩ := act_inj step
    exact .inline (neverPending_deliverKbdEvent _ _ _ _ _ _)
  case h_8 call =>
    obtain ⟨rfl, rfl, rfl⟩ := act_inj step
    exact .park call
  case h_9 byte ch =>
    split at step
    · next active =>
      obtain ⟨rfl, rfl, rfl⟩ := act_inj step
      exact .take active
    · obtain ⟨rfl, rfl, rfl⟩ := act_inj step
      exact .idle .outside False.elim
  case h_10 purpose write writes =>
    obtain ⟨rfl, rfl, rfl⟩ := act_inj step
    exact .write
  case h_11 purpose =>
    obtain ⟨rfl, rfl, rfl⟩ := act_inj step
    exact .leave
  case h_12 => cases step

/-- A step of the keyboard calls changes an event only by an `NtSetEvent`. -/
theorem event_of_act {beyond : UInt8} {shared after : Shared} {place next : Place} {move : Move}
    {effect : Effect} (step : act beyond shared place move = some (effect, after, next)) :
    (∃ purpose handle, effect = .wrote purpose (.setEvent handle) ∧
      after.guest = (Write.setEvent handle).apply shared.guest) ∨
      (∀ purpose handle, effect ≠ .wrote purpose (.setEvent handle)) ∧
        after.guest.event = shared.guest.event := by
  cases acts_of_act step with
  | idle | inline | read | park | take | cancel | cancelNothing | leave =>
    exact .inr ⟨fun _ _ same => (nomatch same), rfl⟩
  | @write purpose write writes =>
    cases write with
    | setEvent handle => exact .inl ⟨purpose, handle, rfl, rfl⟩
    | unitId | makeCode | flags | information | status =>
      exact .inr ⟨fun _ _ same => (nomatch (Effect.wrote.inj same).2), rfl⟩

/-! ### A call that no other thread interrupts -/

section

variable {Thread : Type} [DecidableEq Thread] (beyond : UInt8) (shared : Shared)
  (thread : Thread) (place : Thread → Place)

/-- A thread does its writes one after the other and returns. -/
theorem alone_writing (purpose : Purpose) (writes : List Write) :
    Alone (act beyond) thread ⟨shared, Function.update place thread (.writing purpose writes)⟩
      ⟨{ shared with guest := shared.guest.writeAll writes },
        Function.update place thread .outside⟩ := by
  induction writes generalizing shared with
  | nil =>
    have leaves : act beyond shared (.writing purpose []) .leave =
        some (.returned purpose, shared, .outside) := rfl
    exact alone_of_act leaves thread place
  | cons write writes inductionHypothesis =>
    have writesOne : act beyond shared (.writing purpose (write :: writes)) .write =
        some (.wrote purpose write, { shared with guest := write.apply shared.guest },
          .writing purpose writes) := rfl
    exact (alone_of_act writesOne thread place).trans (inductionHypothesis _)

/-- The steps of `nl_kbd_pump`, when no other thread takes one in between, are the whole
call. -/
theorem alone_nlKbdPump (input : Option UInt8) :
    ∃ after : Shared, Alone (act beyond) thread
      ⟨shared, Function.update place thread .outside⟩
      ⟨after, Function.update place thread .outside⟩ ∧
        after.toState = nlKbdPump beyond input shared.toState := by
  by_cases active : shared.kbd.active = true
  · have enters : act beyond shared .outside .nlKbdPump =
        some (.silent, shared, .polling (.pump shared.kbd.fd)) := by
      rw [act, if_pos active]
    have polls := (alone_of_act enters thread place).trans (alone_of_act
      (show act beyond shared (.polling (.pump shared.kbd.fd)) (.poll input.isSome) = _ from rfl)
      thread place)
    cases input with
    | none => exact ⟨shared, polls, (nlKbdPump_none beyond _).symm⟩
    | some ch =>
      have reads := polls.trans (alone_of_act
        (show act beyond shared (.reading (.pump shared.kbd.fd)) (.read (some ch)) = _ from rfl)
        thread place)
      have takes : act beyond { shared with bytes := shared.bytes + 1 }
          (.taking shared.bytes ch) .take =
          some (.took shared.latest (some shared.bytes),
            { shared with kbd := shared.kbd.taken, bytes := shared.bytes + 1 },
            .writing (.deliver shared.latest shared.bytes) (shared.kbd.deliver beyond ch)) := by
        rw [act, if_pos active]
        rfl
      refine ⟨_, (reads.trans (alone_of_act takes thread place)).trans
        (alone_writing beyond _ thread place _ _), ?_⟩
      rw [nlKbdPump_delivers beyond ch active]
  · have returns : act beyond shared .outside .nlKbdPump = some (.silent, shared, .outside) := by
      rw [act, if_neg active]
    exact ⟨shared, alone_of_act returns thread place, (nlKbdPump_free beyond input active).symm⟩

/-- The steps of `NtReadFile` on stdin are the whole call. -/
theorem alone_ntReadFile (call : ReadCall) (input : Option UInt8) :
    ∃ after : Shared, Alone (act beyond) thread
      ⟨shared, Function.update place thread .outside⟩
      ⟨after, Function.update place thread .outside⟩ ∧
        after.toState = (ntReadFile beyond call input shared.toState).1 := by
  by_cases length : call.length = sizeofKeyboardInputData
  · have enters : act beyond shared .outside (.ntReadFile call) =
        some (.silent, shared, .polling (.file call)) := by
      rw [act, if_neg (not_not_intro length)]
    have polls := (alone_of_act enters thread place).trans (alone_of_act
      (show act beyond shared (.polling (.file call)) (.poll input.isSome) = _ from rfl)
      thread place)
    cases input with
    | none =>
      have parks := polls.trans (alone_of_act
        (show act beyond shared (.parking call) .park = _ from rfl) thread place)
      refine ⟨_, parks.trans (alone_writing beyond _ thread place _ _), ?_⟩
      rw [ntReadFile_parks beyond length]
    | some ch =>
      have reads := polls.trans (alone_of_act
        (show act beyond shared (.reading (.file call)) (.read (some ch)) = _ from rfl)
        thread place)
      refine ⟨_, reads.trans (alone_writing beyond _ thread place _ _), ?_⟩
      rw [ntReadFile_delivers beyond length]
  · have refuses : act beyond shared .outside (.ntReadFile call) =
        some (.silent, shared,
          .writing .inline [.status call.ioStatusBlock statusInvalidParameter]) := by
      rw [act, if_pos length]
    refine ⟨_, (alone_of_act refuses thread place).trans
      (alone_writing beyond _ thread place _ _), ?_⟩
    rw [ntReadFile_refuses beyond length]

/-- The steps of `NtCancelIoFile` on stdin are the whole call. -/
theorem alone_ntCancelIoFile (ioStatusBlock : Pointer) :
    ∃ after : Shared, Alone (act beyond) thread
      ⟨shared, Function.update place thread .outside⟩
      ⟨after, Function.update place thread .outside⟩ ∧
        after.toState = (ntCancelIoFile ioStatusBlock shared.toState).1 := by
  exact ⟨_, (alone_of_act (show act beyond shared .outside (.ntCancelIoFile ioStatusBlock) = _
    from rfl) thread place).trans (alone_writing beyond _ thread place _ _), rfl⟩

end

end Nloader.Keyboard
