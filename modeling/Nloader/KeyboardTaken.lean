/-
This file shows that every parking of a keyboard read is taken at most once, and that every byte
a pump reads is delivered to at most one request, whatever the order of the steps of all
threads.

What carries it: the slot holds the latest parking, and only while no one has taken it; and no
two pumps hold the same byte.
-/

import Nloader.KeyboardThreads

namespace Nloader.Keyboard

open Runs

/-! ### The law -/

/-- The parking that is taken in a step. -/
def Effect.taken : Effect → Option Nat
  | .took parking _ => some parking
  | _ => none

/-- Writes that deliver a byte that was read to a request that was parked. -/
def Delivers (beyond : UInt8) (effects : List Effect) (parking byte : Nat)
    (writes : List Write) : Prop :=
  ∃ call ch, Effect.parked parking call ∈ effects ∧ Effect.read byte ch ∈ effects ∧
    ∀ write ∈ writes, write ∈ call.deliver beyond ch

/-- No parking is taken twice and none that was not made, no byte is taken for two parkings,
and what a pump writes delivers the byte to the request it has taken it for. -/
structure AtMostOnce (beyond : UInt8) (effects : List Effect) : Prop where
  parking : (effects.filterMap Effect.taken).Nodup
  parked : ∀ parking byte, Effect.took parking byte ∈ effects →
    ∃ call, Effect.parked parking call ∈ effects
  byte : ∀ first second byte, Effect.took first (some byte) ∈ effects →
    Effect.took second (some byte) ∈ effects → first = second
  delivered : ∀ parking byte write, Effect.wrote (.deliver parking byte) write ∈ effects →
    Effect.took parking (some byte) ∈ effects ∧ Delivers beyond effects parking byte [write]

/-! ### The invariant -/

/-- The byte that a pump has read and not yet delivered. -/
def Place.holds : Place → Option Nat
  | .taking byte _ => some byte
  | _ => none

/-- A pump holds a byte that was read and taken for no parking, or it delivers one to the
parking it was taken for. -/
def PlaceOnce (beyond : UInt8) (effects : List Effect) (bytes : Nat) : Place → Prop
  | .taking byte ch =>
    byte < bytes ∧ (∀ parking, Effect.took parking (some byte) ∉ effects) ∧
      Effect.read byte ch ∈ effects
  | .writing (.deliver parking byte) writes =>
    Effect.took parking (some byte) ∈ effects ∧ Delivers beyond effects parking byte writes
  | _ => True

/-- The slot holds the latest parking, which no one has taken. -/
structure Parked (effects : List Effect) (kbd : StdinKbd) (parkings : Nat) : Prop where
  fresh : ∀ byte, Effect.took (parkings - 1) byte ∉ effects
  latest : parkings - 1 < parkings
  call : ∃ call, Effect.parked (parkings - 1) call ∈ effects ∧ kbd = park call

/-- The invariant of all threads. -/
structure Once {Thread : Type} (beyond : UInt8) (effects : List Effect)
    (system : Threads Thread Shared Place) : Prop where
  law : AtMostOnce beyond effects
  takenParkings : ∀ parking byte, Effect.took parking byte ∈ effects →
    parking < system.shared.parkings
  takenBytes : ∀ parking byte, Effect.took parking (some byte) ∈ effects →
    byte < system.shared.bytes
  slot : system.shared.kbd.active = true →
    Parked effects system.shared.kbd system.shared.parkings
  places : ∀ thread, PlaceOnce beyond effects system.shared.bytes (system.place thread)
  apart : ∀ first second byte, (system.place first).holds = some byte →
    (system.place second).holds = some byte → first = second

/-! ### What grows with the run -/

theorem Delivers.subset {beyond : UInt8} {effects : List Effect} {parking byte : Nat}
    {writes fewer : List Write} (delivers : Delivers beyond effects parking byte writes)
    (subset : fewer ⊆ writes) : Delivers beyond effects parking byte fewer := by
  obtain ⟨call, ch, parked, read, each⟩ := delivers
  exact ⟨call, ch, parked, read, fun write mem => each write (subset mem)⟩

theorem Delivers.cons {beyond : UInt8} {effects : List Effect} {parking byte : Nat}
    {writes : List Write} (delivers : Delivers beyond effects parking byte writes)
    (effect : Effect) : Delivers beyond (effect :: effects) parking byte writes := by
  obtain ⟨call, ch, parked, read, each⟩ := delivers
  exact ⟨call, ch, List.mem_cons_of_mem _ parked, List.mem_cons_of_mem _ read, each⟩

/-- A thread keeps its place through a step of another, which takes no byte that it holds. -/
theorem PlaceOnce.mono {beyond : UInt8} {effects : List Effect} {bytes more : Nat} {place : Place}
    (once : PlaceOnce beyond effects bytes place) (grows : bytes ≤ more) {effect : Effect}
    (other : ∀ byte, place.holds = some byte → ∀ parking, effect ≠ .took parking (some byte)) :
    PlaceOnce beyond (effect :: effects) more place := by
  cases place with
  | outside | polling | reading | parking => trivial
  | taking byte ch =>
    obtain ⟨less, fresh, read⟩ := once
    refine ⟨less.trans_le grows, fun parking mem => ?_, List.mem_cons_of_mem _ read⟩
    rcases List.mem_cons.mp mem with same | mem
    · exact other byte rfl parking same.symm
    · exact fresh parking mem
  | writing purpose writes =>
    cases purpose with
    | inline | pending | cancel => trivial
    | deliver parking byte =>
      exact ⟨List.mem_cons_of_mem _ once.1, once.2.cons effect⟩

/-- The law stays with a step that takes nothing and delivers only what it took. -/
theorem AtMostOnce.cons {beyond : UInt8} {effects : List Effect}
    (law : AtMostOnce beyond effects) {effect : Effect} (untaken : effect.taken = none)
    (delivers : ∀ parking byte write, effect = .wrote (.deliver parking byte) write →
      Effect.took parking (some byte) ∈ effects ∧ Delivers beyond effects parking byte [write]) :
    AtMostOnce beyond (effect :: effects) where
  parking := by
    rw [List.filterMap_cons_none untaken]
    exact law.parking
  parked parking byte mem := by
    rcases List.mem_cons.mp mem with rfl | mem
    · exact nomatch untaken
    · obtain ⟨call, parked⟩ := law.parked parking byte mem
      exact ⟨call, List.mem_cons_of_mem _ parked⟩
  byte first second byte firstTook secondTook := by
    have earlier : ∀ parking, Effect.took parking (some byte) ∈ effect :: effects →
        Effect.took parking (some byte) ∈ effects := by
      intro parking mem
      rcases List.mem_cons.mp mem with rfl | mem
      · exact nomatch untaken
      · exact mem
    exact law.byte first second byte (earlier first firstTook) (earlier second secondTook)
  delivered parking byte write mem := by
    have old : Effect.took parking (some byte) ∈ effects ∧
        Delivers beyond effects parking byte [write] := by
      rcases List.mem_cons.mp mem with same | mem
      · exact delivers parking byte write same.symm
      · exact law.delivered parking byte write mem
    exact ⟨List.mem_cons_of_mem _ old.1, old.2.cons effect⟩

/-- The law stays with a step that takes a parking no one has taken, for a byte that was taken
for none. -/
theorem AtMostOnce.took {beyond : UInt8} {effects : List Effect}
    (law : AtMostOnce beyond effects) {parking : Nat} {byte : Option Nat}
    (parked : ∃ call, Effect.parked parking call ∈ effects)
    (freshParking : ∀ byte, Effect.took parking byte ∉ effects)
    (freshByte : ∀ token, byte = some token → ∀ other, Effect.took other (some token) ∉ effects) :
    AtMostOnce beyond (.took parking byte :: effects) where
  parking := by
    rw [List.filterMap_cons_some (show (Effect.took parking byte).taken = some parking from rfl),
      List.nodup_cons]
    refine ⟨fun mem => ?_, law.parking⟩
    obtain ⟨effect, old, taken⟩ := List.mem_filterMap.mp mem
    cases effect with
    | took other token =>
      rw [Effect.taken, Option.some.injEq] at taken
      exact freshParking token (taken ▸ old)
    | silent | read | parked | wrote | returned => exact nomatch taken
  parked other token mem := by
    have made : ∃ call, Effect.parked other call ∈ effects := by
      rcases List.mem_cons.mp mem with same | mem
      · rw [(Effect.took.inj same).1]
        exact parked
      · exact law.parked other token mem
    obtain ⟨call, made⟩ := made
    exact ⟨call, List.mem_cons_of_mem _ made⟩
  byte first second token firstTook secondTook := by
    rcases List.mem_cons.mp firstTook with firstNew | firstOld <;>
      rcases List.mem_cons.mp secondTook with secondNew | secondOld
    · rw [(Effect.took.inj firstNew).1, (Effect.took.inj secondNew).1]
    · exact absurd secondOld (freshByte token (Effect.took.inj firstNew).2.symm second)
    · exact absurd firstOld (freshByte token (Effect.took.inj secondNew).2.symm first)
    · exact law.byte first second token firstOld secondOld
  delivered other token write mem := by
    rcases List.mem_cons.mp mem with same | mem
    · exact nomatch same
    · obtain ⟨took, delivers⟩ := law.delivered other token write mem
      exact ⟨List.mem_cons_of_mem _ took, delivers.cons _⟩

theorem Parked.mono {effects : List Effect} {kbd : StdinKbd} {parkings : Nat}
    (parked : Parked effects kbd parkings) {effect : Effect} (untaken : effect.taken = none) :
    Parked (effect :: effects) kbd parkings where
  fresh byte mem := by
    rcases List.mem_cons.mp mem with rfl | mem
    · exact nomatch untaken
    · exact parked.fresh byte mem
  latest := parked.latest
  call := by
    obtain ⟨call, mem, kbd_eq⟩ := parked.call
    exact ⟨call, List.mem_cons_of_mem _ mem, kbd_eq⟩

/-! ### One step -/

section

variable {Thread : Type} [DecidableEq Thread] {beyond : UInt8} {effects : List Effect}
  {system : Threads Thread Shared Place}

/-- A step that takes no parking keeps the invariant. -/
theorem Once.untaken (once : Once beyond effects system) {effect : Effect} {shared : Shared}
    {mover : Thread} {place : Place} (untaken : effect.taken = none)
    (delivers : ∀ parking byte write, effect = .wrote (.deliver parking byte) write →
      Effect.took parking (some byte) ∈ effects ∧ Delivers beyond effects parking byte [write])
    (parkings : system.shared.parkings ≤ shared.parkings)
    (bytes : system.shared.bytes ≤ shared.bytes)
    (slot : shared.kbd.active = true → Parked (effect :: effects) shared.kbd shared.parkings)
    (placed : PlaceOnce beyond (effect :: effects) shared.bytes place)
    (fresh : ∀ byte, place.holds = some byte → system.shared.bytes ≤ byte) :
    Once beyond (effect :: effects) ⟨shared, Function.update system.place mover place⟩ := by
  have notTook : ∀ parking byte, Effect.took parking byte ∈ effect :: effects →
      Effect.took parking byte ∈ effects := by
    intro parking byte mem
    rcases List.mem_cons.mp mem with rfl | mem
    · exact nomatch untaken
    · exact mem
  have held : ∀ byte, place.holds = some byte → ∀ thread, thread ≠ mover →
      (system.place thread).holds ≠ some byte := by
    intro byte holds thread _ also
    have old := once.places thread
    cases at_thread : system.place thread with
    | outside | polling | reading | parking | writing => rw [at_thread] at also; exact nomatch also
    | taking other ch =>
      rw [at_thread] at also old
      rw [Place.holds, Option.some.injEq] at also
      exact absurd (also ▸ old.1) (Nat.not_lt.mpr (fresh byte holds))
  exact {
    law := once.law.cons untaken delivers
    takenParkings := fun parking byte mem =>
      (once.takenParkings parking byte (notTook parking _ mem)).trans_le parkings
    takenBytes := fun parking byte mem =>
      (once.takenBytes parking byte (notTook parking _ mem)).trans_le bytes
    slot := slot
    places := forall_place _ (fun thread _ => (once.places thread).mono bytes fun _ _ _ same => by
      rw [same] at untaken; exact nomatch untaken) placed
    apart := unique_holder once.apart held }

/-- A step that takes the parking in the slot keeps the invariant. -/
theorem Once.took (once : Once beyond effects system)
    (active : system.shared.kbd.active = true) {mover : Thread} {place : Place}
    {byte : Option Nat}
    (held : ∀ token, byte = some token → (system.place mover).holds = some token)
    (holdsNone : place.holds = none)
    (placed : PlaceOnce beyond (.took system.shared.latest byte :: effects) system.shared.bytes
      place) :
    Once beyond (.took system.shared.latest byte :: effects)
      ⟨{ system.shared with kbd := system.shared.kbd.taken },
        Function.update system.place mover place⟩ := by
  have parked := once.slot active
  have freshByte : ∀ token, byte = some token →
      token < system.shared.bytes ∧ ∀ other, Effect.took other (some token) ∉ effects := by
    intro token byte_eq
    have old := once.places mover
    have holds := held token byte_eq
    cases at_mover : system.place mover with
    | outside | polling | reading | parking | writing => rw [at_mover] at holds; exact nomatch holds
    | taking other ch =>
      rw [at_mover] at holds old
      rw [Place.holds, Option.some.injEq] at holds
      exact ⟨holds ▸ old.1, fun parking mem => old.2.1 parking (holds ▸ mem)⟩
  obtain ⟨call, made, _⟩ := parked.call
  refine ⟨once.law.took ⟨call, made⟩ parked.fresh fun token byte_eq => (freshByte token byte_eq).2,
    ?_, ?_, fun busy => absurd busy Bool.false_ne_true, ?_, ?_⟩
  · intro parking token mem
    rcases List.mem_cons.mp mem with same | mem
    · rw [(Effect.took.inj same).1]
      exact parked.latest
    · exact once.takenParkings parking token mem
  · intro parking token mem
    rcases List.mem_cons.mp mem with same | mem
    · exact (freshByte token (Effect.took.inj same).2.symm).1
    · exact once.takenBytes parking token mem
  · refine forall_place _ (fun thread other => ?_) placed
    refine (once.places thread).mono le_rfl fun token holds parking took => other ?_
    exact once.apart thread mover token holds (held token (Effect.took.inj took).2)
  · refine unique_holder once.apart fun token holds => ?_
    exact nomatch holdsNone.symm.trans holds

/-- Every step keeps the invariant. -/
theorem Once.step (once : Once beyond effects system) {after : Threads Thread Shared Place}
    {label : Label Thread Move Effect} (next : Interleave (act beyond) system label after) :
    Once beyond (label.event :: effects) after := by
  obtain ⟨place, step, _, after_eq⟩ := perform_eq_some next
  rw [after_eq]
  have old := once.places label.thread
  have acts := acts_of_act step
  generalize here_eq : system.place label.thread = here at acts old
  generalize label.move = move at acts
  generalize label.event = effect at acts ⊢
  generalize after.shared = shared at acts ⊢
  cases acts with
  | idle idle _ =>
    refine once.untaken rfl (fun _ _ _ same => nomatch same) le_rfl le_rfl
      (fun active => (once.slot active).mono rfl) ?_ ?_
    · cases idle <;> trivial
    · intro byte holds
      cases idle <;> exact nomatch holds
  | inline _ =>
    exact once.untaken rfl (fun _ _ _ same => nomatch same) le_rfl le_rfl
      (fun active => (once.slot active).mono rfl) trivial (fun _ holds => nomatch holds)
  | read ch =>
    refine once.untaken rfl (fun _ _ _ same => nomatch same) le_rfl (Nat.le_succ _)
      (fun active => (once.slot active).mono rfl) ?_ ?_
    · refine ⟨Nat.lt_succ_self _, fun parking mem => ?_, List.mem_cons_self⟩
      rcases List.mem_cons.mp mem with same | mem
      · exact nomatch same
      · exact absurd (once.takenBytes parking _ mem) (Nat.lt_irrefl _)
    · intro byte holds
      exact le_of_eq (Option.some.inj holds)
  | park call =>
    refine once.untaken rfl (fun _ _ _ same => nomatch same) (Nat.le_succ _) le_rfl ?_ trivial
      (fun _ holds => nomatch holds)
    intro _
    refine ⟨fun byte mem => ?_, Nat.lt_succ_self _, ⟨call, List.mem_cons_self, rfl⟩⟩
    rcases List.mem_cons.mp mem with same | mem
    · exact nomatch same
    · exact absurd (once.takenParkings _ _ mem) (Nat.lt_irrefl _)
  | take active =>
    obtain ⟨call, parked, kbd_eq⟩ := (once.slot active).call
    refine once.took active (fun _ same => ?_) rfl ⟨List.mem_cons_self, call, _,
      List.mem_cons_of_mem _ parked, List.mem_cons_of_mem _ old.2.2, fun write mem => ?_⟩
    · rw [here_eq]
      exact same
    · rw [kbd_eq] at mem
      exact mem
  | cancel ioStatusBlock active =>
    exact once.took active (fun _ same => nomatch same) rfl trivial
  | cancelNothing ioStatusBlock free =>
    exact once.untaken rfl (fun _ _ _ same => nomatch same) le_rfl le_rfl
      (fun active => absurd active Bool.false_ne_true) trivial (fun _ holds => nomatch holds)
  | @write purpose write writes =>
    refine once.untaken rfl ?_ le_rfl le_rfl (fun active => (once.slot active).mono rfl) ?_
      (fun _ holds => nomatch holds)
    · intro parking byte other same
      obtain ⟨rfl, rfl⟩ := Effect.wrote.inj same
      exact ⟨old.1, old.2.subset (List.cons_subset_cons _ (List.nil_subset _))⟩
    · cases purpose with
      | inline | pending | cancel => trivial
      | deliver parking byte =>
        exact ⟨List.mem_cons_of_mem _ old.1, (old.2.subset (List.subset_cons_self _ _)).cons _⟩
  | leave =>
    exact once.untaken rfl (fun _ _ _ same => nomatch same) le_rfl le_rfl
      (fun active => (once.slot active).mono rfl) trivial (fun _ holds => nomatch holds)

/-- The invariant holds where no thread is in a call. -/
theorem once_begin (Thread : Type) (beyond : UInt8) (guest : Guest) :
    Once beyond [] (begin Thread guest) where
  law := {
    parking := List.nodup_nil
    parked := fun _ _ mem => absurd mem List.not_mem_nil
    byte := fun _ _ _ mem => absurd mem List.not_mem_nil
    delivered := fun _ _ _ mem => absurd mem List.not_mem_nil }
  takenParkings _ _ mem := absurd mem List.not_mem_nil
  takenBytes _ _ mem := absurd mem List.not_mem_nil
  slot active := absurd active Bool.false_ne_true
  places _ := trivial
  apart _ _ _ holds := nomatch holds

/-- The invariant holds in every run. -/
theorem once_run (beyond : UInt8) (guest : Guest) {labels : List (Label Thread Move Effect)}
    (run : Run (Interleave (act beyond)) (begin Thread guest) labels system) :
    Once beyond (events labels) system := by
  refine run.invariant (fun labels => Once beyond (events labels))
    (once_begin Thread beyond guest) ?_
  intro _ _ _ _ once next
  exact once.step next

/-- In every interleaving of the steps of any number of threads, each parking is taken at most
once, and each byte that a pump reads is delivered to at most one request. -/
theorem taken_at_most_once (beyond : UInt8) (guest : Guest)
    {labels : List (Label Thread Move Effect)}
    (run : Run (Interleave (act beyond)) (begin Thread guest) labels system) :
    AtMostOnce beyond (events labels) := (once_run beyond guest run).law

/-- Two threads pump at once and each reads a byte; one of them takes the request. -/
def twoPumps : List (Nat × Move) :=
  [(2, .take), (1, .write), (1, .take), (2, .read (some 0x72)), (1, .read (some 0x71)),
    (2, .poll true), (1, .poll true), (2, .nlKbdPump), (1, .nlKbdPump), (0, .write), (0, .park),
    (0, .poll false), (0, .ntReadFile (.number 0))]

theorem taken_at_most_once_example :
    ∃ labels system, performAll (act 0) (begin Nat .zeros) twoPumps = some (labels, system) ∧
      AtMostOnce 0 (events labels) := by
  have possible : (performAll (act 0) (begin Nat .zeros) twoPumps).isSome = true := rfl
  obtain ⟨result, performs⟩ := Option.isSome_iff_exists.mp possible
  exact ⟨result.1, result.2, performs, taken_at_most_once 0 .zeros (run_performAll performs)⟩

end

end Nloader.Keyboard
