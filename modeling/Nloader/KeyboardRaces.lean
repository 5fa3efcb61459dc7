/-
This file follows the writes that the keyboard calls do outside of the mutex of `g_stdin_kbd`.

A pump delivers after it has let the mutex go, so a cancel can return while the writes of a
delivery are still to come; and a read publishes its request before it marks it as pending, so
the mark can come after the completion. Each of the two goes wrong at one kind of step only: the
return of a cancel that finds a delivery under way, and the completion of a request that is not
marked yet. In every run without such steps nothing is written after a cancel, and no completion
is written over.
-/

import Nloader.KeyboardThreads

namespace Nloader.Keyboard

open Nloader.Events Runs

/-! ### Deliveries after a cancel -/

/-- A write to the buffer or to the status block of a request. -/
def Write.onRequest : Write → Prop
  | .setEvent _ => False
  | _ => True

/-- What a pump writes to a request after a cancel has returned is for a request that was parked
after the critical section of the cancel. -/
def NoDeliveryAfterCancel (effects : List Effect) : Prop :=
  effects.Pairwise fun later earlier => ∀ parkings taken parking byte write,
    earlier = .returned (.cancel parkings taken) → later = .wrote (.deliver parking byte) write →
      write.onRequest → parkings ≤ parking

/-- A cancel returns only when no pump has writes left for a request parked before it. -/
def QuietReturn {Thread : Type} (before : Threads Thread Shared Place)
    (label : Label Thread Move Effect) : Prop :=
  ∀ parkings taken, label.event = .returned (.cancel parkings taken) →
    ∀ thread parking byte writes, before.place thread = .writing (.deliver parking byte) writes →
      parking < parkings → ∀ write ∈ writes, ¬ write.onRequest

/-- The slot holds no request that was parked before so many parkings. -/
structure Past (shared : Shared) (parkings : Nat) : Prop where
  le : parkings ≤ shared.parkings
  lt : shared.kbd.active = true → parkings < shared.parkings

/-- A cancel is past the parkings before it, and a pump writes to no request from before a cancel
that has returned. -/
def PlaceCancelled (effects : List Effect) (shared : Shared) : Place → Prop
  | .writing (.cancel parkings _) _ => Past shared parkings
  | .writing (.deliver parking _) writes =>
    ∀ parkings taken, Effect.returned (.cancel parkings taken) ∈ effects → parking < parkings →
      ∀ write ∈ writes, ¬ write.onRequest
  | _ => True

/-- The invariant of the runs in which cancels return quietly. -/
structure Cancelled {Thread : Type} (effects : List Effect)
    (system : Threads Thread Shared Place) : Prop where
  law : NoDeliveryAfterCancel effects
  past : ∀ parkings taken, Effect.returned (.cancel parkings taken) ∈ effects →
    Past system.shared parkings
  places : ∀ thread, PlaceCancelled effects system.shared (system.place thread)

theorem Past.park {shared : Shared} {parkings : Nat} (past : Past shared parkings)
    (call : ReadCall) :
    Past { shared with kbd := Keyboard.park call, parkings := shared.parkings + 1 } parkings where
  le := past.le.trans (Nat.le_succ _)
  lt _ := Nat.lt_succ_of_le past.le

theorem Past.taken {shared : Shared} {parkings : Nat} (le : parkings ≤ shared.parkings) :
    Past { shared with kbd := shared.kbd.taken } parkings where
  le := le
  lt active := absurd active Bool.false_ne_true

/-- A thread keeps its place through a step of another that is not the return of a cancel. -/
theorem PlaceCancelled.mono {effects : List Effect} {shared after : Shared} {place : Place}
    (cancelled : PlaceCancelled effects shared place)
    (past : ∀ parkings, Past shared parkings → Past after parkings) {effect : Effect}
    (other : ∀ parkings taken, effect ≠ .returned (.cancel parkings taken)) :
    PlaceCancelled (effect :: effects) after place := by
  cases place with
  | outside | polling | reading | parking | taking => trivial
  | writing purpose writes =>
    cases purpose with
    | inline | pending => trivial
    | cancel parkings taken => exact past parkings cancelled
    | deliver parking byte =>
      intro parkings taken mem
      rcases List.mem_cons.mp mem with same | mem
      · exact absurd same.symm (other parkings taken)
      · exact cancelled parkings taken mem

section

variable {Thread : Type} [DecidableEq Thread] {effects : List Effect}
  {system : Threads Thread Shared Place}

/-- A step that is not the return of a cancel keeps the invariant. -/
theorem Cancelled.frame (cancelled : Cancelled effects system) {effect : Effect} {shared : Shared}
    {mover : Thread} {place : Place}
    (other : ∀ parkings taken, effect ≠ .returned (.cancel parkings taken))
    (late : ∀ parkings taken parking byte write,
      Effect.returned (.cancel parkings taken) ∈ effects →
        effect = .wrote (.deliver parking byte) write → write.onRequest → parkings ≤ parking)
    (past : ∀ parkings, Past system.shared parkings → Past shared parkings)
    (placed : PlaceCancelled (effect :: effects) shared place) :
    Cancelled (effect :: effects) ⟨shared, Function.update system.place mover place⟩ where
  law := List.pairwise_cons.mpr ⟨fun earlier mem parkings taken parking byte write same =>
    late parkings taken parking byte write (same ▸ mem), cancelled.law⟩
  past parkings taken mem := by
    rcases List.mem_cons.mp mem with same | mem
    · exact absurd same.symm (other parkings taken)
    · exact past parkings (cancelled.past parkings taken mem)
  places := forall_place _ (fun thread _ => (cancelled.places thread).mono past other) placed

/-- The return of a cancel keeps the invariant when it is quiet. -/
theorem Cancelled.returned (cancelled : Cancelled effects system) {parkings : Nat}
    {taken : Option Nat} {mover : Thread} (past : Past system.shared parkings)
    (quiet : ∀ thread parking byte writes,
      system.place thread = .writing (.deliver parking byte) writes → parking < parkings →
        ∀ write ∈ writes, ¬ write.onRequest) :
    Cancelled (.returned (.cancel parkings taken) :: effects)
      ⟨system.shared, Function.update system.place mover .outside⟩ where
  law := List.pairwise_cons.mpr ⟨fun _ _ _ _ _ _ _ _ same => (nomatch same), cancelled.law⟩
  past other taken mem := by
    rcases List.mem_cons.mp mem with same | mem
    · rw [(Purpose.cancel.inj (Effect.returned.inj same)).1]
      exact past
    · exact cancelled.past other taken mem
  places := by
    refine forall_place _ (fun thread _ => ?_) trivial
    have old := cancelled.places thread
    cases at_thread : system.place thread with
    | outside | polling | reading | parking | taking => trivial
    | writing purpose writes =>
      rw [at_thread] at old
      cases purpose with
      | inline | pending => trivial
      | cancel other taken => exact old
      | deliver parking byte =>
        intro other taken mem earlier
        rcases List.mem_cons.mp mem with same | mem
        · rw [(Purpose.cancel.inj (Effect.returned.inj same)).1] at earlier
          exact quiet thread parking byte writes at_thread earlier
        · exact old other taken mem earlier

/-- A step keeps the invariant when cancels return quietly. -/
theorem Cancelled.step (cancelled : Cancelled effects system) {beyond : UInt8}
    {after : Threads Thread Shared Place} {label : Label Thread Move Effect}
    (quiet : QuietReturn system label) (next : Interleave (act beyond) system label after) :
    Cancelled (label.event :: effects) after := by
  obtain ⟨place, step, _, after_eq⟩ := perform_eq_some next
  rw [after_eq]
  have old := cancelled.places label.thread
  have acts := acts_of_act step
  rw [QuietReturn] at quiet
  generalize system.place label.thread = here at acts old
  generalize label.move = move at acts
  generalize label.event = effect at acts quiet ⊢
  generalize after.shared = shared at acts ⊢
  cases acts with
  | idle idle _ =>
    refine cancelled.frame (fun _ _ => Effect.noConfusion) (fun _ _ _ _ _ _ same => nomatch same)
      (fun _ past => past) ?_
    cases idle <;> trivial
  | inline _ =>
    exact cancelled.frame (fun _ _ same => nomatch same) (fun _ _ _ _ _ _ same => nomatch same)
      (fun _ past => past) trivial
  | read ch =>
    exact cancelled.frame (fun _ _ same => nomatch same) (fun _ _ _ _ _ _ same => nomatch same)
      (fun _ past => ⟨past.le, past.lt⟩) trivial
  | park call =>
    exact cancelled.frame (fun _ _ same => nomatch same) (fun _ _ _ _ _ _ same => nomatch same)
      (fun _ past => past.park call) trivial
  | take active =>
    refine cancelled.frame (fun _ _ same => nomatch same) (fun _ _ _ _ _ _ same => nomatch same)
      (fun _ past => .taken past.le) ?_
    intro parkings taken mem earlier
    rcases List.mem_cons.mp mem with same | mem
    · exact nomatch same
    · have later := (cancelled.past parkings taken mem).lt active
      exact absurd earlier (Nat.not_lt.mpr (Nat.le_pred_of_lt later))
  | cancel ioStatusBlock active =>
    exact cancelled.frame (fun _ _ same => nomatch same) (fun _ _ _ _ _ _ same => nomatch same)
      (fun _ past => .taken past.le) (Past.taken le_rfl)
  | cancelNothing ioStatusBlock free =>
    exact cancelled.frame (fun _ _ same => nomatch same) (fun _ _ _ _ _ _ same => nomatch same)
      (fun _ past => .taken past.le) (Past.taken le_rfl)
  | @write purpose write writes =>
    refine cancelled.frame (fun _ _ same => nomatch same) ?_
      (fun _ past => ⟨past.le, past.lt⟩) ?_
    · intro parkings taken parking byte _ mem same onRequest
      obtain ⟨rfl, rfl⟩ := Effect.wrote.inj same
      exact Nat.not_lt.mp fun earlier =>
        old parkings taken mem earlier write List.mem_cons_self onRequest
    · cases purpose with
      | inline | pending => trivial
      | cancel parkings taken => exact ⟨old.le, old.lt⟩
      | deliver parking byte =>
        intro parkings taken mem earlier other later
        rcases List.mem_cons.mp mem with same | mem
        · exact nomatch same
        · exact old parkings taken mem earlier other (List.mem_cons_of_mem _ later)
  | @leave purpose =>
    cases purpose with
    | inline | pending | deliver =>
      exact cancelled.frame (fun _ _ same => nomatch same) (fun _ _ _ _ _ _ same => nomatch same)
        (fun _ past => past) trivial
    | cancel parkings taken => exact cancelled.returned old (quiet parkings taken rfl)

/-- The invariant holds where no thread is in a call. -/
theorem cancelled_begin (Thread : Type) (guest : Guest) : Cancelled [] (begin Thread guest) where
  law := List.Pairwise.nil
  past _ _ mem := absurd mem List.not_mem_nil
  places _ := trivial

/-- In every interleaving in which each cancel returns only when no pump has writes left for a
request parked before it, no pump writes to such a request after the cancel has returned. -/
theorem no_delivery_after_cancel (beyond : UInt8) (guest : Guest)
    {labels : List (Label Thread Move Effect)}
    (run : Run (Restrict (Interleave (act beyond)) QuietReturn) (begin Thread guest) labels
      system) :
    NoDeliveryAfterCancel (events labels) := by
  have cancelled : Cancelled (events labels) system := by
    refine run.invariant (fun labels => Cancelled (events labels))
      (cancelled_begin Thread guest) ?_
    intro _ _ _ _ cancelled next
    exact cancelled.step next.1 next.2
  exact cancelled.law

end

theorem quietReturn_of_other {Thread : Type} {before : Threads Thread Shared Place}
    {label : Label Thread Move Effect}
    (other : ∀ parkings taken, label.event ≠ .returned (.cancel parkings taken)) :
    QuietReturn before label :=
  fun parkings taken same => absurd same (other parkings taken)

/-- A read is parked and cancelled, with no pump. -/
theorem no_delivery_after_cancel_example :
    ∃ labels system, Run (Interleave (act 0)) (begin Bool .zeros) labels system ∧
      (events labels).head? = some (.returned (.cancel 1 (some 0))) ∧
        NoDeliveryAfterCancel (events labels) := by
  have other : ∀ {before : Threads Bool Shared Place} {label : Label Bool Move Effect},
    (∀ parkings taken, label.event ≠ .returned (.cancel parkings taken)) →
      QuietReturn before label := quietReturn_of_other
  have start : Run (Restrict (Interleave (act 0)) QuietReturn) (begin Bool .zeros) []
      (begin Bool .zeros) := .nil
  have polled := (start.andThen false (.ntReadFile (.number 0)) rfl
    (other fun _ _ => Effect.noConfusion)).andThen false (.poll false) rfl
    (other fun _ _ => Effect.noConfusion)
  have parked := ((polled.andThen false .park rfl
    (other fun _ _ => Effect.noConfusion)).andThen false
    .write rfl (other fun _ _ same => nomatch same)).andThen false .write rfl
    (other fun _ _ same => nomatch same)
  have taken := (parked.andThen false .leave rfl (other fun _ _ same => nomatch same)).andThen true
    (.ntCancelIoFile 50) rfl (other fun _ _ same => nomatch same)
  have signalled := ((taken.andThen true .write rfl
    (other fun _ _ same => nomatch same)).andThen true
    .write rfl (other fun _ _ same => nomatch same)).andThen true .write rfl
    (other fun _ _ same => nomatch same)
  have written := signalled.andThen true .write rfl (other fun _ _ same => nomatch same)
  have returned := written.andThen true .leave rfl ?_
  · exact ⟨_, _, returned.unrestrict, rfl, no_delivery_after_cancel 0 .zeros returned⟩
  · intro parkings taken _ thread parking byte writes at_thread
    cases thread <;> exact nomatch at_thread

/-- A pump has taken the request when another thread cancels it. -/
def deliveryUnderWay : List (Nat × Move) :=
  [(1, .write), (2, .leave), (2, .write), (2, .ntCancelIoFile 50), (1, .take),
    (1, .read (some 0x71)), (1, .poll true), (1, .nlKbdPump), (0, .leave), (0, .write),
    (0, .write), (0, .park), (0, .poll false), (0, .ntReadFile (.number 0))]

/-- The pump writes to the buffer of the request after the cancel has returned. -/
theorem not_no_delivery_after_cancel :
    ∃ labels system, Run (Interleave (act 0)) (begin Nat .zeros) labels system ∧
      ¬ NoDeliveryAfterCancel (events labels) := by
  have possible : ((performAll (act 0) (begin Nat .zeros) deliveryUnderWay).map
      fun result => (events result.1).take 2) =
        some [.wrote (.deliver 0 0) (.unitId 30 0), .returned (.cancel 1 none)] := rfl
  obtain ⟨result, performs, latest⟩ := Option.map_eq_some_iff.mp possible
  refine ⟨result.1, result.2, run_performAll performs, fun law => ?_⟩
  have pair := law.sublist (List.take_sublist 2 _)
  rw [latest] at pair
  have later := (List.pairwise_cons.mp pair).1 _ List.mem_cons_self 1 none 0 0 _ rfl rfl trivial
  exact absurd later (by decide)

/-! ### The mark of a request that is completed -/

/-- The parking that the writes complete. -/
def Purpose.completing : Purpose → Option Nat
  | .deliver parking _ => some parking
  | .cancel _ taken => taken
  | .inline | .pending _ => none

/-- The completion of a parking writes its status to a block. -/
def Effect.completes (parking : Nat) (iosb : Pointer) (effect : Effect) : Prop :=
  ∃ purpose value, purpose.completing = some parking ∧
    effect = .wrote purpose (.status iosb value)

/-- The block of a request that has been completed is not `STATUS_PENDING`, unless a newer read
was parked with it. -/
def NeverPutBack (effects : List Effect) (guest : Guest) : Prop :=
  ∀ parking call, Effect.parked parking call ∈ effects →
    (∃ effect ∈ effects, effect.completes parking call.ioStatusBlock) →
      (∀ later other, Effect.parked later other ∈ effects → parking < later →
        other.ioStatusBlock ≠ call.ioStatusBlock) →
        (guest.block call.ioStatusBlock).status ≠ statusPending

/-- A read that has parked this request has still to mark it as pending. -/
def Place.unmarked (parking : Nat) : Place → Prop
  | .writing (.pending other) writes =>
    other = parking ∧ ∃ block, .status block statusPending ∈ writes
  | _ => False

/-- The reads on stdin are made by one thread. -/
def ReadsBy {Thread : Type} (reader : Thread) (_ : Threads Thread Shared Place)
    (label : Label Thread Move Effect) : Prop :=
  ∀ call, label.move = .ntReadFile call → label.thread = reader

/-- A request is completed only after its read has marked it as pending. -/
def MarkedBefore {Thread : Type} (before : Threads Thread Shared Place)
    (label : Label Thread Move Effect) : Prop :=
  ∀ parking iosb, label.event.completes parking iosb →
    ∀ thread, ¬ (before.place thread).unmarked parking

/-- A read marks the block of the latest parking, and no other writes make a block pending. -/
def PlaceMarked (effects : List Effect) (parkings : Nat) : Place → Prop
  | .writing (.pending parking) writes =>
    parking + 1 = parkings ∧ ∃ call, Effect.parked parking call ∈ effects ∧
      ∀ block, .status block statusPending ∈ writes → block = call.ioStatusBlock
  | .writing purpose writes =>
    NeverPending writes ∧ ∀ parking, purpose.completing = some parking → parking < parkings
  | _ => True

/-- The invariant of the runs in which one thread reads and requests are marked before they are
completed. -/
structure Marked {Thread : Type} (reader : Thread) (effects : List Effect)
    (system : Threads Thread Shared Place) : Prop where
  law : NeverPutBack effects system.shared.guest
  reads : ∀ thread, (system.place thread).readsFile → thread = reader
  places : ∀ thread, PlaceMarked effects system.shared.parkings (system.place thread)
  slot : system.shared.kbd.active = true → 0 < system.shared.parkings
  parked : ∀ parking call, Effect.parked parking call ∈ effects →
    parking < system.shared.parkings
  completed : ∀ parking iosb effect, effect ∈ effects → effect.completes parking iosb →
    parking < system.shared.parkings ∧ ∀ thread, ¬ (system.place thread).unmarked parking

theorem PlaceMarked.cons {effects : List Effect} {parkings : Nat} {place : Place}
    (marked : PlaceMarked effects parkings place) (effect : Effect) :
    PlaceMarked (effect :: effects) parkings place := by
  cases place with
  | outside | polling | reading | parking | taking => trivial
  | writing purpose writes =>
    cases purpose with
    | inline | deliver | cancel => exact marked
    | pending parking =>
      obtain ⟨latest, call, parked, own⟩ := marked
      exact ⟨latest, call, List.mem_cons_of_mem _ parked, own⟩

/-- Writes that do not mark a request make no block pending, and complete a request that was
parked. -/
theorem PlaceMarked.completing {effects : List Effect} {parkings : Nat} {purpose : Purpose}
    {writes : List Write} (marked : PlaceMarked effects parkings (.writing purpose writes))
    {parking : Nat} (completing : purpose.completing = some parking) :
    NeverPending writes ∧ parking < parkings ∧
      ∀ other rest, ¬ (Place.writing purpose rest).unmarked other := by
  cases purpose with
  | inline | pending => exact nomatch completing
  | deliver | cancel => exact ⟨marked.1, marked.2 parking completing, fun _ _ => not_false⟩

/-- A write leaves less to be marked. -/
theorem Place.unmarked_of_writes {parking : Nat} {purpose : Purpose} {write : Write}
    {writes : List Write} (unmarked : (Place.writing purpose writes).unmarked parking) :
    (Place.writing purpose (write :: writes)).unmarked parking := by
  cases purpose with
  | inline | deliver | cancel => exact unmarked
  | pending other =>
    obtain ⟨same, block, mem⟩ := unmarked
    exact ⟨same, block, List.mem_cons_of_mem _ mem⟩

theorem PlaceMarked.of_writes {effects : List Effect} {parkings : Nat} {purpose : Purpose}
    {write : Write} {writes : List Write}
    (marked : PlaceMarked effects parkings (.writing purpose (write :: writes))) :
    PlaceMarked effects parkings (.writing purpose writes) := by
  cases purpose with
  | inline | deliver | cancel =>
    exact ⟨fun other mem => marked.1 other (List.mem_cons_of_mem _ mem), marked.2⟩
  | pending parking =>
    obtain ⟨latest, call, parked, own⟩ := marked
    exact ⟨latest, call, parked, fun block mem => own block (List.mem_cons_of_mem _ mem)⟩

/-- Every other place than that of the read that parks. -/
theorem PlaceMarked.park {effects : List Effect} {parkings : Nat} {place : Place}
    (marked : PlaceMarked effects parkings place) (other : ¬ place.readsFile) (effect : Effect) :
    PlaceMarked (effect :: effects) (parkings + 1) place := by
  cases place with
  | outside | polling | reading | parking | taking => trivial
  | writing purpose writes =>
    cases purpose with
    | inline | deliver | cancel =>
      exact ⟨marked.1, fun parking same => (marked.2 parking same).trans (Nat.lt_succ_self _)⟩
    | pending parking => exact absurd trivial other

section

variable {Thread : Type} [DecidableEq Thread] {reader : Thread} {effects : List Effect}
  {system : Threads Thread Shared Place}

/-- A step that parks nothing and writes nothing keeps the invariant. -/
theorem Marked.frame (marked : Marked reader effects system) {effect : Effect} {shared : Shared}
    {mover : Thread} {place : Place} (guest : shared.guest = system.shared.guest)
    (parkings : shared.parkings = system.shared.parkings)
    (notParked : ∀ parking call, effect ≠ .parked parking call)
    (notWrote : ∀ purpose write, effect ≠ .wrote purpose write)
    (slot : shared.kbd.active = true → system.shared.kbd.active = true)
    (reads : place.readsFile → mover = reader)
    (placed : PlaceMarked effects system.shared.parkings place)
    (settled : ∀ parking, ¬ place.unmarked parking) :
    Marked reader (effect :: effects) ⟨shared, Function.update system.place mover place⟩ := by
  have parkedBefore : ∀ parking call, Effect.parked parking call ∈ effect :: effects →
      Effect.parked parking call ∈ effects := by
    intro parking call mem
    rcases List.mem_cons.mp mem with same | mem
    · exact absurd same.symm (notParked parking call)
    · exact mem
  have completedBefore : ∀ parking iosb other, other ∈ effect :: effects →
      other.completes parking iosb → other ∈ effects := by
    intro parking iosb other mem completes
    rcases List.mem_cons.mp mem with same | mem
    · obtain ⟨purpose, value, _, other_eq⟩ := completes
      exact absurd (same.symm.trans other_eq) (notWrote _ _)
    · exact mem
  refine ⟨?_, forall_place (fun thread (place : Place) => place.readsFile → thread = reader)
    (fun thread _ => marked.reads thread) reads, ?_, ?_, ?_, ?_⟩
  · intro parking call parked completed newest
    obtain ⟨other, mem, completes⟩ := completed
    rw [guest]
    refine marked.law parking call (parkedBefore parking call parked)
      ⟨other, completedBefore _ _ other mem completes, completes⟩ fun later call mem => ?_
    exact newest later call (List.mem_cons_of_mem _ mem)
  · rw [parkings]
    exact forall_place _ (fun thread _ => (marked.places thread).cons effect) (placed.cons effect)
  · intro active
    rw [parkings]
    exact marked.slot (slot active)
  · intro parking call mem
    rw [parkings]
    exact marked.parked parking call (parkedBefore parking call mem)
  · intro parking iosb other mem completes
    obtain ⟨less, all⟩ :=
      marked.completed parking iosb other (completedBefore _ _ other mem completes) completes
    rw [parkings]
    exact ⟨less, forall_place (fun _ (place : Place) => ¬ place.unmarked parking)
      (fun thread _ => all thread) (settled parking)⟩

/-- A read that parks its request keeps the invariant. -/
theorem Marked.park (marked : Marked reader effects system) {mover : Thread}
    (isReader : mover = reader) (call : ReadCall) :
    Marked reader (.parked system.shared.parkings call :: effects)
      ⟨{ system.shared with
          kbd := Keyboard.park call, parkings := system.shared.parkings + 1 },
        Function.update system.place mover
          (.writing (.pending system.shared.parkings) (pendingWrites call.ioStatusBlock))⟩ := by
  have notReading : ∀ thread, thread ≠ mover → ¬ (system.place thread).readsFile :=
    fun thread other file => other ((marked.reads thread file).trans isReader.symm)
  have completedBefore : ∀ parking iosb other,
      other ∈ Effect.parked system.shared.parkings call :: effects →
        other.completes parking iosb → other ∈ effects := by
    intro parking iosb other mem completes
    rcases List.mem_cons.mp mem with same | mem
    · obtain ⟨purpose, value, _, other_eq⟩ := completes
      exact nomatch same.symm.trans other_eq
    · exact mem
  refine ⟨?_, forall_place (fun thread (place : Place) => place.readsFile → thread = reader)
    (fun thread _ => marked.reads thread) (fun _ => isReader), ?_, fun _ => Nat.succ_pos _, ?_, ?_⟩
  · intro parking earlier parked completed newest
    obtain ⟨other, mem, completes⟩ := completed
    have old := completedBefore _ _ other mem completes
    refine marked.law parking earlier ?_ ⟨other, old, completes⟩ fun later call mem =>
      newest later call (List.mem_cons_of_mem _ mem)
    rcases List.mem_cons.mp parked with same | parked
    · have less := (marked.completed parking _ other old completes).1
      rw [(Effect.parked.inj same).1] at less
      exact absurd less (Nat.lt_irrefl _)
    · exact parked
  · refine forall_place _ (fun thread other =>
      (marked.places thread).park (notReading thread other) _) ?_
    refine ⟨rfl, call, List.mem_cons_self, fun block mem => ?_⟩
    rcases List.mem_cons.mp mem with same | mem
    · exact (Write.status.inj same).1
    · exact nomatch List.mem_singleton.mp mem
  · intro parking earlier mem
    rcases List.mem_cons.mp mem with same | mem
    · rw [(Effect.parked.inj same).1]
      exact Nat.lt_succ_self _
    · exact (marked.parked parking earlier mem).trans (Nat.lt_succ_self _)
  · intro parking iosb other mem completes
    obtain ⟨less, all⟩ :=
      marked.completed parking iosb other (completedBefore _ _ other mem completes) completes
    refine ⟨less.trans (Nat.lt_succ_self _), ?_⟩
    refine forall_place (fun _ (place : Place) => ¬ place.unmarked parking)
      (fun thread _ => all thread) fun unmarked => ?_
    exact absurd unmarked.1.symm less.ne

omit [DecidableEq Thread] in
/-- The block of a completed request stays as it is, unless a newer read marks it. -/
theorem Marked.not_pending (marked : Marked reader effects system) {mover : Thread}
    {purpose : Purpose} {write : Write} {writes : List Write}
    (at_mover : system.place mover = .writing purpose (write :: writes)) {parking : Nat}
    {call : ReadCall}
    (completed : ∃ effect ∈ effects, effect.completes parking call.ioStatusBlock)
    (newest : ∀ later other, Effect.parked later other ∈ effects → parking < later →
      other.ioStatusBlock ≠ call.ioStatusBlock) :
    write ≠ .status call.ioStatusBlock statusPending := by
  intro same
  have place := marked.places mover
  rw [at_mover] at place
  cases purpose with
  | inline | deliver | cancel => exact place.1 write List.mem_cons_self _ same
  | pending later =>
    obtain ⟨latest, other, parked, own⟩ := place
    obtain ⟨effect, mem, completes⟩ := completed
    obtain ⟨less, all⟩ := marked.completed parking _ effect mem completes
    have same_block := own call.ioStatusBlock (same ▸ List.mem_cons_self)
    rcases Nat.lt_or_eq_of_le (Nat.le_of_lt_succ (latest ▸ less)) with earlier | rfl
    · exact newest later other parked earlier same_block.symm
    · refine all mover ?_
      rw [at_mover]
      exact ⟨rfl, call.ioStatusBlock, same ▸ List.mem_cons_self⟩

/-- A write keeps the invariant when requests are marked before they are completed. -/
theorem Marked.write (marked : Marked reader effects system) {mover : Thread}
    {purpose : Purpose} {write : Write} {writes : List Write}
    (at_mover : system.place mover = .writing purpose (write :: writes))
    (before : ∀ parking iosb, (Effect.wrote purpose write).completes parking iosb →
      ∀ thread, ¬ (system.place thread).unmarked parking) :
    Marked reader (.wrote purpose write :: effects)
      ⟨{ system.shared with guest := write.apply system.shared.guest },
        Function.update system.place mover (.writing purpose writes)⟩ := by
  have place := marked.places mover
  rw [at_mover] at place
  have parkedBefore : ∀ parking call,
      Effect.parked parking call ∈ Effect.wrote purpose write :: effects →
        Effect.parked parking call ∈ effects := by
    intro parking call mem
    rcases List.mem_cons.mp mem with same | mem
    · exact nomatch same
    · exact mem
  refine ⟨?_, ?_, ?_, marked.slot, fun parking call mem =>
    marked.parked parking call (parkedBefore parking call mem), ?_⟩
  · intro parking call parked completed newest
    have newestBefore := fun later other mem =>
      newest later other (List.mem_cons_of_mem _ mem)
    by_cases old : ∃ effect ∈ effects, effect.completes parking call.ioStatusBlock
    · exact write.status_apply (marked.not_pending at_mover old newestBefore)
        (marked.law parking call (parkedBefore parking call parked) old newestBefore)
    · obtain ⟨effect, mem, completes⟩ := completed
      rcases List.mem_cons.mp mem with rfl | mem
      · obtain ⟨purpose', value, completing, same⟩ := completes
        obtain ⟨rfl, rfl⟩ := Effect.wrote.inj same
        rw [Write.status_status, if_pos rfl]
        intro pending
        exact (place.completing completing).1 _ List.mem_cons_self call.ioStatusBlock
          (by rw [pending])
      · exact absurd ⟨effect, mem, completes⟩ old
  · refine forall_place (fun thread (place : Place) => place.readsFile → thread = reader)
      (fun thread _ => marked.reads thread) fun file => marked.reads mover ?_
    rw [at_mover]
    cases purpose with
    | inline | deliver | cancel => exact file
    | pending => trivial
  · exact forall_place _ (fun thread _ => (marked.places thread).cons _) (place.of_writes.cons _)
  · intro parking iosb effect mem completes
    rcases List.mem_cons.mp mem with rfl | mem
    · obtain ⟨purpose', value, completing, same⟩ := id completes
      obtain ⟨rfl, rfl⟩ := Effect.wrote.inj same
      obtain ⟨_, less, never⟩ := place.completing completing
      exact ⟨less, forall_place (fun _ (place : Place) => ¬ place.unmarked parking)
        (fun thread _ => before parking iosb completes thread) (never parking writes)⟩
    · obtain ⟨less, all⟩ := marked.completed parking iosb effect mem completes
      refine ⟨less, forall_place (fun _ (place : Place) => ¬ place.unmarked parking)
        (fun thread _ => all thread) fun unmarked => all mover ?_⟩
      rw [at_mover]
      exact Place.unmarked_of_writes unmarked

/-- A step keeps the invariant when one thread reads and requests are marked before they are
completed. -/
theorem Marked.step (marked : Marked reader effects system) {beyond : UInt8}
    {after : Threads Thread Shared Place} {label : Label Thread Move Effect}
    (reads : ReadsBy reader system label) (before : MarkedBefore system label)
    (next : Interleave (act beyond) system label after) :
    Marked reader (label.event :: effects) after := by
  obtain ⟨place, step, _, after_eq⟩ := perform_eq_some next
  rw [after_eq]
  have isReader := marked.reads label.thread
  have acts := acts_of_act step
  rw [ReadsBy] at reads
  rw [MarkedBefore] at before
  generalize here_eq : system.place label.thread = here at acts isReader
  generalize label.move = move at acts reads
  generalize label.event = effect at acts before ⊢
  generalize after.shared = shared at acts ⊢
  cases acts with
  | idle idle file =>
    refine marked.frame rfl rfl (fun _ _ same => nomatch same) (fun _ _ same => nomatch same) id
      (fun reading => ?_) ?_ ?_
    · rcases file reading with reading | ⟨call, move_eq⟩
      · exact isReader reading
      · exact reads call move_eq
    · cases idle <;> trivial
    · intro parking unmarked
      cases idle <;> exact unmarked
  | inline never =>
    exact marked.frame rfl rfl (fun _ _ same => nomatch same) (fun _ _ same => nomatch same) id
      False.elim ⟨never, fun _ same => nomatch same⟩ (fun _ => not_false)
  | read ch =>
    exact marked.frame rfl rfl (fun _ _ same => nomatch same) (fun _ _ same => nomatch same) id
      False.elim trivial (fun _ => not_false)
  | park call => exact marked.park (isReader trivial) call
  | take active =>
    refine marked.frame rfl rfl (fun _ _ same => nomatch same) (fun _ _ same => nomatch same)
      (fun _ => active) False.elim ⟨neverPending_deliverKbdEvent _ _ _ _ _ _, ?_⟩
      (fun _ => not_false)
    intro parking same
    rw [← Option.some.inj same]
    exact Nat.pred_lt (marked.slot active).ne'
  | cancel ioStatusBlock active =>
    refine marked.frame rfl rfl (fun _ _ same => nomatch same) (fun _ _ same => nomatch same)
      (fun _ => active) False.elim ⟨neverPending_cancelWrites _ _, ?_⟩ (fun _ => not_false)
    intro parking same
    rw [← Option.some.inj same]
    exact Nat.pred_lt (marked.slot active).ne'
  | cancelNothing ioStatusBlock free =>
    exact marked.frame rfl rfl (fun _ _ same => nomatch same) (fun _ _ same => nomatch same)
      (fun active => absurd active Bool.false_ne_true) False.elim
      ⟨neverPending_cancelWrites _ _, fun _ same => nomatch same⟩ (fun _ => not_false)
  | write => exact marked.write here_eq before
  | leave =>
    exact marked.frame rfl rfl (fun _ _ same => nomatch same) (fun _ _ same => nomatch same) id
      False.elim trivial (fun _ => not_false)

omit [DecidableEq Thread] in
/-- The invariant holds where no thread is in a call. -/
theorem marked_begin (reader : Thread) (guest : Guest) : Marked reader [] (begin Thread guest) where
  law _ _ parked := absurd parked List.not_mem_nil
  reads _ file := file.elim
  places _ := trivial
  slot active := absurd active Bool.false_ne_true
  parked _ _ mem := absurd mem List.not_mem_nil
  completed _ _ _ mem := absurd mem List.not_mem_nil

/-- In every interleaving in which one thread reads and a request is completed only after its
read has marked it as pending, no completed request is pending again, unless a newer read was
parked with its block. -/
theorem never_put_back (beyond : UInt8) (guest : Guest) (reader : Thread)
    {labels : List (Label Thread Move Effect)}
    (run : Run (Restrict (Interleave (act beyond)) fun before label =>
      ReadsBy reader before label ∧ MarkedBefore before label) (begin Thread guest) labels
      system) :
    NeverPutBack (events labels) system.shared.guest := by
  have marked : Marked reader (events labels) system := by
    refine run.invariant (fun labels => Marked reader (events labels))
      (marked_begin reader guest) ?_
    intro _ _ _ _ marked next
    exact marked.step next.1.1 next.1.2 next.2
  exact marked.law

end

theorem markedBefore_of_other {Thread : Type} {before : Threads Thread Shared Place}
    {label : Label Thread Move Effect}
    (other : ∀ purpose iosb value, label.event = .wrote purpose (.status iosb value) →
      purpose.completing = none) : MarkedBefore before label := by
  intro parking iosb completes
  obtain ⟨purpose, value, completing, same⟩ := completes
  exact nomatch (other purpose iosb value same).symm.trans completing

/-- A read marks its request, and a pump completes it. -/
theorem never_put_back_example :
    ∃ labels system, Run (Interleave (act 0)) (begin Bool .zeros) labels system ∧
      (events labels).head? = some (.wrote (.deliver 0 0) (.setEvent 40)) ∧
        NeverPutBack (events labels) system.shared.guest := by
  have other : ∀ {before : Threads Bool Shared Place} {label : Label Bool Move Effect},
    (∀ call, label.move = .ntReadFile call → label.thread = false) →
      (∀ purpose iosb value, label.event = .wrote purpose (.status iosb value) →
        purpose.completing = none) →
        ReadsBy false before label ∧ MarkedBefore before label :=
    fun reads marked => ⟨reads, markedBefore_of_other marked⟩
  have start : Run (Restrict (Interleave (act 0)) fun before label =>
      ReadsBy false before label ∧ MarkedBefore before label) (begin Bool .zeros) []
      (begin Bool .zeros) := .nil
  have parked := ((start.andThen false (.ntReadFile (.number 0)) rfl
    (other (fun _ _ => rfl) fun _ _ _ => Effect.noConfusion)).andThen false (.poll false) rfl
    (other (fun _ same => nomatch same) fun _ _ _ => Effect.noConfusion)).andThen false .park rfl
    (other (fun _ same => nomatch same) fun _ _ _ => Effect.noConfusion)
  have marked := ((parked.andThen false .write rfl
    (other (fun _ same => nomatch same) fun _ _ _ same =>
      (Effect.wrote.inj same).1 ▸ rfl)).andThen false .write rfl
    (other (fun _ same => nomatch same) fun _ _ _ same => nomatch same)).andThen false .leave rfl
    (other (fun _ same => nomatch same) fun _ _ _ same => nomatch same)
  have read := ((marked.andThen true .nlKbdPump rfl
    (other (fun _ same => nomatch same) fun _ _ _ => Effect.noConfusion)).andThen true
    (.poll true) rfl (other (fun _ same => nomatch same) fun _ _ _ => Effect.noConfusion)).andThen
    true (.read (some 0x71)) rfl
    (other (fun _ same => nomatch same) fun _ _ _ same => nomatch same)
  have filled := (((read.andThen true .take rfl
    (other (fun _ same => nomatch same) fun _ _ _ same => nomatch same)).andThen true .write rfl
    (other (fun _ same => nomatch same) fun _ _ _ same => nomatch same)).andThen true .write rfl
    (other (fun _ same => nomatch same) fun _ _ _ same => nomatch same)).andThen true .write rfl
    (other (fun _ same => nomatch same) fun _ _ _ same => nomatch same)
  have completed := (filled.andThen true .write rfl
    (other (fun _ same => nomatch same) fun _ _ _ same => nomatch same)).andThen true .write rfl
    ⟨(fun _ same => nomatch same), fun parking _ _ thread unmarked => by
      cases thread <;> exact unmarked⟩
  have signalled := completed.andThen true .write rfl
    (other (fun _ same => nomatch same) fun _ _ _ same => nomatch same)
  exact ⟨_, _, signalled.unrestrict, rfl, never_put_back 0 .zeros false signalled⟩

/-- A pump completes the request before its read marks it. -/
def completedAtOnce : List (Nat × Move) :=
  [(0, .leave), (0, .write), (0, .write), (1, .leave), (1, .write), (1, .write), (1, .write),
    (1, .write), (1, .write), (1, .write), (1, .take), (1, .read (some 0x71)), (1, .poll true),
    (1, .nlKbdPump), (0, .park), (0, .poll false), (0, .ntReadFile (.number 0))]

/-- The block of the completed request is pending, with no information, though no newer read was
parked. -/
theorem not_never_put_back :
    ∃ labels system,
      Run (Restrict (Interleave (act 0)) (ReadsBy 0)) (begin Nat .zeros) labels system ∧
        system.shared.guest.block 20 = { status := statusPending, information := 0 } ∧
          system.shared.guest.signaled (some 40) = true ∧
            ¬ NeverPutBack (events labels) system.shared.guest := by
  have possible : ((performAll (act 0) (begin Nat .zeros) completedAtOnce).map fun result =>
      (events result.1, result.2.shared.guest.block 20,
        result.2.shared.guest.signaled (some 40))) =
      some ([.returned (.pending 0), .wrote (.pending 0) (.information 20 0),
        .wrote (.pending 0) (.status 20 statusPending), .returned (.deliver 0 0),
        .wrote (.deliver 0 0) (.setEvent 40), .wrote (.deliver 0 0) (.status 20 statusSuccess),
        .wrote (.deliver 0 0) (.information 20 12), .wrote (.deliver 0 0) (.flags 30 keyBreak),
        .wrote (.deliver 0 0) (.makeCode 30 0x10), .wrote (.deliver 0 0) (.unitId 30 0),
        .took 0 (some 0), .read 0 0x71, .silent, .silent, .parked 0 (.number 0), .silent,
        .silent], { status := statusPending, information := 0 }, true) := rfl
  obtain ⟨⟨labels, system⟩, performs, same⟩ := Option.map_eq_some_iff.mp possible
  obtain ⟨events_eq, block, signaled⟩ := by simpa only [Prod.mk.injEq] using same
  refine ⟨labels, system, run_performAll_restrict performs ?_, block, signaled, ?_⟩
  · simp [completedAtOnce, ReadsBy]
  · intro law
    refine law 0 (.number 0) ?_ ⟨_, ?_, .deliver 0 0, statusSuccess, rfl, rfl⟩ ?_ ?_
    · rw [events_eq]
      simp
    · rw [events_eq]
      simp [ReadCall.number]
    · rw [events_eq]
      simp
    · exact congrArg IoStatusBlock.status block

end Nloader.Keyboard
