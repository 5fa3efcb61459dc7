/-
This file proves what a turn of `RtlSplay` does to a tree in memory: in each of the four cases
the node is promoted twice, and in the last one once. Before a turn, the links of the nodes it
is about are written out on top of the memory of the others, so that every statement of the
source becomes a change of what is written there.
-/

import Nloader.Library.BottomUp
import Nloader.SplayTable
import Nloader.SplayLinks

namespace Nloader.SplayLinks

open Outcome TreePath TreeContext RootedTree BottomUp
open Splay (Address Fault deref write)

/-! ### Reads and stores -/

section Statements

variable {links : Links} {here there : Address} {cell : RtlSplayLinks} {side : Side}
  {pointer : Option Address}

theorem deref_place (links : Links) (here : Address) :
    deref links (some here) = (links here).elim (.error .badAddress) .ok := by
  cases found : links here <;> simp only [deref, found] <;> rfl

/-- A store is a change of the memory. -/
theorem write_place (links : Links) (here : Address) (next : RtlSplayLinks → RtlSplayLinks) :
    write links (some here) next =
      if (links here).isSome then .ok (change links here next) else .error .badAddress := by
  cases found : links here <;> simp only [write, change, found] <;> rfl

theorem rtlParent_eq (held : links here = some cell) :
    rtlParent links (some here) = .ok cell.parent := by
  rw [rtlParent, Splay.deref_eq held]
  rfl

theorem rtlChild_eq (held : links here = some cell) :
    rtlChild links (some here) side = .ok (cell.child side) := by
  rw [rtlChild, Splay.deref_eq held]
  rfl

theorem rtlIsRoot_eq (held : links here = some cell) :
    rtlIsRoot links (some here) = .ok (cell.parent = some here : Bool) := by
  rw [rtlIsRoot, rtlParent_eq held]
  rfl

theorem setChild_eq (held : links here = some cell) (value : Option Address) :
    setChild links (some here) side value =
      .ok (change links here fun cell => cell.withChild side value) := by
  rw [setChild, write_place, held, if_pos Option.isSome_some]

theorem setParent_eq (held : links here = some cell) (value : Option Address) :
    setParent links (some here) value =
      .ok (change links here fun cell => cell.withParent value) := by
  rw [setParent, write_place, held, if_pos Option.isSome_some]

/-- A pointer leads to links, unless it is NULL. -/
def Mapped (links : Links) (pointer : Option Address) : Prop :=
  ∀ here, pointer = some here → (links here).isSome

theorem isSome_change (links : Links) (there here : Address)
    (next : RtlSplayLinks → RtlSplayLinks) :
    (change links there next here).isSome = (links here).isSome := by
  by_cases same : here = there
  · rw [same, change_same, Option.isSome_map]
  · rw [change_elsewhere same]

theorem isSome_adopt (links : Links) (child : Option Address) (parent here : Address) :
    (RootedTree.adopt links child parent here).isSome = (links here).isSome := by
  cases child with
  | none => rfl
  | some target => exact isSome_change _ _ _ _

theorem mapped_adopt (links : Links) (child : Option Address) (parent : Address) :
    Mapped (RootedTree.adopt links child parent) pointer ↔ Mapped links pointer := by
  unfold Mapped
  simp only [isSome_adopt]

theorem Mapped.update (mapped : Mapped links pointer) (there : Address) (cell : RtlSplayLinks) :
    Mapped (Function.update links there (some cell)) pointer := by
  intro here points
  by_cases same : here = there
  · rw [same, Function.update_self]
    rfl
  · rw [Function.update_of_ne same]
    exact mapped here points

/-- `if (child) RtlParent(child) = pointer`. -/
theorem adoptChild_eq (mapped : Mapped links pointer) (here : Address) :
    (if pointer ≠ none then setParent links pointer (some here) else .ok links) =
      .ok (RootedTree.adopt links pointer here) := by
  cases pointer with
  | none => rfl
  | some child =>
    rw [if_pos (Option.some_ne_none child), setParent, write_place, if_pos (mapped child rfl)]
    rfl

end Statements

/-! ### Double turns -/

/-- A node, its parent and its grandparent, told apart from each other, from the two subtrees
that get another parent, and from the place above. -/
structure Grandchild (n p g : Address) (inner inner' above : Option Address) : Prop where
  parentChild : p ≠ n
  grandChild : g ≠ n
  grandParent : g ≠ p
  notN : inner ≠ some n ∧ inner' ≠ some n ∧ above ≠ some n
  notP : inner ≠ some p ∧ inner' ≠ some p ∧ above ≠ some p
  notG : inner ≠ some g ∧ inner' ≠ some g ∧ above ≠ some g
  inners : ∀ here, inner = some here → inner' ≠ some here ∧ above ≠ some here
  inners' : ∀ here, inner' = some here → above ≠ some here

/-- The place above, if there is one, has the node on one side only. -/
def HangsOn (links : Links) (above : Option Address) (node : Address) (hangs : Side) : Prop :=
  ∀ here, above = some here →
    ∃ cell, links here = some cell ∧ (cell.child .left = some node ↔ hangs = .left)

/-- The memory in which the links of the three nodes are written out. -/
def written (links : Links) (n p g : Address) (cellN cellP cellG : RtlSplayLinks) : Links :=
  Function.update (Function.update (Function.update links g (some cellG)) p (some cellP)) n
    (some cellN)

section Doubles

variable {links : Links} {n p g : Address} {inner inner' above : Option Address} {hangs : Side}
  {cellN cellP cellG : RtlSplayLinks}

theorem Grandchild.swap (grandchild : Grandchild n p g inner inner' above) :
    Grandchild n p g inner' inner above := by
  obtain ⟨pn, gn, gp, notN, notP, notG, inners, inners'⟩ := grandchild
  refine ⟨pn, gn, gp, ⟨notN.2.1, notN.1, notN.2.2⟩, ⟨notP.2.1, notP.1, notP.2.2⟩,
    ⟨notG.2.1, notG.1, notG.2.2⟩, fun here points => ⟨fun same => ?_, inners' here points⟩,
    fun here points => (inners here points).2⟩
  exact (inners here same).1 points

theorem written_n : written links n p g cellN cellP cellG n = some cellN :=
  Function.update_self _ _ _

theorem rtlChild_n (side : Side) :
    rtlChild (written links n p g cellN cellP cellG) (some n) side = .ok (cellN.child side) :=
  rtlChild_eq written_n

variable (grandchild : Grandchild n p g inner inner' above)
include grandchild

theorem written_p : written links n p g cellN cellP cellG p = some cellP := by
  rw [written, Function.update_of_ne grandchild.parentChild, Function.update_self]

theorem written_g : written links n p g cellN cellP cellG g = some cellG := by
  rw [written, Function.update_of_ne grandchild.grandChild,
    Function.update_of_ne grandchild.grandParent, Function.update_self]

theorem rtlChild_p (side : Side) :
    rtlChild (written links n p g cellN cellP cellG) (some p) side = .ok (cellP.child side) :=
  rtlChild_eq (written_p grandchild)

theorem rtlChild_g (side : Side) :
    rtlChild (written links n p g cellN cellP cellG) (some g) side = .ok (cellG.child side) :=
  rtlChild_eq (written_g grandchild)

omit grandchild in
theorem change_n (next : RtlSplayLinks → RtlSplayLinks) :
    change (written links n p g cellN cellP cellG) n next =
      written links n p g (next cellN) cellP cellG :=
  change_update_same _ _ _ _

theorem change_p (next : RtlSplayLinks → RtlSplayLinks) :
    change (written links n p g cellN cellP cellG) p next =
      written links n p g cellN (next cellP) cellG := by
  rw [written, change_update grandchild.parentChild, change_update_same]
  rfl

theorem change_g (next : RtlSplayLinks → RtlSplayLinks) :
    change (written links n p g cellN cellP cellG) g next =
      written links n p g cellN cellP (next cellG) := by
  rw [written, change_update grandchild.grandChild, change_update grandchild.grandParent,
    change_update_same]
  rfl

omit grandchild in
theorem setChild_n (side : Side) (value : Option Address) :
    setChild (written links n p g cellN cellP cellG) (some n) side value =
      .ok (written links n p g (cellN.withChild side value) cellP cellG) := by
  rw [setChild_eq written_n, change_n]

theorem setChild_p (side : Side) (value : Option Address) :
    setChild (written links n p g cellN cellP cellG) (some p) side value =
      .ok (written links n p g cellN (cellP.withChild side value) cellG) := by
  rw [setChild_eq (written_p grandchild), change_p grandchild]

theorem setChild_g (side : Side) (value : Option Address) :
    setChild (written links n p g cellN cellP cellG) (some g) side value =
      .ok (written links n p g cellN cellP (cellG.withChild side value)) := by
  rw [setChild_eq (written_g grandchild), change_g grandchild]

omit grandchild in
theorem setParent_n (value : Option Address) :
    setParent (written links n p g cellN cellP cellG) (some n) value =
      .ok (written links n p g (cellN.withParent value) cellP cellG) := by
  rw [setParent_eq written_n, change_n]

theorem setParent_p (value : Option Address) :
    setParent (written links n p g cellN cellP cellG) (some p) value =
      .ok (written links n p g cellN (cellP.withParent value) cellG) := by
  rw [setParent_eq (written_p grandchild), change_p grandchild]

theorem setParent_g (value : Option Address) :
    setParent (written links n p g cellN cellP cellG) (some g) value =
      .ok (written links n p g cellN cellP (cellG.withParent value)) := by
  rw [setParent_eq (written_g grandchild), change_g grandchild]

theorem adopt_written (parent : Address) :
    RootedTree.adopt (written links n p g cellN cellP cellG) inner parent =
      written (RootedTree.adopt links inner parent) n p g cellN cellP cellG := by
  unfold written
  rw [adopt_update grandchild.notN.1, adopt_update grandchild.notP.1,
    adopt_update grandchild.notG.1]

theorem hung_written (child : Option Address) :
    hung (written links n p g cellN cellP cellG) above hangs child =
      written (hung links above hangs child) n p g cellN cellP cellG := by
  unfold written
  rw [hung_update grandchild.notN.2.2, hung_update grandchild.notP.2.2,
    hung_update grandchild.notG.2.2]

omit grandchild in
theorem mapped_written (mapped : Mapped links inner) :
    Mapped (written links n p g cellN cellP cellG) inner :=
  ((mapped.update g cellG).update p cellP).update n cellN

theorem updateParent_p {side : Side} (points : cellP.child side = inner)
    (mapped : Mapped links inner) :
    updateParent (written links n p g cellN cellP cellG) (some p) side =
      .ok (written (RootedTree.adopt links inner p) n p g cellN cellP cellG) := by
  rw [updateParent, rtlChild_p grandchild, ok_bind, points, pure_eq,
    adoptChild_eq (mapped_written mapped), adopt_written grandchild]

theorem updateParent_g {side : Side} (points : cellG.child side = inner)
    (mapped : Mapped links inner) :
    updateParent (written links n p g cellN cellP cellG) (some g) side =
      .ok (written (RootedTree.adopt links inner g) n p g cellN cellP cellG) := by
  rw [updateParent, rtlChild_g grandchild, ok_bind, points, pure_eq,
    adoptChild_eq (mapped_written mapped), adopt_written grandchild]

/-- The place above does not change with the parent of a subtree. -/
theorem HangsOn.adopt (hangsOn : HangsOn links above g hangs) (parent : Address) :
    HangsOn (RootedTree.adopt links inner parent) above g hangs := by
  intro here points
  rw [adopt_elsewhere fun same => (grandchild.inners here same).2 points]
  exact hangsOn here points

/-- `N` takes the place of `G`. -/
theorem shoveToTop_eq (hangsOn : HangsOn links above g hangs)
    (parent : cellG.parent = some (above.getD g)) :
    shoveToTop (written links n p g cellN cellP cellG) (some n) (some g) =
      .ok (written (hung links above hangs (some n)) n p g
        (cellN.withParent (some (above.getD n))) cellP cellG) := by
  unfold shoveToTop
  rw [rtlIsRoot_eq (written_g grandchild), ok_bind, parent]
  cases above with
  | none =>
    rw [if_pos (by simp), setParent_n]
    rfl
  | some top =>
    obtain ⟨cell, found, hangsOn⟩ := hangsOn top rfl
    have held : ∀ cellN, written links n p g cellN cellP cellG top = some cell := fun cellN => by
      unfold written
      rw [Function.update_of_ne fun same => grandchild.notN.2.2 (by rw [same]),
        Function.update_of_ne fun same => grandchild.notP.2.2 (by rw [same]),
        Function.update_of_ne fun same => grandchild.notG.2.2 (by rw [same]), found]
    have notG : ¬ (some ((some top).getD g) = some g : Bool) := by
      simpa using fun same => grandchild.notG.2.2 (congrArg some same)
    have isChild : ∀ cellN, rtlIsChild (written links n p g cellN cellP cellG) (some g) .left =
        .ok (hangs = .left : Bool) := fun cellN => by
      rw [rtlIsChild, rtlParent_eq (written_g grandchild), ok_bind, parent, Option.getD_some,
        rtlChild_eq (held cellN), ok_bind, pure_eq]
      simp only [hangsOn]
    have stored : hung (written links n p g (cellN.withParent (some top)) cellP cellG) (some top)
        hangs (some n) = _ := hung_written grandchild (some n)
    rw [if_neg notG, rtlParent_eq (written_g grandchild), ok_bind, parent, Option.getD_some,
      setParent_n, ok_bind, isChild, ok_bind, rtlParent_eq (written_g grandchild), ok_bind, parent,
      Option.getD_some, Option.getD_some, setChild_eq (held _), setChild_eq (held _), ← stored]
    cases hangs with
    | left => exact if_pos (decide_eq_true rfl)
    | right => exact if_neg (by simp)

omit grandchild in
theorem hung_some (links : Links) (here : Address) (side : Side) (child : Option Address) :
    hung links (some here) side child = change links here fun cell => cell.withChild side child :=
  rfl

omit grandchild in
/-- The memory with the links written out that it has. -/
theorem written_self
    (ownN : links n = some cellN) (ownP : links p = some cellP) (ownG : links g = some cellG) :
    written links n p g cellN cellP cellG = links := by
  rw [written, ← ownG, Function.update_eq_self, ← ownP, Function.update_eq_self, ← ownN,
    Function.update_eq_self]

/-! ### The four cases -/

/-- `P` promoted over `G`, and `N` over `P`. -/
theorem promoted_straight {side : Side} {near beyond : Option Address}
    (ownN : links n = some (link side p near inner))
    (ownP : links p = some (link side g (some n) inner'))
    (ownG : links g = some (link side (above.getD g) (some p) beyond)) :
    promoted side (promoted side links p g above inner' hangs) n p above inner hangs =
      written (hung (RootedTree.adopt (RootedTree.adopt links inner p) inner' g) above hangs
        (some n)) n p g (link side (above.getD n) near (some p)) (link side n inner (some g))
        (link side p inner' beyond) := by
  conv_lhs => rw [← written_self ownN ownP ownG]
  unfold promoted
  simp only [change_g grandchild, change_p grandchild, change_n, adopt_written grandchild,
    adopt_written grandchild.swap, hung_written grandchild, link_withChild, link_withChild_other,
    link_withParent]
  rw [adopt_hung fun here points => (grandchild.inners here points).2, hung_hung,
    adopt_comm fun here points => (grandchild.inners here points).1]

/-- Case 1. -/
theorem splayCase1_eq {near beyond : Option Address}
    (ownN : links n = some (link .left p near inner))
    (ownP : links p = some (link .left g (some n) inner'))
    (ownG : links g = some (link .left (above.getD g) (some p) beyond))
    (mapped : Mapped links inner ∧ Mapped links inner') (hangsOn : HangsOn links above g hangs) :
    splayCase1 links (some n) (some p) (some g) =
      .ok (promoted .left (promoted .left links p g above inner' hangs) n p above inner hangs) := by
  rw [promoted_straight grandchild ownN ownP ownG]
  conv_lhs => rw [← written_self ownN ownP ownG]
  unfold splayCase1
  rw [rtlChild_n, ok_bind, setChild_p grandchild, ok_bind, rtlChild_p grandchild, ok_bind,
    setChild_g grandchild, ok_bind, updateParent_p grandchild rfl mapped.1, ok_bind,
    updateParent_g grandchild.swap rfl ((mapped_adopt _ _ _).mpr mapped.2), ok_bind,
    shoveToTop_eq grandchild
      (HangsOn.adopt grandchild.swap (HangsOn.adopt grandchild hangsOn _) _) rfl,
    ok_bind, setChild_n, ok_bind, setParent_p grandchild, ok_bind, setChild_p grandchild, ok_bind,
    setParent_g grandchild]
  rfl

/-- Case 2. -/
theorem splayCase2_eq {near beyond : Option Address}
    (ownN : links n = some (link .right p near inner))
    (ownP : links p = some (link .right g (some n) inner'))
    (ownG : links g = some (link .right (above.getD g) (some p) beyond))
    (mapped : Mapped links inner ∧ Mapped links inner') (hangsOn : HangsOn links above g hangs) :
    splayCase2 links (some n) (some p) (some g) =
      .ok (promoted .right (promoted .right links p g above inner' hangs) n p above inner
        hangs) := by
  rw [promoted_straight grandchild ownN ownP ownG,
    ← adopt_comm fun here points => (grandchild.inners here points).1]
  conv_lhs => rw [← written_self ownN ownP ownG]
  unfold splayCase2
  rw [rtlChild_p grandchild, ok_bind, setChild_g grandchild, ok_bind, rtlChild_n, ok_bind,
    setChild_p grandchild, ok_bind, updateParent_g grandchild.swap rfl mapped.2, ok_bind,
    updateParent_p grandchild rfl ((mapped_adopt _ _ _).mpr mapped.1), ok_bind,
    shoveToTop_eq grandchild
      (HangsOn.adopt grandchild (HangsOn.adopt grandchild.swap hangsOn _) _) rfl,
    ok_bind, setChild_n, ok_bind, setParent_p grandchild, ok_bind, setChild_p grandchild, ok_bind,
    setParent_g grandchild]
  rfl

/-- `N` promoted over `P`, and over `G`. -/
theorem promoted_bent {side : Side} {outer beyond : Option Address}
    (ownN : links n = some (link side p inner inner'))
    (ownP : links p = some (link side g (some n) outer))
    (ownG : links g = some (link side.other (above.getD g) (some p) beyond)) :
    promoted side.other (promoted side links n p (some g) inner' side.other) n g above inner hangs =
      written (hung (RootedTree.adopt (RootedTree.adopt links inner g) inner' p) above hangs
        (some n)) n p g (link side (above.getD n) (some g) (some p)) (link side n inner' outer)
        (link side.other n inner beyond) := by
  conv_lhs => rw [← written_self ownN ownP ownG]
  unfold promoted
  simp only [change_g grandchild, change_p grandchild, change_n, adopt_written grandchild,
    adopt_written grandchild.swap, hung_written grandchild, hung_some, link_withChild,
    link_withChild_other, link_withParent, Side.other_other, Option.getD_some]
  rw [adopt_comm fun here points => (grandchild.inners here points).1]

/-- Case 3. -/
theorem splayCase3_eq {outer beyond : Option Address}
    (ownN : links n = some (link .left p inner inner'))
    (ownP : links p = some (link .left g (some n) outer))
    (ownG : links g = some (link .right (above.getD g) (some p) beyond))
    (mapped : Mapped links inner ∧ Mapped links inner') (hangsOn : HangsOn links above g hangs) :
    splayCase3 links (some n) (some p) (some g) =
      .ok (promoted .right (promoted .left links n p (some g) inner' .right) n g above inner
        hangs) := by
  rw [show Side.right = Side.other .left from rfl,
    promoted_bent grandchild ownN ownP ownG]
  conv_lhs => rw [← written_self ownN ownP ownG]
  unfold splayCase3
  rw [rtlChild_n, ok_bind, setChild_g grandchild, ok_bind, rtlChild_n, ok_bind,
    setChild_p grandchild, ok_bind, updateParent_g grandchild rfl mapped.1, ok_bind,
    updateParent_p grandchild.swap rfl ((mapped_adopt _ _ _).mpr mapped.2), ok_bind,
    shoveToTop_eq grandchild
      (HangsOn.adopt grandchild.swap (HangsOn.adopt grandchild hangsOn _) _) rfl,
    ok_bind, setChild_n, ok_bind, setParent_g grandchild, ok_bind, setChild_n, ok_bind,
    setParent_p grandchild]
  rfl

/-- Case 4. -/
theorem splayCase4_eq {outer beyond : Option Address}
    (ownN : links n = some (link .right p inner inner'))
    (ownP : links p = some (link .right g (some n) outer))
    (ownG : links g = some (link .left (above.getD g) (some p) beyond))
    (mapped : Mapped links inner ∧ Mapped links inner') (hangsOn : HangsOn links above g hangs) :
    splayCase4 links (some n) (some p) (some g) =
      .ok (promoted .left (promoted .right links n p (some g) inner' .left) n g above inner
        hangs) := by
  rw [show Side.left = Side.other .right from rfl,
    promoted_bent grandchild ownN ownP ownG,
    adopt_comm fun here points => (grandchild.swap.inners here points).1]
  conv_lhs => rw [← written_self ownN ownP ownG]
  unfold splayCase4
  rw [rtlChild_n, ok_bind, setChild_p grandchild, ok_bind, rtlChild_n, ok_bind,
    setChild_g grandchild, ok_bind, updateParent_p grandchild.swap rfl mapped.2, ok_bind,
    updateParent_g grandchild rfl ((mapped_adopt _ _ _).mpr mapped.1), ok_bind,
    shoveToTop_eq grandchild
      (HangsOn.adopt grandchild (HangsOn.adopt grandchild.swap hangsOn _) _) rfl,
    ok_bind, setChild_n, ok_bind, setParent_g grandchild, ok_bind, setChild_n, ok_bind,
    setParent_p grandchild]
  rfl

end Doubles

/-- The "Finally" case. -/
theorem splayFinally_eq {links : Links} {n p : Address} {side : Side}
    {near inner outer : Option Address} (apart : p ≠ n) (notN : inner ≠ some n)
    (notP : inner ≠ some p) (mapped : Mapped links inner)
    (ownN : links n = some (link side p near inner))
    (ownP : links p = some (link side p (some n) outer)) (hangs : Side) :
    splayFinally links (some n) (some p) side =
      .ok (promoted side links n p none inner hangs) := by
  have held : change links p (fun cell => cell.withChild side inner) p =
      some (link side p inner outer) := by
    rw [change_same, ownP]
    exact congrArg some (link_withChild _ _ _ _ _)
  have heldN : RootedTree.adopt (change links p fun cell => cell.withChild side inner) inner p n =
      some (link side p near inner) := by
    rw [adopt_elsewhere notN, change_elsewhere apart.symm, ownN]
  have heldP : RootedTree.adopt (change links p fun cell => cell.withChild side inner) inner p p =
      some (link side p inner outer) := by
    rw [adopt_elsewhere notP, held]
  have mapped' : Mapped (change links p fun cell => cell.withChild side inner) inner :=
    fun here points => by rw [isSome_change]; exact mapped here points
  have memory : promoted side links n p none inner hangs = change (change (change (RootedTree.adopt
      (change links p fun cell => cell.withChild side inner) inner p) n fun cell =>
        cell.withChild side.other (some p)) p fun cell => cell.withParent (some n)) n fun cell =>
          cell.withParent (some n) := rfl
  unfold splayFinally
  rw [memory, rtlChild_eq ownN, link_child_other, ok_bind, setChild_eq ownP, ok_bind, updateParent,
    rtlChild_eq held, ok_bind, link_child, pure_eq, adoptChild_eq mapped', ok_bind]
  generalize RootedTree.adopt (change links p fun cell => cell.withChild side inner) inner p =
    before at heldN heldP ⊢
  have storedN : change before n (fun cell => cell.withParent (some n)) n =
      some (link side n near inner) := by
    rw [change_same, heldN]
    exact congrArg some (link_withParent _ _ _ _ _)
  have storedP : ∀ next, change (change before n fun cell => cell.withParent (some n)) n next p =
      some (link side p inner outer) := fun next => by
    rw [change_elsewhere apart, change_elsewhere apart, heldP]
  rw [setParent_eq heldN, ok_bind, setChild_eq storedN, ok_bind, setParent_eq (storedP _)]
  rw [change_comm apart.symm, change_change, change_change]
  refine congrArg (fun next => Except.ok (change (change before n next) p _))
    (funext fun cell => ?_)
  cases side <;> rfl

/-! ### Turns -/

section Turns

variable {links : Links} {context : Context Address} {tree : BinaryTree Address} {n : Address}

/-- A subtree of a hole has its root mapped. -/
theorem mapped_root (held : Held links context tree) {subtree : BinaryTree Address}
    (member : ∀ node ∈ inorder subtree, node ∈ inorder tree) : Mapped links (root subtree) :=
  fun _ points => (holds_iff_held.mpr held).isSome (mem_plug (member _ (mem_of_root points)))

theorem hangsOn_held (held : Held links context tree) (points : root tree = some n) :
    HangsOn links (above context) n (LinkedTree.hang context) :=
  fun _ top => held.child_above points top .left

/-- The node in a hole hangs on one side of its parent. -/
theorem rtlIsChild_held {frame : Frame Address} (held : Held links (frame :: context) tree)
    (points : root tree = some n) (side : Side) :
    rtlIsChild links (some n) side = .ok (frame.side = side : Bool) := by
  obtain ⟨near, far, rfl⟩ := exists_join_of_root .left points
  obtain ⟨cell, found, hangs⟩ := held.child_above points rfl side
  rw [rtlIsChild, rtlParent_eq (held_node held), ok_bind, link_parent]
  change rtlChild links (some frame.node) side >>= _ = _
  rw [rtlChild_eq found, ok_bind, pure_eq]
  simp only [hangs]
  rfl

/-- The root of a tree is no child. -/
theorem rtlIsChild_top (held : Held links [] tree) (points : root tree = some n) (side : Side) :
    rtlIsChild links (some n) side = .ok false := by
  obtain ⟨near, far, rfl⟩ := exists_join_of_root side points
  have parts := ((perm_join side near far n).append_right (around [])).nodup_iff.mp held.nodup
  have notNear : root near ≠ some n := fun points =>
    (List.nodup_cons.mp parts).1 (by simp [mem_of_root points])
  have own := held_node held
  rw [rtlIsChild, rtlParent_eq own, ok_bind, link_parent]
  change rtlChild links (some n) side >>= _ = _
  rw [rtlChild_eq own, ok_bind, pure_eq, link_child, decide_eq_false notNear]

/-- The node is the root: the loop ends. -/
theorem splayTurn_top (held : Held links [] tree) (points : root tree = some n) :
    splayTurn (some n) links = .ok (.leave links) := by
  obtain ⟨near, far, rfl⟩ := exists_join_of_root .left points
  rw [splayTurn, rtlIsRoot_eq (held_node held), ok_bind, link_parent]
  exact if_pos (decide_eq_true rfl)

/-- The node below a parent is no root. -/
theorem rtlIsRoot_held {frame : Frame Address} (held : Held links (frame :: context) tree)
    (points : root tree = some n) : rtlIsRoot links (some n) = .ok false ∧
      rtlParent links (some n) = .ok (some frame.node) := by
  have apart := held.above_ne (mem_of_root points)
  obtain ⟨near, far, rfl⟩ := exists_join_of_root .left points
  rw [rtlIsRoot_eq (held_node held), rtlParent_eq (held_node held), link_parent]
  exact ⟨congrArg Except.ok (decide_eq_false apart), rfl⟩

/-- A turn below the root alone. -/
theorem splayTurn_single {frame : Frame Address} (held : Held links [frame] tree)
    (points : root tree = some n) :
    ∃ links', splayTurn (some n) links = .ok (.again links') ∧ Held links' [] (rotate frame tree) ∧
      AgreeOutside (inorder (frame.fill tree)) links links' := by
  obtain ⟨side, p, sibling⟩ := frame
  obtain ⟨near, far, rfl⟩ := exists_join_of_root side points
  have upper : Held links [] (join side (join side near n far) p sibling) := held_cons.mp held
  have apart : p ≠ n := fun same => held.above_ne (mem_of_root points) (congrArg some same)
  have nodup := held.nodup
  have notN : root far ≠ some n := fun same => by
    have parts := ((perm_join side near far n).append_right _).nodup_iff.mp held.nodup
    exact (List.nodup_cons.mp parts).1 (by simp [mem_of_root same])
  have notP : root far ≠ some p := fun same =>
    held.above_ne ((mem_inorder_join _ _ _ _ _).mpr (.inr (.inr (mem_of_root same)))) rfl
  have mapped : Mapped links (root far) := mapped_root held fun _ member =>
    (mem_inorder_join _ _ _ _ _).mpr (.inr (.inr member))
  have ownP := held_node upper
  rw [root_join] at ownP
  refine ⟨promoted side links n p none (root far) (LinkedTree.hang ([] : Context Address)), ?_,
    ?_, ?_⟩
  · obtain ⟨notRoot, parent⟩ := rtlIsRoot_held held points
    have isTop := rtlIsChild_top upper (root_join _ _ _ _)
    have ended := splayFinally_eq apart notN notP mapped (held_node held) ownP
      (LinkedTree.hang ([] : Context Address))
    unfold splayTurn
    rw [notRoot, ok_bind, if_neg (by simp), parent, ok_bind, rtlParent_eq ownP, ok_bind,
      rtlIsChild_held held points]
    cases side with
    | left =>
      simp only [isTop, ended, ok_bind, decide_true, if_true, Bool.false_eq_true, if_false]
      rfl
    | right =>
      simp only [isTop, ended, ok_bind, reduceCtorEq, decide_false, Bool.false_eq_true, if_false]
      rfl
  · rw [show rotate ⟨side, p, sibling⟩ (join side near n far) =
      join side near n (join side far p sibling) from rotate_join _ _ _ _]
    exact upper.promote
  · exact promoted_agree links [] side near far sibling n p

/-- The nodes of a double turn, with the subtrees that it gives to another parent when the two
frames lie on the same side, and when they do not. -/
theorem grandchild_held {side side' : Side} {near far sibling sibling' : BinaryTree Address}
    {p g : Address}
    (held : Held links (⟨side, p, sibling⟩ :: ⟨side', g, sibling'⟩ :: context)
      (join side near n far)) :
    Grandchild n p g (root far) (root sibling) (above context) ∧
      Grandchild n p g (root near) (root far) (above context) := by
  have nodup := ((perm_join side near far n).append_right _).nodup_iff.mp held.nodup
  have inNear : ∀ here, root near = some here → here ∈ inorder near := fun _ => mem_of_root
  have inFar : ∀ here, root far = some here → here ∈ inorder far := fun _ => mem_of_root
  have inSibling : ∀ here, root sibling = some here → here ∈ inorder sibling :=
    fun _ => mem_of_root
  have inContext : ∀ here, above context = some here → here ∈ around context :=
    fun _ => mem_around_of_above
  simp only [around, List.cons_append, List.nodup_cons, List.mem_append, List.mem_cons,
    List.nodup_append, not_or] at nodup
  constructor <;> constructor <;> grind

/-- The case of a turn below a parent and a grandparent. -/
theorem splayTurn_case {side side' : Side} {sibling sibling' : BinaryTree Address} {p g : Address}
    (held : Held links (⟨side, p, sibling⟩ :: ⟨side', g, sibling'⟩ :: context) tree)
    (points : root tree = some n) :
    splayTurn (some n) links = (match side, side' with
      | .left, .left => splayCase1 links (some n) (some p) (some g)
      | .right, .right => splayCase2 links (some n) (some p) (some g)
      | .left, .right => splayCase3 links (some n) (some p) (some g)
      | .right, .left => splayCase4 links (some n) (some p) (some g)) >>= fun links =>
        pure (.again links) := by
  have middle : Held links (⟨side', g, sibling'⟩ :: context) (join side tree p sibling) :=
    held_cons.mp held
  obtain ⟨notRoot, parent⟩ := rtlIsRoot_held held points
  obtain ⟨_, grandparent⟩ := rtlIsRoot_held middle (root_join _ _ _ _)
  have children := rtlIsChild_held held points
  have children' := rtlIsChild_held middle (root_join _ _ _ _)
  unfold splayTurn
  rw [notRoot, ok_bind, if_neg Bool.false_ne_true, parent, ok_bind, grandparent, ok_bind, children,
    ok_bind]
  cases side <;> cases side' <;> simp [children']

/-- A zig-zig. -/
theorem splayTurn_straight {side : Side} {sibling sibling' : BinaryTree Address} {p g : Address}
    (held : Held links (⟨side, p, sibling⟩ :: ⟨side, g, sibling'⟩ :: context) tree)
    (points : root tree = some n) :
    ∃ links', splayTurn (some n) links = .ok (.again links') ∧
      Held links' context (rotate (lowered ⟨side, p, sibling⟩ ⟨side, g, sibling'⟩) tree) ∧
      AgreeOutside (inorder (plug context (join side (join side tree p sibling) g sibling'))) links
        links' := by
  obtain ⟨near, far, rfl⟩ := exists_join_of_root side points
  have middle : Held links (⟨side, g, sibling'⟩ :: context)
      (join side (join side near n far) p sibling) := held_cons.mp held
  have upper : Held links context
      (join side (join side (join side near n far) p sibling) g sibling') := held_cons.mp middle
  have ownN := held_node held
  have ownP := held_node middle
  have ownG := held_node upper
  rw [root_join] at ownP ownG
  have grandchild := (grandchild_held held).1
  have mapped : Mapped links (root far) ∧ Mapped links (root sibling) :=
    ⟨mapped_root middle (by simp_all), mapped_root middle (by simp_all)⟩
  have hangsOn := hangsOn_held upper (root_join _ _ _ _)
  have rotated : rotate (lowered ⟨side, p, sibling⟩ ⟨side, g, sibling'⟩) (join side near n far) =
      join side near n (join side far p (join side sibling g sibling')) := rotate_join _ _ _ _
  refine ⟨_, ?_, rotated ▸ upper.promote.promote, ?_⟩
  · rw [splayTurn_case held points]
    cases side with
    | left => rw [splayCase1_eq grandchild ownN ownP ownG mapped hangsOn]; rfl
    | right => rw [splayCase2_eq grandchild ownN ownP ownG mapped hangsOn]; rfl
  · have first := promoted_agree links context side (join side near n far) sibling sibling' p g
    have second := promoted_agree (promoted side links p g (above context) (root sibling)
      (LinkedTree.hang context)) context side near far (join side sibling g sibling') n p
    rw [inorder_plug_congr context (LinkedTree.inorder_rotate _ _ _ _ _ _)] at second
    exact first.trans second

/-- A zig-zag. -/
theorem splayTurn_bent {side : Side} {sibling sibling' : BinaryTree Address} {p g : Address}
    (held : Held links (⟨side, p, sibling⟩ :: ⟨side.other, g, sibling'⟩ :: context) tree)
    (points : root tree = some n) :
    ∃ links', splayTurn (some n) links = .ok (.again links') ∧
      Held links' context (rotate ⟨side.other, g, sibling'⟩ (rotate ⟨side, p, sibling⟩ tree)) ∧
      AgreeOutside (inorder (plug context
        (join side.other (join side tree p sibling) g sibling'))) links links' := by
  obtain ⟨near, far, rfl⟩ := exists_join_of_root side points
  have middle : Held links (⟨side.other, g, sibling'⟩ :: context)
      (join side (join side near n far) p sibling) := held_cons.mp held
  have upper : Held links context
      (join side.other (join side (join side near n far) p sibling) g sibling') :=
    held_cons.mp middle
  have ownN := held_node held
  have ownP := held_node middle
  have ownG := held_node upper
  rw [root_join] at ownP ownG
  have grandchild := (grandchild_held held).2
  have mapped : Mapped links (root near) ∧ Mapped links (root far) :=
    ⟨mapped_root middle (by simp_all), mapped_root middle (by simp_all)⟩
  have hangsOn := hangsOn_held upper (root_join _ _ _ _)
  have first : Held _ context
      (join side.other (join side near n (join side far p sibling)) g sibling') :=
    held_cons.mp middle.promote
  rw [← join_other side (join side far p sibling)] at first
  have rotated : rotate ⟨side.other, g, sibling'⟩ (rotate ⟨side, p, sibling⟩
      (join side near n far)) =
        join side.other (join side far p sibling) n (join side.other near g sibling') := by
    rw [show rotate ⟨side, p, sibling⟩ (join side near n far) =
      join side near n (join side far p sibling) from rotate_join _ _ _ _,
      ← join_other side (join side far p sibling)]
    exact rotate_join ⟨side.other, g, sibling'⟩ _ _ _
  refine ⟨_, ?_, rotated ▸ first.promote, ?_⟩
  · rw [splayTurn_case held points]
    cases side with
    | left => rw [splayCase3_eq grandchild ownN ownP ownG mapped hangsOn]; rfl
    | right => rw [splayCase4_eq grandchild ownN ownP ownG mapped hangsOn]; rfl
  · have lower := promoted_agree links (⟨side.other, g, sibling'⟩ :: context) side near far sibling
      n p
    have higher := promoted_agree (promoted side links n p (some g) (root far) side.other) context
      side.other (join side far p sibling) near sibling' n g
    have same : inorder (plug context
        (join side.other (join side.other (join side far p sibling) n near) g sibling')) =
          inorder (plug context
            (join side.other (join side (join side near n far) p sibling) g sibling')) := by
      rw [join_other side (join side far p sibling)]
      exact inorder_plug_congr (⟨side.other, g, sibling'⟩ :: context)
        (LinkedTree.inorder_rotate _ _ _ _ _ _)
    rw [same] at higher
    exact lower.trans higher

/-- A turn below a parent and a grandparent. -/
theorem splayTurn_double {parent grandparent : Frame Address}
    (held : Held links (parent :: grandparent :: context) tree) (points : root tree = some n) :
    ∃ links', splayTurn (some n) links = .ok (.again links') ∧
      Held links' context (rotateTwice parent grandparent tree) ∧
      AgreeOutside (inorder (plug (parent :: grandparent :: context) tree)) links links' := by
  obtain ⟨side, p, sibling⟩ := parent
  obtain ⟨side', g, sibling'⟩ := grandparent
  by_cases same : side = side'
  · subst same
    rw [rotateTwice, if_pos rfl]
    exact splayTurn_straight held points
  · have flipped : side' = side.other := by
      cases side <;> cases side' <;> first | rfl | exact absurd rfl same
    subst flipped
    rw [rotateTwice, if_neg same]
    exact splayTurn_bent held points

/-! ### The loop -/

theorem root_rotate (frame : Frame Address) (points : root tree = some n) :
    root (rotate frame tree) = some n := by
  obtain ⟨near, far, rfl⟩ := exists_join_of_root frame.side points
  rw [rotate_join]
  exact root_join _ _ _ _

theorem root_rotateTwice (parent grandparent : Frame Address) (points : root tree = some n) :
    root (rotateTwice parent grandparent tree) = some n := by
  unfold rotateTwice
  split
  · exact root_rotate _ points
  · exact root_rotate _ (root_rotate _ points)

theorem root_splay (points : root tree = some n) : root (splay context tree) = some n := by
  induction context using List.twoStepInduction generalizing tree with
  | nil => exact points
  | singleton frame => exact root_rotate frame points
  | cons_cons parent grandparent rest inductionHypothesis _ =>
    exact inductionHypothesis (root_rotateTwice parent grandparent points)

/-- The turns that `RtlSplay` takes for a node below a number of frames, with the last one that
finds it at the root. -/
def splayTurns (frames : Nat) : Nat := (frames + 1) / 2 + 1

/-- The loop of `RtlSplay` splays the node, and takes no turn more or less than it needs. -/
theorem splayLoop_eq (turns : Nat) (held : Held links context tree) (points : root tree = some n)
    (enough : splayTurns context.length ≤ turns) :
    (∃ links', repeatLoop .outOfTurns (splayTurn (some n)) turns links = .ok links' ∧
      Held links' [] (splay context tree) ∧
      AgreeOutside (inorder (plug context tree)) links links') ∧
    (repeatHeads (splayTurn (some n)) turns links).length = splayTurns context.length := by
  induction context using List.twoStepInduction generalizing links tree turns with
  | nil =>
    obtain ⟨turns, rfl⟩ : ∃ rest, turns = rest + 1 :=
      ⟨turns - 1, by unfold splayTurns at enough; omega⟩
    have turned := splayTurn_top held points
    refine ⟨⟨links, repeatLoop_leave _ turned, held, fun _ _ => rfl⟩, ?_⟩
    rw [repeatHeads, turned]
    rfl
  | singleton frame =>
    obtain ⟨turns, rfl⟩ : ∃ rest, turns = rest + 1 + 1 :=
      ⟨turns - 2, by simp [splayTurns] at enough; omega⟩
    obtain ⟨links', turned, held', agree⟩ := splayTurn_single held points
    have turned' := splayTurn_top held' (root_rotate frame points)
    refine ⟨⟨links', ?_, held', agree⟩, ?_⟩
    · rw [repeatLoop_again _ turned, repeatLoop_leave _ turned']
    · rw [repeatHeads_again _ turned, repeatHeads, turned']
      simp [splayTurns]
  | cons_cons parent grandparent rest inductionHypothesis _ =>
    obtain ⟨turns, rfl⟩ : ∃ rest, turns = rest + 1 :=
      ⟨turns - 1, by unfold splayTurns at enough; omega⟩
    obtain ⟨links', turned, held', agree⟩ := splayTurn_double held points
    have fewer : splayTurns (parent :: grandparent :: rest).length =
        splayTurns rest.length + 1 := by
      simp only [splayTurns, List.length_cons]
      omega
    obtain ⟨⟨links'', ran, held'', agree'⟩, counted⟩ := inductionHypothesis turns held'
      (root_rotateTwice parent grandparent points) (by omega)
    have same : inorder (plug rest (rotateTwice parent grandparent tree)) =
        inorder (plug (parent :: grandparent :: rest) tree) :=
      inorder_plug_congr rest (inorder_rotateTwice parent grandparent tree)
    rw [same] at agree'
    refine ⟨⟨links'', ?_, held'', agree.trans agree'⟩, ?_⟩
    · rw [repeatLoop_again _ turned, ran]
    · rw [repeatHeads_again _ turned, List.length_cons, counted, fewer]

/-- `RtlSplay` on any node of any tree: the node is returned as the root of the tree that the
textbook splays it to, in half a turn for every node above it and one more. -/
theorem rtlSplay_splays {tree : BinaryTree Address} {n : Address} {turns : Nat}
    (holds : RootedTree.Holds links tree) (member : n ∈ inorder tree)
    (enough : tree.numNodes ≤ turns) :
    ∃ context left right links', tree = plug context (.node n left right) ∧
      rtlSplay turns links (some n) = .ok (some n, links') ∧
      RootedTree.Holds links' (splay context (.node n left right)) ∧
      inorder (splay context (.node n left right)) = inorder tree ∧
      AgreeOutside (inorder tree) links links' ∧
      (repeatHeads (splayTurn (some n)) turns links).length = (context.length + 1) / 2 + 1 := by
  obtain ⟨context, left, right, rfl, held⟩ := holds.exists_held member .left
  have size := length_le_plug context (join .left left n right)
  rw [numNodes_join] at size
  have enough' : splayTurns context.length ≤ turns := by
    unfold splayTurns
    omega
  obtain ⟨⟨links', ran, held', agree⟩, counted⟩ := splayLoop_eq turns held rfl enough'
  refine ⟨context, left, right, links', rfl, ?_, holds_iff_held.mpr held', inorder_splay _ _, agree,
    counted⟩
  rw [rtlSplay, ran, ok_bind]
  rfl

end Turns

/-- Three nodes, each on the left of the next one. -/
def exampleLinks : Links := fun address =>
  match address with
  | 100 => some ⟨some 200, none, none⟩
  | 200 => some ⟨some 300, some 100, none⟩
  | 300 => some ⟨some 300, some 200, none⟩
  | _ => none

/-- The tree of the three nodes. -/
def exampleTree : BinaryTree Address :=
  .node 300 (.node 200 (.node 100 .nil .nil) .nil) .nil

theorem exampleLinks_holds : RootedTree.Holds exampleLinks exampleTree :=
  ⟨by decide, rfl, ⟨rfl, ⟨rfl, trivial, trivial⟩, trivial⟩, trivial⟩

theorem rtlSplay_splays_example :
    ∃ links', rtlSplay 3 exampleLinks (some 100) = .ok (some 100, links') ∧
      links' 300 = some ⟨some 200, none, none⟩ := by
  obtain ⟨_, _, _, links', _, ran, _⟩ :=
    rtlSplay_splays exampleLinks_holds (show 100 ∈ inorder exampleTree by decide) (le_refl 3)
  cases ran
  exact ⟨_, rfl, rfl⟩

end Nloader.SplayLinks
