import Dialogue.Proofs.Registration

/-! Marks of constness. Looking up, moving and renaming objects does the same in a world in which an object is marked
otherwise, and leaves the mark. -/

namespace Dialogue

theorem Heap.modify_comm {heap : Heap} {ref other : Ref} {rule again : Object → Object}
    (comm : ∀ object, rule (again object) = again (rule object)) :
    (heap.modify ref again).modify other rule = (heap.modify other rule).modify ref again := by
  refine congrArg Heap.mk (Array.ext_getElem? fun index => ?_)
  simp only [Heap.modify, Array.getElem?_modify]
  by_cases first : ref = index <;> by_cases second : other = index <;> simp only [first, second, if_true, if_false]
  cases heap.cells[index]? with
  | none => rfl
  | some cell => cases cell <;> simp [comm]

namespace World

variable {world : World} {scope object ref : Ref} {name : String} {constant : Bool}

theorem change_comm {other : Ref} {rule again : Object → Object}
    (comm : ∀ object, rule (again object) = again (rule object)) :
    (world.change ref again).change other rule = (world.change other rule).change ref again :=
  congrArg ({ world with heap := · }) (Heap.modify_comm comm)

/-! What is seen of a world does not depend on the mark. -/

private theorem shape?_setConstant : (world.setConstant scope constant).shape? ref = world.shape? ref := by
  rw [setConstant, shape?_change id]
  · split <;> simp
  · exact fun _ => rfl

theorem scope?_setConstant : (world.setConstant scope constant).scope? ref = world.scope? ref := by
  rw [scope?_eq, scope?_eq, setConstant, object?_change]
  split
  · cases world.object? ref <;> rfl
  · rfl

private theorem members_setConstant : (world.setConstant scope constant).members ref = world.members ref := by
  rw [members, scope?_setConstant, members]

theorem nameOf_setConstant : (world.setConstant scope constant).nameOf ref = world.nameOf ref := by
  rw [nameOf_eq, shape?_setConstant, nameOf_eq]

private theorem kindOf_setConstant : (world.setConstant scope constant).kindOf ref = world.kindOf ref := by
  rw [kindOf_eq, shape?_setConstant, kindOf_eq]

theorem parent?_setConstant : (world.setConstant scope constant).parent? ref = world.parent? ref := by
  rw [parent?, parent?, setConstant, object?_change]
  split
  · cases world.object? ref <;> simp [isLive_change]
  · simp [isLive_change]

private theorem lineage_setConstant : (world.setConstant scope constant).lineage ref = world.lineage ref := by
  have within (fuel : Nat) (ref : Ref) :
      lineageWithin fuel (world.setConstant scope constant) ref = lineageWithin fuel world ref := by
    induction fuel generalizing ref with
    | zero => rfl
    | succ fuel ih => simp only [lineageWithin, parent?_setConstant, ih]
  rw [lineage, lineage, within, setConstant, heap_size_change]

theorem fullName_setConstant : (world.setConstant scope constant).fullName ref = world.fullName ref := by
  rw [fullName, fullName, lineage_setConstant]
  exact congrArg Identifier.join (List.map_congr_left fun _ _ => nameOf_setConstant)

theorem isConstant_setConstant (apart : ref ≠ scope) :
    (world.setConstant scope constant).isConstant ref = world.isConstant ref := by
  rw [isConstant, isConstant, setConstant, object?_change, if_neg apart.symm]

theorem taken_setConstant : (world.setConstant scope constant).Taken ref name ↔ world.Taken ref name := by
  have claims : (world.setConstant scope constant).claimed ref = world.claimed ref := by
    rw [claimed, scope?_setConstant, claimed]
  rw [Taken, Taken, members_setConstant, Settled, Settled, kindOf_setConstant, claims]

/-! Changes of a world with the mark. -/

theorem setParent_setConstant {parent : Option Ref} : (world.setConstant scope constant).setParent object parent =
    (world.setParent object parent).setConstant scope constant :=
  change_comm fun _ => rfl

theorem setName_setConstant : (world.setConstant scope constant).setName object name =
    (world.setName object name).setConstant scope constant :=
  change_comm fun _ => rfl

theorem changeScope_setConstant {rule : ScopeData → ScopeData} :
    (world.setConstant scope constant).changeScope ref rule = (world.changeScope ref rule).setConstant scope constant :=
  change_comm fun object => by
    obtain ⟨name, body, marked, parent⟩ := object
    cases body <;> rfl

private theorem add_setConstant {made : Object} (old : scope < world.heap.size) :
    (world.setConstant scope constant).add made = (world.add made).setConstant scope constant := by
  refine congrArg ({ world with heap := · }) (congrArg Heap.mk (Array.ext_getElem? fun index => ?_))
  simp only [setConstant, change, Heap.modify, Heap.add, add, Array.getElem?_push, Array.getElem?_modify,
    Array.size_modify]
  by_cases fresh : index = world.heap.cells.size
  · have apart : scope ≠ index := fun same => Nat.lt_irrefl _ (fresh ▸ same ▸ old)
    simp [fresh, fresh ▸ apart]
  · simp [fresh]

private theorem insertMember_setConstant : (world.setConstant scope constant).insertMember ref object =
    (world.insertMember ref object).setConstant scope constant := by
  rw [insertMember, setParent_setConstant, nameOf_setConstant]
  exact changeScope_setConstant

theorem materialize_setConstant (old : scope < world.heap.size) :
    (world.setConstant scope constant).materialize ref name =
      (world.materialize ref name).setConstant scope constant := by
  have claims (builtin : Builtin) : (world.setConstant scope constant).claim ref builtin =
      (world.claim ref builtin).setConstant scope constant := changeScope_setConstant
  have size (builtin : Builtin) : (world.claim ref builtin).heap.size = world.heap.size := heap_size_change
  have marked : (world.setConstant scope constant).heap.size = world.heap.size := heap_size_change
  unfold materialize
  rw [scope?_setConstant, kindOf_setConstant, marked]
  split
  next data builtin _ _ =>
    split
    next => rfl
    next => rw [claims, add_setConstant (size builtin ▸ old), insertMember_setConstant]
  next => rfl

private theorem detach_setConstant : (world.setConstant scope constant).detach object =
    (world.detach object).setConstant scope constant := by
  unfold detach
  rw [parent?_setConstant]
  split
  next => rfl
  next owner _ =>
    rw [members_setConstant, nameOf_setConstant]
    split
    next => rw [changeMembers, changeScope_setConstant, setParent_setConstant, changeMembers]
    next => rfl

theorem move_setConstant : (world.setConstant scope constant).move ref object =
    (world.move ref object).setConstant scope constant := by
  rw [move, detach_setConstant, insertMember_setConstant, move]

end World

end Dialogue
