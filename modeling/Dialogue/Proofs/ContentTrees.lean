import Dialogue.Proofs.MadeCopies

/-! Trees of contents: what there is in lists and variables, to any depth, and which objects they are. A tree goes on
saying what there is in a world for as long as nothing else than the end of its objects happens to them. -/

namespace Dialogue

/-- A variable with its value, a list with what its elements are, or an object of which only the identity matters. -/
inductive ContentTree where
  | value (ref : Ref) (scalar : Scalar)
  | list (ref : Ref) (items : List ContentTree)
  | other (ref : Ref)

/-- What there is in a tree, whichever lists and variables it is in. -/
inductive Contents where
  | value (scalar : Scalar)
  | list (items : List Contents)
  | other (ref : Ref)

namespace ContentTree

def ref : ContentTree → Ref
  | .value ref _ => ref
  | .list ref _ => ref
  | .other ref => ref

mutual
/-- The lists and variables of a tree, as often as they occur. -/
def nodes : ContentTree → List Ref
  | .value ref _ => [ref]
  | .list ref items => ref :: nodesOf items
  | .other _ => []

def nodesOf : List ContentTree → List Ref
  | [] => []
  | tree :: rest => tree.nodes ++ nodesOf rest
end

mutual
/-- All the objects of a tree. -/
def refs : ContentTree → List Ref
  | .value ref _ => [ref]
  | .list ref items => ref :: refsOf items
  | .other ref => [ref]

def refsOf : List ContentTree → List Ref
  | [] => []
  | tree :: rest => tree.refs ++ refsOf rest
end

mutual
def contents : ContentTree → Contents
  | .value _ scalar => .value scalar
  | .list _ items => .list (contentsOf items)
  | .other ref => .other ref

def contentsOf : List ContentTree → List Contents
  | [] => []
  | tree :: rest => tree.contents :: contentsOf rest
end

mutual
/-- Whether a tree says what there is in a world, as far as its objects live. -/
def Stands (world : World) : ContentTree → Prop
  | .value ref scalar =>
    ref < world.heap.size ∧ (world.isLive ref = true → world.storage? ref = some (.stored scalar))
  | .list ref items => ref < world.heap.size ∧
    (world.isLive ref = true → world.kindOf ref = .list ∧ (world.slots ref).map Slot.target = items.map ContentTree.ref) ∧
    AllStand world items
  | .other ref => ref < world.heap.size ∧ (world.isLive ref = true → world.Shared ref)

def AllStand (world : World) : List ContentTree → Prop
  | [] => True
  | tree :: rest => tree.Stands world ∧ AllStand world rest
end

variable {world after : World} {tree : ContentTree} {trees others : List ContentTree} {ref : Ref}

theorem mem_nodesOf : ref ∈ nodesOf trees ↔ ∃ tree ∈ trees, ref ∈ tree.nodes := by
  induction trees with
  | nil => simp [nodesOf]
  | cons tree rest ih => rw [nodesOf, List.mem_append, ih, List.exists_mem_cons_iff]

theorem nodesOf_append : nodesOf (trees ++ others) = nodesOf trees ++ nodesOf others := by
  induction trees with
  | nil => rfl
  | cons tree rest ih => rw [List.cons_append, nodesOf, nodesOf, ih, List.append_assoc]

theorem nodesOf_sublist (part : trees.Sublist others) : (nodesOf trees).Sublist (nodesOf others) := by
  induction part with
  | slnil => exact .slnil
  | cons tree _ ih => exact ih.trans (List.sublist_append_right ..)
  | cons_cons tree _ ih => exact .append (.refl _) ih

theorem mem_nodesOf_of_mem_take {count : Nat} (member : ref ∈ nodesOf (trees.take count)) : ref ∈ nodesOf trees :=
  (nodesOf_sublist (List.take_sublist ..)).subset member

theorem mem_nodesOf_of_mem_drop {count : Nat} (member : ref ∈ nodesOf (trees.drop count)) : ref ∈ nodesOf trees :=
  (nodesOf_sublist (List.drop_sublist ..)).subset member

theorem nodesOf_singleton : nodesOf [tree] = tree.nodes := List.append_nil _

theorem nodes_sublist (member : tree ∈ trees) : tree.nodes.Sublist (nodesOf trees) := by
  have single : (nodesOf [tree]).Sublist (nodesOf trees) := nodesOf_sublist (List.singleton_sublist.mpr member)
  rwa [nodesOf_singleton] at single

theorem ref_mem_refs : tree.ref ∈ tree.refs := by
  cases tree with
  | _ => exact List.mem_cons_self

theorem mem_refsOf : ref ∈ refsOf trees ↔ ∃ tree ∈ trees, ref ∈ tree.refs := by
  induction trees with
  | nil => simp [refsOf]
  | cons tree rest ih => rw [refsOf, List.mem_append, ih, List.exists_mem_cons_iff]

theorem refsOf_subset (part : trees ⊆ others) : refsOf trees ⊆ refsOf others := by
  intro ref member
  obtain ⟨tree, inside, here⟩ := mem_refsOf.mp member
  exact mem_refsOf.mpr ⟨tree, part inside, here⟩

theorem map_ref_subset : trees.map ContentTree.ref ⊆ refsOf trees := by
  intro ref member
  obtain ⟨tree, inside, rfl⟩ := List.mem_map.mp member
  exact mem_refsOf.mpr ⟨tree, inside, ref_mem_refs⟩

theorem contentsOf_eq : contentsOf trees = trees.map contents := by
  induction trees with
  | nil => rfl
  | cons tree rest ih => rw [contentsOf, ih, List.map_cons]

theorem contentsOf_append : contentsOf (trees ++ others) = contentsOf trees ++ contentsOf others := by
  simp only [contentsOf_eq, List.map_append]

theorem allStand_iff : AllStand world trees ↔ ∀ tree ∈ trees, tree.Stands world := by
  induction trees with
  | nil => simp [AllStand]
  | cons tree rest ih => rw [AllStand, ih, List.forall_mem_cons]

theorem allStand_append : AllStand world (trees ++ others) ↔ AllStand world trees ∧ AllStand world others := by
  simp only [allStand_iff, List.forall_mem_append]

theorem AllStand.take (stand : AllStand world trees) (count : Nat) : AllStand world (trees.take count) :=
  allStand_iff.mpr fun tree member => allStand_iff.mp stand tree (List.mem_of_mem_take member)

theorem AllStand.drop (stand : AllStand world trees) (count : Nat) : AllStand world (trees.drop count) :=
  allStand_iff.mpr fun tree member => allStand_iff.mp stand tree (List.mem_of_mem_drop member)

/-- The objects of a tree have been made. -/
theorem Stands.lt_size (stands : tree.Stands world) : tree.ref < world.heap.size := by
  cases tree with
  | _ => exact stands.1

mutual
theorem Stands.nodes_lt_size : ∀ {tree : ContentTree}, tree.Stands world → ∀ ref ∈ tree.nodes, ref < world.heap.size
  | .value _ _, stands, _, member => List.mem_singleton.mp member ▸ stands.1
  | .list _ _, stands, _, member => (List.mem_cons.mp member).elim (fun same => same ▸ stands.1)
    (AllStand.nodes_lt_size stands.2.2 _)
  | .other _, _, _, member => nomatch member

theorem AllStand.nodes_lt_size :
    ∀ {trees : List ContentTree}, AllStand world trees → ∀ ref ∈ nodesOf trees, ref < world.heap.size
  | [], _, _, member => nomatch member
  | _ :: _, stands, _, member => (List.mem_append.mp member).elim (stands.1.nodes_lt_size _)
    (AllStand.nodes_lt_size stands.2 _)
end

end ContentTree

namespace World

variable {world after last : World} {region wider : Ref → Prop} {ref other list : Ref} {object : Object}

theorem isLive_of_isBusy (busy : world.isBusy ref = true) : world.isLive ref = true := by
  rw [isBusy, list?_eq_bind] at busy
  rw [isLive]
  cases found : world.object? ref with
  | none => simp [found] at busy
  | some object => rfl

/-- What becomes of a world where lists and variables outside of a region stay as they are, unless they go, and nothing
becomes or ceases to be constant. -/
structure Touches (region : Ref → Prop) (world after : World) : Prop where
  size : world.heap.size ≤ after.heap.size
  objects : ∀ ref < world.heap.size, ∀ object ∈ after.object? ref, ∃ former ∈ world.object? ref,
    object.kind = former.kind ∧ object.constant = former.constant ∧
      (¬ region ref → object.essence.body = former.essence.body)

namespace Touches

theorem refl : Touches region world world := ⟨le_rfl, fun _ _ object found => ⟨object, found, rfl, rfl, fun _ => rfl⟩⟩

theorem trans (first : Touches region world after) (second : Touches region after last) :
    Touches region world last := by
  refine ⟨first.size.trans second.size, fun ref old object found => ?_⟩
  obtain ⟨between, there, kind, constant, body⟩ := second.objects ref (old.trans_le first.size) object found
  obtain ⟨former, before, kinds, constants, bodies⟩ := first.objects ref old between there
  exact ⟨former, before, kind.trans kinds, constant.trans constants, fun outside => (body outside).trans (bodies outside)⟩

variable (touches : Touches region world after)

include touches

theorem mono (less : ∀ ref < world.heap.size, region ref → wider ref) : Touches wider world after := by
  refine ⟨touches.size, fun ref old object found => ?_⟩
  obtain ⟨former, before, kind, constant, body⟩ := touches.objects ref old object found
  exact ⟨former, before, kind, constant, fun outside => body fun inside => outside (less ref old inside)⟩

theorem isLive (old : ref < world.heap.size) (live : after.isLive ref = true) : world.isLive ref = true := by
  obtain ⟨object, found⟩ := Option.isSome_iff_exists.mp live
  obtain ⟨former, before, -⟩ := touches.objects ref old object found
  rw [World.isLive, before, Option.isSome_some]

theorem kindOf (old : ref < world.heap.size) (live : after.isLive ref = true) :
    after.kindOf ref = world.kindOf ref := by
  obtain ⟨object, found⟩ := Option.isSome_iff_exists.mp live
  obtain ⟨former, before, kind, -⟩ := touches.objects ref old object found
  rw [World.kindOf, World.kindOf, found, before]
  exact kind

theorem isConstant (old : ref < world.heap.size) (live : after.isLive ref = true) :
    after.isConstant ref = world.isConstant ref := by
  obtain ⟨object, found⟩ := Option.isSome_iff_exists.mp live
  obtain ⟨former, before, -, constant, -⟩ := touches.objects ref old object found
  rw [World.isConstant, World.isConstant, found, before]
  exact constant

theorem essence (old : ref < world.heap.size) (outside : ¬ region ref) (live : after.isLive ref = true) :
    ∃ object former, after.object? ref = some object ∧ world.object? ref = some former ∧
      object.essence.body = former.essence.body := by
  obtain ⟨object, found⟩ := Option.isSome_iff_exists.mp live
  obtain ⟨former, before, -, -, body⟩ := touches.objects ref old object found
  exact ⟨object, former, found, before, body outside⟩

theorem list? (old : ref < world.heap.size) (outside : ¬ region ref) (live : after.isLive ref = true) :
    after.list? ref = world.list? ref := by
  obtain ⟨object, former, found, before, body⟩ := touches.essence old outside live
  rw [list?_eq_bind, list?_eq_bind, found, before, Option.bind_some, Option.bind_some, ← Object.list?_essence,
    ← former.list?_essence, Object.list?, Object.list?, Object.content, Object.content, body]

theorem slots (old : ref < world.heap.size) (outside : ¬ region ref) (live : after.isLive ref = true) :
    after.slots ref = world.slots ref := by
  rw [World.slots, World.slots, touches.list? old outside live]

theorem isBusy (old : ref < world.heap.size) (outside : ¬ region ref) (live : after.isLive ref = true) :
    after.isBusy ref = world.isBusy ref := by
  rw [World.isBusy, World.isBusy, touches.list? old outside live]

theorem length_le (old : ref < world.heap.size) (outside : ¬ region ref) : after.length ref ≤ world.length ref := by
  by_cases live : after.isLive ref = true
  · rw [World.length, touches.slots old outside live, World.length]
  · rw [World.length, slots_eq_nil_of_not_isLive (Bool.not_eq_true _ ▸ live)]
    exact Nat.zero_le _

theorem stored {scalar : Scalar} (outside : ¬ region ref) (found : world.storage? ref = some (.stored scalar))
    (live : after.isLive ref = true) : after.storage? ref = some (.stored scalar) := by
  have old := lt_size_of_isLive (isLive_of_storage? found)
  obtain ⟨object, former, later, before, body⟩ := touches.essence old outside live
  have same : (after.storage? ref).map Storage.essence = (world.storage? ref).map Storage.essence := by
    rw [storage?_eq_bind, storage?_eq_bind, later, before, Option.bind_some, Option.bind_some, ← Object.storage?_essence,
      ← former.storage?_essence, Object.storage?, Object.storage?, Object.content, Object.content, body]
  rw [found] at same
  obtain ⟨storage, there, alike⟩ := Option.map_eq_some_iff.mp same
  rw [there, Storage.eq_of_essence (by rintro _ _ ⟨⟩) alike]

/-- A list outside of the region has no other slots than it had. -/
theorem slots_subset (old : ref < world.heap.size) (outside : ¬ region ref) : after.slots ref ⊆ world.slots ref := by
  by_cases live : after.isLive ref = true
  · rw [touches.slots old outside live]
    exact List.Subset.refl _
  · rw [slots_eq_nil_of_not_isLive (Bool.not_eq_true _ ▸ live)]
    exact List.nil_subset _

end Touches

/-! Changes. -/

theorem Undisturbed.touches (undisturbed : world.Undisturbed after) : Touches region world after := by
  refine ⟨undisturbed.size.ge, fun ref _ object found => ?_⟩
  have same := undisturbed.same ref
  rw [found] at same
  obtain ⟨former, before, alike⟩ := Option.map_eq_some_iff.mp same.symm
  have kind (object : Object) : object.essence.kind = object.kind := by
    obtain ⟨name, body, constant, parent⟩ := object
    cases body <;> rfl
  have constant (object : Object) : object.essence.constant = object.constant := by
    obtain ⟨name, body, constant, parent⟩ := object
    cases body <;> rfl
  exact ⟨former, before, by rw [← kind object, ← alike, kind], by rw [← constant object, ← alike, constant],
    fun _ => by rw [alike]⟩

private theorem touches_of_objects (size : world.heap.size ≤ after.heap.size)
    (same : ∀ ref < world.heap.size, after.object? ref = world.object? ref) : Touches region world after :=
  ⟨size, fun ref old object found => ⟨object, (same ref old).symm.trans found, rfl, rfl, fun _ => rfl⟩⟩

theorem Extends.touches (extended : world.Extends after) : Touches region world after :=
  touches_of_objects extended.size extended.old

theorem touches_withInUse {inUse : List Ref} : Touches region world { world with inUse } :=
  touches_of_objects le_rfl fun _ _ => rfl

private theorem touches_change {rule : Object → Object} (inside : region ref)
    (kind : ∀ object, (rule object).kind = object.kind)
    (constant : ∀ object, (rule object).constant = object.constant) : Touches region world (world.change ref rule) := by
  refine ⟨heap_size_change.ge, fun other _ object found => ?_⟩
  rw [object?_change] at found
  split at found
  next here =>
    obtain ⟨former, before, rfl⟩ := Option.map_eq_some_iff.mp found
    exact ⟨former, before, kind former, constant former, fun outside => absurd (here ▸ inside) outside⟩
  next => exact ⟨object, found, rfl, rfl, fun _ => rfl⟩

theorem touches_changeList {rule : ListData → ListData} (inside : region list) :
    Touches region world (world.changeList list rule) := by
  apply touches_change inside <;> rintro ⟨name, body, constant, parent⟩ <;> cases body <;> rfl

theorem touches_setBusy {busy : Bool} (inside : region list) : Touches region world (world.setBusy list busy) :=
  touches_changeList inside

theorem touches_setStorage {storage : Storage} (inside : region ref) :
    Touches region world (world.setStorage ref storage) := by
  apply touches_change inside <;> rintro ⟨name, body, constant, parent⟩ <;> cases body <;> rfl

private theorem touches_bury : Touches region world (world.bury ref) := by
  refine ⟨heap_size_bury.ge, fun other _ object found => ?_⟩
  rw [object?_bury] at found
  split at found
  next => cases found
  next =>
    split at found
    next =>
      obtain ⟨former, before, rfl⟩ := Option.map_eq_some_iff.mp found
      obtain ⟨name, body, constant, parent⟩ := former
      exact ⟨_, before, rfl, rfl, fun _ => by cases body <;> rfl⟩
    next => exact ⟨object, found, rfl, rfl, fun _ => rfl⟩

theorem touches_releaseAll (refs : List Ref) : Touches region world (world.releaseAll refs) :=
  releaseAll_induction _ (fun _ => True) (fun former _ _ => former.trans touches_bury) (fun _ _ _ => trivial) .refl
    fun _ _ => trivial

theorem touches_settle {kept : List Ref} : Touches region world (world.settle kept) :=
  touches_withInUse.trans (touches_releaseAll _)

end World

namespace ContentTree

open World

variable {world after : World} {region : Ref → Prop}

mutual
/-- A tree whose lists and variables are not touched stands for as long as they live. -/
theorem Stands.later (touches : Touches region world after) : ∀ {tree : ContentTree}, tree.Stands world →
    (∀ ref ∈ tree.nodes, ¬ region ref) → tree.Stands after
  | .value ref _, ⟨old, there⟩, outside => ⟨old.trans_le touches.size, fun live =>
      touches.stored (outside ref List.mem_cons_self) (there (touches.isLive old live)) live⟩
  | .list ref _, ⟨old, there, all⟩, outside => by
    refine ⟨old.trans_le touches.size, fun live => ?_, AllStand.later touches all fun other member =>
      outside other (List.mem_cons_of_mem ref member)⟩
    rw [touches.kindOf old live, touches.slots old (outside ref List.mem_cons_self) live]
    exact there (touches.isLive old live)
  | .other _, ⟨old, there⟩, _ => ⟨old.trans_le touches.size, fun live => by
      rw [Shared, touches.kindOf old live]
      exact there (touches.isLive old live)⟩

theorem AllStand.later (touches : Touches region world after) : ∀ {trees : List ContentTree}, AllStand world trees →
    (∀ ref ∈ nodesOf trees, ¬ region ref) → AllStand after trees
  | [], _, _ => trivial
  | _ :: _, ⟨first, others⟩, outside =>
    ⟨first.later touches fun ref member => outside ref (List.mem_append_left _ member),
      AllStand.later touches others fun ref member => outside ref (List.mem_append_right _ member)⟩
end

theorem Stands.kept {tree : ContentTree} (stands : tree.Stands world) (touches : Touches (fun _ => False) world after) :
    tree.Stands after :=
  stands.later touches fun _ _ => id

theorem AllStand.kept {trees : List ContentTree} (stand : AllStand world trees)
    (touches : Touches (fun _ => False) world after) :
    AllStand after trees :=
  stand.later touches fun _ _ => id

/-! Aliases. What is held lives, so what an alias leads to is all that can have gone. -/

/-- Whether a slot holds its object or is an alias of one of a region. -/
def Aliases (region : Ref → Prop) (slot : Slot) : Prop := slot.held? = none → region slot.target

/-- Whether the aliases in some lists are aliases of objects of a region. -/
def Aliased (world : World) (lists : List Ref) (region : Ref → Prop) : Prop :=
  ∀ list ∈ lists, ∀ slot ∈ world.slots list, Aliases region slot

namespace Aliased

variable {lists others : List Ref} {wider : Ref → Prop}

theorem mono (aliased : Aliased world lists region) (less : ∀ ref, region ref → wider ref) :
    Aliased world lists wider :=
  fun list member slot inside link => less _ (aliased list member slot inside link)

theorem tail {list : Ref} (aliased : Aliased world (list :: lists) region) : Aliased world lists region :=
  (List.forall_mem_cons.mp aliased).2

theorem append (aliased : Aliased world lists region) (also : Aliased world others region) :
    Aliased world (lists ++ others) region :=
  fun list member => (List.mem_append.mp member).elim (aliased list) (also list)

theorem later (aliased : Aliased world lists region) (touches : Touches wider world after)
    (old : ∀ list ∈ lists, list < world.heap.size) (outside : ∀ list ∈ lists, ¬ wider list) : Aliased after lists region :=
  fun list member _ inside =>
    aliased list member _ (touches.slots_subset (old list member) (outside list member) inside)

theorem kept (aliased : Aliased world lists region) (touches : Touches (fun _ => False) world after)
    (old : ∀ list ∈ lists, list < world.heap.size) : Aliased after lists region :=
  aliased.later touches old fun _ _ => id

end Aliased

mutual
/-- In a tree that stands, lists have no aliases of other objects than those of the tree. -/
theorem Stands.aliased : ∀ {tree : ContentTree}, tree.Stands world → Aliased world tree.nodes (· ∈ tree.refs)
  | .value ref scalar, stands, holder, member, slot, inside, _ => by
    rw [List.mem_singleton.mp member] at inside
    have isList := kindOf_eq_list_of_mem_slots inside
    cases (kindOf_of_storage? (stands.2 (isLive_of_isList isList))).symm.trans isList
  | .list ref items, stands, holder, member, slot, inside, link => by
    rcases List.mem_cons.mp member with rfl | member
    · have live := isLive_of_isList (kindOf_eq_list_of_mem_slots inside)
      refine List.mem_cons_of_mem _ (map_ref_subset ?_)
      rw [← (stands.2.1 live).2]
      exact List.mem_map_of_mem inside
    · exact List.mem_cons_of_mem _ (AllStand.aliased stands.2.2 holder member slot inside link)
  | .other _, _, _, member, _, _, _ => nomatch member

theorem AllStand.aliased :
    ∀ {trees : List ContentTree}, AllStand world trees → Aliased world (nodesOf trees) (· ∈ refsOf trees)
  | [], _, _, member, _, _, _ => nomatch member
  | _ :: _, ⟨first, others⟩, holder, member, slot, inside, link => (List.mem_append.mp member).elim
    (fun here => List.mem_append_left _ (first.aliased holder here slot inside link))
    fun there => List.mem_append_right _ (AllStand.aliased others holder there slot inside link)
end

end ContentTree

end Dialogue
