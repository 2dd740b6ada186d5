import Dialogue.Proofs.ContentTrees
import Dialogue.Proofs.StoredValues

/-! Copies of trees. Planning a copy of a tree of stored values does not fail, and what is made of the plan has the same
contents: new lists and variables with the same values, and the same other objects. -/

namespace Dialogue

namespace Copy

mutual
/-- Whether what is planned will have the contents of a tree. What is shared is the object itself. -/
def Reproduces : Copy → ContentTree → Prop
  | .value scalar, tree => ∃ ref, tree = .value ref scalar
  | .list items, tree => ∃ ref trees, tree = .list ref trees ∧ ReproducesAll items trees
  | .keep slot, tree => slot.target = tree.ref

def ReproducesAll : List Copy → List ContentTree → Prop
  | [], trees => trees = []
  | copy :: copies, trees => ∃ tree rest, trees = tree :: rest ∧ copy.Reproduces tree ∧ ReproducesAll copies rest
end

theorem ReproducesAll.length {copies : List Copy} {trees : List ContentTree} (reproduces : ReproducesAll copies trees) :
    copies.length = trees.length := by
  induction copies generalizing trees with
  | nil => exact congrArg List.length reproduces.symm
  | cons copy copies ih =>
    obtain ⟨tree, rest, rfl, -, all⟩ := reproduces
    exact congrArg Nat.succ (ih all)

end Copy

namespace ContentTree

/-- What has come of copying a tree: one with the same contents, whose lists and variables are new unless they are
shared. -/
structure Copies (world after : World) (source made : ContentTree) : Prop where
  stands : made.Stands after
  contents : made.contents = source.contents
  nodes : ∀ ref ∈ made.nodes, world.heap.size ≤ ref ∨ ref ∈ source.nodes
  aliased : Aliased after made.nodes (· ∈ source.refs)

/-- What has come of copying trees one after the other. -/
structure CopyAll (world after : World) (sources mades : List ContentTree) : Prop where
  stand : AllStand after mades
  contents : contentsOf mades = contentsOf sources
  nodes : ∀ ref ∈ nodesOf mades, world.heap.size ≤ ref ∨ ref ∈ nodesOf sources
  aliased : Aliased after (nodesOf mades) (· ∈ refsOf sources)

variable {world after last : World} {tree made : ContentTree} {trees mades : List ContentTree}

theorem CopyAll.cons (copies : Copies world after tree made) (extended : after.Extends last)
    (all : CopyAll world last trees mades) : CopyAll world last (tree :: trees) (made :: mades) where
  stand := ⟨copies.stands.kept extended.touches, all.stand⟩
  contents := by rw [contentsOf, contentsOf, copies.contents, all.contents]
  nodes ref member := by
    rcases List.mem_append.mp member with here | there
    · exact (copies.nodes ref here).imp_right (List.mem_append_left _)
    · exact (all.nodes ref there).imp_right (List.mem_append_right _)
  aliased := ((copies.aliased.kept extended.touches copies.stands.nodes_lt_size).mono fun _ => List.mem_append_left _).append
    (all.aliased.mono fun _ => List.mem_append_right _)

theorem length_nodes_le (stands : tree.Stands world) (once : tree.nodes.Nodup) :
    tree.nodes.length ≤ world.heap.size := by
  have inside : tree.nodes ⊆ List.range world.heap.size := fun ref member => List.mem_range.mpr (stands.nodes_lt_size ref member)
  exact (List.subperm_of_subset once inside).length_le.trans_eq List.length_range

end ContentTree

namespace Act

open World ContentTree

variable {α : Type} {world after : World} {tree : ContentTree} {trees : List ContentTree} {ref list : Ref} {config : Config}
  {plan : Ref → Act Copy} {slots : List Slot}

theorem gives_stored {scalar : Scalar} (found : world.storage? ref = some (.stored scalar)) :
    Gives (value config ref) world fun shown after => shown = scalar ∧ world.Undisturbed after := by
  have reads : Gives (value config ref) world fun shown after =>
      shown = scalar ∧ Twins config (fun _ => False) world after := gives_valueWith_of_seen found rfl
  obtain ⟨shown, after, ran, same, twins⟩ := reads
  exact ⟨shown, after, ran, same, twins.undisturbed⟩

/-- What a plan comes to that is made for a tree. -/
def PlansTree (plan : Ref → Act Copy) (world : World) (tree : ContentTree) : Prop :=
  Gives (plan tree.ref) world fun copy after => copy.Reproduces tree ∧ world.Undisturbed after

theorem PlansTree.planSlot {slot : Slot} (plans : PlansTree plan world tree) (target : slot.target = tree.ref) :
    Gives (planSlot plan slot) world fun copy after => copy.Reproduces tree ∧ world.Undisturbed after := by
  rw [PlansTree, ← target] at plans
  rcases slot with element | ⟨element, name⟩
  · exact plans
  · refine .look ?_
    split
    next => exact plans
    next => exact .pure ⟨target, .refl⟩

theorem gives_mapM_planSlot (targets : slots.map Slot.target = trees.map ContentTree.ref)
    (plans : ∀ tree ∈ trees, ∀ inner, world.Undisturbed inner → PlansTree plan inner tree) :
    Gives (slots.mapM (Act.planSlot plan)) world fun copies after =>
      Copy.ReproducesAll copies trees ∧ world.Undisturbed after := by
  induction slots generalizing world trees with
  | nil =>
    obtain rfl := List.map_eq_nil_iff.mp targets.symm
    rw [List.mapM_nil]
    exact .pure ⟨rfl, .refl⟩
  | cons slot rest ih =>
    cases trees with
    | nil => cases targets
    | cons tree trees =>
      obtain ⟨here, others⟩ := List.cons.inj targets
      obtain ⟨first, later⟩ := List.forall_mem_cons.mp plans
      rw [List.mapM_cons]
      refine ((first world .refl).planSlot here).bind fun copy middle ⟨reproduces, began⟩ => ?_
      have still : ∀ tree ∈ trees, ∀ inner, middle.Undisturbed inner → PlansTree plan inner tree :=
        fun tree member inner went => later tree member inner (began.trans went)
      refine (ih others still).bind fun copies last ⟨all, went⟩ => ?_
      exact .pure ⟨⟨tree, trees, rfl, reproduces, all⟩, began.trans went⟩

/-- What has gone, and what is neither a variable nor a list, is shared. -/
private theorem plansTree_shared {fuel : Nat} (shared : world.Shared tree.ref) :
    PlansTree (planWithin (fuel + 1) config) world tree := by
  refine .look ?_
  split
  next isVar => exact absurd isVar shared.1
  next isList => exact absurd isList shared.2
  next =>
    have refers : Gives (reference tree.ref) world fun slot after => slot.target = tree.ref ∧ after = world :=
      ⟨_, _, reference_eq, target_sharing, rfl⟩
    refine refers.bind ?_
    rintro slot _ ⟨target, rfl⟩
    exact .pure ⟨target, .refl⟩

/-- The elements of a list are planned while the list is busy. -/
private theorem gives_planSlots {items : List ContentTree} (free : world.isBusy ref = false)
    (targets : (world.slots ref).map Slot.target = items.map ContentTree.ref)
    (plans : ∀ tree ∈ items, ∀ inner, Undisturbed (world.setBusy ref true) inner → PlansTree plan inner tree) :
    Gives (planSlots plan ref) world fun copies after =>
      Copy.ReproducesAll copies items ∧ world.Undisturbed after := by
  refine .look (.look ?_)
  rw [free, if_neg Bool.false_ne_true]
  obtain ⟨copies, after, ran, reproduces, still⟩ := gives_mapM_planSlot targets plans
  exact .whileBusy ⟨copies, after, ran, reproduces, still.whileBusy free⟩

private theorem plansTree_planWithin (fuel : Nat) (stands : tree.Stands world) (once : tree.nodes.Nodup)
    (enough : tree.nodes.length < fuel) : PlansTree (planWithin fuel config) world tree := by
  induction fuel generalizing world tree with
  | zero => exact absurd enough (Nat.not_lt_zero _)
  | succ fuel ih =>
    by_cases live : world.isLive tree.ref = true
    case neg =>
      refine plansTree_shared ?_
      rw [Shared, kindOf_of_gone (Bool.not_eq_true _ ▸ live)]
      decide
    cases tree with
    | other ref => exact plansTree_shared (stands.2 live)
    | value ref scalar =>
      have found := stands.2 live
      refine .look ?_
      rw [show world.kindOf (ContentTree.value ref scalar).ref = .var from kindOf_of_storage? found]
      refine (gives_stored found).bind ?_
      rintro _ after ⟨rfl, still⟩
      exact .pure ⟨⟨ref, rfl⟩, still⟩
    | list ref items =>
      obtain ⟨old, there, all⟩ := stands
      obtain ⟨isList, targets⟩ := there live
      obtain ⟨fresh, once⟩ := List.nodup_cons.mp once
      refine .look ?_
      rw [show world.kindOf (ContentTree.list ref items).ref = .list from isList]
      refine .look ?_
      split
      next =>
        have refers : Gives (aliasOf ref) world fun slot after => slot.target = ref ∧ after = world := ⟨_, _, rfl, rfl, rfl⟩
        refine refers.bind ?_
        rintro slot _ ⟨target, rfl⟩
        exact .pure ⟨target, .refl⟩
      next free =>
        have busied : Touches (· = ref) world (world.setBusy ref true) := touches_setBusy rfl
        have entered : AllStand (world.setBusy ref true) items :=
          all.later busied fun other member same => fresh (same ▸ member)
        have shorter : (nodesOf items).length < fuel := Nat.lt_of_succ_lt_succ enough
        have planned : Gives (planSlots (planWithin fuel config) ref) world fun copies after =>
            Copy.ReproducesAll copies items ∧ world.Undisturbed after := by
          refine gives_planSlots (Bool.not_eq_true _ ▸ free) targets fun tree member inner went => ?_
          have standing : tree.Stands inner := (allStand_iff.mp entered tree member).kept went.touches
          have part := nodes_sublist member
          exact ih standing (once.sublist part) (part.length_le.trans_lt shorter)
        refine planned.bind fun copies after ⟨reproduces, still⟩ => ?_
        exact .pure ⟨⟨ref, items, rfl, reproduces⟩, still⟩

/-- Copies of trees can be planned. -/
theorem plansTree_plan (stands : tree.Stands world) (once : tree.nodes.Nodup) :
    PlansTree (Act.plan config) world tree :=
  .look (plansTree_planWithin _ stands once (Nat.lt_succ_of_le (length_nodes_le stands once)))

/-! Making. -/

mutual
private theorem gives_make_tree {start world : World} (size : start.heap.size ≤ world.heap.size) :
    ∀ (copy : Copy) {tree : ContentTree},
    copy.Reproduces tree → tree.Stands world → Gives (make copy) world fun slot after => world.Extends after ∧
      ∃ made : ContentTree, slot.target = made.ref ∧ Aliases (· ∈ tree.refs) slot ∧ Copies start after tree made
  | .value scalar, _, ⟨ref, rfl⟩, _ => by
    have added : Gives (addValue "" scalar) world fun made after =>
        made = world.heap.size ∧ after = world.add { name := "", body := .var (.stored scalar) } := ⟨_, _, rfl, rfl, rfl⟩
    refine added.bind ?_
    rintro _ _ ⟨rfl, rfl⟩
    refine .pure ⟨.add, .value world.heap.size scalar, rfl, (nomatch ·),
      ⟨lt_size_of_isLive isLive_size_add, fun _ => ?_⟩, rfl, ?_, ?_⟩
    · exact storage?_eq_some.mpr (by rw [body?, object?_add, if_pos rfl]; rfl)
    · exact List.forall_mem_singleton.mpr (.inl size)
    · refine List.forall_mem_singleton.mpr fun slot inside => ?_
      rw [slots_add, if_pos rfl] at inside
      cases inside
  | .list items, _, ⟨ref, trees, rfl, all⟩, stands => by
    refine (gives_makeAll_trees size items all stands.2.2).bind ?_
    rintro slots middle ⟨extended, mades, targets, aliases, copied⟩
    have added : Gives (Act.add { name := "", body := .list { slots } }) middle fun made after =>
        made = middle.heap.size ∧ after = middle.add { name := "", body := .list { slots } } := ⟨_, _, rfl, rfl, rfl⟩
    refine added.bind ?_
    rintro _ _ ⟨rfl, rfl⟩
    have there : (middle.add { name := "", body := .list { slots } }).object? middle.heap.size =
        some { name := "", body := .list { slots } } := by rw [object?_add, if_pos rfl]
    have standing : AllStand (middle.add { name := "", body := .list { slots } }) mades :=
      copied.stand.kept Extends.add.touches
    refine .pure ⟨extended.trans .add, .list middle.heap.size mades, rfl, (nomatch ·), ⟨?_, fun _ => ⟨?_, ?_⟩, standing⟩, ?_, ?_, ?_⟩
    · exact lt_size_of_isLive isLive_size_add
    · rw [kindOf, there]
      rfl
    · rw [slots_of_object? there, targets]
    · exact congrArg Contents.list copied.contents
    · refine List.forall_mem_cons.mpr ⟨.inl (size.trans extended.size), fun ref member => ?_⟩
      exact (copied.nodes ref member).imp_right (List.mem_cons_of_mem _)
    · refine List.forall_mem_cons.mpr ⟨fun slot inside link => ?_, ?_⟩
      · rw [slots_of_object? there] at inside
        exact List.mem_cons_of_mem _ (aliases slot inside link)
      · exact (copied.aliased.kept Extends.add.touches copied.stand.nodes_lt_size).mono fun _ => List.mem_cons_of_mem _
  | .keep slot, tree, target, stands =>
    .pure ⟨.refl, tree, target, fun _ => target ▸ ref_mem_refs, stands, rfl, fun _ => .inr, stands.aliased⟩

theorem gives_makeAll_trees {start world : World} (size : start.heap.size ≤ world.heap.size) : ∀ (copies : List Copy)
    {trees : List ContentTree}, Copy.ReproducesAll copies trees → AllStand world trees →
      Gives (makeAll copies) world fun slots after => world.Extends after ∧
        ∃ mades : List ContentTree, slots.map Slot.target = mades.map ContentTree.ref ∧
          (∀ slot ∈ slots, Aliases (· ∈ refsOf trees) slot) ∧ CopyAll start after trees mades
  | [], _, rfl, _ =>
    .pure ⟨.refl, [], rfl, List.forall_mem_nil _, trivial, rfl, List.forall_mem_nil _, List.forall_mem_nil _⟩
  | copy :: rest, _, ⟨tree, trees, rfl, first, others⟩, ⟨here, later⟩ => by
    refine (gives_make_tree size copy first here).bind fun slot middle ⟨extended, made, target, named, copied⟩ => ?_
    have still : AllStand middle trees := later.kept extended.touches
    refine (gives_makeAll_trees (size.trans extended.size) rest others still).bind ?_
    rintro slots after ⟨more, mades, targets, aliases, all⟩
    refine .pure ⟨extended.trans more, made :: mades, ?_, ?_, .cons copied more all⟩
    · rw [List.map_cons, List.map_cons, target, targets]
    · exact List.forall_mem_cons.mpr ⟨fun link => List.mem_append_left _ (named link),
        fun slot member link => List.mem_append_right _ (aliases slot member link)⟩
end

/-- A copy of a tree has its contents, and copying it touches nothing. -/
theorem gives_copy_tree (stands : tree.Stands world) (once : tree.nodes.Nodup) :
    Gives (copy config tree.ref) world fun slot after => Touches (fun _ => False) world after ∧
      ∃ made : ContentTree, slot.target = made.ref ∧ Aliases (· ∈ tree.refs) slot ∧ Copies world after tree made := by
  refine (plansTree_plan stands once).bind fun copy middle ⟨reproduces, still⟩ => ?_
  have standing : tree.Stands middle := stands.kept still.touches
  obtain ⟨slot, after, ran, extended, made⟩ := gives_make_tree still.size.ge copy reproduces standing
  exact ⟨slot, after, ran, still.touches.trans extended.touches, made⟩

end Act

end Dialogue
