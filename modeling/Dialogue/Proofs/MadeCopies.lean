import Dialogue.Proofs.CopyPlans
import Dialogue.Proofs.CopyTermination

/-! Copies that are made. Whatever is made for them is new, has neither name nor owner and refers to nothing but older
copies and what copies share, so a copy stands apart from its source. In the world that it is made in, the plan says
of the copy what it said of the source. -/

namespace Dialogue

namespace World

variable {world after : World} {ref other : Ref} {config : Config} {region : Ref → Prop} {object : Object} {slot : Slot}
  {storage : Storage}

/-- What copies are made of that were begun in a world: values, and lists of what copies share and of older copies. -/
inductive Anew (world : World) (ref : Ref) : Object → Prop where
  | value (scalar : Scalar) : Anew world ref { name := "", body := .var (.stored scalar) }
  | list (slots : List Slot)
      (older : ∀ slot ∈ slots, slot.target < ref ∧ (world.heap.size ≤ slot.target ∨ world.Shared slot.target)) :
      Anew world ref { name := "", body := .list { slots } }

/-- A world with copies besides what was there before. -/
structure Adds (world after : World) : Prop where
  settings : after.config = world.config
  size : world.heap.size ≤ after.heap.size
  outside : ∀ ref < world.heap.size, after.outside? ref = world.outside? ref
  kinds : ∀ ref < world.heap.size, after.kindOf ref = world.kindOf ref
  new : ∀ ref object, world.heap.size ≤ ref → after.object? ref = some object → world.Anew ref object

theorem Undisturbed.kindOf (undisturbed : world.Undisturbed after) : after.kindOf ref = world.kindOf ref := by
  refine undisturbed.view (fun found : Option Object => found.elim Kind.plain Object.kind) fun object => ?_
  obtain ⟨name, body, constant, parent⟩ := object
  cases body <;> rfl

theorem Undisturbed.adds (undisturbed : world.Undisturbed after) : world.Adds after where
  settings := by rw [undisturbed.rest]
  size := undisturbed.size.ge
  outside _ _ := undisturbed.outside?
  kinds _ _ := undisturbed.kindOf
  new ref object beyond found := by
    have none : after.object? ref = none := Heap.get?_of_size_le (undisturbed.size.trans_le beyond)
    cases none.symm.trans found

namespace Adds

variable (adds : world.Adds after)

include adds

theorem add (anew : world.Anew after.heap.size object) : world.Adds (after.add object) where
  settings := adds.settings
  size := adds.size.trans (by rw [World.add, Heap.size_add]; exact Nat.le_succ _)
  outside ref old := by
    rw [outside?, object?_add, if_neg (old.trans_le adds.size).ne]
    exact adds.outside ref old
  kinds ref old := by
    rw [kindOf, object?_add, if_neg (old.trans_le adds.size).ne]
    exact adds.kinds ref old
  new ref made beyond found := by
    rw [object?_add] at found
    split at found
    next here => exact here ▸ Option.some.inj found ▸ anew
    next => exact adds.new ref made beyond found

/-- A list that was there before may get other elements. -/
theorem changeSlots {list : Ref} {rule : List Slot → List Slot} (old : list < world.heap.size) :
    world.Adds (after.changeSlots list rule) where
  settings := adds.settings
  size := adds.size.trans heap_size_change.ge
  outside ref inside := by
    rw [outside?, World.changeSlots, changeList, object?_change, ← adds.outside ref inside, outside?]
    split
    · cases after.object? ref with
      | none => rfl
      | some object =>
        obtain ⟨name, body, constant, parent⟩ := object
        cases body <;> rfl
    · rfl
  kinds ref inside := kindOf_changeSlots.trans (adds.kinds ref inside)
  new ref object beyond found := by
    rw [World.changeSlots, changeList, object?_change, if_neg (old.trans_le beyond).ne] at found
    exact adds.new ref object beyond found

theorem isLive (old : ref < world.heap.size) : after.isLive ref = world.isLive ref := by
  rw [isLive_eq_outside?, adds.outside ref old, ← isLive_eq_outside?]

theorem nameOf (old : ref < world.heap.size) : after.nameOf ref = world.nameOf ref := by
  rw [nameOf_eq_outside?, adds.outside ref old, ← nameOf_eq_outside?]

theorem owner?_eq (old : ref < world.heap.size) : after.owner? ref = world.owner? ref := by
  have same := congrArg (Option.bind · (·.parent)) (adds.outside ref old)
  rw [outside?, outside?, Option.bind_map, Option.bind_map] at same
  exact same

/-- Nothing that is new has an owner, and owners have not gone. -/
theorem isLive_of_owner? (forest : world.Forest) (object owner : Ref) (owned : after.owner? object = some owner) :
    after.isLive owner = true := by
  by_cases old : object < world.heap.size
  · have live := forest.isLive_of_owner? object owner ((adds.owner?_eq old).symm.trans owned)
    rwa [adds.isLive (lt_size_of_isLive live)]
  · obtain ⟨found, there, parent⟩ := Option.bind_eq_some_iff.mp owned
    cases adds.new object found (Nat.not_lt.mp old) there with
    | value => cases parent
    | list => cases parent

theorem lineage_eq (forest : world.Forest) (live : world.isLive ref = true) :
    after.lineage ref = world.lineage ref := by
  have walk : after.Lineage ref (world.lineage ref) := (forest.lineage ref).of_owner?_eq fun other above =>
    adds.owner?_eq (lt_size_of_isLive (forest.isLive_of_mem_lineage live above))
  exact walk.eq_lineage (adds.isLive_of_owner? forest)

theorem fullName_eq (forest : world.Forest) (live : world.isLive ref = true) :
    after.fullName ref = world.fullName ref := by
  rw [fullName, adds.lineage_eq forest live, fullName]
  refine congrArg Identifier.join (List.map_congr_left fun other above => adds.nameOf (lt_size_of_isLive ?_))
  exact forest.isLive_of_mem_lineage live (List.mem_reverse.mp above)

theorem fullName_known (forest : world.Forest) (old : ref < world.heap.size) :
    after.fullName ref = world.fullName ref := by
  by_cases live : world.isLive ref = true
  · exact adds.fullName_eq forest live
  · have gone := Bool.not_eq_true _ ▸ live
    rw [fullName_of_gone gone, fullName_of_gone ((adds.isLive old).trans gone)]

private theorem sharing_eq (forest : world.Forest) (live : world.isLive ref = true) :
    after.sharing ref = world.sharing ref := by
  have parent : after.parent? ref = world.parent? ref := by
    rw [Lineage.parent?_eq (adds.isLive_of_owner? forest), forest.parent?_eq, adds.owner?_eq (lt_size_of_isLive live)]
  rw [sharing, isRegistered, parent, adds.fullName_eq forest live, sharing, isRegistered]

end Adds

/-! What copies consist of. -/

theorem slots_of_object? {slots : List Slot}
    (found : world.object? ref = some { name := "", body := .list { slots } }) :
    world.slots ref = slots := by
  rw [slots_eq, found]
  rfl

theorem list?_eq_some {data : ListData} : world.list? ref = some data ↔ world.body? ref = some (.list data) := by
  unfold list?
  split <;> simp_all

theorem Shared.alone (shared : world.Shared ref) : ¬ world.Consults ref other := by
  rintro (⟨slot, member, -⟩ | shown)
  · exact shared.2 (kindOf_eq_list_of_mem_slots member)
  · obtain ⟨storage, found, -⟩ := Option.bind_eq_some_iff.mp shown
    exact shared.1 (kindOf_of_storage? found)

/-- Whether an object is part of copies, or shared by them. -/
def InCopies (world : World) (ref : Ref) : Prop := world.heap.size ≤ ref ∨ world.Shared ref

namespace Adds

variable (adds : world.Adds after)

include adds

theorem consults (inside : world.InCopies ref) (consults : after.Consults ref other) :
    world.InCopies other ∧ other < ref := by
  by_cases old : ref < world.heap.size
  · have shared := inside.resolve_left (Nat.not_le.mpr old)
    refine absurd consults (Shared.alone ?_)
    rw [Shared, adds.kinds ref old]
    exact shared
  · have anew := adds.new ref
    rcases consults with ⟨slot, member, rfl⟩ | shown
    · obtain ⟨object, there⟩ := Option.isSome_iff_exists.mp (isLive_of_mem_slots member)
      cases anew object (Nat.not_lt.mp old) there with
      | value =>
        rw [slots_eq, there] at member
        cases member
      | list slots older =>
        rw [slots_of_object? there] at member
        exact (older slot member).symm
    · obtain ⟨storage, found, shows⟩ := Option.bind_eq_some_iff.mp shown
      obtain ⟨object, there, body⟩ := Option.map_eq_some_iff.mp (storage?_eq_some.mp found)
      cases anew object (Nat.not_lt.mp old) there with
      | value => cases body; cases shows
      | list => cases body

theorem dependsOn (inside : world.InCopies ref) (reached : after.DependsOn ref other) : world.InCopies other := by
  induction reached with
  | refl => exact inside
  | tail _ next ih => exact (adds.consults ih next).1

/-- From copies one only gets to what is older. -/
theorem lt_of_transGen (inside : world.InCopies ref) (reached : Relation.TransGen after.Consults ref other) :
    other < ref := by
  induction reached with
  | single next => exact (adds.consults inside next).2
  | tail before next ih => exact ((adds.consults (adds.dependsOn inside before.to_reflTransGen) next).2).trans ih

/-- The lists and variables that a copy leads to are new. -/
theorem fresh (inside : world.InCopies ref) (copied : after.kindOf ref = .var ∨ after.kindOf ref = .list) :
    world.heap.size ≤ ref := by
  refine Nat.not_lt.mp fun old => ?_
  obtain ⟨notVar, notList⟩ := inside.resolve_left (Nat.not_le.mpr old)
  rw [adds.kinds ref old] at copied
  exact copied.elim notVar notList

theorem stored (inside : world.InCopies ref) (found : after.storage? ref = some storage) :
    ∃ scalar, storage = .stored scalar := by
  obtain ⟨object, there, body⟩ := Option.map_eq_some_iff.mp (storage?_eq_some.mp found)
  cases adds.new ref object (adds.fresh inside (.inl (kindOf_of_storage? found))) there with
  | value scalar => exact ⟨scalar, (Body.var.inj body).symm⟩
  | list => cases body

theorem free (inside : world.InCopies ref) : after.isBusy ref = false := by
  cases listed : after.list? ref with
  | none => rw [isBusy, listed]; rfl
  | some data =>
    obtain ⟨object, there, body⟩ := Option.map_eq_some_iff.mp (list?_eq_some.mp listed)
    have fresh := adds.fresh inside (.inr (by rw [kindOf, there, Option.elim_some, Object.kind, body]))
    cases adds.new ref object fresh there with
    | value => cases body
    | list slots =>
      obtain rfl := Body.list.inj body
      rw [isBusy, listed]
      rfl

/-- A copy can be copied and read in turn. -/
theorem copyable (inside : world.InCopies ref) : after.Copyable config ref where
  acyclic list reached _ circle := (adds.lt_of_transGen (adds.dependsOn inside reached) circle).false
  pure other storage reached found := by
    obtain ⟨scalar, rfl⟩ := adds.stored (adds.dependsOn inside reached) found
    trivial
  idle list reached := adds.free (adds.dependsOn inside reached)

end Adds

end World

namespace Copy

mutual
/-- Whether an object that was made is as it was planned. -/
def Makes (world after : World) : Copy → Slot → Prop
  | .value scalar, slot => ∃ made, slot = .held made ∧ world.heap.size ≤ made ∧
    after.object? made = some { name := "", body := .var (.stored scalar) }
  | .list items, slot => ∃ made slots, slot = .held made ∧ world.heap.size ≤ made ∧
    after.object? made = some { name := "", body := .list { slots } } ∧ MakesAll world after items slots
  | .keep kept, slot => slot = kept

def MakesAll (world after : World) : List Copy → List Slot → Prop
  | [], slots => slots = []
  | copy :: copies, slots =>
    ∃ slot rest, slots = slot :: rest ∧ copy.Makes world after slot ∧ MakesAll world after copies rest
end

variable {world after last : World} {region : Ref → Prop} {config : Config}

mutual
theorem Makes.later
    (kept : ∀ ref object, world.heap.size ≤ ref → after.object? ref = some object → last.object? ref = some object) :
    ∀ {copy : Copy} {slot : Slot}, copy.Makes world after slot → copy.Makes world last slot
  | .value _, _, ⟨made, same, beyond, there⟩ => ⟨made, same, beyond, kept made _ beyond there⟩
  | .list _, _, ⟨made, slots, same, beyond, there, all⟩ =>
    ⟨made, slots, same, beyond, kept made _ beyond there, MakesAll.later kept all⟩
  | .keep _, _, same => same

theorem MakesAll.later
    (kept : ∀ ref object, world.heap.size ≤ ref → after.object? ref = some object → last.object? ref = some object) :
    ∀ {copies : List Copy} {slots : List Slot}, MakesAll world after copies slots → MakesAll world last copies slots
  | [], _, empty => empty
  | _ :: _, _, ⟨slot, rest, same, first, others⟩ => ⟨slot, rest, same, first.later kept, MakesAll.later kept others⟩
end

end Copy

namespace World

variable {world after last : World} {ref : Ref} {object : Object}

/-- A world with more objects. -/
structure Extends (world after : World) : Prop where
  rest : after = { world with heap := after.heap }
  size : world.heap.size ≤ after.heap.size
  old : ∀ ref < world.heap.size, after.object? ref = world.object? ref

namespace Extends

theorem refl : world.Extends world := ⟨rfl, le_rfl, fun _ _ => rfl⟩

theorem trans (first : world.Extends after) (second : after.Extends last) : world.Extends last :=
  ⟨second.rest.trans (by rw [first.rest]), first.size.trans second.size,
    fun ref old => (second.old ref (old.trans_le first.size)).trans (first.old ref old)⟩

theorem add : world.Extends (world.add object) where
  rest := rfl
  size := by rw [World.add, Heap.size_add]; exact Nat.le_succ _
  old ref old := by rw [object?_add, if_neg old.ne]

theorem kept (extended : world.Extends after) (found : world.object? ref = some object) :
    after.object? ref = some object := by
  rw [extended.old ref (lt_size_of_isLive (by rw [isLive, found]; rfl)), found]

end Extends

end World

namespace Act

open World

variable {world : World}

mutual
private theorem makes_make {middle : World} (adds : world.Adds middle) : ∀ copy : Copy,
    copy.SharesIn (fun ref => ref < world.heap.size ∧ world.Shared ref) →
      Meets anything (make copy) middle fun slot after => middle.Extends after ∧ world.Adds after ∧
        copy.Makes world after slot ∧ slot.target < after.heap.size ∧ world.InCopies slot.target
  | .value scalar, _ => by
    have added : Meets anything (addValue "" scalar) middle fun made after =>
        made = middle.heap.size ∧ after = middle.add { name := "", body := .var (.stored scalar) } := ⟨trivial, rfl, rfl⟩
    apply added.bind
    rintro _ _ - ⟨rfl, rfl⟩
    refine .pure ⟨.add, adds.add (.value scalar), ⟨_, rfl, adds.size, ?_⟩, ?_, .inl adds.size⟩
    · rw [object?_add, if_pos rfl]
    · exact lt_size_of_isLive isLive_size_add
  | .list items, within => by
    apply (makes_makeAll adds items within).bind
    rintro slots after - ⟨extended, still, made, older⟩
    have added : Meets anything (Act.add { name := "", body := .list { slots } }) after fun made last =>
        made = after.heap.size ∧ last = after.add { name := "", body := .list { slots } } := ⟨trivial, rfl, rfl⟩
    apply added.bind
    rintro _ _ - ⟨rfl, rfl⟩
    refine .pure ⟨extended.trans .add, still.add (.list slots older), ⟨_, slots, rfl, still.size, ?_, ?_⟩, ?_, .inl still.size⟩
    · rw [object?_add, if_pos rfl]
    · exact made.later fun _ _ _ found => Extends.add.kept found
    · exact lt_size_of_isLive isLive_size_add
  | .keep slot, within => .pure ⟨.refl, adds, rfl, within.1.trans_le adds.size, .inr within.2⟩

theorem makes_makeAll {middle : World} (adds : world.Adds middle) : ∀ copies : List Copy,
    Copy.AllShareIn (fun ref => ref < world.heap.size ∧ world.Shared ref) copies →
      Meets anything (makeAll copies) middle fun slots after => middle.Extends after ∧ world.Adds after ∧
        Copy.MakesAll world after copies slots ∧
          ∀ slot ∈ slots, slot.target < after.heap.size ∧ world.InCopies slot.target
  | [], _ => .pure ⟨.refl, adds, rfl, List.forall_mem_nil _⟩
  | copy :: rest, ⟨first, others⟩ => by
    apply (makes_make adds copy first).bind
    rintro slot after - ⟨extended, still, made, old, inside⟩
    refine (makes_makeAll still rest others).bind fun slots last _ ⟨more, stays, all, older⟩ => ?_
    refine .pure ⟨extended.trans more, stays, ⟨slot, slots, rfl, ?_, all⟩, ?_⟩
    · exact made.later fun _ _ _ found => more.kept found
    · exact List.forall_mem_cons.mpr ⟨⟨old.trans_le more.size, inside⟩, older⟩
end

end Act

namespace World

/-- What has become of a slot that was copied. -/
inductive Copied (config : Config) (world after : World) : Slot → Slot → Prop where
  /-- A new variable has the value that the variable showed. -/
  | value {source : Slot} {made : Ref} {scalar : Scalar} (isVar : world.kindOf source.target = .var)
      (shown : world.HasValue config source.target scalar) (fresh : world.heap.size ≤ made)
      (there : after.object? made = some { name := "", body := .var (.stored scalar) }) :
      Copied config world after source (.held made)
  /-- A new list has copies of the elements. -/
  | list {source : Slot} {made : Ref} {slots : List Slot} (isList : world.kindOf source.target = .list)
      (fresh : world.heap.size ≤ made) (there : after.object? made = some { name := "", body := .list { slots } })
      (all : List.Forall₂ (Copied config world after) (world.slots source.target) slots) :
      Copied config world after source (.held made)
  /-- Other objects are shared. -/
  | shared {source : Slot} (shared : world.Shared source.target) (live : world.isLive source.target = true) :
      Copied config world after source (world.sharing source.target)
  /-- What has gone stays gone. -/
  | gone {source : Slot} (gone : world.isLive source.target = false) : Copied config world after source source

variable {world after : World} {config : Config} {slot : Slot}

theorem target_sharing {ref : Ref} : (world.sharing ref).target = ref := by
  unfold sharing
  split <;> rfl

end World

namespace Copy

open World

variable {world after : World} {config : Config}

theorem Describes.target_eq {kept slot : Slot} (describes : (Copy.keep kept).Describes config world slot) :
    kept.target = slot.target := by
  obtain ⟨-, rfl⟩ := describes
  split
  · exact target_sharing
  · rfl

mutual
/-- What a plan shares can be shared. -/
theorem Describes.within (sound : world.Sound) : ∀ {copy : Copy} {slot : Slot}, copy.Describes config world slot →
    slot.target < world.heap.size → copy.SharesIn fun ref => ref < world.heap.size ∧ world.Shared ref
  | .value _, _, _, _ => trivial
  | .list _, _, describes, _ => DescribesAll.within sound describes.2 fun _ member => (sound.knows member).target
  | .keep _, _, describes, known => by
    rw [SharesIn, describes.target_eq]
    exact ⟨known, describes.1⟩

theorem DescribesAll.within (sound : world.Sound) : ∀ {copies : List Copy} {slots : List Slot},
    DescribesAll config world copies slots → (∀ slot ∈ slots, slot.target < world.heap.size) →
      AllShareIn (fun ref => ref < world.heap.size ∧ world.Shared ref) copies
  | [], _, _, _ => trivial
  | _ :: _, _, ⟨_, _, rfl, first, others⟩, known =>
    ⟨first.within sound (known _ List.mem_cons_self),
      DescribesAll.within sound others fun slot member => known slot (List.mem_cons_of_mem _ member)⟩
end

mutual
/-- What was planned and made is a copy. -/
theorem Makes.copied : ∀ {copy : Copy} {slot made : Slot}, copy.Describes config world slot →
    copy.Makes world after made → Copied config world after slot made
  | .value _, _, _, ⟨isVar, shown⟩, ⟨_, rfl, fresh, there⟩ => .value isVar shown fresh there
  | .list _, _, _, ⟨isList, all⟩, ⟨_, _, rfl, fresh, there, made⟩ => .list isList fresh there (MakesAll.copied all made)
  | .keep _, slot, _, describes, rfl => by
    obtain ⟨shared, rfl⟩ := describes
    split
    next live => exact .shared shared live
    next gone => exact .gone (Bool.not_eq_true _ ▸ gone)

theorem MakesAll.copied : ∀ {copies : List Copy} {slots made : List Slot}, DescribesAll config world copies slots →
    MakesAll world after copies made → List.Forall₂ (Copied config world after) slots made
  | [], _, _, rfl, rfl => .nil
  | _ :: _, _, _, ⟨_, _, rfl, first, others⟩, ⟨_, _, rfl, made, all⟩ => .cons (made.copied first) (MakesAll.copied others all)
end

mutual
/-- The plan says of a copy what it said of the source. -/
theorem Makes.describes (sound : world.Sound) (adds : world.Adds after) : ∀ {copy : Copy} {slot made : Slot},
    copy.Describes config world slot → slot.target < world.heap.size → copy.Makes world after made →
      copy.Describes config after made
  | .value scalar, _, _, _, _, ⟨made, rfl, fresh, there⟩ => by
    have found : after.storage? made = some (.stored scalar) := storage?_eq_some.mpr (by rw [body?, there]; rfl)
    exact ⟨kindOf_of_storage? found, (hasValue_stored found).mpr rfl⟩
  | .list _, _, _, describes, _, ⟨made, slots, rfl, _, there, all⟩ => by
    have isList : after.kindOf made = .list := by rw [kindOf, there]; rfl
    have described := MakesAll.describes sound adds describes.2 (fun _ member => (sound.knows member).target) all
    exact ⟨isList, (slots_of_object? there).symm ▸ described⟩
  | .keep kept, slot, _, describes, known, rfl => by
    have same := describes.target_eq
    obtain ⟨shared, kept⟩ := describes
    refine ⟨?_, ?_⟩
    · rw [same, Shared, adds.kinds _ known]
      exact shared
    · rw [same, adds.isLive known]
      split
      next live => rw [kept, if_pos live, adds.sharing_eq sound.forest live]
      next => rfl

theorem MakesAll.describes (sound : world.Sound) (adds : world.Adds after) :
    ∀ {copies : List Copy} {slots made : List Slot},
    DescribesAll config world copies slots → (∀ slot ∈ slots, slot.target < world.heap.size) →
      MakesAll world after copies made → DescribesAll config after copies made
  | [], _, _, _, _, rfl => rfl
  | _ :: _, _, _, ⟨_, _, rfl, first, others⟩, known, ⟨slot, rest, rfl, made, all⟩ =>
    ⟨slot, rest, rfl, made.describes sound adds first (known _ List.mem_cons_self),
      all.describes sound adds others fun slot member => known slot (List.mem_cons_of_mem _ member)⟩
end

end Copy

end Dialogue
