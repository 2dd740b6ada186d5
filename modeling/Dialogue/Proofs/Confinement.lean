import Dialogue.Proofs.BuiltinMembers
import Dialogue.Proofs.CopyTermination
import Dialogue.Proofs.LifetimeSafety

/-! Acts that are confined to a region of the heap. A region is closed if it has the elements of its lists, and
every new object. Acts that start from lists in it write no text outside of it, mark nothing constant or busy for
longer than they run, and say nothing. Lists that are steady also keep their lengths, as long as no variable in the
region can change them. -/

namespace Dialogue

/-- What confined acts leave as it is in all objects. -/
structure Marks where
  constant : Bool
  busy : Bool
  /-- What a block has said. -/
  out : String

def ScopeData.out (data : ScopeData) : String :=
  match data.role with
  | .block block => block.out
  | _ => ""

namespace Object

def out (object : Object) : String :=
  match object.body with
  | .scope data => data.out
  | _ => ""

def marks (object : Object) : Marks where
  constant := object.constant
  busy := object.list?.any (·.busy)
  out := object.out

variable {object : Object}

private theorem constant_setBusy {busy : Bool} : (object.setBusy busy).constant = object.constant := by
  obtain ⟨name, body, constant, parent⟩ := object
  cases body <;> rfl

private theorem marks_setBusy_false : (object.setBusy false).marks = { object.marks with busy := false } := by
  obtain ⟨name, body, constant, parent⟩ := object
  cases body <;> rfl

private theorem marks_setBusy {busy : Bool} :
    { (object.setBusy busy).marks with busy := false } = { object.marks with busy := false } := by
  obtain ⟨name, body, constant, parent⟩ := object
  cases body <;> rfl

end Object

namespace World

variable {world after last : World} {region steady : Ref → Prop} {guarded : Prop} {ref other list : Ref}

def marks? (world : World) (ref : Ref) : Option Marks := (world.object? ref).map Object.marks

/-- What a block has said, and nothing for other objects. -/
def out (world : World) (ref : Ref) : String := (world.object? ref).elim "" Object.out

theorem isLive_eq_marks? : world.isLive ref = (world.marks? ref).isSome := by
  rw [isLive, marks?, Option.isSome_map]

theorem isConstant_eq : world.isConstant ref = (world.marks? ref).any (·.constant) := by
  rw [isConstant, marks?]
  cases world.object? ref <;> rfl

theorem isBusy_eq : world.isBusy ref = (world.marks? ref).any (·.busy) := by
  rw [isBusy, list?_eq_bind, marks?]
  cases world.object? ref <;> rfl

private theorem out_eq : world.out ref = (world.marks? ref).elim "" (·.out) := by
  rw [out, marks?]
  cases world.object? ref <;> rfl

/-- Whether no variable in a region that can be written is bound to the length of a list in the region that can
change. -/
def Unbound (world : World) (region : Ref → Prop) : Prop :=
  ∀ ref list name, region ref → region list → world.storage? ref = some (.bound (.length list name)) →
    list < world.heap.size ∧ (world.isLive list = true → world.isConstant ref = true ∨ world.isConstant list = true)

/-- What becomes of a world by acts that are confined to a region. -/
structure Confined (region steady : Ref → Prop) (guarded : Prop) (world after : World) : Prop where
  size : world.heap.size ≤ after.heap.size
  marks : ∀ ref < world.heap.size, ∀ marks ∈ after.marks? ref, world.marks? ref = some marks
  lengths : ∀ {ref list name}, after.storage? ref = some (.bound (.length list name)) →
    world.storage? ref = some (.bound (.length list name))
  texts : ∀ {ref text}, ¬ region ref → world.storage? ref = some (.stored (.text text)) → after.isLive ref = true →
    after.storage? ref = some (.stored (.text text))
  closed : world.Closed region → after.Closed region
  counts : guarded → ∀ list < world.heap.size, steady list → after.isLive list = true →
    after.length list = world.length list

namespace Confined

variable (confined : Confined region steady guarded world after)

include confined

theorem marks?_eq (old : ref < world.heap.size) (live : after.isLive ref = true) :
    after.marks? ref = world.marks? ref := by
  rw [isLive_eq_marks?, Option.isSome_iff_exists] at live
  obtain ⟨marks, found⟩ := live
  rw [found, confined.marks ref old marks found]

theorem isLive (old : ref < world.heap.size) (live : after.isLive ref = true) : world.isLive ref = true := by
  rwa [isLive_eq_marks?, ← confined.marks?_eq old live, ← isLive_eq_marks?]

theorem isConstant (old : ref < world.heap.size) (live : after.isLive ref = true) :
    after.isConstant ref = world.isConstant ref := by
  rw [isConstant_eq, isConstant_eq, confined.marks?_eq old live]

theorem isBusy (old : ref < world.heap.size) (live : after.isLive ref = true) :
    after.isBusy ref = world.isBusy ref := by
  rw [isBusy_eq, isBusy_eq, confined.marks?_eq old live]

theorem out (old : ref < world.heap.size) (live : after.isLive ref = true) : after.out ref = world.out ref := by
  rw [out_eq, out_eq, confined.marks?_eq old live]

theorem unbound (unbound : world.Unbound region) : after.Unbound region := by
  intro ref list name within near bound
  obtain ⟨old, fixed⟩ := unbound ref list name within near (confined.lengths bound)
  refine ⟨old.trans_le confined.size, fun live => ?_⟩
  have there := isLive_of_content? (content?_eq_some_var.mpr bound)
  have before := lt_size_of_isLive (isLive_of_content? (content?_eq_some_var.mpr (confined.lengths bound)))
  rw [confined.isConstant old live, confined.isConstant before there]
  exact fixed (confined.isLive old live)

theorem trans (second : Confined region steady guarded after last) : Confined region steady guarded world last where
  size := confined.size.trans second.size
  marks ref old marks found := confined.marks ref old marks (second.marks ref (old.trans_le confined.size) marks found)
  lengths bound := confined.lengths (second.lengths bound)
  texts outside stored live := by
    have old := lt_size_of_isLive (isLive_of_content? (content?_eq_some_var.mpr stored))
    have between := second.isLive (old.trans_le confined.size) live
    exact second.texts outside (confined.texts outside stored between) live
  closed closed := second.closed (confined.closed closed)
  counts guards list old steady live := by
    have grown := old.trans_le confined.size
    have first := confined.counts guards list old steady (second.isLive grown live)
    exact (second.counts guards list grown steady live).trans first

/-- Fewer steady lists. -/
theorem mono {fewer : Ref → Prop} (less : ∀ list, fewer list → steady list) :
    Confined region fewer guarded world after :=
  { confined with counts := fun guards list old inside => confined.counts guards list old (less list inside) }

end Confined

/-- Contents stay as they are, but for those of objects that go. -/
theorem confined_of_contents (size : after.heap.size = world.heap.size)
    (marks : ∀ ref, ∀ marks ∈ after.marks? ref, world.marks? ref = some marks)
    (contents : ∀ ref, after.content? ref = world.content? ref ∨ after.isLive ref = false) :
    Confined region steady guarded world after where
  size := size.ge
  marks ref _ := marks ref
  lengths {ref list name} bound := by
    have found := content?_eq_some_var.mpr bound
    rcases contents ref with same | gone
    · exact content?_eq_some_var.mp (same ▸ found)
    · rw [isLive_of_content? found] at gone
      cases gone
  texts {ref text} _ stored live := by
    rcases contents ref with same | gone
    · exact content?_eq_some_var.mp (same.trans (content?_eq_some_var.mpr stored))
    · rw [live] at gone
      cases gone
  closed closed := by
    refine ⟨fun ref fresh => closed.new ref (size ▸ fresh), fun {list slot} within inside => ?_⟩
    rcases contents list with same | gone
    · exact closed.slots within (slots_of_content? same ▸ inside)
    · rw [slots_eq_nil_of_not_isLive gone] at inside
      cases inside
  counts _ list old _ live := by
    rcases contents list with same | gone
    · exact congrArg List.length (slots_of_content? same)
    · rw [live] at gone
      cases gone

theorem Confined.refl : Confined region steady guarded world world :=
  confined_of_contents rfl (fun _ _ found => found) fun _ => .inl rfl

theorem confined_of_heap (same : after.heap = world.heap) : Confined region steady guarded world after := by
  have objects (ref : Ref) : after.object? ref = world.object? ref := by rw [object?, object?, same]
  refine confined_of_contents (by rw [same]) (fun ref marks found => ?_) fun ref => .inl ?_
  · rwa [marks?, objects, ← marks?] at found
  · rw [content?, content?, objects]

theorem confined_use {refs : List Ref} :
    Confined region steady guarded world { world with inUse := refs ++ world.inUse } :=
  confined_of_heap rfl

theorem marks?_change {rule : Object → Object} (same : ∀ object, (rule object).marks = object.marks) :
    (world.change ref rule).marks? other = world.marks? other := by
  rw [marks?, marks?, object?_change]
  split
  · cases world.object? other <;> simp [same]
  · rfl

/-- Names, owners, members and imports are no concern of confined acts, and neither are the marks that a body
has been said. -/
theorem confined_change {rule : Object → Object} (marks : ∀ object, (rule object).marks = object.marks)
    (contents : ∀ object, (rule object).content = object.content) :
    Confined region steady guarded world (world.change ref rule) :=
  confined_of_contents heap_size_change (fun _ _ found => marks?_change marks ▸ found)
    fun _ => .inl (content?_change contents)

theorem confined_changeScope {rule : ScopeData → ScopeData} (same : ∀ data, (rule data).out = data.out) :
    Confined region steady guarded world (world.changeScope ref rule) := by
  refine confined_change (fun object => ?_) fun object => ?_
  · split
    next body => simp [Object.marks, Object.list?, Object.content, Object.out, body, Body.list?, same]
    next => rfl
  · split
    next body => simp [Object.content, body]
    next => rfl

theorem confined_changeMembers {rule : Table Ref → Table Ref} :
    Confined region steady guarded world (world.changeMembers ref rule) :=
  confined_changeScope fun _ => rfl

theorem confined_changeBlock {rule : BlockData → BlockData} (same : ∀ data, (rule data).out = data.out) :
    Confined region steady guarded world (world.changeBlock ref rule) := by
  apply confined_changeScope
  intro data
  cases role : data.role <;> simp [ScopeData.out, role, same]

theorem confined_setParent {owner : Option Ref} : Confined region steady guarded world (world.setParent ref owner) :=
  confined_change (fun _ => rfl) fun _ => rfl

theorem confined_insertMember {object : Ref} : Confined region steady guarded world (world.insertMember ref object) :=
  confined_setParent.trans confined_changeMembers

theorem confined_detach {object : Ref} : Confined region steady guarded world (world.detach object) := by
  unfold detach
  split
  next => exact .refl
  next =>
    split
    next => exact confined_changeMembers.trans confined_setParent
    next => exact .refl

private theorem confined_bury : Confined region steady guarded world (world.bury ref) := by
  refine confined_of_contents heap_size_bury (fun other marks found => ?_) fun other => ?_
  · rw [marks?, object?_bury] at found
    split at found
    next => cases found
    next =>
      split at found
      · rwa [Option.map_map] at found
      · exact found
  · rw [content?_bury, isLive_bury]
    split
    next here => exact .inr (by simp [here])
    next => exact .inl rfl

/-- Whatever is released, only burials are made. -/
theorem confined_releaseAll (refs : List Ref) : Confined region steady guarded world (world.releaseAll refs) :=
  releaseAll_induction _ (fun _ => True) (fun former _ _ => former.trans confined_bury) (fun _ _ _ => trivial) .refl
    fun _ _ => trivial

theorem confined_settle {kept : List Ref} : Confined region steady guarded world (world.settle kept) :=
  (confined_of_heap rfl : Confined region steady guarded world { world with inUse := kept }).trans
    (confined_releaseAll _)

theorem Undisturbed.marks? (undisturbed : world.Undisturbed after) : after.marks? ref = world.marks? ref := by
  refine undisturbed.view (Option.map Object.marks) fun object => congrArg some ?_
  unfold Object.essence
  split
  next body => simp [Object.marks, Object.list?, Object.content, Object.out, body, Body.list?]
  next => rfl

/-- What is not worked out is stored as it was. -/
theorem Undisturbed.storage?_eq_some (undisturbed : world.Undisturbed after) {storage : Storage}
    (plain : ∀ formula memo, storage ≠ .derived formula memo) :
    after.storage? ref = some storage ↔ world.storage? ref = some storage := by
  have same : (after.storage? ref).map Storage.essence = (world.storage? ref).map Storage.essence := undisturbed.storage?
  constructor
  · intro found
    rw [found] at same
    obtain ⟨former, there, alike⟩ := Option.map_eq_some_iff.mp same.symm
    rw [there, Storage.eq_of_essence plain alike]
  · intro found
    rw [found] at same
    obtain ⟨later, there, alike⟩ := Option.map_eq_some_iff.mp same
    rw [there, Storage.eq_of_essence plain alike]

theorem Undisturbed.confined (undisturbed : world.Undisturbed after) : Confined region steady guarded world after where
  size := undisturbed.size.ge
  marks _ _ _ found := undisturbed.marks? ▸ found
  lengths bound := (undisturbed.storage?_eq_some (by rintro _ _ ⟨⟩)).mp bound
  texts _ stored _ := (undisturbed.storage?_eq_some (by rintro _ _ ⟨⟩)).mpr stored
  closed := undisturbed.closed
  counts _ list _ _ _ := congrArg List.length undisturbed.slots

/-- A new object that shows no length and has only elements in the region. -/
theorem confined_add {object : Object}
    (unbound : ∀ list name, object.storage? ≠ some (.bound (.length list name)))
    (within : ∀ slot ∈ object.slots, region slot.target) :
    Confined region steady guarded world (world.add object) where
  size := by simp [add]
  marks ref old marks found := by
    rwa [World.marks?, object?_add, if_neg (Nat.ne_of_lt old)] at found
  lengths {ref list name} bound := by
    rw [storage?_eq_bind, object?_add] at bound
    split at bound
    next => exact absurd bound (unbound list name)
    next => rwa [storage?_eq_bind]
  texts {ref text} _ stored _ := by
    have old := lt_size_of_isLive (isLive_of_content? (content?_eq_some_var.mpr stored))
    rwa [storage?_eq_bind, object?_add, if_neg (Nat.ne_of_lt old), ← storage?_eq_bind]
  closed closed := by
    refine ⟨fun ref fresh => closed.new ref ?_, fun {list slot} near inside => ?_⟩
    · simp only [add, Heap.size_add] at fresh
      exact Nat.le_of_succ_le fresh
    · rw [slots_add] at inside
      split at inside
      · exact within slot inside
      · exact closed.slots near inside
  counts _ list old _ _ := by
    rw [World.length, World.length, slots_add, if_neg (Nat.ne_of_lt old)]

theorem confined_materialize {scope : Ref} {name : String} :
    Confined region steady guarded world (world.materialize scope name) := by
  rcases materialize_cases world scope name with ⟨-, same⟩ | ⟨builtin, -, -, made⟩
  · rw [same]
    exact .refl
  · rw [made]
    have claimed : Confined region steady guarded world (world.claim scope builtin) := confined_changeScope fun _ => rfl
    have added : Confined region steady guarded (world.claim scope builtin) (world.announced scope builtin) := by
      refine confined_add (fun list name bound => ?_) fun slot inside => ?_
      · cases builtin <;> cases bound
      · rw [Builtin.slots_object] at inside
        cases inside
    exact (claimed.trans added).trans confined_insertMember

theorem marks?_setStorage {storage : Storage} : (world.setStorage ref storage).marks? other = world.marks? other := by
  apply marks?_change
  intro object
  split
  next body => simp [Object.marks, Object.list?, Object.content, Object.out, body, Body.list?]
  next => rfl

/-- A variable in the region, or one that keeps no text, gets another value. -/
theorem confined_setStorage {storage : Storage} (unbound : ∀ list name, storage ≠ .bound (.length list name))
    (near : region ref ∨ ∀ text, world.storage? ref ≠ some (.stored (.text text))) :
    Confined region steady guarded world (world.setStorage ref storage) where
  size := heap_size_change.ge
  marks _ _ _ found := marks?_setStorage ▸ found
  lengths {other list name} bound := by
    rw [storage?_setStorage] at bound
    split at bound
    next =>
      obtain ⟨_, -, same⟩ := Option.map_eq_some_iff.mp bound
      exact absurd same (unbound list name)
    next => exact bound
  texts {other text} outside stored _ := by
    rw [storage?_setStorage, if_neg]
    · exact stored
    · rintro rfl
      exact near.elim outside fun never => never text stored
  closed closed := by
    refine ⟨fun ref fresh => closed.new ref ?_, fun near inside => closed.slots near ?_⟩
    · rwa [setStorage, heap_size_change] at fresh
    · rwa [slots_setStorage] at inside
  counts _ list _ _ _ := congrArg List.length slots_setStorage

private theorem marks?_changeSlots {rule : List Slot → List Slot} :
    (world.changeSlots list rule).marks? other = world.marks? other := by
  apply marks?_change
  intro object
  split
  next body => simp [Object.marks, Object.list?, Object.content, Object.out, body, Body.list?]
  next => rfl

/-- A list gets other elements in the region, and as many as it had if it is steady. -/
theorem confined_changeSlots {rule : List Slot → List Slot}
    (within : world.Closed region → region list → ∀ slot ∈ rule (world.slots list), region slot.target)
    (count : guarded → steady list → (rule (world.slots list)).length = world.length list) :
    Confined region steady guarded world (world.changeSlots list rule) where
  size := heap_size_change.ge
  marks _ _ _ found := marks?_changeSlots ▸ found
  lengths bound := by rwa [changeSlots, storage?_changeList] at bound
  texts _ stored _ := by rwa [changeSlots, storage?_changeList]
  closed closed := by
    refine ⟨fun ref fresh => closed.new ref ?_, fun {other slot} near inside => ?_⟩
    · rwa [changeSlots, changeList, heap_size_change] at fresh
    · rw [slots_changeSlots] at inside
      split at inside
      next here => exact within closed (here.1 ▸ near) slot inside
      next => exact closed.slots near inside
  counts guards other _ inside _ := by
    rw [World.length, slots_changeSlots]
    split
    next here => exact here.1 ▸ count guards (here.1 ▸ inside)
    next => rfl

private theorem length_setBusy {busy : Bool} : (world.setBusy list busy).length other = world.length other :=
  congrArg List.length slots_setBusy

theorem isConstant_setBusy {busy : Bool} : (world.setBusy list busy).isConstant other = world.isConstant other := by
  rw [isConstant, isConstant, object?_setBusy]
  split
  next =>
    cases world.object? other with
    | none => rfl
    | some object => exact Object.constant_setBusy
  next => rfl

theorem Unbound.setBusy {busy : Bool} (unbound : world.Unbound region) : (world.setBusy list busy).Unbound region := by
  intro ref counted name within near bound
  rw [World.setBusy, storage?_changeList] at bound
  obtain ⟨old, fixed⟩ := unbound ref counted name within near bound
  refine ⟨by rwa [World.setBusy, changeList, heap_size_change], fun live => ?_⟩
  rw [World.setBusy, changeList, isLive_change] at live
  rw [isConstant_setBusy, isConstant_setBusy]
  exact fixed live

/-- A list that was not busy is busy for as long as a confined act runs. -/
theorem Confined.whileBusy (free : world.isBusy list = false)
    (confined : Confined region steady guarded (world.setBusy list true) after) :
    Confined region steady guarded world (after.setBusy list false) where
  size := by simpa [setBusy, changeList] using confined.size
  marks ref old marks found := by
    have kept := confined.marks ref (by rwa [setBusy, changeList, heap_size_change])
    simp only [World.marks?, object?_setBusy] at found kept ⊢
    split at found
    next here =>
      subst here
      rw [Option.map_map] at found
      obtain ⟨later, there, rfl⟩ := Option.map_eq_some_iff.mp found
      have busied := kept later.marks (Option.map_eq_some_iff.mpr ⟨later, there, rfl⟩)
      rw [if_pos rfl, Option.map_map] at busied
      obtain ⟨former, before, same⟩ := Option.map_eq_some_iff.mp busied
      have idle : former.marks.busy = false := by rwa [isBusy_eq, World.marks?, before] at free
      rw [before, Function.comp_apply, Object.marks_setBusy_false, ← same, Function.comp_apply, Object.marks_setBusy, ← idle]
      rfl
    next other =>
      rw [if_neg other] at kept
      exact kept marks found
  lengths bound := by
    have before := confined.lengths (by rwa [setBusy, storage?_changeList] at bound)
    rwa [setBusy, storage?_changeList] at before
  texts outside stored live := by
    rw [setBusy, storage?_changeList]
    refine confined.texts outside (by rwa [setBusy, storage?_changeList]) ?_
    rwa [setBusy, changeList, isLive_change] at live
  closed closed := (confined.closed closed.setBusy).setBusy
  counts guards other old inside live := by
    have size : other < (world.setBusy list true).heap.size := by rwa [setBusy, changeList, heap_size_change]
    rw [setBusy, changeList, isLive_change] at live
    have same := confined.counts guards other size inside live
    exact length_setBusy.trans (same.trans length_setBusy)

end World

end Dialogue
