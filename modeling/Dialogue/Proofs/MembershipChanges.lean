import Dialogue.Proofs.Maintenance

/-! What changes of names, owners and members leave in order, and how lists are filled. An object enters a scope
when nothing else has it as a member, and members leave their scopes one by one, all at once or when they are buried.
A list is busy only while an act runs, and is idle again when the act has ended. -/

namespace Dialogue.World

variable {exempt cleared : Ref → Prop} {world after : World} {ref object list scope : Ref} {name : String}

/-! Changes of names, owners and members. -/

theorem lasting_of_edits {edit : Ref → Shape → Shape} (edits : Edits edit world after)
    (size : after.heap.size = world.heap.size) (kinds : ∀ ref shape, (edit ref shape).kind = shape.kind)
    (claims : ∀ ref, ¬ cleared ref → ∀ shape : Shape, shape.claimed ⊆ (edit ref shape).claimed)
    (enrolled : world.Enrolled → after.Enrolled) : Lasting cleared world after where
  size := size.ge
  alive _ live := edits.isLive _ ▸ live
  lists _ isList := edits.kindOf _ kinds ▸ isList
  claims {scope} kept _ := by
    rw [claimed_eq, claimed_eq, edits]
    cases world.shape? scope with
    | none => exact List.Subset.refl _
    | some shape => exact claims scope kept shape
  enrolled := enrolled

/-- A list is as busy as before where the contents of objects are the same. -/
theorem isBusy_of_content? (same : after.content? list = world.content? list) :
    after.isBusy list = world.isBusy list := by
  rw [isBusy, isBusy, list?_eq, list?_eq, same]

/-- An object at the top of the tree of owners is no member. -/
theorem Enrolled.ne_of_top (enrolled : world.Enrolled) {member : Ref}
    (found : (world.members scope).find? name = some member) (top : world.isRegistered object = false) :
    object ≠ member := by
  rintro rfl
  rw [enrolled.isRegistered found] at top
  cases top

theorem isRegistered_of_unowned (unowned : world.owner? ref = none) : world.isRegistered ref = false := by
  by_contra registered
  obtain ⟨owner, owned, -⟩ := isRegistered_iff.mp (Bool.not_eq_false _ ▸ registered)
  rw [unowned] at owned
  cases owned

theorem entered_setName (top : world.isRegistered ref = false) :
    Entered object cleared world (world.setName ref name) := by
  have edits : Edits _ world (world.setName ref name) := edits_setName
  have owners other := edits.owner? other fun _ => rfl
  refine ⟨lasting_of_edits edits heap_size_change (fun _ _ => rfl) (fun _ _ _ => List.Subset.refl _) ?_,
    fun busy => isBusy_of_content? content?_setName ▸ busy, fun inside => ?_, fun owned => ?_⟩
  · intro enrolled scope key member found
    rw [edits.members scope fun _ => rfl] at found
    have apart := enrolled.ne_of_top found top
    rw [owners, nameOf, setName, object?_change, if_neg apart]
    exact enrolled found
  · exact slots_of_content? content?_setName ▸ inside
  · exact .inl (owners _ ▸ owned)

/-- A member leaves its scope. -/
theorem entered_leave {taken : Ref} (found : (world.members scope).find? name = some taken) :
    Entered object cleared world ((world.changeMembers scope (·.erase name)).setParent taken none) := by
  have edits : Edits _ world ((world.changeMembers scope (·.erase name)).setParent taken none) :=
    edits_leave (isScope_of_members found)
  have owners other := edits.owner?_eq other (if taken = other then none else ·) (fun _ => rfl) (by split <;> rfl)
  have size : ((world.changeMembers scope (·.erase name)).setParent taken none).heap.size = world.heap.size :=
    heap_size_change.trans heap_size_change
  refine ⟨lasting_of_edits edits size (fun _ _ => rfl) (fun _ _ _ => List.Subset.refl _) ?_,
    fun busy => isBusy_of_content? (content?_setParent.trans content?_changeScope) ▸ busy, fun inside => ?_,
    fun {other owner} owned => ?_⟩
  · intro enrolled other key member present
    rw [find?_leave (isScope_of_members found)] at present
    rw [edits.nameOf member fun _ _ => rfl, owners]
    obtain ⟨named, owned⟩ := enrolled found
    split at present
    next => cases present
    next stays =>
      have known := enrolled present
      have apart : taken ≠ member := by
        rintro rfl
        exact stays ⟨Option.some.inj (owned.symm.trans known.2), known.1.symm.trans named⟩
      rwa [if_neg apart]
  · exact slots_of_content? (content?_setParent.trans content?_changeScope) ▸ inside
  · rw [owners] at owned
    split at owned
    next => cases owned
    next => exact .inl owned

theorem entered_clearMembers (isScope : (world.kindOf scope).isScope = true) (allowed : cleared scope) :
    Entered object cleared world (world.clearMembers scope) := by
  have edits : Edits _ world (world.clearMembers scope) := edits_clearMembers isScope
  have owners other := edits.owner?_eq other (if other ∈ (world.members scope).values then none else ·) (fun _ => rfl)
    (by split <;> rfl)
  have size : (world.clearMembers scope).heap.size = world.heap.size := heap_size_orphan.trans heap_size_change
  refine ⟨lasting_of_edits edits size (fun _ _ => rfl) (fun ref kept shape => ?_) ?_,
    fun busy => isBusy_of_content? content?_clearMembers ▸ busy, fun inside => ?_, fun {other owner} owned => ?_⟩
  · have apart : scope ≠ ref := fun same => kept (same ▸ allowed)
    exact fun _ claimed => by
      dsimp only
      rwa [if_neg apart]
  · intro enrolled other key member present
    rw [edits.members_eq other (if scope = other then {} else ·) (fun _ => rfl) (by split <;> rfl)] at present
    rw [edits.nameOf member fun _ _ => rfl, owners]
    split at present
    next => cases present
    next elsewhere =>
      have known := enrolled present
      rw [if_neg fun orphan => ?_]
      · exact known
      · obtain ⟨key, found⟩ := Table.mem_values.mp orphan
        exact elsewhere (Option.some.inj ((enrolled found).2.symm.trans known.2))
  · exact slots_of_content? content?_clearMembers ▸ inside
  · rw [owners] at owned
    split at owned
    next => cases owned
    next => exact .inl owned

/-- An object that is no member enters a scope. -/
theorem entered_insertMember (isScope : (world.kindOf scope).isScope = true) (live : world.isLive object = true)
    (apart : world.Enrolled → ∀ {holder key}, (world.members holder).find? key ≠ some object) :
    Entered object cleared world (world.insertMember scope object) := by
  have edits : Edits _ world (world.insertMember scope object) := edits_insertMember isScope
  have owners := owner?_insertMember isScope live
  refine ⟨lasting_of_edits edits heap_size_insertMember (fun _ _ => rfl) (fun _ _ _ => List.Subset.refl _) ?_,
    fun busy => isBusy_of_content? content?_insertMember ▸ busy, fun inside => ?_, fun {other owner} owned => ?_⟩
  · intro enrolled other key member present
    rw [find?_insertMember isScope] at present
    rw [edits.nameOf member fun _ _ => rfl, owners]
    split at present
    next same =>
      obtain rfl := Option.some.inj present
      rw [if_pos rfl, same.1]
      exact ⟨same.2.symm, rfl⟩
    next =>
      have different : object ≠ member := by
        rintro rfl
        exact apart enrolled present
      rw [if_neg different]
      exact enrolled present
  · exact slots_of_content? content?_insertMember ▸ inside
  · rw [owners] at owned
    rw [heap_size_insertMember]
    split at owned
    next here =>
      obtain rfl := Option.some.inj owned
      exact .inr ⟨.inl here.symm, lt_size_of_isLive (isLive_of_isScope isScope)⟩
    next => exact .inl owned

private theorem owner?_of_parent? {owner : Ref} (found : world.parent? ref = some owner) :
    world.owner? ref = some owner := by
  obtain ⟨object, there, rest⟩ := Option.bind_eq_some_iff.mp found
  obtain ⟨parent, owned, live⟩ := Option.bind_eq_some_iff.mp rest
  rw [Option.ite_none_right_eq_some] at live
  rw [owner?, there, Option.bind_some, owned, live.2]

/-- An object moves into a scope. -/
theorem entered_move (isScope : (world.kindOf scope).isScope = true) (live : world.isLive object = true) :
    Entered object cleared world ((world.detach object).insertMember scope object) := by
  unfold detach
  split
  next top =>
    have free : world.isRegistered object = false := by rw [isRegistered, top]; rfl
    exact entered_insertMember isScope live fun enrolled holder key found => enrolled.ne_of_top found free rfl
  next owner parent =>
    split
    next found =>
      have edits : Edits _ world ((world.changeMembers owner (·.erase (world.nameOf object))).setParent object none) :=
        edits_leave (isScope_of_members found)
      have unowned := edits.owner?_eq object (if object = object then none else ·) (fun _ => rfl) (by simp)
      rw [if_pos rfl] at unowned
      refine (entered_leave found).trans (entered_insertMember ?_ ?_ fun enrolled holder key present => ?_)
      · rwa [edits.kindOf scope fun _ _ => rfl]
      · rwa [edits.isLive]
      · exact enrolled.ne_of_top present (isRegistered_of_unowned unowned) rfl
    next absent =>
      refine entered_insertMember isScope live fun enrolled holder key found => absent ?_
      -- Whatever is a member is one of its owner, under its name.
      obtain ⟨named, owned⟩ := enrolled found
      rw [named, Option.some.inj ((owner?_of_parent? parent).symm.trans owned), found]

/-- A new object that has no members. -/
theorem lasting_add {made : Object} (bare : made.shape.members = {}) :
    Lasting cleared world (world.add made) where
  size := by simp [add]
  alive {ref} old live := by
    rw [isLive_add, beq_eq_false_iff_ne.mpr (Nat.ne_of_lt old), Bool.false_or] at live
    exact live
  lists {ref} old isList := by
    rwa [kindOf_eq, shape?_add_of_lt old, ← kindOf_eq] at isList
  claims {scope} _ _ := by
    rw [claimed_eq, claimed_eq, shape?_add]
    split
    next here =>
      rw [here, shape?_of_size_le (Nat.le_refl _)]
      exact List.nil_subset _
    next => exact List.Subset.refl _
  enrolled enrolled {scope name member} found := by
    rw [members_add bare] at found
    have known := enrolled found
    have old := lt_size_of_isLive (isLive_of_owner? known.2)
    rw [nameOf_eq, owner?_eq, shape?_add_of_lt old, ← nameOf_eq, ← owner?_eq]
    exact known

theorem entered_add {made : Object} (unowned : made.parent = none) (bare : made.shape.members = {})
    (empty : made.slots = []) (idle : made.isBusy = false) : Entered object cleared world (world.add made) where
  toLasting := lasting_add bare
  idle busy := isBusy_add idle ▸ busy
  slots inside := by
    rw [slots_add] at inside
    split at inside
    next =>
      rw [empty] at inside
      cases inside
    next => exact inside
  owners owned := .inl (owner?_add unowned ▸ owned)

theorem entered_materialize : Entered object cleared world (world.materialize scope name) := by
  rcases materialize_cases world scope name with ⟨-, same⟩ | ⟨builtin, named, -, made⟩
  · rw [same]
    exact .refl
  · rw [made]
    have claims : Entered world.heap.size cleared world (world.claim scope builtin) := entered_claim
    have announces : Entered world.heap.size cleared (world.claim scope builtin) (world.announced scope builtin) := by
      refine entered_add rfl ?_ (builtin.slots_object scope) (by cases builtin <;> rfl)
      simp [Object.shape, Builtin.scope?_object]
    have enters : Entered world.heap.size cleared (world.announced scope builtin) (world.made scope builtin) := by
      refine entered_insertMember (isScope_announced named) ?_ fun enrolled holder key found => ?_
      · rw [isLive_announced named, beq_self_eq_true, Bool.true_or]
      · refine enrolled.ne_of_top found (isRegistered_of_unowned ?_) rfl
        rw [owner?_announced named, owner?_eq, shape?_of_size_le (Nat.le_refl _)]
        rfl
    exact ((claims.trans announces).trans enters).of_new (Nat.le_refl _)

/-- An object that nothing holds goes, and its members lose their owner. -/
private theorem entered_bury (unheld : world.isHeld ref = false) : Entered object cleared world (world.bury ref) := by
  refine ⟨⟨heap_size_bury.ge, fun _ live => ?_, fun _ isList => ?_, fun {scope} _ live => ?_, ?_⟩, fun {list} busy => ?_,
    fun {list slot} inside => ?_, fun {other owner} owned => ?_⟩
  · rw [isLive_bury, Bool.and_eq_true] at live
    exact live.2
  · rw [kindOf_bury] at isList
    split at isList
    · cases isList
    · exact isList
  · rw [isLive_bury, Bool.and_eq_true, bne_iff_ne] at live
    rw [claimed_bury, if_neg live.1]
    exact List.Subset.refl _
  · intro enrolled scope key member found
    rw [members_bury] at found
    split at found
    next => cases found
    next stays =>
      have known := enrolled found
      have apart : member ≠ ref := by
        rintro rfl
        exact (isHeld_eq_false unheld).2.2 scope (mem_holdsOf_of_member found)
      have kept : member ∉ (world.members ref).values := by
        intro orphan
        obtain ⟨_, there⟩ := Table.mem_values.mp orphan
        exact stays (Option.some.inj (known.2.symm.trans (enrolled there).2))
      rw [owner?_bury, if_neg (not_or.mpr ⟨apart, kept⟩), nameOf_bury, if_neg apart]
      exact known
  · rw [isBusy, list?_eq, content?_bury] at busy
    split at busy
    · cases busy
    · rwa [isBusy, list?_eq]
  · rw [slots_bury] at inside
    split at inside
    · cases inside
    · exact inside
  · rw [owner?_bury] at owned
    split at owned
    · cases owned
    · exact .inl owned

theorem entered_releaseAll (refs : List Ref) : Entered object cleared world (world.releaseAll refs) :=
  releaseAll_induction _ (fun _ => True) (fun former _ unheld => former.trans (entered_bury unheld))
    (fun _ _ _ => trivial) .refl fun _ _ => trivial

theorem entered_settle {kept : List Ref} : Entered object cleared world (world.settle kept) :=
  (entered_of_heap rfl : Entered object cleared world { world with inUse := kept }).trans (entered_releaseAll _)

/-! Changes that fill lists. -/

/-- A new object that has only loose elements. -/
theorem maintained_add {made : Object} (unowned : made.parent = none) (bare : made.shape.members = {})
    (idle : made.isBusy = false) (loose : ∀ slot ∈ made.slots, world.Holdable exempt slot) :
    Maintained exempt cleared world (world.add made) := by
  refine .of_filled (lasting_add bare) (fun busy => isBusy_add idle ▸ busy) (fun owned => owner?_add unowned ▸ owned)
    fun list slot inside => ?_
  rw [slots_add] at inside
  split at inside
  · exact .inr (loose slot inside)
  · exact .inl inside

theorem lasting_of_shapes (same : ∀ ref, after.shape? ref = world.shape? ref)
    (size : after.heap.size = world.heap.size) :
    Lasting cleared world after := by
  have edits : Edits (fun _ => id) world after := fun ref => by rw [same, Option.map_id, id]
  refine lasting_of_edits edits size (fun _ _ => rfl) (fun _ _ _ => List.Subset.refl _) fun enrolled _ _ _ found => ?_
  rw [edits.members _ fun _ => rfl] at found
  rw [edits.nameOf _ fun _ _ => rfl, edits.owner? _ fun _ => rfl]
  exact enrolled found

private theorem shape?_changeList {rule : ListData → ListData} :
    (world.changeList list rule).shape? ref = world.shape? ref := by
  rw [changeList, shape?_change id fun object => ?_]
  · split <;> simp
  · obtain ⟨name, body, constant, parent⟩ := object
    cases body <;> rfl

theorem shape?_changeSlots {rule : List Slot → List Slot} :
    (world.changeSlots list rule).shape? ref = world.shape? ref :=
  shape?_changeList

/-- A list gets loose elements. -/
theorem maintained_changeSlots {rule : List Slot → List Slot}
    (loose : ∀ slot ∈ rule (world.slots list), slot ∈ world.slots list ∨ world.Holdable exempt slot) :
    Maintained exempt cleared world (world.changeSlots list rule) := by
  refine .of_filled (lasting_of_shapes (fun _ => shape?_changeSlots) heap_size_change) (fun busy => ?_) (fun owned => ?_)
    fun other slot inside => ?_
  · rwa [isBusy_changeSlots] at busy
  · rwa [owner?_eq, shape?_changeSlots, ← owner?_eq] at owned
  · rw [slots_changeSlots] at inside
    split at inside
    next here => exact here.1 ▸ loose slot inside
    next => exact .inl inside

theorem loose_add {made : Object} (unowned : made.parent = none) : (world.add made).Loose exempt world.heap.size := by
  refine .of_unowned ?_ (by simp [add])
  rw [owner?_add unowned, owner?_eq, shape?_of_size_le (Nat.le_refl _)]
  rfl

theorem loose_of_not_isLive (old : ref < world.heap.size) (gone : world.isLive ref = false) :
    world.Loose exempt ref := by
  refine .of_unowned ?_ old
  rw [isLive_eq, Option.isSome_eq_false_iff, Option.isNone_iff_eq_none] at gone
  rw [owner?_eq, gone]
  rfl

/-! Lists that are busy for a while. -/

section Busy

variable {busy : Bool} {slot : Slot}

theorem shape?_setBusy : (world.setBusy list busy).shape? ref = world.shape? ref := shape?_changeList

theorem heap_size_setBusy : (world.setBusy list busy).heap.size = world.heap.size := heap_size_change

theorem owner?_setBusy : (world.setBusy list busy).owner? ref = world.owner? ref := by
  rw [owner?_eq, shape?_setBusy, ← owner?_eq]

private theorem isLive_setBusy : (world.setBusy list busy).isLive ref = world.isLive ref :=
  isLive_of_shape?_eq shape?_setBusy

theorem lasting_setBusy : Lasting cleared world (world.setBusy list busy) :=
  lasting_of_shapes (fun _ => shape?_setBusy) heap_size_change

theorem isBusy_of_while {other : Ref} (idle : after.isBusy other = true → (world.setBusy list true).isBusy other = true)
    (busy : (after.setBusy list false).isBusy other = true) : world.isBusy other = true := by
  rw [isBusy_setBusy] at busy
  split at busy
  next =>
    rw [Option.any_eq_true] at busy
    obtain ⟨_, _, never⟩ := busy
    cases never
  next elsewhere =>
    have before := idle busy
    rwa [isBusy_setBusy, if_neg elsewhere] at before

theorem loose_setBusy : (world.setBusy list busy).Loose exempt ref ↔ world.Loose exempt ref := by
  constructor
  · rintro ⟨old, unowned⟩
    simp only [owner?_setBusy, isLive_setBusy, heap_size_setBusy] at old unowned
    exact ⟨old, unowned⟩
  · rintro ⟨old, unowned⟩
    refine ⟨heap_size_setBusy.symm ▸ old, ?_⟩
    simpa only [owner?_setBusy, isLive_setBusy, heap_size_setBusy] using unowned

theorem enrolled_setBusy : (world.setBusy list busy).Enrolled ↔ world.Enrolled := by
  have edits : Edits (fun _ => id) world (world.setBusy list busy) := fun ref => by rw [shape?_setBusy, Option.map_id, id]
  simp only [Enrolled, edits.members _ fun _ => rfl, edits.nameOf _ fun _ _ => rfl, owner?_setBusy]

theorem tidy_setBusy : (world.setBusy list busy).Tidy exempt ↔ world.Tidy exempt := by
  refine ⟨fun tidy => ⟨enrolled_setBusy.mp tidy.enrolled, fun owned => ?_, fun inside element holds => ?_⟩,
    fun tidy => ⟨enrolled_setBusy.mpr tidy.enrolled, fun owned => ?_, fun inside element holds => ?_⟩⟩
  · exact heap_size_setBusy ▸ tidy.owners (owner?_setBusy.trans owned)
  · exact loose_setBusy.mp (tidy.held (slots_setBusy.symm ▸ inside) element holds)
  · exact heap_size_setBusy.symm ▸ tidy.owners (owner?_setBusy ▸ owned)
  · exact loose_setBusy.mpr (tidy.held (slots_setBusy ▸ inside) element holds)

theorem Entered.whileBusy (entered : Entered object cleared (world.setBusy list true) after) :
    Entered object cleared world (after.setBusy list false) where
  toLasting := lasting_setBusy.trans (entered.toLasting.trans lasting_setBusy)
  idle := isBusy_of_while entered.idle
  slots inside := slots_setBusy ▸ entered.slots (slots_setBusy ▸ inside)
  owners owned := by
    rw [owner?_setBusy] at owned
    simpa only [owner?_setBusy, heap_size_setBusy] using entered.owners owned

theorem Maintained.whileBusy (maintained : Maintained exempt cleared (world.setBusy list true) after) :
    Maintained exempt cleared world (after.setBusy list false) where
  toLasting := lasting_setBusy.trans (maintained.toLasting.trans lasting_setBusy)
  idle := isBusy_of_while maintained.idle
  tidy tidy := tidy_setBusy.mpr (maintained.tidy (tidy_setBusy.mpr tidy))
  loose loose := loose_setBusy.mpr (maintained.loose (loose_setBusy.mpr loose))

end Busy

end Dialogue.World
