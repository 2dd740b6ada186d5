import Dialogue.Proofs.BuiltinMembers
import Dialogue.Proofs.LifetimeSafety
import Dialogue.Proofs.ReadingSafety

/-! Registration, renaming and imports are safe in every sound world. Only clearing a scope buries
anything. -/

namespace Dialogue.Act

open World

variable {α : Type} {world after : World} {scope object ref : Ref} {name : String}

theorem follows_materialize (sound : world.Sound) : Follows .gentle world (world.materialize scope name) :=
  ⟨evolves_materialize sound, inUse_materialize ▸ List.suffix_rfl⟩

theorem safe_member? : Safe .gentle (member? scope name) world fun found after =>
    after = world.materialize scope name ∧ found = (after.members scope).find? name := by
  refine .with_sound fun sound => ?_
  apply Safe.update_bind (follows_materialize sound)
  intro after _ _ same
  exact .see ⟨same, rfl⟩

theorem safe_hasMember : Safe .gentle (hasMember scope name) world fun found after =>
    after = world.materialize scope name ∧ found = ((after.members scope).find? name).isSome := by
  refine safe_member?.bind fun found after _ _ ⟨same, eq⟩ => .pure ⟨same, ?_⟩
  rw [eq]

theorem detach_cases (sound : world.Sound) (object : Ref) :
    world.owner? object = none ∧ world.detach object = world ∨
      ∃ owner, world.owner? object = some owner ∧
        (world.members owner).find? (world.nameOf object) = some object ∧
        world.detach object =
          (world.changeMembers owner (·.erase (world.nameOf object))).setParent object none := by
  rw [detach, sound.forest.parent?_eq]
  cases owned : world.owner? object with
  | none => exact .inl ⟨rfl, rfl⟩
  | some owner =>
    have found := sound.forest.owners owned
    exact .inr ⟨owner, rfl, found, if_pos found⟩

theorem kindOf_detach (sound : world.Sound) (ref : Ref) : (world.detach object).kindOf ref = world.kindOf ref := by
  rcases detach_cases sound object with ⟨-, same⟩ | ⟨owner, -, found, moved⟩
  · rw [same]
  · have edits : Edits _ world (world.detach object) := moved ▸ edits_leave (isScope_of_members found)
    exact edits.kindOf ref fun _ _ => rfl

theorem nameOf_detach (sound : world.Sound) (ref : Ref) : (world.detach object).nameOf ref = world.nameOf ref := by
  rcases detach_cases sound object with ⟨-, same⟩ | ⟨owner, -, found, moved⟩
  · rw [same]
  · have edits : Edits _ world (world.detach object) := moved ▸ edits_leave (isScope_of_members found)
    exact edits.nameOf ref fun _ _ => rfl

/-- An object moves into a scope where its name is free. -/
theorem follows_move (sound : world.Sound) (isScope : (world.kindOf scope).isScope = true)
    (live : world.isLive object = true)
    (free : (world.members scope).find? (world.nameOf object) = none)
    (settled : world.Settled scope (world.nameOf object)) (apart : object ∉ world.lineage scope) :
    Follows .gentle world ((world.detach object).insertMember scope object) := by
  rcases detach_cases sound object with ⟨unowned, same⟩ | ⟨owner, owned, found, moved⟩
  · rw [same]
    exact .of_change (.enter isScope live unowned free (settled _) apart) rfl
  · have leaves : Change .gentle world (world.detach object) := moved ▸ .leave found
    have soundBetween := leaves.sound sound
    have edits : Edits _ world (world.detach object) := moved ▸ edits_leave (isScope_of_members found)
    have kinds ref := edits.kindOf ref fun _ _ => rfl
    have names ref := edits.nameOf ref fun _ _ => rfl
    have owners ref := edits.owner?_eq ref (if object = ref then none else ·) (fun _ => rfl) (by split <;> rfl)
    refine ⟨(Relation.ReflTransGen.single leaves).tail (.enter ?_ ?_ ?_ ?_ ?_ ?_), ?_⟩
    · rwa [kinds]
    · rwa [edits.isLive]
    · rw [owners, if_pos rfl]
    · rw [names, moved, find?_leave (isScope_of_members found)]
      split
      · rfl
      · exact free
    · intro builtin named
      rw [names, kinds] at named
      rw [edits.claimed scope fun _ => rfl]
      exact settled builtin named
    · have walk : (world.detach object).Lineage scope (world.lineage scope) := by
        refine (sound.forest.lineage scope).of_owner?_eq fun other member => ?_
        rw [owners, if_neg fun (here : object = other) => apart (here ▸ member)]
      rwa [walk.eq_lineage soundBetween.forest.isLive_of_owner?]
    · rw [moved]
      exact List.suffix_rfl

theorem follows_leave (found : (world.members scope).find? name = some object) :
    Follows .gentle world ((world.changeMembers scope (·.erase name)).setParent object none) :=
  .of_change (.leave found) rfl

private theorem safe_adopt (isScope : (world.kindOf scope).isScope = true) (live : world.isLive object = true) :
    Safe .gentle (adopt scope object) world fun _ _ => True := by
  refine .with_sound fun _ => .look ?_
  apply safe_hasMember.bind
  rintro present after sound began ⟨same, eq⟩
  split
  next => exact .look .raise_bind
  next absent =>
    refine .look ?_
    split
    next => exact .look .raise_bind
    next apart =>
      have named : after.nameOf object = world.nameOf object := same ▸ nameOf_materialize live
      refine .update (follows_move sound (began.isScope isScope) (began.isLive live) ?_ ?_ ?_) trivial
      · rw [named]
        simpa [eq] using absent
      · rw [named, same]
        exact settled_materialize
      · simpa using apart

theorem safe_register (isScope : (world.kindOf scope).isScope = true) (live : world.isLive object = true) :
    Safe .gentle (register scope object) world fun _ _ => True := by
  apply safe_requireChangeable.bind
  rintro _ after _ _ ⟨rfl, -⟩
  exact safe_adopt isScope live

theorem safe_unregister : Safe .gentle (unregister scope name) world fun object after =>
    after.isLive object = true ∧ after.owner? object = none := by
  refine .with_sound fun sound => .look ?_
  split
  next => exact .look .raise
  next object found =>
    have leaves := follows_leave found
    have edits : Edits _ world ((world.changeMembers scope (·.erase name)).setParent object none) :=
      edits_leave (isScope_of_members found)
    refine Safe.update_bind leaves fun after _ began same => .pure ⟨began.isLive (sound.isLive_of_member found), ?_⟩
    rw [same, edits.owner?_eq object (if object = object then none else ·) (fun _ => rfl) (by simp), if_pos rfl]

theorem safe_clear (isScope : (world.kindOf scope).isScope = true) :
    Safe .burying (clear scope) world fun _ _ => True := by
  refine .look ?_
  have clears : Follows .gentle world (world.clearMembers scope) := .of_change (.clear isScope) inUse_orphan
  apply Safe.update_bind clears
  intro _ _ _ _
  exact (safe_releaseAll _).forget

theorem safe_rename : Safe .gentle (rename object name) world fun _ _ => True := by
  apply safe_requireChangeable.bind
  rintro _ after sound _ ⟨rfl, -⟩
  refine .look ?_
  split
  next => exact .pure trivial
  next =>
    refine .look ?_
    rw [sound.forest.parent?_eq]
    split
    next unowned => exact .update (.of_change (.rename unowned) rfl) trivial
    next scope owned =>
      have isScope := sound.forest.isScope_of_owner? owned
      apply safe_hasMember.bind
      intro present after _ began _
      split
      next => exact .look .raise_bind
      next =>
        apply safe_unregister.bind
        rintro taken middle _ went ⟨live, unowned⟩
        have renames : Follows .gentle middle (middle.setName taken name) := .of_change (.rename unowned) rfl
        apply Safe.update_bind renames
        intro last _ ended _
        exact safe_adopt (((began.trans went).trans ended).isScope isScope) (ended.isLive live)

theorem safe_importScope {imported : Ref} (isScope : (world.kindOf scope).isScope = true) :
    Safe .gentle (importScope scope imported) world fun _ _ => True := by
  apply safe_requireKind.bind
  rintro _ after sound _ ⟨same, target⟩
  subst same
  refine .look ?_
  split
  next => exact .look (.look .raise_bind)
  next =>
    refine .update (.of_change (.setImports (· ++ [imported]) isScope ?_) rfl) trivial
    intro other member
    rcases List.mem_append.mp member with before | new
    · exact sound.forest.imports before
    · rw [List.mem_singleton.mp new]
      exact lt_size_of_isLive (isLive_of_isScope target)

theorem safe_unimport {imported : Ref} : Safe .gentle (unimport scope imported) world fun _ _ => True := by
  refine .with_sound fun sound => .look ?_
  split
  next present =>
    have isScope : (world.kindOf scope).isScope = true := by
      rw [isScope_kindOf]
      rw [imports] at present
      cases data : world.scope? scope with
      | none => simp [data] at present
      | some _ => rfl
    refine .update (.of_change (.setImports (·.erase imported) isScope ?_) rfl) trivial
    exact fun other member => sound.forest.imports (List.mem_of_mem_erase member)
  next => exact .look .raise_bind

end Dialogue.Act
