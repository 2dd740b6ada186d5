import Dialogue.Proofs.ListGrowth
import Dialogue.Proofs.MaintainingSteps
import Dialogue.Proofs.TrailSearch

/-! Built-in members are made once. A scope remembers which of them it has made until it is cleared, whatever becomes
of them. So looking names up never displaces a member, and what was taken out or renamed does not come back. -/

namespace Dialogue

namespace Builtin

variable {builtin other : Builtin} {kind : Kind}

theorem ofName?_memberName (applies : builtin.appliesTo kind = true) :
    ofName? builtin.memberName kind = some builtin := by
  revert applies
  cases builtin <;> cases kind <;> decide

theorem memberName_inj (same : builtin.memberName = other.memberName) : builtin = other := by
  revert same
  cases builtin <;> cases other <;> decide

end Builtin

namespace World

open Act

variable {world after : World} {scope object : Ref} {builtin : Builtin} {name : String} {steps : List Step}

/-- Whether looking up a name leads from one world to another. -/
inductive LooksUp (world : World) : World → Prop where
  | member (scope : Ref) (name : String) : LooksUp world (leaves (member? scope name) world)
  | contains (scope : Ref) (name : String) : LooksUp world (leaves (hasMember scope name) world)
  | tryResolve (scope : Ref) (id : Identifier) : LooksUp world (leaves (Act.tryResolve scope id) world)
  | resolve (scope : Ref) (id : Identifier) : LooksUp world (leaves (Act.resolve scope id) world)
  | resolves (scope : Ref) (text : String) : LooksUp world (leaves (Act.resolves scope text) world)

/-- Whether no step of a run clears a scope. -/
def Uncleared (scope : Ref) : World → List Step → Prop
  | _, [] => True
  | world, step :: rest =>
    ¬ world.Clears step scope ∧ ((world.run step).1.ends = false → Uncleared scope (world.run step).2 rest)

/-! Looking names up. -/

def grows : Guarantee where
  keeps := Grows
  allows _ _ := True
  refl _ := .refl
  trans := .trans
  earlier _ _ := trivial
  anomalies := trivial

/-- Looking names up does to a world what making single built-in members does. -/
theorem LooksUp.keeps (looked : world.LooksUp after) (guarantee : Guarantee)
    (looks : ∀ world scope name, guarantee.keeps world (world.materialize scope name))
    (allows : ∀ {world stop}, guarantee.allows world stop) : guarantee.keeps world after := by
  cases looked with
  | member scope name => exact (meets_member? (looks world scope name)).keeps_leaves
  | contains scope name => exact (meets_hasMember (looks world scope name)).keeps_leaves
  | tryResolve scope id => exact (meets_tryResolve looks allows).keeps_leaves
  | resolve scope id => exact (meets_resolve looks allows).keeps_leaves
  | resolves scope text => exact (meets_resolves looks allows).keeps_leaves

theorem LooksUp.grows (looked : world.LooksUp after) :
    world.Grows after := looked.keeps World.grows grows_materialize trivial

theorem LooksUp.claims (looked : world.LooksUp after) (live : world.isLive scope = true) :
    world.claimed scope ⊆ after.claimed scope := by
  have maintained : Maintained (fun _ => True) (fun _ => False) world after :=
    looked.keeps (maintains _ _) (fun _ _ _ => entered_materialize.maintained_new) trivial
  exact maintained.claims not_false (looked.grows.isLive scope (lt_size_of_isLive live) ▸ live)

theorem settled_of_claimed (claimed : builtin ∈ world.claimed scope) : world.Settled scope builtin.memberName :=
  fun _ named => Builtin.memberName_inj (Builtin.ofName?_eq_some named).1 ▸ claimed

/-- What was not made yet is made where its name is free. -/
theorem Forest.made_of_unclaimed (forest : world.Forest) (applies : builtin.appliesTo (world.kindOf scope) = true)
    (unclaimed : builtin ∉ world.claimed scope) :
    (world.members scope).find? builtin.memberName = none ∧
    world.materialize scope builtin.memberName = world.made scope builtin ∧
    ((world.made scope builtin).members scope).find? builtin.memberName = some world.heap.size ∧
    builtin ∈ (world.made scope builtin).claimed scope := by
  have named := Builtin.ofName?_memberName applies
  refine ⟨free_of_unclaimed named forest unclaimed, ?_, ?_, ?_⟩
  · rcases materialize_cases world scope builtin.memberName with ⟨settled, -⟩ | ⟨other, found, -, made⟩
    · exact absurd (settled builtin named) unclaimed
    · rw [named] at found
      rw [made, Option.some.inj found]
  · rw [find?_made named, if_pos ⟨rfl, rfl⟩]
  · rw [claimed_made named, if_pos rfl]
    exact List.mem_cons_self

/-! Runs. -/

private theorem lasting_runAll (sound : world.Sound) (uncleared : Uncleared scope world steps) :
    Lasting (· ≠ scope) world (world.runAll steps).2 := by
  induction steps generalizing world with
  | nil => exact .refl
  | cons step rest ih =>
    obtain ⟨now, later⟩ := uncleared
    have tidy : world.Tidy fun _ => True := sound.tidy fun _ _ _ _ => trivial
    have clears (other : Ref) (clearing : world.Clears step other) : other ≠ scope := fun same => now (same ▸ clearing)
    have began := maintained_run tidy sound (.inr fun _ => trivial) clears fun _ _ => trivial
    rw [runAll_cons]
    split
    next => exact began.toLasting
    next goes => exact began.toLasting.trans (ih (sound_run sound step) (later (Bool.not_eq_true _ ▸ goes)))

/-! Registration of an object under a name that is free. -/

private theorem gives_register (changeable : world.isConstant scope = false)
    (settled : world.Settled scope (world.nameOf object))
    (free : (world.members scope).find? (world.nameOf object) = none) (apart : object ∉ world.lineage scope) :
    Gives (register scope object) world fun _ after => after = (world.detach object).insertMember scope object := by
  apply (gives_requireChangeable changeable).bind
  rintro _ after rfl
  have looks : Gives (hasMember scope (after.nameOf object)) after fun present last => last = after ∧ present = false := by
    refine ⟨_, _, rfl, materialize_of_settled settled, ?_⟩
    change ((World.members (after.materialize scope _) scope).find? _).isSome = false
    rw [materialize_of_settled settled, free]
    rfl
  refine .look (looks.bind ?_)
  rintro present last ⟨rfl, rfl⟩
  refine .look ?_
  rw [if_neg (by simpa using apart)]
  exact .update rfl

/-- An object that moves into a scope is found there under its name. -/
private theorem find?_move (sound : world.Sound) (isScope : (world.kindOf scope).isScope = true) :
    (((world.detach object).insertMember scope object).members scope).find? (world.nameOf object) = some object := by
  have stays : ((world.detach object).kindOf scope).isScope = true := by rwa [kindOf_detach sound]
  rw [find?_insertMember stays, nameOf_detach sound, if_pos ⟨rfl, rfl⟩]

/-! Cleared scopes. -/

private theorem claimed_clear (isScope : (world.kindOf scope).isScope = true) :
    (leaves (clear scope) world).claimed scope = [] := by
  have cleared : (world.clearMembers scope).claimed scope = [] :=
    (edits_clearMembers isScope).claimed_eq scope (fun _ => []) (fun _ => if_pos rfl) rfl
  refine releaseAll_induction (fun after => after.claimed scope = []) (fun _ => True) ?_ (fun _ _ _ => trivial) cleared
    fun _ _ => trivial
  intro before ref unclaimed _ _
  rw [claimed_bury, unclaimed, ite_self]

/-- A cleared scope that lives on makes its built-in members anew. -/
private theorem made_after_clear (sound : world.Sound) (applies : builtin.appliesTo (world.kindOf scope) = true)
    (live : (leaves (clear scope) world).isLive scope = true) :
    (leaves (clear scope) world).materialize scope builtin.memberName = (leaves (clear scope) world).made scope builtin := by
  have isScope := Builtin.isScope_of_appliesTo applies
  have cleared := (safe_clear isScope).follows_leaves sound
  have kind := (cleared.evolves.before (lt_size_of_isLive (isLive_of_isScope isScope)) live).2
  have unclaimed : builtin ∉ (leaves (clear scope) world).claimed scope := by
    rw [claimed_clear isScope]
    exact List.not_mem_nil
  exact ((cleared.sound sound).forest.made_of_unclaimed (kind ▸ applies) unclaimed).2.1

/-- What making a built-in member comes to: its name was free, and now stands for it. -/
structure MadeOnDemand (world : World) (scope : Ref) (builtin : Builtin) : Prop where
  free : (world.members scope).find? builtin.memberName = none
  made : world.materialize scope builtin.memberName = world.made scope builtin
  found : ((world.made scope builtin).members scope).find? builtin.memberName = some world.heap.size
  claimed : builtin ∈ (world.made scope builtin).claimed scope

/-- Looking names up displaces no member, and makes no built-in member that the scope remembers. -/
structure Looked (world : World) (scope : Ref) (builtin : Builtin) (after : World) : Prop where
  members : ∀ owner name member, (world.members owner).find? name = some member →
    (after.members owner).find? name = some member
  claimed : builtin ∈ world.claimed scope → builtin ∈ after.claimed scope
  same : builtin ∈ world.claimed scope →
    (after.members scope).find? builtin.memberName = (world.members scope).find? builtin.memberName

/-- A built-in member is remembered, and looking its name up makes nothing. -/
structure Remembered (world : World) (scope : Ref) (builtin : Builtin) : Prop where
  claimed : builtin ∈ world.claimed scope
  settled : world.materialize scope builtin.memberName = world

/-- Once cleared, a scope remembers nothing and makes its built-in members anew. -/
structure Forgotten (world : World) (scope : Ref) (builtin : Builtin) : Prop where
  claimed : world.claimed scope = []
  made : world.isLive scope = true → world.materialize scope builtin.memberName = world.made scope builtin

/-- A built-in member under a name that was taken out of its scope leaves the name to other objects. -/
def LeavesName (world : World) (scope : Ref) (builtin : Builtin) : Prop :=
  ∀ object, world.nameOf object = builtin.memberName → object ∉ world.lineage scope →
    ∃ after, register scope object world = .ok () after ∧ (after.members scope).find? builtin.memberName = some object

/-- A scope that has a member under the name of a built-in one remembers that it has made that one. What it does not
remember is made under a free name. Looking names up leaves every member where it is, and makes nothing that the scope
remembers. No run on which the scope is not cleared makes it forget; in the meantime its name can be given to another
object. -/
theorem builtins_made_once (ongoing : world.Ongoing) (applies : builtin.appliesTo (world.kindOf scope) = true) :
    (∀ member, (world.members scope).find? builtin.memberName = some member → builtin ∈ world.claimed scope) ∧
    (builtin ∉ world.claimed scope → world.MadeOnDemand scope builtin) ∧
    (∀ after, world.LooksUp after → world.Looked scope builtin after) ∧
    (builtin ∈ world.claimed scope → ∀ steps, Uncleared scope world steps →
      (world.runAll steps).2.isLive scope = true → (world.runAll steps).2.Remembered scope builtin) ∧
    (builtin ∈ world.claimed scope → (world.members scope).find? builtin.memberName = none →
      world.isConstant scope = false → world.LeavesName scope builtin) ∧
    (leaves (clear scope) world).Forgotten scope builtin := by
  have sound := ongoing.sound
  have isScope := Builtin.isScope_of_appliesTo applies
  refine ⟨?_, ?_, fun after looked => ⟨?_, ?_, ?_⟩, ?_, ?_, claimed_clear isScope, made_after_clear sound applies⟩
  · exact fun member found => sound.forest.claims (Builtin.ofName?_memberName applies) found
  · intro unclaimed
    obtain ⟨free, made, found, claimed⟩ := sound.forest.made_of_unclaimed applies unclaimed
    exact ⟨free, made, found, claimed⟩
  · intro owner name member found
    rw [looked.grows.members fun _ named => sound.forest.claims named found]
    exact found
  · exact fun claimed => looked.claims (isLive_of_isScope isScope) claimed
  · exact fun claimed => looked.grows.members (settled_of_claimed claimed)
  · intro claimed steps uncleared live
    have lasting := lasting_runAll sound uncleared
    have remembered : builtin ∈ (world.runAll steps).2.claimed scope := lasting.claims (fun other => other rfl) live claimed
    exact ⟨remembered, materialize_of_settled (settled_of_claimed remembered)⟩
  · intro claimed free changeable object named apart
    have settled : world.Settled scope (world.nameOf object) := named ▸ settled_of_claimed claimed
    obtain ⟨value, after, ran, rfl⟩ := gives_register changeable settled (named ▸ free) apart
    exact ⟨_, ran, named ▸ find?_move sound isScope⟩

/-- The documentation of a scope has been made and taken out. -/
def withoutDoc : World :=
  (World.runAll {} [
    { action := .create (.scope "root"), name := some "r" },
    { action := .scope (.member "doc"), target := some "r" },
    { action := .scope (.unregister "doc"), target := some "r" }]).2

theorem doc_made_once : withoutDoc.Ongoing ∧ Builtin.doc ∈ withoutDoc.claimed 0 ∧
    (withoutDoc.members 0).find? "doc" = none ∧
    ∀ steps, Uncleared 0 withoutDoc steps → (withoutDoc.runAll steps).2.isLive 0 = true →
      (withoutDoc.runAll steps).2.Remembered 0 .doc := by
  have ongoing : withoutDoc.Ongoing := (Reachable.runAll (.start {}) _).ongoing
  have applies : Builtin.doc.appliesTo (withoutDoc.kindOf 0) = true := by decide +kernel
  have claimed : Builtin.doc ∈ withoutDoc.claimed 0 := by decide +kernel
  obtain ⟨-, -, -, lasts, -⟩ := builtins_made_once ongoing applies
  exact ⟨ongoing, claimed, by decide +kernel, lasts claimed⟩

end World

end Dialogue
