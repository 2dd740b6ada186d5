import Dialogue.Limits
import Dialogue.Proofs.ListSlots
import Mathlib.Logic.Relation

/-! Sound worlds and the changes that keep them sound. Nothing that is in use, has a handle or is kept
alive by a living object has gone, and the owners form a tree. Every act of a session is made of such
changes. Those without a burial leave everything alive, and none gives a list more elements than the act
is free to give. -/

namespace Dialogue

/-- How much of what is there an act may change. -/
inductive Freedom where
  /-- Everything stays alive, handles stay the same, and no list gets other elements. -/
  | gentle
  /-- Lists get other elements, and new lists have some. -/
  | filling
  /-- Handles change and objects go, and no list gets other elements. -/
  | releasing
  | burying
  /-- A list may get one element more than lists may hold. -/
  | overfilling

namespace Freedom

/-- How long lists may get by new elements. -/
def room? : Freedom → Option Nat
  | gentle | releasing => none
  | filling | burying => some Limits.listLength
  | overfilling => some (Limits.listLength + 1)

/-- Whether handles may change and objects may go. -/
def buries : Freedom → Bool
  | gentle | filling => false
  | releasing | burying | overfilling => true

/-- Whether a list may get so many elements, where a list had so many before. -/
def Fills (freedom : Freedom) (count before : Nat) : Prop := ∃ room ∈ freedom.room?, count ≤ max before room

theorem fills_of_le {freedom : Freedom} {count before room : Nat} (fits : count ≤ before)
    (roomy : freedom.room? = some room) : freedom.Fills count before :=
  ⟨room, roomy, fits.trans (Nat.le_max_left ..)⟩

end Freedom

/-- Acts of the first sort may stand where the second sort may. -/
class Gentler (less more : Freedom) : Prop where
  fills : ∀ {count before}, less.Fills count before → more.Fills count before
  buries : less.buries = true → more.buries = true

namespace Gentler

variable {freedom : Freedom}

instance least : Gentler .gentle freedom where
  fills := fun ⟨_, roomless, _⟩ => by cases roomless
  buries := fun never => by cases never

instance same : Gentler freedom freedom := ⟨id, id⟩

instance most : Gentler freedom .overfilling where
  fills := by
    rintro count before ⟨room, roomy, fits⟩
    refine ⟨_, rfl, fits.trans (max_le_max_left before ?_)⟩
    cases freedom <;> cases roomy <;> omega
  buries _ := rfl

instance filling_burying : Gentler .filling .burying := ⟨id, fun _ => rfl⟩

instance releasing_burying : Gentler .releasing .burying where
  fills := fun ⟨_, roomless, _⟩ => by cases roomless
  buries := id

theorem trans {less more : Freedom} (between : Freedom) [first : Gentler less between]
    [second : Gentler between more] : Gentler less more :=
  ⟨fun fills => second.fills (first.fills fills), fun buries => second.buries (first.buries buries)⟩

end Gentler

namespace World

variable {world after : World} {ref other list : Ref} {freedom less : Freedom}

structure Sound (world : World) : Prop where
  forest : world.Forest
  inUse : ∀ {ref}, ref ∈ world.inUse → world.isLive ref = true
  handles : ∀ {ref}, ref ∈ world.handles.values → world.isLive ref = true
  held : ∀ {holder ref}, ref ∈ world.holdsOf holder → world.isLive ref = true
  grounded : world.Grounded

/-- What an act may do at once. -/
inductive Change (freedom : Freedom) : World → World → Prop where
  /-- A new object that has neither owner nor members. -/
  | make {world : World} {made : Object} (unowned : made.parent = none)
      (bare : ∀ data ∈ made.scope?, data.members = {} ∧ data.imports = [])
      (held : ∀ ref ∈ made.holds, world.isLive ref = true)
      (grounded : made.content.Grounded world.heap.size world.heap.size)
      (slots : made.slots = [] ∨ ∃ like, freedom.Fills made.slots.length (world.length like)) :
      Change freedom world (world.add made)
  /-- Values, elements, marks and texts of objects. -/
  | alter {world after : World} (shapes : ∀ ref, after.shape? ref = world.shape? ref)
      (rest : after = { world with heap := after.heap }) (size : after.heap.size = world.heap.size)
      (held : ∀ {holder ref}, ref ∈ after.holdsOf holder → world.isLive ref = true)
      (grounded : ∀ ref, after.content? ref = world.content? ref ∨
        ∀ body ∈ after.content? ref, body.Grounded ref world.heap.size)
      (slots : ∀ list, after.slots list = world.slots list ∨ freedom.Fills (after.length list) (world.length list)) :
      Change freedom world after
  /-- What hosts and running code hold, settings and scripts. -/
  | outside {world after : World} (heap : after.heap = world.heap)
      (inUse : ∀ ref ∈ after.inUse, world.isLive ref = true)
      (handles : ∀ ref ∈ after.handles.values, world.isLive ref = true)
      (same : freedom.buries = true ∨ after.handles = world.handles) : Change freedom world after
  | enter {world : World} {scope object : Ref} (isScope : (world.kindOf scope).isScope = true)
      (live : world.isLive object = true) (unowned : world.owner? object = none)
      (free : (world.members scope).find? (world.nameOf object) = none)
      (settled : ∀ {builtin}, Builtin.ofName? (world.nameOf object) (world.kindOf scope) = some builtin →
        builtin ∈ world.claimed scope)
      (apart : object ∉ world.lineage scope) : Change freedom world (world.insertMember scope object)
  | leave {world : World} {scope object : Ref} {name : String}
      (found : (world.members scope).find? name = some object) :
      Change freedom world ((world.changeMembers scope (·.erase name)).setParent object none)
  | rename {world : World} {object : Ref} {name : String} (unowned : world.owner? object = none) :
      Change freedom world (world.setName object name)
  | claim {world : World} {scope : Ref} {builtin : Builtin} (isScope : (world.kindOf scope).isScope = true) :
      Change freedom world (world.claim scope builtin)
  | setImports {world : World} {scope : Ref} (rule : List Ref → List Ref)
      (isScope : (world.kindOf scope).isScope = true)
      (inside : ∀ imported ∈ rule (world.imports scope), imported < world.heap.size) :
      Change freedom world (world.changeScope scope fun data => { data with imports := rule data.imports })
  | clear {world : World} {scope : Ref} (isScope : (world.kindOf scope).isScope = true) :
      Change freedom world (world.clearMembers scope)
  | bury {world : World} {ref : Ref} (allowed : freedom.buries = true) (unheld : world.isHeld ref = false) :
      Change freedom world (world.bury ref)

def Evolves (freedom : Freedom) : World → World → Prop := Relation.ReflTransGen (Change freedom)

theorem isHeld_eq_false (unheld : world.isHeld ref = false) :
    ref ∉ world.inUse ∧ ref ∉ world.handles.values ∧ ∀ holder, ref ∉ world.holdsOf holder := by
  simp only [isHeld, Bool.or_eq_false_iff, List.contains_eq_mem, decide_eq_false_iff_not] at unheld
  obtain ⟨⟨unused, unnamed⟩, unheld⟩ := unheld
  refine ⟨unused, unnamed, fun holder member => ?_⟩
  rw [holds_iff.mpr ⟨holder, member⟩] at unheld
  cases unheld

theorem isLive_of_shape?_eq (same : after.shape? ref = world.shape? ref) : after.isLive ref = world.isLive ref := by
  rw [isLive_eq, isLive_eq, same]

theorem isLive_add {made : Object} : (world.add made).isLive ref = (ref == world.heap.size || world.isLive ref) := by
  rw [isLive_eq, isLive_eq, shape?_add]
  split
  next same => simp [same]
  next other => simp [other]

theorem isLive_bury : (world.bury ref).isLive other = (other != ref && world.isLive other) := by
  rw [isLive_eq, isLive_eq, shape?_bury]
  split
  next same => simp [same]
  next different => split <;> simp [different]

private theorem mem_holdsOf_insertMember {scope object holder : Ref} (isScope : (world.kindOf scope).isScope = true)
    (member : ref ∈ (world.insertMember scope object).holdsOf holder) :
    ref = object ∨ ref ∈ world.holdsOf holder := by
  have parented : Edits _ world (world.setParent object (some scope)) := edits_setParent
  rw [insertMember, changeMembers, holdsOf_changeScope_members (·.insert (world.nameOf object) object)
    (by rwa [parented.kindOf scope fun _ _ => rfl]) fun _ => rfl] at member
  split at member
  next here =>
    obtain ⟨key, present⟩ := Table.mem_values.mp member
    rw [Table.find?_insert] at present
    split at present
    next => exact .inl (Option.some.inj present).symm
    next =>
      rw [parented.members holder fun _ => rfl] at present
      exact .inr (mem_holdsOf_of_member present)
  next =>
    rw [holdsOf_setParent] at member
    exact .inr member

namespace Sound

theorem isLive_of_member (sound : world.Sound) {scope object : Ref} {name : String}
    (found : (world.members scope).find? name = some object) : world.isLive object = true :=
  sound.held (mem_holdsOf_of_member found)

theorem knows (sound : world.Sound) {slot : Slot} (inside : slot ∈ world.slots ref) : world.Knows slot := by
  refine ⟨fun _ holds => sound.held (mem_holdsOf_of_slot inside holds), ?_⟩
  rw [slots] at inside
  cases found : world.list? ref with
  | none => simp [found] at inside
  | some data =>
    rw [found] at inside
    exact (sound.grounded (content?_eq_some_list.mpr found)).known data rfl slot inside

/-- Nobody holds an object that does not exist yet. -/
theorem fresh_unheld (sound : world.Sound) {ref : Ref} (fresh : world.heap.size ≤ ref) (holder : Ref) :
    ref ∉ world.holdsOf holder := by
  intro member
  exact absurd (lt_size_of_isLive (sound.held member)) (Nat.not_lt.mpr fresh)

private theorem unowned_of_unheld (sound : world.Sound) {ref : Ref} (unheld : world.isHeld ref = false) :
    world.owner? ref = none := by
  cases owned : world.owner? ref with
  | none => rfl
  | some owner =>
    have held := mem_holdsOf_of_member (sound.forest.owners owned)
    exact absurd held ((isHeld_eq_false unheld).2.2 owner)

end Sound

namespace Change

variable (change : Change freedom world after)

include change

/-- Only a burial takes a living object away, and it takes none that is held. -/
theorem stays_or_buried (live : world.isLive ref = true) :
    after.isLive ref = true ∨ freedom.buries = true ∧ world.isHeld ref = false ∧ after = world.bury ref := by
  cases change with
  | make => exact .inl (by rw [isLive_add, live, Bool.or_true])
  | alter shapes => exact .inl (by rwa [isLive_of_shape?_eq (shapes ref)])
  | outside heap => exact .inl (by rwa [isLive, object?, heap])
  | enter isScope => exact .inl (by rwa [(edits_insertMember isScope).isLive])
  | leave found => exact .inl (by rwa [(edits_leave (isScope_of_members found)).isLive])
  | rename => exact .inl (by rwa [edits_setName.isLive])
  | claim isScope => exact .inl (by rwa [(edits_claim isScope).isLive])
  | setImports rule isScope => exact .inl (by rwa [(edits_setImports isScope).isLive])
  | clear isScope => exact .inl (by rwa [(edits_clearMembers isScope).isLive])
  | @bury buried allowed unheld =>
    by_cases same : ref = buried
    · exact .inr ⟨allowed, same ▸ unheld, same ▸ rfl⟩
    · exact .inl (by rw [isLive_bury, live, bne_iff_ne.mpr same]; rfl)

theorem forest (sound : world.Sound) : after.Forest := by
  cases change with
  | make unowned bare => exact sound.forest.make unowned bare
  | alter shapes rest size => exact sound.forest.of_shapes shapes size
  | outside heap => exact sound.forest.of_shapes (fun ref => by rw [shape?, shape?, object?, object?, heap]) (by rw [heap])
  | enter isScope live unowned free settled apart => exact sound.forest.enter isScope live unowned free settled apart
  | leave found => exact sound.forest.leave found
  | rename unowned => exact sound.forest.rename unowned
  | claim isScope => exact sound.forest.claim isScope
  | setImports rule isScope inside => exact sound.forest.setImports isScope inside
  | clear isScope => exact sound.forest.clear isScope
  | bury _ unheld => exact sound.forest.bury (sound.unowned_of_unheld unheld)

theorem inUse (sound : world.Sound) (used : ref ∈ after.inUse) : world.isLive ref = true := by
  cases change with
  | alter _ rest => exact sound.inUse (by rwa [rest] at used)
  | outside _ inUse => exact inUse ref used
  | clear =>
    rw [clearMembers_eq, inUse_orphan] at used
    exact sound.inUse used
  | bury => exact sound.inUse (inUse_bury ▸ used)
  | _ => exact sound.inUse used

theorem handles (sound : world.Sound) (named : ref ∈ after.handles.values) : world.isLive ref = true := by
  cases change with
  | alter _ rest => exact sound.handles (by rwa [rest] at named)
  | outside _ _ handles => exact handles ref named
  | clear =>
    rw [clearMembers_eq, handles_orphan] at named
    exact sound.handles named
  | bury => exact sound.handles (handles_bury ▸ named)
  | _ => exact sound.handles named

/-- Whatever is kept alive afterwards was alive before. -/
theorem held (sound : world.Sound) {holder : Ref} (member : ref ∈ after.holdsOf holder) :
    world.isLive ref = true := by
  cases change with
  | make unowned bare held =>
    rw [holdsOf_add] at member
    split at member
    · exact held ref member
    · exact sound.held member
  | alter shapes rest size held => exact held member
  | outside heap =>
    rw [holdsOf, object?, heap] at member
    exact sound.held member
  | enter isScope live =>
    rcases mem_holdsOf_insertMember isScope member with rfl | before
    · exact live
    · exact sound.held before
  | @leave scope object name found =>
    rw [holdsOf_setParent, changeMembers,
      holdsOf_changeScope_members (·.erase name) (isScope_of_members found) fun _ => rfl] at member
    split at member
    next =>
      obtain ⟨key, present⟩ := Table.mem_values.mp member
      rw [Table.find?_erase] at present
      split at present
      next => cases present
      next => exact sound.isLive_of_member present
    next => exact sound.held member
  | rename =>
    rw [holdsOf_setName] at member
    exact sound.held member
  | @claim scope builtin =>
    rw [World.claim, holdsOf_changeScope (fun data => { data with claimed := builtin :: data.claimed })
      fun _ => rfl] at member
    exact sound.held member
  | setImports rule =>
    rw [holdsOf_changeScope (fun data => { data with imports := rule data.imports }) fun _ => rfl] at member
    exact sound.held member
  | clear isScope =>
    rw [clearMembers_eq, holdsOf_orphan, holdsOf_changeScope_members (fun _ => {}) isScope fun _ => rfl] at member
    split at member
    next => cases member
    next => exact sound.held member
  | bury =>
    rw [holdsOf_bury] at member
    split at member
    next => cases member
    next => exact sound.held member

end Change

/-- A change neither takes back an identity nor turns an object into one of another kind. -/
theorem Change.before (change : Change freedom world after) :
    world.heap.size ≤ after.heap.size ∧ ∀ ref < world.heap.size, after.isLive ref = true →
      world.isLive ref = true ∧ after.kindOf ref = world.kindOf ref := by
  have of_edits {edit : Ref → Shape → Shape} {after} (edits : Edits edit world after)
      (same : ∀ ref shape, (edit ref shape).kind = shape.kind) (ref : Ref) (live : after.isLive ref = true) :
      world.isLive ref = true ∧ after.kindOf ref = world.kindOf ref :=
    ⟨edits.isLive ref ▸ live, edits.kindOf ref same⟩
  cases change with
  | make =>
    refine ⟨Heap.size_add .. ▸ Nat.le_succ _, fun ref old live => ?_⟩
    rw [isLive_eq, shape?_add_of_lt old] at live
    rw [isLive_eq, kindOf_eq, kindOf_eq, shape?_add_of_lt old]
    exact ⟨live, rfl⟩
  | alter shapes rest size held =>
    refine ⟨size.ge, fun ref _ live => ?_⟩
    rw [isLive_eq, shapes] at live
    rw [isLive_eq, kindOf_eq, kindOf_eq, shapes]
    exact ⟨live, rfl⟩
  | outside heap =>
    refine ⟨by rw [heap], fun ref _ live => ?_⟩
    have objects : after.object? ref = world.object? ref := by rw [object?, object?, heap]
    rw [isLive, objects] at live
    rw [isLive, kindOf, kindOf, objects]
    exact ⟨live, rfl⟩
  | enter isScope =>
    exact ⟨heap_size_insertMember.ge, fun ref _ => of_edits (edits_insertMember isScope) (fun _ _ => rfl) ref⟩
  | leave found =>
    refine ⟨?_, fun ref _ => of_edits (edits_leave (isScope_of_members found)) (fun _ _ => rfl) ref⟩
    rw [setParent, heap_size_change, changeMembers, changeScope, heap_size_change]
  | rename => exact ⟨heap_size_change.ge, fun ref _ => of_edits edits_setName (fun _ _ => rfl) ref⟩
  | claim isScope =>
    exact ⟨heap_size_change.ge, fun ref _ => of_edits (edits_claim isScope) (fun _ _ => rfl) ref⟩
  | setImports rule isScope =>
    exact ⟨heap_size_change.ge, fun ref _ => of_edits (edits_setImports isScope) (fun _ _ => rfl) ref⟩
  | clear isScope =>
    refine ⟨?_, fun ref _ => of_edits (edits_clearMembers isScope) (fun _ _ => rfl) ref⟩
    rw [clearMembers_eq, heap_size_orphan, changeScope, heap_size_change]
  | @bury buried =>
    refine ⟨heap_size_bury.ge, fun ref _ live => ?_⟩
    rw [isLive_bury, Bool.and_eq_true, bne_iff_ne] at live
    refine ⟨live.2, ?_⟩
    rw [kindOf_bury, if_neg live.1]

/-- What an object contains stays, goes with it, or is grounded in what there was before. -/
theorem Change.content_cases (change : Change freedom world after) (ref : Ref) :
    after.content? ref = world.content? ref ∨ ∀ body ∈ after.content? ref, body.Grounded ref world.heap.size := by
  cases change with
  | make unowned bare held grounded =>
    rw [content?_add]
    split
    next fresh =>
      right
      rintro _ ⟨⟩
      exact fresh ▸ grounded
    next => exact .inl rfl
  | alter shapes rest size held grounded => exact grounded ref
  | outside heap => exact .inl (by rw [content?, content?, object?, object?, heap])
  | enter => exact .inl content?_insertMember
  | leave => exact .inl (content?_setParent.trans content?_changeScope)
  | rename => exact .inl content?_setName
  | claim => exact .inl content?_changeScope
  | setImports => exact .inl content?_changeScope
  | clear => exact .inl content?_clearMembers
  | bury =>
    rw [content?_bury]
    split
    next =>
      right
      rintro _ ⟨⟩
    next => exact .inl rfl

theorem Change.grounded (change : Change freedom world after) (sound : world.Sound) : after.Grounded := by
  intro ref body found
  rcases change.content_cases ref with same | new
  · exact (sound.grounded (same ▸ found)).mono change.before.1
  · exact (new body found).mono change.before.1

theorem Change.sound (change : Change freedom world after) (sound : world.Sound) : after.Sound := by
  -- Whatever is needed afterwards was alive before, and only a burial could end that.
  have stays {ref : Ref} (live : world.isLive ref = true)
      (needed : ref ∈ after.inUse ∨ ref ∈ after.handles.values ∨ ∃ holder, ref ∈ after.holdsOf holder) :
      after.isLive ref = true := by
    rcases change.stays_or_buried live with alive | ⟨-, unheld, rfl⟩
    · exact alive
    · obtain ⟨unused, unnamed, unkept⟩ := isHeld_eq_false unheld
      rcases needed with used | named | ⟨holder, held⟩
      · exact absurd (inUse_bury ▸ used) unused
      · exact absurd (handles_bury ▸ named) unnamed
      · rw [holdsOf_bury] at held
        split at held
        next => cases held
        next => exact absurd held (unkept holder)
  refine ⟨change.forest sound, ?_, ?_, ?_, change.grounded sound⟩
  · exact fun used => stays (change.inUse sound used) (.inl used)
  · exact fun named => stays (change.handles sound named) (.inr (.inl named))
  · exact fun held => stays (change.held sound held) (.inr (.inr ⟨_, held⟩))

theorem Evolves.sound (evolves : Evolves freedom world after) (sound : world.Sound) : after.Sound := by
  induction evolves with
  | refl => exact sound
  | tail _ change ih => exact change.sound ih

theorem Change.alive [gentler : Gentler freedom .filling] (change : Change freedom world after) {ref : Ref}
    (live : world.isLive ref = true) : after.isLive ref = true :=
  (change.stays_or_buried live).resolve_right fun buried => Bool.noConfusion (gentler.buries buried.1)

theorem Change.handles_eq [gentler : Gentler freedom .filling] (change : Change freedom world after) :
    after.handles = world.handles := by
  cases change with
  | alter _ rest => rw [rest]
  | outside _ _ _ same => exact same.resolve_left fun buries => Bool.noConfusion (gentler.buries buries)
  | clear => rw [clearMembers_eq, handles_orphan, changeScope, change]
  | bury => exact handles_bury
  | _ => rfl

/-- A list keeps its elements, goes, or gets as many as a list may get. -/
theorem Change.slots_cases (change : Change freedom world after) (list : Ref) :
    after.slots list = world.slots list ∨ (freedom.buries = true ∧ after.isLive list = false) ∨
      ∃ like, freedom.Fills (after.length list) (world.length like) := by
  cases change with
  | make unowned bare held grounded slots =>
    rw [length, slots_add]
    split
    next fresh =>
      rcases slots with empty | ⟨like, fills⟩
      · exact .inl (by rw [empty, slots_eq_nil_of_size_le fresh.ge])
      · exact .inr (.inr ⟨like, fills⟩)
    next => exact .inl rfl
  | alter shapes rest size held grounded slots => exact (slots list).imp_right fun fills => .inr ⟨list, fills⟩
  | outside heap => exact .inl (by rw [slots_eq, slots_eq, object?, object?, heap])
  | enter => exact .inl (slots_of_content? content?_insertMember)
  | leave => exact .inl (slots_of_content? (content?_setParent.trans content?_changeScope))
  | rename => exact .inl (slots_of_content? content?_setName)
  | claim => exact .inl (slots_of_content? content?_changeScope)
  | setImports => exact .inl (slots_of_content? content?_changeScope)
  | clear => exact .inl (slots_of_content? content?_clearMembers)
  | @bury buried allowed =>
    by_cases same : list = buried
    · exact .inr (.inl ⟨allowed, by rw [isLive_bury, same, bne_self_eq_false, Bool.false_and]⟩)
    · exact .inl (by rw [slots_bury, if_neg same])

namespace Evolves

theorem size_le (evolves : Evolves freedom world after) : world.heap.size ≤ after.heap.size := by
  induction evolves with
  | refl => exact Nat.le_refl _
  | tail _ change ih => exact ih.trans change.before.1

theorem before (evolves : Evolves freedom world after) {ref : Ref} (old : ref < world.heap.size)
    (live : after.isLive ref = true) : world.isLive ref = true ∧ after.kindOf ref = world.kindOf ref := by
  induction evolves with
  | refl => exact ⟨live, rfl⟩
  | @tail middle last former change ih =>
    obtain ⟨alive, kind⟩ := change.before.2 ref (old.trans_le (size_le former)) live
    obtain ⟨lived, same⟩ := ih alive
    exact ⟨lived, kind.trans same⟩

theorem alive [Gentler freedom .filling] (evolves : Evolves freedom world after) {ref : Ref}
    (live : world.isLive ref = true) : after.isLive ref = true := by
  induction evolves with
  | refl => exact live
  | tail _ change ih => exact change.alive ih

theorem handles [Gentler freedom .filling] (evolves : Evolves freedom world after) :
    after.handles = world.handles := by
  induction evolves with
  | refl => rfl
  | tail _ change ih => exact change.handles_eq.trans ih

theorem weaken [gentler : Gentler less freedom] (evolves : Evolves less world after) :
    Evolves freedom world after := by
  refine Relation.ReflTransGen.mono ?_ world after evolves
  intro before after change
  cases change with
  | bury allowed unheld => exact .bury (gentler.buries allowed) unheld
  | make unowned bare held grounded slots =>
    exact .make unowned bare held grounded (slots.imp_right fun ⟨like, fills⟩ => ⟨like, gentler.fills fills⟩)
  | alter shapes rest size held grounded slots =>
    exact .alter shapes rest size held grounded fun list => (slots list).imp_right gentler.fills
  | outside heap inUse handles same => exact .outside heap inUse handles (same.imp_left gentler.buries)
  | enter isScope live unowned free settled apart => exact .enter isScope live unowned free settled apart
  | leave found => exact .leave found
  | rename unowned => exact .rename unowned
  | claim isScope => exact .claim isScope
  | setImports rule isScope inside => exact .setImports rule isScope inside
  | clear isScope => exact .clear isScope

/-- No list gets longer than the longest one was and than the act is free to make it. -/
theorem length_le (evolves : Evolves freedom world after) {most : Nat} (short : ∀ list, world.length list ≤ most)
    (roomy : ∀ room ∈ freedom.room?, room ≤ most) (list : Ref) : after.length list ≤ most := by
  induction evolves generalizing list with
  | refl => exact short list
  | tail _ change ih =>
    rcases change.slots_cases list with same | ⟨-, dead⟩ | ⟨like, room, allowed, fits⟩
    · rw [length, same]
      exact ih list
    · rw [length, slots_eq_nil_of_not_isLive dead]
      exact Nat.zero_le _
    · exact fits.trans (max_le (ih like) (roomy room allowed))

/-- A survivor keeps its elements where no list gets others. -/
theorem slots_of_isLive (evolves : Evolves .releasing world after) (old : list < world.heap.size)
    (live : after.isLive list = true) : after.slots list = world.slots list := by
  induction evolves with
  | refl => rfl
  | tail former change ih =>
    rcases change.slots_cases list with same | ⟨-, dead⟩ | ⟨_, _, roomless, _⟩
    · rw [same]
      exact ih (change.before.2 list (old.trans_le (size_le former)) live).1
    · rw [dead] at live
      cases live
    · cases roomless

/-- Releases leave a list as it is or take all its elements. -/
theorem slots_of_releasing (evolves : Evolves .releasing world after) (list : Ref) :
    after.slots list = world.slots list ∨ after.slots list = [] := by
  induction evolves with
  | refl => exact .inl rfl
  | tail _ change ih =>
    rcases change.slots_cases list with same | ⟨-, dead⟩ | ⟨_, _, roomless, _⟩
    · rwa [same]
    · exact .inr (slots_eq_nil_of_not_isLive dead)
    · cases roomless

theorem length_le_of_releasing (evolves : Evolves .releasing world after) (list : Ref) :
    after.length list ≤ world.length list := by
  rw [length, length]
  rcases evolves.slots_of_releasing list with same | none
  · rw [same]
  · rw [none]
    exact Nat.zero_le _

/-- Gentle acts leave every list as it is. -/
theorem slots (evolves : Evolves .gentle world after) (list : Ref) : after.slots list = world.slots list := by
  induction evolves with
  | refl => rfl
  | tail _ change ih =>
    rcases change.slots_cases list with same | ⟨never, -⟩ | ⟨_, _, roomless, _⟩
    · exact same.trans ih
    · cases never
    · cases roomless

theorem length (evolves : Evolves .gentle world after) (list : Ref) : after.length list = world.length list :=
  congrArg List.length (evolves.slots list)

end Evolves

end World

end Dialogue
