import Dialogue.Proofs.ActLogic
import Dialogue.Variables.View

/-! Changes of values, elements and marks leave all shapes alone, and reading makes no others. Whatever
an object is and whatever it depends on, its value can be read safely. -/

namespace Dialogue.Act

open World

variable {α β : Type} {world : World} {ref list : Ref} {freedom : Freedom}

theorem follows_alter {rule : Object → Object} (sound : world.Sound)
    (same : ∀ object : Object, (rule object).shape = object.shape)
    (held : ∀ object, world.object? ref = some object → ∀ other ∈ (rule object).holds, world.isLive other = true)
    (grounded : ∀ object, world.object? ref = some object → (rule object).content = object.content ∨
      (rule object).content.Grounded ref world.heap.size)
    (slots : ∀ list, (world.change ref rule).slots list = world.slots list ∨
      freedom.Fills ((world.change ref rule).length list) (world.length list)) :
    Follows freedom world (world.change ref rule) := by
  refine .of_change (.alter (fun other => ?_) rfl heap_size_change ?_ (fun other => ?_) slots) rfl
  · rw [shape?_change id same]
    split <;> simp
  · intro holder other member
    rw [holdsOf, object?_change] at member
    split at member
    next here =>
      cases found : world.object? holder with
      | none => simp [found] at member
      | some object =>
        rw [found] at member
        exact held object (here ▸ found) other member
    next => exact sound.held member
  · rw [content?, content?, object?_change]
    split
    next here =>
      subst here
      cases found : world.object? ref with
      | none => exact .inl rfl
      | some object =>
        refine (grounded object found).imp (congrArg some) ?_
        rintro new _ ⟨⟩
        exact new
    next => exact .inl rfl

/-- What is kept alive stays the same, and so do values and elements. -/
private theorem follows_mark {rule : Object → Object} (sound : world.Sound)
    (same : ∀ object : Object, (rule object).shape = object.shape)
    (holds : ∀ object : Object, (rule object).holds = object.holds)
    (contents : ∀ object : Object, (rule object).content = object.content) :
    Follows .gentle world (world.change ref rule) := by
  refine follows_alter sound same (fun object found other member => ?_) (fun object _ => .inl (contents object))
    fun _ => .inl (slots_change contents)
  rw [holds] at member
  refine sound.held (?_ : _ ∈ world.holdsOf ref)
  rwa [holdsOf, found]

theorem follows_setConstant (sound : world.Sound) {constant : Bool} :
    Follows .gentle world (world.setConstant ref constant) :=
  follows_mark sound (fun _ => rfl) (fun _ => rfl) fun _ => rfl

private theorem follows_changeList (sound : world.Sound) {rule : ListData → ListData}
    (knows : ∀ data, world.list? ref = some data → ∀ slot ∈ (rule data).slots, world.Knows slot)
    (slots : ∀ list, (world.changeList ref rule).slots list = world.slots list ∨
      freedom.Fills ((world.changeList ref rule).length list) (world.length list)) :
    Follows freedom world (world.changeList ref rule) := by
  have listed {object : Object} {data : ListData} (found : world.object? ref = some object)
      (body : object.body = .list data) : world.list? ref = some data := by
    simp [list?, body?, found, body]
  refine follows_alter sound (fun object => ?_) (fun object found other member => ?_) (fun object found => ?_) slots
  · split
    next data body => simp [Object.shape, Object.kind, Object.scope?, body]
    next => rfl
  · split at member
    next data body =>
      obtain ⟨slot, inside, holds⟩ := List.mem_filterMap.mp member
      exact (knows data (listed found body) slot inside).held other holds
    next =>
      refine sound.held (?_ : _ ∈ world.holdsOf ref)
      rwa [holdsOf, found]
  · split
    next data body =>
      exact .inr (Body.grounded_list fun slot inside => (knows data (listed found body) slot inside).target)
    next => exact .inl rfl

theorem follows_changeSlots (sound : world.Sound) {rule : List Slot → List Slot}
    (knows : ∀ slot ∈ rule (world.slots ref), world.Knows slot)
    (fills : freedom.Fills (rule (world.slots ref)).length (world.length ref)) :
    Follows freedom world (world.changeSlots ref rule) := by
  refine follows_changeList sound (fun _ found => slots_of_list? found ▸ knows) fun list => ?_
  change (world.changeSlots ref rule).slots list = _ ∨ freedom.Fills ((world.changeSlots ref rule).slots list).length _
  rw [slots_changeSlots]
  split
  next here => exact .inr (here.1 ▸ fills)
  next => exact .inl rfl

/-- Some of the old elements remain. -/
theorem follows_changeSlots_of_sublist (sound : world.Sound) {rule : List Slot → List Slot}
    (sublist : (rule (world.slots ref)).Sublist (world.slots ref)) :
    Follows .filling world (world.changeSlots ref rule) :=
  follows_changeSlots sound (fun _ inside => sound.knows (sublist.subset inside))
    (Freedom.fills_of_le sublist.length_le rfl)

theorem follows_setBusy (sound : world.Sound) {busy : Bool} : Follows .gentle world (world.setBusy ref busy) :=
  follows_changeList sound (fun _ found _ inside => sound.knows (slots_of_list? found ▸ inside)) fun _ =>
    .inl (slots_changeList fun _ => rfl)

theorem follows_changeBlock (sound : world.Sound) {rule : BlockData → BlockData} :
    Follows .gentle world (world.changeBlock ref rule) := by
  refine follows_mark sound (fun object => ?_) (fun object => ?_) fun object => ?_
  · split
    next data body =>
      cases role : data.role <;> simp [Object.shape, Object.kind, Object.scope?, body, role]
    next => rfl
  · split
    next data body => cases role : data.role <;> simp [Object.holds, body, role]
    next => rfl
  · split
    next data body => simp [Object.content, body]
    next => rfl

private theorem follows_setStorage (sound : world.Sound) {storage : Storage}
    (held : ∀ list memo, storage = .derived (.text list) memo → world.isLive list = true)
    (grounded : (Body.var storage).Grounded ref world.heap.size) :
    Follows .gentle world (world.setStorage ref storage) := by
  refine follows_alter sound (fun object => ?_) (fun object found other member => ?_) (fun object _ => ?_)
    fun list => .inl slots_setStorage
  · split
    next data body => simp [Object.shape, Object.kind, Object.scope?, body]
    next => rfl
  · split at member
    next =>
      cases storage with
      | derived formula memo =>
        cases formula with
        | text list =>
          obtain rfl : other = list := List.mem_singleton.mp member
          exact held other memo rfl
        | _ => cases member
      | _ => cases member
    next =>
      refine sound.held (?_ : _ ∈ world.holdsOf ref)
      rwa [holdsOf, found]
  · split
    next => exact .inr grounded
    next => exact .inl rfl

/-- A variable that keeps a value and nothing else alive. -/
theorem follows_store (sound : world.Sound) {storage : Storage} (exact : ∀ value ∈ storage.value?, value.Exact)
    (alone : storage.source? = none) : Follows .gentle world (world.setStorage ref storage) := by
  refine follows_setStorage sound (fun list memo same => ?_) (Body.grounded_var exact (Storage.older_of_alone alone))
  subst same
  cases alone

private theorem follows_evaluate (sound : world.Sound) {value : Scalar} {config : Config} (exact : value.Exact) :
    Follows .gentle world (world.evaluate ref value config) := by
  unfold evaluate
  split
  next storage found =>
    have grounded := sound.grounded (content?_eq_some_var.mpr found)
    apply follows_setStorage sound ?_ (Body.grounded_var (fun kept keeps => ?_) fun source same => ?_)
    rotate_left
    · rcases Storage.value?_evaluated keeps with before | rfl
      · exact grounded.exact storage rfl kept before
      · exact exact
    · rw [Storage.source?_evaluated] at same
      exact grounded.older storage rfl source same
    intro list memo same
    refine sound.held (?_ : _ ∈ world.holdsOf ref)
    unfold storage? body? at found
    rw [holdsOf]
    cases present : world.object? ref with
    | none => simp [present] at found
    | some object =>
      cases body : object.body with
      | var kept =>
        obtain rfl : kept = storage := by simpa [present, body] using found
        unfold Storage.evaluated at same
        split at same
        next => cases same
        next formula _ =>
          cases same
          simp [Object.holds, body]
        next impossible => exact (impossible _ _ same).elim
      | _ => simp [present, body] at found
  next => exact .refl

theorem safe_requireChangeable : Safe .gentle (requireChangeable ref) world fun _ after =>
    after = world ∧ world.isConstant ref = false := by
  refine .look ?_
  split
  next => exact .look .raise
  next changeable => exact .pure ⟨rfl, Bool.not_eq_true _ ▸ changeable⟩

theorem safe_requireKind {allowed : Kind → Bool} {target : Kind} :
    Safe .gentle (requireKind allowed target ref) world fun _ after =>
      after = world ∧ allowed (world.kindOf ref) = true := by
  refine .look ?_
  split
  next fits => exact .pure ⟨rfl, fits⟩
  next => exact .look .raise

theorem safe_demand {name : String} : Safe .gentle (demand ref name) world fun found after =>
    after = world ∧ found = ref ∧ world.isLive ref = true := by
  refine .look ?_
  split
  next live => exact .pure ⟨rfl, rfl, live⟩
  next => exact .raise

theorem safe_element {slot : Slot} : Safe .gentle (element slot) world fun found after =>
    after = world ∧ (world.Knows slot → world.isLive found = true) := by
  rcases slot with element | ⟨target, name⟩
  · exact .pure ⟨rfl, fun knows => knows.held element rfl⟩
  · exact safe_demand.weaken fun found after _ _ ⟨same, eq, live⟩ => ⟨same, fun _ => eq ▸ live⟩

theorem safe_elements : Safe .gentle (elements list) world fun found after =>
    ∀ other ∈ found, after.isLive other = true := by
  refine .with_sound fun sound => .look ?_
  have all : Safe .gentle ((world.slots list).mapM element) world fun found after =>
      found.length = (world.slots list).length ∧ ∀ other ∈ found, after.isLive other = true := by
    refine .mapM (fun found after => after.isLive found = true) (fun slot inside after began => ?_)
      fun _ _ _ later live => later.isLive live
    exact safe_element.weaken fun found last _ _ ⟨same, live⟩ => same ▸ live (began.knows (sound.knows inside))
  exact all.weaken fun _ _ _ _ found => found.2

theorem Safe.whileBusy {act : Act α} {post : α → World → Prop}
    (inner : ∀ before, before.Sound → Follows .gentle world before → Safe freedom act before post)
    (stable : ∀ value {before after}, Follows .gentle before after → post value before → post value after) :
    Safe freedom (whileBusy list act) world post := by
  intro sound
  have began : Follows .gentle world (world.setBusy list true) := follows_setBusy sound
  have soundBefore := began.sound sound
  have ran := inner _ soundBefore began soundBefore
  unfold Act.whileBusy
  cases went : act (world.setBusy list true) with
  | ok result after =>
    rw [went] at ran
    have ended : Follows .gentle after (after.setBusy list false) := follows_setBusy (ran.1.sound soundBefore)
    exact ⟨((began.weaken).trans ran.1).trans (ended.weaken), stable _ ended ran.2⟩
  | error stop after =>
    rw [went] at ran
    have ended : Follows .gentle after (after.setBusy list false) := follows_setBusy (ran.sound soundBefore)
    exact ((began.weaken).trans ran).trans (ended.weaken)

/-! Reading, where the values of other objects can be read safely. -/

/-- Reading any object in any world is safe, and gives a value that is rounded. -/
def Reads (read : Ref → Act Scalar) : Prop := ∀ ref world, Safe .gentle (read ref) world fun value _ => value.Exact

variable {read : Ref → Act Scalar} {config : Config}

theorem Reads.flattenWith (reads : Reads read) : Safe .gentle (flattenWith read config list) world fun _ _ => True := by
  refine .look ?_
  split
  next => exact .pure trivial
  next =>
    refine .whileBusy (fun before _ _ => .look ?_) fun _ _ _ _ => id
    refine .foldlM trivial fun slot _ text after _ _ => ?_
    apply safe_element.bind
    intro found after _ _ _
    exact (reads found after).bind fun _ _ _ _ _ => .compute_bind fun _ _ => .pure trivial

private theorem safe_readSetting {which : Setting} :
    Safe .gentle (readSetting which config) world fun value _ => value.Exact := by
  refine .look ?_
  cases which with
  | strictLists => exact .pure trivial
  | _ => exact .pure Number.exact_integer

theorem Reads.readBinding (reads : Reads read) {binding : Binding}
    (exact : ∀ value ∈ (Storage.bound binding).value?, value.Exact) :
    Safe .gentle (readBinding read config binding) world fun value _ => value.Exact := by
  cases binding with
  | cell value readOnly => exact .pure (exact value rfl)
  | length list name => exact safe_demand.bind fun _ _ _ _ _ => .look (.pure Number.exact_integer)
  | precision target name =>
    apply safe_demand.bind
    intro target after _ _ _
    exact (reads target after).bind fun _ _ _ _ _ => .pure Number.exact_integer
  | ownerName owner => exact safe_demand.bind fun _ _ _ _ _ => .look (.pure trivial)
  | beenSaid block => exact safe_demand.bind fun _ _ _ _ _ => .look (.pure trivial)
  | setting which => exact safe_readSetting

theorem Reads.readFormula (reads : Reads read) {formula : Formula} :
    Safe .gentle (readFormula read config formula) world fun value _ => value.Exact := by
  cases formula with
  | fullName owner => exact safe_demand.bind fun _ _ _ _ _ => .look (.pure trivial)
  | text list => exact reads.flattenWith.bind fun _ _ _ _ _ => .pure trivial
  | calls count => exact .pure Number.exact_integer
  | pi => exact .pure Number.exact_rounded

theorem Reads.valueWith (reads : Reads read) : Reads (valueWith read config) := by
  intro ref world
  refine .with_sound fun sound => .look ?_
  have kept {storage : Storage} (found : world.body? ref = some (.var storage)) :
      ∀ value ∈ storage.value?, value.Exact :=
    (sound.grounded (content?_eq_some_var.mpr (storage?_eq_some.mpr found))).exact storage rfl
  split
  next value found => exact .pure (kept found value rfl)
  next found => exact reads.readBinding (kept found)
  next found =>
    split
    next recalled => exact .pure (kept found _ (Memo.value?_of_recalled? recalled))
    next =>
      apply reads.readFormula.bind
      intro value after sound _ exact
      exact Safe.update_bind (follows_evaluate sound exact) fun _ _ _ _ => .pure exact
  next => exact reads.flattenWith.bind fun _ _ _ _ _ => .pure trivial
  next => exact .look (.pure trivial)

private theorem reads_valueWithin (fuel : Nat) : Reads (valueWithin fuel config) := by
  induction fuel with
  | zero => exact fun _ _ => .throw
  | succ fuel ih => exact ih.valueWith

theorem reads_value : Reads (value config) := fun ref world => .look (reads_valueWithin _ ref world)

theorem safe_flatten : Safe .gentle (flatten config list) world fun _ _ => True := reads_value.flattenWith

theorem safe_textOf : Safe .gentle (textOf config ref) world fun _ _ => True :=
  (reads_value ref world).bind fun _ _ _ _ _ => .compute fun _ _ => trivial

theorem safe_numberOf : Safe .gentle (numberOf config ref) world fun number _ => number.Exact :=
  (reads_value ref world).bind fun _ _ _ _ exact => .compute fun _ read => Scalar.exact_asNumber exact read

theorem safe_truthOf : Safe .gentle (truthOf config ref) world fun _ _ => True :=
  (reads_value ref world).bind fun _ _ _ _ _ => .compute fun _ _ => trivial

/-! New objects. -/

theorem safe_add {object : Object} (unowned : object.parent = none)
    (bare : ∀ data ∈ object.scope?, data.members = {} ∧ data.imports = [])
    (held : ∀ other ∈ object.holds, world.isLive other = true)
    (grounded : object.content.Grounded world.heap.size world.heap.size) (empty : object.slots = []) :
    Safe .gentle (add object) world fun made after => made = world.heap.size ∧ after = world.add object :=
  fun _ => ⟨.of_change (.make unowned bare held grounded (.inl empty)) rfl, rfl, rfl⟩

theorem isLive_size_add {object : Object} : (world.add object).isLive world.heap.size = true := by
  rw [isLive_add, beq_self_eq_true, Bool.true_or]

/-- A new object that keeps nothing alive. -/
theorem safe_add_free {object : Object} (unowned : object.parent = none)
    (bare : ∀ data ∈ object.scope?, data.members = {} ∧ data.imports = []) (free : object.holds = [])
    (grounded : object.content.Grounded world.heap.size world.heap.size) (empty : object.slots = []) :
    Safe .gentle (add object) world fun made after => after.isLive made = true ∧
      after.kindOf made = object.kind := by
  have held : ∀ other ∈ object.holds, world.isLive other = true := by
    rw [free]
    exact fun _ impossible => by cases impossible
  refine (safe_add unowned bare held grounded empty).weaken fun made after _ _ ⟨fresh, same⟩ => ?_
  subst fresh same
  exact ⟨isLive_size_add, by simp [kindOf, object?_add]⟩

/-- A new variable that keeps nothing alive. -/
theorem safe_addVariable {name : String} {storage : Storage} {constant : Bool}
    (exact : ∀ value ∈ storage.value?, value.Exact) (older : ∀ source ∈ storage.source?, source < world.heap.size)
    (free : ({ name, body := .var storage, constant } : Object).holds = []) :
    Safe .gentle (add { name, body := .var storage, constant }) world fun made after => after.isLive made = true := by
  refine (safe_add_free rfl ?_ free (Body.grounded_var exact older) rfl).weaken fun _ _ _ _ found => found.1
  exact fun _ impossible => by cases impossible

/-- One that keeps no value either. -/
theorem safe_addEmptyVariable {name : String} {storage : Storage} {constant : Bool} (empty : storage.value? = none)
    (older : ∀ source ∈ storage.source?, source < world.heap.size)
    (free : ({ name, body := .var storage, constant } : Object).holds = []) :
    Safe .gentle (add { name, body := .var storage, constant }) world fun made after => after.isLive made = true :=
  safe_addVariable (by rw [empty]; exact fun _ none => nomatch none) older free

theorem safe_addValue {name : String} {value : Scalar} (exact : value.Exact) :
    Safe .gentle (addValue name value) world fun made after => after.isLive made = true :=
  safe_addVariable (by rintro _ ⟨⟩; exact exact) (Storage.older_of_alone rfl) rfl

end Dialogue.Act
