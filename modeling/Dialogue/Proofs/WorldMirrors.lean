import Dialogue.Proofs.ReadingTermination

/-! Worlds that look alike to readings. A reading sees the bodies of what it depends on, but of π only the value,
and of other objects the names, the owners and what scopes are. A region that readings do not leave may look alike
in two worlds that differ elsewhere. -/

namespace Dialogue

namespace Storage

/-- The object that a variable is a view of: another variable, or a list. -/
def shown? : Storage → Option Ref
  | .bound (.precision target _) => some target
  | .derived (.text list) _ => some list
  | _ => none

/-- What readings under a config see: of π, and of a count that is kept, nothing but the value. -/
def seen (config : Config) : Storage → Storage
  | .derived .pi memo => .stored ((memo.recalled? config).getD
      (.number (.rounded (.pi config.precision) config.precision config.rounding)))
  | .derived (.calls count) memo => (memo.recalled? config).elim (.derived (.calls count) memo) .stored
  | storage => storage

/-- Whether reading it under a config leaves it as it is, apart from a value of π that is kept. -/
def Pure (config : Config) : Storage → Prop
  | .derived .pi _ => True
  | .derived (.calls _) memo => (memo.recalled? config).isSome = true
  | .derived _ memo => memo = .never
  | _ => True

variable {config : Config} {storage other : Storage}

/-- What a variable is a view of is older. -/
theorem source?_of_shown? {source : Ref} (shows : storage.shown? = some source) : storage.source? = some source := by
  rcases storage with _ | binding | ⟨formula, _⟩
  · cases shows
  · cases binding with
    | precision => exact shows
    | _ => cases shows
  · cases formula with
    | text => exact shows
    | _ => cases shows

theorem shown?_seen : (storage.seen config).shown? = storage.shown? := by
  rcases storage with _ | _ | ⟨formula, memo⟩
  · rfl
  · rfl
  · cases formula with
    | calls count => cases recalled : memo.recalled? config <;> simp [seen, recalled, shown?]
    | _ => rfl

private theorem seen_eq_self (worked : ∀ value, storage.seen config ≠ .stored value) :
    storage.seen config = storage := by
  rcases storage with _ | _ | ⟨formula, memo⟩
  · rfl
  · rfl
  · cases formula with
    | pi => exact absurd rfl (worked _)
    | calls count =>
      cases recalled : memo.recalled? config with
      | none => simp [seen, recalled]
      | some value => exact absurd (by simp [seen, recalled]) (worked value)
    | _ => rfl

private theorem pure_seen : (storage.seen config).Pure config ↔ storage.Pure config := by
  rcases storage with _ | _ | ⟨formula, memo⟩
  · rfl
  · rfl
  · cases formula with
    | calls count => cases recalled : memo.recalled? config <;> simp [seen, recalled, Pure]
    | _ => rfl

/-- A value that is seen is kept, or it is π. -/
theorem seen_derived {formula : Formula} {memo : Memo} {value : Scalar}
    (seen : (derived formula memo).seen config = .stored value) : memo.recalled? config = some value ∨
      memo.recalled? config = none ∧ formula = .pi ∧
        value = .number (.rounded (.pi config.precision) config.precision config.rounding) := by
  cases formula with
  | pi => cases recalled : memo.recalled? config <;> simp_all [Storage.seen]
  | calls count => cases recalled : memo.recalled? config <;> simp_all [Storage.seen]
  | _ => cases seen

/-- What has to be worked out each time that it is read: full names and texts, which no one keeps. -/
theorem Pure.worked {formula : Formula} {memo : Memo} (pure : (derived formula memo).Pure config)
    (worked : ∀ value, (derived formula memo).seen config ≠ .stored value) :
    memo = .never ∧ ((∃ owner, formula = .fullName owner) ∨ ∃ list, formula = .text list) := by
  cases formula with
  | fullName owner => exact ⟨pure, .inl ⟨owner, rfl⟩⟩
  | text list => exact ⟨pure, .inr ⟨list, rfl⟩⟩
  | calls count =>
    obtain ⟨value, recalled⟩ := Option.isSome_iff_exists.mp pure
    exact absurd (by simp [seen, recalled]) (worked value)
  | pi => exact absurd rfl (worked _)

end Storage

namespace Body

/-- What readings under a config see of a body. -/
def seen (config : Config) : Body → Body
  | .var storage => .var (storage.seen config)
  | body => body

def setBusy (busy : Bool) : Body → Body
  | .list data => .list { data with busy }
  | body => body

private theorem seen_setBusy {config : Config} {busy : Bool} {body : Body} :
    (body.setBusy busy).seen config = (body.seen config).setBusy busy := by
  cases body <;> rfl

end Body

namespace Object

/-- What a reading sees of an object besides values and elements. -/
structure Outside where
  name : String
  parent : Option Ref
  scope : Option ScopeData

def outside (object : Object) : Outside := ⟨object.name, object.parent, object.scope?⟩

end Object

namespace World

variable {world after beside : World} {ref other list : Ref} {config : Config} {region : Ref → Prop} {storage : Storage}

def outside? (world : World) (ref : Ref) : Option Object.Outside := (world.object? ref).map Object.outside

theorem isLive_eq_outside? : world.isLive ref = (world.outside? ref).isSome := by
  rw [isLive, outside?, Option.isSome_map]

theorem nameOf_eq_outside? : world.nameOf ref = (world.outside? ref).elim "" (·.name) := by
  rw [nameOf, outside?]
  cases world.object? ref <;> rfl

private theorem block?_eq_outside? : world.block? ref = ((world.outside? ref).bind (·.scope)).bind fun data =>
    match data.role with
    | .block block => some block
    | _ => none := by
  rw [block?, role?, scope?_eq, outside?]
  cases world.object? ref with
  | none => rfl
  | some object =>
    cases scope : object.scope? with
    | none => simp [Object.outside, scope]
    | some data => cases role : data.role <;> simp [Object.outside, scope, role]

theorem parent?_eq_outside? : world.parent? ref = ((world.outside? ref).bind (·.parent)).filter world.isLive := by
  rw [parent?, outside?]
  cases world.object? ref with
  | none => rfl
  | some object =>
    cases parent : object.parent with
    | none => simp [Object.outside, parent, bind, Option.bind]
    | some owner => simp [Object.outside, parent, bind, Option.bind, Option.filter]

/-- Full names depend on names and owners. -/
theorem fullName_of_outside (same : ∀ ref, after.outside? ref = world.outside? ref)
    (size : after.heap.size = world.heap.size) : after.fullName ref = world.fullName ref := by
  have live : after.isLive = world.isLive := funext fun other => by rw [isLive_eq_outside?, same, ← isLive_eq_outside?]
  have parent (other : Ref) : after.parent? other = world.parent? other := by
    rw [parent?_eq_outside?, parent?_eq_outside?, same, live]
  have within (fuel : Nat) (other : Ref) : lineageWithin fuel after other = lineageWithin fuel world other := by
    induction fuel generalizing other with
    | zero => rfl
    | succ fuel ih => simp only [lineageWithin, parent, ih]
  rw [fullName, fullName, lineage, lineage, within, size]
  refine congrArg Identifier.join (List.map_congr_left fun other _ => ?_)
  rw [nameOf_eq_outside?, nameOf_eq_outside?, same]

/-- What is gone has no name. -/
theorem fullName_of_gone (gone : world.isLive ref = false) : world.fullName ref = Identifier.join [""] := by
  have absent : world.object? ref = none := by simpa [isLive] using gone
  have alone : world.lineage ref = [ref] := by simp [lineage, lineageWithin, parent?, absent]
  simp [fullName, alone, nameOf, absent]

/-- What a reading in a region meets looks alike in both worlds. -/
structure Mirrors (config : Config) (region : Ref → Prop) (world beside : World) : Prop where
  settings : beside.config = world.config
  bodies : ∀ ref, region ref → (beside.body? ref).map (Body.seen config) = (world.body? ref).map (Body.seen config)
  outside : ∀ ref, world.isLive ref = true →
    beside.outside? ref = world.outside? ref ∧ beside.fullName ref = world.fullName ref
  lengths : ∀ {ref list name}, region ref → world.storage? ref = some (.bound (.length list name)) →
    beside.length list = world.length list

/-- A reading that begins in a region stays in it, and leaves it as it is. -/
structure Legible (config : Config) (region : Ref → Prop) (world : World) : Prop where
  slots : ∀ {list slot}, region list → slot ∈ world.slots list → region slot.target
  shown : ∀ {ref storage source}, region ref → world.storage? ref = some storage → storage.shown? = some source →
    region source
  pure : ∀ {ref storage}, region ref → world.storage? ref = some storage → storage.Pure config

theorem Legible.or {also : Ref → Prop} (first : Legible config region world) (second : Legible config also world) :
    Legible config (fun ref => region ref ∨ also ref) world where
  slots inside member := inside.imp (first.slots · member) (second.slots · member)
  shown inside found shows := inside.imp (first.shown · found shows) (second.shown · found shows)
  pure inside found := inside.elim (first.pure · found) (second.pure · found)

private theorem storage?_seen : ((world.body? ref).map (Body.seen config)).bind Body.storage? =
    (world.storage? ref).map (Storage.seen config) := by
  rw [storage?]
  rcases world.body? ref with _ | _ | _ | _ | _ <;> rfl

private theorem list?_seen : ((world.body? ref).map (Body.seen config)).bind Body.list? = world.list? ref := by
  rw [list?]
  rcases world.body? ref with _ | _ | _ | _ | _ <;> rfl

private theorem isLive_eq_body? : world.isLive ref = ((world.body? ref).map (Body.seen config)).isSome := by
  rw [isLive, body?, Option.isSome_map, Option.isSome_map]

namespace Mirrors

variable (mirrors : Mirrors config region world beside)

include mirrors

theorem storage? (inside : region ref) :
    (beside.storage? ref).map (Storage.seen config) = (world.storage? ref).map (Storage.seen config) := by
  rw [← storage?_seen, ← storage?_seen, mirrors.bodies ref inside]

/-- What is not seen as a value is the same. -/
theorem storage?_eq (inside : region ref) (found : world.storage? ref = some storage)
    (worked : ∀ value, storage.seen config ≠ .stored value) : beside.storage? ref = some storage := by
  have seen := mirrors.storage? inside
  rw [found, Option.map_some] at seen
  obtain ⟨twin, there, same⟩ := Option.map_eq_some_iff.mp seen
  rw [there, ← Storage.seen_eq_self worked, ← same, Storage.seen_eq_self fun value => same ▸ worked value]

theorem list? (inside : region ref) : beside.list? ref = world.list? ref := by
  rw [← list?_seen, mirrors.bodies ref inside, list?_seen]

theorem slots (inside : region ref) : beside.slots ref = world.slots ref := by
  rw [World.slots, mirrors.list? inside, World.slots]

theorem isBusy (inside : region ref) : beside.isBusy ref = world.isBusy ref := by
  rw [World.isBusy, mirrors.list? inside, World.isBusy]

theorem isLive (inside : region ref) : beside.isLive ref = world.isLive ref := by
  rw [isLive_eq_body?, mirrors.bodies ref inside, ← isLive_eq_body?]

theorem stays (live : world.isLive ref = true) : beside.isLive ref = true := by
  rwa [isLive_eq_outside?, (mirrors.outside ref live).1, ← isLive_eq_outside?]

theorem nameOf (live : world.isLive ref = true) : beside.nameOf ref = world.nameOf ref := by
  rw [nameOf_eq_outside?, (mirrors.outside ref live).1, ← nameOf_eq_outside?]

theorem block? (live : world.isLive ref = true) : beside.block? ref = world.block? ref := by
  rw [block?_eq_outside?, (mirrors.outside ref live).1, ← block?_eq_outside?]

theorem fullName (inside : region ref) : beside.fullName ref = world.fullName ref := by
  by_cases live : world.isLive ref = true
  · exact (mirrors.outside ref live).2
  · have gone := Bool.not_eq_true _ ▸ live
    rw [fullName_of_gone gone, fullName_of_gone ((mirrors.isLive inside).trans gone)]

/-- What readings do not change looks alike too. -/
theorem trans {last : World} (second : Mirrors config region beside last) : Mirrors config region world last where
  settings := second.settings.trans mirrors.settings
  bodies ref inside := (second.bodies ref inside).trans (mirrors.bodies ref inside)
  outside ref live := by
    obtain ⟨same, name⟩ := second.outside ref (mirrors.stays live)
    exact ⟨same.trans (mirrors.outside ref live).1, name.trans (mirrors.outside ref live).2⟩
  lengths inside bound :=
    (second.lengths inside (mirrors.storage?_eq inside bound fun _ => nofun)).trans (mirrors.lengths inside bound)

theorem mono {smaller : Ref → Prop} (less : ∀ ref, smaller ref → region ref) : Mirrors config smaller world beside :=
  ⟨mirrors.settings, fun ref inside => mirrors.bodies ref (less ref inside), mirrors.outside,
    fun inside => mirrors.lengths (less _ inside)⟩

theorem legible (legible : Legible config region world) : Legible config region beside where
  slots inside member := legible.slots inside (mirrors.slots inside ▸ member)
  shown {ref storage source} inside found shows := by
    have seen := mirrors.storage? inside
    rw [found] at seen
    obtain ⟨former, there, same⟩ := Option.map_eq_some_iff.mp seen.symm
    refine legible.shown inside there ?_
    rw [← Storage.shown?_seen, same, Storage.shown?_seen, shows]
  pure {ref storage} inside found := by
    have seen := mirrors.storage? inside
    rw [found] at seen
    obtain ⟨former, there, same⟩ := Option.map_eq_some_iff.mp seen.symm
    rw [← Storage.pure_seen, ← same, Storage.pure_seen]
    exact legible.pure inside there

end Mirrors

theorem Mirrors.refl : Mirrors config region world world := ⟨rfl, fun _ _ => rfl, fun _ _ => ⟨rfl, rfl⟩, fun _ _ => rfl⟩

/-- What a region shows, where names, owners and lengths are the same everywhere. -/
theorem mirrors_of_bodies (settings : beside.config = world.config) (size : beside.heap.size = world.heap.size)
    (outside : ∀ ref, beside.outside? ref = world.outside? ref) (lengths : ∀ list, beside.length list = world.length list)
    (bodies : ∀ ref, region ref → (beside.body? ref).map (Body.seen config) = (world.body? ref).map (Body.seen config)) :
    Mirrors config region world beside :=
  ⟨settings, bodies, fun ref _ => ⟨outside ref, fullName_of_outside outside size⟩, fun _ _ => lengths _⟩

theorem body?_evaluate (found : world.storage? ref = some storage) {value : Scalar} :
    (world.evaluate ref value config).body? other =
      if ref = other then some (.var (storage.evaluated value config)) else world.body? other := by
  rw [evaluate, found]
  dsimp only
  rw [setStorage, body?, object?_change, body?]
  split
  next here =>
    obtain ⟨object, present, body⟩ := Option.map_eq_some_iff.mp (storage?_eq_some.mp found)
    simp [← here, present, body]
  next => rfl

/-- A value that is kept is seen where it would have been worked out. -/
private theorem seen_evaluate (found : world.storage? ref = some storage) {value : Scalar}
    (same : (storage.evaluated value config).seen config = storage.seen config) :
    ((world.evaluate ref value config).body? other).map (Body.seen config) = (world.body? other).map (Body.seen config) := by
  rw [body?_evaluate found]
  split
  next here =>
    rw [← here, storage?_eq_some.mp found]
    exact congrArg (fun storage => some (Body.var storage)) same
  next => rfl

theorem Undisturbed.outside? (undisturbed : world.Undisturbed after) : after.outside? ref = world.outside? ref := by
  refine undisturbed.view (Option.map Object.outside) fun object => congrArg some ?_
  unfold Object.essence
  split
  next body => simp [Object.outside, Object.scope?, body]
  next => rfl

theorem mem_holdsOf_of_text {memo : Memo} (found : world.storage? ref = some (.derived (.text list) memo)) :
    list ∈ world.holdsOf ref := by
  obtain ⟨object, present, same⟩ := Option.map_eq_some_iff.mp (storage?_eq_some.mp found)
  simp [holdsOf, present, Object.holds, same]

theorem Undisturbed.holdsOf (undisturbed : world.Undisturbed after) : after.holdsOf ref = world.holdsOf ref := by
  refine undisturbed.view (fun found => found.elim [] Object.holds) fun object => ?_
  obtain ⟨name, body, constant, parent⟩ := object
  cases body with
  | var storage =>
    rcases storage with _ | _ | ⟨formula, _⟩
    · rfl
    · rfl
    · cases formula <;> rfl
  | _ => rfl

theorem body?_setBusy {busy : Bool} : (world.setBusy list busy).body? ref =
    if list = ref then (world.body? ref).map (Body.setBusy busy) else world.body? ref := by
  rw [body?, object?_setBusy, body?]
  split
  · cases world.object? ref with
    | none => rfl
    | some object =>
      obtain ⟨name, body, constant, parent⟩ := object
      cases body <;> rfl
  · rfl

theorem outside?_setBusy {busy : Bool} : (world.setBusy list busy).outside? ref = world.outside? ref := by
  rw [outside?, object?_setBusy, outside?]
  split
  · cases world.object? ref with
    | none => rfl
    | some object =>
      obtain ⟨name, body, constant, parent⟩ := object
      cases body <;> rfl
  · rfl

private theorem fullName_setBusy {busy : Bool} : (world.setBusy list busy).fullName ref = world.fullName ref :=
  fullName_of_outside (fun _ => outside?_setBusy) heap_size_change

theorem Mirrors.setBusy {busy : Bool} (mirrors : Mirrors config region world beside) :
    Mirrors config region (world.setBusy list busy) (beside.setBusy list busy) where
  settings := mirrors.settings
  bodies ref inside := by
    rw [body?_setBusy, body?_setBusy]
    split
    · rw [Option.map_map, Option.map_map]
      simp only [Function.comp_def, Body.seen_setBusy]
      simpa only [Option.map_map, Function.comp_def] using congrArg (Option.map (Body.setBusy busy)) (mirrors.bodies ref inside)
    · exact mirrors.bodies ref inside
  outside ref live := by
    rw [isLive_eq_outside?, outside?_setBusy, ← isLive_eq_outside?] at live
    rw [outside?_setBusy, outside?_setBusy, fullName_setBusy, fullName_setBusy]
    exact mirrors.outside ref live
  lengths inside bound := by
    rw [World.setBusy, storage?_changeList] at bound
    rw [length, slots_setBusy, length, slots_setBusy]
    exact mirrors.lengths inside bound

/-- A list outside of a region may be busy or not. -/
theorem mirrors_setBusy {busy : Bool} (apart : ¬ region list) : Mirrors config region world (world.setBusy list busy) ∧
    Mirrors config region (world.setBusy list busy) world := by
  have bodies (ref : Ref) (inside : region ref) : (world.setBusy list busy).body? ref = world.body? ref := by
    rw [body?_setBusy, if_neg fun here : list = ref => apart (here ▸ inside)]
  have lengths (other : Ref) : (world.setBusy list busy).length other = world.length other := congrArg _ slots_setBusy
  constructor
  · exact mirrors_of_bodies rfl heap_size_change (fun _ => outside?_setBusy) lengths fun ref inside => by
      rw [bodies ref inside]
  · exact mirrors_of_bodies rfl heap_size_change.symm (fun _ => outside?_setBusy.symm) (fun other => (lengths other).symm)
      fun ref inside => by rw [bodies ref inside]

theorem Legible.setBusy {busy : Bool} (legible : Legible config region world) :
    Legible config region (world.setBusy list busy) where
  slots inside member := legible.slots inside (slots_setBusy ▸ member)
  shown inside found := legible.shown inside (storage?_changeList ▸ found)
  pure inside found := legible.pure inside (storage?_changeList ▸ found)

/-- A world that readings may have led to from another one, and in which they see the same in a region. -/
structure Twins (config : Config) (region : Ref → Prop) (world after : World) : Prop where
  undisturbed : world.Undisturbed after
  bodies : ∀ ref, region ref → (after.body? ref).map (Body.seen config) = (world.body? ref).map (Body.seen config)

namespace Twins

theorem refl : Twins config region world world := ⟨.refl, fun _ _ => rfl⟩

theorem trans {last : World} (first : Twins config region world after) (second : Twins config region after last) :
    Twins config region world last :=
  ⟨first.undisturbed.trans second.undisturbed, fun ref inside => (second.bodies ref inside).trans (first.bodies ref inside)⟩

theorem evaluate (found : world.storage? ref = some storage) {value : Scalar}
    (same : (storage.evaluated value config).seen config = storage.seen config) :
    Twins config region world (world.evaluate ref value config) :=
  ⟨.evaluate, fun _ _ => seen_evaluate found same⟩

/-- A list that was not busy looks as it did once it is not busy any more. -/
theorem whileBusy (free : world.isBusy list = false) (twins : Twins config region (world.setBusy list true) after) :
    Twins config region world (after.setBusy list false) := by
  refine ⟨twins.undisturbed.whileBusy free, fun ref inside => ?_⟩
  have same := twins.bodies ref inside
  rw [body?_setBusy] at same ⊢
  split at same
  next here =>
    subst here
    rw [if_pos rfl, Option.map_map]
    rw [isBusy, list?] at free
    have later := congrArg (Option.map (Body.setBusy false)) same
    simp only [Option.map_map, Function.comp_def, Body.seen_setBusy] at later ⊢
    rw [later]
    cases body : world.body? list with
    | none => rfl
    | some found =>
      cases found with
      | list data =>
        obtain ⟨slots, busy⟩ := data
        simp only [body, Option.any_some] at free
        rw [free]
        rfl
      | _ => rfl
  next other => rwa [if_neg other]

variable (twins : Twins config region world after)

include twins

theorem forth : Mirrors config region world after where
  settings := by rw [twins.undisturbed.rest]
  bodies := twins.bodies
  outside _ _ := ⟨twins.undisturbed.outside?, fullName_of_outside (fun _ => twins.undisturbed.outside?) twins.undisturbed.size⟩
  lengths _ _ := congrArg List.length twins.undisturbed.slots

theorem back : Mirrors config region after world where
  settings := by rw [twins.undisturbed.rest]
  bodies ref inside := (twins.bodies ref inside).symm
  outside _ _ := ⟨twins.undisturbed.outside?.symm,
    (fullName_of_outside (fun _ => twins.undisturbed.outside?) twins.undisturbed.size).symm⟩
  lengths _ _ := (congrArg List.length twins.undisturbed.slots).symm

end Twins

end World

end Dialogue
